import Cascade.Merge.Table
import Cascade.Sink

/-!
# Writing a stylesheet with its rules merged

Comments, @-rules and trailing text are written as they stand. A rule of the
table is written once, where its entry says, with the merged declarations. The
pieces are separated by a line feed.
-/

namespace Cascade

def Entry.format (e : Entry) : Bytes :=
  e.selector ++ [Lexeme.openBrace] ++ Declaration.format e.declarations ++ [Lexeme.closeBrace]

namespace Output

/-- What the token at `index` adds to the output. A rule that the table does not
know is written as it stands. -/
def piece? (table : Table) (index : Nat) : Item → Option Bytes
  | .comment t => some t
  | .other t => some t
  | .atRule header body => some (text "@" ++ header ++ [Lexeme.openBrace] ++ body ++ [Lexeme.closeBrace])
  | .rule selector body =>
    match table.get? (normalize selector) with
    | none => some (selector ++ [Lexeme.openBrace] ++ body ++ [Lexeme.closeBrace])
    | some e => if e.last = index then some e.format else none
  | .blank => none

def pieces (table : Table) (tokens : List Token) : List Bytes :=
  tokens.zipIdx.filterMap fun p => piece? table p.2 p.1.item

/-- The pieces as they are written: each but the first brings its separator along. -/
def chunks : List Bytes → List Bytes
  | [] => []
  | p :: ps => p :: ps.map (text "\n" ++ ·)

def writeTo (sink : Sink) (table : Table) (tokens : List Token) : Written :=
  sink.writeAll (chunks (pieces table tokens))

def render (table : Table) (tokens : List Token) : Bytes :=
  Bytes.join (text "\n") (pieces table tokens)

end Output

def Sheet.deduplicated (sheet : Sheet) : Bytes := Output.render sheet.table sheet.tokens

end Cascade
