import Cascade.Sheet.Lexeme
import Cascade.Text.Blank

/-!
# Declarations

The body of a rule is a sequence of declarations that end with a semicolon. What
has no colon is no declaration and is passed over.
-/

namespace Cascade

/-- A property and its value, both trimmed. -/
structure Declaration where
  property : Bytes
  value : Bytes
deriving DecidableEq

/-- The text of a lexeme once closed comments are taken out. -/
def Lexeme.stripped : Lexeme → Bytes
  | .code b => [b]
  | .comment t closed => if closed then [] else t

/-- The text without its comments. A comment that never closes stays. -/
def stripComments (s : Bytes) : Bytes := (Lexeme.ofBytes s).flatMap Lexeme.stripped

namespace Declaration

def colon : UInt8 := 0x3A

/-- Reads what stands between two semicolons. The value starts behind the first colon. -/
def ofSegment? (segment : Bytes) : Option Declaration :=
  (Bytes.cut colon segment.trim).map fun p => ⟨p.1.trim, p.2.trim⟩

def parse (body : Bytes) : List Declaration :=
  ((stripComments body).splitOn Lexeme.semicolon).filterMap ofSegment?

/-- A declaration on a line of its own, below the line before. -/
def line (d : Declaration) : Bytes :=
  text "\n  " ++ d.property ++ text ": " ++ d.value ++ text ";"

def format (ds : List Declaration) : Bytes := ds.flatMap line ++ text "\n"

end Declaration

end Cascade
