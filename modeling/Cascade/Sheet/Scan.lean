import Cascade.Sheet.Block
import Cascade.Sheet.Selector
import Cascade.Sheet.Token
import Cascade.Text.Position

/-!
# Scanning a stylesheet

A scan walks the source once and never rejects it. An unclosed comment or block
takes the rest of the source, an @-rule without a block is dropped, and text with
no block behind it becomes a trailing token.
-/

namespace Cascade

inductive Problem where
  | unterminatedComment
  | textWithoutBlock
  | unbalancedBlock
deriving DecidableEq

def Problem.message : Problem → Bytes
  | .unterminatedComment => text "unterminated comment"
  | .textWithoutBlock => text "text without block"
  | .unbalancedBlock => text "unbalanced block"

/-- What a scan meets, in source order. -/
inductive Event where
  | token (t : Token)
  /-- An @-rule without a block, trimmed. -/
  | dropped (rule : Bytes)
  /-- A recovery from malformed text at a byte offset. -/
  | recovered (offset : Nat) (problem : Problem)
deriving DecidableEq

/-- A problem and where it was met. -/
structure Warning where
  position : Position
  problem : Problem
deriving DecidableEq

/-- A warning as `line:column: problem`. -/
def Warning.message (w : Warning) : Bytes :=
  Bytes.ofNat w.position.line ++ text ":" ++ Bytes.ofNat w.position.column ++ text ": " ++
    w.problem.message

/-- The top-level tokens of one source, and its recoveries. -/
structure Sheet where
  tokens : List Token
  warnings : List Warning
deriving DecidableEq

namespace Scan

/-- The events of one step, and how many of the lexemes behind the first it takes. -/
structure Step where
  events : List Event
  used : Nat

/-- The block of an item that starts at `offset`. The opening brace stands at
`opener`, `taken` lexemes behind the first one lie before or at it, and `ls`
follows it. -/
def blockStep (offset opener taken : Nat) (item : Bytes → Item) (ls : List Lexeme) : Step :=
  match Lexeme.block 0 ls with
  | some (body, _) =>
    ⟨[.token ⟨item (Lexeme.source body), offset⟩], taken + body.length + 1⟩
  | none =>
    ⟨[.recovered opener .unbalancedBlock, .token ⟨item (Lexeme.source ls), offset⟩],
      taken + ls.length⟩

/-- An @-rule. `ls` is what follows the `@`. -/
def atRuleStep (offset : Nat) (ls : List Lexeme) : Step :=
  match Lexeme.before (fun b => b == Lexeme.openBrace || b == Lexeme.semicolon) ls with
  | (pre, .code b :: rest) =>
    if b == Lexeme.openBrace then
      blockStep offset (offset + 1 + Lexeme.extent pre) (pre.length + 1)
        (.atRule (Lexeme.source pre).trim) rest
    else ⟨[.dropped (Bytes.trim (0x40 :: Lexeme.source pre ++ [b]))], pre.length + 1⟩
  | (pre, _) => ⟨[.dropped (Bytes.trim (0x40 :: Lexeme.source pre))], pre.length⟩

/-- A plain rule, or trailing text. `ls` starts with its first lexeme. -/
def ruleStep (offset : Nat) (ls : List Lexeme) : Step :=
  match Lexeme.before (· == Lexeme.openBrace) ls with
  | (pre, _ :: rest) =>
    blockStep offset (offset + Lexeme.extent pre) pre.length (.rule (Lexeme.source pre).trim) rest
  | (pre, []) =>
    ⟨[.recovered offset .textWithoutBlock, .token ⟨.other (Lexeme.source pre), offset⟩],
      pre.length - 1⟩

/-- The step at `l :: ls`, which starts at `offset`. -/
def step (offset : Nat) (l : Lexeme) (ls : List Lexeme) : Step :=
  match l with
  | .comment t closed =>
    if closed then ⟨[.token ⟨.comment t, offset⟩], 0⟩
    else ⟨[.recovered offset .unterminatedComment, .token ⟨.comment t, offset⟩], 0⟩
  | .code b =>
    let (symbol, tails) := Utf8.read b (Lexeme.codeAhead 3 ls)
    if symbol.isBlank then ⟨[], tails⟩
    else if b == 0x40 then atRuleStep offset ls
    else ruleStep offset (l :: ls)

/-- The events from `offset` on, once `skip` lexemes have been passed over. -/
def eventsFrom : (skip offset : Nat) → List Lexeme → List Event
  | _, _, [] => []
  | k + 1, offset, l :: ls => eventsFrom k (offset + l.bytes.length) ls
  | 0, offset, l :: ls =>
    let s := step offset l ls
    s.events ++ eventsFrom s.used (offset + l.bytes.length) ls

/-- Everything a scan of `source` meets. -/
def events (source : Bytes) : List Event := eventsFrom 0 0 (Lexeme.ofBytes source)

end Scan

def Event.token? : Event → Option Token
  | .token t => some t
  | _ => none

def Event.warning? (source : Bytes) : Event → Option Warning
  | .recovered offset problem => some ⟨.ofOffset source offset, problem⟩
  | _ => none

namespace Sheet

def scan (source : Bytes) : Sheet :=
  let es := Scan.events source
  ⟨es.filterMap Event.token?, es.filterMap (Event.warning? source)⟩

def rules (sheet : Sheet) : List Rule := sheet.tokens.filterMap fun t => t.item.rule?

/-- The rules whose selector is `selector` up to white space. -/
def rulesFor (sheet : Sheet) (selector : Bytes) : List Rule :=
  sheet.rules.filter fun r => normalize r.selector == normalize selector

end Sheet

end Cascade
