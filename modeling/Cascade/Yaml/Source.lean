import Cascade.Charset.Utf16
import Cascade.Text.Utf8

/-!
# Characters of a document

A document is read in portions of a fixed number of bytes, each when a character
of it is asked for. A portion that cannot be read spoils the document only if it
is reached, so what stands far behind the first document does not matter.
-/

namespace Cascade.Yaml

inductive Fault where
  /-- The bytes spell no text, or a control character is among them. -/
  | unreadable
  /-- There is nothing but comments and blank lines. -/
  | empty
  /-- The structure is broken. -/
  | malformed
  /-- A part is not of the kind that is wanted, or is not known. -/
  | unexpected
deriving DecidableEq

def Fault.message : Fault → Bytes
  | .unreadable => text "yaml: control characters are not allowed"
  | .empty => text "EOF"
  | .malformed => text "yaml: malformed document"
  | .unexpected => text "yaml: unexpected field or value"

def isAllowed (c : Char) : Bool :=
  let n := c.toNat
  n == 0x09 || n == 0x0A || n == 0x0D || (0x20 ≤ n && n ≤ 0x7E) || n == 0x85 ||
  (0xA0 ≤ n && n != 0xFFFE && n != 0xFFFF)

/-- The character that stands behind the last one. No document holds it. -/
def finish : Char := Char.ofNat 0

def orderMark : Char := Char.ofNat 0xFEFF

def isBreak (c : Char) : Bool :=
  let n := c.toNat
  n == 0x0A || n == 0x0D || n == 0x85 || n == 0x2028 || n == 0x2029

def isGap (c : Char) : Bool := c == ' ' || c == '\t'

def endsLine (c : Char) : Bool := c == finish || isBreak c

def endsWord (c : Char) : Bool := isGap c || endsLine c

def isWord (c : Char) : Bool :=
  ('0' ≤ c && c ≤ '9') || ('A' ≤ c && c ≤ 'Z') || ('a' ≤ c && c ≤ 'z') || c == '_' || c == '-'

/-! ## Portions -/

inductive Spelling where
  | utf8
  | utf16 (order : Charset.Utf16.Order)
deriving DecidableEq

/-- The spelling that the byte order mark shows, and the length of the mark. -/
def Spelling.detect : Bytes → Spelling × Nat
  | 0xFF :: 0xFE :: _ => (.utf16 .little, 2)
  | 0xFE :: 0xFF :: _ => (.utf16 .big, 2)
  | 0xEF :: 0xBB :: 0xBF :: _ => (.utf8, 3)
  | _ => (.utf8, 0)

/-- What is found at the start of some bytes. -/
inductive Glyph where
  /-- A character and the number of its bytes. -/
  | char (c : Char) (width : Nat)
  /-- The beginning of a character. -/
  | cut
  /-- No character. -/
  | broken
deriving DecidableEq

/-- How many bytes a character has that starts with this one. -/
def width? (a : UInt8) : Option Nat :=
  if a < 0x80 then some 1
  else if 0xC0 ≤ a && a < 0xE0 then some 2
  else if 0xE0 ≤ a && a < 0xF0 then some 3
  else if 0xF0 ≤ a && a < 0xF8 then some 4
  else none

def Spelling.glyph (spelling : Spelling) (s : Bytes) : Glyph :=
  match spelling, s with
  | .utf8, a :: r =>
    match width? a with
    | none => .broken
    | some n =>
      if (r.drop (n - 2)).isEmpty && n != 1 then .cut
      else
        match Utf8.read a r with
        | (.char c, k) => .char c (k + 1)
        | (.stray _, _) => .broken
  | .utf16 order, a :: b :: r =>
    let u := Charset.Utf16.unit order a b
    if Charset.Utf16.isLow u then .broken
    else if Charset.Utf16.isSurrogate u then
      match r with
      | c :: d :: _ =>
        let v := Charset.Utf16.unit order c d
        if Charset.Utf16.isLow v then .char (Charset.Utf16.pair u v) 4 else .broken
      | _ => .cut
    else .char (Char.ofNat u) 2
  | _, _ => .cut

/-- The characters of a portion, and the bytes behind them that only begin one. -/
def Spelling.chars (spelling : Spelling) : (skip : Nat) → Bytes → Option (List Char × Bytes)
  | _, [] => some ([], [])
  | skip + 1, _ :: s => spelling.chars skip s
  | 0, a :: s =>
    match spelling.glyph (a :: s) with
    | .broken => none
    | .cut => some ([], a :: s)
    | .char c n =>
      if isAllowed c then (spelling.chars (n - 1) s).map fun p => (c :: p.1, p.2) else none

def portionSize : Nat := 512

/-- The portions of a document that can be read, and whether these are all. What
is left of a portion, `carry`, goes in front of the next one. -/
def Spelling.portions (spelling : Spelling) :
    (fuel : Nat) → (carry rest : Bytes) → List (List Char) × Bool
  | 0, _, _ => ([], false)
  | fuel + 1, carry, rest =>
    let size := portionSize - carry.length
    match rest.take size with
    | [] => ([], carry.isEmpty)
    | raw =>
      match spelling.chars 0 (carry ++ raw) with
      | none => ([], false)
      | some (cs, carry) =>
        let (portions, intact) := spelling.portions fuel carry (rest.drop size)
        (cs :: portions, intact)

/-! ## Sources -/

structure Source where
  /-- The characters that are known and not passed yet. -/
  ahead : List Char
  /-- The portions that are not asked for yet. -/
  later : List (List Char)
  /-- The document ends behind these portions, and does not break off. -/
  intact : Bool
  /-- What has been known since the last portion came starts with a byte order mark. -/
  marked : Bool
deriving DecidableEq

namespace Source

/-- A document of which nothing has been read. Its byte order mark does not belong to it. -/
def ofBytes (s : Bytes) : Source :=
  let (spelling, mark) := Spelling.detect s
  let first := s.take portionSize
  match spelling.chars 0 (first.drop mark) with
  | none => ⟨[], [], false, false⟩
  | some (cs, carry) =>
    let (portions, intact) := spelling.portions (s.length + 1) carry (s.drop portionSize)
    ⟨[], cs :: portions, intact, false⟩

/-- At least `n` characters of a list. -/
def reaches : (n : Nat) → List Char → Bool
  | 0, _ => true
  | _ + 1, [] => false
  | n + 1, _ :: s => reaches n s

/-- Takes portions until `n` characters are known, or the end. -/
def fill (n : Nat) : (ahead : List Char) → (later : List (List Char)) → (intact : Bool) →
    Option (List Char × List (List Char))
  | ahead, [], intact => if intact then some (ahead ++ [finish], []) else none
  | ahead, portion :: later, intact =>
    let ahead := ahead ++ portion
    if reaches n ahead then some (ahead, later) else fill n ahead later intact

/-- Makes `n` characters known, or all there are. -/
def need (s : Source) (n : Nat) : Except Fault Source :=
  if reaches n s.ahead then .ok s
  else
    match fill n s.ahead s.later s.intact with
    | none => .error .unreadable
    | some (ahead, later) => .ok ⟨ahead, later, s.intact, ahead.head? == some orderMark⟩

/-- The character `k` places ahead. -/
def look (s : Source) (k : Nat) : Char := s.ahead.getD k finish

/-- Passes `k` characters. -/
def drop (s : Source) (k : Nat) : Source := { s with ahead := s.ahead.drop k }

end Source

end Cascade.Yaml
