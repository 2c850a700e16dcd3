import Cascade.Text.Bytes

/-!
# Integer literals

An optional sign, then digits: decimal, or binary, octal or hexadecimal behind
`0b`, `0o` or `0x`, or octal behind a plain `0`. An underscore may stand between
digits and behind such a mark.
-/

namespace Cascade.Integer

inductive Fault where
  | malformed
  | outOfRange
deriving DecidableEq

def underscore : UInt8 := 0x5F

def isDigit (b : UInt8) : Bool := 0x30 ≤ b && b ≤ 0x39

def lowerByte (b : UInt8) : UInt8 := if 0x41 ≤ b && b ≤ 0x5A then b + 0x20 else b

def digit? (b : UInt8) : Option Nat :=
  let c := lowerByte b
  if isDigit c then some (c.toNat - 0x30)
  else if 0x61 ≤ c && c ≤ 0x7A then some (c.toNat - 0x57)
  else none

/-- The value of digits behind `n`. A value beyond `limit` is out of range, whatever follows. -/
def magnitude (base limit : Nat) : Nat → Bytes → Except Fault Nat
  | n, [] => .ok n
  | n, b :: s =>
    if b == underscore then magnitude base limit n s
    else
      match digit? b with
      | none => .error .malformed
      | some d =>
        if base ≤ d then .error .malformed
        else if limit < n * base + d then .error .outOfRange
        else magnitude base limit (n * base + d) s

/-- The base of an unsigned literal and its digits. -/
def split : Bytes → Nat × Bytes
  | 0x30 :: c :: d :: s =>
    if lowerByte c == 0x62 then (2, d :: s)
    else if lowerByte c == 0x6F then (8, d :: s)
    else if lowerByte c == 0x78 then (16, d :: s)
    else (8, c :: d :: s)
  | 0x30 :: s => (8, s)
  | s => (10, s)

/-- Every underscore stands behind a digit or a base mark and before a digit. -/
def spaced (behindDigit : Bool) (isDigit : UInt8 → Bool) : Bytes → Bool
  | [] => true
  | b :: s =>
    if b == underscore then
      behindDigit && (match s with | c :: _ => isDigit c | [] => false) && spaced false isDigit s
    else spaced (isDigit b) isDigit s

def underscoresOk (s : Bytes) : Bool :=
  match s with
  | 0x30 :: c :: rest =>
    if lowerByte c == 0x78 then
      spaced true (fun b => isDigit b || (0x61 ≤ lowerByte b && lowerByte b ≤ 0x66)) rest
    else if lowerByte c == 0x62 || lowerByte c == 0x6F then spaced true isDigit rest
    else spaced false isDigit s
  | _ => spaced false isDigit s

def maxWord : Nat := Nat.pow 2 64 - 1

def parseUnsigned (s : Bytes) : Except Fault Nat :=
  if s.isEmpty then .error .malformed
  else
    let (base, digits) := split s
    match magnitude base maxWord 0 digits with
    | .error e => .error e
    | .ok n => if underscoresOk s then .ok n else .error .malformed

/-- The sign of a literal, negative or not, and what follows it. -/
def sign : Bytes → Bool × Bytes
  | 0x2D :: s => (true, s)
  | 0x2B :: s => (false, s)
  | s => (false, s)

def parse (s : Bytes) : Except Fault Int :=
  let (negative, digits) := sign s
  match parseUnsigned digits with
  | .error e => .error e
  | .ok n =>
    if negative then if n ≤ Nat.pow 2 63 then .ok (-(n : Int)) else .error .outOfRange
    else if n < Nat.pow 2 63 then .ok n else .error .outOfRange

end Cascade.Integer
