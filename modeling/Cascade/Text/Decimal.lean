import Cascade.Text.Integer

/-!
# Decimal literals

A decimal literal stands for the nearest number with 53 binary digits, a tie
going to the even one. Only the whole part of that number is of interest here.
-/

namespace Cascade

/-- The number `mantissa · 10 ^ exponent`, negated if `negative`. -/
structure Decimal where
  negative : Bool
  mantissa : Nat
  exponent : Int
deriving DecidableEq

namespace Decimal

def period : UInt8 := 0x2E

def digitsValue (s : Bytes) : Nat := s.foldl (fun n b => n * 10 + (b.toNat - 0x30)) 0

/-- Reads an exponent, which may be left out but not in part. -/
def exponent? : Bytes → Option Int
  | [] => some 0
  | e :: s =>
    if Integer.lowerByte e == 0x65 then
      let (negative, digits) := Integer.sign s
      if digits.isEmpty || !digits.all Integer.isDigit then none
      else
        let n : Int := digitsValue digits
        some (if negative then -n else n)
    else none

/-- Reads digits with a period among them, before or behind all of them, and an exponent. -/
def parse? (s : Bytes) : Option Decimal :=
  let (negative, s) := Integer.sign s
  let whole := s.takeWhile Integer.isDigit
  let s := s.dropWhile Integer.isDigit
  let (fraction, s) := match s with
    | b :: r => if b == period then (r.takeWhile Integer.isDigit, r.dropWhile Integer.isDigit)
      else ([], s)
    | [] => ([], [])
  if whole.isEmpty && fraction.isEmpty then none
  else (exponent? s).map fun e => ⟨negative, digitsValue (whole ++ fraction), e - fraction.length⟩

/-- The quotient rounded to the nearest whole number, a tie to the even one. -/
def roundDiv (num den : Nat) : Nat :=
  let q := num / den
  let r := num % den
  if 2 * r < den then q else if den < 2 * r then q + 1 else if q % 2 = 0 then q else q + 1

def width (n : Nat) : Nat := if n = 0 then 0 else n.log2 + 1

def precision : Nat := 53

/-- The whole part of `num / den` rounded to 53 binary digits. -/
def wholeOfRatio (num den : Nat) : Nat :=
  let w := width (num / den)
  if precision ≤ w then roundDiv num (den * Nat.pow 2 (w - precision)) * Nat.pow 2 (w - precision)
  else roundDiv (num * Nat.pow 2 (precision - w)) den / Nat.pow 2 (precision - w)

/-- The first number that is out of range. -/
def bound : Nat := Nat.pow 2 1024

/-- The absolute whole part of the number that a literal stands for, if it is in
range. Literals that are far too large or nearly zero are told by the number of
their digits. -/
def magnitude? (d : Decimal) : Option Nat :=
  if d.mantissa = 0 then some 0
  else
    let digits : Int := (Nat.toDigits 10 d.mantissa).length
    if 400 < digits + d.exponent then none
    else if digits + d.exponent < -20 then some 0
    else
      let n := if 0 ≤ d.exponent then wholeOfRatio (d.mantissa * Nat.pow 10 d.exponent.toNat) 1
        else wholeOfRatio d.mantissa (Nat.pow 10 (-d.exponent).toNat)
      if n < bound then some n else none

/-- The whole part, toward zero. -/
def whole? (d : Decimal) : Option Int :=
  d.magnitude?.map fun n => if d.negative then -(n : Int) else n

end Decimal

end Cascade
