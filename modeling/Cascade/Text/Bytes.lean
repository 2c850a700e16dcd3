/-!
# Byte texts

A stylesheet is read, cut and written as bytes. Offsets and sizes count bytes,
texts are ordered by bytes, and a text need not be valid UTF-8.
-/

namespace Cascade

abbrev Bytes : Type := List UInt8

def text (s : String) : Bytes := s.toUTF8.data.toList

namespace Bytes

/-- `pre.opens s`: the text `s` starts with `pre`. -/
def opens (pre s : Bytes) : Bool := pre.isPrefixOf s

/-- `suf.ends s`: the text `s` ends with `suf`. -/
def ends (suf s : Bytes) : Bool := suf.isSuffixOf s

/-- Splits at the first `sep`, which belongs to neither part. -/
def cut (sep : UInt8) : Bytes → Option (Bytes × Bytes)
  | [] => none
  | b :: s => if b == sep then some ([], s) else (cut sep s).map fun p => (b :: p.1, p.2)

/-- The order of texts: byte by byte, a proper beginning before what extends it. -/
def le : Bytes → Bytes → Bool
  | [], _ => true
  | _ :: _, [] => false
  | a :: s, b :: t => a < b || (a == b && le s t)

theorem le_iff {s t : Bytes} : le s t = true ↔ s ≤ t := by
  fun_induction le s t with
  | case1 t => simp
  | case2 b s => simp
  | case3 a s b t ih => simp [List.cons_le_cons_iff, ih]

/-- Puts `sep` between the parts. -/
def join (sep : Bytes) (parts : List Bytes) : Bytes := sep.intercalate parts

/-- The decimal digits of a number, without leading zeros. -/
def ofNat (n : Nat) : Bytes := (Nat.toDigits 10 n).map Char.toUInt8

/-- A number in decimal, with a minus sign if it is negative. -/
def ofInt : Int → Bytes
  | .ofNat n => ofNat n
  | .negSucc n => text "-" ++ ofNat (n + 1)

/-- The lower-case hexadecimal digit of the low four bits of a byte. -/
def hexDigit (n : UInt8) : UInt8 :=
  let d := n &&& 0xF
  if d < 10 then 0x30 + d else 0x57 + d

def hexByte (b : UInt8) : Bytes := [hexDigit (b >>> 4), hexDigit b]

def lower (s : Bytes) : Bytes :=
  s.map fun b => if 0x41 ≤ b && b ≤ 0x5A then b + 0x20 else b

end Bytes

end Cascade
