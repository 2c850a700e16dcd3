import Cascade.Text.Bytes

/-!
# Bytes as letters

Three bytes are written as four letters of an alphabet of 64. A text whose length
is no multiple of three is filled up with equals signs.
-/

namespace Cascade.Base64

def letter (n : Nat) : UInt8 :=
  (if n < 26 then 0x41 + n
  else if n < 52 then 0x61 + (n - 26)
  else if n < 62 then 0x30 + (n - 52)
  else if n = 62 then 0x2B else 0x2F).toUInt8

def value? (b : UInt8) : Option Nat :=
  if 0x41 ≤ b && b ≤ 0x5A then some (b.toNat - 0x41)
  else if 0x61 ≤ b && b ≤ 0x7A then some (b.toNat - 0x61 + 26)
  else if 0x30 ≤ b && b ≤ 0x39 then some (b.toNat - 0x30 + 52)
  else if b == 0x2B then some 62
  else if b == 0x2F then some 63
  else none

def filler : UInt8 := 0x3D

def encode : Bytes → Bytes
  | a :: b :: c :: s =>
    let n := a.toNat * 65536 + b.toNat * 256 + c.toNat
    letter (n / 262144) :: letter (n / 4096 % 64) :: letter (n / 64 % 64) :: letter (n % 64) ::
      encode s
  | [a, b] =>
    let n := a.toNat * 256 + b.toNat
    [letter (n / 1024), letter (n / 16 % 64), letter (n % 16 * 4), filler]
  | [a] => [letter (a.toNat / 4), letter (a.toNat % 4 * 16), filler, filler]
  | [] => []

/-- The text that groups of four letters spell. Only the last group may be filled up. -/
def groups : Bytes → Option Bytes
  | [] => some []
  | [p, q, r, t] =>
    if t == filler then
      if r == filler then do
        let n := (← value? p) * 64 + (← value? q)
        some [(n / 16).toUInt8]
      else do
        let n := (← value? p) * 4096 + (← value? q) * 64 + (← value? r)
        some [(n / 1024).toUInt8, (n / 4 % 256).toUInt8]
    else whole p q r t
  | p :: q :: r :: t :: s => do return (← whole p q r t) ++ (← groups s)
  | _ => none
where
  /-- The three bytes of four letters. -/
  whole (p q r t : UInt8) : Option Bytes := do
    let n := (← value? p) * 262144 + (← value? q) * 4096 + (← value? r) * 64 + (← value? t)
    some [(n / 65536).toUInt8, (n / 256 % 256).toUInt8, (n % 256).toUInt8]

/-- The text that letters spell. Line breaks between them do not count. -/
def decode? (s : Bytes) : Option Bytes := groups (s.filter fun b => b != 0x0A && b != 0x0D)

end Cascade.Base64
