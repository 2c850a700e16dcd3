import Cascade.Text.Bytes

/-!
# Reading UTF-16

Bytes pair up to units, and a high and a low surrogate to a character. What
pairs with nothing reads as U+FFFD, so every byte text can be read.
-/

namespace Cascade.Charset.Utf16

inductive Order where
  | big
  | little
deriving DecidableEq

def replacement : Char := Char.ofNat 0xFFFD

def unit (order : Order) (a b : UInt8) : Nat :=
  match order with
  | .big => a.toNat * 256 + b.toNat
  | .little => b.toNat * 256 + a.toNat

/-- The units of a text, and whether a single byte is left over. -/
def units (order : Order) : Bytes → List Nat × Bool
  | [] => ([], false)
  | [_] => ([], true)
  | a :: b :: s =>
    let r := units order s
    (unit order a b :: r.1, r.2)

def isSurrogate (u : Nat) : Bool := 0xD800 ≤ u && u ≤ 0xDFFF

def isLow (u : Nat) : Bool := 0xDC00 ≤ u && u ≤ 0xDFFF

def single (u : Nat) : Char := if isSurrogate u then replacement else Char.ofNat u

def pair (u v : Nat) : Char :=
  if isLow u then replacement else Char.ofNat (0x10000 + (u - 0xD800) * 1024 + (v - 0xDC00))

def chars : List Nat → List Char
  | [] => []
  | [u] => [single u]
  | u :: v :: us =>
    if isSurrogate u && isLow v then pair u v :: chars us
    else single u :: chars (v :: us)

def decode (order : Order) (s : Bytes) : List Char :=
  let r := units order s
  chars r.1 ++ if r.2 then [replacement] else []

/-- Reads a text in the order of its byte order mark, which is not part of it;
without one the order is big endian. -/
def decodeMarked : Bytes → List Char
  | 0xFE :: 0xFF :: s => decode .big s
  | 0xFF :: 0xFE :: s => decode .little s
  | s => decode .big s

end Cascade.Charset.Utf16
