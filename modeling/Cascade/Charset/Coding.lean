import Cascade.Charset.Table.Ibm
import Cascade.Charset.Table.Iso
import Cascade.Charset.Table.Koi8
import Cascade.Charset.Table.Windows
import Cascade.Charset.Utf16
import Cascade.Codecs
import Cascade.Text.Utf8

/-!
# How bytes spell characters

UTF-8 is checked and left as it is. Every other coding reads every byte text,
and a byte that spells nothing reads as U+FFFD.
-/

namespace Cascade.Charset

inductive Coding where
  | utf8
  /-- ASCII, with a table for the bytes from `80` on. -/
  | upper (table : Array Nat)
  /-- A table for all bytes. -/
  | full (table : Array Nat)
  /-- UTF-16 in an order, or in the one that its mark tells. -/
  | utf16 (order : Option Utf16.Order)
  | multibyte (set : Multibyte)
deriving DecidableEq

namespace Coding

def fromTable (table : Array Nat) (i : Nat) : Char := Char.ofNat (table.getD i 0xFFFD)

/-- The character of a byte, where `table` has the bytes from `80` on. -/
def upperChar (table : Array Nat) (b : UInt8) : Char :=
  if b < 0x80 then Char.ofNat b.toNat else fromTable table (b.toNat - 0x80)

/-- A text in UTF-8. Only UTF-8 can fail: its bytes must be valid. -/
def decode? [Codecs] (coding : Coding) (s : Bytes) : Option Bytes :=
  match coding with
  | .utf8 => if Utf8.isValid s then some s else none
  | .upper table => some (Utf8.ofChars (s.map (upperChar table)))
  | .full table => some (Utf8.ofChars (s.map fun b => fromTable table b.toNat))
  | .utf16 (some order) => some (Utf8.ofChars (Utf16.decode order s))
  | .utf16 none => some (Utf8.ofChars (Utf16.decodeMarked s))
  | .multibyte set => some (Codecs.decode set s)

end Coding

end Cascade.Charset
