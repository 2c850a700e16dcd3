import Cascade.Text.Blank
import Cascade.Text.Printing

/-!
# Texts between quotation marks

Two ways to show a text on one line between double quotes: one for messages,
where all that does not print is escaped, and one for log fields, where only
control characters are.
-/

namespace Cascade

/-- The last `n` hexadecimal digits of a number, in lower case. -/
def hexDigits : (n : Nat) → Nat → Bytes
  | 0, _ => []
  | n + 1, v => hexDigits n (v / 16) ++ [Bytes.hexDigit (v % 16).toUInt8]

/-- The letter behind the backslash for characters that have one. -/
def escapeLetter? (c : Char) : Option UInt8 :=
  match c.toNat with
  | 0x07 => some 0x61
  | 0x08 => some 0x62
  | 0x0C => some 0x66
  | 0x0A => some 0x6E
  | 0x0D => some 0x72
  | 0x09 => some 0x74
  | 0x0B => some 0x76
  | 0x22 => some 0x22
  | 0x5C => some 0x5C
  | _ => none

/-- A symbol as it stands between the quotes of a message. -/
def Symbol.escaped : Symbol → Bytes
  | .stray b => text "\\x" ++ Bytes.hexByte b
  | .char c =>
    match escapeLetter? c with
    | some l => [0x5C, l]
    | none =>
      if prints c then String.utf8EncodeChar c
      else if c.toNat < 0x80 then text "\\x" ++ hexDigits 2 c.toNat
      else if c.toNat < 0x10000 then text "\\u" ++ hexDigits 4 c.toNat
      else text "\\U" ++ hexDigits 8 c.toNat

/-- A symbol as it stands between the quotes of a log field. A stray byte shows
as the replacement character's escape. -/
def Symbol.fieldEscaped : Symbol → Bytes
  | .stray _ => text "\\ufffd"
  | .char c =>
    match c.toNat with
    | 0x0A => text "\\n"
    | 0x0D => text "\\r"
    | 0x09 => text "\\t"
    | 0x22 => text "\\\""
    | 0x5C => text "\\\\"
    | n => if n < 0x20 then text "\\u" ++ hexDigits 4 n else String.utf8EncodeChar c

namespace Bytes

def quoted (s : Bytes) : Bytes :=
  text "\"" ++ (Utf8.symbols s).flatMap Symbol.escaped ++ text "\""

def fieldQuoted (s : Bytes) : Bytes :=
  text "\"" ++ (Utf8.symbols s).flatMap Symbol.fieldEscaped ++ text "\""

end Bytes

end Cascade
