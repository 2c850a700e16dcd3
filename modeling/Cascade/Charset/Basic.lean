import Cascade.Charset.Registry
import Cascade.Text.Blank

/-!
# Character sets

A source is read from a character set into UTF-8. A set is selected by any of its
registered names.
-/

namespace Cascade

structure Charset where
  /-- The registered name. -/
  name : Bytes
  coding : Charset.Coding
deriving DecidableEq

namespace Charset

/-- The set that is read if none is asked for. -/
def utf8 : Charset := ⟨text "UTF-8", .utf8⟩

/-- Why a name selects no character set. -/
inductive Fault where
  | unknown (name : Bytes)
  | unsupported (name : Bytes)
deriving DecidableEq

def Fault.message : Fault → Bytes
  | .unknown name =>
    text "unknown character set '" ++ name ++ text "': ianaindex: invalid encoding name"
  | .unsupported name => text "unsupported character set '" ++ name ++ text "'"

/-- The symbol in lower case, as far as that is ASCII: besides the capital letters,
the dotted capital I and the Kelvin sign have a small letter there. -/
def lowerSymbol : Symbol → Symbol
  | .char c =>
    if c.toNat == 0x130 then .char 'i'
    else if c.toNat == 0x212A then .char 'k'
    else .char c.toLower
  | .stray b => .stray b

/-- A name in the form in which names are compared: case and surrounding white
space do not count. -/
def key (name : Bytes) : Bytes := Utf8.spell ((Utf8.symbols name.trim).map lowerSymbol)

/-- The set that a name selects. The empty name selects UTF-8. -/
def ofName (name : Bytes) : Except Fault Charset :=
  if name.isEmpty then .ok utf8
  else
    match registered? (key name) with
    | none => .error (.unknown name)
    | some ⟨_, _, none⟩ => .error (.unsupported name)
    | some ⟨name, _, some coding⟩ => .ok ⟨name, coding⟩

/-- A text in UTF-8, unless the set is UTF-8 and the text is not valid. -/
def decode? [Codecs] (charset : Charset) (s : Bytes) : Option Bytes := charset.coding.decode? s

end Charset

end Cascade
