import Cascade.Text.Bytes

/-!
# Reading bytes as UTF-8

Every byte text is a sequence of symbols: the characters it spells, and single
stray bytes where it spells none. Spelling the symbols out again gives the text
back, so nothing is lost on a text that is not valid UTF-8.
-/

namespace Cascade

/-- What UTF-8 reads at one place: a character, or a byte that starts none. -/
inductive Symbol where
  | char (c : Char)
  | stray (b : UInt8)
deriving DecidableEq

namespace Symbol

def bytes : Symbol → Bytes
  | .char c => String.utf8EncodeChar c
  | .stray b => [b]

def isChar : Symbol → Bool
  | .char _ => true
  | .stray _ => false

end Symbol

namespace Utf8

/-- A byte that continues a character. -/
def isTail (b : UInt8) : Bool := 0x80 ≤ b && b ≤ 0xBF

/-- The bytes that may follow the lead byte `a` of three or four bytes. The
bounds keep out overlong forms, surrogates and values above U+10FFFF. -/
def follows (a b : UInt8) : Bool :=
  if a == 0xE0 then 0xA0 ≤ b && b ≤ 0xBF
  else if a == 0xED then 0x80 ≤ b && b ≤ 0x9F
  else if a == 0xF0 then 0x90 ≤ b && b ≤ 0xBF
  else if a == 0xF4 then 0x80 ≤ b && b ≤ 0x8F
  else isTail b

def tailBits (b : UInt8) : Nat := b.toNat % 64

/-- Reads the symbol at `a :: rest`: the symbol, and how many bytes of `rest` belong to it. -/
def read (a : UInt8) (rest : Bytes) : Symbol × Nat :=
  if a < 0x80 then (.char (Char.ofNat a.toNat), 0)
  else if 0xC2 ≤ a && a ≤ 0xDF then
    match rest with
    | b :: _ =>
      if isTail b then (.char (Char.ofNat (a.toNat % 32 * 64 + tailBits b)), 1)
      else (.stray a, 0)
    | [] => (.stray a, 0)
  else if 0xE0 ≤ a && a ≤ 0xEF then
    match rest with
    | b :: c :: _ =>
      if follows a b && isTail c then
        (.char (Char.ofNat (a.toNat % 16 * 4096 + tailBits b * 64 + tailBits c)), 2)
      else (.stray a, 0)
    | _ => (.stray a, 0)
  else if 0xF0 ≤ a && a ≤ 0xF4 then
    match rest with
    | b :: c :: d :: _ =>
      if follows a b && isTail c && isTail d then
        (.char (Char.ofNat
          (a.toNat % 8 * 262144 + tailBits b * 4096 + tailBits c * 64 + tailBits d)), 3)
      else (.stray a, 0)
    | _ => (.stray a, 0)
  else (.stray a, 0)

/-- The symbols of a text once `skip` bytes of it have been passed over. -/
def symbolsFrom : (skip : Nat) → Bytes → List Symbol
  | _, [] => []
  | k + 1, _ :: s => symbolsFrom k s
  | 0, a :: s => (read a s).1 :: symbolsFrom (read a s).2 s

def symbols (s : Bytes) : List Symbol := symbolsFrom 0 s

def spell (ys : List Symbol) : Bytes := ys.flatMap Symbol.bytes

/-- A text is valid if it has no stray byte. -/
def isValid (s : Bytes) : Bool := (symbols s).all Symbol.isChar

def chars? (s : Bytes) : Option (List Char) :=
  (symbols s).mapM fun
    | .char c => some c
    | .stray _ => none

def ofChars (cs : List Char) : Bytes := cs.flatMap String.utf8EncodeChar

end Utf8

end Cascade
