import Cascade.Text.Utf8

/-!
# White space

White space is the Unicode property of that name. A stray byte is never white
space, so a lone `85` or `A0` stays where it is.
-/

namespace Cascade

def isBlank (c : Char) : Bool :=
  let n := c.toNat
  (0x09 ≤ n && n ≤ 0x0D) || n == 0x20 || n == 0x85 || n == 0xA0 || n == 0x1680 ||
  (0x2000 ≤ n && n ≤ 0x200A) || n == 0x2028 || n == 0x2029 || n == 0x202F ||
  n == 0x205F || n == 0x3000

def Symbol.isBlank : Symbol → Bool
  | .char c => Cascade.isBlank c
  | .stray _ => false

namespace Bytes

/-- The text without the white space at its two ends. -/
def trim (s : Bytes) : Bytes :=
  Utf8.spell
    ((((Utf8.symbols s).dropWhile Symbol.isBlank).reverse.dropWhile Symbol.isBlank).reverse)

/-- The maximal runs of symbols that are not white space, in order. -/
def words (s : Bytes) : List (List Symbol) :=
  ((Utf8.symbols s).splitOnP Symbol.isBlank).filter fun w => !w.isEmpty

def isBlank (s : Bytes) : Bool := (Utf8.symbols s).all Symbol.isBlank

end Bytes

end Cascade
