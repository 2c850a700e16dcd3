import Cascade.Text.Utf8

/-!
# Lines and columns

The place of a byte offset in a source, as a reader counts it: lines from one,
and columns from one in characters.
-/

namespace Cascade

/-- A place in a source, both numbers from one. -/
structure Position where
  line : Nat
  column : Nat
deriving DecidableEq

namespace Position

/-- One unit of the count: how many bytes it takes, and whether a line ends with it. -/
structure Stride where
  width : Nat
  ends : Bool

/-- A lead byte and what follows it, taken at face value: tail bytes are not
checked, and a unit that the source cuts short takes what is left. -/
def leadStride (a : UInt8) (rest : Bytes) : Stride :=
  let isEnd (n : Nat) : Bool := n == 0x2028 || n == 0x2029
  match rest with
  | [] => ⟨1, false⟩
  | [b] => ⟨2, isEnd (a.toNat % 32 * 64 + Utf8.tailBits b)⟩
  | b :: c :: rest' =>
    if a < 0xE0 then ⟨2, isEnd (a.toNat % 32 * 64 + Utf8.tailBits b)⟩
    else
      match rest' with
      | [] => ⟨3, isEnd (a.toNat % 16 * 4096 + Utf8.tailBits b * 64 + Utf8.tailBits c)⟩
      | d :: _ =>
        if a < 0xF0 then
          ⟨3, isEnd (a.toNat % 16 * 4096 + Utf8.tailBits b * 64 + Utf8.tailBits c)⟩
        else
          ⟨4, isEnd (a.toNat % 8 * 262144 + Utf8.tailBits b * 4096 + Utf8.tailBits c * 64 +
            Utf8.tailBits d)⟩

/-- The unit at `a :: rest`. A line ends with a line feed, a carriage return, the
two together, or one of the two Unicode separators. -/
def stride (a : UInt8) (rest : Bytes) : Stride :=
  if a == 0x0A then ⟨1, true⟩
  else if a == 0x0D then
    match rest with
    | 0x0A :: _ => ⟨2, true⟩
    | _ => ⟨1, true⟩
  else if 0xC0 ≤ a then leadStride a rest
  else ⟨1, false⟩

/-- Counts on from the start of a unit, or from `skip` bytes before one. `left`
is the distance still to go, `row` what the current line holds so far, last byte
first. A unit of several bytes that reaches beyond the offset is not entered. -/
def countFrom : (skip left line : Nat) → (row : Bytes) → Bytes → Position
  | _, _, line, row, [] => ⟨line, 1 + (Utf8.symbols row.reverse).length⟩
  | k + 1, left, line, row, _ :: s => countFrom k left line row s
  | 0, left, line, row, a :: s =>
    let u := stride a s
    if left = 0 ∨ (1 < u.width ∧ left < u.width) then
      ⟨line, 1 + (Utf8.symbols row.reverse).length⟩
    else if u.ends then countFrom (u.width - 1) (left - u.width) (line + 1) [] s
    else
      countFrom (u.width - 1) (left - u.width) line (((a :: s).take u.width).reverse ++ row) s

def ofOffset (source : Bytes) (offset : Nat) : Position := countFrom 0 offset 1 [] source

end Position

end Cascade
