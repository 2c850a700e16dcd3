import Cascade.Sheet.Lexeme

/-!
# Blocks

A block runs from an opening brace to the closing brace that matches it, where
braces inside comments do not count.
-/

namespace Cascade

open Lexeme

/-- What stands before the first code byte that satisfies `p`, and the rest from that byte on. -/
def Lexeme.before (p : UInt8 → Bool) (ls : List Lexeme) : List Lexeme × List Lexeme :=
  ls.span fun l => !l.isCode p

/-- The interior of a block and what follows it. The lexemes start behind the
opener; `depth` counts the inner blocks that are still open. None if the block
is not closed. -/
def Lexeme.block : (depth : Nat) → List Lexeme → Option (List Lexeme × List Lexeme)
  | _, [] => none
  | depth, .comment t c :: ls =>
    (block depth ls).map fun p => (.comment t c :: p.1, p.2)
  | depth, .code b :: ls =>
    if b == openBrace then
      (block (depth + 1) ls).map fun p => (.code b :: p.1, p.2)
    else if b == closeBrace then
      match depth with
      | 0 => some ([], ls)
      | d + 1 => (block d ls).map fun p => (.code b :: p.1, p.2)
    else (block depth ls).map fun p => (.code b :: p.1, p.2)

end Cascade
