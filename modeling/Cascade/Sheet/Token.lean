import Cascade.Text.Bytes

/-!
# Top-level items of a stylesheet
-/

namespace Cascade

/-- What a token holds. A token made by hand may hold nothing. -/
inductive Item where
  /-- A comment, opener and closer included. -/
  | comment (text : Bytes)
  /-- An @-rule with a block: the trimmed text behind `@`, and the interior of the block. -/
  | atRule (header body : Bytes)
  /-- A plain rule: the trimmed selector, and the interior of the block, comments included. -/
  | rule (selector body : Bytes)
  /-- Trailing text without a block. -/
  | other (text : Bytes)
  | blank
deriving DecidableEq

/-- An item and the byte offset where it starts in its source. -/
structure Token where
  item : Item
  offset : Int
deriving DecidableEq

inductive Kind where
  | comment
  | atRule
  | rule
  | other
deriving DecidableEq

namespace Kind

def ofIndex? (n : Int) : Option Kind :=
  if n = 0 then some .comment
  else if n = 1 then some .atRule
  else if n = 2 then some .rule
  else if n = 3 then some .other
  else none

def name : Kind → Bytes
  | .comment => text "comment"
  | .atRule => text "at-rule"
  | .rule => text "rule"
  | .other => text "other"

def nameOf (n : Int) : Bytes := ((ofIndex? n).map name).getD (text "unknown")

end Kind

/-- The kind of an item; an item that holds nothing counts as other text. -/
def Item.kind : Item → Kind
  | .comment _ => .comment
  | .atRule _ _ => .atRule
  | .rule _ _ => .rule
  | .other _ => .other
  | .blank => .other

structure Rule where
  selector : Bytes
  body : Bytes
deriving DecidableEq

def Item.rule? : Item → Option Rule
  | .rule selector body => some ⟨selector, body⟩
  | _ => none

end Cascade
