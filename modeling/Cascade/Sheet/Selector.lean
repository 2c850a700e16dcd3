import Cascade.Text.Blank

/-!
# Selectors up to white space
-/

namespace Cascade

/-- The canonical form of a selector: its words with one space between them. Two
rules are the same rule if their selectors have one canonical form. -/
def normalize (selector : Bytes) : Bytes :=
  Bytes.join (text " ") (selector.words.map Utf8.spell)

end Cascade
