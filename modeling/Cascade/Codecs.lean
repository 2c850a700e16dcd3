import Cascade.Text.Bytes

/-!
# Codecs from outside

Reading the East Asian character sets and packing contents is left to libraries with
tables and methods of their own. All that is known of them here is that there is no
text they cannot read and no content they cannot pack.
-/

namespace Cascade

/-- The character sets that spell a character with several bytes, or switch between tables. -/
inductive Multibyte where
  | shiftJis
  | eucJp
  | eucKr
  | iso2022Jp
  | gbk
  | gb18030
  | big5
  | hz
deriving DecidableEq

class Codecs where
  /-- The text in UTF-8. -/
  decode (set : Multibyte) (s : Bytes) : Bytes
  /-- How many bytes the content takes when it is packed. -/
  packedSize (content : Bytes) : Nat

namespace Codecs

/-- Codecs without tables and methods. They leave every text and content as it is. -/
scoped instance plain : Codecs where
  decode _ s := s
  packedSize := List.length

end Codecs

end Cascade
