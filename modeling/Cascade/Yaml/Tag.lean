import Cascade.Yaml.Scalar

/-!
# Names, tags and directives

Parts of a document may have a name, to which other parts refer, and a tag that
says what they are. Lines that start with a percent sign come before a document
and say how its tags are to be read.
-/

namespace Cascade.Yaml.Reading

def name : Reading Bytes := do
  skip
  let name ← takeWhile isWord
  let c ← look 0
  if name.isEmpty || !(endsWord c || ['?', ':', ',', ']', '\x7d', '%', '@', '\x60'].contains c) then
    broken
  else return Utf8.ofChars name

/-! ## Tags -/

/-- Characters of tags, other than those of names. -/
def tagMarks : List Char :=
  [';', '/', '?', ':', '@', '&', '=', '+', '$', ',', '.', '!', '~', '*', '\x27', '(', ')', '[',
    ']', '%']

def octet : Reading UInt8 := do
  need 3
  match hexValue? (← look 1), hexValue? (← look 2) with
  | some a, some b =>
    if (← look 0) == '%' then
      skipMany 3
      return (a * 16 + b).toUInt8
    else broken
  | _, _ => broken

def tailOctets : (n : Nat) → (out : Bytes) → Reading Bytes
  | 0, out => return out
  | n + 1, out => do
    let b ← octet
    if b &&& 0xC0 == 0x80 then tailOctets n (b :: out) else broken

/-- Reads the text of a tag behind what has been read, the last byte first. -/
def tagText : (fuel : Nat) → (out : Bytes) → Reading Bytes
  | 0, _ => broken
  | fuel + 1, out => do
    let c ← next
    if c == '%' then
      let a ← octet
      match width? a with
      | none => broken
      | some n => tagText fuel (← tailOctets (n - 1) (a :: out))
    else if isWord c || tagMarks.contains c then
      skip
      tagText fuel ((String.utf8EncodeChar c).reverse ++ out)
    else return out

def tagRest : Reading Bytes := do
  let out ← tagText (← fuel) []
  if out.isEmpty then broken else return out.reverse

/-- Reads a handle: an exclamation mark, and perhaps a word and another one. -/
def handle : Reading Bytes := do
  if (← next) == '!' then
    skip
    let word ← takeWhile isWord
    if (← look 0) == '!' then
      skip
      return Utf8.ofChars ('!' :: word ++ ['!'])
    else return Utf8.ofChars ('!' :: word)
  else broken

/-- A handle that ends with a second mark. -/
def isWhole (handle : Bytes) : Bool := 1 < handle.length && handle.getLast? == some 0x21

/-- Reads a tag: its handle and the text behind that. -/
def tagParts : Reading (Bytes × Bytes) := do
  need 2
  if (← look 1) == '<' then
    skipMany 2
    let suffix ← tagRest
    if (← look 0) == '>' then
      skip
      return ([], suffix)
    else broken
  else
    let start ← handle
    if isWhole start then return (start, ← tagRest)
    else
      let suffix := (← tagText (← fuel) (start.drop 1).reverse).reverse
      return if suffix.isEmpty then ([], start) else (start.take 1, suffix)

def tag : Reading Token := do
  let (handle, suffix) ← tagParts
  if endsWord (← next) then return .tag handle suffix else broken

/-! ## Directives -/

def versionNumber : Reading Nat := do
  let digits ← takeWhile fun c => '0' ≤ c && c ≤ '9'
  if digits.isEmpty || 2 < digits.length then broken
  else return digits.foldl (fun n c => n * 10 + (c.toNat - 0x30)) 0

def versionDirective : Reading Token := do
  skipGaps
  let major ← versionNumber
  if (← look 0) == '.' then
    skip
    return .version major (← versionNumber)
  else broken

def handleDirective : Reading Token := do
  skipGaps
  let name ← handle
  if (isWhole name || name == text "!") && isGap (← look 0) then
    skipGaps
    let expansion ← tagRest
    if endsWord (← look 0) then return .handle name expansion else broken
  else broken

def directive : Reading Token := do
  skip
  let name ← takeWhile isWord
  if !endsWord (← look 0) then broken
  else
    let token ←
      if name == ['Y', 'A', 'M', 'L'] then versionDirective
      else if name == ['T', 'A', 'G'] then handleDirective
      else broken
    skipGaps
    if (← look 0) == '#' then skipRest
    if endsLine (← look 0) then
      skipLine
      return token
    else broken

end Cascade.Yaml.Reading
