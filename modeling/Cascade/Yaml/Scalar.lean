import Cascade.Yaml.Token

/-!
# Scalars

A scalar is written plain, between single or double quotes, or as a block of
indented lines. In the first three, a line break between words reads as a space,
and further ones as themselves.
-/

namespace Cascade.Yaml

/-- What lies between two words of a scalar. -/
structure Between where
  /-- A line break is among it. -/
  broken : Bool
  /-- Spaces and tabs before the first line break, the last one first. -/
  gap : List Char
  /-- The first line break, unless it does not count. -/
  first : List Char
  /-- Further line breaks, the last one first. -/
  more : List Char
deriving DecidableEq

namespace Between

def nothing : Between := ⟨false, [], [], []⟩

/-- A line break that does not count. -/
def joint : Between := ⟨true, [], [], []⟩

/-- How it reads, the last character first. -/
def reversed (b : Between) : List Char :=
  if !b.broken then b.gap
  else if b.first == ['\n'] then if b.more.isEmpty then [' '] else b.more
  else b.more ++ b.first

/-- Takes one more space or tab. At the start of a line it does not count. -/
def addGap (b : Between) (c : Char) : Between := if b.broken then b else { b with gap := c :: b.gap }

/-- Takes one more line break. Spaces and tabs before the first do not count. -/
def addBreak (b : Between) (text : List Char) : Between :=
  if b.broken then { b with more := text.reverse ++ b.more } else ⟨true, [], text, []⟩

end Between

namespace Reading

/-- Passes what lies before the next word. Behind a line break, a tab in front of
column `indent` is a fault. -/
def between (indent : Int) : (fuel : Nat) → Between → Reading Between
  | 0, _ => broken
  | fuel + 1, b => do
    let c ← next
    if isGap c then
      if b.broken && c == '\t' && (← get).place.column < indent then broken
      else
        skip
        between indent fuel (b.addGap c)
    else if isBreak c then between indent fuel (b.addBreak (← takeLine))
    else return b

/-! ## Plain scalars -/

/-- A plain scalar ends before these: a colon, and between brackets also the marks there. -/
def endsPlain (flow : Bool) (c d : Char) : Bool :=
  (c == ':' && endsWord d) ||
  (flow && ([',', '[', ']', '\x7b', '\x7d'].contains c ||
    (c == '?' && (d == ' ' || endsLine d))))

/-- Reads a word of a plain scalar behind what has been read, the last character first. -/
def plainWord (flow : Bool) :
    (fuel : Nat) → (out : List Char) → Between → Reading (List Char × Between)
  | 0, _, _ => broken
  | fuel + 1, out, b => do
    let c ← look 0
    if endsWord c || endsPlain flow c (← look 1) then return (out, b)
    else
      skip
      need 2
      plainWord flow fuel (c :: (b.reversed ++ out)) .nothing

/-- Reads on in a plain scalar. Outside brackets, its further lines are indented
by at least `indent`. -/
def plainFrom (flow : Bool) (indent : Int) :
    (fuel : Nat) → (out : List Char) → Between → Reading (List Char × Between)
  | 0, _, _ => broken
  | fuel + 1, out, b => do
    need 4
    if (← atMarker) || (← look 0) == '#' then return (out, b)
    else
      let (out, b) ← plainWord flow (← Reading.fuel) out b
      let c ← look 0
      if isGap c || isBreak c then
        let b ← between indent (← Reading.fuel) b
        if !flow && (← get).place.column < indent then return (out, b)
        else plainFrom flow indent fuel out b
      else return (out, b)

/-- Reads a plain scalar. A key may follow it on a new line. -/
def plain : Reading Bytes := do
  let s ← get
  let (out, b) ← plainFrom (0 < s.flow) (s.indent + 1) (← fuel) [] .nothing
  if b.broken then modify fun s => { s with keys := true }
  return Utf8.ofChars out.reverse

/-! ## Quoted scalars -/

def hexValue? (c : Char) : Option Nat :=
  if '0' ≤ c && c ≤ '9' then some (c.toNat - 0x30)
  else if 'a' ≤ c && c ≤ 'f' then some (c.toNat - 0x57)
  else if 'A' ≤ c && c ≤ 'F' then some (c.toNat - 0x37)
  else none

def letterEscapes : List (Char × Nat) := [
  ('0', 0x00), ('a', 0x07), ('b', 0x08), ('t', 0x09), ('\t', 0x09), ('n', 0x0A), ('v', 0x0B),
  ('f', 0x0C), ('r', 0x0D), ('e', 0x1B), (' ', 0x20), ('\x22', 0x22), ('\x27', 0x27),
  ('\\', 0x5C), ('N', 0x85), ('_', 0xA0), ('L', 0x2028), ('P', 0x2029)]

/-- The letters before the number of a character, and how many digits it has. -/
def numberEscapes : List (Char × Nat) := [('x', 2), ('u', 4), ('U', 8)]

def skipMany : (n : Nat) → Reading Unit
  | 0 => return ()
  | n + 1 => do
    skip
    skipMany n

/-- Reads a number of `n` hexadecimal digits. -/
def hexNumber : (n : Nat) → (value : Nat) → Reading Nat
  | 0, value => return value
  | n + 1, value => do
    match hexValue? (← look 0) with
    | none => broken
    | some d =>
      skip
      hexNumber n (value * 16 + d)

def escaped : Reading Char := do
  let letter ← look 1
  match letterEscapes.lookup letter, numberEscapes.lookup letter with
  | some n, _ =>
    skipMany 2
    return Char.ofNat n
  | none, some digits =>
    skipMany 2
    need digits
    let n ← hexNumber digits 0
    if (0xD800 ≤ n && n ≤ 0xDFFF) || 0x10FFFF < n then broken else return Char.ofNat n
  | none, none => broken

/-- Reads on between quotes up to a gap, the end or a line break that does not
count. The last character comes first. -/
def quotedWord (single : Bool) : (fuel : Nat) → (out : List Char) → Reading (List Char × Between)
  | 0, _ => broken
  | fuel + 1, out => do
    let c ← look 0
    let d ← look 1
    if endsWord c then return (out, .nothing)
    else if single && c == '\x27' then
      if d == '\x27' then
        skipMany 2
        need 2
        quotedWord single fuel (c :: out)
      else return (out, .nothing)
    else if !single && c == '\x22' then return (out, .nothing)
    else if !single && c == '\\' then
      if isBreak d then
        need 3
        skip
        skipLine
        return (out, .joint)
      else
        let x ← escaped
        need 2
        quotedWord single fuel (x :: out)
    else
      skip
      need 2
      quotedWord single fuel (c :: out)

def quotedFrom (single : Bool) : (fuel : Nat) → (out : List Char) → Reading (List Char)
  | 0, _ => broken
  | fuel + 1, out => do
    need 4
    if (← atMarker) || (← look 0) == finish then broken
    else
      let (out, b) ← quotedWord single (← Reading.fuel) out
      if (← next) == (if single then '\x27' else '\x22') then return out
      else
        let b ← between (-1) (← Reading.fuel) b
        quotedFrom single fuel (b.reversed ++ out)

def quoted (single : Bool) : Reading Bytes := do
  skip
  let out ← quotedFrom single (← fuel) []
  skip
  return Utf8.ofChars out.reverse

/-! ## Blocks of lines -/

/-- What happens to the line breaks at the end of a block. -/
inductive Chomp where
  | strip
  | clip
  | keep
deriving DecidableEq

/-- Reads what happens to the last line breaks, if that is said here. -/
def chomp : Reading (Option Chomp) := do
  match ← next with
  | '+' =>
    skip
    return some .keep
  | '-' =>
    skip
    return some .strip
  | _ => return none

/-- Reads how much deeper than its parent a block is indented, if that is said here. -/
def increment : Reading (Option Nat) := do
  let c ← next
  if '1' ≤ c && c ≤ '9' then
    skip
    return some (c.toNat - 0x30)
  else if c == '0' then broken
  else return none

/-- Reads the marks behind the first character of a block, in either order. -/
def blockMarks : Reading (Chomp × Option Nat) := do
  match ← chomp with
  | some c => return (c, ← increment)
  | none =>
    match ← increment with
    | some n => return ((← chomp).getD .clip, some n)
    | none => return (.clip, none)

/-- Passes spaces up to column `indent`, or all if that is not known. -/
def skipIndent (indent : Option Nat) : (fuel : Nat) → Reading Unit
  | 0 => broken
  | fuel + 1 => do
    let c ← next
    let column := (← get).place.column
    let inside := indent.all fun n => column < n
    if inside && c == ' ' then
      skip
      skipIndent indent fuel
    else if inside && c == '\t' then broken
    else return ()

/-- Passes empty lines: the column of the deepest one, and the line breaks, the last one first. -/
def emptyLines (indent : Option Nat) :
    (fuel : Nat) → (deepest : Nat) → (out : List Char) → Reading (Nat × List Char)
  | 0, _, _ => broken
  | fuel + 1, deepest, out => do
    skipIndent indent (← Reading.fuel)
    let deepest := max deepest (← get).place.column
    if isBreak (← look 0) then
      let text ← takeLine
      emptyLines indent fuel deepest (text.reverse ++ out)
    else return (deepest, out)

structure Block where
  /-- The last character first. -/
  out : List Char
  /-- The break behind the last line. -/
  ending : List Char
  /-- The breaks of empty lines behind it, the last one first. -/
  empties : List Char
  /-- The last line started with a space or tab. -/
  shifted : Bool
deriving DecidableEq

/-- Goes to a new line. Folded lines are joined by a space, unless one of them is
shifted or an empty one lies between. -/
def Block.join (b : Block) (folded shifted : Bool) : List Char :=
  b.empties ++
    if folded && !b.shifted && !shifted && b.ending == ['\n'] then
      if b.empties.isEmpty then ' ' :: b.out else b.out
    else b.ending.reverse ++ b.out

def Block.finish (b : Block) : Chomp → List Char
  | .strip => b.out.reverse
  | .clip => b.out.reverse ++ b.ending
  | .keep => b.out.reverse ++ b.ending ++ b.empties.reverse

/-- Reads the lines of a block in column `indent`. -/
def blockLines (folded : Bool) (indent : Nat) : (fuel : Nat) → Block → Reading Block
  | 0, _ => broken
  | fuel + 1, b => do
    let c ← next
    if (← get).place.column == indent && c != finish then
      let out := b.join folded (isGap c)
      let line ← takeWhile fun c => !endsLine c
      let ending ← takeLine
      let (_, empties) ← emptyLines (some indent) (← Reading.fuel) 0 []
      blockLines folded indent fuel ⟨line.reverse ++ out, ending, empties, isGap c⟩
    else return b

/-- Reads a block from its first character on. A key may follow it. -/
def block (folded : Bool) : Reading Bytes := do
  skip
  let (chomp, increment) ← blockMarks
  skipGaps
  if (← look 0) == '#' then skipRest
  if !endsLine (← look 0) then broken
  else
    skipLine
    let outside := (← get).indent
    let given := increment.map fun n => n + outside.toNat
    let (deepest, empties) ← emptyLines given (← fuel) 0 []
    let indent := given.getD (max deepest (max (outside + 1).toNat 1))
    let b ← blockLines folded indent (← fuel) ⟨[], [], empties, false⟩
    return Utf8.ofChars (b.finish chomp)

end Reading

end Cascade.Yaml
