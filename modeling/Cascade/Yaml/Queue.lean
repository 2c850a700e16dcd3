import Cascade.Yaml.Tag

/-!
# Finding tokens

Tokens are found one after the other. The first one that waits is taken only
when two more are known, and when it is clear whether it starts a key.
-/

namespace Cascade.Yaml

/-- Mappings and lists are nested no deeper. -/
def depthLimit : Nat := 10000

/-- A key without a mark is no longer, and stands on one line. -/
def keyLimit : Nat := 1024

namespace Scan

def push (s : Scan) (t : Token) : Scan := { s with queue := s.queue ++ [t] }

/-- Adds a token before the one of a number, or at the end if that has been taken. -/
def insert (s : Scan) (number : Nat) (t : Token) : Scan :=
  if number < s.taken then s.push t
  else
    let k := number - s.taken
    { s with queue := s.queue.take k ++ t :: s.queue.drop k }

def count (s : Scan) : Nat := s.taken + s.queue.length

/-- Ends the mappings and lists of lines to the right of a column. -/
def closeBlocks (column : Int) : (indent : Int) → (indents : List Int) → Nat × Int × List Int
  | indent, [] => (0, indent, [])
  | indent, outside :: indents =>
    if column < indent then
      let (n, rest) := closeBlocks column outside indents
      (n + 1, rest)
    else (0, indent, outside :: indents)

/-- Ends what is to the right of a column, unless brackets are open. -/
def unroll (s : Scan) (column : Int) : Scan :=
  if s.flow == 0 then
    let (n, indent, indents) := closeBlocks column s.indent s.indents
    { s with indent, indents, queue := s.queue ++ List.replicate n .blockEnd }
  else s

/-- The candidate is too far away, or on an earlier line. -/
def isStale (s : Scan) (c : Candidate) : Bool :=
  c.place.line < s.place.line || c.place.index + keyLimit < s.place.index

/-- The candidate that is the first waiting token. -/
def waiting? (s : Scan) : Option Candidate :=
  ((s.candidate :: s.outer).takeWhile fun c => s.taken ≤ c.number).find? fun c =>
    c.possible && c.awaited && c.number == s.taken

end Scan

namespace Reading

/-- Starts a mapping or list of lines at a column, if it is further to the right. -/
def roll (column : Nat) (t : Token) (place : Scan → Token → Scan) : Reading Unit := do
  let s ← get
  if s.flow == 0 && s.indent < column then
    if depthLimit ≤ s.indents.length then broken
    else set (place { s with indents := s.indent :: s.indents, indent := column } t)

def dropCandidate : Reading Unit := do
  let c := (← get).candidate
  if c.possible then
    if c.required then broken
    else modify fun s => { s with candidate := { s.candidate with possible := false } }

/-- The token that follows may start a key. -/
def saveCandidate : Reading Unit := do
  if (← get).keys then
    dropCandidate
    modify fun s =>
      { s with candidate :=
        ⟨true, s.flow == 0 && s.indent == s.place.column, true, s.count, s.place⟩ }

/-- A key may or may not start behind what is read. -/
def setKeys (allowed : Bool) : Reading Unit := modify fun s => { s with keys := allowed }

def push (t : Token) : Reading Unit := modify (·.push t)

/-! ## Each kind of token -/

def foundEnd : Reading Unit := do
  modify fun s =>
    let place := if s.place.column == 0 then s.place
      else { s.place with line := s.place.line + 1, column := 0 }
    { s with place }.unroll (-1)
  dropCandidate
  setKeys false
  push .streamEnd

/-- A line of its own that belongs to no part. -/
def foundOutside (token : Reading Token) : Reading Unit := do
  modify (·.unroll (-1))
  dropCandidate
  setKeys false
  push (← token)

def foundOpening (t : Token) : Reading Unit := do
  saveCandidate
  let s ← get
  if depthLimit ≤ s.flow then broken
  else
    set { s with
      outer := s.candidate :: s.outer
      candidate := ⟨false, false, false, s.count, s.place⟩
      flow := s.flow + 1
      keys := true }
    skip
    push t

/-- Leaves the innermost brackets. An opening bracket with no candidate behind it
waits for no colon any more. -/
def leave (s : Scan) : Scan :=
  match s.outer with
  | [] => s
  | c :: outer =>
    { s with
      outer
      candidate := { c with awaited := c.awaited && c.number != s.candidate.number }
      flow := s.flow - 1 }

def foundClosing (t : Token) : Reading Unit := do
  dropCandidate
  modify leave
  setKeys false
  skip
  push t

def foundComma : Reading Unit := do
  dropCandidate
  setKeys true
  skip
  push .flowEntry

def foundDash : Reading Unit := do
  let s ← get
  if s.flow == 0 && !s.keys then broken
  else
    roll s.place.column .blockSequence Scan.push
    dropCandidate
    setKeys true
    skip
    push .blockEntry

def foundQuestion : Reading Unit := do
  let s ← get
  if s.flow == 0 && !s.keys then broken
  else
    roll s.place.column .blockMapping Scan.push
    dropCandidate
    setKeys (s.flow == 0)
    skip
    push .key

/-- A colon behind a key. The candidate before it is one now. -/
def foundColon : Reading Unit := do
  let s ← get
  let c := s.candidate
  if c.possible && !s.isStale c then
    set (s.insert c.number .key)
    roll c.place.column .blockMapping fun s t => s.insert c.number t
    modify fun s => { s with candidate := { c with possible := false }, keys := false }
  else if c.possible && c.required then broken
  else if s.flow == 0 && !s.keys then broken
  else
    roll s.place.column .blockMapping Scan.push
    modify fun s => { s with candidate := { c with possible := false }, keys := s.flow == 0 }
  skip
  push .value

/-- A token that may start a key, and behind which none can start. -/
def foundPart (token : Reading Token) : Reading Unit := do
  saveCandidate
  setKeys false
  push (← token)

/-- A block of lines, behind which a key can start. -/
def foundBlock (folded : Bool) : Reading Unit := do
  dropCandidate
  setKeys true
  push (.scalar (if folded then .folded else .literal) (← block folded))

/-! ## The next token -/

/-- Passes blanks. Tabs do not count as indentation where a key may start. -/
def skipBlanks : (fuel : Nat) → Reading Unit
  | 0 => broken
  | fuel + 1 => do
    let c ← next
    let s ← get
    if c == ' ' || (c == '\t' && (0 < s.flow || !s.keys)) then
      skip
      skipBlanks fuel

def seek : (fuel : Nat) → Reading Unit
  | 0 => broken
  | fuel + 1 => do
    need 1
    let s ← get
    if s.place.column == 0 && s.source.marked then skip
    skipBlanks (← Reading.fuel)
    if (← look 0) == '#' then comments (← Reading.fuel) 0
    if isBreak (← look 0) then
      skipLine
      modify fun s => { s with keys := s.keys || s.flow == 0 }
      seek fuel

def indicators : List Char :=
  ['-', '?', ':', ',', '[', ']', '\x7b', '\x7d', '#', '&', '*', '!', '|', '>', '\x27', '\x22',
    '%', '@', '\x60']

def startsPlain (flow : Bool) (c d : Char) : Bool :=
  !(endsWord c || indicators.contains c) || (c == '-' && !isGap d) ||
  (!flow && (c == '?' || c == ':') && !endsWord d)

def foundInside (c d : Char) : Reading Unit := do
  let flow := 0 < (← get).flow
  if c == '[' then foundOpening .flowSequence
  else if c == '\x7b' then foundOpening .flowMapping
  else if c == ']' then foundClosing .flowSequenceEnd
  else if c == '\x7d' then foundClosing .flowMappingEnd
  else if c == ',' then foundComma
  else if c == '-' && endsWord d then foundDash
  else if c == '?' && (flow || endsWord d) then foundQuestion
  else if c == ':' && (flow || endsWord d) then foundColon
  else if c == '*' then foundPart (return .alias (← name))
  else if c == '&' then foundPart (return .anchor (← name))
  else if c == '!' then foundPart tag
  else if c == '|' && !flow then foundBlock false
  else if c == '>' && !flow then foundBlock true
  else if c == '\x27' then foundPart (return .scalar .single (← quoted true))
  else if c == '\x22' then foundPart (return .scalar .double (← quoted false))
  else if startsPlain flow c d then foundPart (return .scalar .plain (← plain))
  else broken
  if (← get).queue.getLast? != some .blockEntry then lineComment

def find : Reading Unit := do
  need 1
  if !(← get).started then modify fun s => { s.push .streamStart with started := true }
  else
    seek (← fuel)
    modify fun s => s.unroll s.place.column
    need 4
    let c ← look 0
    let column := (← get).place.column
    if c == finish then foundEnd
    else if column == 0 && c == '%' then foundOutside directive
    else if ← atMarker then
      foundOutside do
        skipMany 3
        return if c == '-' then .documentStart else .documentEnd
    else foundInside c (← look 1)

/-- Finds tokens until the first can be taken. -/
def fill : (fuel : Nat) → Reading Unit
  | 0 => broken
  | fuel + 1 => do
    let s ← get
    if s.queue.length < 3 then
      find
      fill fuel
    else
      match s.waiting? with
      | none => return ()
      | some c =>
        if !s.isStale c then
          find
          fill fuel
        else if c.required then broken

def peek : Reading Token := do
  fill (2 * (← fuel))
  return (← get).queue.headD .streamEnd

def take : Reading Unit := modify fun s => { s with queue := s.queue.drop 1, taken := s.taken + 1 }

/-- Takes a token, and gives the one behind it. -/
def following : Reading Token := do
  take
  peek

end Reading

end Cascade.Yaml
