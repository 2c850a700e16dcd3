import Cascade.Yaml.Source

/-!
# Tokens

The tokens of a document, and what is known while they are looked for. Where
lines start, indentation decides which mappings and lists open and end. A key
without a mark of its own is known as a key only by the colon behind it, so
tokens wait in a queue until it is clear what they are.
-/

namespace Cascade.Yaml

inductive Style where
  | plain
  | single
  | double
  | literal
  | folded
deriving DecidableEq

inductive Token where
  | streamStart
  | streamEnd
  | version (major minor : Nat)
  | handle (name expansion : Bytes)
  | documentStart
  | documentEnd
  | blockSequence
  | blockMapping
  | blockEnd
  | flowSequence
  | flowSequenceEnd
  | flowMapping
  | flowMappingEnd
  | blockEntry
  | flowEntry
  | key
  | value
  | alias (name : Bytes)
  | anchor (name : Bytes)
  | tag (handle suffix : Bytes)
  | scalar (style : Style) (text : Bytes)
deriving DecidableEq

structure Place where
  index : Nat
  line : Nat
  column : Nat
deriving DecidableEq

/-- A token that may turn out to be the start of a key. -/
structure Candidate where
  /-- It has not been ruled out. -/
  possible : Bool
  /-- Nothing but a key can stand here. -/
  required : Bool
  /-- Its token waits for the colon. -/
  awaited : Bool
  /-- How many tokens there are before it. -/
  number : Nat
  place : Place
deriving DecidableEq

/-- A document of which some tokens have been found. -/
structure Scan where
  source : Source
  place : Place
  /-- A line break has been passed, and only blanks since. -/
  fresh : Bool
  /-- The column of the innermost mapping or list of lines, and of those around it. -/
  indent : Int
  indents : List Int
  /-- How many brackets and braces are open. -/
  flow : Nat
  /-- The candidate between the innermost brackets, and those outside of them. -/
  candidate : Candidate
  outer : List Candidate
  /-- A key may start here without a mark. -/
  keys : Bool
  /-- The tokens that have been found and not taken, and how many have been taken. -/
  queue : List Token
  taken : Nat
  started : Bool
  /-- No loop that passes a character in each round has more rounds. -/
  limit : Nat
deriving DecidableEq

def Candidate.none : Candidate := ⟨false, false, false, 0, ⟨0, 0, 0⟩⟩

def Scan.ofBytes (s : Bytes) : Scan where
  source := Source.ofBytes s
  place := ⟨0, 0, 0⟩
  fresh := false
  indent := -1
  indents := []
  flow := 0
  candidate := .none
  outer := []
  keys := true
  queue := []
  taken := 0
  started := false
  limit := s.length + 4

abbrev Reading := StateT Scan (Except Fault)

namespace Reading

def broken {α : Type} : Reading α := throw .malformed

/-- Enough for every loop that passes a character in each round. -/
def fuel : Reading Nat := return (← get).limit

/-- Makes the next `n` characters known. -/
def need (n : Nat) : Reading Unit := do
  let s ← get
  let source ← s.source.need n
  set { s with source }

/-- The character `k` places ahead. -/
def look (k : Nat) : Reading Char := return (← get).source.look k

/-- The next character, which is made known. -/
def next : Reading Char := do
  need 1
  look 0

/-- Passes a character that ends no line. -/
def skip : Reading Unit := modify fun s =>
  { s with
    source := s.source.drop 1
    place := { s.place with index := s.place.index + 1, column := s.place.column + 1 }
    fresh := s.fresh && isGap (s.source.look 0) }

/-- Passes a line break. The two characters of one are passed together. -/
def skipLine : Reading Unit := do
  need 2
  let s ← get
  let n := if s.source.look 0 == '\r' && s.source.look 1 == '\n' then 2 else 1
  if isBreak (s.source.look 0) then
    set { s with
      source := s.source.drop n
      place := ⟨s.place.index + n, s.place.line + 1, 0⟩
      fresh := true }

/-- Passes a line break, and tells how it reads. -/
def takeLine : Reading (List Char) := do
  need 2
  let c ← look 0
  skipLine
  return if !isBreak c then []
    else if c.toNat == 0x2028 || c.toNat == 0x2029 then [c]
    else ['\n']

/-- Passes the characters that satisfy `p`, and gives them back, the last one first. -/
def takeWhileFrom (p : Char → Bool) : (fuel : Nat) → (out : List Char) → Reading (List Char)
  | 0, _ => broken
  | fuel + 1, out => do
    let c ← next
    if p c && c != finish then
      skip
      takeWhileFrom p fuel (c :: out)
    else return out

/-- Passes the characters that satisfy `p`, which end no line. -/
def takeWhile (p : Char → Bool) : Reading (List Char) := do
  return (← takeWhileFrom p (← fuel) []).reverse

def skipGaps : Reading Unit := do
  let _ ← takeWhile isGap

def skipRest : Reading Unit := do
  let _ ← takeWhile fun c => !endsLine c

/-- Three dashes or three periods alone at the start of a line. -/
def atMarker : Reading Bool := do
  let s ← get
  let c := s.source.look 0
  return s.place.column == 0 && (c == '-' || c == '.') && s.source.look 1 == c &&
    s.source.look 2 == c && endsWord (s.source.look 3)

/-! ## Comments -/

/-- How far a comment reaches ahead is looked for. -/
def horizon : Nat := 512

/-- How far ahead a comment starts, if only blanks lie before it, and line breaks
where these are `allowed`. -/
def commentAhead (allowed : Char → Bool) : (fuel : Nat) → (k : Nat) → Reading (Option Nat)
  | 0, _ => return none
  | fuel + 1, k => do
    need (k + 1)
    let c ← look k
    if isGap c || allowed c then commentAhead allowed fuel (k + 1)
    else return if c == '#' then some k else none

/-- Passes characters and lines until `k` characters have been passed. -/
def skipTo (target : Nat) : (fuel : Nat) → Reading Unit
  | 0 => broken
  | fuel + 1 => do
    if (← get).place.index < target then
      if endsLine (← next) then skipLine else skip
      skipTo target fuel

/-- Passes a comment `k` characters ahead. The end of its line is not passed. -/
def skipComment (k : Nat) : Reading Unit := do
  skipTo ((← get).place.index + k) (k + 1)
  skipRest

def lineComment : Reading Unit := do
  if !(← get).fresh then
    match ← commentAhead (fun _ => false) horizon 0 with
    | some k => skipComment k
    | none => return ()

def comments : (fuel : Nat) → (start : Nat) → Reading Unit
  | 0, _ => broken
  | fuel + 1, start => do
    match ← commentAhead isBreak (horizon - start) start with
    | some k =>
      skipComment k
      comments fuel 1
    | none => return ()

end Reading

end Cascade.Yaml
