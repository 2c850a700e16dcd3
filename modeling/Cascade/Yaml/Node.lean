import Cascade.Yaml.Queue
import Cascade.Yaml.Value

/-!
# Documents

A document is a tree of mappings and lists with scalars at its leaves. A part
may stand for another one that has a name.
-/

namespace Cascade.Yaml

/-- A part of a document. -/
inductive Node where
  /-- A scalar with the tag that says what it is. -/
  | scalar (tag : Bytes) (style : Style) (text : Bytes)
  | sequence (items : List Node)
  /-- Keys and values, in their order. -/
  | mapping (entries : List (Node × Node))
  /-- Another part, by its name. There is none if it is a part around this one. -/
  | alias (name : Bytes) (target : Option Node)

namespace Node

/-- What stands for nothing at all. -/
def absent : Node := .scalar Tag.null .plain []

/-- A scalar. Without a tag, what it looks like tells what it is. -/
def ofScalar (tag : Bytes) (style : Style) (s : Bytes) : Node :=
  if !(tag.isEmpty || tag == text "!") then .scalar (Tag.short tag) style s
  else if style != .plain then .scalar Tag.text style s
  else if s == text "<<" then .scalar Tag.merge style s
  else .scalar (Value.ofPlain s).tag style s

end Node

inductive Named where
  | done (n : Node)
  /-- A part that has been begun, by its number. -/
  | begun (number : Nat)

/-- What is known about a document besides its tokens. -/
structure Names where
  /-- Latest first. -/
  named : List (Bytes × Named)
  /-- How many parts have been begun. -/
  begun : Nat
  /-- The handles of tags and what they stand for. -/
  handles : List (Bytes × Bytes)

abbrev Building := StateT Names Reading

def standardHandles : List (Bytes × Bytes) := [(text "!", text "!"), (text "!!", Tag.space)]

inductive Kind where
  | blockSequence
  /-- A list in the column of the mapping around it. -/
  | dashes
  | blockMapping
  | flowSequence
  | flowMapping
  /-- One key and its value in a list. -/
  | pair
deriving DecidableEq

structure Frame where
  kind : Kind
  /-- Items, or keys and values in turn, the last one first. -/
  content : List Node
  /-- The value of a key is due. -/
  due : Bool
  /-- The key that has just been read has no value. -/
  bare : Bool
  number : Nat

namespace Frame

def new (kind : Kind) (number : Nat) : Frame := ⟨kind, [], false, false, number⟩

def add (f : Frame) (n : Node) : Frame := { f with content := n :: f.content, due := !f.due }

def pairs : List Node → List (Node × Node)
  | k :: v :: ns => (k, v) :: pairs ns
  | _ => []

def node (f : Frame) : Node :=
  match f.kind with
  | .blockSequence | .dashes | .flowSequence => .sequence f.content.reverse
  | .blockMapping | .flowMapping | .pair => .mapping (pairs f.content.reverse)

end Frame

/-- How a mapping or list goes on. -/
inductive Turn where
  /-- With a part that is not there. -/
  | blank
  /-- With a part, perhaps of lines, perhaps a list in the same column. -/
  | part (lines dashes : Bool)
  /-- With a key between brackets that has no value. -/
  | key
  /-- With a key and its value in a list. -/
  | pair
  /-- Not at all. -/
  | close
deriving DecidableEq

namespace Reading

/-- A part follows, unless the next token is one of these. -/
def partUnless (ends : List Token) (lines dashes : Bool) (t : Token) : Turn :=
  if ends.contains t then .blank else .part lines dashes

/-- What follows the first token of an entry, or a part that is not there. -/
def entryTurn (ends : List Token) (lines dashes : Bool) : Reading Turn :=
  return partUnless ends lines dashes (← following)

def valueTurn (ends : List Token) (lines dashes : Bool) : Reading Turn := do
  if (← peek) == .value then entryTurn ends lines dashes else return .blank

def closeTurn : Reading Turn := do
  take
  return .close

/-- Between brackets: the token that an entry starts with, or none at the end. -/
def flowStart (first : Bool) (last : Token) : Reading (Option Token) := do
  let t ← peek
  if t == last then return none
  else if first then return some t
  else if t == .flowEntry then
    let t ← following
    return if t == last then none else some t
  else broken

def turn (f : Frame) : Reading Turn := do
  match f.kind with
  | .blockSequence =>
    match ← peek with
    | .blockEntry => entryTurn [.blockEntry, .blockEnd] true false
    | .blockEnd => closeTurn
    | _ => broken
  | .dashes =>
    match ← peek with
    | .blockEntry => entryTurn [.blockEntry, .key, .value, .blockEnd] true false
    | _ => return .close
  | .blockMapping =>
    if f.due then valueTurn [.key, .value, .blockEnd] true true
    else
      match ← peek with
      | .key => entryTurn [.key, .value, .blockEnd] true true
      | .blockEnd => closeTurn
      | _ => broken
  | .flowSequence =>
    match ← flowStart f.content.isEmpty .flowSequenceEnd with
    | none => closeTurn
    | some .key =>
      take
      return .pair
    | some _ => return .part false false
  | .pair =>
    if f.due then valueTurn [.flowEntry, .flowSequenceEnd] false false
    else if !f.content.isEmpty then return .close
    else
      let t ← peek
      if [.value, .flowEntry, .flowSequenceEnd].contains t then
        take
        return .blank
      else return .part false false
  | .flowMapping =>
    if f.due then
      if f.bare then return .blank
      else valueTurn [.flowEntry, .flowMappingEnd] false false
    else
      match ← flowStart f.content.isEmpty .flowMappingEnd with
      | none => closeTurn
      | some .key => entryTurn [.value, .flowEntry, .flowMappingEnd] false false
      | some _ => return .key

end Reading

namespace Building

def peek : Building Token := liftM Reading.peek

def take : Building Unit := liftM Reading.take

def broken {α : Type} : Building α := liftM (Reading.broken : Reading α)

def expand (handle suffix : Bytes) : Building Bytes := do
  if handle.isEmpty then return suffix
  else
    match (← get).handles.lookup handle with
    | none => broken
    | some expansion =>
      let tag := expansion ++ suffix
      if tag.isEmpty then broken else return tag

/-- What stands before a part: its name and its tag. -/
structure Marks where
  name : Option Bytes
  tag : Option Bytes

/-- Reads a name, if there is one. -/
def anchor? : Building (Option Bytes) := do
  match ← peek with
  | .anchor name =>
    take
    return some name
  | _ => return none

/-- Reads a tag, if there is one. -/
def tag? : Building (Option (Bytes × Bytes)) := do
  match ← peek with
  | .tag handle suffix =>
    take
    return some (handle, suffix)
  | _ => return none

/-- Reads a name and a tag, in either order. -/
def marks : Building Marks := do
  let first ← anchor?
  let tag ← tag?
  let name ← match first, tag with
    | none, some _ => anchor?
    | _, _ => pure first
  match tag with
  | none => return ⟨name, none⟩
  | some (handle, suffix) => return ⟨name, some (← expand handle suffix)⟩

/-- From now on, the name stands for this. -/
def bind (name : Option Bytes) (n : Named) : Building Unit :=
  match name with
  | none => return ()
  | some name => modify fun s => { s with named := (name, n) :: s.named }

inductive Start where
  | leaf (n : Node)
  | inner (f : Frame)

def begin (m : Marks) (kind : Kind) : Building Start := do
  let number := (← get).begun
  bind m.name (.begun number)
  modify fun s => { s with begun := number + 1 }
  return .inner (.new kind number)

/-- A part without parts. -/
def leaf (m : Marks) (style : Style) (s : Bytes) : Building Start := do
  let n := Node.ofScalar (m.tag.getD []) style s
  bind m.name (.done n)
  return .leaf n

def resolve (name : Bytes) : Building Start := do
  match (← get).named.lookup name with
  | none => broken
  | some (.done n) => return .leaf (.alias name (some n))
  | some (.begun _) => return .leaf (.alias name none)

def start (lines dashes : Bool) : Building Start := do
  match ← peek with
  | .alias name =>
    take
    resolve name
  | _ =>
    let m ← marks
    match ← peek with
    | .blockEntry => if dashes then begin m .dashes else empty m
    | .scalar style s =>
      take
      leaf m style s
    | .flowSequence =>
      take
      begin m .flowSequence
    | .flowMapping =>
      take
      begin m .flowMapping
    | .blockSequence =>
      if lines then
        take
        begin m .blockSequence
      else empty m
    | .blockMapping =>
      if lines then
        take
        begin m .blockMapping
      else empty m
    | _ => empty m
where
  /-- A name or a tag alone stands before nothing. -/
  empty (m : Marks) : Building Start :=
    if m.name.isSome || m.tag.isSome then leaf m .plain [] else broken

/-- The names that stand for a part that is now whole. -/
def settle (number : Nat) (n : Node) : Building Unit := modify fun s =>
  { s with named := s.named.map fun
      | (name, .begun k) => (name, if k == number then .done n else .begun k)
      | p => p }

/-- Puts parts together, the innermost mapping or list first. -/
def build : (fuel : Nat) → Frame → (outside : List Frame) → Building Node
  | 0, _, _ => broken
  | fuel + 1, f, outside => do
    match ← liftM (Reading.turn f) with
    | .blank => build fuel { f.add .absent with bare := false } outside
    | .part lines dashes =>
      match ← start lines dashes with
      | .leaf n => build fuel (f.add n) outside
      | .inner g => build fuel g (f :: outside)
    | .key =>
      match ← start false false with
      | .leaf n => build fuel { f.add n with bare := true } outside
      | .inner g => build fuel g ({ f with bare := true } :: outside)
    | .pair => build fuel (.new .pair 0) (f :: outside)
    | .close =>
      let n := f.node
      if f.kind != .pair then settle f.number n
      match outside with
      | [] => return n
      | g :: outside => build fuel (g.add n) outside

def part : Building Node := do
  match ← start true false with
  | .leaf n => return n
  | .inner f => build (8 * (← liftM Reading.fuel)) f []

def directives : (fuel : Nat) → (version : Bool) → Building Unit
  | 0, _ => broken
  | fuel + 1, version => do
    match ← peek with
    | .version major minor =>
      if version || major != 1 || minor != 1 then broken
      else
        take
        directives fuel true
    | .handle name expansion =>
      if ((← get).handles.lookup name).isSome then broken
      else
        modify fun s => { s with handles := s.handles ++ [(name, expansion)] }
        take
        directives fuel version
    | _ => return ()

/-- Reads the first document. Of what follows, only the next tokens matter. -/
def document : Building Node := do
  take
  match ← peek with
  | .streamEnd => throw .empty
  | .version .. | .handle .. | .documentStart =>
    directives (← liftM Reading.fuel) false
    modify fun s => { s with handles := s.handles ++ standardHandles }
    if (← peek) == .documentStart then
      take
      match ← peek with
      | .version .. | .handle .. | .documentStart | .documentEnd | .streamEnd => return .absent
      | _ => part
    else broken
  | _ =>
    modify fun s => { s with handles := standardHandles }
    part

end Building

def Node.parse (s : Bytes) : Except Fault Node :=
  let step : Building Node := do
    let _ ← Building.peek
    let n ← Building.document
    let _ ← Building.peek
    return n
  ((step.run' ⟨[], 0, []⟩).run' (Scan.ofBytes s))

end Cascade.Yaml
