import Cascade.Config.Basic
import Cascade.Yaml.Node

/-!
# Reading a configuration

A document is laid over a configuration: what it does not mention, or gives no
value, stays as it is. It may mention only what there is, and each thing once. A
section may take what it does not mention from other mappings.
-/

namespace Cascade

open Yaml (Node Fault Value)

structure Visits where
  total : Nat
  /-- Those that were reached by a name. -/
  named : Nat
  /-- How many names lead to the part at hand. -/
  depth : Nat
deriving DecidableEq

namespace Visits

/-- Up to so many parts, nearly all may be reached by names. -/
def low : Nat := 400000

/-- From so many parts on, a tenth of them may be. -/
def high : Nat := 4000000

/-- So much of the document is reached by names that it must be meant to be endless.
What is allowed, in hundredths, falls from 99 to 10 between the bounds. -/
def isExcessive (v : Visits) : Bool :=
  100 < v.named && 1000 < v.total &&
    if v.total ≤ low then 99 * v.total < 100 * v.named
    else if high ≤ v.total then v.total < 10 * v.named
    else (99 * (high - low) - 89 * (v.total - low)) * v.total < 100 * (high - low) * v.named

end Visits

abbrev Laying := StateT Visits (Except Fault)

namespace Laying

def misfit {α : Type} : Laying α := throw .unexpected

def visit : Laying Unit := do
  let v ← get
  let v := { v with total := v.total + 1, named := if v.depth == 0 then v.named else v.named + 1 }
  if v.isExcessive then misfit else set v

/-- Looks at a part, or at the one that it stands for. -/
def within {α : Type} (n : Node) (read : Node → Laying α) : Laying α := do
  visit
  match n with
  | .alias _ none => misfit
  | .alias _ (some target) =>
    modify fun v => { v with depth := v.depth + 1 }
    visit
    let a ← read target
    modify fun v => { v with depth := v.depth - 1 }
    return a
  | n => read n

/-- Looks at a scalar. A null changes nothing. -/
def scalar {α : Type} (old : α) (read : Value → Bytes → Laying α) (n : Node) : Laying α :=
  within n fun
    | .scalar tag _ s =>
      match Value.ofTagged tag s with
      | none => misfit
      | some (.null, _) => return old
      | some (v, s) => read v s
    | _ => misfit

/-- A text, or another scalar as it is spelled. -/
def text (old : Bytes) : Node → Laying Bytes := scalar old fun _ s => return s

def bound : Int := Int.pow 2 63

/-- A whole part as an integer of 64 bits. What is too small becomes the smallest. -/
def whole (n : Int) : Laying Int :=
  if bound < n then misfit
  else if n = bound || n < -bound then return -bound
  else return n

/-- A number, of which the whole part counts. -/
def int (old : Int) : Node → Laying Int := scalar old fun v _ =>
  match v with
  | .int n => if n < bound then return n else misfit
  | .decimal n => whole n
  | .infinite true => return -bound
  | _ => misfit

/-- A truth value, also in the words of older readers. -/
def bool (old : Bool) : Node → Laying Bool := scalar old fun v s =>
  match v with
  | .bool b => return b
  | .text =>
    if Yaml.looseTrues.contains s then return true
    else if Yaml.looseFalses.contains s then return false
    else misfit
  | _ => misfit

/-- The name of a key, unless it is null. -/
def name? : Node → Laying (Option Bytes) := scalar none fun _ s => return some s

/-! ## Sections -/

def isSame : Node → Node → Bool
  | .scalar _ _ s, .scalar _ _ t => s == t
  | .sequence _, .sequence _ => true
  | .mapping _, .mapping _ => true
  | .alias a _, .alias b _ => a == b
  | _, _ => false

def distinct : List Node → Bool
  | [] => true
  | k :: ks => !ks.any (isSame k) && distinct ks

/-- The key under which other mappings are given. -/
def isMerge : Node → Bool
  | .scalar tag _ s => s == Cascade.text "<<" && tag == Yaml.Tag.merge
  | _ => false

def names (entries : List (Node × Node)) : Laying (List Bytes) := do
  return (← entries.mapM fun p => name? p.1).filterMap id

structure Section (α : Type) where
  value : α
  /-- The names in this mapping so far. -/
  done : List Bytes
  /-- The names that count no more, if other mappings are being merged. -/
  settled : Option (List Bytes)

def entry {α : Type} (field : α → Bytes → Node → Laying α) (s : Section α) (p : Node × Node) :
    Laying (Section α) := do
  if isMerge p.1 then return s
  else
    match ← name? p.1 with
    | none => return s
    | some name =>
      match s.settled with
      | none =>
        if s.done.contains name then misfit
        else return ⟨← field s.value name p.2, name :: s.done, none⟩
      | some names =>
        if names.contains name then return s
        else return ⟨← field s.value name p.2, name :: s.done, some (name :: names)⟩

/-- A mapping that may be merged, or the list of those. -/
def merged? : Node → Option (List Node)
  | .mapping es => some [.mapping es]
  | .alias name (some (.mapping es)) => some [.alias name (some (.mapping es))]
  | .sequence items => if items.all isMapping then some items else none
  | _ => none
where
  isMapping : Node → Bool
    | .mapping _ => true
    | .alias _ (some (.mapping _)) => true
    | _ => false

mutual

/-- Lays the entries of a mapping over a value, each by the reader of its name.
Of mappings that are merged, only what is not mentioned counts. -/
def entries {α : Type} (field : α → Bytes → Node → Laying α) :
    (fuel : Nat) → (settled : Option (List Bytes)) → α → List (Node × Node) →
      Laying (α × Option (List Bytes))
  | 0, _, _, _ => misfit
  | fuel + 1, settled, old, es => do
    if !distinct (es.map Prod.fst) then misfit
    else
      let s ← es.foldlM (entry field) ⟨old, [], settled⟩
      match es.find? fun p => isMerge p.1 with
      | none => return (s.value, s.settled)
      | some p =>
        match merged? p.2 with
        | none => misfit
        | some ns =>
          let settled ← match s.settled with
            | some names => pure names
            | none => names es
          let (a, settled) ← merge field fuel settled s.value ns
          return (a, s.settled.map fun _ => settled)

def merge {α : Type} (field : α → Bytes → Node → Laying α) :
    (fuel : Nat) → (settled : List Bytes) → α → List Node → Laying (α × List Bytes)
  | 0, _, _, _ => misfit
  | _, settled, old, [] => return (old, settled)
  | fuel + 1, settled, old, n :: ns => do
    let (a, s) ← within n fun
      | .mapping es => entries field fuel (some settled) old es
      | _ => misfit
    merge field fuel (s.getD settled) a ns

end

def overlay {α : Type} (fuel : Nat) (field : α → Bytes → Node → Laying α) (old : α) (n : Node) :
    Laying α :=
  within n fun
    | .mapping es => return (← entries field fuel none old es).1
    | .scalar tag _ s =>
      match Value.ofTagged tag s with
      | some (.null, _) => return old
      | _ => misfit
    | _ => misfit

end Laying

namespace Config

open Laying (overlay misfit)

def channelField (c : Channel) (key : Bytes) (node : Node) : Laying Channel :=
  if key == text "level" then return { c with level := ← Laying.text c.level node }
  else if key == text "destination" then
    return { c with destination := ← Laying.text c.destination node }
  else if key == text "mode" then return { c with mode := ← Laying.text c.mode node }
  else misfit

def inputField (c : Config) (key : Bytes) (node : Node) : Laying Config :=
  if key == text "encoding" then return { c with encoding := ← Laying.text c.encoding node }
  else misfit

def analysisField (c : Config) (key : Bytes) (node : Node) : Laying Config :=
  if key == text "top" then return { c with top := ← Laying.int c.top node } else misfit

def dedupeField (c : Config) (key : Bytes) (node : Node) : Laying Config :=
  if key == text "backup" then return { c with backup := ← Laying.bool c.backup node } else misfit

def loggingField (fuel : Nat) (c : Config) (key : Bytes) (node : Node) : Laying Config :=
  if key == text "file" then return { c with file := ← overlay fuel channelField c.file node }
  else if key == text "console" then
    return { c with console := ← overlay fuel channelField c.console node }
  else misfit

def reportingField (c : Config) (key : Bytes) (node : Node) : Laying Config :=
  if key == text "destination" then return { c with report := ← Laying.text c.report node }
  else misfit

def field (fuel : Nat) (c : Config) (key : Bytes) (node : Node) : Laying Config :=
  if key == text "version" then return { c with version := ← Laying.int c.version node }
  else if key == text "input" then overlay fuel inputField c node
  else if key == text "analysis" then overlay fuel analysisField c node
  else if key == text "dedupe" then overlay fuel dedupeField c node
  else if key == text "logging" then overlay fuel (loggingField fuel) c node
  else if key == text "reporting" then overlay fuel reportingField c node
  else misfit

def decode (c : Config) (data : Bytes) : Except Fault Config := do
  let fuel := data.length + 2
  (overlay fuel (field fuel) c (← Node.parse data)).run' ⟨1, 0, 0⟩

end Config

end Cascade
