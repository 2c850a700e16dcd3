import Cascade.Dict
import Cascade.Host.Path

/-!
# A tree of files

Files and directories, each at a location below the root. A path is followed
component by component, and every component but the last must be a directory.
What may be done with a file or directory is what its mode lets the owner do.
-/

namespace Cascade

/-- The components that lead from the root to a place. -/
abbrev Location : Type := List Bytes

inductive FileNode where
  | file (data : Bytes) (mode : Nat)
  | dir (mode : Nat)
deriving DecidableEq

inductive Cause where
  | notFound
  | isDirectory
  | notDirectory
  | occupied
  | closed
  /-- The path holds a zero byte. -/
  | invalid
  | nameTooLong
  /-- There are too many links on the way. -/
  | loop
  /-- The owner has not the right. -/
  | denied
  /-- Anything else, in the system's words. -/
  | other (message : Bytes)
deriving DecidableEq

def Cause.message : Cause → Bytes
  | .notFound => text "no such file or directory"
  | .isDirectory => text "is a directory"
  | .notDirectory => text "not a directory"
  | .occupied => text "file exists"
  | .closed => text "file already closed"
  | .invalid => text "invalid argument"
  | .nameTooLong => text "file name too long"
  | .loop => text "too many levels of symbolic links"
  | .denied => text "permission denied"
  | .other message => message

/-- All files and directories but the root, which is always there. -/
structure Disk where
  nodes : Dict Location FileNode
deriving DecidableEq

namespace Disk

/-- How long a name and a path may be. -/
def nameLimit : Nat := 255
def pathLimit : Nat := 4095

def fileMode : Nat := 0o644
def dirMode : Nat := 0o755
def privateFileMode : Nat := 0o600
def privateDirMode : Nat := 0o700

/-- What a mode lets the owner do. -/
def mayRead (mode : Nat) : Bool := mode.testBit 8
def mayWrite (mode : Nat) : Bool := mode.testBit 7
def mayEnter (mode : Nat) : Bool := mode.testBit 6

def node? (d : Disk) (loc : Location) : Option FileNode :=
  if loc.isEmpty then some (.dir dirMode) else d.nodes.get? loc

def set (d : Disk) (loc : Location) (n : FileNode) : Disk := ⟨d.nodes.insert loc n⟩

/-- Follows components from a location. A name can be looked up only in a
directory that may be entered. -/
def walk (d : Disk) : Location → List Bytes → Except Cause Location
  | loc, [] => .ok loc
  | loc, c :: cs =>
    match d.node? loc with
    | none => .error .notFound
    | some (.file _ _) => .error .notDirectory
    | some (.dir mode) =>
      if c.isEmpty then walk d loc cs
      else if !mayEnter mode then .error .denied
      else if c == Path.here then walk d loc cs
      else if c == Path.up then walk d loc.dropLast cs
      else if nameLimit < c.length then .error .nameTooLong
      else walk d (loc ++ [c]) cs

/-- Where the components of a path are followed from, as seen from `cwd`. -/
def origin (cwd : Location) (path : Bytes) : Except Cause Location :=
  if path.isEmpty then .error .notFound
  else if path.contains 0 then .error .invalid
  else if pathLimit < path.length then .error .nameTooLong
  else .ok (if Path.isAbsolute path then [] else cwd)

/-- The location that a path names, seen from `cwd`. Nothing need stand there. -/
def locate (d : Disk) (cwd : Location) (path : Bytes) : Except Cause Location := do
  d.walk (← origin cwd path) (Path.components path)

def find (d : Disk) (cwd : Location) (path : Bytes) : Except Cause FileNode := do
  let loc ← d.locate cwd path
  match d.node? loc with
  | some n => .ok n
  | none => .error .notFound

/-- Where a file of that path would be written. A path with a slash at its end
can only name a directory, whatever its last name is. -/
def target (d : Disk) (cwd : Location) (path : Bytes) : Except Cause Location :=
  if Bytes.ends [Path.slash] path then do
    let _ ← d.walk (← origin cwd path)
      ((Path.components (Path.stem path)).dropLast ++ [Path.here])
    .error .isDirectory
  else d.locate cwd path

/-- Whether names may be added to the directory of a location, and removed from it. -/
def mayChangeAround (d : Disk) (loc : Location) : Bool :=
  match d.node? loc.dropLast with
  | some (.dir mode) => mayWrite mode
  | _ => false

/-- Gives a file new content. A file that exists keeps its mode, a new one gets `mode`. -/
def put (d : Disk) (loc : Location) (mode : Nat) (content : Bytes → Bytes) : Except Cause Disk :=
  match d.node? loc with
  | some (.dir _) => .error .isDirectory
  | some (.file old m) =>
    if mayWrite m then .ok (d.set loc (.file (content old) m)) else .error .denied
  | none =>
    if d.mayChangeAround loc then .ok (d.set loc (.file (content []) mode)) else .error .denied

def write (d : Disk) (cwd : Location) (path : Bytes) (mode : Nat) (content : Bytes → Bytes) :
    Except Cause Disk := do
  d.put (← d.target cwd path) mode content

/-- Changes the content of a file, with no regard to its mode. -/
def patch (d : Disk) (loc : Location) (content : Bytes → Bytes) : Disk :=
  match d.node? loc with
  | some (.file old m) => d.set loc (.file (content old) m)
  | _ => d

/-- Makes a file or directory where nothing stands. -/
def make (d : Disk) (loc : Location) (n : FileNode) : Except Cause Disk :=
  match d.node? loc with
  | some _ => .error .occupied
  | none => if d.mayChangeAround loc then .ok (d.set loc n) else .error .denied

/-- The location of a name, which may have slashes behind it. -/
def entry (d : Disk) (cwd : Location) (path : Bytes) : Except Cause Location := do
  d.walk (← origin cwd path) (Path.components (Path.stem path))

def mkdir (d : Disk) (cwd : Location) (path : Bytes) (mode : Nat) : Except Cause Disk := do
  d.make (← d.entry cwd path) (.dir mode)

def create (d : Disk) (cwd : Location) (path : Bytes) (mode : Nat) : Except Cause Disk := do
  d.make (← d.target cwd path) (.file [] mode)

def chmod (d : Disk) (cwd : Location) (path : Bytes) (mode : Nat) : Except Cause Disk := do
  let loc ← d.locate cwd path
  match d.node? loc with
  | some (.dir _) => .ok (d.set loc (.dir mode))
  | some (.file data _) => .ok (d.set loc (.file data mode))
  | none => .error .notFound

def prune (d : Disk) (loc : Location) : Disk :=
  ⟨⟨d.nodes.items.filter fun p => !loc.isPrefixOf p.1⟩⟩

def drop (d : Disk) (loc : Location) : Except Cause Disk :=
  match d.node? loc with
  | some (.file _ _) => if d.mayChangeAround loc then .ok (d.prune loc) else .error .denied
  | some (.dir _) => .error .isDirectory
  | none => .error .notFound

def remove (d : Disk) (cwd : Location) (path : Bytes) : Except Cause Disk := do
  d.drop (← d.locate cwd path)

def mayList (d : Disk) (loc : Location) : Bool :=
  match d.node? loc with
  | some (.dir mode) => mayRead mode && mayEnter mode
  | _ => false

/-- Whether all directories from a location down to the last of the given names can be listed. -/
def mayDescend (d : Disk) : Location → List Bytes → Bool
  | _, [] => true
  | loc, c :: cs => d.mayList loc && mayDescend d (loc ++ [c]) cs

/-- Whether what stands at `place` can be removed while all at `loc` and below it is removed.
It must be found, in directories that can be listed, and taken out of the last of them. -/
def mayTake (d : Disk) (loc place : Location) : Bool :=
  d.mayChangeAround place &&
    (place == loc || d.mayList loc.dropLast && d.mayDescend loc (place.drop loc.length))

/-- What resists among `places` when all at a location and below it is removed. -/
def held (d : Disk) (loc : Location) (places : List Location) : List Location :=
  places.filter fun place => loc.isPrefixOf place && !d.mayTake loc place

/-- What stays where all at `loc` and below it goes, but for what is held and the directories
above that. -/
def outlasts (loc : Location) (held : List Location) (place : Location) : Bool :=
  !loc.isPrefixOf place || held.any place.isPrefixOf

def clear (d : Disk) (loc : Location) (held : List Location) : Disk :=
  ⟨⟨d.nodes.items.filter fun p => outlasts loc held p.1⟩⟩

/-- The order of locations in a listing: a directory before what it holds, names by bytes. -/
def locationLe : Location → Location → Bool
  | [], _ => true
  | _ :: _, [] => false
  | a :: s, b :: t => if a == b then locationLe s t else Bytes.le a b

/-- All that stands below a location, in listing order, with paths relative to it. -/
def listing (d : Disk) (loc : Location) : List (Location × FileNode) :=
  ((d.nodes.items.filter fun p => loc.isPrefixOf p.1 && p.1 != loc).map
    fun p => (p.1.drop loc.length, p.2)).mergeSort fun p q => locationLe p.1 q.1

end Disk

end Cascade
