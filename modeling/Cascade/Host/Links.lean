import Cascade.Host.Machine

/-!
# Machines with links

A name need not be the name of what stands at its location. It may stand for a path, which
is followed in its place, and a file may have several names. Such a file stands at a
location that no path leads to, and each of its names leads there.
-/

namespace Cascade

inductive Link where
  /-- One of the names of the file at a location. -/
  | hard (file : Location)
  /-- A path to be followed from the directory of the link. -/
  | soft (path : Bytes)
deriving DecidableEq

/-- A machine in which some locations are links. -/
structure Linked where
  machine : Machine
  links : Dict Location Link
deriving DecidableEq

namespace Linked

def disk (w : Linked) : Disk := w.machine.disk

/-! ## Paths -/

/-- How many paths are followed in place of names before that is too much. -/
def linkLimit : Nat := 40

/-- Follows components from a location as `Disk.walk` does, but for links. Where a name stands
for a path, `jump` goes on from the directory of the name, with that path and the components
behind it. -/
def follow (w : Linked) (jump : Location → Bytes → List Bytes → Except Cause Location) :
    Location → List Bytes → Except Cause Location
  | loc, [] => .ok loc
  | loc, c :: cs =>
    match w.disk.node? loc with
    | none => .error .notFound
    | some (.file _ _) => .error .notDirectory
    | some (.dir mode) =>
      if c.isEmpty then follow w jump loc cs
      else if !Disk.mayEnter mode then .error .denied
      else if c == Path.here then follow w jump loc cs
      else if c == Path.up then follow w jump loc.dropLast cs
      else if Disk.nameLimit < c.length then .error .nameTooLong
      else
        match w.links.get? (loc ++ [c]) with
        | none => follow w jump (loc ++ [c]) cs
        | some (.hard file) => follow w jump file cs
        | some (.soft path) => jump loc path cs

/-- Follows components from a location, and at most `n` paths in place of names. -/
def walk (w : Linked) : (n : Nat) → Location → List Bytes → Except Cause Location
  | 0 => w.follow fun _ _ _ => .error .loop
  | n + 1 => w.follow fun loc path cs =>
    w.walk n (if Path.isAbsolute path then [] else loc) (Path.components path ++ cs)

def locate (w : Linked) (path : Bytes) : Except Cause Location := do
  w.walk linkLimit (← Disk.origin w.machine.place path) (Path.components path)

def find (w : Linked) (path : Bytes) : Except Cause FileNode := do
  let loc ← w.locate path
  match w.disk.node? loc with
  | some n => .ok n
  | none => .error .notFound

def target (w : Linked) (path : Bytes) : Except Cause Location :=
  if Bytes.ends [Path.slash] path then do
    let _ ← w.walk linkLimit (← Disk.origin w.machine.place path)
      ((Path.components (Path.stem path)).dropLast ++ [Path.here])
    .error .isDirectory
  else w.locate path

/-- The location of a name itself, link or not. -/
def entry (w : Linked) (path : Bytes) : Except Cause Location := do
  let names := Path.components (Path.stem path)
  let dir ← w.walk linkLimit (← Disk.origin w.machine.place path) names.dropLast
  w.disk.walk dir (names.drop (names.length - 1))

/-- The location of what is to be removed. Behind a slash, a link is followed. -/
def victim (w : Linked) (path : Bytes) : Except Cause Location :=
  if Bytes.ends [Path.slash] path then w.locate path else w.entry path

/-! ## Requests -/

/-- Does what the machine does by itself. -/
def alone {α : Type} (f : Machine → α × Machine) (w : Linked) : α × Linked :=
  let (a, machine) := f w.machine
  (a, { w with machine })

def load (w : Linked) (path : Bytes) : Except OsError Bytes := Machine.loaded path (w.find path)

def stat (w : Linked) (path : Bytes) : Except OsError Status := Machine.status path (w.find path)

def write (w : Linked) (path : Bytes) (mode : Nat) (content : Bytes → Bytes) :
    Except OsError Unit × Linked :=
  w.alone fun machine => machine.change (text "open") path do
    w.disk.put (← w.target path) mode content

def placeOf (w : Linked) (path : Bytes) : Location :=
  match w.locate path with
  | .ok loc => loc
  | .error _ => w.machine.placeOf path

def patch (w : Linked) (path data : Bytes) : Linked :=
  { w with machine := { w.machine with
    disk := w.disk.patch (w.placeOf path) fun old => data ++ old.drop data.length } }

/-- Makes a file or directory where nothing stands, and no link either. -/
def make (w : Linked) (loc : Location) (n : FileNode) : Except Cause Disk :=
  if w.links.contains loc then .error .occupied else w.disk.make loc n

def mkdir (w : Linked) (path : Bytes) (mode : Nat) : Except OsError Unit × Linked :=
  w.alone fun machine => machine.change (text "mkdir") path do
    w.make (← w.entry path) (.dir mode)

def create (w : Linked) (path : Bytes) (mode : Nat) : Except OsError Unit × Linked :=
  w.alone fun machine => machine.change (text "open") path do
    let loc ← if Bytes.ends [Path.slash] path then w.target path else w.entry path
    w.make loc (.file [] mode)

def fresh (w : Linked) (head tail : Bytes) : Bytes × Linked :=
  w.alone fun machine => machine.fresh head tail

def tempFile (w : Linked) (head tail : Bytes) : Except OsError Bytes × Linked :=
  (Host.tryNames (fun w => w.fresh head tail) (fun path w => w.create path Disk.privateFileMode)
    ⟨text "createtemp", w.machine.temp ++ [Path.slash] ++ head ++ text "*" ++ tail, Host.exhausted⟩ :
    StateM Linked _).run w

def tempDir (w : Linked) (head : Bytes) : Except OsError Bytes × Linked :=
  (Host.tryDirs (fun w => w.fresh head []) (fun path w => w.mkdir path Disk.privateDirMode)
    ⟨text "mkdirtemp", w.machine.temp ++ [Path.slash] ++ head ++ text "*", Host.exhausted⟩
    (fun w => (w.stat w.machine.temp, w)) : StateM Linked _).run w

/-- Removes all at a path and below it. Links are removed, and not what they lead to. -/
def removeTree (w : Linked) (path : Bytes) : Except OsError Unit × Linked :=
  match w.victim path with
  | .error .notFound => (.ok (), w)
  | .error c => (.error ⟨text "unlinkat", path, c⟩, w)
  | .ok loc =>
    let held := w.disk.held loc (w.disk.nodes.keys ++ w.links.keys)
    (Machine.cleared path loc held,
      ⟨{ w.machine with disk := w.disk.clear loc held },
        ⟨w.links.items.filter fun p => Disk.outlasts loc held p.1⟩⟩)

def remove (w : Linked) (path : Bytes) : Except OsError Unit × Linked :=
  match w.victim path with
  | .error c => (.error ⟨text "remove", path, c⟩, w)
  | .ok loc =>
    if w.links.contains loc then
      if w.disk.mayChangeAround loc then (.ok (), { w with links := w.links.erase loc })
      else (.error ⟨text "remove", path, .denied⟩, w)
    else w.alone fun machine => machine.change (text "remove") path (w.disk.drop loc)

instance : Host (StateM Linked) where
  load path := fun w => (w.load path, w)
  stat path := fun w => (w.stat path, w)
  save path data := fun w => w.write path Disk.fileMode fun _ => data
  extend path data := fun w => w.write path Disk.fileMode (· ++ data)
  patch path data := fun w => (.ok (), w.patch path data)
  tempFile head tail := fun w => w.tempFile head tail
  tempDir head := fun w => w.tempDir head
  mkdir path := fun w => w.mkdir path Disk.dirMode
  removeFile path := fun w => w.remove path
  removeTree path := fun w => w.removeTree path
  cwd := fun w => (w.machine.dir, w)
  now := fun w => w.alone Machine.now
  platform := fun w => (w.machine.platform, w)
  print data := fun w => w.alone fun machine => machine.print data
  complain data := fun w =>
    w.alone fun machine => ((), { machine with err := machine.err ++ data })
  record entry := fun w =>
    w.alone fun machine => ((), { machine with entries := machine.entries ++ [entry] })

end Linked

end Cascade
