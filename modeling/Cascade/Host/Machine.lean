import Cascade.Host.Basic
import Cascade.Sink

/-!
# A machine as a value

Files, streams and clock of a run, so that a run is a function from machine to
machine.
-/

namespace Cascade

structure Machine where
  disk : Disk
  /-- The current directory, a full path. -/
  dir : Bytes
  /-- The temporary directory, which need not exist. -/
  temp : Bytes
  out : Sink
  err : Bytes
  /-- The log entries kept so far. -/
  entries : List Log.Entry
  /-- How many moments and unique names have been asked for. -/
  ticks : Nat
  /-- What moments show, but for their nanoseconds. -/
  stamp : Bytes
  date : Bytes
  elapsed : Bytes
  platform : Bytes
deriving DecidableEq

namespace Machine

def epoch : Nat := 1000000000000000000

def place (w : Machine) : Location :=
  (Path.components w.dir).filter fun c => !c.isEmpty

/-- What reading the path answers, by what it names. -/
def loaded (path : Bytes) : Except Cause FileNode → Except OsError Bytes
  | .ok (.file data mode) =>
    if Disk.mayRead mode then .ok data else .error ⟨text "open", path, .denied⟩
  | .ok (.dir mode) =>
    if Disk.mayRead mode then .error ⟨text "read", path, .isDirectory⟩
    else .error ⟨text "open", path, .denied⟩
  | .error c => .error ⟨text "open", path, c⟩

def load (w : Machine) (path : Bytes) : Except OsError Bytes :=
  loaded path (w.disk.find w.place path)

/-- What the status of the path is, by what it names. -/
def status (path : Bytes) : Except Cause FileNode → Except OsError Status
  | .ok (.file data _) => .ok (.file data.length)
  | .ok (.dir _) => .ok .dir
  | .error c => .error ⟨text "stat", path, c⟩

def stat (w : Machine) (path : Bytes) : Except OsError Status :=
  status path (w.disk.find w.place path)

/-- Goes on with a new disk, or refuses the request. -/
def change (w : Machine) (request path : Bytes) : Except Cause Disk → Except OsError Unit × Machine
  | .ok disk => (.ok (), { w with disk })
  | .error c => (.error ⟨request, path, c⟩, w)

def write (w : Machine) (path : Bytes) (mode : Nat) (content : Bytes → Bytes) :
    Except OsError Unit × Machine :=
  w.change (text "open") path (w.disk.write w.place path mode content)

def save (w : Machine) (path data : Bytes) : Except OsError Unit × Machine :=
  w.write path Disk.fileMode fun _ => data

def extend (w : Machine) (path data : Bytes) : Except OsError Unit × Machine :=
  w.write path Disk.fileMode (· ++ data)

/-- Where an open file is, whatever has become of the rights to reach it. -/
def placeOf (w : Machine) (path : Bytes) : Location :=
  (Path.components (Path.absolute w.dir path)).filter fun c => !c.isEmpty

def patch (w : Machine) (path data : Bytes) : Machine :=
  { w with disk := w.disk.patch (w.placeOf path) fun old => data ++ old.drop data.length }

def mkdir (w : Machine) (path : Bytes) (mode : Nat) : Except OsError Unit × Machine :=
  w.change (text "mkdir") path (w.disk.mkdir w.place path mode)

def create (w : Machine) (path : Bytes) (mode : Nat) : Except OsError Unit × Machine :=
  w.change (text "open") path (w.disk.create w.place path mode)

/-- A path in the temporary directory that has not been used before. -/
def fresh (w : Machine) (head tail : Bytes) : Bytes × Machine :=
  (w.temp ++ [Path.slash] ++ head ++ Bytes.ofNat (w.ticks + 1) ++ tail,
    { w with ticks := w.ticks + 1 })

def tempFile (w : Machine) (head tail : Bytes) : Except OsError Bytes × Machine :=
  (Host.tryNames (fun w => w.fresh head tail) (fun path w => w.create path Disk.privateFileMode)
    ⟨text "createtemp", w.temp ++ [Path.slash] ++ head ++ text "*" ++ tail, Host.exhausted⟩ :
    StateM Machine _).run w

def tempDir (w : Machine) (head : Bytes) : Except OsError Bytes × Machine :=
  (Host.tryDirs (fun w => w.fresh head []) (fun path w => w.mkdir path Disk.privateDirMode)
    ⟨text "mkdirtemp", w.temp ++ [Path.slash] ++ head ++ text "*", Host.exhausted⟩
    (fun w => (w.stat w.temp, w)) : StateM Machine _).run w

/-- The answer to the removal of all at a path. The complaint is about the first that resists. -/
def cleared (path : Bytes) (loc : Location) : (held : List Location) → Except OsError Unit
  | [] => .ok ()
  | place :: _ =>
    .error ⟨text "unlinkat", Bytes.join [Path.slash] (path :: place.drop loc.length), .denied⟩

def removeTree (w : Machine) (path : Bytes) : Except OsError Unit × Machine :=
  match w.disk.locate w.place path with
  | .error .notFound => (.ok (), w)
  | .error c => (.error ⟨text "unlinkat", path, c⟩, w)
  | .ok loc =>
    let held := w.disk.held loc w.disk.nodes.keys
    (cleared path loc held, { w with disk := w.disk.clear loc held })

def remove (w : Machine) (path : Bytes) : Except OsError Unit × Machine :=
  w.change (text "remove") path (w.disk.remove w.place path)

def now (w : Machine) : Moment × Machine :=
  (⟨w.stamp, w.date, w.elapsed, epoch + w.ticks⟩, { w with ticks := w.ticks + 1 })

def print (w : Machine) (data : Bytes) : Bool × Machine :=
  let r := w.out.write data
  (!r.failed, { w with out := r.sink })

instance : Host (StateM Machine) where
  load path := fun w => (w.load path, w)
  stat path := fun w => (w.stat path, w)
  save path data := fun w => w.save path data
  extend path data := fun w => w.extend path data
  patch path data := fun w => (.ok (), w.patch path data)
  tempFile head tail := fun w => w.tempFile head tail
  tempDir head := fun w => w.tempDir head
  mkdir path := fun w => w.mkdir path Disk.dirMode
  removeFile path := fun w => w.remove path
  removeTree path := fun w => w.removeTree path
  cwd := fun w => (w.dir, w)
  now := fun w => w.now
  platform := fun w => (w.platform, w)
  print data := fun w => w.print data
  complain data := fun w => ((), { w with err := w.err ++ data })
  record entry := fun w => ((), { w with entries := w.entries ++ [entry] })

end Machine

end Cascade
