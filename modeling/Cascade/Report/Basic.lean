import Cascade.Codecs
import Cascade.Host.Basic
import Cascade.Identity
import Cascade.Report.Archive

/-!
# The debug report

A report collects named items while the program runs and writes them into one
archive when it is closed. An item is data, a file to be read at the end, or a
copy of a file taken at once.
-/

namespace Cascade

structure Stored where
  /-- The path as it was given. -/
  given : Bytes
  /-- The full path of what will be read. -/
  actual : Bytes
  /-- The date of the item; a file to be read at the end has the date of the end. -/
  date : Option Bytes
  data : Bytes
  /-- The file is a copy made for the report. -/
  copy : Bool
deriving DecidableEq

structure Report where
  items : Dict Bytes Stored
  /-- The path of the archive; none for a report that is never written. -/
  file : Option Bytes
  closed : Bool
deriving DecidableEq

namespace Report

inductive Refusal where
  /-- The name is taken by another path. -/
  | file (name was now : Bytes)
  /-- The name is taken. -/
  | data (name : Bytes)
  /-- The report is never written. -/
  | blank
deriving DecidableEq

def Refusal.message : Refusal → Bytes
  | .file name was now =>
    text "Attempt to overwrite file in the report for [" ++ name ++ text "]: was " ++ was ++
      text ", now " ++ now
  | .data name => text "Attempt to overwrite data in the report for [" ++ name ++ text "]"
  | .blank => text "assignment to entry in nil map"

inductive CloseError where
  | system (e : OsError)
  /-- An item has a content and the name of a directory. -/
  | directory
  /-- The name of an item is too long for the archive. -/
  | longName
deriving DecidableEq

def CloseError.message : CloseError → Bytes
  | .system e => e.message
  | .directory => text "zip: write to directory"
  | .longName => text "zip: FileHeader.Name too long"

inductive CopyError where
  | system (e : OsError)
  | notRegular (path : Bytes)
  /-- The copy was made, but the report does not take it. -/
  | refused (r : Refusal)
deriving DecidableEq

/-- A report that could not be opened anywhere. -/
structure CreateError where
  cause : OsError
deriving DecidableEq

def CreateError.message (e : CreateError) : Bytes :=
  text "unable to create report: " ++ e.cause.message

def CopyError.message : CopyError → Bytes
  | .system e => e.message
  | .notRegular path =>
    text "unable to store copy of '" ++ path ++ text "': not a regular file"
  | .refused r => r.message

/-- A report with no items. -/
def empty (file : Option Bytes) : Report := ⟨∅, file, false⟩

/-- A report that is never written and takes no items. -/
def blank : Report := empty none

def put (r : Report) (name : Bytes) (s : Stored) : Except Refusal Report :=
  if r.file.isSome then .ok { r with items := r.items.insert name s } else .error .blank

/-- Adds a file to be read at the end. The name may be taken only by the same path. -/
def addFile (r : Report) (cwd name path : Bytes) : Except Refusal Report :=
  let s : Stored := ⟨path, Path.absolute cwd path, none, [], false⟩
  match r.items.get? name with
  | some old => if old.given == path then r.put name s else .error (.file name old.given path)
  | none => r.put name s

/-- Adds data under a name that is not taken. -/
def addData (r : Report) (date name data : Bytes) : Except Refusal Report :=
  if r.items.contains name then .error (.data name)
  else r.put name ⟨[], [], some date, data, false⟩

/-- The name under which a copy is kept: a taken name gets the time behind it. -/
def copyName (r : Report) (name : Bytes) (nanos : Nat) : Bytes :=
  if r.items.contains name then name ++ text "-" ++ Bytes.ofNat nanos else name

def addCopy (r : Report) (name path actual date : Bytes) : Except Refusal Report :=
  r.put name ⟨path, actual, some date, [], true⟩

def sorted (r : Report) : List (Bytes × Stored) := r.items.sorted Bytes.le

def manifestLine (date : Bytes) (p : Bytes × Stored) : Bytes :=
  (p.2.date.getD date) ++ text "\t" ++ p.1 ++ text "\t" ++ p.2.given ++ text " : " ++
    p.2.actual ++ text "\n"

/-- The list of all items, archived or not. -/
def manifest (r : Report) (date : Bytes) : Bytes := r.sorted.flatMap (manifestLine date)

variable {m : Type → Type} [Monad m] [Host m]

/-- Opens a report at `path`, or in the temporary directory if that is not possible. -/
def create (path : Bytes) : m (Except CreateError Report) := do
  match ← Host.save (m := m) path [] with
  | .ok () => return .ok (empty (some path))
  | .error _ =>
    match ← Host.tempFile (m := m) (Identity.name ++ text "-report.") (text ".zip") with
    | .ok path => return .ok (empty (some path))
    | .error e => return .error ⟨e⟩

def name (r : Report) : m Bytes :=
  match r.file with
  | none => pure []
  | some path => Host.absolute path

/-- Adds the file at `path` as it will be when the report is closed. -/
def store (r : Report) (name path : Bytes) : m (Except Refusal Report) := do
  return r.addFile (← Host.cwd) name path

def storeData (r : Report) (name data : Bytes) : m (Except Refusal Report) := do
  return r.addData (← Host.now (m := m)).date name data

/-- Copies a file into a directory. The result is the path of the copy. -/
def copyInto (dir path : Bytes) : m (Except OsError Bytes) := do
  match ← Host.load (m := m) path with
  | .error e => return .error e
  | .ok data =>
    let copy := Path.join dir (Path.base path)
    match ← Host.save (m := m) copy data with
    | .error e => return .error e
    | .ok () => return .ok copy

/-- Adds the file at `path` as it is now. -/
def storeCopy (r : Report) (name path : Bytes) : m (Except CopyError Report) := do
  let full ← Host.absolute (m := m) path
  match ← Host.stat (m := m) full with
  | .error e => return .error (.system e)
  | .ok .dir => return .error (.notRegular path)
  | .ok (.file _) =>
    let moment ← Host.now (m := m)
    match ← Host.tempDir (m := m) (Identity.name ++ text "-r-") with
    | .error e => return .error (.system e)
    | .ok dir =>
      match ← copyInto dir full with
      | .error e =>
        let _ ← Host.removeTree (m := m) dir
        return .error (.system e)
      | .ok actual =>
        match r.addCopy (r.copyName name moment.nanos) path actual moment.date with
        | .error e => return .error (.refused e)
        | .ok r => return .ok r

/-! ## Closing -/

def nameLimit : Nat := 65535

/-- What stops an archive at a member, if something does. -/
def objection? (x : Member) : Option CloseError :=
  if nameLimit < x.name.length then some .longName
  else if Bytes.ends [Path.slash] x.name && !x.content.isEmpty then some .directory
  else none

/-- Members to be written, and what ended their list before its time. -/
structure Draft where
  members : List Member
  fault : Option CloseError
deriving DecidableEq

/-- Puts a member before those of a draft, unless the archive stops there. A member
with the name of a directory is still in the archive, without its content. -/
def Draft.add (x : Member) (rest : Draft) : Draft :=
  match objection? x with
  | none => { rest with members := x :: rest.members }
  | some e => ⟨[{ x with content := [] }], some e⟩

/-- What an item contributes: its data, or the file if there is one. A file that is there
and cannot be read is an error. -/
def content? (s : Stored) : m (Except OsError (Option Bytes)) := do
  if s.data.isEmpty then
    match ← Host.stat (m := m) s.actual with
    | .ok (.file _) => return (← Host.load (m := m) s.actual).map some
    | _ => return .ok none
  else return .ok (some s.data)

def draft : List (Bytes × Stored) → m Draft
  | [] => pure ⟨[], none⟩
  | (name, s) :: rest => do
    match ← content? (m := m) s with
    | .error e => return ⟨[], some (.system e)⟩
    | .ok none => draft rest
    | .ok (some data) => return Draft.add ⟨name, data⟩ (← draft rest)

/-- The draft of a report: the manifest, then the items in the order of their names. -/
def outline (r : Report) : m Draft := do
  let moment ← Host.now (m := m)
  return Draft.add ⟨text "MANIFEST", r.manifest moment.date⟩ (← draft (m := m) r.sorted)

/-- The archive of a draft. A name that is too long is listed, but nothing is written for it. -/
def Draft.archive (d : Draft) : Bytes :=
  Archive.assemble (if d.fault = some .longName then d.members.dropLast else d.members) d.members

def bufferSize : Nat := 4096

/-- How much is written for the start of a member: its name and the fixed part before it. -/
def opening (x : Member) : Nat := 39 + x.name.length

/-- How much is written for a member. A directory has no content. -/
def extent [Codecs] (x : Member) : Nat :=
  opening x + if Bytes.ends [Path.slash] x.name then 0 else Codecs.packedSize x.content + 16

/-- How much is written up to the content of the last member. Nothing is written for
a name that is too long. -/
def Draft.lead [Codecs] (d : Draft) : Nat :=
  (d.members.dropLast.map extent).foldr (· + ·) 0 +
    if d.fault = some .longName then 0 else (d.members.getLast?.map opening).getD 0

/-- The errors of closing a report at `path` again. If the buffer is full before the
last member, the first of them comes while members are written. -/
def Draft.refusals [Codecs] (d : Draft) (path : Bytes) : List CloseError :=
  let closed (request : Bytes) : CloseError := .system ⟨request, path, .closed⟩
  let first := if bufferSize < d.lead then [closed (text "write")] else d.fault.toList
  first ++ [closed (text "write"), closed (text "close")]

/-- Removes the directories of copies. The result is what went wrong. -/
def removeHomes : List Stored → m (List CloseError)
  | [] => pure []
  | s :: rest => do
    match ← Host.removeTree (m := m) (Path.parent s.actual) with
    | .ok () => removeHomes rest
    | .error e => return .system e :: (← removeHomes rest)

def removeCopies (r : Report) : m (List CloseError) :=
  removeHomes (r.items.values.filter fun s => s.copy)

/-- Writes the archive and removes the copies. A report can be written only once. The errors
are those of collecting the items, of writing and closing the file, and of removing the copies. -/
def close [Codecs] (r : Report) : m (List CloseError × Report) :=
  match r.file with
  | none => pure ([], r)
  | some path => do
    let d ← r.outline (m := m)
    if r.closed then
      let left ← r.removeCopies (m := m)
      return (d.refusals path ++ left, r)
    else
      let written ← Host.patch (m := m) path d.archive
      let left ← r.removeCopies (m := m)
      let failed := match written with
        | .ok () => []
        | .error e => [.system e]
      return (d.fault.toList ++ failed ++ left, { r with closed := true })

end Report

end Cascade
