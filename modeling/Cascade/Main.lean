import Cascade.Host.Clock
import Cascade.Program
import Std.Time.DateTime.Timestamp

/-!
# The command line

Answers what the program asks of its machine by the system it runs on.
-/

namespace Cascade.System

abbrev Run : Type → Type := ReaderT Nat IO

def toBuffer (s : Bytes) : ByteArray := ⟨s.toArray⟩

def name (s : Bytes) : String := (String.fromUTF8? (toBuffer s)).getD ""

/-- The number of a system error, which some calls give negated. -/
def errorNumber (e : IO.Error) : Nat :=
  let n : UInt32 := match e with
    | .alreadyExists _ n _ => n
    | .noFileOrDirectory _ n _ => n
    | .inappropriateType _ n _ => n
    | .illegalOperation n _ => n
    | .invalidArgument _ n _ => n
    | .noSuchThing _ n _ => n
    | .permissionDenied _ n _ => n
    | .otherError n _ => n
    | _ => 0
  if n < 0x80000000 then n.toNat else (0 - n).toNat

def causeOf (e : IO.Error) : Cause :=
  match errorNumber e with
  | 2 => .notFound
  | 13 => .denied
  | 17 => .occupied
  | 20 => .notDirectory
  | 21 => .isDirectory
  | 22 => .invalid
  | 36 => .nameTooLong
  | 40 => .loop
  | _ => .other (text s!"{e}")

def attempt {α : Type} (request path : Bytes) (x : IO α) : IO (Except OsError α) := do
  try return .ok (← x)
  catch e => return .error ⟨request, path, causeOf e⟩

def load (path : Bytes) : IO (Except OsError Bytes) := do
  match ← attempt (text "open") path (IO.FS.readBinFile (name path)) with
  | .ok data => return .ok data.toList
  | .error e => return .error (if e.cause = .isDirectory then { e with request := text "read" } else e)

/-- What stands at a path is found out by reading it. -/
def stat (path : Bytes) : IO (Except OsError Status) := do
  match ← load path with
  | .ok data => return .ok (.file data.length)
  | .error e =>
    return if e.cause = .isDirectory then .ok .dir else .error { e with request := text "stat" }

def write (mode : IO.FS.Mode) (path data : Bytes) : IO (Except OsError Unit) :=
  attempt (text "open") path do
    let h ← IO.FS.Handle.mk (name path) mode
    h.write (toBuffer data)

def tempRoot : IO Bytes := do
  match ← IO.getEnv "TMPDIR" with
  | some dir => return if dir.isEmpty then text "/tmp" else text dir
  | none => return text "/tmp"

/-- A path in the temporary directory that is hardly ever taken. -/
def freshPath (head tail : Bytes) : IO Bytes := do
  let n ← IO.rand 0 4294967295
  return (← tempRoot) ++ [Path.slash] ++ head ++ Bytes.ofNat n ++ tail

def tempFile (head tail : Bytes) : IO (Except OsError Bytes) := do
  Host.tryNames (freshPath head tail) (write .writeNew · [])
    ⟨text "createtemp", (← tempRoot) ++ [Path.slash] ++ head ++ text "*" ++ tail, Host.exhausted⟩

def mkdir (path : Bytes) : IO (Except OsError Unit) :=
  attempt (text "mkdir") path (IO.FS.createDir (name path))

def tempDir (head : Bytes) : IO (Except OsError Bytes) := do
  let root ← tempRoot
  Host.tryDirs (freshPath head []) mkdir
    ⟨text "mkdirtemp", root ++ [Path.slash] ++ head ++ text "*", Host.exhausted⟩ (stat root)

def removeTree (path : Bytes) : IO (Except OsError Unit) := do
  match ← attempt (text "unlinkat") path (IO.FS.removeDirAll (name path)) with
  | .ok () => return .ok ()
  | .error e => return if e.cause = .notFound then .ok () else .error e

def nanos : IO Nat := do
  return (← Std.Time.Timestamp.now).toNanosecondsSinceUnixEpoch.val.toNat

def moment (start : Nat) : IO Moment := do
  let n ← nanos
  return ⟨Clock.stamp (n / 1000000000) (n / 1000000 % 1000), Clock.date (n / 1000000000),
    Clock.duration (n - start), n⟩

def print (data : Bytes) : IO Bool := do
  let out ← IO.getStdout
  try
    out.write (toBuffer data)
    out.flush
    return true
  catch _ => return false

def complain (data : Bytes) : IO Unit := do
  let err ← IO.getStderr
  try err.write (toBuffer data) catch _ => return ()

instance : Host Run where
  load path := (load path : IO _)
  stat path := (stat path : IO _)
  save path data := (write .write path data : IO _)
  extend path data := (write .append path data : IO _)
  patch path data := (write .readWrite path data : IO _)
  tempFile head tail := (tempFile head tail : IO _)
  tempDir head := (tempDir head : IO _)
  mkdir path := (mkdir path : IO _)
  removeFile path := (attempt (text "remove") path (IO.FS.removeFile (name path)) : IO _)
  removeTree path := (removeTree path : IO _)
  cwd := (do return text (← IO.currentDir).toString : IO _)
  now := fun start => moment start
  platform := pure (text "lean4")
  print data := (print data : IO _)
  complain data := (complain data : IO _)
  record _ := pure ()

/-- No tables come with the program: it reads ASCII, and packs nothing. -/
instance : Codecs where
  decode _ s := Utf8.ofChars (s.map (Charset.Coding.upperChar #[]))
  packedSize content := content.length

end Cascade.System

def main (args : List String) : IO UInt32 := do
  let start ← Cascade.System.nanos
  let exit ← (Cascade.Program.run (args.map Cascade.text) : Cascade.System.Run _).run start
  Cascade.System.complain exit.lament
  return exit.status.toUInt32
