import Cascade.Host.Disk
import Cascade.Log.Entry

/-!
# What the program asks of its machine

The program runs in any monad that answers these requests. `Machine` answers
them on a value, the command line in `IO`.
-/

namespace Cascade

structure OsError where
  request : Bytes
  path : Bytes
  cause : Cause
deriving DecidableEq

def OsError.message (e : OsError) : Bytes :=
  e.request ++ text " " ++ e.path ++ text ": " ++ e.cause.message

/-- What stands at a path: a directory, or a file of some size. -/
inductive Status where
  | dir
  | file (size : Nat)
deriving DecidableEq

structure Moment where
  /-- The time column of a log line. -/
  stamp : Bytes
  /-- The date in a manifest. -/
  date : Bytes
  /-- How long the current activity has lasted. -/
  elapsed : Bytes
  /-- Nanoseconds of the clock. No two moments have the same. -/
  nanos : Nat
deriving DecidableEq

class Host (m : Type → Type) where
  /-- The content of a file. -/
  load (path : Bytes) : m (Except OsError Bytes)
  stat (path : Bytes) : m (Except OsError Status)
  /-- Replaces the content of a file, or makes the file. -/
  save (path data : Bytes) : m (Except OsError Unit)
  /-- Adds to a file, or makes it. -/
  extend (path data : Bytes) : m (Except OsError Unit)
  /-- Writes from the start of a file that has been made before. What lies
  behind the end of the data stays. -/
  patch (path data : Bytes) : m (Except OsError Unit)
  /-- Makes a new empty file in the temporary directory. Its name has a unique
  part between `head` and `tail`. -/
  tempFile (head tail : Bytes) : m (Except OsError Bytes)
  /-- Makes a new directory in the temporary directory. -/
  tempDir (head : Bytes) : m (Except OsError Bytes)
  mkdir (path : Bytes) : m (Except OsError Unit)
  removeFile (path : Bytes) : m (Except OsError Unit)
  /-- Removes a directory and all in it, if it is there. -/
  removeTree (path : Bytes) : m (Except OsError Unit)
  /-- The current directory. -/
  cwd : m Bytes
  now : m Moment
  /-- What the program runs on. -/
  platform : m Bytes
  /-- Writes to standard output. False if not all of it could be written. -/
  print (data : Bytes) : m Bool
  /-- Writes to the error stream. -/
  complain (data : Bytes) : m Unit
  /-- Keeps a log entry. -/
  record (entry : Log.Entry) : m Unit

namespace Host

def attempts : Nat := 10000

def exhausted : Cause := .other (text "file already exists")

section Names

variable {m : Type → Type} [Monad m]

/-- Makes something under the first of several fresh names that is not taken. -/
def tryName (fresh : m Bytes) (make : Bytes → m (Except OsError Unit)) (refusal : OsError) :
    (tries : Nat) → m (Except OsError Bytes)
  | 0 => return .error refusal
  | tries + 1 => do
    let path ← fresh
    match ← make path with
    | .ok () => return .ok path
    | .error e =>
      if e.cause = .occupied then tryName fresh make refusal tries else return .error e

def tryNames (fresh : m Bytes) (make : Bytes → m (Except OsError Unit)) (refusal : OsError) :
    m (Except OsError Bytes) :=
  tryName fresh make refusal attempts

/-- Makes a directory under a fresh name. Where the directory around it is missing, that is the
complaint. -/
def tryDirs (fresh : m Bytes) (make : Bytes → m (Except OsError Unit)) (refusal : OsError)
    (around : m (Except OsError Status)) : m (Except OsError Bytes) := do
  match ← tryNames fresh make refusal with
  | .ok path => return .ok path
  | .error e =>
    if e.cause = .notFound then
      match ← around with
      | .error missing => return .error (if missing.cause = .notFound then missing else e)
      | .ok _ => return .error e
    else return .error e

end Names

end Host

variable {m : Type → Type} [Monad m] [Host m]

/-- Makes the first of the given directories. The others are made before it if it
does not exist, and the first refusal ends the attempt. A refusal is of no
consequence if the directory is there all the same. -/
def Host.mkdirs : List Bytes → m (Except OsError Unit)
  | [] => pure (.ok ())
  | path :: outer => do
    match ← Host.stat path with
    | .ok .dir => return .ok ()
    | .ok (.file _) => return .error ⟨text "mkdir", path, .notDirectory⟩
    | .error _ =>
      match ← mkdirs outer with
      | .error e => return .error e
      | .ok () =>
        match ← Host.mkdir path with
        | .ok () => return .ok ()
        | .error e =>
          match ← Host.stat path with
          | .ok .dir => return .ok ()
          | _ => return .error e

def Host.mkdirAll (path : Bytes) : m (Except OsError Unit) := Host.mkdirs (Path.lineage path)

def Host.absolute (path : Bytes) : m Bytes := do
  return Path.absolute (← Host.cwd) path

end Cascade
