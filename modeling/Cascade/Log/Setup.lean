import Cascade.Config.Basic
import Cascade.Log.Logger
import Cascade.Report.Current

/-!
# Setting up the log

The console gets entries from its level on, errors on the error stream and all
else on standard output. The log file gets them from its own level on; with a
debug report it gets all of them, and ends up in the report.
-/

namespace Cascade.Log

/-- Why there is no logger. -/
inductive SetupError where
  /-- Neither the destination nor a temporary file can be written. -/
  | unavailable (destination : Bytes) (e : OsError)
  /-- The report does not take the log. -/
  | refused (r : Report.Refusal)
deriving DecidableEq

def SetupError.message : SetupError → Bytes
  | .unavailable destination e =>
    Cascade.text "unable to access file log destination (" ++ destination ++
      Cascade.text "): " ++ e.message
  | .refused r => r.message

structure Opened where
  path : Bytes
  /-- It is a temporary file, since the one asked for could not be written. -/
  moved : Bool
deriving DecidableEq

def consoleOutlets (console : Channel) : List Outlet :=
  match console.least? with
  | none => []
  | some least => [.errors, .output least]

namespace Setup

variable {m : Type → Type} [Monad m] [Host m]

/-- Opens a log file, keeping what it holds if `append`. If that is not possible, opens
a temporary file whose name is made of `head` and `tail`. -/
def openFile (path : Bytes) (append : Bool) (head tail : Bytes) : m (Except OsError Opened) := do
  match ← if append then Host.extend (m := m) path [] else Host.save (m := m) path [] with
  | .ok () => return .ok ⟨path, false⟩
  | .error _ =>
    match ← Host.tempFile (m := m) head tail with
    | .ok path => return .ok ⟨path, true⟩
    | .error e => return .error e

def store (name path : Bytes) : ExceptT SetupError (Reporting m) Unit := do
  match ← (Reporting.store name path : Reporting m _) with
  | .ok () => return ()
  | .error r => throw (.refused r)

/-- Opens the file for the output of a crash beside the log. Nothing is lost if there is none. -/
def openCrashFile (file : Channel) : ExceptT SetupError (Reporting m) Unit := do
  let path := Path.join (Path.parent file.destination) (Identity.name ++ Cascade.text "-panic.log")
  let opened ← (openFile path (file.mode == Channel.append)
    (Identity.name ++ Cascade.text "-panic.") (Cascade.text ".log") : m _)
  match opened with
  | .ok o => store (Cascade.text "panic.log") o.path
  | .error _ => return ()

def openLog (file : Channel) : ExceptT SetupError (Reporting m) Opened := do
  let opened ← (openFile file.destination (file.mode == Channel.append)
    (Identity.name ++ Cascade.text ".") (Cascade.text ".log") : m _)
  match opened with
  | .error e => throw (.unavailable file.destination e)
  | .ok o =>
    store (Cascade.text "final.log") o.path
    return o

/-- The log file as it is set, or as the report asks for. -/
def effective (file : Channel) (report : Option Report) : Channel :=
  if report.isSome then { file with level := Channel.debug, mode := Channel.overwrite } else file

/-- Makes the logger of the program. A log that went to a temporary file is announced. -/
def run (file console : Channel) : ExceptT SetupError (Reporting m) Logger := do
  let report ← (get : Reporting m _)
  let file := effective file report
  match file.least? with
  | none => return ⟨Identity.name, consoleOutlets console⟩
  | some least =>
    openCrashFile file
    let log ← openLog file
    let outlets := consoleOutlets console ++ [.file log.path least]
    if log.moved then
      (Logger.log ⟨[], outlets⟩ .warn "Log file was redirected to new location"
        [("location", .text log.path)] : m Unit)
    return ⟨Identity.name, outlets⟩

end Setup

end Cascade.Log
