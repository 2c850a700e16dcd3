import Cascade.Command.Line
import Cascade.Config.Basic
import Cascade.Log.Logger
import Cascade.Report.Current
import Cascade.Source

/-!
# Commands

What commands share: the environment they run in and the ways they fail.
-/

namespace Cascade

structure UsageError where
  /-- How the command is called. -/
  synopsis : Bytes
  reason : Bytes
deriving DecidableEq

inductive Failure where
  /-- The run was called off before it started. -/
  | canceled
  | usage (e : UsageError)
  | source (e : SourceError)
  | backupSource (e : OsError)
  | backup (e : SourceError)
  /-- Standard output did not take the analysis. -/
  | analysisOutput
  /-- Standard output did not take the result. -/
  | resultOutput
  /-- Standard output did not take the configuration. -/
  | configOutput
  | destination (path : Bytes) (e : OsError)
  /-- The report does not take an item. The program does not survive this. -/
  | refused (r : Report.Refusal)
deriving DecidableEq

namespace Failure

def message : Failure → Bytes
  | .canceled => text "context canceled"
  | .usage e => e.reason
  | .source e => e.message
  | .backupSource e => text "unable to read stylesheet for backup: " ++ e.message
  | .backup e => text "unable to backup stylesheet: " ++ e.message
  | .analysisOutput => text "unable to write analysis: write failed"
  | .resultOutput => text "unable to write result: write failed"
  | .configOutput => text "unable to write configuration: write failed"
  | .destination path e =>
    text "unable to create destination file '" ++ path ++ text "': " ++ e.message
  | .refused r => r.message

/-- What the system refused, if that is what went wrong. -/
def osError? : Failure → Option OsError
  | .source e => e.osError?
  | .backupSource e => some e
  | .backup e => e.osError?
  | .destination _ e => some e
  | _ => none

end Failure

structure Environment where
  /-- The configuration, if one has been loaded. -/
  config : Option Config
  logger : Log.Logger
  /-- The character set of stylesheets. -/
  charset : Charset
  /-- The run has been called off. -/
  canceled : Bool
deriving DecidableEq

/-- Commands: they may fail, and may add to the report whether they fail or not. -/
abbrev Action (m : Type → Type) : Type → Type := ExceptT Failure (Reporting m)

namespace Action

variable {m : Type → Type} [Monad m] [Host m]

/-- Runs `x`, and `after` whether `x` fails or not. -/
def before {α : Type} (x : Action m α) (after : m Unit) : Action m α := ExceptT.mk do
  let r ← x.run
  (after : m Unit)
  return r

/-- Fails if the run has been called off. -/
def proceed (env : Environment) : Action m Unit := if env.canceled then throw .canceled else pure ()

def ofExcept {ε α : Type} (f : ε → Failure) (r : Except ε α) : Action m α :=
  match r with
  | .ok a => pure a
  | .error e => throw (f e)

/-- Adds a file to the report, as it is when the report is closed. -/
def store (name path : Bytes) : Action m Unit := do
  ofExcept .refused (← (Reporting.store name path : Reporting m _))

def storeData (name data : Bytes) : Action m Unit := do
  ofExcept .refused (← (Reporting.storeData name data : Reporting m _))

/-- Adds a stylesheet to the report, as it is now. That it cannot be read is only
worth a warning. -/
def storeInput (log : Log.Logger) (path : Bytes) : Action m Unit := do
  match ← (Reporting.storeCopy (text "input/" ++ Path.base path) path : Reporting m _) with
  | .ok () => return ()
  | .error (.refused r) => throw (.refused r)
  | .error e =>
    (log.log .warn "Unable to store stylesheet in debug report"
      [("error", .text e.message)] : m Unit)

def logElapsed (log : Log.Logger) (message : String) : m Unit := do
  let moment ← Host.now (m := m)
  log.log .debug message [("elapsed", .text moment.elapsed)]

def scan (log : Log.Logger) (path source : Bytes) : Action m Sheet := do
  let sheet := Sheet.scan source
  ((Scan.log path source).forM (log.emit (m := m)) : m Unit)
  (sheet.warnings.forM (fun w => log.log (m := m) .debug "Malformed stylesheet"
    [("source", .text path), ("problem", .text w.message)]) : m Unit)
  return sheet

/-- There is no stylesheet on the command line. -/
def noStylesheet (command : Bytes) : UsageError :=
  ⟨command ++ text " <path-to-css>", text "no input stylesheet has been specified"⟩

/-- The stylesheet on the command line. All other arguments are ignored. -/
def stylesheet (log : Log.Logger) (command : Bytes) (line : Line) : Action m Bytes := do
  match line.arguments with
  | [] => throw (.usage (noStylesheet command))
  | path :: others =>
    if path.isEmpty then throw (.usage (noStylesheet command))
    else
      if !others.isEmpty then
        (log.log .warn "Malformed command line, too many sources"
          [("ignoring", .list others)] : m Unit)
      return path

end Action

end Cascade
