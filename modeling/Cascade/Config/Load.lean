import Cascade.Config.Decode
import Cascade.Host.Basic
import Cascade.Text.Blank

/-!
# Loading a configuration

A configuration is read, its paths are cleaned and their directories made, and
then it is checked. Directories that have been made stay even if the check fails.
-/

namespace Cascade

namespace Config

inductive Requirement where
  | equal
  | least
  | required
  | oneOf
  | filePath
deriving DecidableEq

def Requirement.name : Requirement → Bytes
  | .equal => text "eq"
  | .least => text "min"
  | .required => text "required"
  | .oneOf => text "oneof"
  | .filePath => text "filepath"

inductive Field where
  | version
  | encoding
  | top
  | fileLevel
  | fileDestination
  | fileMode
  | consoleLevel
  | consoleDestination
  | consoleMode
  | report
deriving DecidableEq

namespace Field

def place : Field → Bytes
  | .version => text "Config"
  | .encoding => text "Config.Input"
  | .top => text "Config.Analysis"
  | .fileLevel => text "Config.Logging.FileLogger"
  | .fileDestination => text "Config.Logging.FileLogger"
  | .fileMode => text "Config.Logging.FileLogger"
  | .consoleLevel => text "Config.Logging.ConsoleLogger"
  | .consoleDestination => text "Config.Logging.ConsoleLogger"
  | .consoleMode => text "Config.Logging.ConsoleLogger"
  | .report => text "Config.Reporting"

def name : Field → Bytes
  | .version => text "Version"
  | .encoding => text "Encoding"
  | .top => text "Top"
  | .fileLevel => text "Level"
  | .fileDestination => text "Destination"
  | .fileMode => text "Mode"
  | .consoleLevel => text "Level"
  | .consoleDestination => text "Destination"
  | .consoleMode => text "Mode"
  | .report => text "Destination"

def path (f : Field) : Bytes := f.place ++ text "." ++ f.name

end Field

structure Violation where
  field : Field
  requirement : Requirement
deriving DecidableEq

def Violation.message (v : Violation) : Bytes :=
  text "Key: '" ++ v.field.path ++ text "' Error:Field validation for '" ++ v.field.name ++
    text "' failed on the '" ++ v.requirement.name ++ text "' tag"

inductive Rejection where
  | undecodable (f : Yaml.Fault)
  | directory (path : Bytes) (e : OsError)
  | invalid (vs : List Violation)
deriving DecidableEq

def Rejection.message : Rejection → Bytes
  | .undecodable f => text "failed to decode configuration data: " ++ f.message
  | .directory path e =>
    text "failed to create directory '" ++ path ++ text "': " ++ e.message
  | .invalid vs => Bytes.join (text "\n") (vs.map Violation.message)

inductive Origin where
  | standard
  | file
deriving DecidableEq

/-- Why there is no configuration. -/
inductive LoadError where
  | unreadable (e : OsError)
  | rejected (origin : Origin) (r : Rejection)
deriving DecidableEq

namespace LoadError

def message : LoadError → Bytes
  | .unreadable e => text "failed to read config file: " ++ e.message
  | .rejected .standard r => text "failed to process configuration template: " ++ r.message
  | .rejected .file r => text "failed to process configuration file: " ++ r.message

/-- What the system refused, if that is what went wrong. -/
def osError? : LoadError → Option OsError
  | .unreadable e => some e
  | .rejected _ (.directory _ e) => some e
  | _ => none

end LoadError

/-! ## Checks that look at no file -/

def firstFailing (f : Field) (checks : List (Requirement × Bool)) : List Violation :=
  match checks.find? fun c => !c.2 with
  | none => []
  | some c => [⟨f, c.1⟩]

def levels : List Bytes := [Channel.none, Channel.debug, Channel.normal]

def modes : List Bytes := [Channel.append, Channel.overwrite]

/-- A file can stand at a path: no directory does, and the name is not blank. -/
def isFilePath (path : Bytes) : Except OsError Status → Bool
  | .ok .dir => false
  | .ok (.file _) => true
  | .error e => e.cause != .invalid && !path.isBlank && !Bytes.ends [Path.slash] path

/-- The violations of a log, given what stands at its destination. -/
def channelViolations (level destination mode : Field) (c : Channel)
    (found : Except OsError Status) : List Violation :=
  firstFailing level [(.required, !c.level.isEmpty), (.oneOf, levels.contains c.level)] ++
  firstFailing destination
    [(.filePath, c.destination.isEmpty || isFilePath c.destination found)] ++
  firstFailing mode [(.oneOf, c.mode.isEmpty || modes.contains c.mode)]

/-- The violations of a configuration, given what stands at its three paths. -/
def violations (c : Config) (file console report : Except OsError Status) : List Violation :=
  firstFailing .version [(.equal, c.version == 1)] ++
  firstFailing .encoding [(.required, !c.encoding.isEmpty)] ++
  firstFailing .top [(.least, 1 ≤ c.top)] ++
  channelViolations .fileLevel .fileDestination .fileMode c.file file ++
  channelViolations .consoleLevel .consoleDestination .consoleMode c.console console ++
  firstFailing .report
    [(.required, !c.report.isEmpty), (.filePath, isFilePath c.report report)]

variable {m : Type → Type} [Monad m] [Host m]

/-- A path in its shortest form, with its directory made. An empty path is left alone. -/
def sanitizePath (path : Bytes) : m (Except Rejection Bytes) :=
  if path.isEmpty then pure (.ok path)
  else do
    let path := Path.clean path
    let dir := Path.parent path
    match ← Host.mkdirAll (m := m) dir with
    | .ok () => return .ok path
    | .error e => return .error (.directory dir e)

def sanitize (c : Config) : ExceptT Rejection m Config := do
  let file ← ExceptT.mk (sanitizePath (m := m) c.file.destination)
  let console ← ExceptT.mk (sanitizePath (m := m) c.console.destination)
  let report ← ExceptT.mk (sanitizePath (m := m) c.report)
  return { c with
    file := { c.file with destination := file }
    console := { c.console with destination := console }
    report := report }

def process (c : Config) : ExceptT Rejection m Config := do
  let c ← sanitize (m := m) c
  let file ← (Host.stat c.file.destination : m _)
  let console ← (Host.stat c.console.destination : m _)
  let report ← (Host.stat c.report : m _)
  match c.violations file console report with
  | [] => return c
  | vs => throw (.invalid vs)

def ofText (data : Bytes) : ExceptT Rejection m Config := do
  match standard.decode data with
  | .error f => throw (.undecodable f)
  | .ok c => process c

/-- The configuration in a file, or the standard one if the path is empty. -/
def load (path : Bytes) : m (Except LoadError Config) := do
  if path.isEmpty then
    return ((← (process (m := m) standard).run).mapError (.rejected .standard))
  else
    match ← Host.load (m := m) path with
    | .error e => return .error (.unreadable e)
    | .ok data => return ((← (ofText (m := m) data).run).mapError (.rejected .file))

end Config

end Cascade
