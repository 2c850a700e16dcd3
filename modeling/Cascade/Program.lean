import Cascade.Command.Analyze
import Cascade.Command.Dedupe
import Cascade.Command.DumpConfig
import Cascade.Config.Load
import Cascade.Log.Setup

/-!
# The program

A run reads its command line, prepares configuration, report and log, runs one
command, and puts all of them away again.
-/

namespace Cascade.Program

/-! ## The command line -/

def config : Flag := ⟨text "config", [text "c"], .text⟩
def debug : Flag := ⟨text "debug", [text "d"], .switch⟩
def encoding : Flag := ⟨text "encoding", [], .text⟩
def help : Flag := ⟨text "help", [text "h"], .switch⟩
def version : Flag := ⟨text "version", [text "v"], .switch⟩

/-- The flags that may stand before the command and behind it. -/
def commonFlags : List Flag := [config, debug, encoding]

inductive Command where
  | analyze
  | dedupe
  | dumpConfig
deriving DecidableEq

namespace Command

def all : List Command := [.analyze, .dedupe, .dumpConfig]

def name : Command → Bytes
  | .analyze => text "analyze"
  | .dedupe => text "dedupe"
  | .dumpConfig => text "dumpconfig"

def ofName? (name : Bytes) : Option Command := all.find? fun c => c.name == name

def flags : Command → List Flag
  | .analyze => Analyze.flags
  | .dedupe => Dedupe.flags
  | .dumpConfig => DumpConfig.flags

def fullName (c : Command) : Bytes := Identity.name ++ text " " ++ c.name

end Command

inductive Request where
  | help
  | version
  /-- A word that is no command. -/
  | unknown (name : Bytes)
  | command (c : Command) (line : Line)
deriving DecidableEq

structure Invocation where
  request : Request
  /-- The flags of the program, wherever they stood. -/
  settings : List (Bytes × Setting)
  /-- The command and all behind it, as typed. -/
  arguments : List Bytes
deriving DecidableEq

/-- Reads a command line: first up to the command, then behind it. -/
def Invocation.parse (args : List Bytes) : Except LineError Invocation := do
  let flags := commonFlags ++ [help, version]
  let top ← Line.parse flags (Command.all.map Command.name) args
  let invoke (request : Request) (settings : List (Bytes × Setting)) : Invocation :=
    ⟨request, top.settings ++ settings, top.arguments⟩
  if top.isOn help.name then return invoke .help []
  if top.isOn version.name then return invoke .version []
  match top.arguments with
  | [] => return invoke .help []
  | name :: rest =>
    match Command.ofName? name with
    | none => return invoke (.unknown name) []
    | some c =>
      let line ← Line.parse (c.flags ++ [help] ++ commonFlags) [] rest
      let line := { line with arguments := Line.separate flags top.settings line.arguments }
      return invoke (if line.isOn help.name then .help else .command c line) line.settings

def Invocation.line (i : Invocation) : Line := ⟨i.settings, i.arguments⟩

/-! ## How a run ends -/

inductive Exit where
  | code (n : Nat)
  /-- The program does not survive. -/
  | crash (message : Bytes)
deriving DecidableEq

def Exit.status : Exit → Nat
  | .code n => n
  | .crash _ => 2

/-- What a crash leaves on the error stream, before the list of the calls that led to it. -/
def Exit.lament : Exit → Bytes
  | .code _ => []
  | .crash message => text "panic: " ++ message ++ text "\n"

inductive StartError where
  | config (e : Config.LoadError)
  | report (e : Report.CreateError)
  | log (e : Log.SetupError)
  | refused (r : Report.Refusal)
deriving DecidableEq

def StartError.message : StartError → Bytes
  | .config e => text "unable to prepare configuration: " ++ e.message
  | .report e => text "unable to prepare debug reporter: " ++ e.message
  | .log e => text "unable to prepare logs: " ++ e.message
  | .refused r => r.message

def errorLine (message : Bytes) : Bytes :=
  text "Program ended with error: " ++ message ++ text "\n"

def usageLine (synopsis : Bytes) : Bytes := text "Usage: " ++ synopsis ++ text "\n"

/-- What happens when an error is to be logged and there is no logger. -/
def noLogger : Bytes := text "runtime error: invalid memory address or nil pointer dereference"

def helpText : Bytes :=
  text "cssdedup - finds and merges duplicate top-level rules in CSS stylesheets\n\n" ++
  text "usage: cssdedup [--config FILE] [--debug] [--encoding NAME] COMMAND\n\n" ++
  text "   analyze [--top N] SOURCE\n" ++
  text "   dedupe [--output FILE] SOURCE\n" ++
  text "   dumpconfig [--default] [DESTINATION]\n"

def versionText : Bytes :=
  text "cssdedup version " ++ Identity.version ++ text " : " ++ Identity.revision ++ text "\n"

variable [Codecs] {m : Type → Type} [Monad m] [Host m]

/-! ## Start -/

/-- Opens the report that was asked for, and keeps a loaded configuration in it. -/
def startReport (line : Line) (path : Bytes) (c : Config) :
    ExceptT StartError (Reporting m) Unit := do
  if line.isOn debug.name then
    match ← (Report.create c.report : m _) with
    | .error e => throw (.report e)
    | .ok r =>
      (set (some r) : Reporting m Unit)
      if !path.isEmpty then
        match ← (Reporting.storeData (text "config/" ++ Path.base path) c.dump : Reporting m _) with
        | .error r => throw (.refused r)
        | .ok () => return ()

def startLog (c : Config) : ExceptT StartError (Reporting m) Log.Logger := do
  match ← ((Log.Setup.run c.file c.console).run : Reporting m _) with
  | .ok logger => return logger
  | .error e => throw (.log e)

def announce (logger : Log.Logger) (args : List Bytes) (path : Bytes) : Reporting m Unit := do
  let platform ← (Host.platform : m _)
  (logger.log .debug "Program started" [("args", .list (Identity.name :: args)),
    ("ver", .text Identity.version), ("runtime", .text platform),
    ("hash", .text Identity.revision)] : m Unit)
  if (← get).isSome then
    let location ← Reporting.name
    (logger.log .info "Creating debug report" [("location", .text location)] : m Unit)
  if path.isEmpty then
    (logger.log .debug "Using defaults (no configuration file)" : m Unit)

/-- The character set of a run. One that cannot be read is ignored. -/
def chooseCharset (logger : Log.Logger) (line : Line) (c : Config) : m Charset := do
  match Charset.ofName ((line.text? encoding.name).getD c.encoding) with
  | .ok charset => return charset
  | .error e =>
    logger.log .warn "Ignoring input character set, assuming UTF-8" [("error", .text e.message)]
    return .utf8

/-- Prepares all that a command needs. -/
def start (line : Line) (args : List Bytes) (c : Config) :
    ExceptT StartError (Reporting m) Environment := do
  let path := (line.text? config.name).getD []
  startReport line path c
  let logger ← startLog c
  (announce logger args path : Reporting m Unit)
  let charset ← (chooseCharset logger line c : m _)
  return ⟨some c, logger, charset, false⟩

/-! ## End -/

/-- Why a run could not be put away. -/
inductive EndError where
  | report (es : List Report.CloseError)
  | crashFile (path : Bytes) (e : OsError)
deriving DecidableEq

def EndError.message : EndError → Bytes
  | .report es =>
    text "unable to close debug report: " ++ Log.joined (es.map Report.CloseError.message)
  | .crashFile path e =>
    text "unable to remove empty panic log file '" ++ path ++ text "': " ++ e.message

/-- Removes the file for the output of a crash if nothing is in it. -/
def removeCrashFile (c : Config) : m (List EndError) := do
  if c.file.destination.isEmpty then return []
  let path := Path.join (Path.parent c.file.destination) (Identity.name ++ text "-panic.log")
  match ← Host.stat (m := m) path with
  | .ok (.file 0) =>
    match ← Host.removeFile (m := m) path with
    | .ok () => return []
    | .error e => return [.crashFile path e]
  | _ => return []

/-- Puts everything away. The result says whether that went well. -/
def finish (logger : Log.Logger) (arguments : List Bytes) (c : Config) : Reporting m Bool := do
  let moment ← (Host.now : m _)
  (logger.log .debug "Program ended" [("elapsed", .text moment.elapsed),
    ("parsed args", .list arguments)] : m Unit)
  let left ← Reporting.close
  let unremoved ← (removeCrashFile c : m _)
  let errors := (if left.isEmpty then [] else [.report left]) ++ unremoved
  if errors.isEmpty then return true
  else
    (logger.log .error "Program ended with error"
      [("error", .errors (errors.map EndError.message))] : m Unit)
    return false

/-! ## Between -/

def perform (env : Environment) : Request → Action m Unit
  | .help => do let _ ← (Host.print helpText : m Bool)
  | .version => do let _ ← (Host.print versionText : m Bool)
  | .unknown name =>
    if name.isEmpty then do let _ ← (Host.print helpText : m Bool)
    else (env.logger.log .warn "Unknown command, nothing to do" [("command", .text name)] : m Unit)
  | .command .analyze line => Analyze.run env Command.analyze.fullName line
  | .command .dedupe line => Dedupe.run env Command.dedupe.fullName line
  | .command .dumpConfig line => DumpConfig.run env line

/-- Runs the command and ends the run. A usage error is printed at the very end if
nothing else goes wrong, every other one is logged before the log is closed. -/
def carryOut (env : Environment) (i : Invocation) (c : Config) : Reporting m Exit := do
  match ← (perform env i.request).run with
  | .ok () =>
    let fine ← finish env.logger i.arguments c
    return .code (if fine then 0 else 1)
  | .error (.refused r) => return .crash r.message
  | .error (.usage e) =>
    if ← finish env.logger i.arguments c then
      (Host.complain (usageLine e.synopsis) : m Unit)
      return .code 2
    else return .code 1
  | .error e =>
    (env.logger.log .error "Program ended with error" [("error", .text e.message)] : m Unit)
    let _ ← finish env.logger i.arguments c
    return .code 1

/-- A run with a configuration. Without a report that was asked for, there is no
log to say so yet; without a log, the error cannot be logged at all. -/
def runConfigured (args : List Bytes) (i : Invocation) (c : Config) : Reporting m Exit := do
  match ← (start i.line args c).run with
  | .ok env => carryOut env i c
  | .error (.log (.refused r)) => return .crash r.message
  | .error (.log _) => return .crash noLogger
  | .error (.refused r) => return .crash r.message
  | .error _ =>
    let _ ← finish Log.Logger.silent i.arguments c
    return .code 1

def run (args : List Bytes) : m Exit := do
  match Invocation.parse args with
  | .error e =>
    Host.complain (errorLine e.message)
    return .code 1
  | .ok i =>
    match i.request with
    | .help => let _ ← Host.print (m := m) helpText; return .code 0
    | .version => let _ ← Host.print (m := m) versionText; return .code 0
    | _ =>
      match ← Config.load (m := m) ((i.line.text? config.name).getD []) with
      | .error e =>
        Host.complain (errorLine (StartError.config e).message)
        return .code 1
      | .ok c => (runConfigured args i c).run' none

end Cascade.Program
