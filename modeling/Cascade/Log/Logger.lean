import Cascade.Host.Basic
import Cascade.Log.Line

/-!
# Loggers
-/

namespace Cascade.Log

inductive Outlet where
  /-- Kept as they are. -/
  | memory
  /-- Lines on standard output, from a level on; errors go elsewhere. -/
  | output (least : Level)
  /-- Errors as brief lines on the error stream. -/
  | errors
  /-- Lines in a file, from a level on. -/
  | file (path : Bytes) (least : Level)
deriving DecidableEq

def Outlet.takes : Outlet → Level → Bool
  | .memory, _ => true
  | .output least, l => least.admits l && l ≠ .error
  | .errors, l => l = .error
  | .file _ least, l => least.admits l

/-- A name and the places where entries go. A logger without places is silent. -/
structure Logger where
  name : Bytes
  outlets : List Outlet
deriving DecidableEq

namespace Logger

def silent : Logger := ⟨[], []⟩

def named (l : Logger) (name : Bytes) : Logger := { l with name := nested l.name name }

variable {m : Type → Type} [Monad m] [Host m]

/-- Sends an entry made at `stamp` to an outlet. -/
def deliver (e : Entry) (stamp : Bytes) : Outlet → m Unit
  | .memory => Host.record e
  | .output _ => do let _ ← Host.print (m := m) (e.line stamp)
  | .errors => Host.complain (e.brief.line stamp)
  | .file path _ => do let _ ← Host.extend (m := m) path (e.line stamp)

/-- Logs an entry that comes from this logger or from one below it. -/
def emit (l : Logger) (e : Entry) : m Unit := do
  let e := e.under l.name
  let moment ← Host.now (m := m)
  (l.outlets.filter fun o => o.takes e.level).forM (deliver e moment.stamp)

def log (l : Logger) (level : Level) (message : String)
    (fields : List (String × Value) := []) : m Unit :=
  l.emit ⟨level, [], Cascade.text message, fields.map fun f => (Cascade.text f.1, f.2)⟩

end Logger

end Cascade.Log
