import Cascade.Report.Basic

/-!
# The current report

A run may have a report or none. Without one, adding an item does nothing.
-/

namespace Cascade

/-- Runs that have a current report, or none. -/
abbrev Reporting (m : Type → Type) : Type → Type := StateT (Option Report) m

namespace Reporting

variable {m : Type → Type} [Monad m] [Host m]

/-- Changes the current report, if there is one. A refusal leaves it as it is. -/
def update {ε : Type} (f : Report → m (Except ε Report)) : Reporting m (Except ε Unit) := do
  match ← get with
  | none => return .ok ()
  | some r =>
    match ← (f r : m (Except ε Report)) with
    | .error e => return .error e
    | .ok r => set (some r); return .ok ()

/-- Adds a file to be read when the report is closed. -/
def store (name path : Bytes) : Reporting m (Except Report.Refusal Unit) :=
  update fun r => r.store name path

def storeData (name data : Bytes) : Reporting m (Except Report.Refusal Unit) :=
  update fun r => r.storeData name data

/-- Adds a file as it is now. -/
def storeCopy (name path : Bytes) : Reporting m (Except Report.CopyError Unit) :=
  update fun r => r.storeCopy name path

/-- The full path of the archive, empty if there is none. -/
def name : Reporting m Bytes := do
  match ← get with
  | none => return []
  | some r => (r.name : m Bytes)

/-- Closes the report, if there is one. -/
def close [Codecs] : Reporting m (List Report.CloseError) := do
  match ← get with
  | none => return []
  | some r =>
    let (errors, r) ← (r.close : m (List Report.CloseError × Report))
    set (some r)
    return errors

end Reporting

end Cascade
