import Cascade.Log.Entry
import Cascade.Text.Blank

/-!
# Redirecting plain messages into the log

Plain messages go to the error stream until they are redirected; from then on a
logger takes them, until they are restored.
-/

namespace Cascade.Log

inductive Receiver where
  /-- No logger: a redirection is ignored. -/
  | absent
  /-- A logger that drops what it gets. -/
  | silent
  /-- A logger of the given name that keeps its entries. -/
  | recording (name : Bytes)
deriving DecidableEq

inductive Request where
  | redirect
  | restore
  | print (message : Bytes)
deriving DecidableEq

/-- Where plain messages go, and where they went. -/
structure Redirection where
  receiver : Receiver
  active : Bool
  entries : List Entry
  stderr : Bytes
deriving DecidableEq

namespace Redirection

def start (receiver : Receiver) : Redirection := ⟨receiver, false, [], []⟩

/-- What the program dies of where there is no environment to take the receiver from. -/
def noEnvironment : Bytes := Cascade.text "localenv not found in context"

/-- The start in the environment of a run, which is expected to be there. -/
def startIn : Option Receiver → Except Bytes Redirection
  | some receiver => .ok (start receiver)
  | none => .error noEnvironment

/-- A message on the error stream ends its line. -/
def line (message : Bytes) : Bytes :=
  if Bytes.ends (Cascade.text "\n") message then message else message ++ Cascade.text "\n"

/-- A redirected message becomes an entry without the white space at its ends. -/
def step (r : Redirection) : Request → Redirection
  | .redirect => { r with active := r.receiver ≠ .absent }
  | .restore => { r with active := false }
  | .print message =>
    if r.active then
      match r.receiver with
      | .recording name =>
        { r with entries := r.entries ++ [⟨.info, name, Bytes.trim message, []⟩] }
      | _ => r
    else { r with stderr := r.stderr ++ line message }

def run : Redirection → List Request → List Redirection
  | _, [] => []
  | r, q :: qs => r.step q :: run (r.step q) qs

end Redirection

end Cascade.Log
