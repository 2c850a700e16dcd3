import Cascade.Charset.Basic
import Cascade.Host.Basic

/-!
# Reading and writing stylesheets
-/

namespace Cascade

inductive SourceError where
  | unreadable (e : OsError)
  /-- The content is not valid in its character set. -/
  | undecodable (path : Bytes)
  | unwritable (e : OsError)
deriving DecidableEq

def SourceError.message : SourceError → Bytes
  | .unreadable e => text "unable to read stylesheet: " ++ e.message
  | .undecodable path =>
    text "unable to decode stylesheet '" ++ path ++ text "': encoding: invalid UTF-8"
  | .unwritable e => text "unable to write stylesheet: " ++ e.message

/-- What the system refused, if that is what went wrong. -/
def SourceError.osError? : SourceError → Option OsError
  | .unreadable e => some e
  | .undecodable _ => none
  | .unwritable e => some e

namespace Source

variable [Codecs] {m : Type → Type} [Monad m] [Host m]

def read (path : Bytes) (charset : Charset) : m (Except SourceError Bytes) := do
  match ← Host.load (m := m) path with
  | .error e => return .error (.unreadable e)
  | .ok data =>
    match charset.decode? data with
    | some s => return .ok s
    | none => return .error (.undecodable path)

/-- Replaces the content of a stylesheet, which keeps its mode. -/
def write (path data : Bytes) : m (Except SourceError Unit) := do
  match ← Host.save (m := m) path data with
  | .error e => return .error (.unwritable e)
  | .ok () => return .ok ()

end Source

end Cascade
