import Cascade.Text.Bytes

/-!
# Writers that can fail

A sink takes bytes, up to a limit if it has one. A write that does not fit
stores the part that fits and fails.
-/

namespace Cascade

/-- What has been written so far, and how much a sink takes in total. -/
structure Sink where
  out : Bytes
  limit : Option Nat
deriving DecidableEq

structure Written where
  /-- How many bytes the writes report. -/
  count : Nat
  /-- The sink with all that reached it. -/
  sink : Sink
  failed : Bool
deriving DecidableEq

namespace Sink

def new (limit : Option Nat) : Sink := ⟨[], limit⟩

/-- How much of a piece of `n` bytes fits. -/
def room (s : Sink) (n : Nat) : Nat :=
  match s.limit with
  | none => n
  | some l => min n (l - s.out.length)

def write (s : Sink) (piece : Bytes) : Written :=
  let n := s.room piece.length
  ⟨n, { s with out := s.out ++ piece.take n }, n < piece.length⟩

/-- Writes in turn, up to the first that fails. -/
def writeAll : Sink → List Bytes → Written
  | s, [] => ⟨0, s, false⟩
  | s, p :: ps =>
    let w := s.write p
    if w.failed then w
    else
      let r := writeAll w.sink ps
      { r with count := w.count + r.count }

end Sink

end Cascade
