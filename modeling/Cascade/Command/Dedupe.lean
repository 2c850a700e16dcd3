import Cascade.Command.Basic
import Cascade.Merge.Output

/-!
# The command that merges duplicates

It writes a stylesheet with one merged rule for each selector, in place or to
another file.
-/

namespace Cascade.Dedupe

def output : Flag := ⟨text "output", [text "o"], .text⟩

def flags : List Flag := [output]

structure Options where
  source : Bytes
  destination : Bytes
  charset : Charset
  /-- Keep what the source holds in a file beside it. -/
  backup : Bool
deriving DecidableEq

/-- A backup is made only of a source that is spelled like the destination. -/
def options (env : Environment) (line : Line) (source : Bytes) : Options :=
  let destination := match line.text? output.name with
    | some path => if path.isEmpty then source else path
    | none => source
  let backup := match env.config with
    | some c => c.backup && destination == source
    | none => false
  ⟨source, destination, env.charset, backup⟩

def backupPath (path : Bytes) : Bytes := path ++ text ".bak"

variable [Codecs] {m : Type → Type} [Monad m] [Host m]

def backUp (path : Bytes) : Action m Unit := do
  let data ← Action.ofExcept .backupSource (← (Host.load path : m _))
  Action.ofExcept .backup (← (Source.write (backupPath path) data : m _))

/-- Reads, merges and writes a stylesheet. The result is how many bytes were
written. The report gets the source before anything is written. -/
def process (o : Options) (log : Log.Logger) : Action m Nat := do
  let data ← Action.ofExcept .source (← (Source.read o.source o.charset : m _))
  Action.storeInput log o.source
  let sheet ← Action.scan log o.source data
  let out := sheet.deduplicated
  if o.backup then backUp o.source
  Action.ofExcept .source (← (Source.write o.destination out : m _))
  Action.store (text "output/" ++ Path.base o.destination) o.destination
  (log.log .debug "Stylesheet deduplicated" [("tokens", .number sheet.tokens.length),
    ("selectors", .number sheet.table.size), ("merged", .number sheet.table.merged),
    ("bytes", .number out.length)] : m Unit)
  return out.length

def dedupe (o : Options) (log : Log.Logger) : Action m Unit := do
  let n ← process o log
  let line := text "Deduplicated: wrote " ++ Bytes.ofNat n ++ text " bytes\n"
  if !(← (Host.print line : m Bool)) then throw .resultOutput

/-- Runs the command, which is called `command`. -/
def run (env : Environment) (command : Bytes) (line : Line) : Action m Unit := do
  Action.proceed env
  let log := env.logger.named (text "dedupe")
  let source ← Action.stylesheet log command line
  let o := options env line source
  (log.log .debug "Deduplication starting"
    [("source", .text o.source), ("destination", .text o.destination)] : m Unit)
  (dedupe o log).before (Action.logElapsed log "Deduplication completed")

end Cascade.Dedupe
