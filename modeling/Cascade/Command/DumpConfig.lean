import Cascade.Command.Basic
import Cascade.Config.Dump

/-!
# The command that shows the configuration
-/

namespace Cascade.DumpConfig

def standard : Flag := ⟨text "default", [], .switch⟩

def flags : List Flag := [standard]

/-- The configuration as text: the standard one with its comments, or the one in force. -/
def content (env : Environment) (line : Line) : Bytes :=
  if line.isOn standard.name then Config.standardText
  else (env.config.getD Config.standard).dump

variable {m : Type → Type} [Monad m] [Host m]

/-- Runs the command. The destination is made before anything is logged. -/
def run (env : Environment) (line : Line) : Action m Unit := do
  if 1 < line.arguments.length then
    (env.logger.log .warn "Malformed command line, too many destinations"
      [("ignoring", .list (line.arguments.drop 1))] : m Unit)
  let path := line.arguments.headD []
  if !path.isEmpty then
    Action.ofExcept (.destination path) (← (Host.save path [] : m _))
  let state := text (if line.isOn standard.name then "default" else "actual")
  let shown := if path.isEmpty then text "STDOUT" else path
  (env.logger.log .debug "Outputing configuration"
    [("state", .text state), ("file", .text shown)] : m Unit)
  if path.isEmpty then
    if !(← (Host.print (content env line) : m Bool)) then throw .configOutput
  else Action.ofExcept (.destination path) (← (Host.save path (content env line) : m _))

end Cascade.DumpConfig
