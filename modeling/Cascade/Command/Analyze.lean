import Cascade.Command.Basic
import Cascade.Summary

/-!
# The command that counts duplicates

It prints the statistics of one stylesheet, which it does not change.
-/

namespace Cascade.Analyze

def top : Flag := ⟨text "top", [], .number⟩

def flags : List Flag := [top]

/-- How many duplicates are listed: what the command line says, or the configuration. -/
def limit (env : Environment) (line : Line) : Int :=
  match line.number? top.name with
  | some n => n
  | none => (env.config.getD Config.standard).top

variable [Codecs] {m : Type → Type} [Monad m] [Host m]

def summarize (log : Log.Logger) (path : Bytes) (charset : Charset) (limit : Int) :
    Action m Summary := do
  let data ← Action.ofExcept .source (← (Source.read path charset : m _))
  let sheet ← Action.scan log path data
  let summary := Summary.ofSheet sheet limit
  (log.log .debug "Selectors counted" [("rules", .number summary.rules),
    ("unique", .number summary.unique), ("removable", .number summary.removable)] : m Unit)
  return summary

/-- Counts a stylesheet and prints the outcome, for the report too. -/
def analyze (log : Log.Logger) (path : Bytes) (charset : Charset) (limit : Int) :
    Action m Unit := do
  let summary ← summarize log path charset limit
  Action.storeInput log path
  let out := summary.report path
  Action.storeData (text "analysis.txt") out
  if !(← (Host.print out : m Bool)) then throw .analysisOutput

/-- Runs the command, which is called `command`. -/
def run (env : Environment) (command : Bytes) (line : Line) : Action m Unit := do
  Action.proceed env
  let log := env.logger.named (text "analyze")
  let path ← Action.stylesheet log command line
  let limit := limit env line
  (log.log .debug "Analysis starting"
    [("source", .text path), ("top", .number limit)] : m Unit)
  (analyze log path env.charset limit).before (Action.logElapsed log "Analysis completed")

end Cascade.Analyze
