import Cascade.Config.Basic
import Cascade.Yaml.Printer

/-!
# Writing a configuration
-/

namespace Cascade.Config

def step : Nat := 4

def key (depth : Nat) (name : String) : Bytes :=
  List.replicate (depth * step) 0x20 ++ text name ++ text ":"

def heading (depth : Nat) (name : String) : Bytes := key depth name ++ text "\n"

def textLine (depth : Nat) (name : String) (s : Bytes) : Bytes :=
  key depth name ++ text " " ++ Yaml.printScalar step (depth * step) s

/-- A line with a text, unless the text is empty. -/
def optionalLine (depth : Nat) (name : String) (s : Bytes) : Bytes :=
  if s.isEmpty then [] else textLine depth name s

def numberLine (depth : Nat) (name : String) (n : Int) : Bytes :=
  key depth name ++ text " " ++ Bytes.ofInt n ++ text "\n"

def boolLine (depth : Nat) (name : String) (b : Bool) : Bytes :=
  key depth name ++ text (if b then " true\n" else " false\n")

def channelLines (name : String) (c : Channel) : Bytes :=
  heading 1 name ++ textLine 2 "level" c.level ++ optionalLine 2 "destination" c.destination ++
    optionalLine 2 "mode" c.mode

/-- A configuration as a document. An empty path or mode is left out. -/
def dump (c : Config) : Bytes :=
  numberLine 0 "version" c.version ++
  heading 0 "input" ++ textLine 1 "encoding" c.encoding ++
  heading 0 "analysis" ++ numberLine 1 "top" c.top ++
  heading 0 "dedupe" ++ boolLine 1 "backup" c.backup ++
  heading 0 "logging" ++ channelLines "file" c.file ++ channelLines "console" c.console ++
  heading 0 "reporting" ++ textLine 1 "destination" c.report

end Cascade.Config
