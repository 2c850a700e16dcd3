import Cascade.Log.Entry

/-!
# Configuration

What a user can set, and what holds if they do not.
-/

namespace Cascade

structure Channel where
  /-- How much is logged: `none`, `normal` or `debug`. -/
  level : Bytes
  /-- The path of the log, for a log in a file. -/
  destination : Bytes
  /-- What happens to a log that exists: `append` or `overwrite`. -/
  mode : Bytes
deriving DecidableEq

namespace Channel

def none : Bytes := text "none"
def normal : Bytes := text "normal"
def debug : Bytes := text "debug"
def append : Bytes := text "append"
def overwrite : Bytes := text "overwrite"

/-- The least level that is logged, if any is. -/
def least? (c : Channel) : Option Log.Level :=
  if c.level == debug then some .debug
  else if c.level == normal then some .info
  else Option.none

end Channel

structure Config where
  version : Int
  /-- The character set of stylesheets. -/
  encoding : Bytes
  /-- How many duplicates are listed. -/
  top : Int
  /-- Keep a copy of a stylesheet that is changed in place. -/
  backup : Bool
  file : Channel
  console : Channel
  /-- The path of the debug report. -/
  report : Bytes
deriving DecidableEq

namespace Config

def standard : Config where
  version := 1
  encoding := text "utf-8"
  top := 20
  backup := false
  file := ⟨Channel.none, text "cssdedup.log", Channel.overwrite⟩
  console := ⟨Channel.normal, [], []⟩
  report := text "cssdedup-report.zip"

def standardLines : List String := [
  "# Configuration file for cssdedup. Values below are defaults, a configuration",
  "# file passed with --config needs to specify only what differs.",
  "version: 1",
  "input:",
  "    # IANA name of the character set stylesheets are written in, output is",
  "    # always UTF-8. Could be overwritten with --encoding.",
  "    encoding: utf-8",
  "analysis:",
  "    # how many duplicated selectors to list, could be overwritten with --top",
  "    top: 20",
  "dedupe:",
  "    # keep original stylesheet as FILE.bak before overwriting it in place",
  "    backup: false",
  "logging:",
  "    console:",
  "        # none, normal or debug",
  "        level: normal",
  "    file:",
  "        # none, normal or debug, forced to debug when --debug is requested",
  "        level: none",
  "        destination: cssdedup.log",
  "        # append or overwrite",
  "        mode: overwrite",
  "reporting:",
  "    # archive produced when --debug is requested",
  "    destination: cssdedup-report.zip"]

def standardText : Bytes := standardLines.flatMap fun l => text l ++ text "\n"

end Config

end Cascade
