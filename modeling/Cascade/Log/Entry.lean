import Cascade.Sheet.Scan

/-!
# Log entries

A log entry has a level, the dotted name of the logger it comes from, a message
and named fields in the order they were given.
-/

namespace Cascade.Log

inductive Level where
  | debug
  | info
  | warn
  | error
deriving DecidableEq

namespace Level

/-- The weight of a level, the more urgent the greater. -/
def rank : Level → Nat
  | .debug => 0
  | .info => 1
  | .warn => 2
  | .error => 3

/-- `least.admits l`: entries of level `l` pass where `least` is asked for. -/
def admits (least l : Level) : Bool := least.rank ≤ l.rank

def name : Level → Bytes
  | .debug => text "DEBUG"
  | .info => text "INFO"
  | .warn => text "WARN"
  | .error => text "ERROR"

end Level

inductive Value where
  | text (s : Bytes)
  | number (n : Int)
  | list (ss : List Bytes)
  /-- An error that joins the messages of others. -/
  | errors (ss : List Bytes)
deriving DecidableEq

def joined (messages : List Bytes) : Bytes := Bytes.join (Cascade.text "; ") messages

structure Entry where
  level : Level
  logger : Bytes
  message : Bytes
  fields : List (Bytes × Value)
deriving DecidableEq

/-- The name of a logger below another. An empty name changes nothing. -/
def nested (outer inner : Bytes) : Bytes :=
  if inner.isEmpty then outer
  else if outer.isEmpty then inner
  else outer ++ Cascade.text "." ++ inner

/-- The value without the single messages of errors. -/
def Value.brief : Value → Value
  | .errors ss => .text (joined ss)
  | v => v

/-- The entry without the single messages of errors. -/
def Entry.brief (e : Entry) : Entry :=
  { e with fields := e.fields.map fun f => (f.1, f.2.brief) }

/-- The entry as it reads when its logger hangs below `outer`. -/
def Entry.under (e : Entry) (outer : Bytes) : Entry :=
  { e with logger := nested outer e.logger }

end Cascade.Log

namespace Cascade.Scan

def logger : Bytes := text "css-scanner"

def note? (source : Bytes) : Event → Option Log.Entry
  | .token _ => none
  | .dropped rule =>
    some ⟨.debug, logger, text "Dropping @-rule without block", [(text "rule", .text rule)]⟩
  | .recovered offset problem =>
    let p := Position.ofOffset source offset
    some ⟨.debug, logger, text "Recovering from malformed CSS",
      [(text "problem", .text problem.message), (text "line", .number p.line),
        (text "col", .number p.column)]⟩

/-- The log of a scan of `source`, which stands in the file `path`. The first
entry is left out if the source has no name. -/
def log (path source : Bytes) : List Log.Entry :=
  let events := Scan.events source
  let tokens := (events.filterMap Event.token?).length
  let warnings := (events.filterMap (Event.warning? source)).length
  (if path.isEmpty then []
    else [⟨.debug, logger, text "Scanning CSS",
      [(text "source", .text path), (text "bytes", .number source.length)]⟩]) ++
  events.filterMap (note? source) ++
  [⟨.debug, logger, text "Scanned CSS",
    [(text "tokens", .number tokens), (text "warnings", .number warnings)]⟩]

end Cascade.Scan
