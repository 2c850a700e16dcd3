import Cascade.Log.Entry
import Cascade.Text.Quoted

/-!
# Log lines

An entry is one line: time, level, logger if it has a name, message and fields if
there are any, separated by tabs. The message is written as it is.
-/

namespace Cascade.Log

def bracketed (ss : List Bytes) : Bytes :=
  Cascade.text "[" ++ Bytes.join (Cascade.text ", ") ss ++ Cascade.text "]"

/-- Fields between braces, in their order, each a name and a value in its notation. -/
def braced (fields : List (Bytes × Bytes)) : Bytes :=
  Cascade.text "\x7b" ++
  Bytes.join (Cascade.text ", ")
    (fields.map fun f => f.1.fieldQuoted ++ Cascade.text ": " ++ f.2) ++
  Cascade.text "\x7d"

/-- A field as it is shown. Errors that are joined show once more one by one. -/
def renderField (name : Bytes) : Value → List (Bytes × Bytes)
  | .text s => [(name, s.fieldQuoted)]
  | .number n => [(name, Bytes.ofInt n)]
  | .list ss => [(name, bracketed (ss.map Bytes.fieldQuoted))]
  | .errors ss =>
    (name, (joined ss).fieldQuoted) ::
      if ss.length < 2 then []
      else [(name ++ Cascade.text "Causes",
        bracketed (ss.map fun s => braced [(Cascade.text "error", s.fieldQuoted)]))]

def renderFields (fields : List (Bytes × Value)) : Bytes :=
  braced (fields.flatMap fun f => renderField f.1 f.2)

def Entry.columns (e : Entry) (stamp : Bytes) : List Bytes :=
  [stamp, e.level.name] ++ (if e.logger.isEmpty then [] else [e.logger]) ++ [e.message] ++
    if e.fields.isEmpty then [] else [renderFields e.fields]

/-- The line of an entry made at `stamp`. -/
def Entry.line (e : Entry) (stamp : Bytes) : Bytes :=
  Bytes.join (Cascade.text "\t") (e.columns stamp) ++ Cascade.text "\n"

end Cascade.Log
