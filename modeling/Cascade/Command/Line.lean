import Cascade.Text.Integer
import Cascade.Text.Quoted

/-!
# Command lines

Flags may stand before, between and after the arguments, with one dash or two,
and take their value from behind an equals sign or from the next word. Two
dashes alone end the flags.
-/

namespace Cascade

inductive FlagKind where
  /-- Nothing, or a truth value behind an equals sign. -/
  | switch
  | text
  | number
deriving DecidableEq

/-- A flag with its names; the first is the one it is known by. -/
structure Flag where
  name : Bytes
  aliases : List Bytes
  kind : FlagKind
deriving DecidableEq

def Flag.answersTo (f : Flag) (name : Bytes) : Bool := f.name == name || f.aliases.contains name

inductive Setting where
  | switch (on : Bool)
  | text (s : Bytes)
  | number (n : Int)
deriving DecidableEq

/-- Why a command line makes no sense. -/
inductive LineError where
  | unknownFlag (name : Bytes)
  /-- A flag at the end that needs a value, as it was typed. -/
  | missingValue (typed : Bytes)
  | badNumber (flag value : Bytes) (fault : Integer.Fault)
  | badSwitch (flag value : Bytes)
deriving DecidableEq

namespace LineError

def reason : Integer.Fault → Bytes
  | .malformed => text "invalid syntax"
  | .outOfRange => text "value out of range"

def message : LineError → Bytes
  | .unknownFlag name => text "flag provided but not defined: -" ++ name
  | .missingValue typed => text "flag needs an argument: " ++ typed
  | .badNumber flag value fault =>
    text "invalid value " ++ value.quoted ++ text " for flag -" ++ flag ++
      text ": strconv.ParseInt: parsing " ++ value.quoted ++ text ": " ++ reason fault
  | .badSwitch flag value =>
    text "invalid value " ++ value.quoted ++ text " for flag -" ++ flag ++ text ": parse error"

end LineError

structure Line where
  /-- The flags that were given, in their order. -/
  settings : List (Bytes × Setting)
  arguments : List Bytes
deriving DecidableEq

namespace Line

def truths : List Bytes :=
  [text "1", text "t", text "T", text "true", text "TRUE", text "True"]

def untruths : List Bytes :=
  [text "0", text "f", text "F", text "false", text "FALSE", text "False"]

/-- Reads a value for a flag that was called `name`. -/
def setting (f : Flag) (name value : Bytes) : Except LineError Setting :=
  match f.kind with
  | .text => .ok (.text value)
  | .number =>
    match Integer.parse value with
    | .ok n => .ok (.number n)
    | .error fault => .error (.badNumber name value fault)
  | .switch =>
    if value.isEmpty || truths.contains value then .ok (.switch true)
    else if untruths.contains value then .ok (.switch false)
    else .error (.badSwitch name value)

/-- A word of the command line, by its look. -/
inductive Word where
  | blank
  | terminator
  | plain (s : Bytes)
  /-- A dash alone. -/
  | dash
  /-- A dash before something that is no letter. -/
  | literal
  | flag (name : Bytes) (value : Option Bytes)
deriving DecidableEq

def dashByte : UInt8 := 0x2D

/-- Letters, where a byte stands for the character of its number. -/
def isLetter (b : UInt8) : Bool :=
  (0x41 ≤ b && b ≤ 0x5A) || (0x61 ≤ b && b ≤ 0x7A) || b == 0xAA || b == 0xB5 || b == 0xBA ||
  (0xC0 ≤ b && b != 0xD7 && b != 0xF7)

/-- A flag without its dashes: its name, and the value behind an equals sign. -/
def splitFlag (s : Bytes) : Word :=
  match Bytes.cut 0x3D s with
  | none => .flag s none
  | some (name, value) => .flag name (some value)

/-- The look of a word that has no white space at its ends. -/
def look : Bytes → Word
  | [] => .blank
  | [a] => if a == dashByte then .dash else .plain [a]
  | a :: b :: s =>
    if a != dashByte then .plain (a :: b :: s)
    else if b == dashByte then if s.isEmpty then .terminator else splitFlag s
    else if isLetter b then splitFlag (b :: s)
    else .literal

/-- A flag whose value is the next word. -/
structure Pending where
  flag : Flag
  name : Bytes
  typed : Bytes
deriving DecidableEq

def give (f : Flag) (name value : Bytes) (rest : Except LineError Line) : Except LineError Line :=
  match setting f name value with
  | .error e => .error e
  | .ok v => rest.map fun l => { l with settings := (f.name, v) :: l.settings }

def argue (s : Bytes) (rest : Except LineError Line) : Except LineError Line :=
  rest.map fun l => { l with arguments := s :: l.arguments }

/-- Reads words behind a flag that waits for its value, if one does. The name of
a command ends the reading: it and all behind it are arguments. -/
def parseFrom (flags : List Flag) (commands : List Bytes) :
    Option Pending → List Bytes → Except LineError Line
  | none, [] => .ok ⟨[], []⟩
  | some p, [] => .error (.missingValue p.typed)
  | some p, value :: rest => give p.flag p.name value (parseFrom flags commands none rest)
  | none, word :: rest =>
    match look word.trim with
    | .blank => argue word (parseFrom flags commands none rest)
    | .terminator => .ok ⟨[], rest⟩
    | .plain s =>
      if commands.contains s then .ok ⟨[], word :: rest⟩
      else argue s (parseFrom flags commands none rest)
    | .dash => .ok ⟨[], [[dashByte]]⟩
    | .literal => .ok ⟨[], word :: rest⟩
    | .flag name value =>
      match flags.find? fun f => f.answersTo name with
      | none => .error (.unknownFlag name)
      | some f =>
        match value, f.kind with
        | some v, _ => give f name v (parseFrom flags commands none rest)
        | none, .switch => give f name [] (parseFrom flags commands none rest)
        | none, _ => parseFrom flags commands (some ⟨f, name, word.trim⟩) rest

/-- Arguments of which the first is a name of a given flag get an empty one before it. -/
def separate (flags : List Flag) (settings : List (Bytes × Setting)) : List Bytes → List Bytes
  | [] => []
  | a :: rest =>
    if flags.any fun f => f.answersTo a && settings.any (·.1 == f.name) then [] :: a :: rest
    else a :: rest

def parse (flags : List Flag) (commands words : List Bytes) : Except LineError Line := do
  let l ← parseFrom flags commands none words
  return { l with arguments := separate flags l.settings l.arguments }

def setting? (l : Line) (name : Bytes) : Option Setting :=
  (l.settings.reverse.find? fun p => p.1 == name).map Prod.snd

def number? (l : Line) (name : Bytes) : Option Int :=
  match l.setting? name with
  | some (.number n) => some n
  | _ => none

def text? (l : Line) (name : Bytes) : Option Bytes :=
  match l.setting? name with
  | some (.text s) => some s
  | _ => none

def isOn (l : Line) (name : Bytes) : Bool := l.setting? name == some (.switch true)

end Line

end Cascade
