import Cascade.Text.Base64
import Cascade.Text.Decimal

/-!
# What plain scalars mean

A scalar without quotes may be a null, a truth value, a number or a date. Every
other one is a text. A tag before it says which of these it is.
-/

namespace Cascade.Yaml

inductive Value where
  | null
  | bool (b : Bool)
  | int (n : Int)
  /-- A number with a fraction or an exponent, of which the whole part matters. -/
  | decimal (whole : Int)
  | infinite (negative : Bool)
  | notANumber
  | date
  | text
deriving DecidableEq

/-! ## Tags -/

namespace Tag

/-- What the tags of this language start with when they are written out. -/
def space : Bytes := Cascade.text "tag:yaml.org,2002:"

def null : Bytes := Cascade.text "!!null"
def bool : Bytes := Cascade.text "!!bool"
def int : Bytes := Cascade.text "!!int"
def float : Bytes := Cascade.text "!!float"
def date : Bytes := Cascade.text "!!timestamp"
/-- The tag of the key under which other mappings are merged into one. -/
def merge : Bytes := Cascade.text "!!merge"
def text : Bytes := Cascade.text "!!str"
def binary : Bytes := Cascade.text "!!binary"

/-- A tag of this language in its short form, every other one as it is. -/
def short (tag : Bytes) : Bytes :=
  if Bytes.opens space tag then Cascade.text "!!" ++ tag.drop space.length else tag

end Tag

def Value.tag : Value → Bytes
  | .null => Tag.null
  | .bool _ => Tag.bool
  | .int _ => Tag.int
  | .decimal _ | .infinite _ | .notANumber => Tag.float
  | .date => Tag.date
  | .text => Tag.text

/-! ## Fixed words -/

def words (ws : List String) : List Bytes := ws.map Cascade.text

def nulls : List Bytes := words ["", "~", "null", "Null", "NULL"]
def trues : List Bytes := words ["true", "True", "TRUE"]
def falses : List Bytes := words ["false", "False", "FALSE"]
def infinities : List Bytes := words [".inf", ".Inf", ".INF", "+.inf", "+.Inf", "+.INF"]
def negativeInfinities : List Bytes := words ["-.inf", "-.Inf", "-.INF"]
def notNumbers : List Bytes := words [".nan", ".NaN", ".NAN"]

/-- Texts that older readers take for truth values. -/
def looseTrues : List Bytes := words ["y", "Y", "yes", "Yes", "YES", "on", "On", "ON"]
def looseFalses : List Bytes := words ["n", "N", "no", "No", "NO", "off", "Off", "OFF"]

def fixed? (s : Bytes) : Option Value :=
  if nulls.contains s then some .null
  else if trues.contains s then some (.bool true)
  else if falses.contains s then some (.bool false)
  else if infinities.contains s then some (.infinite false)
  else if negativeInfinities.contains s then some (.infinite true)
  else if notNumbers.contains s then some .notANumber
  else none

/-! ## Numbers -/

/-- Digits of a base behind an optional sign, when they follow a base mark. -/
def markedInt? (s : Bytes) : Option Int :=
  let read (base : Nat) (digits : Bytes) : Option Int :=
    let (negative, digits) := Integer.sign digits
    if digits.isEmpty then none
    else
      match Integer.magnitude base (Nat.pow 2 63 - 1) 0 digits with
      | .ok n => some (if negative then -(n : Int) else n)
      | .error _ => none
  if Bytes.opens (Cascade.text "0b") s then read 2 (s.drop 2)
  else if Bytes.opens (Cascade.text "0o") s then read 8 (s.drop 2)
  else none

/-- An integer of at most 64 bits, with or without a sign. -/
def int? (s : Bytes) : Option Int :=
  match Integer.parse s with
  | .ok n => some n
  | .error _ =>
    match Integer.parseUnsigned s with
    | .ok n => some n
    | .error _ => none

/-- A number. Underscores in it do not matter. -/
def number? (s : Bytes) : Option Value :=
  let s := s.filter fun b => b != Integer.underscore
  match int? s with
  | some n => some (.int n)
  | none =>
    match (Decimal.parse? s).bind Decimal.whole? with
    | some n => some (.decimal n)
    | none => (markedInt? s).map .int

/-! ## Dates -/

def shortNumber? (s : Bytes) : Option (Nat × Bytes) :=
  match s with
  | a :: b :: r =>
    if Integer.isDigit a then
      if Integer.isDigit b then some (Decimal.digitsValue [a, b], r)
      else some (Decimal.digitsValue [a], b :: r)
    else none
  | [a] => if Integer.isDigit a then some (Decimal.digitsValue [a], []) else none
  | [] => none

/-- Reads one or two digits of a number below `bound` behind a given byte. -/
def behind? (mark : UInt8) (bound : Nat) (s : Bytes) : Option (Nat × Bytes) :=
  match s with
  | a :: r =>
    if a == mark then
      match shortNumber? r with
      | some (n, r) => if n < bound then some (n, r) else none
      | none => none
    else none
  | [] => none

def isLeap (year : Nat) : Bool := year % 4 == 0 && (year % 100 != 0 || year % 400 == 0)

def monthLength (year month : Nat) : Nat :=
  if month == 2 then if isLeap year then 29 else 28
  else if month == 4 || month == 6 || month == 9 || month == 11 then 30
  else 31

/-- Reads a date, the year with four digits. -/
def date? (s : Bytes) : Option Bytes := do
  let year := s.takeWhile Integer.isDigit
  if year.length != 4 then none
  else
    let (month, s) ← behind? 0x2D 13 (s.drop 4)
    let (day, s) ← behind? 0x2D 32 s
    if month == 0 || day == 0 || monthLength (Decimal.digitsValue year) month < day then none
    else some s

/-- Passes over a fraction of a second, if there is one. -/
def skipFraction (s : Bytes) : Bytes :=
  match s with
  | a :: b :: r =>
    if (a == 0x2E || a == 0x2C) && Integer.isDigit b then r.dropWhile Integer.isDigit else s
  | _ => s

def timeOfDay? (s : Bytes) : Option Bytes := do
  let (hour, s) ← shortNumber? s
  if 24 ≤ hour then none
  else
    let (_, s) ← behind? 0x3A 60 s
    let (_, s) ← behind? 0x3A 60 s
    some (skipFraction s)

/-- A time zone: `Z`, or an offset in hours and minutes. -/
def isZone : Bytes → Bool
  | [z] => z == 0x5A
  | [sign, a, b, colon, c, d] =>
    (sign == 0x2B || sign == 0x2D) && colon == 0x3A && [a, b, c, d].all Integer.isDigit &&
    Decimal.digitsValue [a, b] ≤ 24 && Decimal.digitsValue [c, d] ≤ 60
  | _ => false

/-- A date, alone, with a time behind blanks, or with a time and a zone. -/
def isDate (s : Bytes) : Bool :=
  match date? s with
  | none => false
  | some [] => true
  | some (b :: r) =>
    if b == 0x54 || b == 0x74 then
      match timeOfDay? r with
      | some zone => isZone zone
      | none => false
    else if b == 0x20 then timeOfDay? (r.dropWhile (· == 0x20)) == some []
    else false

/-! ## All of them -/

/-- The meaning of a plain scalar. Its first byte tells what it may be. -/
def Value.ofPlain (s : Bytes) : Value :=
  match fixed? s with
  | some v => v
  | none =>
    match s with
    | [] => .null
    | b :: _ =>
      if Integer.isDigit b || b == 0x2B || b == 0x2D then
        if isDate s then .date else (number? s).getD .text
      else if b == Decimal.period then
        match (Decimal.parse? s).bind Decimal.whole? with
        | some n => .decimal n
        | none => .text
      else .text

/-! ## Scalars with tags -/

/-- The tags that tell how a scalar is to be read. -/
def Tag.telling : List Bytes := [null, bool, int, float, date]

/-- The value as its tag wants it, if it fits. Every integer is a number with a fraction. -/
def Value.fit? (v : Value) (tag : Bytes) : Option Value :=
  if tag == v.tag then some v
  else
    match v with
    | .int n => if tag == Tag.float && n < Int.pow 2 63 then some (.decimal n) else none
    | _ => none

/-- What a scalar with a tag stands for, and its text. There is nothing if the
tag does not fit. With a tag that tells nothing it is a text. -/
def Value.ofTagged (tag s : Bytes) : Option (Value × Bytes) :=
  if tag == Tag.binary then (Base64.decode? s).map fun t => (.text, t)
  else if Tag.telling.contains tag then ((Value.ofPlain s).fit? tag).map fun v => (v, s)
  else some (.text, s)

end Cascade.Yaml
