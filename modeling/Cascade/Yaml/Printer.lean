import Cascade.Text.Quoted
import Cascade.Yaml.Source
import Cascade.Yaml.Value

/-!
# Writing scalars

A text is written plain if it reads back as the same text, and in quotes or as a
block of lines otherwise.
-/

namespace Cascade.Yaml

/-- Characters that need no escape. -/
def isPrintable (c : Char) : Bool :=
  let n := c.toNat
  n == 0x0A || (0x20 ≤ n && n ≤ 0x7E) || (0xA0 ≤ n && n ≤ 0xD7FF) ||
  (0xE000 ≤ n && n ≤ 0xFFFD && n != 0xFEFF)

/-- The base of sixty, which older readers take for a number: digits, then groups behind colons. -/
def isSexagesimal (s : Bytes) : Bool :=
  let (_, s) := Integer.sign s
  let isDigits (g : Bytes) : Bool := g.all fun b => Integer.isDigit b || b == Integer.underscore
  let isGroup (g : Bytes) : Bool :=
    match g with
    | [a] => Integer.isDigit a
    | [a, b] => 0x30 ≤ a && a ≤ 0x35 && Integer.isDigit b
    | _ => false
  match s.splitOn 0x3A with
  | [] => false
  | first :: groups =>
    match groups.getLast? with
    | none => false
    | some last =>
      let (whole, fraction) := match Bytes.cut Decimal.period last with
        | some p => (p.1, p.2)
        | none => (last, [])
      (first.head?.map Integer.isDigit).getD false && isDigits first &&
      (groups.dropLast ++ [whole]).all isGroup && isDigits fraction

/-- A plain spelling of the text would read back as something else. -/
def isAmbiguous (s : Bytes) : Bool :=
  Value.ofPlain s != .text || isSexagesimal s || looseTrues.contains s || looseFalses.contains s

/-- What matters about a text that is to be written. -/
structure Look where
  /-- It holds what has a meaning of its own in a document. -/
  marks : Bool
  tabs : Bool
  /-- It holds characters that need an escape. -/
  special : Bool
  breaks : Bool
  /-- It starts or ends with a space. -/
  leadingSpace : Bool
  trailingSpace : Bool
  leadingBreak : Bool
  trailingBreak : Bool
  /-- A space stands behind a line break. -/
  breakSpace : Bool
  /-- A space stands before a line break. -/
  spaceBreak : Bool
deriving DecidableEq

def firstMarks : List Char :=
  ['#', ',', '[', ']', '\x7b', '\x7d', '&', '*', '!', '|', '>', '\x27', '\x22', '%', '@', '\x60']

def gapFollows : List Char → Bool
  | [] => true
  | c :: _ => c == ' ' || c == '\t'

def marksStart : List Char → Bool
  | [] => false
  | c :: s =>
    firstMarks.contains c || ((c == '?' || c == ':' || c == '-') && gapFollows s) ||
    ((c == '-' || c == '.') && s.take 2 == [c, c])

/-- A colon before a gap, or a hash behind one. -/
def marksInside : (behind : Char) → List Char → Bool
  | _, [] => false
  | behind, c :: s =>
    (c == ':' && gapFollows s) ||
    (c == '#' && (behind == ' ' || behind == '\t' || isBreak behind)) || marksInside c s

/-- Some two neighbours satisfy `p`. -/
def anyPair (p : Char → Char → Bool) : List Char → Bool
  | a :: b :: s => p a b || anyPair p (b :: s)
  | _ => false

def Look.ofChars (cs : List Char) : Look where
  marks := marksStart cs || marksInside (cs.headD ' ') (cs.drop 1)
  tabs := cs.contains '\t'
  special := cs.any fun c => c != '\t' && !isPrintable c
  breaks := cs.any isBreak
  leadingSpace := cs.head? == some ' '
  trailingSpace := cs.getLast? == some ' '
  leadingBreak := (cs.head?.map isBreak).getD false
  trailingBreak := (cs.getLast?.map isBreak).getD false
  breakSpace := anyPair (fun a b => isBreak a && b == ' ') cs
  spaceBreak := anyPair (fun a b => a == ' ' && isBreak b) cs

namespace Look

def allowsSingle (l : Look) : Bool := !(l.breakSpace || l.spaceBreak || l.tabs || l.special)

def allowsPlain (l : Look) : Bool :=
  l.allowsSingle && !(l.leadingSpace || l.leadingBreak || l.trailingSpace || l.trailingBreak ||
    l.breaks || l.marks)

def allowsBlock (l : Look) : Bool := !(l.trailingSpace || l.spaceBreak || l.special)

end Look

def escape (c : Char) : Bytes :=
  match c.toNat with
  | 0x00 => text "\\0"
  | 0x07 => text "\\a"
  | 0x08 => text "\\b"
  | 0x09 => text "\\t"
  | 0x0A => text "\\n"
  | 0x0B => text "\\v"
  | 0x0C => text "\\f"
  | 0x0D => text "\\r"
  | 0x1B => text "\\e"
  | 0x22 => text "\\\""
  | 0x5C => text "\\\\"
  | 0x85 => text "\\N"
  | 0xA0 => text "\\_"
  | 0x2028 => text "\\L"
  | 0x2029 => text "\\P"
  | n =>
    if n ≤ 0xFF then text "\\x" ++ upper (hexDigits 2 n)
    else if n ≤ 0xFFFF then text "\\u" ++ upper (hexDigits 4 n)
    else text "\\U" ++ upper (hexDigits 8 n)
where
  upper (s : Bytes) : Bytes := s.map fun b => if 0x61 ≤ b && b ≤ 0x66 then b - 0x20 else b

def needsEscape (c : Char) : Bool :=
  !isPrintable c || isBreak c || c == '\x22' || c == '\\'

/-- Between double quotes, what needs an escape has one. Behind a byte order mark
everything has. -/
def doubleQuoted (cs : List Char) : Bytes :=
  let all := cs.head? == some orderMark
  text "\"" ++
    cs.flatMap (fun c => if all || needsEscape c then escape c else String.utf8EncodeChar c) ++
    text "\""

/-- The text between single quotes. A quote is doubled, and what follows a line
break is indented. -/
def singleText (indent : Nat) : (start : Bool) → List Char → Bytes
  | _, [] => []
  | start, c :: s =>
    if isBreak c then String.utf8EncodeChar c ++ singleText indent true s
    else
      (if start then List.replicate indent 0x20 else []) ++
        (if c == '\x27' then text "''" else String.utf8EncodeChar c) ++ singleText indent false s

def singleQuoted (indent : Nat) (cs : List Char) : Bytes :=
  text "'" ++ singleText indent false cs ++ text "'"

/-- The marks of a block: its indentation if its text starts with a gap, and what
happens to the line breaks at its end. -/
def blockMarks (step : Nat) (cs : List Char) : Bytes :=
  let first := cs.headD 'x'
  let indentation := if first == ' ' || isBreak first then Bytes.ofNat step else []
  let chomp := match cs.reverse with
    | [] => text "-"
    | [c] => if isBreak c then text "+" else text "-"
    | c :: d :: _ => if !isBreak c then text "-" else if isBreak d then text "+" else []
  text "|" ++ indentation ++ chomp

/-- The lines of a block, each indented unless it is empty. The line of the marks
is ended only before a text: a line break that comes first ends it itself. -/
def blockText (indent : Nat) : (start fresh : Bool) → List Char → Bytes
  | _, _, [] => []
  | start, fresh, c :: s =>
    if isBreak c then String.utf8EncodeChar c ++ blockText indent true true s
    else
      (if start then (if fresh then [] else text "\n") ++ List.replicate indent 0x20 else []) ++
        String.utf8EncodeChar c ++ blockText indent false false s

/-- A block of lines, which ends its last line only if the text does. -/
def block (step indent : Nat) (cs : List Char) : Bytes :=
  blockMarks step cs ++ blockText (indent + step) true false cs ++
    if (cs.getLast?.map isBreak).getD false then [] else text "\n"

def letterLine : Nat := 70

/-- Letters in lines, if there are more than one line holds. -/
def letterLines : (fuel : Nat) → Bytes → Bytes
  | 0, s => s
  | fuel + 1, s =>
    if s.isEmpty then [] else s.take letterLine ++ text "\n" ++ letterLines fuel (s.drop letterLine)

/-- Bytes that are no text, as letters. -/
def printBinary (step indent : Nat) (s : Bytes) : Bytes :=
  let letters := Base64.encode s
  text "!!binary " ++
    if letters.length < letterLine then letters ++ text "\n"
    else block step indent ((letterLines letters.length letters).map fun b => Char.ofNat b.toNat)

/-- A text as the value of a key that is indented by `indent`, where each level
adds `step`, and the end of its line. -/
def printScalar (step indent : Nat) (s : Bytes) : Bytes :=
  match Utf8.chars? s with
  | none => printBinary step indent s
  | some cs =>
    let look := Look.ofChars cs
    if cs.contains '\n' && look.allowsBlock then block step indent cs
    else
      (if cs.contains '\n' || isAmbiguous s then doubleQuoted cs
      else if look.allowsPlain then s
      else if look.allowsSingle then singleQuoted (indent + step) cs
      else doubleQuoted cs) ++ text "\n"

end Cascade.Yaml
