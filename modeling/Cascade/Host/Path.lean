import Cascade.Text.Bytes

/-!
# Paths

Paths are texts whose components are separated by slashes. The operations here
are lexical: they look at no file.
-/

namespace Cascade.Path

def slash : UInt8 := 0x2F

/-- The components of a path; consecutive slashes make empty ones. -/
def components (path : Bytes) : List Bytes := path.splitOn slash

def isAbsolute (path : Bytes) : Bool := path.head? == some slash

def here : Bytes := text "."

def up : Bytes := text ".."

/-- Takes one component onto a stack whose top is the current place. Going up
from the root stays there, and a relative path may start by going up. -/
def push (rooted : Bool) (stack : List Bytes) (c : Bytes) : List Bytes :=
  if c.isEmpty || c == here then stack
  else if c == up then
    match stack with
    | top :: rest => if top == up then c :: stack else rest
    | [] => if rooted then [] else [c]
  else c :: stack

/-- The shortest path that names the same place, if no component is a link. -/
def clean (path : Bytes) : Bytes :=
  let rooted := isAbsolute path
  let body := Bytes.join [slash] ((components path).foldl (push rooted) []).reverse
  if rooted then slash :: body else if body.isEmpty then here else body

/-- The path without the slashes at its end. -/
def trimSlashes (path : Bytes) : Bytes := (path.reverse.dropWhile (· == slash)).reverse

/-- The path without the slashes at its end, unless it is made of slashes only. -/
def stem (path : Bytes) : Bytes :=
  let p := trimSlashes path
  if p.isEmpty then path else p

def base (path : Bytes) : Bytes :=
  if path.isEmpty then here
  else
    let p := trimSlashes path
    if p.isEmpty then [slash] else ((components p).getLast?).getD []

def parent (path : Bytes) : Bytes :=
  clean ((path.reverse.dropWhile (· != slash)).reverse)

/-- What stands before the last component, without the slash between them. -/
def outer (path : Bytes) : Bytes :=
  (((path.reverse.dropWhile (· == slash)).dropWhile (· != slash)).drop 1).reverse

/-- A path and what stands before its last component, then before that one's, at
most `fuel` of them. -/
def lineageFrom : (fuel : Nat) → Bytes → List Bytes
  | 0, _ => []
  | fuel + 1, path =>
    path :: if (outer path).isEmpty then [] else lineageFrom fuel (outer path)

/-- A path and all the directories it goes through, the innermost first. -/
def lineage (path : Bytes) : List Bytes := lineageFrom (path.length + 1) path

/-- The place of `path` as seen from `dir`. -/
def join (dir path : Bytes) : Bytes :=
  if dir.isEmpty then (if path.isEmpty then [] else clean path)
  else if path.isEmpty then clean dir
  else clean (dir ++ slash :: path)

/-- The full path of `path` when the current directory is `cwd`. -/
def absolute (cwd path : Bytes) : Bytes :=
  if isAbsolute path then clean path else join cwd path

end Cascade.Path
