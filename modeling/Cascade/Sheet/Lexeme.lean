import Cascade.Text.Bytes

/-!
# Code and comments

Read from left to right, a text is made of code bytes and comments. A comment
opens with `/*` and closes with the first `*/` behind that; one that never closes
takes the rest of the text. Braces and semicolons count only where they are code.
-/

namespace Cascade

/-- A code byte, or a comment with its opener and, if it has one, its closer. -/
inductive Lexeme where
  | code (b : UInt8)
  | comment (text : Bytes) (closed : Bool)
deriving DecidableEq

namespace Lexeme

def slash : UInt8 := 0x2F
def star : UInt8 := 0x2A
def openBrace : UInt8 := 0x7B
def closeBrace : UInt8 := 0x7D
def semicolon : UInt8 := 0x3B

def bytes : Lexeme → Bytes
  | .code b => [b]
  | .comment t _ => t

def source (ls : List Lexeme) : Bytes := ls.flatMap bytes

/-- How many bytes consecutive lexemes take. -/
def extent (ls : List Lexeme) : Nat := (source ls).length

/-- A code byte that satisfies `p`. -/
def isCode (p : UInt8 → Bool) : Lexeme → Bool
  | .code b => p b
  | .comment _ _ => false

/-- Where the first `*/` of a text ends. -/
def closerEnd : Bytes → Option Nat
  | a :: b :: s =>
    if a == star && b == slash then some 2 else (closerEnd (b :: s)).map (· + 1)
  | _ => none

/-- The lexeme at `a :: rest`, and how many bytes of `rest` belong to it. -/
def read (a : UInt8) (rest : Bytes) : Lexeme × Nat :=
  match rest with
  | b :: inner =>
    if a == slash && b == star then
      match closerEnd inner with
      | some n => (.comment (a :: b :: inner.take n) true, n + 1)
      | none => (.comment (a :: b :: inner) false, inner.length + 1)
    else (.code a, 0)
  | [] => (.code a, 0)

/-- The lexemes of a text once `skip` bytes of it have been passed over. -/
def ofBytesFrom : (skip : Nat) → Bytes → List Lexeme
  | _, [] => []
  | k + 1, _ :: s => ofBytesFrom k s
  | 0, a :: s => (read a s).1 :: ofBytesFrom (read a s).2 s

def ofBytes (s : Bytes) : List Lexeme := ofBytesFrom 0 s

/-- The leading code bytes among the first `n` lexemes. -/
def codeAhead : (n : Nat) → List Lexeme → Bytes
  | n + 1, .code b :: ls => b :: codeAhead n ls
  | _, _ => []

end Lexeme

end Cascade
