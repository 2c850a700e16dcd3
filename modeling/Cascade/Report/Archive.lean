import Cascade.Text.Bytes

/-!
# Archives

Named contents in one file, stored one after another without compression, with a
directory at the end. Every field is little endian.
-/

namespace Cascade

structure Member where
  name : Bytes
  content : Bytes
deriving DecidableEq

namespace Archive

/-- The `width` lowest bytes of a number, the lowest first. -/
def little : (width : Nat) → Nat → Bytes
  | 0, _ => []
  | w + 1, n => (n % 256).toUInt8 :: little w (n / 256)

/-- The number that bytes spell, the lowest first. -/
def number : Bytes → Nat
  | [] => 0
  | b :: s => b.toNat + 256 * number s

def crcBit (c : UInt32) : UInt32 :=
  if c &&& 1 == 1 then (c >>> 1) ^^^ 0xEDB88320 else c >>> 1

def crcByte (c : UInt32) (b : UInt8) : UInt32 :=
  Nat.repeat crcBit 8 (c ^^^ b.toUInt32)

def checksum (s : Bytes) : UInt32 := s.foldl crcByte 0xFFFFFFFF ^^^ 0xFFFFFFFF

def memberMark : Nat := 0x04034B50
def directoryMark : Nat := 0x02014B50
def endMark : Nat := 0x06054B50

/-- Version, flags, method, time and date, check, the two sizes and the length of the name. -/
def description (x : Member) : Bytes :=
  little 2 20 ++ little 2 0x800 ++ little 2 0 ++ little 2 0 ++ little 2 0x21 ++
  little 4 (checksum x.content).toNat ++ little 4 x.content.length ++
  little 4 x.content.length ++ little 2 x.name.length ++ little 2 0

def memberRecord (x : Member) : Bytes :=
  little 4 memberMark ++ description x ++ x.name ++ x.content

/-- The directory record of a member that starts at `offset`. -/
def directoryRecord (offset : Nat) (x : Member) : Bytes :=
  little 4 directoryMark ++ little 2 20 ++ description x ++ little 2 0 ++ little 2 0 ++
  little 2 0 ++ little 4 0 ++ little 4 offset ++ x.name

/-- The directory of members of which the first starts at `offset`. -/
def directory : (offset : Nat) → List Member → Bytes
  | _, [] => []
  | offset, x :: xs => directoryRecord offset x ++ directory (offset + (memberRecord x).length) xs

/-- The record at the end: how many members are listed, how long their directory is
and where it starts. -/
def endRecord (count size start : Nat) : Bytes :=
  little 4 endMark ++ little 2 0 ++ little 2 0 ++ little 2 count ++ little 2 count ++
  little 4 size ++ little 4 start ++ little 2 0

/-- Members, and a directory that lists `listed`. -/
def assemble (xs listed : List Member) : Bytes :=
  let members := xs.flatMap memberRecord
  let dir := directory 0 listed
  members ++ dir ++ endRecord listed.length dir.length members.length

def encode (xs : List Member) : Bytes := assemble xs xs

/-- How far from the end of a file the end record may start. -/
def reach : Nat := 65 * 1024

def endLength : Nat := 22

/-- The text from the last complete end record on, or `found` if there is none. -/
def lastEnd? (found : Option Bytes) : Bytes → Option Bytes
  | [] => found
  | b :: s =>
    if number ((b :: s).take 4) == endMark && endLength ≤ (b :: s).length then
      lastEnd? (some (b :: s)) s
    else lastEnd? found s

def count? (s : Bytes) : Option Nat := do
  let r ← lastEnd? none (s.drop (s.length - reach))
  return number ((r.drop 10).take 2)

/-- Reads members up to the directory, at most `fuel` of them. -/
def decodeFrom : (fuel : Nat) → Bytes → Option (List Member)
  | 0, _ => none
  | fuel + 1, s =>
    let mark := number (s.take 4)
    if mark == memberMark then
      let size := number ((s.drop 18).take 4)
      let nameLength := number ((s.drop 26).take 2)
      let body := s.drop 30
      let x : Member := ⟨body.take nameLength, (body.drop nameLength).take size⟩
      (decodeFrom fuel (body.drop (nameLength + size))).map (x :: ·)
    else if mark == directoryMark || mark == endMark then some []
    else none

/-- The members of an archive, in their order. There must be as many as it says it has. -/
def decode? (s : Bytes) : Option (List Member) := do
  let n ← count? s
  let xs ← decodeFrom (s.length + 1) s
  if xs.length % 65536 == n then some xs else none

end Archive

end Cascade
