import Cascade.Merge.Table

/-!
# Counting duplicates
-/

namespace Cascade

structure Duplicate where
  selector : Bytes
  count : Nat
deriving DecidableEq

structure Summary where
  /-- Top-level rules. -/
  rules : Nat
  /-- Distinct normalized selectors. -/
  unique : Nat
  /-- Rules that go away when duplicates are merged. -/
  removable : Nat
  /-- The most frequent first, as many as were asked for. -/
  duplicates : List Duplicate
deriving DecidableEq

namespace Duplicate

/-- The more frequent first, then in the order of the selectors. -/
def le (a b : Duplicate) : Bool :=
  b.count < a.count || (a.count == b.count && Bytes.le a.selector b.selector)

end Duplicate

namespace Summary

def tally (keys : List Bytes) : Dict Bytes Nat :=
  keys.foldl (fun d k => d.insert k ((d.get? k).getD 0 + 1)) ∅

def ranking (counts : Dict Bytes Nat) : List Duplicate :=
  ((counts.items.filter fun p => 1 < p.2).map fun p => ⟨p.1, p.2⟩).mergeSort Duplicate.le

/-- The first `top` of a list, or all of it if `top` is not positive. -/
def leading (top : Int) (ds : List Duplicate) : List Duplicate :=
  if 0 < top then ds.take top.toNat else ds

def ofSheet (sheet : Sheet) (top : Int) : Summary :=
  let keys := sheet.rules.map fun r => normalize r.selector
  let counts := tally keys
  let ranked := ranking counts
  ⟨keys.length, counts.size, (ranked.map fun d => d.count - 1).foldr (· + ·) 0, leading top ranked⟩

def duplicateLine (d : Duplicate) : Bytes :=
  text "  " ++ Bytes.ofNat d.count ++ text "x  " ++ d.selector ++ text "\n"

/-- The report on the file `source`. -/
def report (s : Summary) (source : Bytes) : Bytes :=
  text "File: " ++ source ++
  text "\nTotal top-level rules: " ++ Bytes.ofNat s.rules ++
  text "\nUnique selectors: " ++ Bytes.ofNat s.unique ++
  text "\nDuplicate instances removed if deduped (sum over counts-1): " ++
    Bytes.ofNat s.removable ++
  text "\nTop duplicates:\n" ++ s.duplicates.flatMap duplicateLine

end Summary

end Cascade
