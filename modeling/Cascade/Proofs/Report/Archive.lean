import Cascade.Report.Basic
import Mathlib.Algebra.BigOperators.Group.List.Basic

/-!
# Archives can be read back

An archive of members whose names and contents fit their length fields reads as those
members. The end record is the last complete one in the file, since nothing stands behind it.
-/

namespace Cascade.Archive

/-! ## Fields -/

theorem length_little (width n : Nat) : (little width n).length = width := by
  induction width generalizing n with
  | zero => rfl
  | succ width ih => rw [little, List.length_cons, ih]

theorem number_little (width n : Nat) : number (little width n) = n % 256 ^ width := by
  induction width generalizing n with
  | zero => rw [pow_zero, Nat.mod_one, little, number]
  | succ width ih =>
      have hbyte : (n % 256).toUInt8.toNat = n % 256 :=
        UInt8.toNat_ofNat_of_lt' (Nat.mod_lt n (by decide))
      rw [little, number, ih, hbyte, pow_succ', Nat.mod_mul]

/-- The number in the field that stands between `front` and `rest`. -/
theorem number_field (front rest : Bytes) (offset width n : Nat) (hfront : front.length = offset) :
    number (((front ++ little width n ++ rest).drop offset).take width) = n % 256 ^ width := by
  rw [List.append_assoc, List.drop_left' hfront, List.take_left' (length_little width n),
    number_little]

theorem number_mark {mark : Nat} (h : mark < 256 ^ 4) (rest : Bytes) :
    number ((little 4 mark ++ rest).take 4) = mark := by
  have hfield := number_field [] rest 0 4 mark rfl
  rw [Nat.mod_eq_of_lt h] at hfield
  exact hfield

/-! ## Members -/

def Fits (x : Member) : Prop := x.name.length < 256 ^ 2 ∧ x.content.length < 256 ^ 4

def preamble (x : Member) : Bytes :=
  little 4 memberMark ++ little 2 20 ++ little 2 0x800 ++ little 2 0 ++ little 2 0 ++
    little 2 0x21 ++ little 4 (checksum x.content).toNat

theorem memberRecord_eq (x : Member) : memberRecord x =
    preamble x ++ little 4 x.content.length ++ little 4 x.content.length ++
      little 2 x.name.length ++ little 2 0 ++ x.name ++ x.content := by
  simp [memberRecord, description, preamble]

theorem length_preamble (x : Member) : (preamble x).length = 18 := by
  simp [preamble, length_little]

theorem decodeFrom_memberRecord {x : Member} (hx : Fits x) (fuel : Nat) (rest : Bytes) :
    decodeFrom (fuel + 1) (memberRecord x ++ rest) = (decodeFrom fuel rest).map (x :: ·) := by
  have hmark : number ((memberRecord x ++ rest).take 4) = memberMark := by
    have h := number_mark (by decide : memberMark < 256 ^ 4)
      (description x ++ x.name ++ x.content ++ rest)
    simpa [memberRecord] using h
  have hsize : number (((memberRecord x ++ rest).drop 18).take 4) = x.content.length := by
    have h := number_field (preamble x) (little 4 x.content.length ++ little 2 x.name.length ++
      little 2 0 ++ x.name ++ x.content ++ rest) 18 4 x.content.length (length_preamble x)
    rw [Nat.mod_eq_of_lt hx.2] at h
    simpa [memberRecord_eq] using h
  have hname : number (((memberRecord x ++ rest).drop 26).take 2) = x.name.length := by
    have h := number_field (preamble x ++ little 4 x.content.length ++ little 4 x.content.length)
      (little 2 0 ++ x.name ++ x.content ++ rest) 26 2 x.name.length
      (by simp [length_little, length_preamble])
    rw [Nat.mod_eq_of_lt hx.1] at h
    simpa [memberRecord_eq] using h
  have hbody : (memberRecord x ++ rest).drop 30 = x.name ++ (x.content ++ rest) := by
    rw [memberRecord_eq, List.append_assoc, List.append_assoc]
    exact List.drop_left' (by simp [length_little, length_preamble])
  have hrest : (x.name ++ (x.content ++ rest)).drop (x.name.length + x.content.length) = rest := by
    rw [← List.append_assoc]
    exact List.drop_left' (by rw [List.length_append])
  rw [decodeFrom]
  simp only [hmark, hsize, hname, hbody, hrest, beq_self_eq_true, if_true]
  rw [List.take_left, List.drop_left, List.take_left]

/-- Members are read until something else comes. -/
theorem decodeFrom_members {xs : List Member} (hxs : ∀ x ∈ xs, Fits x) {fuel : Nat}
    (hfuel : xs.length < fuel) {rest : Bytes}
    (hrest : number (rest.take 4) = directoryMark ∨ number (rest.take 4) = endMark) :
    decodeFrom fuel (xs.flatMap memberRecord ++ rest) = some xs := by
  induction xs generalizing fuel with
  | nil =>
      obtain ⟨fuel, rfl⟩ := Nat.exists_eq_add_of_lt hfuel
      rw [List.flatMap_nil, List.nil_append, List.length_nil, Nat.zero_add, decodeFrom]
      rcases hrest with hmark | hmark
      · simp [hmark, memberMark, directoryMark]
      · simp [hmark, memberMark, directoryMark, endMark]
  | cons x xs ih =>
      cases fuel with
      | zero => cases hfuel
      | succ fuel =>
          rw [List.flatMap_cons, List.append_assoc,
            decodeFrom_memberRecord (hxs x List.mem_cons_self),
            ih (fun y hy => hxs y (List.mem_cons_of_mem x hy)) (Nat.lt_of_succ_lt_succ hfuel)]
          rfl

/-! ## The end record -/

theorem length_endRecord (count size start : Nat) :
    (endRecord count size start).length = endLength := by
  simp [endRecord, length_little, endLength]

theorem number_endRecord (count size start : Nat) (rest : Bytes) :
    number ((endRecord count size start ++ rest).take 4) = endMark := by
  have h := number_mark (by decide : endMark < 256 ^ 4) (little 2 0 ++ little 2 0 ++ little 2 count ++
    little 2 count ++ little 4 size ++ little 4 start ++ little 2 0 ++ rest)
  simpa [endRecord] using h

theorem lastEnd?_of_short {found : Option Bytes} {s : Bytes} (h : s.length < endLength) :
    lastEnd? found s = found := by
  induction s with
  | nil => rfl
  | cons b s ih =>
      have hshort : s.length < endLength := by
        rw [List.length_cons] at h
        omega
      have hnot : ¬ endLength ≤ (b :: s).length := Nat.not_le.mpr h
      rw [lastEnd?, if_neg (fun hand => hnot (of_decide_eq_true (Bool.and_eq_true_iff.mp hand).2)),
        ih hshort]

/-- An end record at the end of a file is the last one in it. -/
theorem lastEnd?_append {found : Option Bytes} {front e : Bytes} (hlength : e.length = endLength)
    (hmark : number (e.take 4) = endMark) : lastEnd? found (front ++ e) = some e := by
  induction front generalizing found with
  | nil =>
      cases e with
      | nil => cases hlength
      | cons b e =>
          have hcomplete : (number ((b :: e).take 4) == endMark &&
              decide (endLength ≤ (b :: e).length)) = true := by
            rw [hmark, hlength]
            rfl
          rw [List.nil_append, lastEnd?, if_pos hcomplete]
          refine lastEnd?_of_short ?_
          rw [← hlength, List.length_cons]
          exact Nat.lt_succ_self _
  | cons b front ih =>
      rw [List.cons_append, lastEnd?]
      split
      · exact ih
      · exact ih

theorem count?_append_endRecord (front : Bytes) (count size start : Nat) :
    count? (front ++ endRecord count size start) = some (count % 65536) := by
  obtain ⟨back, hback⟩ : ∃ back, (front ++ endRecord count size start).drop
      ((front ++ endRecord count size start).length - reach) = back ++ endRecord count size start := by
    refine ⟨front.drop ((front ++ endRecord count size start).length - reach), ?_⟩
    refine List.drop_append_of_le_length ?_
    rw [List.length_append, length_endRecord]
    unfold reach endLength
    omega
  have hcount : number (((endRecord count size start).drop 10).take 2) = count % 65536 := by
    have h := number_field (little 4 endMark ++ little 2 0 ++ little 2 0 ++ little 2 count)
      (little 4 size ++ little 4 start ++ little 2 0) 10 2 count (by simp [length_little])
    simpa [endRecord] using h
  have hmark := number_endRecord count size start []
  rw [List.append_nil] at hmark
  unfold count?
  rw [hback, lastEnd?_append (length_endRecord _ _ _) hmark]
  simp [hcount]

/-! ## The archive -/

theorem number_directory (xs : List Member) (offset count size start : Nat) :
    number ((directory offset xs ++ endRecord count size start).take 4) = directoryMark ∨
      number ((directory offset xs ++ endRecord count size start).take 4) = endMark := by
  cases xs with
  | nil =>
      have hmark := number_endRecord count size start []
      rw [List.append_nil] at hmark
      exact Or.inr hmark
  | cons x xs =>
      have h := number_mark (by decide : directoryMark < 256 ^ 4) (little 2 20 ++ description x ++
        little 2 0 ++ little 2 0 ++ little 2 0 ++ little 4 0 ++ little 4 offset ++ x.name ++
        directory (offset + (memberRecord x).length) xs ++ endRecord count size start)
      left
      simpa [directory, directoryRecord] using h

theorem decode?_encode {xs : List Member} (hxs : ∀ x ∈ xs, Fits x) : decode? (encode xs) = some xs := by
  have hlength : xs.length ≤ (xs.flatMap memberRecord).length := by
    rw [List.length_flatMap, ← List.length_map (f := fun x => (memberRecord x).length)]
    refine List.length_le_sum_of_one_le _ ?_
    intro n hn
    obtain ⟨x, _, rfl⟩ := List.mem_map.mp hn
    rw [memberRecord_eq]
    simp only [List.length_append, length_preamble]
    omega
  unfold decode? encode assemble
  dsimp only
  rw [count?_append_endRecord, List.append_assoc, decodeFrom_members hxs _ (number_directory _ _ _ _ _)]
  · simp
  · rw [List.length_append]
    omega

end Cascade.Archive
