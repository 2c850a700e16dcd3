import Cascade.Proofs.Merge.Table

/-!
# What each item adds to the text

The table decides by an index kept in each entry which rules are written. Seen from
the items, a rule is written if and only if no rule behind it has the same normalized
selector. All other items are written where they stand, and an item that holds
nothing leaves no trace, not even a line feed.
-/

namespace Cascade

open Lexeme

namespace Item

/-- What the item at place `i` of `its` adds to the text with the rules merged. -/
def contribution? (its : List Item) (i : Nat) : Item → Option Bytes
  | .comment t => some t
  | .other t => some t
  | .atRule header body => some (text "@" ++ header ++ text "\x7b" ++ body ++ text "\x7d")
  | .rule selector _ =>
    if ∃ later ∈ its.drop (i + 1), later.key? = some (normalize selector) then none
    else some (selector ++ text "\x7b" ++
      (declared its (normalize selector)).flatMap
        (fun d => text "\n  " ++ d.property ++ text ": " ++ d.value ++ text ";") ++
      text "\n\x7d")
  | .blank => none

theorem key?_eq_some {it : Item} {k : Bytes} :
    it.key? = some k ↔ ∃ selector body, it = .rule selector body ∧ normalize selector = k := by
  cases it with
  | rule selector body => simp [key?]
  | _ => simp [key?]

/-- The places behind `i` are the places of what is left once the first `i + 1` items are gone. -/
theorem exists_mem_drop {its : List Item} {i : Nat} {p : Item → Prop} :
    (∃ later ∈ its.drop (i + 1), p later) ↔ ∃ j later, i < j ∧ its[j]? = some later ∧ p later := by
  constructor
  · rintro ⟨later, hmem, hp⟩
    obtain ⟨n, hn⟩ := List.mem_iff_getElem?.mp hmem
    rw [List.getElem?_drop] at hn
    exact ⟨i + 1 + n, later, by omega, hn, hp⟩
  · rintro ⟨j, later, hij, hj, hp⟩
    refine ⟨later, List.mem_iff_getElem?.mpr ⟨j - (i + 1), ?_⟩, hp⟩
    rw [List.getElem?_drop, show i + 1 + (j - (i + 1)) = j by omega]
    exact hj

/-- A rule is written if no rule with the same normalized selector stands behind it. -/
theorem contribution?_isSome_iff {its : List Item} {i : Nat} {selector body : Bytes} :
    (contribution? its i (.rule selector body)).isSome ↔
      ∀ j selector' body', i < j → its[j]? = some (.rule selector' body') →
        normalize selector' ≠ normalize selector := by
  have hlater : (contribution? its i (.rule selector body)).isSome ↔
      ¬ ∃ j later, i < j ∧ its[j]? = some later ∧ later.key? = some (normalize selector) := by
    rw [contribution?, ← exists_mem_drop]
    split <;> simp_all
  rw [hlater]
  constructor
  · intro hnone j selector' body' hij hj hkey
    exact hnone ⟨j, _, hij, hj, key?_eq_some.mpr ⟨selector', body', rfl, hkey⟩⟩
  · rintro hall ⟨j, later, hij, hj, hkey⟩
    obtain ⟨selector', body', rfl, hnorm⟩ := key?_eq_some.mp hkey
    exact hall j selector' body' hij hj hnorm

/-- The rules with one normalized selector have a last one among them. -/
theorem exists_last_place {its : List Item} {selector body : Bytes}
    (h : rule selector body ∈ its) :
    ∃ (i : Nat) (selector' body' : Bytes), its[i]? = some (.rule selector' body') ∧
      normalize selector' = normalize selector ∧
      ∀ (j : Nat) (s b : Bytes), i < j → its[j]? = some (.rule s b) →
        normalize s ≠ normalize selector := by
  -- the entry of the selector names the place
  rcases Table.get?_ofItems its (normalize selector) with ⟨e, _, he⟩ | ⟨_, hnone⟩
  · obtain ⟨pre, body', post, hsplit, _, hkey, hpost⟩ := he.last
    refine ⟨pre.length, e.selector, body', ?_, hkey, ?_⟩
    · rw [hsplit, List.getElem?_append_right (Nat.le_refl _), Nat.sub_self]
      rfl
    · intro j s b hj hget hnorm
      rw [hsplit, List.getElem?_append_right (Nat.le_of_lt hj)] at hget
      obtain ⟨n, hn⟩ : ∃ n, j - pre.length = n + 1 := ⟨j - pre.length - 1, by omega⟩
      rw [hn, List.getElem?_cons_succ] at hget
      exact hpost _ (List.mem_of_getElem? hget) (congrArg some hnorm)
  · exact absurd rfl (hnone _ h)

end Item

namespace Output

open Item

/-- The table of the items lets every item be written as it should be. -/
theorem piece?_ofItems {its : List Item} {i : Nat} {it : Item} (h : its[i]? = some it) :
    piece? (Table.ofItems its) i it = contribution? its i it := by
  cases it with
  | rule selector body =>
      obtain ⟨hi, hget⟩ := List.getElem?_eq_some_iff.mp h
      have hsplit : its = its.take i ++ .rule selector body :: its.drop (i + 1) := by
        rw [← hget, List.getElem_cons_drop, List.take_append_drop]
      have hpiece := piece?_rule (its.take i) (its.drop (i + 1)) selector body
      rw [← hsplit, List.length_take_of_le (Nat.le_of_lt hi)] at hpiece
      rw [hpiece, contribution?]
      split
      · rfl
      · have hline : Declaration.line =
            fun d => text "\n  " ++ d.property ++ text ": " ++ d.value ++ text ";" := rfl
        rw [spelling, Declaration.format, hline]
        simp only [List.append_assoc]
        rfl
  | atRule header body => rfl
  | comment t => rfl
  | other t => rfl
  | blank => rfl

theorem pieces_eq_contributions (its : List Item) :
    (its.zipIdx.filterMap fun p => piece? (Table.ofItems its) p.2 p.1) =
      its.zipIdx.filterMap fun p => contribution? its p.2 p.1 := by
  apply List.filterMap_congr
  rintro ⟨it, i⟩ hmem
  apply piece?_ofItems
  rw [List.mem_zipIdx_iff_getElem?] at hmem
  exact hmem

end Output

/-- Every rule is written exactly once, at its last place, and nothing else moves. The
text with the rules merged is what the items add to it, in their order and separated
by a line feed. A rule adds something if and only if no rule behind it has the same
normalized selector, and for every rule there is exactly one place where its selector
is written. -/
theorem Sheet.deduplicated_eq_join (sheet : Sheet) :
    sheet.deduplicated = Bytes.join (text "\n")
        (sheet.items.zipIdx.filterMap fun p => Item.contribution? sheet.items p.2 p.1) ∧
      (∀ i selector body, sheet.items[i]? = some (.rule selector body) →
        ((Item.contribution? sheet.items i (.rule selector body)).isSome ↔
          ∀ j selector' body', i < j → sheet.items[j]? = some (.rule selector' body') →
            normalize selector' ≠ normalize selector)) ∧
      ∀ selector body, .rule selector body ∈ sheet.items →
        ∃! i, ∃ selector' body', sheet.items[i]? = some (.rule selector' body') ∧
          normalize selector' = normalize selector ∧
          (Item.contribution? sheet.items i (.rule selector' body')).isSome := by
  refine ⟨?_, fun i selector body _ => Item.contribution?_isSome_iff, ?_⟩
  · rw [Sheet.deduplicated, Output.render, Output.pieces_eq, Sheet.table, Table.ofTokens_eq]
    exact congrArg _ (Output.pieces_eq_contributions sheet.items)
  · intro selector body hmem
    obtain ⟨i, selector', body', hget, hkey, hlast⟩ := Item.exists_last_place hmem
    refine ⟨i, ⟨selector', body', hget, hkey, ?_⟩, ?_⟩
    · rw [Item.contribution?_isSome_iff, hkey]
      exact hlast
    · rintro j ⟨s, b, hget', hnorm, hsome⟩
      rw [Item.contribution?_isSome_iff, hnorm] at hsome
      rcases Nat.lt_trichotomy j i with hlt | heq | hgt
      · exact absurd hkey (hsome _ _ _ hlt hget)
      · exact heq
      · exact absurd hnorm (hlast _ _ _ hgt hget')

end Cascade
