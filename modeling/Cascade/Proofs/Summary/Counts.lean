import Cascade.Summary
import Cascade.Proofs.Dict
import Cascade.Proofs.Merge.RoundTrip
import Mathlib.Algebra.BigOperators.Group.List.Lemmas
import Mathlib.Algebra.Ring.Int.Defs
import Mathlib.Algebra.Ring.Nat

/-!
# The figures of a summary

A summary tallies the selectors, the table counts rules in its entries, and the
output drops rules by their place. All three count the same: the rules that go away
are the rules less the selectors.
-/

namespace Cascade

/-! ## Tallies -/

namespace Summary

theorem tally_snoc (ks : List Bytes) (k : Bytes) :
    tally (ks ++ [k]) = (tally ks).insert k (((tally ks).get? k).getD 0 + 1) := by
  unfold tally
  rw [List.foldl_append]
  rfl

theorem nodup_keys_tally (ks : List Bytes) : (tally ks).keys.Nodup := by
  induction ks using List.reverseRecOn with
  | nil => exact List.nodup_nil
  | append_singleton ks k ih =>
      rw [tally_snoc]
      exact Dict.nodup_keys_insert ih _ _

theorem mem_keys_tally {ks : List Bytes} {a : Bytes} : a ∈ (tally ks).keys ↔ a ∈ ks := by
  induction ks using List.reverseRecOn with
  | nil => rfl
  | append_singleton ks k ih =>
      rw [tally_snoc, Dict.mem_keys_insert, ih, List.mem_append, List.mem_singleton]

theorem get?_tally (ks : List Bytes) (a : Bytes) :
    (tally ks).get? a = if a ∈ ks then some (ks.count a) else none := by
  induction ks using List.reverseRecOn with
  | nil => rfl
  | append_singleton ks k ih =>
      rw [tally_snoc]
      by_cases ha : a = k
      · subst ha
        rw [Dict.get?_insert_self, ih, List.count_append, List.count_singleton_self]
        by_cases hmem : a ∈ ks
        · simp [hmem]
        · simp [hmem, List.count_eq_zero.mpr hmem]
      · rw [Dict.get?_insert_of_ne _ _ ha, ih, List.count_append, List.count_singleton]
        simp [ha, Ne.symm ha]

theorem items_tally (ks : List Bytes) :
    (tally ks).items = (tally ks).keys.map fun k => (k, ks.count k) := by
  refine Dict.items_eq_map (nodup_keys_tally ks) fun k hk => ?_
  rw [get?_tally, if_pos (mem_keys_tally.mp hk)]

theorem values_tally (ks : List Bytes) :
    (tally ks).values = (tally ks).keys.map fun k => ks.count k := by
  rw [Dict.values, items_tally, List.map_map]
  rfl

theorem keys_tally_perm (ks : List Bytes) : (tally ks).keys.Perm ks.dedup := by
  rw [List.perm_ext_iff_of_nodup (nodup_keys_tally ks) ks.nodup_dedup]
  intro a
  rw [mem_keys_tally, List.mem_dedup]

/-- Every occurrence is counted under one key. -/
theorem sum_tally (ks : List Bytes) : (tally ks).values.sum = ks.length := by
  have hsum := List.sum_map_count_dedup_eq_length ks
  rw [lawful_beq_subsingleton instBEqOfDecidableEq List.instBEq] at hsum
  rw [values_tally, ((keys_tally_perm ks).map _).sum_nat]
  exact hsum

theorem one_le_values_tally (ks : List Bytes) : ∀ n ∈ (tally ks).values, 1 ≤ n := by
  rw [values_tally]
  intro n hn
  obtain ⟨k, hk, rfl⟩ := List.mem_map.mp hn
  exact List.count_pos_iff.mpr (mem_keys_tally.mp hk)

/-- A selector that occurs once adds nothing, so the ranking may leave it out. -/
theorem sum_ranking (counts : Dict Bytes Nat) :
    ((ranking counts).map fun d => d.count - 1).sum = (counts.values.map (· - 1)).sum := by
  unfold ranking Dict.values
  rw [((List.mergeSort_perm _ _).map _).sum_nat, List.map_map, List.map_map]
  induction counts.items with
  | nil => rfl
  | cons p ps ih =>
      rw [List.filter_cons]
      split
      · simpa using ih
      · next hp =>
          have hzero : p.2 - 1 = 0 := by simpa [Nat.sub_eq_zero_iff_le] using hp
          simpa [hzero] using ih

theorem sum_pred_add_length {ns : List Nat} (h : ∀ n ∈ ns, 1 ≤ n) :
    (ns.map (· - 1)).sum + ns.length = ns.sum := by
  induction ns with
  | nil => rfl
  | cons n ns ih =>
      obtain ⟨hn, hns⟩ := List.forall_mem_cons.mp h
      have hrest := ih hns
      simp only [List.map_cons, List.sum_cons, List.length_cons]
      omega

theorem cast_sum_pred {ns : List Nat} (h : ∀ n ∈ ns, 1 ≤ n) :
    (((ns.map (· - 1)).sum : Nat) : Int) = (ns.map fun n : Nat => (n : Int) - 1).sum := by
  induction ns with
  | nil => rfl
  | cons n ns ih =>
      obtain ⟨hn, hns⟩ := List.forall_mem_cons.mp h
      have hrest := ih hns
      simp only [List.map_cons, List.sum_cons, ← hrest]
      omega

theorem ranking_tally_of_nodup {ks : List Bytes} (h : ks.Nodup) : ranking (tally ks) = [] := by
  have hnone : (tally ks).items.filter (fun p => 1 < p.2) = [] := by
    rw [List.filter_eq_nil_iff, items_tally]
    intro p hp
    obtain ⟨k, _, rfl⟩ := List.mem_map.mp hp
    have hcount := List.nodup_iff_count_le_one.mp h k
    simpa using hcount
  rw [ranking, hnone, List.map_nil, List.mergeSort_nil]

end Summary

/-! ## The counts of a table -/

theorem Table.map_count_ofItems (its : List Item) :
    (Table.ofItems its).map Entry.count = Summary.tally (its.filterMap Item.key?) := by
  induction its using List.reverseRecOn with
  | nil => rfl
  | append_singleton its it ih =>
      rw [Table.ofItems_snoc, List.filterMap_append]
      cases it with
      | rule selector body =>
          have hcount : (((Table.ofItems its).get? (normalize selector)).getD
              (.start its.length)).count =
              (((Table.ofItems its).map Entry.count).get? (normalize selector)).getD 0 := by
            rw [Dict.get?_map]
            cases (Table.ofItems its).get? (normalize selector) <;> rfl
          show Dict.map Entry.count (Dict.insert _ _ _) = Summary.tally (_ ++ [normalize selector])
          rw [← Dict.insert_map, Entry.count_add, hcount, ih, Summary.tally_snoc]
      | _ =>
          rw [List.filterMap_cons_none rfl, List.filterMap_nil, List.append_nil]
          exact ih

/-! ## The rules that go away -/

namespace Item

/-- Only rules go away: what is kept falls short of what was there by as much among
all items as among the rules. -/
theorem length_lastRules (its : List Item) :
    ((lastRules its).filter (· ≠ .blank)).length + (its.filterMap key?).length =
      (its.filter (· ≠ .blank)).length + ((lastRules its).filterMap key?).length := by
  induction its with
  | nil => rfl
  | cons it its ih =>
      rw [lastRules]
      cases it with
      | rule selector body =>
          have hkey : key? (.rule selector body) = some (normalize selector) := rfl
          rw [List.filterMap_cons_some hkey, List.filter_cons_of_pos (by simp)]
          split
          · simp only [List.length_cons]
            omega
          · rw [List.filterMap_cons_some hkey, List.filter_cons_of_pos (by simp)]
            simp only [List.length_cons]
            omega
      | blank =>
          rw [if_neg (by simp [key?]), List.filterMap_cons_none rfl, List.filterMap_cons_none rfl,
            List.filter_cons_of_neg (by simp), List.filter_cons_of_neg (by simp)]
          exact ih
      | _ =>
          rw [if_neg (by simp [key?]), List.filterMap_cons_none rfl, List.filterMap_cons_none rfl,
            List.filter_cons_of_pos (by simp), List.filter_cons_of_pos (by simp)]
          simp only [List.length_cons]
          omega

/-- The kept rules are as many as the selectors. -/
theorem length_filterMap_key?_lastRules (its : List Item) :
    ((lastRules its).filterMap key?).length = (Summary.tally (its.filterMap key?)).size := by
  have hperm : ((lastRules its).filterMap key?).Perm (Summary.tally (its.filterMap key?)).keys := by
    rw [List.perm_ext_iff_of_nodup (distinct_lastRules its) (Summary.nodup_keys_tally _)]
    intro k
    rw [Summary.mem_keys_tally, mem_filterMap_key?, mem_filterMap_key?, exists_key?_lastRules]
  rw [hperm.length_eq, Dict.keys, List.length_map]
  rfl

end Item

namespace Sheet

theorem map_normalize_rules (sheet : Sheet) :
    (sheet.rules.map fun r => normalize r.selector) = sheet.items.filterMap Item.key? := by
  rw [rules, items, List.map_filterMap, List.filterMap_map]
  refine List.filterMap_congr fun t _ => ?_
  show (t.item.rule?).map _ = t.item.key?
  cases t.item <;> rfl

theorem length_rulesFor (sheet : Sheet) (x : Bytes) :
    (sheet.rulesFor x).length = (sheet.items.filterMap Item.key?).count (normalize x) := by
  rw [← map_normalize_rules, List.count_eq_countP, List.countP_map, List.countP_eq_length_filter]
  rfl

theorem length_pieces (sheet : Sheet) :
    (Output.pieces sheet.table sheet.tokens).length =
      ((Item.lastRules sheet.items).filter (· ≠ .blank)).length := by
  have hpieces := congrArg List.length (Output.pieces_ofItems [] sheet.items)
  rw [List.length_map, List.length_map] at hpieces
  rw [Output.pieces_eq, table_eq]
  exact hpieces

end Sheet

/-! ## What a summary predicts -/

namespace Summary

/-- All figures of a summary come from one tally. -/
theorem ofSheet_eq (sheet : Sheet) (top : Int) :
    ofSheet sheet top =
      ⟨(sheet.items.filterMap Item.key?).length,
        (tally (sheet.items.filterMap Item.key?)).size,
        ((tally (sheet.items.filterMap Item.key?)).values.map (· - 1)).sum,
        leading top (ranking (tally (sheet.items.filterMap Item.key?)))⟩ := by
  rw [← sum_ranking, ← Sheet.map_normalize_rules]
  rfl

theorem values_table (sheet : Sheet) :
    sheet.table.values.map Entry.count = (tally (sheet.items.filterMap Item.key?)).values := by
  rw [Sheet.table_eq, ← Table.map_count_ofItems, Dict.values_map]

theorem removable_add_unique (sheet : Sheet) (top : Int) :
    (ofSheet sheet top).removable + (ofSheet sheet top).unique = (ofSheet sheet top).rules := by
  rw [ofSheet_eq]
  have hsum := sum_pred_add_length (one_le_values_tally (sheet.items.filterMap Item.key?))
  rw [sum_tally, Dict.values, List.length_map] at hsum
  exact hsum

theorem removable_eq_merged (sheet : Sheet) (top : Int) :
    (ofSheet sheet top).removable = sheet.table.merged := by
  rw [ofSheet_eq, ← values_table, List.map_map]
  rfl

theorem count_table (sheet : Sheet) (x : Bytes) :
    ((sheet.table.get? (normalize x)).map Entry.count).getD 0 = (sheet.rulesFor x).length := by
  rw [Sheet.length_rulesFor, Sheet.table_eq, ← Dict.get?_map, Table.map_count_ofItems, get?_tally]
  split
  · rfl
  · next hnone => exact (List.count_eq_zero.mpr hnone).symm

theorem length_pieces_add_removable (sheet : Sheet) (top : Int) :
    (Output.pieces sheet.table sheet.tokens).length + (ofSheet sheet top).removable =
      (sheet.tokens.filter fun t => t.item ≠ .blank).length := by
  have hitems : (sheet.items.filter (· ≠ .blank)).length =
      (sheet.tokens.filter fun t => t.item ≠ .blank).length := by
    rw [Sheet.items, List.filter_map, List.length_map]
    rfl
  have hkept := Item.length_lastRules sheet.items
  have hsum := removable_add_unique sheet top
  rw [Item.length_filterMap_key?_lastRules] at hkept
  rw [ofSheet_eq] at hsum ⊢
  rw [Sheet.length_pieces]
  dsimp only at hsum ⊢
  omega

theorem ofSheet_of_distinct {sheet : Sheet} (h : Item.Distinct sheet.items) (top : Int) :
    ofSheet sheet top =
      ⟨(sheet.items.filterMap Item.key?).length, (sheet.items.filterMap Item.key?).length, 0, []⟩ := by
  have hranking := ranking_tally_of_nodup h
  have hzero := sum_ranking (tally (sheet.items.filterMap Item.key?))
  rw [hranking, List.map_nil, List.sum_nil] at hzero
  have hsize : (tally (sheet.items.filterMap Item.key?)).size =
      (sheet.items.filterMap Item.key?).length := by
    rw [← Item.length_filterMap_key?_lastRules, Item.lastRules_of_distinct h]
  rw [ofSheet_eq, hranking, ← hzero, hsize]
  simp [leading]

/-- A summary says beforehand what merging the rules does. Its rules are those counted in
the table, its selectors are the entries, and what it calls removable is the rules less
the selectors, the rules that the table has merged away, and the items that the output
lacks. The entry of a selector counts the rules that are listed for it. Where the output
is read back as it was meant, a second summary finds one rule for each selector and
nothing to remove. -/
theorem ofSheet_predicts_merge (top : Int) :
    (∀ sheet : Sheet,
      (ofSheet sheet top).rules = (sheet.table.values.map Entry.count).sum ∧
      (ofSheet sheet top).unique = sheet.table.size ∧
      ((ofSheet sheet top).removable : Int) =
        (ofSheet sheet top).rules - (ofSheet sheet top).unique ∧
      ((ofSheet sheet top).removable : Int) =
        (sheet.table.values.map fun e => (e.count : Int) - 1).sum ∧
      (ofSheet sheet top).removable = sheet.table.merged ∧
      (∀ x, sheet.rulesFor x =
          sheet.rules.filter (fun r => normalize r.selector = normalize x) ∧
        (sheet.rulesFor x).length =
          ((sheet.table.get? (normalize x)).map Entry.count).getD 0) ∧
      ((Output.pieces sheet.table sheet.tokens).length : Int) =
        (sheet.tokens.filter fun t => t.item ≠ .blank).length - (ofSheet sheet top).removable) ∧
    ∀ s, (∀ w ∈ (Sheet.scan s).warnings, w.problem ≠ .unbalancedBlock) →
      (∀ r ∈ (Sheet.scan s).rules, Flat r.body) →
      ofSheet (Sheet.scan (Sheet.scan s).deduplicated) top =
        ⟨(ofSheet (Sheet.scan s) top).unique, (ofSheet (Sheet.scan s) top).unique, 0, []⟩ := by
  refine ⟨fun sheet => ⟨?_, ?_, ?_, ?_, removable_eq_merged sheet top, ?_, ?_⟩, ?_⟩
  · rw [values_table, sum_tally, ofSheet_eq]
  · have hsize := congrArg List.length (values_table sheet)
    rw [ofSheet_eq]
    simpa [Dict.values, Dict.size] using hsize.symm
  · have hsum := removable_add_unique sheet top
    omega
  · have hsum := cast_sum_pred (one_le_values_tally (sheet.items.filterMap Item.key?))
    rw [← values_table, List.map_map, List.map_map] at hsum
    rw [removable_eq_merged]
    exact hsum
  · intro x
    refine ⟨?_, (count_table sheet x).symm⟩
    exact List.filter_congr fun r _ => beq_eq_decide _ _
  · have hpieces := length_pieces_add_removable sheet top
    omega
  · intro s hclosed hflat
    have hitems := Sheet.items_deduplicated hclosed hflat
    have hdistinct := Item.distinct_merged (Sheet.scan s).items
    rw [← hitems] at hdistinct
    rw [ofSheet_of_distinct hdistinct, hitems, Item.filterMap_key?_merged,
      Item.length_filterMap_key?_lastRules, ofSheet_eq (Sheet.scan s)]

/-- Three spellings of one selector go down to one rule; a comment and an @-rule stay. -/
theorem ofSheet_predicts_merge_spellings :
    let s := text "a b{x:1}/*c*/b{} a  b{x:2}@m{a b{y:3}}a\tb{z:4}"
    (∀ w ∈ (Sheet.scan s).warnings, w.problem ≠ .unbalancedBlock) ∧
      (∀ r ∈ (Sheet.scan s).rules, Flat r.body) ∧
      (Sheet.scan s).table.merged = 2 ∧
      ofSheet (Sheet.scan (Sheet.scan s).deduplicated) 3 = ⟨2, 2, 0, []⟩ := by
  intro s
  have hclosed : ∀ w ∈ (Sheet.scan s).warnings, w.problem ≠ .unbalancedBlock := by decide
  have hflat : ∀ r ∈ (Sheet.scan s).rules, Flat r.body := by decide
  have hunique : (ofSheet (Sheet.scan s) 3).unique = 2 := by decide
  refine ⟨hclosed, hflat, by decide, ?_⟩
  rw [(ofSheet_predicts_merge 3).2 s hclosed hflat, hunique]

end Summary

end Cascade
