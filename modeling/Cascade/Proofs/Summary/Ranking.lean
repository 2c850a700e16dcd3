import Cascade.Proofs.Summary.Counts

/-!
# The ranking of duplicates

The counts are gathered in whatever order they are visited in, and sorted by count and then by
selector. No two of them are equal in that order, so there is one way to sort them: the ranking
depends on how often each normalized selector occurs and on nothing else.
-/

namespace Cascade

/-! ## The order of the ranking -/

namespace Duplicate

/-- The more frequent comes first, and of two that are equally frequent the one with the smaller
selector, byte by byte. -/
def Precedes (a b : Duplicate) : Prop :=
  b.count < a.count ∨ a.count = b.count ∧ a.selector < b.selector

theorem le_iff {a b : Duplicate} :
    le a b = true ↔ b.count < a.count ∨ a.count = b.count ∧ a.selector ≤ b.selector := by
  simp [le, Bytes.le_iff]

theorem le_trans {a b c : Duplicate} (hab : le a b = true) (hbc : le b c = true) :
    le a c = true := by
  rw [le_iff] at *
  rcases hab with hab | ⟨hab, hab'⟩ <;> rcases hbc with hbc | ⟨hbc, hbc'⟩
  · exact Or.inl (hbc.trans hab)
  · exact Or.inl (hbc ▸ hab)
  · exact Or.inl (hab ▸ hbc)
  · exact Or.inr ⟨hab.trans hbc, List.le_trans hab' hbc'⟩

theorem le_total (a b : Duplicate) : (le a b || le b a) = true := by
  rw [Bool.or_eq_true, le_iff, le_iff]
  rcases Nat.lt_trichotomy a.count b.count with hlt | heq | hgt
  · exact Or.inr (Or.inl hlt)
  · rcases List.le_total a.selector b.selector with hle | hle
    · exact Or.inl (Or.inr ⟨heq, hle⟩)
    · exact Or.inr (Or.inr ⟨heq.symm, hle⟩)
  · exact Or.inl (Or.inl hgt)

theorem le_antisymm {a b : Duplicate} (hab : le a b = true) (hba : le b a = true) : a = b := by
  rw [le_iff] at hab hba
  have hcount : a.count = b.count := by omega
  have hselector : a.selector = b.selector :=
    List.le_antisymm (by simpa [hcount] using hab) (by simpa [hcount] using hba)
  cases a
  cases b
  cases hcount
  cases hselector
  rfl

theorem Precedes.le {a b : Duplicate} (h : Precedes a b) : Duplicate.le a b = true := by
  rw [le_iff]
  exact h.imp_right fun h => ⟨h.1, List.le_of_lt h.2⟩

theorem Precedes.of_le {a b : Duplicate} (h : Duplicate.le a b = true)
    (hne : a.selector ≠ b.selector) : Precedes a b := by
  rw [le_iff] at h
  exact h.imp_right fun h => ⟨h.1, Std.lt_of_le_of_ne h.2 hne⟩

/-- Two lists in the order of the ranking that hold the same are equal. -/
theorem eq_of_perm {ds ds' : List Duplicate} (hperm : ds.Perm ds')
    (hds : ds.Pairwise fun a b => le a b = true) (hds' : ds'.Pairwise fun a b => le a b = true) :
    ds = ds' := by
  apply hperm.eq_of_pairwise _ hds hds'
  intro a b _ _ hab hba
  exact le_antisymm hab hba

end Duplicate

namespace Summary

open Duplicate

/-! ## The one ranking of a list of tokens -/

/-- The full ranking of tokens: every normalized selector that more than one rule has, with the
number of these rules, each selector once and all in strict order. -/
structure IsRanking (tokens : List Token) (ds : List Duplicate) : Prop where
  mem_iff : ∀ d, d ∈ ds ↔
    1 < d.count ∧ d.count = tokens.countP fun t => t.item.key? = some d.selector
  distinct : (ds.map Duplicate.selector).Nodup
  ordered : ds.Pairwise Precedes

theorem IsRanking.unique {tokens : List Token} {ds ds' : List Duplicate}
    (h : IsRanking tokens ds) (h' : IsRanking tokens ds') : ds = ds' := by
  have hperm : ds.Perm ds' := by
    rw [List.perm_ext_iff_of_nodup (.of_map _ h.distinct) (.of_map _ h'.distinct)]
    intro d
    rw [h.mem_iff, h'.mem_iff]
  exact eq_of_perm hperm (h.ordered.imp Precedes.le) (h'.ordered.imp Precedes.le)

def gather (counts : List (Bytes × Nat)) : List Duplicate :=
  (counts.filter fun p => 1 < p.2).map fun p => ⟨p.1, p.2⟩

theorem ranking_perm (counts : Dict Bytes Nat) : (ranking counts).Perm (gather counts.items) :=
  List.mergeSort_perm _ _

theorem pairwise_ranking (counts : Dict Bytes Nat) :
    (ranking counts).Pairwise fun a b => Duplicate.le a b = true := by
  apply List.pairwise_mergeSort
  · intro a b c hab hbc
    exact Duplicate.le_trans hab hbc
  · exact Duplicate.le_total

abbrev keys (sheet : Sheet) : List Bytes := sheet.items.filterMap Item.key?

theorem count_keys (sheet : Sheet) (k : Bytes) :
    (keys sheet).count k = sheet.tokens.countP fun t => t.item.key? = some k := by
  rw [keys, Sheet.items, List.filterMap_map, List.count_filterMap]
  exact List.countP_congr fun t _ => by simp

theorem mem_gather_tally {ks : List Bytes} {d : Duplicate} :
    d ∈ gather (tally ks).items ↔ 1 < d.count ∧ d.count = ks.count d.selector := by
  unfold gather
  rw [items_tally]
  constructor
  · intro hmem
    obtain ⟨p, hp, rfl⟩ := List.mem_map.mp hmem
    obtain ⟨hp, hcount⟩ := List.mem_filter.mp hp
    obtain ⟨k, _, rfl⟩ := List.mem_map.mp hp
    exact ⟨by simpa using hcount, rfl⟩
  · rintro ⟨hlt, hcount⟩
    have hmem : d.selector ∈ ks := List.count_pos_iff.mp (by omega)
    refine List.mem_map.mpr ⟨(d.selector, d.count), List.mem_filter.mpr ⟨?_, by simpa using hlt⟩, rfl⟩
    exact List.mem_map.mpr ⟨d.selector, mem_keys_tally.mpr hmem, by rw [hcount]⟩

theorem nodup_gather {counts : Dict Bytes Nat} (h : counts.keys.Nodup) :
    ((gather counts.items).map Duplicate.selector).Nodup := by
  have hsub : ((gather counts.items).map Duplicate.selector).Sublist counts.keys := by
    unfold gather
    rw [List.map_map]
    exact List.filter_sublist.map Prod.fst
  exact h.sublist hsub

theorem isRanking_ranking (sheet : Sheet) :
    IsRanking sheet.tokens (ranking (tally (keys sheet))) := by
  have hperm := ranking_perm (tally (keys sheet))
  have hdistinct : ((ranking (tally (keys sheet))).map Duplicate.selector).Nodup :=
    (hperm.map _).nodup_iff.mpr (nodup_gather (nodup_keys_tally _))
  refine ⟨?_, hdistinct, ?_⟩
  · intro d
    rw [hperm.mem_iff, mem_gather_tally, count_keys]
  · have hne := List.pairwise_map.mp hdistinct
    exact ((pairwise_ranking _).and hne).imp fun h => .of_le h.1 h.2

/-! ## Whatever order the counts are visited in -/

/-- What may come of counting the keys `ks`: the counts are visited in some order, and what is
gathered on the way is sorted by some means. -/
inductive Outcome (ks : List Bytes) (top : Int) : Summary → Prop
  | intro {visited : List (Bytes × Nat)} {sorted : List Duplicate} :
      visited.Perm (tally ks).items → sorted.Perm (gather visited) →
      (sorted.Pairwise fun a b => Duplicate.le a b = true) →
      Outcome ks top ⟨ks.length, visited.length,
        ((gather visited).map fun d => d.count - 1).sum, leading top sorted⟩

theorem gather_perm {counts counts' : List (Bytes × Nat)} (h : counts.Perm counts') :
    (gather counts).Perm (gather counts') :=
  (h.filter _).map _

theorem outcome_ofSheet (sheet : Sheet) (top : Int) :
    Outcome (keys sheet) top (ofSheet sheet top) := by
  have houtcome : Outcome (keys sheet) top _ :=
    .intro (List.Perm.refl _) (ranking_perm (tally (keys sheet))) (pairwise_ranking _)
  have hsum := ((ranking_perm (tally (keys sheet))).map fun d => d.count - 1).sum_nat
  rwa [← hsum, sum_ranking, ← Dict.size, ← ofSheet_eq] at houtcome

theorem Outcome.unique {ks : List Bytes} {top : Int} {s s' : Summary} (h : Outcome ks top s)
    (h' : Outcome ks top s') : s = s' := by
  obtain ⟨hvisited, hsorted, hordered⟩ := h
  obtain ⟨hvisited', hsorted', hordered'⟩ := h'
  have hgather := gather_perm (hvisited.trans hvisited'.symm)
  have hsame := eq_of_perm ((hsorted.trans hgather).trans hsorted'.symm) hordered hordered'
  rw [(hvisited.trans hvisited'.symm).length_eq, (hgather.map _).sum_nat, hsame]

/-! ## Whatever order the tokens stand in -/

theorem items_tally_perm {ks ks' : List Bytes} (h : ks.Perm ks') :
    (tally ks).items.Perm (tally ks').items := by
  have hkeys : (tally ks).keys.Perm (tally ks').keys :=
    ((keys_tally_perm ks).trans h.dedup).trans (keys_tally_perm ks').symm
  have hcount : (fun k => (k, ks.count k)) = fun k => (k, ks'.count k) := by
    funext k
    rw [h.count_eq]
  rw [items_tally, items_tally, hcount]
  exact hkeys.map _

theorem Outcome.of_perm {ks ks' : List Bytes} {top : Int} {s : Summary} (hperm : ks.Perm ks')
    (h : Outcome ks top s) : Outcome ks' top s := by
  obtain ⟨hvisited, hsorted, hordered⟩ := h
  rw [hperm.length_eq]
  exact .intro (hvisited.trans (items_tally_perm hperm)) hsorted hordered

end Summary

/-- The same item, but that a rule may have another selector with the same normal form. -/
inductive Item.Respelled : Item → Item → Prop
  | same {it : Item} : Respelled it it
  | rule {selector selector' body : Bytes} : normalize selector = normalize selector' →
      Respelled (.rule selector body) (.rule selector' body)

theorem Item.Respelled.key?_eq {it it' : Item} (h : it.Respelled it') : it.key? = it'.key? := by
  cases h with
  | same => rfl
  | rule hnormal => exact congrArg some hnormal

namespace Summary

theorem keys_perm {sheet sheet' : Sheet} {moved : List Token} (hmoved : moved.Perm sheet.tokens)
    (hrespelled : List.Forall₂ (fun t t' => t.item.Respelled t'.item) moved sheet'.tokens) :
    (keys sheet').Perm (keys sheet) := by
  have hkeys : moved.filterMap (fun t => t.item.key?) =
      sheet'.tokens.filterMap fun t => t.item.key? := by
    generalize sheet'.tokens = tokens at hrespelled
    clear hmoved
    induction hrespelled with
    | nil => rfl
    | cons hitem _ ih => rw [List.filterMap_cons, List.filterMap_cons, hitem.key?_eq, ih]
  unfold keys Sheet.items
  rw [List.filterMap_map, List.filterMap_map]
  exact (List.Perm.of_eq hkeys.symm).trans (hmoved.filterMap _)

/-- The ranking is complete, strictly ordered and independent of the order of the source. There is
one full ranking of the tokens. A summary has it as its duplicates, or as much of it as was asked
for, and what is removable is counted over all of it. Visiting the counts in another order, sorting
them by other means, moving the tokens around, and spelling selectors differently up to white space
make no difference. -/
theorem ofSheet_ranks (sheet : Sheet) (top : Int) :
    (∃ full, (∀ ds, IsRanking sheet.tokens ds ↔ ds = full) ∧
      (top ≤ 0 → (ofSheet sheet top).duplicates = full) ∧
      (0 < top → (ofSheet sheet top).duplicates = full.take top.toNat) ∧
      (ofSheet sheet top).removable = (full.map fun d => d.count - 1).sum) ∧
    (∀ s, Outcome (sheet.rules.map fun r => normalize r.selector) top s ↔ s = ofSheet sheet top) ∧
    ∀ sheet' moved, moved.Perm sheet.tokens →
      List.Forall₂ (fun t t' => t.item.Respelled t'.item) moved sheet'.tokens →
      ofSheet sheet' top = ofSheet sheet top := by
  refine ⟨⟨ranking (tally (keys sheet)), ?_, ?_, ?_, ?_⟩, ?_, ?_⟩
  · intro ds
    constructor
    · intro hds
      exact hds.unique (isRanking_ranking sheet)
    · rintro rfl
      exact isRanking_ranking sheet
  · intro htop
    rw [ofSheet_eq]
    exact if_neg (Int.not_lt.mpr htop)
  · intro htop
    rw [ofSheet_eq]
    exact if_pos htop
  · rw [ofSheet_eq, sum_ranking]
  · intro s
    rw [Sheet.map_normalize_rules]
    constructor
    · intro hs
      exact hs.unique (outcome_ofSheet sheet top)
    · rintro rfl
      exact outcome_ofSheet sheet top
  · intro sheet' moved hmoved hrespelled
    have houtcome := (outcome_ofSheet sheet' top).of_perm (keys_perm hmoved hrespelled)
    exact houtcome.unique (outcome_ofSheet sheet top)

/-- Two selectors are equally frequent. The counts are visited in an order of their own, the tokens
are turned around, and one rule of each selector is spelled differently. -/
theorem ofSheet_ranks_turned_around :
    let sheet : Sheet := ⟨[⟨.rule (text "c d") [], 0⟩, ⟨.rule (text "a b") (text "x:1"), 5⟩,
      ⟨.comment (text "/**/"), 14⟩, ⟨.rule (text "e") [], 18⟩, ⟨.rule (text "a  b") [], 21⟩,
      ⟨.rule (text "c d") [], 27⟩], []⟩
    let sheet' : Sheet := ⟨[⟨.rule (text "c\td") [], 0⟩, ⟨.rule (text "a\n b") [], 5⟩,
      ⟨.rule (text "e") [], 12⟩, ⟨.comment (text "/**/"), 15⟩,
      ⟨.rule (text "a b") (text "x:1"), 19⟩, ⟨.rule (text "c d") [], 28⟩], []⟩
    sheet.tokens.reverse.Perm sheet.tokens ∧
    List.Forall₂ (fun t t' => t.item.Respelled t'.item) sheet.tokens.reverse sheet'.tokens ∧
    (0 : Int) < 1 ∧ ofSheet sheet 1 = ⟨5, 3, 2, [⟨text "a b", 2⟩]⟩ ∧
    ofSheet sheet' 1 = ofSheet sheet 1 ∧
    ∃ full, IsRanking sheet.tokens full ∧ (ofSheet sheet 1).duplicates = full.take 1 := by
  intro sheet sheet'
  have hperm : sheet.tokens.reverse.Perm sheet.tokens := List.reverse_perm _
  have hrespelled : List.Forall₂ (fun t t' => t.item.Respelled t'.item) sheet.tokens.reverse
      sheet'.tokens :=
    .cons (.rule (by decide)) (.cons (.rule (by decide)) (.cons .same (.cons .same
      (.cons .same (.cons .same .nil)))))
  obtain ⟨⟨full, hfull, _, htop, _⟩, houtcome, hmoved⟩ := ofSheet_ranks sheet 1
  have hsummary : ⟨5, 3, 2, [⟨text "a b", 2⟩]⟩ = ofSheet sheet 1 :=
    (houtcome _).mp (@Outcome.intro _ _ [(text "e", 1), (text "c d", 2), (text "a b", 2)]
      [⟨text "a b", 2⟩, ⟨text "c d", 2⟩] (by decide) (by decide) (by decide))
  exact ⟨hperm, hrespelled, by decide, hsummary.symm, hmoved sheet' _ hperm hrespelled, full,
    (hfull full).mpr rfl, htop (by decide)⟩

end Summary

end Cascade
