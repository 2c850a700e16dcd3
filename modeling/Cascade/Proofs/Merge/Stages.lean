import Cascade.Proofs.Merge.RoundTrip
import Cascade.Proofs.Sheet.Cuts

/-!
# Merging in stages

A text may be merged before more text is put behind it. What was merged keeps the
place of every property and its last value, so the rules that follow override and
extend the merged rules exactly as they would the original ones.
-/

namespace Cascade

open Lexeme Scan

theorem Declaration.merge_merge_append (ds es : List Declaration) :
    merge (merge ds ++ es) = merge (ds ++ es) := by
  have hfold : ∀ xs, merge (xs ++ es) = es.foldl (fun acc d => place d acc) (merge xs) := by
    intro xs
    unfold merge
    rw [List.foldl_append]
  rw [hfold, hfold, merge_merge]

namespace Item

open Declaration

def recurs (its : List Item) (it : Item) : Bool :=
  it.key?.isSome && its.any fun later => later.key? == it.key?

theorem lastRules_cons (it : Item) (its : List Item) :
    lastRules (it :: its) = if recurs its it then lastRules its else it :: lastRules its :=
  rfl

theorem recurs_append (its its' : List Item) (it : Item) :
    recurs (its ++ its') it = (recurs its it || recurs its' it) := by
  unfold recurs
  rw [List.any_append, Bool.and_or_distrib_left]

theorem recurs_reformat (its : List Item) (decls : Bytes → List Declaration) (it : Item) :
    recurs its (it.reformat decls) = recurs its it := by
  unfold recurs
  rw [key?_reformat]

theorem reformat_reformat (decls decls' : Bytes → List Declaration) (it : Item) :
    (it.reformat decls').reformat decls = it.reformat decls := by
  cases it <;> rfl

/-- Of the first items those are kept that are last among themselves and do not recur. -/
theorem lastRules_append (its its' : List Item) :
    lastRules (its ++ its') =
      (lastRules its).filter (fun it => !recurs its' it) ++ lastRules its' := by
  induction its with
  | nil => rfl
  | cons it its ih =>
      rw [List.cons_append, lastRules_cons, lastRules_cons, recurs_append, ih]
      cases hfirst : recurs its it with
      | true => simp
      | false =>
          cases hrest : recurs its' it with
          | true => simp [hrest]
          | false => simp [hrest]

theorem declared_append (its its' : List Item) (k : Bytes) :
    declared (its ++ its') k = merge (declared its k ++ (bodies k its').flatMap parse) := by
  rw [declared, bodies_append, List.flatMap_append, declared, merge_merge_append]

theorem declared_merged_append {its : List Item}
    (hflat : ∀ k, ∀ body ∈ bodies k its, Flat body) (its' : List Item) :
    declared (merged its ++ its') = declared (its ++ its') := by
  funext k
  have hfirst : declared (merged its) k = declared its k := by
    by_cases hk : ∃ it ∈ its, it.key? = some k
    · exact declared_merged hflat hk
    · -- a selector without a rule declares nothing, before and after
      have hmerged : ¬ ∃ it ∈ merged its, it.key? = some k := fun h => hk (exists_key?_merged.mp h)
      rw [declared, declared, bodies_eq_nil (by simpa using hmerged),
        bodies_eq_nil (by simpa using hk)]
  rw [declared_append, declared_append, hfirst]

theorem merged_append (its its' : List Item) :
    merged (its ++ its') =
      ((lastRules its).filter (fun it => !recurs its' it)).map (reformat (declared (its ++ its'))) ++
        (lastRules its').map (reformat (declared (its ++ its'))) := by
  rw [merged, lastRules_append, List.map_append]

/-- Merging the first items beforehand changes nothing. -/
theorem merged_merged_append {its : List Item} (hflat : ∀ k, ∀ body ∈ bodies k its, Flat body)
    (its' : List Item) : merged (merged its ++ its') = merged (its ++ its') := by
  have hkept : lastRules (merged its) = (lastRules its).map (reformat (declared its)) :=
    lastRules_of_distinct (distinct_merged its)
  -- what is kept depends on the selectors, and what is written on all declarations
  have hrecurs : (fun it => !recurs its' it) ∘ reformat (declared its) =
      fun it => !recurs its' it := by
    funext it
    rw [Function.comp_apply, recurs_reformat]
  have hreformat : reformat (declared (its ++ its')) ∘ reformat (declared its) =
      reformat (declared (its ++ its')) := by
    funext it
    exact reformat_reformat _ _ it
  rw [merged_append, merged_append, declared_merged_append hflat, hkept, List.filter_map,
    hrecurs, List.map_map, hreformat]

/-- Items that say where they end can be read back in front of more text. -/
theorem items_lines_append {its : List Item} (h : ∀ it ∈ its, it.Closed) {y : Bytes}
    (hy : y.head? ≠ some star) : items (ofBytes (lines its ++ y)) = its ++ items (ofBytes y) := by
  induction its with
  | nil => rfl
  | cons it its ih =>
      have hhead : (lines its ++ y).head? ≠ some star := by
        cases its with
        | nil => exact hy
        | cons next its => simp [Lexeme.star]
      rw [lines_cons, List.cons_append, List.append_assoc, items_newline,
        (h it List.mem_cons_self).items_eq hhead, ih fun x hx => h x (List.mem_cons_of_mem _ hx),
        List.cons_append]

end Item

theorem closed_merged {its : List Item} (h : ∀ it ∈ its, it.Closed)
    (hflat : ∀ k, ∀ body ∈ Item.bodies k its, Flat body) :
    ∀ it ∈ Item.merged its, it.Closed := by
  intro it hit
  obtain ⟨old, hold, rfl⟩ := List.mem_map.mp hit
  have hclosed := h old ((Item.lastRules_sublist its).subset hold)
  cases old with
  | rule selector body => exact ⟨hclosed.1, (flat_declared (hflat _)).2⟩
  | _ => exact hclosed

/-- What was written merged is read back in front of any text on a new line. -/
theorem items_deduplicated_append {a : Bytes} (h : ∀ it ∈ (Sheet.scan a).items, it.Closed)
    (hflat : ∀ r ∈ (Sheet.scan a).rules, Flat r.body) (b : Bytes) :
    (Sheet.scan ((Sheet.scan a).deduplicated ++ text "\n" ++ b)).items =
      Item.merged (Sheet.scan a).items ++ (Sheet.scan b).items := by
  have hfeed : text "\n" ++ b = 0x0A :: b := rfl
  have hread := Item.items_lines_append (closed_merged h (flat_bodies hflat))
    (y := 0x0A :: b) (by simp [Lexeme.star])
  rw [Sheet.items_scan, Sheet.deduplicated_eq, Sheet.items_scan b, List.append_assoc, hfeed]
  cases hits : Item.merged (Sheet.scan a).items with
  | nil => exact items_newline b
  | cons it its =>
      rw [hits, Item.lines_cons, List.cons_append, items_newline] at hread
      rw [Item.lines_cons, List.tail_cons, hread, items_newline]

/-- Merging in stages is merging at once. If the first text is scanned without a warning,
with every @-rule without a block ended by its semicolon and flat rule bodies, it may be
merged before any other text is put on a new line behind it. -/
theorem deduplicated_in_stages (a b : Bytes) (hwarnings : (Sheet.scan a).warnings = [])
    (hended : ∀ rule ∈ dropped a, Ended rule)
    (hflat : ∀ r ∈ (Sheet.scan a).rules, Flat r.body) :
    (Sheet.scan ((Sheet.scan a).deduplicated ++ text "\n" ++ b)).deduplicated =
      (Sheet.scan (a ++ text "\n" ++ b)).deduplicated := by
  have hsettled := settled_of_warnings hwarnings hended
  have hfirst := items_deduplicated_append (closed_of_settled hsettled) hflat b
  have hboth : (Sheet.scan (a ++ text "\n" ++ b)).items =
      (Sheet.scan a).items ++ (Sheet.scan b).items := by
    rw [List.append_assoc, Sheet.items_append hsettled]
    congr 1
    rw [Sheet.items_scan, Sheet.items_scan]
    exact items_newline b
  rw [Sheet.deduplicated_eq (_ ++ text "\n" ++ b), hfirst,
    Sheet.deduplicated_eq (a ++ text "\n" ++ b), hboth,
    Item.merged_merged_append (flat_bodies hflat)]

/-- The second text overrides and extends a rule of the first, and leaves a block open. -/
theorem deduplicated_in_stages_override :
    let a := text "@x/*;*/;/*c*/a\x7bp:1;q:2\x7db\x7br:3\x7d a \x7bq:4\x7d"
    let b := text "a\x7bs:5;p:9\x7d@m\x7b\x7b/*z"
    (Sheet.scan a).warnings = [] ∧ dropped a = [text "@x/*;*/;"] ∧
      (∀ rule ∈ dropped a, Ended rule) ∧ (∀ r ∈ (Sheet.scan a).rules, Flat r.body) ∧
      (Sheet.scan ((Sheet.scan a).deduplicated ++ text "\n" ++ b)).deduplicated =
        text "/*c*/\nb\x7b\n  r: 3;\n\x7d\na\x7b\n  p: 9;\n  q: 4;\n  s: 5;\n\x7d\n@m\x7b\x7b/*z\x7d" := by
  intro a b
  have hwarnings : (Sheet.scan a).warnings = [] := by decide
  have hended : ∀ rule ∈ dropped a, Ended rule := by decide
  have hflat : ∀ r ∈ (Sheet.scan a).rules, Flat r.body := by decide
  refine ⟨hwarnings, by decide, hended, hflat, ?_⟩
  exact (deduplicated_in_stages a b hwarnings hended hflat).trans (by decide)

end Cascade
