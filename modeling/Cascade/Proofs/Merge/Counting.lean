import Cascade.Proofs.Merge.RoundTrip

/-!
# Counting bytes through a merge

Neither scanning nor merging makes a byte up, apart from the layout and a closing
brace. So if a merge leaves a text as it is, then no rule went away, as that would
lose an opening brace, and no comment was taken out, as that would lose a slash.
-/

namespace Cascade

open Lexeme Scan

/-! ## From a text to its items -/

namespace Item

theorem lines_append (its its' : List Item) : lines (its ++ its') = lines its ++ lines its' :=
  List.flatMap_append

end Item

theorem count_lap {c : UInt8} (hfeed : c ≠ 0x0A) (hclose : c ≠ closeBrace) {o : Nat}
    {taken rest : List Lexeme} {es : List Event} (h : Lap o taken rest es) :
    (Item.lines (itemsOf es)).count c ≤ (source taken).count c := by
  have hline : ∀ it : Item, (Item.lines [it]).count c = it.spelling.count c := by
    simp [hfeed.symm]
  -- a prelude is trimmed, and a closing brace may have been added
  have hblock : ∀ pre body tail : Bytes,
      (pre.trim ++ openBrace :: (body ++ [closeBrace])).count c ≤
        (pre ++ openBrace :: (body ++ tail)).count c := by
    intro pre body tail
    have hpre := (Bytes.trim_infix pre).sublist.count_le c
    simp only [List.count_append, List.count_cons_of_ne hclose.symm, List.count_cons,
      List.count_nil]
    omega
  cases h with
  | blank _ _ => exact Nat.zero_le _
  | comment => exact Nat.le_of_eq ((hline _).trans (by simp [Item.spelling, bytes]))
  | openComment => exact Nat.le_of_eq ((hline _).trans (by simp [Item.spelling, bytes]))
  | dropped _ => exact Nat.zero_le _
  | openDropped _ => exact Nat.zero_le _
  | @atRule pre body _ _ _ =>
      refine Nat.le_trans (Nat.le_of_eq (hline _)) ?_
      have hle := hblock (source pre) (source body) [closeBrace]
      simpa [Item.spelling, bytes, List.count_cons] using hle
  | @openAtRule pre body _ _ =>
      refine Nat.le_trans (Nat.le_of_eq (hline _)) ?_
      have hle := hblock (source pre) (source body) []
      simpa [Item.spelling, bytes, List.count_cons] using hle
  | @rule pre body _ _ _ _ =>
      refine Nat.le_trans (Nat.le_of_eq (hline _)) ?_
      have hle := hblock (source pre) (source body) [closeBrace]
      simpa [Item.spelling, bytes] using hle
  | @openRule pre body _ _ _ =>
      refine Nat.le_trans (Nat.le_of_eq (hline _)) ?_
      have hle := hblock (source pre) (source body) []
      simpa [Item.spelling, bytes] using hle
  | other _ _ => exact Nat.le_of_eq (hline _)

/-- The items of a text have no byte that the text does not have, but for the layout. -/
theorem count_items_le {c : UInt8} (hfeed : c ≠ 0x0A) (hclose : c ≠ closeBrace) (s : Bytes) :
    (Item.lines (items (ofBytes s))).count c ≤ s.count c := by
  have hrun := items_induction
    (motive := fun ls its => (Item.lines its).count c ≤ (source ls).count c)
    (Nat.le_refl _)
    (fun taken rest es _ hlap ih => by
      have hfirst := count_lap hfeed hclose hlap
      rw [Item.lines_append, source_append, List.count_append, List.count_append]
      omega)
    (lexed_ofBytes s)
  rwa [source_ofBytes] at hrun

/-! ## From items to merged items -/

namespace Item

open Declaration

def body : Item → Bytes
  | .rule _ b => b
  | _ => []

def bare : Item → Item
  | .rule selector _ => .rule selector []
  | it => it

theorem count_spelling (c : UInt8) (it : Item) :
    it.spelling.count c = it.bare.spelling.count c + it.body.count c := by
  cases it with
  | rule selector b =>
      simp only [spelling, bare, body, List.count_append, List.count_cons, List.nil_append]
      omega
  | _ => rfl

theorem count_lines (c : UInt8) (its : List Item) :
    (lines its).count c = (lines (its.map bare)).count c + (its.flatMap body).count c := by
  induction its with
  | nil => rfl
  | cons it its ih =>
      have hit := count_spelling c it
      simp only [lines_cons, List.map_cons, List.flatMap_cons, List.count_cons,
        List.count_append]
      omega

theorem count_flatMap_append (c : UInt8) (f g : Bytes → Bytes) (ks : List Bytes) :
    (ks.flatMap fun k => f k ++ g k).count c = (ks.flatMap f).count c + (ks.flatMap g).count c := by
  induction ks with
  | nil => rfl
  | cons k ks ih =>
      simp only [List.flatMap_cons, List.count_append]
      omega

/-- Among different keys, at most one is the key of a given text. -/
theorem count_flatMap_if_le (c : UInt8) {ks : List Bytes} (hks : ks.Nodup) (a x : Bytes) :
    (ks.flatMap fun k => if a = k then x else []).count c ≤ x.count c := by
  induction ks with
  | nil => exact Nat.zero_le _
  | cons k ks ih =>
      rw [List.nodup_cons] at hks
      rw [List.flatMap_cons, List.count_append]
      by_cases hk : a = k
      · have hrest : (ks.flatMap fun k => if a = k then x else []) = [] := by
          refine List.flatMap_eq_nil_iff.mpr fun y hy => if_neg fun hay => hks.1 ?_
          rwa [← hk, hay]
        rw [hrest, if_pos hk]
        exact Nat.le_refl _
      · rw [if_neg hk]
        exact Nat.le_trans (Nat.le_of_eq (Nat.zero_add _)) (ih hks.2)

/-- Different selectors share no body. -/
theorem count_bodies_le (c : UInt8) {ks : List Bytes} (hks : ks.Nodup) (f : Bytes → Bytes)
    (its : List Item) :
    (ks.flatMap fun k => (bodies k its).flatMap f).count c ≤
      (its.flatMap fun it => f it.body).count c := by
  have hempty : ∀ n, (ks.flatMap fun _ => ([] : Bytes)).count c ≤ n := by
    intro n
    rw [List.flatMap_eq_nil_iff.mpr fun _ _ => rfl]
    exact Nat.zero_le n
  -- item by item: the body of a rule is among the bodies of one key at most
  induction its with
  | nil => exact hempty _
  | cons it its ih =>
      have hsplit : (ks.flatMap fun k => (bodies k (it :: its)).flatMap f) =
          ks.flatMap fun k => (bodies k [it]).flatMap f ++ (bodies k its).flatMap f := by
        congr 1
        funext k
        rw [← List.singleton_append, bodies_append, List.flatMap_append]
      have hfirst : (ks.flatMap fun k => (bodies k [it]).flatMap f).count c ≤
          (f it.body).count c := by
        cases it with
        | rule selector b =>
            have hone : (ks.flatMap fun k => (bodies k [.rule selector b]).flatMap f) =
                ks.flatMap fun k => if normalize selector = k then f b else [] := by
              congr 1
              funext k
              by_cases hk : normalize selector = k
              · simp [bodies, hk]
              · simp [bodies, hk]
            rw [hone]
            exact count_flatMap_if_le c hks _ _
        | _ => exact hempty _
      rw [hsplit, count_flatMap_append, List.flatMap_cons, List.count_append]
      exact Nat.add_le_add hfirst ih

/-- What the rules for a selector declare has no byte that their bodies do not have
outside of comments. -/
theorem count_declared_le {c : UInt8} (hc : c ∉ [0x0A, 0x20, colon, semicolon]) (its : List Item)
    (k : Bytes) :
    (format (declared its k)).count c ≤ ((bodies k its).flatMap stripComments).count c := by
  have hsub : (((bodies k its).flatMap parse).flatMap fields).Sublist
      ((bodies k its).flatMap stripComments) := by
    rw [List.flatMap_assoc]
    exact List.Sublist.flatMap_right _ fun b _ => (parse_spec b).2
  rw [count_format hc]
  exact Nat.le_trans (count_merge_le c _) (hsub.count_le c)

theorem count_merged_le {c : UInt8} (hc : c ∉ [0x0A, 0x20, colon, semicolon]) (its : List Item) :
    (lines (merged its)).count c ≤ (lines ((lastRules its).map bare)).count c +
      (its.flatMap fun it => stripComments it.body).count c := by
  have hbare : (merged its).map bare = (lastRules its).map bare := by
    rw [merged, List.map_map]
    refine List.map_congr_left fun it _ => ?_
    cases it <;> rfl
  -- rule by rule, the written body counts no more than the bodies it was merged from
  have hbodies : ∀ kept : List Item,
      ((kept.map (reformat (declared its))).flatMap body).count c ≤
        ((kept.filterMap key?).flatMap fun k => (bodies k its).flatMap stripComments).count c := by
    intro kept
    induction kept with
    | nil => exact Nat.le_refl _
    | cons it kept ih =>
        cases it with
        | rule selector b =>
            have hfirst := count_declared_le hc its (normalize selector)
            rw [List.filterMap_cons_some (show key? (.rule selector b) = some _ from rfl),
              List.map_cons, List.flatMap_cons, List.flatMap_cons, List.count_append,
              List.count_append]
            exact Nat.add_le_add hfirst ih
        | _ =>
            rw [List.filterMap_cons_none rfl]
            exact ih
  have hsum := Nat.le_trans (hbodies (lastRules its))
    (count_bodies_le c (distinct_lastRules its) stripComments its)
  rw [count_lines, hbare]
  exact Nat.add_le_add_left hsum _

theorem count_bare_lastRules_le (c : UInt8) (its : List Item) :
    (lines ((lastRules its).map bare)).count c ≤ (lines (its.map bare)).count c := by
  have hsub : (lines ((lastRules its).map bare)).Sublist (lines (its.map bare)) :=
    ((lastRules_sublist its).map bare).flatMap _
  exact hsub.count_le c

theorem count_strip_le (c : UInt8) (its : List Item) :
    (its.flatMap fun it => stripComments it.body).count c ≤ (its.flatMap body).count c := by
  have hsub : (its.flatMap fun it => stripComments it.body).Sublist (its.flatMap body) :=
    List.Sublist.flatMap_right _ fun it _ => stripComments_sublist it.body
  exact hsub.count_le c

/-- A rule that goes takes its opening brace along. -/
theorem distinct_or_count_lt (its : List Item) :
    Distinct its ∨
      (lines ((lastRules its).map bare)).count openBrace <
        (lines (its.map bare)).count openBrace := by
  induction its with
  | nil => exact Or.inl List.nodup_nil
  | cons it its ih =>
      have hle := count_bare_lastRules_le openBrace its
      by_cases hlast : ∀ k, it.key? = some k → ∀ later ∈ its, later.key? ≠ some k
      · rw [lastRules_cons_of_last hlast]
        refine ih.imp (fun hrest => distinct_cons_iff.mpr ⟨hlast, hrest⟩) fun hlt => ?_
        simp only [List.map_cons, lines_cons, List.count_cons, List.count_append]
        omega
      · simp only [not_forall, not_not] at hlast
        obtain ⟨k, hk, later, hmem, hlater⟩ := hlast
        right
        rw [lastRules_cons_of_later hk ⟨later, hmem, hlater⟩]
        cases it with
        | rule selector b =>
            simp only [List.map_cons, bare, lines_cons, spelling, List.count_cons,
              List.count_append, beq_self_eq_true, if_true]
            omega
        | _ => cases hk

/-- If merging loses no opening brace, no two rules have the same selector. -/
theorem distinct_of_count {its : List Item}
    (h : (lines its).count openBrace ≤ (lines (merged its)).count openBrace) : Distinct its := by
  rcases distinct_or_count_lt its with hdistinct | hlt
  · exact hdistinct
  · have hmerged := count_merged_le (c := openBrace) (by decide) its
    have hstrip := count_strip_le openBrace its
    rw [count_lines] at h
    omega

/-- If merging loses no slash, no rule has a comment to lose. -/
theorem uncommented_of_count {its : List Item}
    (h : (lines its).count slash ≤ (lines (merged its)).count slash) {selector b : Bytes}
    (hmem : .rule selector b ∈ its) : Uncommented b := by
  have hmerged := count_merged_le (c := slash) (by decide) its
  have hbare := count_bare_lastRules_le slash its
  rw [count_lines] at h
  refine Cascade.uncommented_of_count (Nat.le_antisymm ?_ ?_)
  · exact (stripComments_sublist b).count_le slash
  · -- before and behind the rule, taking comments out adds no slash
    obtain ⟨pre, post, rfl⟩ := List.append_of_mem hmem
    have hpre := count_strip_le slash pre
    have hpost := count_strip_le slash post
    simp only [List.flatMap_append, List.flatMap_cons, List.count_append, body] at h hmerged hpre hpost
    omega

end Item

end Cascade
