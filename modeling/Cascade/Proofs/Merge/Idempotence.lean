import Cascade.Proofs.Merge.Reach

/-!
# Merging twice

Writing the rules merged and reading them again can find other rules than were
written: a block that the source left open is closed, and the parts of a body are
put together anew. A second merge leaves the written text as it is exactly if every
block in it ends where it was meant to end and no rule body has a comment in it;
only a rule at the very end may stay open.
-/

namespace Cascade

open Lexeme Scan

namespace Item

open Declaration

/-- The item as it stands is left alone by a second merge. -/
def Stable : Item → Prop
  | .rule _ body => Uncommented body ∧ Balanced body
  | .atRule _ body => Balanced body
  | _ => True

/-- The item is left alone by a second merge if nothing follows it. -/
def StableLast : Item → Prop
  | .rule _ body => Uncommented body ∧ Unclosed body
  | _ => False

/-! ## What a merge writes -/

def Written : Item → Prop
  | .comment t => ofBytes t = [.comment t true]
  | .atRule header body => IsHeader header ∧ Balanced body
  | .rule selector body => IsSelector selector ∧
      ∃ ds, (∀ d ∈ ds, d.Clean) ∧ merge ds = ds ∧ body = format ds
  | _ => False

def WrittenLast : Item → Prop
  | .atRule header body => IsHeader header ∧ Unclosed body
  | it => it.Trailing

theorem written_reformat {its : List Item} {it : Item} (h : it.Closed) :
    (it.reformat (declared its)).Written := by
  cases it with
  | rule selector body =>
      exact ⟨h.1, _, fun d hd => clean_of_mem_declared hd, merge_merge _, rfl⟩
  | _ => exact h

theorem writtenLast_reformat {its : List Item} {it : Item} (h : it.Trailing ∨ it.Unfinished) :
    (it.reformat (declared its)).Written ∨ (it.reformat (declared its)).WrittenLast := by
  cases it with
  | rule selector body =>
      rcases h with h | h
      · exact h.elim
      · exact Or.inl ⟨h.1, _, fun d hd => clean_of_mem_declared hd, merge_merge _, rfl⟩
  | atRule header body => exact Or.inr (h.resolve_left id)
  | comment t => exact Or.inr (h.resolve_right id)
  | other t => exact Or.inr (h.resolve_right id)
  | blank => exact (h.elim id id).elim

theorem lineup_written (s : Bytes) :
    Lineup Written WrittenLast (merged (Sheet.scan s).items) := by
  have hkept := (lineup_scan s).sublist (lastRules_sublist _)
  exact (hkept.map (fun it _ hit => written_reformat hit)
    fun it _ hit => writtenLast_reformat hit).of_or

theorem spelling_ne_nil {it : Item} (h : it.Written ∨ it.WrittenLast) : it.spelling ≠ [] := by
  cases it with
  | comment t =>
      rcases h with h | h
      · obtain ⟨r, rfl⟩ := comment_eq_cons h
        simp [spelling]
      · obtain ⟨r, rfl⟩ := comment_eq_cons h
        simp [spelling]
  | atRule header body => simp [spelling]
  | rule selector body => simp [spelling]
  | other t =>
      rcases h with h | ⟨⟨b, tail, hplain, _⟩, _⟩
      · exact h.elim
      · rintro rfl
        cases hplain
  | blank => exact (h.elim id id).elim

/-- Texts of one item a line are the same if they are the same from the second byte on. -/
theorem lines_eq_of_tail_eq {its its' : List Item} (h : (lines its').tail = (lines its).tail)
    (hnil : its = [] → its' = []) (hne : ∀ it ∈ its, it.spelling ≠ []) :
    lines its' = lines its := by
  rcases its with _ | ⟨it, its⟩
  · rw [hnil rfl]
  · rcases its' with _ | ⟨it', its'⟩
    · have hempty : [] = it.spelling ++ lines its := by simpa using h
      exact absurd (List.append_eq_nil_iff.mp hempty.symm).1 (hne it List.mem_cons_self)
    · rw [lines_cons, lines_cons] at h ⊢
      exact congrArg _ h

/-! ## A text that tidying leaves alone is stable -/

/-- An item that is read back as it stands leaves the same question about the rest. -/
theorem fixed_of_closed {it : Item} {its : List Item} (hclosed : it.Closed) (htidy : it.tidy = it)
    (hfix : lines ((items (ofBytes (lines (it :: its)))).map tidy) = lines (it :: its)) :
    items (ofBytes (lines (it :: its))) = it :: items (ofBytes (lines its)) ∧
      lines ((items (ofBytes (lines its))).map tidy) = lines its := by
  have hitems : items (ofBytes (lines (it :: its))) = it :: items (ofBytes (lines its)) := by
    rw [lines_cons, items_newline, hclosed.items_eq (head?_lines its)]
  refine ⟨hitems, ?_⟩
  rw [hitems, List.map_cons, htidy, lines_cons, lines_cons] at hfix
  exact List.append_cancel_left (List.cons.inj hfix).2

/-- A written rule that tidying leaves alone ends where it was meant to end, or it is
the last item and stays open. -/
theorem fixed_rule {selector : Bytes} {ds : List Declaration} {its : List Item}
    (hselector : IsSelector selector) (hds : ∀ d ∈ ds, d.Clean)
    (hplain : ∀ b, .rule selector b ∈ items (ofBytes (lines (.rule selector (format ds) :: its))) →
      Uncommented b)
    (hfix : lines ((items (ofBytes (lines (.rule selector (format ds) :: its)))).map tidy) =
      lines (.rule selector (format ds) :: its)) :
    (its = [] ∧ StableLast (.rule selector (format ds))) ∨ Stable (.rule selector (format ds)) := by
  have htext : lines (.rule selector (format ds) :: its) =
      0x0A :: (selector ++ openBrace :: (format ds ++ closeBrace :: lines its)) := by
    simp [spelling]
  rw [htext, items_newline] at hfix hplain
  rcases balanced_or_unclosed (format ds ++ closeBrace :: lines its) with
    ⟨b, w, hsplit, hb⟩ | hopen
  · rw [hsplit, items_rule hselector hb] at hfix hplain
    have hplain := hplain b List.mem_cons_self
    -- the body found is tidied to the declarations that were written
    have hread : format (merge (parse b)) ++ closeBrace :: lines ((items (ofBytes w)).map tidy) =
        format ds ++ closeBrace :: lines its := by
      rw [← hsplit] at hfix
      simpa [tidy, spelling] using hfix
    obtain ⟨hmerge, hrest⟩ := format_append_inj
      (fun d hd => clean_of_mem_parse (mem_of_mem_merge hd)) hds hread
    rcases List.append_eq_append_iff.mp hsplit with ⟨mid, rfl, hmid⟩ | ⟨mid, hlong, hmid⟩
    · rcases mid with _ | ⟨x, mid⟩
      · rw [List.append_nil] at hplain hb
        exact Or.inr ⟨hplain, hb⟩
      · -- the block found goes on behind the brace that was written
        rw [List.cons_append, List.cons.injEq] at hmid
        rw [hmid.2] at hrest
        exact absurd hrest (lines_tidy_ne mid w)
    · rcases mid with _ | ⟨x, mid⟩
      · rw [List.append_nil] at hlong
        rw [hlong]
        exact Or.inr ⟨hplain, hb⟩
      · -- the block found is shorter, so a closing brace would have been made up
        rw [List.cons_append, List.cons.injEq] at hmid
        have hcount := count_tidy_body_le (c := closeBrace) (by decide) b
        rw [hmerge, hlong, ← hmid.1, List.count_append, List.count_cons_self] at hcount
        omega
  · rw [items_rule_unclosed hselector hopen] at hfix hplain
    have hplain := hplain _ List.mem_cons_self
    have hread : format (merge (parse (format ds ++ closeBrace :: lines its))) ++ closeBrace :: [] =
        format ds ++ closeBrace :: lines its := by
      simpa [tidy, spelling] using hfix
    have hrest := (format_append_inj
      (fun d hd => clean_of_mem_parse (mem_of_mem_merge hd)) hds hread).2
    rw [← hrest] at hplain hopen
    refine Or.inl ⟨?_, (uncommented_append_iff (by decide) (by decide)).mp hplain, ?_⟩
    · cases its with
      | nil => rfl
      | cons it its => simp at hrest
    · rcases balanced_or_unclosed (format ds) with ⟨x, y, hxy, hx⟩ | hunclosed
      · rw [hxy, List.append_assoc, List.cons_append] at hopen
        exact absurd hopen (hx.not_unclosed _)
      · exact hunclosed

/-- A stable item is read back and left alone. -/
theorem closed_of_stable {it : Item} (h : it.Written) (hstable : it.Stable) :
    it.Closed ∧ it.tidy = it := by
  cases it with
  | rule selector body =>
      obtain ⟨hselector, ds, hds, hmerge, rfl⟩ := h
      have hread := merge_parse_format hds hmerge (t := []) (by simp) (by simp)
        (by rw [List.append_nil]; exact hstable.1)
      rw [List.append_nil] at hread
      exact ⟨⟨hselector, hstable.2⟩, by rw [tidy, hread]⟩
  | comment t => exact ⟨h, rfl⟩
  | atRule header body => exact ⟨h, rfl⟩
  | other t => exact h.elim
  | blank => exact h.elim

theorem stable_of_fixed {its : List Item} (h : Lineup Written WrittenLast its)
    (hplain : ∀ selector b, .rule selector b ∈ items (ofBytes (lines its)) → Uncommented b)
    (hfix : lines ((items (ofBytes (lines its))).map tidy) = lines its) :
    Lineup Stable StableLast its := by
  induction h with
  | nil => exact .nil
  | @last it h =>
      refine .cons ?_ .nil
      cases it with
      | atRule header body =>
          rcases h.2.append_closeBrace with hbalanced | hopen
          · exact hbalanced
          · -- one more brace would have been written
            have hitems : items (ofBytes (lines [.atRule header body])) =
                [.atRule header (body ++ [closeBrace])] := by
              rw [lines_cons, lines_nil, List.append_nil, items_newline]
              exact items_atRule_unclosed h.1 hopen
            rw [hitems] at hfix
            have hlength := congrArg List.length hfix
            simp [tidy, spelling] at hlength
      | rule selector body => exact h.elim
      | _ => trivial
  | @cons it its h hrest ih =>
      have hstable : (its = [] ∧ it.StableLast) ∨ it.Stable := by
        cases it with
        | rule selector body =>
            obtain ⟨hselector, ds, hds, _, rfl⟩ := h
            exact fixed_rule hselector hds (hplain selector) hfix
        | atRule header body => exact Or.inr h.2
        | _ => exact Or.inr trivial
      rcases hstable with ⟨rfl, hlast⟩ | hstable
      · exact .last hlast
      -- a stable item is read back alone, which leaves both hypotheses to the rest
      · obtain ⟨hclosed, htidy⟩ := closed_of_stable h hstable
        obtain ⟨hitems, hfix'⟩ := fixed_of_closed hclosed htidy hfix
        rw [hitems] at hplain
        exact .cons hstable
          (ih (fun selector b hb => hplain selector b (List.mem_cons_of_mem _ hb)) hfix')

/-! ## A stable text is left alone -/

theorem map_tidy_of_stable {its : List Item} (h : Lineup Written WrittenLast its)
    (hstable : Lineup Stable StableLast its) : (items (ofBytes (lines its))).map tidy = its := by
  induction h with
  | nil => rfl
  | @last it h =>
      rw [lines_cons, lines_nil, List.append_nil, items_newline]
      cases it with
      | atRule header body =>
          have hbalanced : Balanced body := by
            cases hstable with
            | last hlast => exact hlast.elim
            | cons hitem _ => exact hitem
          have hitems := items_atRule h.1 hbalanced []
          rw [spelling, hitems]
          rfl
      | rule selector body => exact h.elim
      | comment t =>
          rw [(show Trailing (.comment t) from h).items_eq]
          rfl
      | other t =>
          rw [(show Trailing (.other t) from h).items_eq]
          rfl
      | blank => exact h.elim
  | @cons it its h hrest ih =>
      cases hstable with
      | cons hitem hmore =>
          obtain ⟨hclosed, htidy⟩ := closed_of_stable h hitem
          rw [lines_cons, items_newline, hclosed.items_eq (head?_lines its), List.map_cons, htidy,
            ih hmore]
      | last hlast =>
          cases it with
          | rule selector body =>
              obtain ⟨hselector, ds, hds, hmerge, rfl⟩ := h
              obtain ⟨hplain, hopen⟩ := hlast
              rcases hopen.append_closeBrace with hbalanced | hopen
              · have hitem : Written (.rule selector (format ds)) :=
                  ⟨hselector, ds, hds, hmerge, rfl⟩
                obtain ⟨hclosed, htidy⟩ := closed_of_stable hitem ⟨hplain, hbalanced⟩
                rw [lines_cons, items_newline, hclosed.items_eq (head?_lines []), List.map_cons,
                  htidy]
                rfl
              · -- the brace written is read as part of the body, and tidied away
                have hitems := items_rule_unclosed hselector hopen
                have hread := merge_parse_format hds hmerge (t := [closeBrace]) (by decide)
                  (by decide) ((uncommented_append_iff (by decide) (by decide)).mpr hplain)
                rw [lines_cons, lines_nil, List.append_nil, items_newline, spelling, hitems,
                  List.map_singleton, tidy, hread]
          | _ => exact hlast.elim

theorem key?_tidy (it : Item) : it.tidy.key? = it.key? := by
  cases it <;> rfl

theorem distinct_of_map_tidy {its its' : List Item} (h : its'.map tidy = its)
    (hdistinct : Distinct its) : Distinct its' := by
  have hkeys : its.filterMap key? = its'.filterMap key? := by
    rw [← h, List.filterMap_map]
    exact List.filterMap_congr fun it _ => key?_tidy it
  rwa [Distinct, hkeys] at hdistinct

end Item

open Item

/-- Merging is stable exactly on stable output. A second merge of a written text gives
the same text if and only if the written items are stable: every block of an @-rule and
of a rule is balanced and no rule body has a comment in it, except that a rule at the
very end may also be left open. -/
theorem deduplicated_again_iff (s : Bytes) :
    (Sheet.scan (Sheet.scan s).deduplicated).deduplicated = (Sheet.scan s).deduplicated ↔
      Lineup Stable StableLast (merged (Sheet.scan s).items) := by
  have hwritten := lineup_written s
  have hdistinct := distinct_merged (Sheet.scan s).items
  rw [Sheet.deduplicated_eq (Sheet.scan s).deduplicated, Sheet.items_scan, Sheet.deduplicated_eq,
    items_tail_lines]
  generalize merged (Sheet.scan s).items = its at hwritten hdistinct ⊢
  constructor
  · intro h
    have hlines : lines (merged (items (ofBytes (lines its)))) = lines its :=
      lines_eq_of_tail_eq h (fun hnil => by rw [hnil]; rfl) fun it hit =>
        spelling_ne_nil (hwritten.forall_mem it hit)
    -- reading adds no brace and no slash, so the second merge cannot have taken any away
    have hcount : ∀ c, c ≠ 0x0A → c ≠ closeBrace →
        (lines (items (ofBytes (lines its)))).count c ≤
          (lines (merged (items (ofBytes (lines its))))).count c := by
      intro c hfeed hclose
      rw [hlines]
      exact count_items_le hfeed hclose (lines its)
    have hread := distinct_of_count (hcount openBrace (by decide) (by decide))
    rw [merged_of_distinct hread] at hlines
    exact stable_of_fixed hwritten
      (fun selector b hb => Item.uncommented_of_count (hcount slash (by decide) (by decide)) hb)
      hlines
  · intro hstable
    have htidy := map_tidy_of_stable hwritten hstable
    rw [merged_of_distinct (distinct_of_map_tidy htidy hdistinct), htidy]

/-- An @-rule whose block ends in an open comment: the brace that is written to close
it lands in the comment, and each merge writes one more. -/
theorem deduplicated_again_ne :
    (Sheet.scan (Sheet.scan (text "@m\x7b/*x")).deduplicated).deduplicated ≠
      (Sheet.scan (text "@m\x7b/*x")).deduplicated := by
  decide

end Cascade
