import Cascade.Proofs.Merge.Table

/-!
# Reading merged rules back

Once merged, no two rules share a normalized selector, so merging once more can
only tidy each rule by itself. Where the bodies are flat, the text with the rules
merged is read back as the merged items, and tidying changes nothing.
-/

namespace Cascade

open Lexeme Scan

/-! ## Rules with different selectors -/

namespace Item

open Declaration

def Distinct (its : List Item) : Prop := (its.filterMap key?).Nodup

theorem mem_filterMap_key? {its : List Item} {k : Bytes} :
    k ∈ its.filterMap key? ↔ ∃ it ∈ its, it.key? = some k :=
  List.mem_filterMap

/-- Every selector keeps its last rule. -/
theorem exists_key?_lastRules {its : List Item} {k : Bytes} :
    (∃ it ∈ lastRules its, it.key? = some k) ↔ ∃ it ∈ its, it.key? = some k := by
  constructor
  · rintro ⟨it, hit, hk⟩
    exact ⟨it, (lastRules_sublist its).subset hit, hk⟩
  · induction its with
    | nil => simp
    | cons it its ih =>
        rintro ⟨x, hx, hk⟩
        -- if no later item has the key, the first one has it and is kept for that reason
        by_cases hlater : ∃ later ∈ its, later.key? = some k
        · obtain ⟨y, hy, hyk⟩ := ih hlater
          refine ⟨y, ?_, hyk⟩
          rw [lastRules]
          split
          · exact hy
          · exact List.mem_cons_of_mem _ hy
        · have hxit : x = it := by
            rcases List.mem_cons.mp hx with rfl | hx
            · rfl
            · exact absurd ⟨x, hx, hk⟩ hlater
          subst hxit
          refine ⟨x, ?_, hk⟩
          rw [lastRules_cons_of_last]
          · exact List.mem_cons_self
          · intro k' hk' later hmem hlk
            rw [hk, Option.some.injEq] at hk'
            exact hlater ⟨later, hmem, hk' ▸ hlk⟩

theorem distinct_cons_iff {it : Item} {its : List Item} :
    Distinct (it :: its) ↔
      (∀ k, it.key? = some k → ∀ later ∈ its, later.key? ≠ some k) ∧ Distinct its := by
  cases hkey : it.key? with
  | none => simp [Distinct, hkey]
  | some k =>
      rw [Distinct, List.filterMap_cons_some hkey, List.nodup_cons, mem_filterMap_key?]
      simp [Distinct]

theorem distinct_lastRules (its : List Item) : Distinct (lastRules its) := by
  induction its with
  | nil => exact List.nodup_nil
  | cons it its ih =>
      rw [lastRules]
      split
      · exact ih
      · next hlast =>
          refine distinct_cons_iff.mpr ⟨fun k hk later hmem hlk => ?_, ih⟩
          refine hlast ?_
          have hlater := exists_key?_lastRules.mp ⟨later, hmem, hlk⟩
          simpa [hk] using hlater

theorem lastRules_of_distinct {its : List Item} (h : Distinct its) : lastRules its = its := by
  induction its with
  | nil => rfl
  | cons it its ih =>
      obtain ⟨hlast, hrest⟩ := distinct_cons_iff.mp h
      rw [lastRules_cons_of_last hlast, ih hrest]

theorem bodies_of_distinct {its : List Item} (h : Distinct its) {selector body : Bytes}
    (hmem : .rule selector body ∈ its) : bodies (normalize selector) its = [body] := by
  induction its with
  | nil => exact absurd hmem List.not_mem_nil
  | cons it its ih =>
      obtain ⟨hlast, hrest⟩ := distinct_cons_iff.mp h
      have hcons := bodies_append (normalize selector) [it] its
      rw [List.singleton_append] at hcons
      rw [hcons]
      rcases List.mem_cons.mp hmem with rfl | htail
      · rw [bodies_rule, bodies_eq_nil (hlast _ rfl)]
        rfl
      · rw [ih hrest htail, bodies_eq_nil]
        · rfl
        · intro x hx hk
          rw [List.mem_singleton] at hx
          subst hx
          exact hlast _ hk (.rule selector body) htail rfl

def tidy : Item → Item
  | .rule selector body => .rule selector (format (merge (parse body)))
  | it => it

theorem tidy_of_not_rule {it : Item} (h : it.rule? = none) : it.tidy = it := by
  cases it with
  | rule selector body => cases h
  | _ => rfl

theorem merged_of_distinct {its : List Item} (h : Distinct its) : merged its = its.map tidy := by
  rw [merged, lastRules_of_distinct h]
  refine List.map_congr_left fun it hit => ?_
  cases it with
  | rule selector body => simp [reformat, tidy, declared, bodies_of_distinct h hit]
  | _ => rfl

theorem filterMap_key?_merged (its : List Item) :
    (merged its).filterMap key? = (lastRules its).filterMap key? := by
  rw [merged, List.filterMap_map]
  exact List.filterMap_congr fun it _ => key?_reformat _ it

theorem distinct_merged (its : List Item) : Distinct (merged its) := by
  rw [Distinct, filterMap_key?_merged]
  exact distinct_lastRules its

theorem exists_key?_merged {its : List Item} {k : Bytes} :
    (∃ it ∈ merged its, it.key? = some k) ↔ ∃ it ∈ its, it.key? = some k := by
  rw [← mem_filterMap_key?, filterMap_key?_merged, mem_filterMap_key?, exists_key?_lastRules]

theorem rule_mem_merged {its : List Item} {selector body : Bytes}
    (h : .rule selector body ∈ merged its) :
    body = format (declared its (normalize selector)) ∧
      ∃ old, .rule selector old ∈ its := by
  obtain ⟨it, hit, heq⟩ := List.mem_map.mp h
  cases it with
  | rule s old =>
      obtain ⟨rfl, rfl⟩ := Item.rule.inj heq
      exact ⟨rfl, old, (lastRules_sublist its).subset hit⟩
  | _ => cases heq

theorem exists_body_of_mem_declared {its : List Item} {k : Bytes} {d : Declaration}
    (h : d ∈ declared its k) : ∃ body ∈ bodies k its, d ∈ parse body :=
  List.mem_flatMap.mp (mem_of_mem_merge h)

theorem clean_of_mem_declared {its : List Item} {k : Bytes} {d : Declaration}
    (h : d ∈ declared its k) : d.Clean := by
  obtain ⟨body, _, hd⟩ := exists_body_of_mem_declared h
  exact clean_of_mem_parse hd

/-- Merged declarations, once written, are merged to themselves, unless a comment has
come together. What follows them may be any text without a separator. -/
theorem merge_parse_format {ds : List Declaration} (hds : ∀ d ∈ ds, d.Clean)
    (hmerge : merge ds = ds) {t : Bytes} (hsemicolon : semicolon ∉ t) (hcolon : colon ∉ t)
    (hplain : Uncommented (format ds ++ t)) : merge (parse (format ds ++ t)) = ds := by
  rw [parse_format_append hds hsemicolon hcolon hplain, hmerge]

end Item

/-! ## Flat bodies -/

/-- Without its comments, the body has no brace and nothing that opens a comment. -/
def Flat (body : Bytes) : Prop :=
  openBrace ∉ stripComments body ∧ closeBrace ∉ stripComments body ∧
    ¬ [slash, star] <:+: stripComments body

instance (body : Bytes) : Decidable (Flat body) :=
  inferInstanceAs (Decidable (_ ∧ _ ∧ _))

/-- What flat bodies declare is written without a comment and without a brace. -/
theorem flat_declared {its : List Item} {k : Bytes} (h : ∀ body ∈ Item.bodies k its, Flat body) :
    Uncommented (Declaration.format (Item.declared its k)) ∧
      Balanced (Declaration.format (Item.declared its k)) := by
  have hfields : ∀ d ∈ Item.declared its k, ∃ body, Flat body ∧
      d.property <:+: stripComments body ∧ d.value <:+: stripComments body := by
    intro d hd
    obtain ⟨body, hbody, hparse⟩ := Item.exists_body_of_mem_declared hd
    obtain ⟨_, hp, hv⟩ := (Declaration.parse_spec body).1 d hparse
    exact ⟨body, h body hbody, hp, hv⟩
  have hcode : ofBytes (Declaration.format (Item.declared its k)) =
      (Declaration.format (Item.declared its k)).map .code := by
    refine Declaration.ofBytes_format fun d hd => ?_
    obtain ⟨body, ⟨_, _, hflat⟩, hp, hv⟩ := hfields d hd
    exact ⟨ofBytes_eq_map_code fun hin => hflat (hin.trans hp),
      ofBytes_eq_map_code fun hin => hflat (hin.trans hv)⟩
  -- a byte of the declarations is one of a body, or one of the signs that join the fields
  have hbrace : ∀ c, c ∉ [0x0A, 0x20, Declaration.colon, semicolon] →
      (∀ body, Flat body → c ∉ stripComments body) →
      c ∉ Declaration.format (Item.declared its k) := by
    intro c hc hbody
    rw [← List.count_eq_zero, Declaration.count_format hc, List.count_eq_zero]
    intro hmem
    obtain ⟨d, hd, hfield⟩ := List.mem_flatMap.mp hmem
    obtain ⟨body, hflat, hp, hv⟩ := hfields d hd
    rcases List.mem_append.mp hfield with hin | hin
    · exact hbody body hflat (hp.subset hin)
    · exact hbody body hflat (hv.subset hin)
  have hopen := hbrace openBrace (by decide) fun body hflat => hflat.1
  have hclose := hbrace closeBrace (by decide) fun body hflat => hflat.2.1
  refine ⟨uncommented_of_code hcode, balanced_iff.mpr ?_⟩
  rw [hcode]
  refine ⟨fun l hl => ?_, fun rest => block_of_no_brace (fun l hl => ?_) rest⟩
  · obtain ⟨b, _, rfl⟩ := List.mem_map.mp hl
    rfl
  · obtain ⟨b, hb, rfl⟩ := List.mem_map.mp hl
    simp only [isCode, Bool.or_eq_false_iff, beq_eq_false_iff_ne]
    exact ⟨fun heq => hopen (heq ▸ hb), fun heq => hclose (heq ▸ hb)⟩

theorem merge_parse_flat {its : List Item} {k : Bytes}
    (h : ∀ body ∈ Item.bodies k its, Flat body) :
    Declaration.merge (Declaration.parse (Declaration.format (Item.declared its k))) =
      Item.declared its k := by
  have hread := Item.merge_parse_format (fun d hd => Item.clean_of_mem_declared hd)
    (Declaration.merge_merge _) (t := []) (by simp) (by simp)
    (by rw [List.append_nil]; exact (flat_declared h).1)
  rwa [List.append_nil] at hread

theorem Sheet.mem_rules_iff {sheet : Sheet} {r : Rule} :
    r ∈ sheet.rules ↔ .rule r.selector r.body ∈ sheet.items := by
  rw [Sheet.rules, Sheet.items, List.mem_filterMap, List.mem_map]
  constructor
  · rintro ⟨t, ht, hrule⟩
    refine ⟨t, ht, ?_⟩
    cases hitem : t.item with
    | rule selector body =>
        rw [hitem] at hrule
        cases hrule
        rfl
    | _ =>
        rw [hitem] at hrule
        cases hrule
  · rintro ⟨t, ht, hitem⟩
    exact ⟨t, ht, by rw [hitem]; rfl⟩

theorem flat_bodies {s : Bytes} (h : ∀ r ∈ (Sheet.scan s).rules, Flat r.body) (k : Bytes) :
    ∀ body ∈ Item.bodies k (Sheet.scan s).items, Flat body := by
  intro body hbody
  obtain ⟨selector, hmem, _⟩ := Item.mem_bodies.mp hbody
  exact h ⟨selector, body⟩ (Sheet.mem_rules_iff.mpr hmem)

/-- Merged rules with flat bodies say where they end. -/
theorem lineup_merged {its : List Item} (h : Lineup Item.Closed Item.Trailing its)
    (hflat : ∀ k, ∀ body ∈ Item.bodies k its, Flat body) :
    Lineup Item.Closed Item.Trailing (Item.merged its) := by
  refine (h.sublist (Item.lastRules_sublist its)).map (fun it _ hit => ?_) (fun it _ hit => ?_)
  · cases it with
    | rule selector body => exact ⟨hit.1, (flat_declared (hflat _)).2⟩
    | _ => exact hit
  · cases it with
    | rule selector body => exact hit.elim
    | _ => exact hit

theorem tidy_merged {its : List Item} (hflat : ∀ k, ∀ body ∈ Item.bodies k its, Flat body) :
    (Item.merged its).map Item.tidy = Item.merged its := by
  conv_rhs => rw [← List.map_id (Item.merged its)]
  refine List.map_congr_left fun it hit => ?_
  cases it with
  | rule selector body =>
      obtain ⟨rfl, _⟩ := Item.rule_mem_merged hit
      simp [Item.tidy, merge_parse_flat (hflat _)]
  | _ => rfl

theorem declared_merged {its : List Item} (hflat : ∀ k, ∀ body ∈ Item.bodies k its, Flat body)
    {k : Bytes} (hk : ∃ it ∈ its, it.key? = some k) :
    Item.declared (Item.merged its) k = Item.declared its k := by
  obtain ⟨it, hit, hkey⟩ := Item.exists_key?_merged.mpr hk
  cases it with
  | rule selector body =>
      obtain rfl := Option.some.inj hkey
      obtain ⟨rfl, _⟩ := Item.rule_mem_merged hit
      rw [Item.declared, Item.bodies_of_distinct (Item.distinct_merged its) hit,
        List.flatMap_singleton, merge_parse_flat (hflat _)]
  | _ => cases hkey

theorem Sheet.table_eq (sheet : Sheet) : sheet.table = Table.ofItems sheet.items :=
  Table.ofTokens_eq sheet.tokens

/-- If no block is left open and the bodies of the rules are flat, the written text has exactly
the merged items. -/
theorem Sheet.items_deduplicated {s : Bytes}
    (hclosed : ∀ w ∈ (Sheet.scan s).warnings, w.problem ≠ .unbalancedBlock)
    (hflat : ∀ r ∈ (Sheet.scan s).rules, Flat r.body) :
    (Sheet.scan (Sheet.scan s).deduplicated).items = Item.merged (Sheet.scan s).items := by
  rw [Sheet.items_scan, Sheet.deduplicated_eq, Item.items_tail_lines]
  exact (lineup_merged (lineup_scan_of_balanced hclosed) (flat_bodies hflat)).items_lines

/-- The scanner undoes the writing of merged rules. If no block is left open and the
bodies of the rules are flat, the written text has exactly the merged items, every
normalized selector has the declarations that it had before, and writing the rules
merged once more gives the same text. -/
theorem scan_deduplicated (s : Bytes)
    (hclosed : ∀ w ∈ (Sheet.scan s).warnings, w.problem ≠ .unbalancedBlock)
    (hflat : ∀ r ∈ (Sheet.scan s).rules, Flat r.body) :
    (Sheet.scan (Sheet.scan s).deduplicated).items = Item.merged (Sheet.scan s).items ∧
      (∀ k, ((Sheet.scan (Sheet.scan s).deduplicated).table.get? k).map Entry.declarations =
        ((Sheet.scan s).table.get? k).map Entry.declarations) ∧
      (Sheet.scan (Sheet.scan s).deduplicated).deduplicated = (Sheet.scan s).deduplicated := by
  have hbodies := flat_bodies hflat
  have hitems := Sheet.items_deduplicated hclosed hflat
  refine ⟨hitems, fun k => ?_, ?_⟩
  · rw [Sheet.table_eq, Sheet.table_eq, hitems, Table.declarations_get?, Table.declarations_get?]
    by_cases hk : ∃ it ∈ (Sheet.scan s).items, it.key? = some k
    · rw [if_pos hk, if_pos (Item.exists_key?_merged.mpr hk), declared_merged hbodies hk]
    · rw [if_neg hk, if_neg fun hmem => hk (Item.exists_key?_merged.mp hmem)]
  · rw [Sheet.deduplicated_eq (Sheet.scan s).deduplicated, hitems,
      Item.merged_of_distinct (Item.distinct_merged _), tidy_merged hbodies, Sheet.deduplicated_eq]

/-- Two rules that merge, with a comment that hides a semicolon, a value with a colon,
an empty value and a part without a colon, around a nested @-rule and before an open
comment. -/
theorem scan_deduplicated_example :
    let s := text "a b\x7bx:1/*;*/;y:u:v\x7d@m\x7bq\x7br:s\x7d\x7d a  b \x7b x : 2 ;z:;n\x7d/*t"
    (∀ w ∈ (Sheet.scan s).warnings, w.problem ≠ .unbalancedBlock) ∧
      (∀ r ∈ (Sheet.scan s).rules, Flat r.body) ∧
      (Sheet.scan (Sheet.scan s).deduplicated).items =
        [.atRule (text "m") (text "q\x7br:s\x7d"),
          .rule (text "a  b") (text "\n  x: 2;\n  y: u:v;\n  z: ;\n"),
          .comment (text "/*t")] := by
  intro s
  have hclosed : ∀ w ∈ (Sheet.scan s).warnings, w.problem ≠ .unbalancedBlock := by decide
  have hflat : ∀ r ∈ (Sheet.scan s).rules, Flat r.body := by decide
  exact ⟨hclosed, hflat, (scan_deduplicated s hclosed hflat).1.trans (by decide)⟩

end Cascade
