import Cascade.Proofs.Sheet.Comments

/-!
# What a scan recovers from

Whatever a scan recovers from takes the rest of the source. So a scan recovers once at most, and
what it reports is about its last token: a comment without a closer, text without a block, or a
block without the brace that closes it. All tokens before it have their end.
-/

namespace Cascade

open Lexeme

/-- What is wrong with a token of the source `s`, at which offset, and in which words. The depth of
a block is counted from its first opening brace outside comments, and never gets back to zero if no
closing brace makes up for all the opening ones. -/
inductive Flaw (s : Bytes) (t : Token) : Nat → Bytes → Prop
  | comment {x : Bytes} {o : Nat} : t.item = .comment x → t.offset = o →
      (∀ i, 2 ≤ i → ¬ PairAt x i star slash) → Flaw s t o (text "unterminated comment")
  | other {x : Bytes} {o : Nat} : t.item = .other x → t.offset = o →
      Flaw s t o (text "text without block")
  | block {o p : Nat} : t.item.kind = .rule ∨ t.item.kind = .atRule → t.offset = o →
      IsLeast (Openers s o false) p → Closers s p = ∅ → Flaw s t p (text "unbalanced block")

/-- A token of the source `s` that has its end: a comment has a closer from its third byte on, and
the depth of a block gets back to zero. -/
inductive Complete (s : Bytes) (t : Token) : Prop
  | comment {x : Bytes} {i : Nat} : t.item = .comment x → 2 ≤ i → PairAt x i star slash →
      Complete s t
  | block {o p k : Nat} : t.item.kind = .rule ∨ t.item.kind = .atRule → t.offset = o →
      IsLeast (Openers s o false) p → IsLeast (Closers s p) k → Complete s t

theorem Complete.not_flaw {s : Bytes} {t : Token} (h : Complete s t) (w : Nat) (m : Bytes) :
    ¬ Flaw s t w m := by
  intro hflaw
  cases h with
  | comment hitem hle hcloser =>
      cases hflaw with
      | comment hitem' _ hnone =>
          obtain rfl := Item.comment.inj (hitem.symm.trans hitem')
          exact hnone _ hle hcloser
      | other hitem' _ => cases hitem.symm.trans hitem'
      | block hkind _ _ _ => simp [hitem, Item.kind] at hkind
  | block hkind ho hopener hcloser =>
      cases hflaw with
      | comment hitem _ _ => simp [hitem, Item.kind] at hkind
      | other hitem _ => simp [hitem, Item.kind] at hkind
      | block _ ho' hopener' hempty =>
          obtain rfl := Int.ofNat.inj (ho.symm.trans ho')
          obtain rfl := hopener.unique hopener'
          exact hcloser.nonempty.ne_empty hempty

theorem Problem.message_inj {p q : Problem} (h : p.message = q.message) : p = q := by
  cases p <;> cases q <;> revert h <;> decide

/-- A token has one flaw at most. -/
theorem Flaw.unique {s : Bytes} {t : Token} {w w' : Nat} {m m' : Bytes} (h : Flaw s t w m)
    (h' : Flaw s t w' m') : w = w' ∧ m = m' := by
  cases h with
  | comment hitem ho _ =>
      cases h' with
      | comment _ ho' _ => exact ⟨Int.ofNat.inj (ho.symm.trans ho'), rfl⟩
      | other hitem' _ => cases hitem.symm.trans hitem'
      | block hkind _ _ _ => simp [hitem, Item.kind] at hkind
  | other hitem ho =>
      cases h' with
      | comment hitem' _ _ => cases hitem.symm.trans hitem'
      | other _ ho' => exact ⟨Int.ofNat.inj (ho.symm.trans ho'), rfl⟩
      | block hkind _ _ _ => simp [hitem, Item.kind] at hkind
  | block hkind ho hopener _ =>
      cases h' with
      | comment hitem _ _ => simp [hitem, Item.kind] at hkind
      | other hitem _ => simp [hitem, Item.kind] at hkind
      | block _ ho' hopener' _ =>
          obtain rfl := Int.ofNat.inj (ho.symm.trans ho')
          exact ⟨hopener.unique hopener', rfl⟩

/-! ## The tokens of a lap -/

/-- Only a closed comment has a closer that is clear of its opener. -/
theorem exists_closer_iff {x : Bytes} {closed : Bool} {ls : List Lexeme}
    (h : Lexed (.comment x closed :: ls)) :
    (∃ i, 2 ≤ i ∧ PairAt x i star slash) ↔ closed = true := by
  cases h with
  | @comment inner _ hclose _ =>
      refine iff_of_true ?_ rfl
      obtain ⟨j, hj⟩ := exists_pairAt_iff.mpr (Option.ne_none_iff_exists'.mpr ⟨_, hclose⟩)
      exact ⟨j + 2, Nat.le_add_left 2 j, hj⟩
  | @openComment inner hclose =>
      refine iff_of_false ?_ Bool.false_ne_true
      rintro ⟨i, hle, hi⟩
      obtain ⟨j, rfl⟩ : ∃ j, i = j + 2 := ⟨i - 2, by omega⟩
      exact not_pairAt_of_closerEnd hclose j hi

theorem complete_block {s : Bytes} {o : Nat} {pre body rest : List Lexeme} {item : Item}
    (hkind : item.kind = .rule ∨ item.kind = .atRule)
    (h : ofBytes (s.drop o) = pre ++ .code openBrace :: (body ++ .code closeBrace :: rest))
    (hpre : ∀ l ∈ pre, l.isCode (stops false) = false)
    (hbody : block 0 (body ++ .code closeBrace :: rest) = some (body, rest)) :
    Complete s ⟨item, o⟩ := by
  obtain ⟨hopener, hbrace⟩ := isLeast_openers h hpre
  rcases block_by_position hbrace with ⟨_, _, _, hcloser, _⟩ | ⟨hnone, _⟩
  · exact .block hkind rfl hopener hcloser
  · rw [(behind_code h).1, hbody] at hnone
    cases hnone

theorem flaw_block {s : Bytes} {o : Nat} {pre body : List Lexeme} {item : Item}
    (hkind : item.kind = .rule ∨ item.kind = .atRule)
    (h : ofBytes (s.drop o) = pre ++ .code openBrace :: body)
    (hpre : ∀ l ∈ pre, l.isCode (stops false) = false) (hbody : block 0 body = none) :
    Flaw s ⟨item, o⟩ (o + extent pre) (text "unbalanced block") := by
  obtain ⟨hopener, hbrace⟩ := isLeast_openers h hpre
  rcases block_by_position hbrace with ⟨_, _, hsome, _⟩ | ⟨_, hempty⟩
  · rw [(behind_code h).1, hbody] at hsome
    cases hsome
  · exact .block hkind rfl hopener hempty

/-! ## The course of a scan -/

/-- Events in the order a scan can meet them: complete tokens and @-rules without a block, and only
at the very end a recovery with the token it is about. -/
inductive Course (s : Bytes) : List Event → Prop
  | done : Course s []
  | dropped {rule : Bytes} {es : List Event} : Course s es → Course s (.dropped rule :: es)
  | token {t : Token} {es : List Event} : Complete s t → Course s es → Course s (.token t :: es)
  | recovered {t : Token} {w : Nat} {p : Problem} : Flaw s t w p.message →
      Course s [.recovered w p, .token t]

namespace Scan

/-- A lap keeps to the course, and where it recovers nothing is left behind it. -/
theorem Lap.course {s : Bytes} {o : Nat} {taken rest : List Lexeme} {es es' : List Event}
    (h : Lap o taken rest es) (hahead : ofBytes (s.drop o) = taken ++ rest)
    (hrest : Course s es') (hend : rest = [] → es' = []) : Course s (es ++ es') := by
  have hlex := lexed_ofBytes (s.drop o)
  rw [hahead] at hlex
  cases h with
  | blank _ _ => exact hrest
  | dropped _ => exact .dropped hrest
  | openDropped _ => exact .dropped hrest
  | comment =>
      obtain ⟨i, hle, hi⟩ := (exists_closer_iff hlex).mpr rfl
      exact .token (.comment rfl hle hi) hrest
  | openComment =>
      obtain rfl := hend rfl
      refine .recovered (.comment rfl rfl ?_)
      intro i hle hi
      exact Bool.false_ne_true ((exists_closer_iff hlex).mp ⟨i, hle, hi⟩)
  | @atRule pre body _ hpre hbody =>
      apply Course.token _ hrest
      apply complete_block (.inr rfl) _ (isCode_at hpre) hbody
      simpa using hahead
  | @openAtRule pre body hpre hbody =>
      obtain rfl := hend rfl
      have hflaw : Flaw s ⟨.atRule (source pre).trim (source body), o⟩
          (o + extent (.code 0x40 :: pre)) (text "unbalanced block") :=
        flaw_block (.inr rfl) (by simpa using hahead) (isCode_at hpre) hbody
      rw [extent_cons, ← Nat.add_assoc] at hflaw
      exact .recovered hflaw
  | @rule pre body _ _ hpre hbody =>
      apply Course.token _ hrest
      apply complete_block (.inl rfl) _ hpre hbody
      simpa using hahead
  | @openRule pre body _ hpre hbody =>
      obtain rfl := hend rfl
      rw [List.append_nil] at hahead
      exact .recovered (flaw_block (.inl rfl) hahead hpre hbody)
  | other _ _ =>
      obtain rfl := hend rfl
      exact .recovered (.other rfl rfl)

theorem course_events (s : Bytes) : Course s (events s) := by
  refine eventsFrom_induction
    (motive := fun o ls es => ofBytes (s.drop o) = ls → Course s es)
    (fun _ _ => .done) (fun o taken rest es _ hlap ih hahead => ?_) 0 (lexed_ofBytes s) rfl
  have hbehind := ofBytes_drop_extent hahead
  rw [List.drop_drop] at hbehind
  apply hlap.course hahead (ih hbehind)
  rintro rfl
  rfl

end Scan

namespace Course

theorem tokens_cons (t : Token) (es : List Event) :
    (Event.token t :: es).filterMap Event.token? = t :: es.filterMap Event.token? := rfl

/-- A scan recovers exactly if its last token has a flaw, and from that. -/
theorem recovered_mem_iff {s : Bytes} {es : List Event} (h : Course s es) (w : Nat) (p : Problem) :
    .recovered w p ∈ es ↔
      ∃ t, (es.filterMap Event.token?).getLast? = some t ∧ Flaw s t w p.message := by
  induction h with
  | done => simp
  | @dropped rule es _ ih =>
      rw [List.mem_cons, or_iff_right nofun, ih]
      rfl
  | @token t es ht hes ih =>
      rw [List.mem_cons, or_iff_right nofun, ih, tokens_cons]
      -- a complete token in front is the last one only if nothing is behind it
      cases hlast : (es.filterMap Event.token?).getLast? with
      | some last => simp [List.getLast?_cons, hlast]
      | none =>
          constructor
          · rintro ⟨_, hnone, _⟩
            cases hnone
          · rintro ⟨t', hself, hflaw⟩
            rw [List.getLast?_cons, hlast] at hself
            cases hself
            exact absurd hflaw (ht.not_flaw w _)
  | @recovered t w' p' hflaw =>
      constructor
      · intro hmem
        obtain ⟨rfl, rfl⟩ : w = w' ∧ p = p' := by simpa using hmem
        exact ⟨t, rfl, hflaw⟩
      · rintro ⟨t', hself, hflaw'⟩
        cases hself
        obtain ⟨rfl, hm⟩ := hflaw.unique hflaw'
        obtain rfl := Problem.message_inj hm
        exact List.mem_cons_self

theorem length_warnings_le {s : Bytes} {es : List Event} (h : Course s es) :
    (es.filterMap (Event.warning? s)).length ≤ 1 := by
  induction h with
  | done => exact Nat.zero_le 1
  | dropped _ ih => exact ih
  | token _ _ ih => exact ih
  | recovered _ => exact Nat.le_refl 1

theorem complete_or_flaw {s : Bytes} {es : List Event} (h : Course s es) :
    ∀ t ∈ es.filterMap Event.token?, Complete s t ∨ ∃ w m, Flaw s t w m := by
  induction h with
  | done => exact nofun
  | dropped _ ih => exact ih
  | @token t es ht _ ih =>
      intro t' hmem
      rw [tokens_cons] at hmem
      rcases List.mem_cons.mp hmem with rfl | hmem
      · exact Or.inl ht
      · exact ih t' hmem
  | @recovered t w p hflaw =>
      intro t' hmem
      obtain rfl : t = t' := by simpa [Event.token?] using hmem
      exact Or.inr ⟨w, p.message, hflaw⟩

theorem complete_of_mem_dropLast {s : Bytes} {es : List Event} (h : Course s es) :
    ∀ t ∈ (es.filterMap Event.token?).dropLast, Complete s t := by
  induction h with
  | done => exact nofun
  | dropped _ ih => exact ih
  | recovered _ => exact nofun
  | @token t es ht _ ih =>
      intro t' hmem
      rw [tokens_cons] at hmem
      cases hrest : es.filterMap Event.token? with
      | nil =>
          rw [hrest] at hmem
          cases hmem
      | cons u us =>
          rw [hrest, List.dropLast_cons_cons] at hmem
          rcases List.mem_cons.mp hmem with rfl | hmem
          · exact ht
          · rw [← hrest] at hmem
            exact ih t' hmem

end Course

/-- Warnings tell exactly when a scan recovered. There is one at most, and there is one if and only
if the last token has a flaw, which it names with its place: a comment without a closer and text
without a block where they start, and a block that does not close at its first opening brace
outside comments. A token without a flaw is complete, and so are all tokens before the last. -/
theorem Sheet.warning_mem_iff_flaw (s : Bytes) :
    (Sheet.scan s).warnings.length ≤ 1 ∧
    (∀ w, w ∈ (Sheet.scan s).warnings ↔
      ∃ t o, (Sheet.scan s).tokens.getLast? = some t ∧ Flaw s t o w.problem.message ∧
        w.position = .ofOffset s o) ∧
    (∀ w ∈ (Sheet.scan s).warnings, w.message =
      Bytes.ofNat w.position.line ++ text ":" ++ Bytes.ofNat w.position.column ++ text ": " ++
        w.problem.message) ∧
    (∀ t ∈ (Sheet.scan s).tokens, Complete s t ∨ ∃ o m, Flaw s t o m) ∧
    ∀ t ∈ (Sheet.scan s).tokens.dropLast, Complete s t := by
  have hcourse := Scan.course_events s
  refine ⟨hcourse.length_warnings_le, ?_, fun w _ => rfl, hcourse.complete_or_flaw,
    hcourse.complete_of_mem_dropLast⟩
  rintro ⟨position, problem⟩
  constructor
  · intro hmem
    obtain ⟨e, he, hwarning⟩ := List.mem_filterMap.mp hmem
    cases e with
    | recovered o p =>
        cases hwarning
        obtain ⟨t, hlast, hflaw⟩ := (hcourse.recovered_mem_iff o _).mp he
        exact ⟨t, o, hlast, hflaw, rfl⟩
    | token t => cases hwarning
    | dropped rule => cases hwarning
  · rintro ⟨t, o, hlast, hflaw, rfl⟩
    have hmem := (hcourse.recovered_mem_iff o problem).mpr ⟨t, hlast, hflaw⟩
    exact List.mem_filterMap.mpr ⟨_, hmem, rfl⟩

/-- A block that does not close, behind a comment and an @-rule without a block. -/
theorem Sheet.warning_mem_iff_flaw_open_block :
    let s := text "/*a*/@x;\nb/*\x7b*/ \x7b c"
    let w : Warning := ⟨⟨2, 8⟩, .unbalancedBlock⟩
    let t : Token := ⟨.comment (text "/*a*/"), 0⟩
    w ∈ (Sheet.scan s).warnings ∧ t ∈ (Sheet.scan s).tokens.dropLast ∧
    w.message = text "2:8: unbalanced block" ∧
    (∃ last o, (Sheet.scan s).tokens.getLast? = some last ∧
      Flaw s last o (text "unbalanced block") ∧ w.position = .ofOffset s o) ∧
    Complete s t := by
  intro s w t
  obtain ⟨_, hwarning, hmessage, _, hcomplete⟩ := Sheet.warning_mem_iff_flaw s
  have hw : w ∈ (Sheet.scan s).warnings := by decide
  have ht : t ∈ (Sheet.scan s).tokens.dropLast := by decide
  exact ⟨hw, ht, (hmessage w hw).trans (by decide), (hwarning w).mp hw, hcomplete t ht⟩

end Cascade
