import Cascade.Proofs.Yaml.Block
import Cascade.Proofs.Yaml.Stages

/-!
# Finding the tokens of a line

A line is a key, a colon and perhaps a value. What is found at each of them is said here, for a
scan of which any number of tokens has been taken.
-/

namespace Cascade.Yaml

namespace Scan

variable {s : Scan} {j : Nat}

def save (s : Scan) : Scan :=
  { s with candidate := ⟨true, s.flow == 0 && s.indent == s.place.column, true, s.count, s.place⟩ }

def deepen (s : Scan) (column : Nat) : Scan :=
  { s with indents := s.indent :: s.indents, indent := column }

/-- A mapping starts before the token of a number, unless there is one in the column. -/
def rolled (s : Scan) (column number : Nat) : Scan :=
  if s.indent < column then (s.deepen column).insert number .blockMapping else s

def keyed (s : Scan) : Scan :=
  { (s.insert s.candidate.number .key).rolled s.candidate.place.column s.candidate.number with
    candidate := { s.candidate with possible := false }
    keys := false }

theorem allow_self (h : s.keys = false) : s.allow false = s := by
  cases s
  cases h
  rfl

theorem insert_on (s : Scan) (number : Nat) (t : Token) (src : Source) :
    (s.on src).insert number t = (s.insert number t).on src := by
  unfold insert
  rw [apply_ite (Scan.on · src)]
  rfl

/-- Only the queue changes. -/
theorem insert_eq (s : Scan) (number : Nat) (t : Token) :
    s.insert number t = { s with queue := (s.insert number t).queue } := by
  unfold insert
  split_ifs <;> rfl

@[simp]
theorem unroll_place (s : Scan) (column : Int) : (s.unroll column).place = s.place := by
  unfold unroll
  split_ifs <;> rfl

@[simp]
theorem unroll_keys (s : Scan) (column : Int) : (s.unroll column).keys = s.keys := by
  unfold unroll
  split_ifs <;> rfl

/-- Nothing stands further to the right. -/
theorem unroll_self {column : Int} (h : s.indent ≤ column) : s.unroll column = s := by
  unfold unroll
  split_ifs
  · cases hindents : s.indents with
    | nil =>
        simp only [closeBlocks, List.replicate_zero, List.append_nil]
        cases s
        cases hindents
        rfl
    | cons outside indents =>
        simp only [closeBlocks, if_neg (Int.not_lt.mpr h), List.replicate_zero, List.append_nil]
        cases s
        cases hindents
        rfl
  · rfl

end Scan

namespace Reading

variable {s s' : Scan} {t t' : List Char} {n n' : Nat} {c d : Char}

/-! ## The next token -/

theorem runs_unroll : Runs (modify fun s => s.unroll s.place.column) ⟨s, t, n⟩ ()
    ⟨s.unroll s.place.column, t, n⟩ := by
  refine runs_modify fun src => ?_
  unfold Scan.unroll Scan.on
  split_ifs <;> rfl

theorem runs_find {s₁ : Scan} {t₁ : List Char} {v : View} (hstarted : s.started = true)
    (hseek : Runs (seek s.limit) ⟨s, t, 1⟩ () ⟨s₁, c :: t₁, 1⟩) (hc : c ≠ finish)
    (hmark : s₁.place.column ≠ 0 ∨ c ≠ '%' ∧ c ≠ '-' ∧ c ≠ '.')
    (h : Runs (foundInside c (t₁.headD finish)) ⟨s₁.unroll s₁.place.column, c :: t₁, 4⟩ () v) :
    Runs find ⟨s, t, n⟩ () v := by
  refine (runs_need 1).bind (runs_get_bind fun src _ => runs_if_neg ?_ ?_)
  · rw [show (s.on src).started = true from hstarted]
    exact Bool.false_ne_true
  refine runs_fuel.bind (hseek.bind (runs_unroll.bind ((runs_need 4).bind ?_)))
  refine (runs_look (by decide)).bind (runs_get_bind fun src _ => ?_)
  refine runs_if_neg (by simpa using hc) (runs_if_neg ?_ ?_)
  · rw [Scan.on_place, Scan.unroll_place, Bool.and_eq_true, beq_iff_eq, beq_iff_eq]
    rintro ⟨hzero, hpercent⟩
    exact hmark.elim (fun h => h hzero) fun h => h.1 hpercent
  refine (runs_atMarker ?_).bind (runs_if_neg Bool.false_ne_true ?_)
  · rw [Scan.unroll_place]
    exact hmark.imp_right fun h => ⟨by decide, h.2⟩
  · exact (runs_look (by decide)).bind h

theorem runs_find_end {s₁ : Scan} {v : View} (hstarted : s.started = true)
    (hseek : Runs (seek s.limit) ⟨s, t, 1⟩ () ⟨s₁, [], 1⟩)
    (h : Runs foundEnd ⟨s₁.unroll s₁.place.column, [], 4⟩ () v) : Runs find ⟨s, t, n⟩ () v := by
  refine (runs_need 1).bind (runs_get_bind fun src _ => runs_if_neg ?_ ?_)
  · rw [show (s.on src).started = true from hstarted]
    exact Bool.false_ne_true
  refine runs_fuel.bind (hseek.bind (runs_unroll.bind ((runs_need 4).bind ?_)))
  exact (runs_look (by decide)).bind (runs_get_bind fun src _ => runs_if_pos rfl h)

/-- No comment follows, perhaps behind blanks. -/
def Quiet (t : List Char) : Prop :=
  ∃ gaps rest, t = gaps ++ rest ∧ (∀ c ∈ gaps, isGap c = true) ∧
    isGap (rest.headD finish) = false ∧ rest.headD finish ≠ '#'

theorem quiet_of_head (hgap : isGap (t.headD finish) = false) (hmark : t.headD finish ≠ '#') :
    Quiet t :=
  ⟨[], t, rfl, nofun, hgap, hmark⟩

theorem Quiet.space (h : Quiet t) : Quiet (' ' :: t) := by
  obtain ⟨gaps, rest, rfl, hgaps, hrest⟩ := h
  exact ⟨' ' :: gaps, rest, rfl, List.forall_mem_cons.mpr ⟨rfl, hgaps⟩, hrest⟩

/-- Behind a token no comment is passed. -/
theorem runs_tail (h : Quiet t) :
    Runs (do if (← get).queue.getLast? != some .blockEntry then lineComment)
      ⟨s, t, n⟩ () ⟨s, t, 0⟩ := by
  obtain ⟨gaps, rest, rfl, hgaps, hgap, hmark⟩ := h
  refine runs_get_bind fun src _ => ?_
  by_cases hentry : ((s.on src).queue.getLast? != some .blockEntry) = true
  · exact runs_if_pos hentry (runs_lineComment hgaps hgap hmark)
  · exact runs_if_neg hentry ((runs_pure _ _).forget (Nat.zero_le n))

/-! ## Tags -/

theorem isWord_of_isLetter (hc : isLetter c = true) : isWord c = true := by
  rw [isLetter] at hc
  rw [isWord, hc, Bool.or_true]
  rfl

theorem runs_tagText {w : List Char} {f : Nat} {o : Bytes} (hw : ∀ c ∈ w, isLetter c = true)
    (hlimit : w.length < f) :
    Runs (tagText f o) ⟨s, w ++ ' ' :: t, n⟩ ((Utf8.ofChars w).reverse ++ o)
      ⟨s.beyond w, ' ' :: t, 1⟩ := by
  induction w generalizing f o s n with
  | nil =>
      cases f with
      | zero => cases hlimit
      | succ f => exact runs_next.bind (runs_pure _ _)
  | cons c w ih =>
      obtain ⟨hc, hw⟩ := List.forall_mem_cons.mp hw
      cases f with
      | zero => cases hlimit
      | succ f =>
          have h := ih (s := s.beyond [c]) (n := 0) (o := (String.utf8EncodeChar c).reverse ++ o) hw
            (Nat.lt_of_succ_lt_succ hlimit)
          rw [Scan.beyond_beyond, ← List.append_assoc, ← List.reverse_append] at h
          refine runs_next.bind (runs_if_neg ?_ (runs_if_pos ?_ ?_))
          · rw [beq_iff_eq]
            exact ne_of_isLetter hc rfl
          · rw [List.cons_append, List.headD_cons, isWord_of_isLetter hc, Bool.true_or]
          · exact (runs_skip (isBreak_of_endsWord (endsWord_of_isLetter hc))).bind h

/-- A tag of this language, in its short form. -/
theorem runs_tag {w : List Char} (hne : w ≠ []) (hw : ∀ c ∈ w, isLetter c = true)
    (hlimit : w.length < s.limit) :
    Runs tag ⟨s, '!' :: '!' :: (w ++ ' ' :: t), n⟩ (.tag (text "!!") (Utf8.ofChars w))
      ⟨s.beyond ('!' :: '!' :: w), ' ' :: t, 1⟩ := by
  have hword := runs_takeWhile (s := s.beyond ['!']) (t := '!' :: (w ++ ' ' :: t)) (n := 0)
    (p := isWord) (w := []) nofun rfl (Nat.zero_lt_of_lt hlimit)
  have hhandle : Runs handle ⟨s, '!' :: '!' :: (w ++ ' ' :: t), 2⟩ (text "!!")
      ⟨s.beyond ['!', '!'], w ++ ' ' :: t, 0⟩ := by
    refine runs_next.bind (runs_if_pos rfl ((runs_skip rfl).bind (hword.bind ?_)))
    refine (runs_look Nat.zero_lt_one).bind (runs_if_pos rfl ((runs_skip rfl).bind ?_))
    exact runs_pure _ _
  have htext := runs_tagText (s := s.beyond ['!', '!']) (t := t) (n := 0) (o := []) hw hlimit
  rw [List.append_nil, Scan.beyond_beyond] at htext
  have hparts : Runs tagParts ⟨s, '!' :: '!' :: (w ++ ' ' :: t), n⟩ (text "!!", Utf8.ofChars w)
      ⟨s.beyond ('!' :: '!' :: w), ' ' :: t, 1⟩ := by
    refine (runs_need 2).bind ((runs_look (by decide)).bind (runs_if_neg Bool.false_ne_true ?_))
    refine hhandle.bind (runs_if_pos rfl (Runs.bind (runs_fuel.bind (htext.bind ?_)) (runs_pure _ _)))
    refine runs_if_neg ?_ ?_
    · obtain ⟨c, w, rfl⟩ := List.exists_cons_of_ne_nil hne
      rw [List.isEmpty_reverse, List.isEmpty_iff, Utf8.ofChars, List.flatMap_cons]
      intro hnil
      have hlength := congrArg List.length (List.append_eq_nil_iff.mp hnil).1
      rw [String.length_utf8EncodeChar] at hlength
      exact (Char.utf8Size_pos c).ne' hlength
    · rw [List.reverse_reverse]
      exact runs_pure _ _
  exact hparts.bind (runs_next.bind (runs_if_pos rfl (runs_pure _ _)))

/-! ## Kinds of tokens -/

def PlainStart (c d : Char) : Prop :=
  endsWord c = false ∧ (c ∉ indicators ∨ c ∈ ['-', '?', ':'] ∧ endsWord d = false)

theorem PlainStart.facts (h : PlainStart c d) :
    (c ∉ ['[', '\x7b', ']', '\x7d', ',', '*', '&', '!', '|', '>', '\x27', '\x22']) ∧
      (c == '-' && endsWord d) = false ∧ (c == '?' && endsWord d) = false ∧
      (c == ':' && endsWord d) = false ∧ startsPlain false c d = true := by
  obtain ⟨hword, hmarks⟩ := h
  rcases hmarks with hmarks | ⟨hc, hd⟩
  · have hdash : c ≠ '-' := fun h => hmarks (h ▸ by decide)
    have hquestion : c ≠ '?' := fun h => hmarks (h ▸ by decide)
    have hcolon : c ≠ ':' := fun h => hmarks (h ▸ by decide)
    refine ⟨fun hmem => hmarks ?_, by simp [hdash], by simp [hquestion], by simp [hcolon], ?_⟩
    · have hsub : ['[', '\x7b', ']', '\x7d', ',', '*', '&', '!', '|', '>', '\x27', '\x22'] ⊆
          indicators := by decide
      exact hsub hmem
    · rw [startsPlain, hword, Bool.false_or, List.contains_eq_mem, decide_eq_false hmarks]
      rfl
  · have hgap := isGap_of_endsWord hd
    rw [hd]
    simp only [List.mem_cons, List.not_mem_nil, or_false] at hc
    rcases hc with rfl | rfl | rfl <;> simp [startsPlain, hgap, hd]

def quoteStyle (single : Bool) : Style := if single then .single else .double

section Kinds

variable (hflow : s.flow = 0) (hquiet : Quiet t')

include hflow in
theorem flow_on (src : Source) : decide (0 < (s.on src).flow) = false :=
  decide_eq_false (by rw [show (s.on src).flow = 0 from hflow]; exact Nat.lt_irrefl 0)

include hflow hquiet

theorem runs_foundInside_plain (h : PlainStart c d)
    (hrun : Runs (foundPart (return .scalar .plain (← plain))) ⟨s, t, n⟩ ()
      ⟨s', t', n'⟩) :
    Runs (foundInside c d) ⟨s, t, n⟩ () ⟨s', t', 0⟩ := by
  obtain ⟨hnot, hdash, hquestion, hcolon, hplain⟩ := h.facts
  have hne : ∀ x ∈ ['[', '\x7b', ']', '\x7d', ',', '*', '&', '!', '|', '>', '\x27', '\x22'],
      ¬ (c == x) = true := fun x hx h => hnot (beq_iff_eq.mp h ▸ hx)
  have hblock : ∀ x, ¬ (c == x) = true → ¬ (c == x && !false) = true := fun x hx h =>
    hx (Bool.and_eq_true_iff.mp h).1
  refine runs_get_bind fun src _ => ?_
  dsimp only
  rw [flow_on hflow, Bool.false_or, hdash, hquestion, hcolon, hplain]
  refine runs_if_neg (hne _ (by decide)) (runs_if_neg (hne _ (by decide)) ?_)
  refine runs_if_neg (hne _ (by decide)) (runs_if_neg (hne _ (by decide)) ?_)
  refine runs_if_neg (hne _ (by decide)) (runs_if_neg Bool.false_ne_true ?_)
  refine runs_if_neg Bool.false_ne_true (runs_if_neg Bool.false_ne_true ?_)
  refine runs_if_neg (hne _ (by decide)) (runs_if_neg (hne _ (by decide)) ?_)
  refine runs_if_neg (hne _ (by decide)) (runs_if_neg (hblock _ (hne _ (by decide))) ?_)
  refine runs_if_neg (hblock _ (hne _ (by decide))) (runs_if_neg (hne _ (by decide)) ?_)
  refine runs_if_neg (hne _ (by decide)) (runs_if_pos rfl ?_)
  exact hrun.bind (runs_tail hquiet)

theorem runs_foundInside_colon (hd : endsWord d = true)
    (hrun : Runs foundColon ⟨s, t, n⟩ () ⟨s', t', n'⟩) :
    Runs (foundInside ':' d) ⟨s, t, n⟩ () ⟨s', t', 0⟩ := by
  refine runs_get_bind fun src _ => ?_
  dsimp only
  rw [flow_on hflow, hd]
  exact hrun.bind (runs_tail hquiet)

theorem runs_foundInside_tag (hrun : Runs (foundPart tag) ⟨s, t, n⟩ () ⟨s', t', n'⟩) :
    Runs (foundInside '!' d) ⟨s, t, n⟩ () ⟨s', t', 0⟩ := by
  refine runs_get_bind fun src _ => ?_
  dsimp only
  rw [flow_on hflow]
  exact hrun.bind (runs_tail hquiet)

theorem runs_foundInside_block
    (hrun : Runs (foundBlock false) ⟨s, t, n⟩ () ⟨s', t', n'⟩) :
    Runs (foundInside '|' d) ⟨s, t, n⟩ () ⟨s', t', 0⟩ := by
  refine runs_get_bind fun src _ => ?_
  dsimp only
  rw [flow_on hflow]
  exact hrun.bind (runs_tail hquiet)

theorem runs_foundInside_quoted (single : Bool)
    (hrun : Runs (foundPart (return .scalar (quoteStyle single) (← quoted single))) ⟨s, t, n⟩ ()
      ⟨s', t', n'⟩) :
    Runs (foundInside (mark single) d) ⟨s, t, n⟩ () ⟨s', t', 0⟩ := by
  refine runs_get_bind fun src _ => ?_
  dsimp only
  rw [flow_on hflow]
  cases single <;> exact hrun.bind (runs_tail hquiet)

end Kinds

/-! ## What becomes of them -/

section Parts

variable {x : Reading Token} {tok : Token}

/-- No candidate is ruled out where there is none. -/
theorem runs_dropCandidate (h : s.candidate.possible = false) :
    Runs dropCandidate ⟨s, t, n⟩ () ⟨s, t, n⟩ := by
  refine runs_get_bind fun src _ => runs_if_neg ?_ (runs_pure _ _)
  rw [show (s.on src).candidate.possible = false from h]
  exact Bool.false_ne_true

theorem runs_setKeys (allowed : Bool) : Runs (setKeys allowed) ⟨s, t, n⟩ () ⟨s.allow allowed, t, n⟩ :=
  runs_modify fun _ => rfl

theorem runs_push (tok : Token) : Runs (push tok) ⟨s, t, n⟩ () ⟨s.push tok, t, n⟩ :=
  runs_modify fun _ => rfl

/-- Where no key may start. -/
theorem runs_foundPart (hkeys : s.keys = false) (hx : Runs x ⟨s, t, n⟩ tok ⟨s', t', n'⟩) :
    Runs (foundPart x) ⟨s, t, n⟩ () ⟨s'.push tok, t', n'⟩ := by
  have hsave : Runs saveCandidate ⟨s, t, n⟩ () ⟨s, t, n⟩ := by
    refine runs_get_bind fun src _ => runs_if_neg ?_ (runs_pure _ _)
    rw [show (s.on src).keys = false from hkeys]
    exact Bool.false_ne_true
  have hset : Runs (setKeys false) ⟨s, t, n⟩ () ⟨s, t, n⟩ := by
    have h := runs_setKeys (s := s) (t := t) (n := n) false
    rwa [Scan.allow_self hkeys] at h
  exact hsave.bind (hset.bind (hx.bind (runs_push tok)))

/-- Where a key may start. -/
theorem runs_foundPart_key (hkeys : s.keys = true) (hpossible : s.candidate.possible = false)
    (hx : Runs x ⟨s.save.allow false, t, n⟩ tok ⟨s', t', n'⟩) :
    Runs (foundPart x) ⟨s, t, n⟩ () ⟨s'.push tok, t', n'⟩ := by
  have hsave : Runs saveCandidate ⟨s, t, n⟩ () ⟨s.save, t, n⟩ :=
    runs_get_bind fun src _ => runs_if_pos hkeys
      ((runs_dropCandidate hpossible).bind (runs_modify fun _ => rfl))
  exact hsave.bind ((runs_setKeys false).bind (hx.bind (runs_push tok)))

theorem runs_foundBlock {text : Bytes} (hpossible : s.candidate.possible = false)
    (h : Runs (block false) ⟨s.allow true, t, n⟩ text ⟨s', t', n'⟩) :
    Runs (foundBlock false) ⟨s, t, n⟩ () ⟨s'.push (.scalar .literal text), t', n'⟩ :=
  (runs_dropCandidate hpossible).bind ((runs_setKeys true).bind (h.bind (runs_push _)))

theorem runs_roll {column number : Nat} (hflow : s.flow = 0)
    (hdepth : s.indents.length < depthLimit) :
    Runs (roll column .blockMapping fun s t => s.insert number t) ⟨s, t, n⟩ ()
      ⟨s.rolled column number, t, n⟩ := by
  refine runs_get_bind fun src hsrc => ?_
  have hzero : ((s.on src).flow == 0) = true := beq_iff_eq.mpr hflow
  unfold Scan.rolled
  by_cases hless : s.indent < column
  · have hcond : ((s.on src).flow == 0 && decide ((s.on src).indent < column)) = true := by
      rw [hzero, Bool.true_and]
      exact decide_eq_true hless
    refine runs_if_pos hcond (runs_if_neg (Nat.not_le.mpr hdepth) ?_)
    rw [if_pos hless]
    exact runs_set hsrc (Scan.insert_on (s.deepen column) number .blockMapping src)
  · have hcond : ¬ ((s.on src).flow == 0 && decide ((s.on src).indent < column)) = true := by
      rw [hzero, Bool.true_and, decide_eq_true_eq]
      exact hless
    rw [if_neg hless]
    exact runs_if_neg hcond (runs_pure _ _)

/-- A colon behind a candidate. -/
theorem runs_foundColon (hflow : s.flow = 0) (hpossible : s.candidate.possible = true)
    (hfresh : s.isStale s.candidate = false) (hdepth : s.indents.length < depthLimit) :
    Runs foundColon ⟨s, ':' :: t, n + 1⟩ () ⟨(s.keyed.beyond [':']).push .value, t, n⟩ := by
  refine runs_get_bind fun src hsrc => runs_if_pos ?_ ?_
  · rw [Bool.and_eq_true_iff, Bool.not_eq_true']
    exact ⟨hpossible, hfresh⟩
  refine (runs_set hsrc (Scan.insert_on s _ _ src)).bind ?_
  refine (runs_roll (s := s.insert s.candidate.number .key) ?_ ?_).bind ?_
  · rw [Scan.insert_eq]
    exact hflow
  · rw [Scan.insert_eq]
    exact hdepth
  refine (runs_modify (r := s.keyed) fun _ => rfl).bind ?_
  exact (runs_skip rfl).bind (runs_push .value)

/-- The end is found at the start of a line. -/
theorem runs_foundEnd (hcolumn : s.place.column = 0)
    (hpossible : (s.unroll (-1)).candidate.possible = false) :
    Runs foundEnd ⟨s, t, n⟩ () ⟨((s.unroll (-1)).allow false).push .streamEnd, t, n⟩ := by
  have hunroll : Runs (modify fun s : Scan =>
      let place := if s.place.column == 0 then s.place
        else { s.place with line := s.place.line + 1, column := 0 }
      { s with place }.unroll (-1)) ⟨s, t, n⟩ () ⟨s.unroll (-1), t, n⟩ := by
    refine runs_modify fun src => ?_
    rw [Scan.on_place, hcolumn, beq_self_eq_true, if_pos rfl]
    unfold Scan.unroll Scan.on
    split_ifs <;> rfl
  exact hunroll.bind ((runs_dropCandidate hpossible).bind ((runs_setKeys false).bind (runs_push _)))

end Parts

end Reading

end Cascade.Yaml
