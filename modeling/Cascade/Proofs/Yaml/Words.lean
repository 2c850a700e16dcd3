import Cascade.Proofs.Yaml.Reading
import Mathlib.Data.List.Basic

/-!
# Reading plain and quoted scalars

Words and what lies between them, without quotes up to the end of the line, and between quotes.
-/

namespace Cascade.Yaml

def Between.pass (b : Between) (c : Char) : Between :=
  if isGap c then b.addGap c else b.addBreak [c]

theorem Between.foldl_pass_spaces (k : Nat) (gap first more : List Char) (broken : Bool) :
    (List.replicate k ' ').foldl pass ⟨broken, gap, first, more⟩ =
      ⟨broken, if broken then gap else List.replicate k ' ' ++ gap, first, more⟩ := by
  induction k generalizing gap with
  | zero => cases broken <;> rfl
  | succ k ih =>
      rw [List.replicate_succ, List.foldl_cons]
      cases broken with
      | true => exact ih gap
      | false =>
          refine (ih (' ' :: gap)).trans ?_
          rw [if_neg Bool.false_ne_true, if_neg Bool.false_ne_true, List.append_cons,
            ← List.replicate_succ', List.replicate_succ]

theorem isGap_of_isBreak {c : Char} (hc : isBreak c = true) : isGap c = false := by
  rw [isGap, Bool.or_eq_false_iff, beq_eq_false_iff_ne, beq_eq_false_iff_ne]
  constructor <;> rintro rfl <;> exact absurd hc (by decide)

theorem isGap_of_endsWord {c : Char} (h : endsWord c = false) : isGap c = false :=
  (Bool.or_eq_false_iff.mp h).1

theorem isBreak_of_endsWord {c : Char} (h : endsWord c = false) : isBreak c = false :=
  (Bool.or_eq_false_iff.mp (Bool.or_eq_false_iff.mp h).2).2

namespace Reading

variable {s : Scan} {t o : List Char} {b : Between} {n f : Nat}

/-- The blanks between two words are passed one by one. -/
theorem runs_between (indent : Int) {ws : List Char}
    (hws : ∀ c ∈ ws, c = ' ' ∨ isBreak c = true ∧ isPrintable c = true)
    (hgap : isGap (t.headD finish) = false) (hbreak : isBreak (t.headD finish) = false)
    (hfuel : ws.length < f) :
    Runs (between indent f b) ⟨s, ws ++ t, n⟩ (ws.foldl Between.pass b)
      ⟨s.beyond ws, t, 1⟩ := by
  induction ws generalizing f s n b with
  | nil =>
      obtain ⟨f, rfl⟩ := Nat.exists_eq_succ_of_ne_zero (Nat.zero_lt_of_lt hfuel).ne'
      refine runs_next.bind (runs_if_neg (ne_true_of_eq_false hgap) ?_)
      exact runs_if_neg (ne_true_of_eq_false hbreak) (runs_pure _ _)
  | cons c ws ih =>
      obtain ⟨f, rfl⟩ := Nat.exists_eq_succ_of_ne_zero (Nat.zero_lt_of_lt hfuel).ne'
      obtain ⟨hc, hws⟩ := List.forall_mem_cons.mp hws
      have hrest : ∀ n, Runs (between indent f (b.pass c)) ⟨s.beyond [c], ws ++ t, n⟩
          ((c :: ws).foldl Between.pass b) ⟨s.beyond (c :: ws), t, 1⟩ := by
        intro n
        have h := ih (s := s.beyond [c]) (n := n) (b := b.pass c) hws
          (Nat.lt_of_succ_lt_succ hfuel)
        rwa [Scan.beyond_beyond] at h
      refine runs_next.bind ?_
      rcases hc with rfl | ⟨hc, hprint⟩
      · refine runs_if_pos rfl (runs_get_bind fun src _ => runs_if_neg ?_ ?_)
        · simp
        · exact (runs_skip rfl).bind (hrest 0)
      · have hnot := isGap_of_isBreak hc
        have hpass : b.pass c = b.addBreak [c] := if_neg (ne_true_of_eq_false hnot)
        rw [hpass] at hrest
        refine runs_if_neg (ne_true_of_eq_false hnot) (runs_if_pos hc ?_)
        exact (runs_takeLine hc hprint).bind (hrest 1)

/-! ## Plain scalars -/

/-- The word ends where `rest` starts, and not before. -/
def IsPlainWord (rest : List Char) : List Char → Prop
  | [] => (endsWord (rest.headD finish) ||
      endsPlain false (rest.headD finish) ((rest.drop 1).headD finish)) = true
  | c :: w => (endsWord c || endsPlain false c ((w ++ rest).headD finish)) = false ∧
      IsPlainWord rest w

theorem runs_plainWord {w rest : List Char} (hw : IsPlainWord rest w) (hfuel : w.length < f) :
    Runs (plainWord false f o b) ⟨s, w ++ rest, 2⟩
      (if w.isEmpty then (o, b) else (w.reverse ++ (b.reversed ++ o), .nothing))
      ⟨s.beyond w, rest, 2⟩ := by
  induction w generalizing f s o b with
  | nil =>
      obtain ⟨f, rfl⟩ := Nat.exists_eq_succ_of_ne_zero (Nat.zero_lt_of_lt hfuel).ne'
      refine (runs_look Nat.zero_lt_two).bind ((runs_look Nat.one_lt_two).bind ?_)
      exact runs_if_pos hw (runs_pure _ _)
  | cons c w ih =>
      obtain ⟨f, rfl⟩ := Nat.exists_eq_succ_of_ne_zero (Nat.zero_lt_of_lt hfuel).ne'
      obtain ⟨hc, hw⟩ := hw
      have hbreak := isBreak_of_endsWord (Bool.or_eq_false_iff.mp hc).1
      refine (runs_look Nat.zero_lt_two).bind ((runs_look Nat.one_lt_two).bind ?_)
      refine runs_if_neg (ne_true_of_eq_false hc) ((runs_skip hbreak).bind ?_)
      refine (runs_need 2).bind ?_
      have h := ih (s := s.beyond [c]) (o := c :: (b.reversed ++ o)) (b := .nothing) hw
        (Nat.lt_of_succ_lt_succ hfuel)
      rw [Scan.beyond_beyond] at h
      -- Behind the first character nothing lies between it and the rest of the word.
      have hresult : (if w.isEmpty then (c :: (b.reversed ++ o), Between.nothing)
          else (w.reverse ++ (Between.nothing.reversed ++ c :: (b.reversed ++ o)), .nothing)) =
            ((c :: w).reverse ++ (b.reversed ++ o), Between.nothing) := by
        cases w with
        | nil => rfl
        | cons d w => simp [Between.reversed, Between.nothing]
      rw [hresult] at h
      exact h

/-- A word, the spaces behind it and the rest of a line. -/
theorem exists_word (cs : List Char) :
    ∃ w k cs', cs = w ++ (List.replicate k ' ' ++ cs') ∧ ' ' ∉ w ∧ cs'.head? ≠ some ' ' ∧
      (k = 0 → cs' = []) := by
  induction cs with
  | nil => exact ⟨[], 0, [], rfl, List.not_mem_nil, by simp, fun _ => rfl⟩
  | cons c cs ih =>
      obtain ⟨w, k, cs', rfl, hw, hhead, hend⟩ := ih
      by_cases hc : c = ' '
      · subst hc
        cases w with
        | nil => exact ⟨[], k + 1, cs', rfl, List.not_mem_nil, hhead, fun h => by omega⟩
        | cons d w =>
            refine ⟨[], 1, _, rfl, List.not_mem_nil, ?_, fun h => by omega⟩
            rintro ⟨⟩
            exact hw List.mem_cons_self
      · exact ⟨c :: w, k, cs', rfl, by simp [Ne.symm hc, hw], hhead, hend⟩

theorem isPlainWord_of_marks {behind : Char} {w u : List Char}
    (hmarks : marksInside behind (w ++ u) = false) (hw : ∀ c ∈ w, endsWord c = false)
    (hu : u = [] ∨ u.head? = some ' ') (ht : endsWord (t.headD finish) = true) :
    IsPlainWord t w := by
  induction w generalizing behind with
  | nil =>
      rw [IsPlainWord, ht, Bool.true_or]
  | cons c w ih =>
      obtain ⟨hc, hw⟩ := List.forall_mem_cons.mp hw
      rw [List.cons_append, marksInside, Bool.or_eq_false_iff, Bool.or_eq_false_iff] at hmarks
      obtain ⟨⟨hcolon, -⟩, hmarks⟩ := hmarks
      refine ⟨?_, ih hmarks hw⟩
      rw [hc, Bool.false_or, endsPlain, Bool.false_and, Bool.or_false]
      rcases Bool.and_eq_false_iff.mp hcolon with hne | hgap
      · rw [hne, Bool.false_and]
      · -- What follows a colon belongs to the word.
        cases w with
        | nil =>
            rcases hu with rfl | hu
            · exact absurd hgap (by simp [gapFollows])
            · obtain ⟨u, rfl⟩ := List.head?_eq_some_iff.mp hu
              exact absurd hgap (by simp [gapFollows])
        | cons d w =>
            show (c == ':' && endsWord d) = false
            rw [hw d List.mem_cons_self, Bool.and_false]

theorem ne_hash_of_marks {c : Char} {cs : List Char} (h : marksInside ' ' (c :: cs) = false) :
    c ≠ '#' := by
  rintro rfl
  rw [marksInside, Bool.or_eq_false_iff, Bool.or_eq_false_iff] at h
  exact absurd h.1.2 (by decide)

theorem marksInside_of_append {behind c : Char} {u v : List Char}
    (h : marksInside behind (u ++ c :: v) = false) : marksInside c v = false := by
  induction u generalizing behind with
  | nil =>
      rw [List.nil_append, marksInside, Bool.or_eq_false_iff] at h
      exact h.2
  | cons d u ih =>
      rw [List.cons_append, marksInside, Bool.or_eq_false_iff] at h
      exact ih h.2

structure IsWord (w : List Char) : Prop where
  ne : w ≠ []
  mark : w.head? ≠ some '#'
  chars : ∀ c ∈ w, endsWord c = false
  plain : ∀ {t : List Char}, endsWord (t.headD finish) = true → IsPlainWord t w

inductive Words : List Char → Prop
  | last {w : List Char} : IsWord w → Words w
  | cons {w cs : List Char} (m : Nat) :
      IsWord w → Words cs → Words (w ++ (List.replicate (m + 1) ' ' ++ cs))

theorem IsWord.endsWord_headD {w : List Char} (h : IsWord w) (t : List Char) :
    endsWord ((w ++ t).headD finish) = false := by
  obtain ⟨c, w, rfl⟩ := List.exists_cons_of_ne_nil h.ne
  exact h.chars c List.mem_cons_self

theorem Words.endsWord_headD {cs : List Char} (h : Words cs) (t : List Char) :
    endsWord ((cs ++ t).headD finish) = false := by
  cases h with
  | last hw => exact hw.endsWord_headD t
  | cons m hw _ =>
      rw [List.append_assoc]
      exact hw.endsWord_headD _

/-- A line without blanks around it and marks inside is made of words. -/
theorem words_of_marks {cs : List Char} (hne : cs ≠ [])
    (hcs : ∀ c ∈ cs, c = ' ' ∨ endsWord c = false) (hhead : cs.head? ≠ some ' ')
    (hlast : cs.getLast? ≠ some ' ') (hmarks : marksInside ' ' cs = false) : Words cs := by
  induction hn : cs.length using Nat.strong_induction_on generalizing cs with
  | _ n ih =>
      obtain ⟨w, m, cs', rfl, hspace, hhead', hend⟩ := exists_word cs
      have hw : ∀ c ∈ w, endsWord c = false := fun c hc =>
        (hcs c (List.mem_append_left _ hc)).resolve_left fun h => hspace (h ▸ hc)
      have hwne : w ≠ [] := by
        rintro rfl
        cases m with
        | zero => exact hne (hend rfl)
        | succ m => exact hhead rfl
      have hmark : w.head? ≠ some '#' := by
        obtain ⟨c, w, rfl⟩ := List.exists_cons_of_ne_nil hwne
        exact fun h => ne_hash_of_marks hmarks (Option.some.inj h)
      cases m with
      | zero =>
          obtain rfl := hend rfl
          rw [List.replicate_zero, List.nil_append, List.append_nil] at *
          rw [← List.append_nil w] at hmarks
          exact .last ⟨hwne, hmark, hw, isPlainWord_of_marks hmarks hw (Or.inl rfl)⟩
      | succ m =>
          have hsplit : w ++ (List.replicate (m + 1) ' ' ++ cs') =
              w ++ List.replicate m ' ' ++ ' ' :: cs' := by
            rw [List.replicate_succ', List.append_assoc, List.append_assoc, List.singleton_append]
          have hcs' : cs' ≠ [] := by
            rintro rfl
            exact hlast (by rw [hsplit, List.getLast?_concat])
          have hlast' : cs'.getLast? ≠ some ' ' := by
            rwa [List.getLast?_append_of_ne_nil _ (by simp [hcs']),
              List.getLast?_append_of_ne_nil _ hcs'] at hlast
          refine .cons m ⟨hwne, hmark, hw, isPlainWord_of_marks hmarks hw (Or.inr rfl)⟩ ?_
          refine ih cs'.length ?_ hcs' (fun c hc => hcs c (by simp [hc])) hhead' hlast'
            (marksInside_of_append (hsplit ▸ hmarks)) rfl
          simp only [List.length_append, List.length_replicate] at hn
          omega

theorem column_beyond {cs : List Char} (h : ∀ c ∈ cs, isBreak c = false) :
    (s.beyond cs).place.column = s.place.column + cs.length :=
  congrArg Place.column (Place.foldl_past h s.place)

/-- Behind a line break a line starts. -/
theorem column_beyond_break {b : Char} (hb : isBreak b = true) (u : List Char) :
    (s.beyond (u ++ [b])).place.column = 0 := by
  rw [← Scan.beyond_beyond]
  show ((s.beyond u).place.past b).column = 0
  rw [Place.past, if_pos hb]

/-- A word of a plain scalar and the blanks behind it. -/
theorem runs_plainFrom_word {indent : Int} {w ws : List Char} {v : View}
    {r : List Char × Between} (hw : IsWord w) (hwsne : ws ≠ [])
    (hws : ∀ c ∈ ws, c = ' ' ∨ c = '\n')
    (hgap : isGap (t.headD finish) = false) (hbreak : isBreak (t.headD finish) = false)
    (hcolumn : s.place.column ≠ 0) (hlimit : w.length + ws.length < s.limit)
    (h : Runs (if (s.beyond (w ++ ws)).place.column < indent
        then pure (w.reverse ++ (b.reversed ++ o), ws.foldl Between.pass .nothing)
        else plainFrom false indent f (w.reverse ++ (b.reversed ++ o))
          (ws.foldl Between.pass .nothing)) ⟨s.beyond (w ++ ws), t, 1⟩ r v) :
    Runs (plainFrom false indent (f + 1) o b) ⟨s, w ++ (ws ++ t), n⟩ r v := by
  have hblank : (isGap ((ws ++ t).headD finish) || isBreak ((ws ++ t).headD finish)) = true ∧
      endsWord ((ws ++ t).headD finish) = true := by
    obtain ⟨c, ws, rfl⟩ := List.exists_cons_of_ne_nil hwsne
    rcases hws c List.mem_cons_self with rfl | rfl <;> exact ⟨rfl, rfl⟩
  have hread := runs_plainWord (s := s) (o := o) (b := b) (f := s.limit) (hw.plain hblank.2)
    (by omega)
  rw [if_neg (by simpa using hw.ne)] at hread
  have hbetween := runs_between (s := s.beyond w) (n := 2) (b := .nothing) indent
    (f := s.limit) (fun c hc => (hws c hc).imp_right (by rintro rfl; exact ⟨rfl, rfl⟩)) hgap
    hbreak (by omega)
  rw [Scan.beyond_beyond] at hbetween
  have hfirst : (w ++ (ws ++ t)).headD finish ≠ '#' := by
    obtain ⟨c, w, rfl⟩ := List.exists_cons_of_ne_nil hw.ne
    exact fun h => hw.mark (by rw [← h]; rfl)
  refine (runs_need 4).bind ((runs_atMarker (Or.inl hcolumn)).bind ?_)
  refine (runs_look (by decide)).bind (runs_if_neg (by simpa using hfirst) ?_)
  refine runs_fuel.bind ((hread.of_known (by decide)).bind ?_)
  refine (runs_look Nat.zero_lt_two).bind (runs_if_pos hblank.1 (runs_fuel.bind ?_))
  refine hbetween.bind (runs_get_bind fun src _ => ?_)
  by_cases hless : ((s.beyond (w ++ ws)).place.column : Int) < indent
  · rw [if_pos hless] at h
    exact runs_if_pos (decide_eq_true hless) h
  · rw [if_neg hless] at h
    exact runs_if_neg (ne_true_of_eq_false (decide_eq_false hless)) h

/-- A plain scalar that ends with its line. The blanks on the next line are passed too. -/
theorem runs_plainFrom (indent : Int) {cs rest : List Char} {k : Nat} (hcs : Words cs)
    (hrest : isStart (rest.headD finish) = true) (hk : k < indent)
    (hcolumn : indent ≤ s.place.column) (hfuel : cs.length < f)
    (hlimit : cs.length + k + 1 < s.limit) :
    Runs (plainFrom false indent f o b) ⟨s, cs ++ ('\n' :: List.replicate k ' ' ++ rest), n⟩
      (cs.reverse ++ (b.reversed ++ o), ⟨true, [], ['\n'], []⟩)
      ⟨s.beyond (cs ++ '\n' :: List.replicate k ' '), rest, 1⟩ := by
  induction hcs generalizing f s o b n with
  | @last w hw =>
      obtain ⟨f, rfl⟩ := Nat.exists_eq_succ_of_ne_zero (Nat.zero_lt_of_lt hfuel).ne'
      obtain ⟨hgap, hbreak, -⟩ := isStart_iff.mp hrest
      have hnext : (s.beyond (w ++ '\n' :: List.replicate k ' ')).place.column = k := by
        rw [← Scan.beyond_beyond]
        exact Place.foldl_past_line _
      have hpass : ('\n' :: List.replicate k ' ').foldl Between.pass .nothing =
          ⟨true, [], ['\n'], []⟩ := Between.foldl_pass_spaces k [] ['\n'] [] true
      -- the next line starts left of the scalar, which ends here
      refine runs_plainFrom_word hw (List.cons_ne_nil _ _)
        (List.forall_mem_cons.mpr
          ⟨Or.inr rfl, fun c hc => Or.inl (List.eq_of_mem_replicate hc)⟩) hgap hbreak (by omega)
        (by simp; omega) (runs_if_pos (by rwa [hnext]) ?_)
      rw [hpass]
      exact runs_pure _ _
  | @cons w cs m hw hcs ih =>
      obtain ⟨f, rfl⟩ := Nat.exists_eq_succ_of_ne_zero (Nat.zero_lt_of_lt hfuel).ne'
      simp only [List.length_append, List.length_replicate] at hfuel hlimit
      have hhead := hcs.endsWord_headD ('\n' :: List.replicate k ' ' ++ rest)
      have hpass : (List.replicate (m + 1) ' ').foldl Between.pass .nothing =
          ⟨false, List.replicate (m + 1) ' ', [], []⟩ := by
        rw [Between.nothing, Between.foldl_pass_spaces, if_neg Bool.false_ne_true,
          List.append_nil]
      have hmoved : (s.beyond (w ++ List.replicate (m + 1) ' ')).place.column =
          s.place.column + (w ++ List.replicate (m + 1) ' ').length := by
        refine column_beyond (List.forall_mem_append.mpr
          ⟨fun c hc => isBreak_of_endsWord (hw.chars c hc), fun c hc => ?_⟩)
        rw [List.eq_of_mem_replicate hc]
        rfl
      -- the spaces wait in front of the next word
      have hrec := ih (s := s.beyond (w ++ List.replicate (m + 1) ' ')) (n := 1) (f := f)
        (o := w.reverse ++ (b.reversed ++ o)) (b := ⟨false, List.replicate (m + 1) ' ', [], []⟩)
        (by omega) (by omega) (by show _ < s.limit; omega)
      have hout : (w ++ (List.replicate (m + 1) ' ' ++ cs)).reverse ++ (b.reversed ++ o) =
          cs.reverse ++ (List.replicate (m + 1) ' ' ++ (w.reverse ++ (b.reversed ++ o))) := by
        simp
      rw [List.append_assoc, List.append_assoc, hout]
      refine runs_plainFrom_word hw (by simp) (fun c hc => Or.inl (List.eq_of_mem_replicate hc))
        (isGap_of_endsWord hhead) (isBreak_of_endsWord hhead) (by omega)
        (by rw [List.length_replicate]; omega) (runs_if_neg (by omega) ?_)
      rw [hpass]
      rw [List.append_assoc, List.append_assoc]
      rwa [Scan.beyond_beyond, List.append_assoc] at hrec

/-- A plain scalar up to the end of its line. A key may start on the next line. -/
theorem runs_plain {cs rest : List Char} {k : Nat} (hflow : s.flow = 0) (hcs : Words cs)
    (hrest : isStart (rest.headD finish) = true) (hk : k ≤ s.indent)
    (hcolumn : s.indent < s.place.column) (hlimit : cs.length + k + 1 < s.limit) :
    Runs plain ⟨s, cs ++ ('\n' :: List.replicate k ' ' ++ rest), n⟩ (Utf8.ofChars cs)
      ⟨(s.beyond (cs ++ '\n' :: List.replicate k ' ')).allow true, rest, 1⟩ := by
  refine runs_get_bind fun src _ => runs_fuel.bind ?_
  have hread := runs_plainFrom (s := s) (n := n) (o := []) (b := .nothing) (f := s.limit)
    (s.indent + 1) hcs hrest (by omega) (by omega) (by omega) hlimit
  rw [show decide (0 < (s.on src).flow) = false from decide_eq_false (by rw [Scan.on, hflow]; simp)]
  refine hread.bind (runs_if_pos rfl ?_)
  refine (runs_modify (r := (s.beyond (cs ++ '\n' :: List.replicate k ' ')).allow true)
    fun _ => rfl).bind ?_
  simpa [Between.reversed, Between.nothing] using runs_pure _ _

/-! ## Names of keys -/

def isLetter (c : Char) : Bool := 'a' ≤ c && c ≤ 'z'

/-- What holds of every letter holds of all characters that are letters. -/
theorem forall_letter {p : Char → Bool}
    (h : ∀ n : Fin 26, p (Char.ofNat (0x61 + n.val)) = true) {c : Char} (hc : isLetter c = true) :
    p c = true := by
  rw [isLetter, Bool.and_eq_true, decide_eq_true_eq, decide_eq_true_eq] at hc
  have hlow : 0x61 ≤ c.toNat := hc.1
  have hhigh : c.toNat ≤ 0x7A := hc.2
  have hp := h ⟨c.toNat - 0x61, by omega⟩
  rwa [show 0x61 + (c.toNat - 0x61) = c.toNat by omega, Char.ofNat_toNat] at hp

theorem endsWord_of_isLetter {c : Char} (hc : isLetter c = true) : endsWord c = false := by
  have h := forall_letter (p := fun c => !endsWord c) (by decide) hc
  simpa using h

theorem ne_of_isLetter {c d : Char} (hc : isLetter c = true) (hd : isLetter d = false) :
    c ≠ d := by
  rintro rfl
  rw [hc] at hd
  cases hd

theorem isPlainWord_key {w : List Char} (hw : ∀ c ∈ w, isLetter c = true)
    (ht : endsWord (t.headD finish) = true) : IsPlainWord (':' :: t) w := by
  induction w with
  | nil =>
      show (endsWord ':' || endsPlain false ':' (t.headD finish)) = true
      rw [endsPlain, ht]
      rfl
  | cons c w ih =>
      obtain ⟨hc, hw⟩ := List.forall_mem_cons.mp hw
      refine ⟨?_, ih hw⟩
      rw [endsWord_of_isLetter hc, endsPlain, beq_false_of_ne (ne_of_isLetter hc rfl)]
      rfl

/-- The name of a key ends before its colon. -/
theorem runs_plain_key {w : List Char} (hflow : s.flow = 0) (hne : w ≠ [])
    (hw : ∀ c ∈ w, isLetter c = true) (ht : endsWord (t.headD finish) = true)
    (hlimit : w.length < s.limit) :
    Runs plain ⟨s, w ++ ':' :: t, n⟩ (Utf8.ofChars w) ⟨s.beyond w, ':' :: t, 2⟩ := by
  have hletter : isLetter ((w ++ ':' :: t).headD finish) = true := by
    obtain ⟨c, w, rfl⟩ := List.exists_cons_of_ne_nil hne
    exact hw c List.mem_cons_self
  have hread := runs_plainWord (s := s) (o := []) (b := .nothing) (f := s.limit)
    (isPlainWord_key hw ht) hlimit
  rw [if_neg (by simpa using hne)] at hread
  refine runs_get_bind fun src _ => runs_fuel.bind ?_
  rw [show decide (0 < (s.on src).flow) = false from decide_eq_false (by rw [Scan.on, hflow]; simp)]
  obtain ⟨f, hfuel⟩ := Nat.exists_eq_succ_of_ne_zero (Nat.zero_lt_of_lt hlimit).ne'
  have hfrom : Runs (plainFrom false (s.indent + 1) s.limit [] .nothing) ⟨s, w ++ ':' :: t, n⟩
      (w.reverse, .nothing) ⟨s.beyond w, ':' :: t, 2⟩ := by
    rw [hfuel]
    refine (runs_need 4).bind ((runs_atMarker (Or.inr ⟨by decide, ne_of_isLetter hletter rfl,
      ne_of_isLetter hletter rfl⟩)).bind ?_)
    refine (runs_look (by decide)).bind (runs_if_neg ?_ ?_)
    · simpa using ne_of_isLetter hletter rfl
    · refine runs_fuel.bind ((hread.of_known (by decide)).bind ?_)
      refine (runs_look Nat.zero_lt_two).bind (runs_if_neg Bool.false_ne_true ?_)
      simpa [Between.reversed, Between.nothing] using runs_pure _ _
  refine hfrom.bind (runs_if_neg Bool.false_ne_true ?_)
  simpa using runs_pure _ _

end Reading

end Cascade.Yaml
