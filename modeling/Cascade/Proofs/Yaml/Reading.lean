import Cascade.Yaml.Printer
import Cascade.Yaml.Queue
import Cascade.Proofs.Yaml.Source

/-!
# Steps of reading

A step of reading takes a scan and the characters that are still to come to another scan and
fewer characters. How the source holds these characters does not matter.
-/

namespace Cascade.Yaml

def Place.past (p : Place) (c : Char) : Place :=
  if isBreak c then ⟨p.index + 1, p.line + 1, 0⟩
  else { p with index := p.index + 1, column := p.column + 1 }

namespace Place

/-- Characters that end no line move the place along its line. -/
theorem foldl_past {cs : List Char} (h : ∀ c ∈ cs, isBreak c = false) (p : Place) :
    cs.foldl past p = ⟨p.index + cs.length, p.line, p.column + cs.length⟩ := by
  induction cs generalizing p with
  | nil => rfl
  | cons c cs ih =>
      obtain ⟨hc, hcs⟩ := List.forall_mem_cons.mp h
      rw [List.foldl_cons, ih hcs, past, hc, if_neg Bool.false_ne_true, List.length_cons]
      simp only [Place.mk.injEq, true_and]
      omega

theorem foldl_past_line {m : Nat} (p : Place) :
    (('\n' :: List.replicate m ' ').foldl past p).column = m := by
  rw [List.foldl_cons, foldl_past fun c hc => by rw [List.eq_of_mem_replicate hc]; rfl]
  exact (Nat.zero_add _).trans List.length_replicate

end Place

namespace Scan

def on (s : Scan) (src : Source) : Scan := { s with source := src }

def beyond (s : Scan) (cs : List Char) : Scan :=
  { s with
    place := cs.foldl Place.past s.place
    fresh := cs.foldl (fun fresh c => isBreak c || fresh && isGap c) s.fresh }

def allow (s : Scan) (keys : Bool) : Scan := { s with keys }

@[simp]
theorem on_place (s : Scan) (src : Source) : (s.on src).place = s.place := rfl

@[simp]
theorem beyond_nil (s : Scan) : s.beyond [] = s := rfl

theorem beyond_beyond (s : Scan) (cs ds : List Char) :
    (s.beyond cs).beyond ds = s.beyond (cs ++ ds) := by
  unfold beyond
  rw [List.foldl_append, List.foldl_append]

end Scan

/-- A scan, the characters that are still to come, and how many of them are known. -/
structure View where
  scan : Scan
  chars : List Char
  known : Nat

namespace Reading

/-- From one view, the step gives `a` and comes to the other view. -/
def Runs {α : Type} (x : Reading α) (v : View) (a : α) (v' : View) : Prop :=
  ∀ src, src.Holds v.chars v.known →
    ∃ src', src'.Holds v'.chars v'.known ∧ x.run (v.scan.on src) = .ok (a, v'.scan.on src')

section Rules

variable {α β : Type} {x : Reading α} {f : α → Reading β} {a : α} {b : β} {v v' v'' : View}
  {s s' : Scan} {t t' : List Char} {c : Char} {n n' m : Nat}

theorem runs_pure (a : α) (v : View) : Runs (pure a) v a v := fun src h => ⟨src, h, rfl⟩

theorem Runs.bind (h : Runs x v a v') (hf : Runs (f a) v' b v'') : Runs (x >>= f) v b v'' := by
  intro src hsrc
  obtain ⟨src', hsrc', hx⟩ := h src hsrc
  obtain ⟨src'', hsrc'', hrun⟩ := hf src' hsrc'
  refine ⟨src'', hsrc'', ?_⟩
  rw [StateT.run_bind, hx]
  exact hrun

theorem runs_if_pos {p : Prop} [Decidable p] {x y : Reading α} (hp : p) (h : Runs x v a v') :
    Runs (if p then x else y) v a v' := by
  rwa [if_pos hp]

theorem runs_if_neg {p : Prop} [Decidable p] {x y : Reading α} (hp : ¬ p) (h : Runs y v a v') :
    Runs (if p then x else y) v a v' := by
  rwa [if_neg hp]

/-- What is known may be forgotten. -/
theorem Runs.forget (h : Runs x v a ⟨s', t', n'⟩) (hn : m ≤ n') : Runs x v a ⟨s', t', m⟩ := by
  intro src hsrc
  obtain ⟨src', hsrc', hrun⟩ := h src hsrc
  exact ⟨src', hsrc'.mono hn, hrun⟩

theorem Runs.of_known (h : Runs x ⟨s, t, n⟩ a v') (hn : n ≤ m) : Runs x ⟨s, t, m⟩ a v' :=
  fun src hsrc => h src (hsrc.mono hn)

/-- The scan at hand, of which the source is not known in full. -/
theorem runs_get_bind {f : Scan → Reading β}
    (h : ∀ src, src.Holds t n → Runs (f (s.on src)) ⟨s, t, n⟩ b v') :
    Runs (get >>= f) ⟨s, t, n⟩ b v' :=
  fun src hsrc => h src hsrc src hsrc

theorem runs_set {w : Scan} {src : Source} (h : src.Holds t' n') (hw : w = s'.on src) :
    Runs (set w) v () ⟨s', t', n'⟩ :=
  fun _ _ => ⟨src, h, by rw [← hw]; rfl⟩

theorem runs_modify {f : Scan → Scan} {r : Scan} (h : ∀ src, f (s.on src) = r.on src) :
    Runs (modify f) ⟨s, t, n⟩ () ⟨r, t, n⟩ :=
  fun src hsrc => ⟨src, hsrc, congrArg (fun w => Except.ok ((), w)) (h src)⟩

theorem runs_fuel : Runs fuel ⟨s, t, n⟩ s.limit ⟨s, t, n⟩ := fun src h => ⟨src, h, rfl⟩

theorem runs_need (m : Nat) : Runs (need m) ⟨s, t, n⟩ () ⟨s, t, m⟩ := by
  intro src hsrc
  obtain ⟨src', hneed, hsrc'⟩ := hsrc.need m
  refine ⟨src', hsrc'.mono (Nat.le_max_right n m), ?_⟩
  show (liftM (src.need m) >>= fun source => set { s.on src with source } : Reading Unit).run
    (s.on src) = _
  rw [hneed]
  rfl

theorem runs_look {k : Nat} (hk : k < n) :
    Runs (look k) ⟨s, t, n⟩ ((t.drop k).headD finish) ⟨s, t, n⟩ :=
  fun src hsrc => ⟨src, hsrc, congrArg (fun c => Except.ok (c, s.on src)) (hsrc.look_eq hk)⟩

theorem runs_next : Runs next ⟨s, t, n⟩ (t.headD finish) ⟨s, t, 1⟩ :=
  (runs_need 1).bind (runs_look Nat.zero_lt_one)

theorem runs_skip (hc : isBreak c = false) :
    Runs skip ⟨s, c :: t, n + 1⟩ () ⟨s.beyond [c], t, n⟩ := by
  intro src hsrc
  refine ⟨src.drop 1, hsrc.drop (Nat.succ_pos n), ?_⟩
  have hlook : src.look 0 = c := hsrc.look_eq (Nat.succ_pos n)
  show Except.ok ((), _) = _
  simp [Scan.on, Scan.beyond, Place.past, hc, hlook]

/-- A line break that is one character. -/
theorem runs_skipLine (hc : isBreak c = true) (hr : c ≠ '\r') :
    Runs skipLine ⟨s, c :: t, n⟩ () ⟨s.beyond [c], t, 1⟩ := by
  refine (runs_need 2).bind (runs_get_bind fun src hsrc => ?_)
  have hlook : src.look 0 = c := hsrc.look_eq Nat.zero_lt_two
  have hone : ((s.on src).source.look 0 == '\r' && (s.on src).source.look 1 == '\n') = false := by
    show (src.look 0 == '\r' && _) = false
    rw [hlook, beq_false_of_ne hr, Bool.false_and]
  have hbreak : isBreak ((s.on src).source.look 0) = true := hlook.symm ▸ hc
  dsimp only
  rw [hone, hbreak, if_pos rfl, if_neg Bool.false_ne_true]
  refine runs_set (hsrc.drop Nat.zero_lt_two) ?_
  simp [Scan.on, Scan.beyond, Place.past, hc]

/-- A line break that documents are written with reads as itself. -/
theorem runs_takeLine (hc : isBreak c = true) (hp : isPrintable c = true) :
    Runs takeLine ⟨s, c :: t, n⟩ [c] ⟨s.beyond [c], t, 1⟩ := by
  have hcases : c = '\n' ∨ c.toNat = 0x2028 ∨ c.toNat = 0x2029 := by
    simp only [isBreak, isPrintable, Bool.or_eq_true, Bool.and_eq_true, beq_iff_eq,
      decide_eq_true_eq, bne_iff_ne] at hc hp
    by_cases h : c.toNat = 0x0A
    · exact Or.inl (Char.toNat_inj.mp h)
    · omega
  have hr : c ≠ '\r' := by
    rintro rfl
    revert hp
    decide
  refine (runs_need 2).bind ((runs_look Nat.zero_lt_two).bind ((runs_skipLine hc hr).bind ?_))
  rw [List.drop_zero, List.headD_cons, hc, Bool.not_true, if_neg Bool.false_ne_true]
  rcases hcases with rfl | h | h
  · exact runs_pure _ _
  · rw [h]
    exact runs_pure _ _
  · rw [h]
    exact runs_pure _ _

theorem runs_takeWhileFrom {p : Char → Bool} {w : List Char} {f : Nat} (out : List Char)
    (hw : ∀ c ∈ w, (p c && c != finish) = true ∧ isBreak c = false)
    (ht : (p (t.headD finish) && t.headD finish != finish) = false) (hfuel : w.length < f) :
    Runs (takeWhileFrom p f out) ⟨s, w ++ t, n⟩ (w.reverse ++ out) ⟨s.beyond w, t, 1⟩ := by
  induction w generalizing f out s n with
  | nil =>
      cases f with
      | zero => cases hfuel
      | succ f =>
          refine runs_next.bind ?_
          rw [List.nil_append, ht, if_neg Bool.false_ne_true]
          exact runs_pure _ _
  | cons c w ih =>
      obtain ⟨⟨hp, hc⟩, hw⟩ := List.forall_mem_cons.mp hw
      cases f with
      | zero => cases hfuel
      | succ f =>
          refine runs_next.bind ?_
          rw [List.cons_append, List.headD_cons, hp, if_pos rfl]
          refine (runs_skip hc).bind ?_
          rw [List.reverse_cons, List.append_assoc]
          have h := ih (s := s.beyond [c]) (n := 0) (c :: out) hw (Nat.lt_of_succ_lt_succ hfuel)
          rwa [Scan.beyond_beyond] at h

theorem runs_takeWhile {p : Char → Bool} {w : List Char}
    (hw : ∀ c ∈ w, (p c && c != finish) = true ∧ isBreak c = false)
    (ht : (p (t.headD finish) && t.headD finish != finish) = false)
    (hlimit : w.length < s.limit) :
    Runs (takeWhile p) ⟨s, w ++ t, n⟩ w ⟨s.beyond w, t, 1⟩ := by
  have h := runs_takeWhileFrom (s := s) (n := n) [] hw ht hlimit
  rw [List.append_nil] at h
  refine runs_fuel.bind (h.bind ?_)
  rw [List.reverse_reverse]
  exact runs_pure _ _

end Rules

/-! ## What lies between tokens -/

def isStart (c : Char) : Bool := !(isGap c || isBreak c || c == '#')

section Between

variable {s : Scan} {t : List Char} {n : Nat}

theorem isStart_iff {c : Char} :
    isStart c = true ↔ isGap c = false ∧ isBreak c = false ∧ c ≠ '#' := by
  unfold isStart
  rw [Bool.not_eq_true', Bool.or_eq_false_iff, Bool.or_eq_false_iff, and_assoc, beq_eq_false_iff_ne]

theorem runs_atMarker
    (h : s.place.column ≠ 0 ∨ 0 < n ∧ t.headD finish ≠ '-' ∧ t.headD finish ≠ '.') :
    Runs atMarker ⟨s, t, n⟩ false ⟨s, t, n⟩ := by
  refine runs_get_bind fun src hsrc => ?_
  dsimp only
  have hfalse : ((s.on src).place.column == 0 &&
      ((s.on src).source.look 0 == '-' || (s.on src).source.look 0 == '.')) = false := by
    rcases h with h | ⟨hn, hdash, hperiod⟩
    · rw [show (s.on src).place.column = s.place.column from rfl, beq_false_of_ne h,
        Bool.false_and]
    · have hlook : (s.on src).source.look 0 = t.headD finish := hsrc.look_eq hn
      rw [hlook, beq_false_of_ne hdash, beq_false_of_ne hperiod, Bool.or_false, Bool.and_false]
  rw [hfalse, Bool.false_and, Bool.false_and, Bool.false_and]
  exact runs_pure _ _

/-- There is no comment behind blanks if something else is there. -/
theorem runs_commentAhead {gaps rest : List Char} {k : Nat} (hgaps : ∀ c ∈ gaps, isGap c = true)
    (ht : t.drop k = gaps ++ rest) (hgap : isGap (rest.headD finish) = false)
    (hmark : rest.headD finish ≠ '#') (fuel : Nat) :
    Runs (commentAhead (fun _ => false) fuel k) ⟨s, t, n⟩ none ⟨s, t, 0⟩ := by
  induction fuel generalizing k gaps n with
  | zero => exact (runs_pure _ _).forget (Nat.zero_le n)
  | succ fuel ih =>
      refine (runs_need (k + 1)).bind ((runs_look (Nat.lt_succ_self k)).bind ?_)
      rw [ht, Bool.or_false]
      cases gaps with
      | nil =>
          rw [List.nil_append, hgap, if_neg Bool.false_ne_true, beq_false_of_ne hmark,
            if_neg Bool.false_ne_true]
          exact (runs_pure _ _).forget (Nat.zero_le _)
      | cons c gaps =>
          obtain ⟨hc, hgaps⟩ := List.forall_mem_cons.mp hgaps
          rw [List.cons_append, List.headD_cons, hc, if_pos rfl]
          refine ih hgaps ?_
          rw [← List.drop_drop, ht]
          rfl

/-- No comment is passed at the start of a line, or if something else is on the line. -/
theorem runs_lineComment {gaps rest : List Char} (hgaps : ∀ c ∈ gaps, isGap c = true)
    (hgap : isGap (rest.headD finish) = false) (hmark : rest.headD finish ≠ '#') :
    Runs lineComment ⟨s, gaps ++ rest, n⟩ () ⟨s, gaps ++ rest, 0⟩ := by
  refine runs_get_bind fun src _ => ?_
  show Runs (if (!s.fresh) = true then _ else _) _ _ _
  cases s.fresh with
  | true => exact (runs_pure _ _).forget (Nat.zero_le n)
  | false =>
      rw [Bool.not_false, if_pos rfl]
      exact (runs_commentAhead (k := 0) hgaps rfl hgap hmark horizon).bind (runs_pure _ _)

theorem runs_skipBlanks {k fuel : Nat} (ht : isGap (t.headD finish) = false) (hfuel : k < fuel) :
    Runs (skipBlanks fuel) ⟨s, List.replicate k ' ' ++ t, n⟩ ()
      ⟨s.beyond (List.replicate k ' '), t, 1⟩ := by
  induction k generalizing fuel s n with
  | zero =>
      cases fuel with
      | zero => cases hfuel
      | succ fuel =>
          obtain ⟨hspace, htab⟩ := Bool.or_eq_false_iff.mp ht
          refine runs_next.bind (runs_get_bind fun src _ => ?_)
          rw [List.replicate_zero, List.nil_append, hspace, htab, Bool.false_and, Bool.false_or,
            if_neg Bool.false_ne_true]
          exact runs_pure _ _
  | succ k ih =>
      cases fuel with
      | zero => cases hfuel
      | succ fuel =>
          refine runs_next.bind (runs_get_bind fun src _ => ?_)
          rw [List.replicate_succ, List.cons_append, List.headD_cons, BEq.rfl, Bool.true_or,
            if_pos rfl]
          refine (runs_skip rfl).bind ?_
          have h := ih (s := s.beyond [' ']) (n := 0) (Nat.lt_of_succ_lt_succ hfuel)
          rwa [Scan.beyond_beyond] at h

theorem not_marked_of_holds {src : Source} (hsrc : src.Holds t n) :
    ¬ ((s.on src).place.column == 0 && (s.on src).source.marked) = true := by
  rw [show (s.on src).source.marked = false from hsrc.unmarked, Bool.and_false]
  exact Bool.false_ne_true

/-- Blanks before a token are passed. -/
theorem runs_seek {k fuel : Nat} (ht : isStart (t.headD finish) = true) (hfuel : 0 < fuel)
    (hlimit : k < s.limit) :
    Runs (seek fuel) ⟨s, List.replicate k ' ' ++ t, n⟩ ()
      ⟨s.beyond (List.replicate k ' '), t, 1⟩ := by
  obtain ⟨hgap, hbreak, hmark⟩ := isStart_iff.mp ht
  obtain ⟨fuel, rfl⟩ := Nat.exists_eq_succ_of_ne_zero hfuel.ne'
  refine (runs_need 1).bind (runs_get_bind fun src hsrc => ?_)
  refine runs_if_neg (not_marked_of_holds hsrc) ?_
  refine runs_fuel.bind ((runs_skipBlanks hgap hlimit).bind ((runs_look Nat.zero_lt_one).bind ?_))
  refine runs_if_neg (by rwa [beq_iff_eq]) ((runs_look Nat.zero_lt_one).bind ?_)
  exact runs_if_neg (ne_true_of_eq_false hbreak) (runs_pure _ _)

/-- The end of a line and the blanks at the start of the next one are passed. -/
theorem runs_seek_line {k fuel : Nat} (ht : isStart (t.headD finish) = true) (hfuel : 1 < fuel)
    (hlimit : k < s.limit) :
    Runs (seek fuel) ⟨s, '\n' :: List.replicate k ' ' ++ t, n⟩ ()
      ⟨(s.beyond ('\n' :: List.replicate k ' ')).allow (s.keys || s.flow == 0), t, 1⟩ := by
  obtain ⟨fuel, rfl⟩ := Nat.exists_eq_succ_of_ne_zero (Nat.zero_lt_of_lt hfuel).ne'
  refine (runs_need 1).bind (runs_get_bind fun src hsrc => ?_)
  have hblanks := runs_skipBlanks (s := s) (t := '\n' :: List.replicate k ' ' ++ t) (k := 0)
    (n := 1) rfl (Nat.zero_lt_of_lt hlimit)
  refine runs_if_neg (not_marked_of_holds hsrc) ?_
  refine runs_fuel.bind (hblanks.bind ((runs_look Nat.zero_lt_one).bind ?_))
  refine runs_if_neg Bool.false_ne_true ((runs_look Nat.zero_lt_one).bind (runs_if_pos rfl ?_))
  refine (runs_skipLine rfl (by decide)).bind ?_
  refine (runs_modify (r := (s.beyond ['\n']).allow (s.keys || s.flow == 0)) fun _ => rfl).bind ?_
  exact runs_seek (s := (s.beyond ['\n']).allow _) ht (Nat.lt_of_succ_lt_succ hfuel) hlimit

end Between

end Reading

end Cascade.Yaml
