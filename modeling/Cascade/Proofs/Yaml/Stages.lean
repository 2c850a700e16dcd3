import Cascade.Proofs.Yaml.Reading

/-!
# Stages of finding tokens

Tokens are taken while others are still being found, and a key is known as one only when its colon
is found. Taking does not change what is found: a document has stages, each with all the tokens
found up to it, and a scan is a stage of which some tokens have been taken. Those before a
candidate never change.
-/

namespace Cascade.Yaml

namespace Scan

def less (s : Scan) (j : Nat) : Scan :=
  { s with queue := s.queue.drop j, taken := s.taken + j }

def hold (s : Scan) : Nat :=
  if s.candidate.possible then s.candidate.number else s.queue.length

def ended (s : Scan) (k : Nat) : Scan :=
  { s with queue := s.queue ++ List.replicate k .streamEnd }

theorem ended_zero (s : Scan) : s.ended 0 = s := by
  unfold ended
  rw [List.replicate_zero, List.append_nil]

theorem less_less (s : Scan) (j k : Nat) : (s.less j).less k = s.less (j + k) := by
  unfold less
  simp only [List.drop_drop, Nat.add_assoc]

/-- No token has been taken, and the candidate, if there is one, is the last token and was found
just now. -/
structure Steady (s : Scan) : Prop where
  taken : s.taken = 0
  outer : s.outer = []
  candidate : s.candidate.possible = true →
    s.candidate.awaited = true ∧ s.isStale s.candidate = false ∧
      s.candidate.number ≤ s.queue.length

variable {s : Scan} {j : Nat}

/-- The first token that waits may be a key only if it is the candidate. -/
theorem Steady.waiting?_less (h : s.Steady) (hj : j ≤ s.hold) :
    (s.less j).waiting? = if s.candidate.possible && s.candidate.number == j
      then some s.candidate else none := by
  show ((s.candidate :: s.outer).takeWhile fun c => s.taken + j ≤ c.number).find?
    (fun c => c.possible && c.awaited && c.number == s.taken + j) = _
  rw [h.taken, h.outer, Nat.zero_add]
  cases hpossible : s.candidate.possible with
  | false =>
      rw [Bool.false_and, if_neg Bool.false_ne_true]
      cases hle : decide (j ≤ s.candidate.number) <;> simp [List.takeWhile, hle, hpossible]
  | true =>
      obtain ⟨hawaited, -, -⟩ := h.candidate hpossible
      rw [hold, hpossible, if_pos rfl] at hj
      have hpass : ([s.candidate].takeWhile fun c => decide (j ≤ c.number)) = [s.candidate] := by
        rw [List.takeWhile, decide_eq_true hj]
        rfl
      rw [hpass, List.find?_cons, hpossible, hawaited]
      cases hnumber : s.candidate.number == j <;> simp

end Scan

namespace Reading

/-- One more token is found, or a few that come together. -/
structure Step (b : Scan) (t : List Char) (b' : Scan) (t' : List Char) : Prop where
  steady : b.Steady
  finds : ∀ {j n : Nat}, j ≤ b.hold → Runs find ⟨b.less j, t, n⟩ () ⟨b'.less j, t', 0⟩
  hold_le : b.hold ≤ b'.hold
  keeps : b'.queue.take b.hold = b.queue.take b.hold
  limit : b'.limit = b.limit

/-- All tokens have been found. There will be no others than ends. -/
structure Idle (b : Scan) : Prop where
  steady : b.Steady
  possible : b.candidate.possible = false
  finds : ∀ {j k n : Nat}, j ≤ b.queue.length →
    Runs find ⟨(b.ended k).less j, [], n⟩ () ⟨(b.ended (k + 1)).less j, [], 0⟩

/-- From this stage on, the tokens of a document come to these, in fewer steps than `m`. -/
inductive Yields : (m : Nat) → Scan → List Char → List Token → Prop
  | step {m k : Nat} {b b' : Scan} {t t' : List Char} {ts : List Token} (hlt : k < m)
      (first : Step b t b' t') (rest : Yields k b' t' ts) : Yields m b t ts
  | idle {b : Scan} (m k : Nat) (h : Idle b) : Yields m (b.ended k) [] b.queue

variable {b b' : Scan} {t t' : List Char} {ts : List Token} {m m' : Nat}

theorem Yields.mono (h : Yields m b t ts) (hle : m ≤ m') : Yields m' b t ts := by
  cases h with
  | step hlt first rest => exact .step (hlt.trans_le hle) first rest
  | idle m k h => exact .idle m' k h

theorem Idle.steady_ended (h : Idle b) (k : Nat) : (b.ended k).Steady := by
  refine ⟨h.steady.taken, h.steady.outer, fun hpossible => ?_⟩
  have hfalse : b.candidate.possible = true := hpossible
  rw [h.possible] at hfalse
  cases hfalse

theorem Idle.hold_ended (h : Idle b) (k : Nat) : (b.ended k).hold = b.queue.length + k := by
  have hpossible : (b.ended k).candidate.possible = false := h.possible
  rw [Scan.hold, hpossible, if_neg Bool.false_ne_true]
  simp [Scan.ended]

/-- Tokens that stay are among those that come in the end. -/
theorem Yields.take_eq (h : Yields m b t ts) {j : Nat} (hj : j ≤ b.hold) (hts : j ≤ ts.length) :
    b.queue.take j = ts.take j := by
  induction h with
  | step hlt first rest ih =>
      have hkeep := congrArg (List.take j) first.keeps
      rw [List.take_take, List.take_take, Nat.min_eq_left hj] at hkeep
      rw [← hkeep]
      exact ih (hj.trans first.hold_le) hts
  | idle m k h => exact List.take_append_of_le_length hts

/-- Enough tokens are known, and the first is none that may be a key. -/
theorem runs_fill_enough {j n f : Nat} (hb : b.Steady) (hj : j ≤ b.hold)
    (hlength : 3 ≤ (b.queue.drop j).length)
    (hkey : (b.candidate.possible && b.candidate.number == j) = false) :
    Runs (fill (f + 1)) ⟨b.less j, t, n⟩ () ⟨b.less j, t, 0⟩ := by
  refine runs_get_bind fun src _ => runs_if_neg (Nat.not_lt.mpr hlength) ?_
  have hwaiting : ((b.less j).on src).waiting? = none := by
    have h := hb.waiting?_less hj
    rw [hkey, if_neg Bool.false_ne_true] at h
    exact h
  rw [hwaiting]
  exact (runs_pure _ _).forget (Nat.zero_le n)

/-- Another token has to be found first. -/
theorem runs_fill_find {j n f : Nat} {v : View} (hb : b.Steady) (hj : j ≤ b.hold)
    (hneed : (b.queue.drop j).length < 3 ∨ (b.candidate.possible && b.candidate.number == j) = true)
    (hfind : Runs find ⟨b.less j, t, n⟩ () ⟨b'.less j, t', 0⟩)
    (hrest : Runs (fill f) ⟨b'.less j, t', 0⟩ () v) :
    Runs (fill (f + 1)) ⟨b.less j, t, n⟩ () v := by
  refine runs_get_bind fun src _ => ?_
  by_cases hlength : (b.queue.drop j).length < 3
  · exact runs_if_pos hlength (hfind.bind hrest)
  · have hkey := hneed.resolve_left hlength
    have hwaiting : ((b.less j).on src).waiting? = some b.candidate := by
      have h := hb.waiting?_less hj
      rw [hkey, if_pos rfl] at h
      exact h
    have hfresh : ((b.less j).on src).isStale b.candidate = false :=
      (hb.candidate (Bool.and_eq_true_iff.mp hkey).1).2.1
    refine runs_if_neg hlength ?_
    rw [hwaiting]
    dsimp only
    rw [hfresh]
    exact hfind.bind hrest

/-- Ends are found until there are three tokens. -/
theorem Idle.fill (h : Idle b) {j k n f : Nat} (hj : j < b.queue.length)
    (hfuel : 3 - (b.queue.length + k - j) < f) :
    ∃ k', Runs (fill f) ⟨(b.ended k).less j, [], n⟩ () ⟨(b.ended k').less j, [], 0⟩ := by
  have hlength : ∀ k, ((b.ended k).queue.drop j).length = b.queue.length + k - j := by
    intro k
    simp [Scan.ended]
  have hhold : ∀ k, j ≤ (b.ended k).hold := by
    intro k
    rw [h.hold_ended]
    omega
  have hkey : ∀ k, ((b.ended k).candidate.possible && (b.ended k).candidate.number == j) =
      false := fun k => by rw [show (b.ended k).candidate.possible = false from h.possible]; rfl
  induction f generalizing k n with
  | zero => cases hfuel
  | succ f ih =>
      by_cases henough : 3 ≤ b.queue.length + k - j
      · exact ⟨k, runs_fill_enough (h.steady_ended k) (hhold k) (by rwa [hlength]) (hkey k)⟩
      · obtain ⟨k', hrest⟩ := ih (k := k + 1) (n := 0) (by omega)
        refine ⟨k', runs_fill_find (h.steady_ended k) (hhold k) (Or.inl ?_) (h.finds hj.le) hrest⟩
        rw [hlength]
        omega

/-- Tokens are found until the first can be taken. -/
theorem Yields.fill (h : Yields m b t ts) {j n f : Nat} (hj : j ≤ b.hold) (hts : j < ts.length)
    (hfuel : m + 4 ≤ f) :
    ∃ b' t', Runs (fill f) ⟨b.less j, t, n⟩ () ⟨b'.less j, t', 0⟩ ∧ Yields m b' t' ts ∧
      j < b'.hold ∧ b'.limit = b.limit := by
  induction h generalizing n f with
  | @step m k b b' t t' ts hlt first rest ih =>
      obtain ⟨f, rfl⟩ := Nat.exists_eq_succ_of_ne_zero (show f ≠ 0 by omega)
      by_cases hneed : (b.queue.drop j).length < 3 ∨
          (b.candidate.possible && b.candidate.number == j) = true
      · obtain ⟨b'', t'', hrun, hyields, hhold, hlimit⟩ :=
          ih (n := 0) (f := f) (hj.trans first.hold_le) hts (by omega)
        exact ⟨b'', t'', runs_fill_find first.steady hj hneed (first.finds hj) hrun,
          hyields.mono hlt.le, hhold, hlimit.trans first.limit⟩
      · -- enough is known, and the first token cannot turn out to be a key any more
        rw [not_or, Nat.not_lt, Bool.not_eq_true] at hneed
        refine ⟨b, t, runs_fill_enough first.steady hj hneed.1 hneed.2, .step hlt first rest, ?_,
          rfl⟩
        unfold Scan.hold at hj ⊢
        split_ifs at hj ⊢ with hpossible
        · have hnumber := hneed.2
          rw [hpossible, Bool.true_and, beq_eq_false_iff_ne] at hnumber
          omega
        · have hlength := hneed.1
          rw [List.length_drop] at hlength
          omega
  | @idle b m k h =>
      obtain ⟨k', hrun⟩ := h.fill (k := k) (n := n) (f := f) hts (by omega)
      refine ⟨b.ended k', [], hrun, .idle m k' h, ?_, rfl⟩
      rw [h.hold_ended]
      omega

/-! ## Tokens to take -/

/-- The tokens that are still to be taken. The first has been looked at if `sure`. -/
structure Stock where
  tokens : List Token
  sure : Bool

def Feeds (limit : Nat) (s : Scan) (t : List Char) (stock : Stock) : Prop :=
  ∃ b j m all, s = b.less j ∧ Yields m b t all ∧ all.drop j = stock.tokens ∧ j ≤ b.hold ∧
    (stock.sure = true → j < b.hold) ∧ b.limit = limit ∧ m + 4 ≤ 2 * limit

/-- With these tokens, the step gives `a` and leaves those. -/
def Takes {α : Type} (limit : Nat) (x : Reading α) (stock : Stock) (a : α) (stock' : Stock) :
    Prop :=
  ∀ s t n, Feeds limit s t stock →
    ∃ s' t', Runs x ⟨s, t, n⟩ a ⟨s', t', 0⟩ ∧ Feeds limit s' t' stock'

section Takes

variable {α β : Type} {limit : Nat} {x : Reading α} {f : α → Reading β} {a : α} {c : β}
  {stock stock' stock'' : Stock} {tok : Token} {sure : Bool}

theorem takes_pure (a : α) (stock : Stock) : Takes limit (pure a) stock a stock :=
  fun s t n h => ⟨s, t, (runs_pure _ _).forget (Nat.zero_le n), h⟩

theorem Takes.bind (h : Takes limit x stock a stock') (hf : Takes limit (f a) stock' c stock'') :
    Takes limit (x >>= f) stock c stock'' := by
  intro s t n hfeeds
  obtain ⟨s', t', hrun, hfeeds'⟩ := h s t n hfeeds
  obtain ⟨s'', t'', hrun', hfeeds''⟩ := hf s' t' 0 hfeeds'
  exact ⟨s'', t'', hrun.bind hrun', hfeeds''⟩

theorem takes_fuel : Takes limit fuel stock limit stock := by
  rintro s t n ⟨b, j, m, all, rfl, hyields, hall, hj, hsure, hlimit, hle⟩
  refine ⟨b.less j, t, ?_, b, j, m, all, rfl, hyields, hall, hj, hsure, hlimit, hle⟩
  rw [← hlimit]
  exact runs_fuel.forget (Nat.zero_le n)

theorem takes_peek : Takes limit peek ⟨tok :: ts, sure⟩ tok ⟨tok :: ts, true⟩ := by
  rintro s t n ⟨b, j, m, all, rfl, hyields, hall, hj, -, hlimit, hle⟩
  have hlt : j < all.length := by
    by_contra hge
    rw [List.drop_eq_nil_of_le (Nat.not_lt.mp hge)] at hall
    cases hall
  have hfuel : m + 4 ≤ 2 * b.limit := hlimit ▸ hle
  obtain ⟨b', t', hrun, hyields', hhold, hlimit'⟩ := hyields.fill (n := n) hj hlt hfuel
  refine ⟨b'.less j, t', ?_, b', j, m, all, rfl, hyields', hall, hhold.le, fun _ => hhold,
    hlimit'.trans hlimit, hle⟩
  -- The first token stays, so it is the one that comes in the end.
  have hhead : (b'.queue.drop j).headD .streamEnd = tok := by
    have htake := congrArg (List.drop j) (hyields'.take_eq (j := j + 1) hhold hlt)
    rw [List.drop_take, List.drop_take, hall, Nat.add_sub_cancel_left] at htake
    cases hqueue : b'.queue.drop j with
    | nil =>
        rw [hqueue] at htake
        cases htake
    | cons first rest =>
        rw [hqueue] at htake
        exact (List.cons.inj htake).1
  refine runs_fuel.bind (hrun.bind (runs_get_bind fun src _ => ?_))
  rw [show ((b'.less j).on src).queue = b'.queue.drop j from rfl, hhead]
  exact runs_pure _ _

theorem takes_take : Takes limit take ⟨tok :: ts, true⟩ () ⟨ts, false⟩ := by
  rintro s t n ⟨b, j, m, all, rfl, hyields, hall, -, hsure, hlimit, hle⟩
  refine ⟨b.less (j + 1), t, ?_, b, j + 1, m, all, rfl, hyields, ?_, hsure rfl, nofun, hlimit, hle⟩
  · refine (runs_modify fun src => ?_).forget (Nat.zero_le n)
    rw [← Scan.less_less]
    rfl
  · rw [← List.drop_drop, hall]
    rfl

theorem takes_following {next : Token} :
    Takes limit following ⟨tok :: next :: ts, true⟩ next ⟨next :: ts, true⟩ :=
  takes_take.bind takes_peek

end Takes

end Reading

end Cascade.Yaml
