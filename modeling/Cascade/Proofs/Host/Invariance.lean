import Cascade.Command.Basic
import Cascade.Host.Machine
import Mathlib.Tactic.Common

/-!
# Invariants of runs

A run keeps an invariant if each of its requests does. The same goes for runs with a
report, which the machine does not see, and for runs that may fail.
-/

namespace Cascade

variable {ε α β σ : Type} {I : σ → Prop}

theorem run_bind_eq_iff {x : StateM σ α} {f : α → StateM σ β} {w w' : σ} {b : β} :
    (x >>= f).run w = (b, w') ↔ ∃ a w₁, x.run w = (a, w₁) ∧ (f a).run w₁ = (b, w') := by
  rw [StateT.run_bind]
  constructor
  · intro h
    exact ⟨_, _, rfl, h⟩
  · rintro ⟨a, w₁, hx, hf⟩
    rw [hx]
    exact hf

/-- Whatever it returns, the run keeps `I`. -/
def Preserves (I : σ → Prop) (x : StateM σ α) : Prop := ∀ w, I w → I (x.run w).2

namespace Preserves

variable {x : StateM σ α} {f : α → StateM σ β}

theorem pure (a : α) : Preserves I (pure a : StateM σ α) := fun _ hw => hw

theorem bind (hx : Preserves I x) (hf : ∀ a, Preserves I (f a)) : Preserves I (x >>= f) := by
  intro w hw
  exact hf _ _ (hx w hw)

theorem forM {g : α → StateM σ Unit} {as : List α} (hg : ∀ a ∈ as, Preserves I (g a)) :
    Preserves I (as.forM g) := by
  induction as with
  | nil => exact pure _
  | cons a as ih =>
      obtain ⟨hfirst, hrest⟩ := List.forall_mem_cons.mp hg
      exact bind hfirst fun _ => ih hrest

section Names

variable {fresh : StateM σ Bytes} {make : Bytes → StateM σ (Except OsError Unit)}
  {refusal : OsError} {around : StateM σ (Except OsError Status)}

/-- Trying names keeps what asking for a name and using it keep. -/
theorem tryName (hfresh : Preserves I fresh) (hmake : ∀ path, Preserves I (make path))
    (tries : Nat) : Preserves I (Host.tryName fresh make refusal tries) := by
  induction tries with
  | zero => exact pure _
  | succ tries ih =>
      refine bind hfresh fun path => bind (hmake path) fun made => ?_
      split
      · exact pure _
      · split
        · exact ih
        · exact pure _

theorem tryDirs (hfresh : Preserves I fresh) (hmake : ∀ path, Preserves I (make path))
    (haround : Preserves I around) : Preserves I (Host.tryDirs fresh make refusal around) := by
  refine bind (hfresh.tryName hmake _) fun made => ?_
  split
  · exact pure _
  · split
    · refine bind haround fun found => ?_
      split
      · exact pure _
      · exact pure _
    · exact pure _

end Names

end Preserves

/-! ## Runs with a report -/

namespace Reporting

/-- Whatever the report, the run keeps `I`. -/
def Preserves (I : σ → Prop) (x : Reporting (StateM σ) α) : Prop :=
  ∀ ρ, Cascade.Preserves I (x.run ρ)

namespace Preserves

variable {x : Reporting (StateM σ) α} {f : α → Reporting (StateM σ) β}

theorem pure (a : α) : Preserves I (pure a : Reporting (StateM σ) α) :=
  fun ρ => Cascade.Preserves.pure (a, ρ)

theorem bind (hx : Preserves I x) (hf : ∀ a, Preserves I (f a)) : Preserves I (x >>= f) := by
  intro ρ
  rw [StateT.run_bind]
  exact Cascade.Preserves.bind (hx ρ) fun p => hf p.1 p.2

theorem lift {y : StateM σ α} (hy : Cascade.Preserves I y) :
    Preserves I (liftM y : Reporting (StateM σ) α) :=
  fun ρ => Cascade.Preserves.bind hy fun a => Cascade.Preserves.pure (a, ρ)

theorem get : Preserves I (get : Reporting (StateM σ) (Option Report)) := fun _ _ hw => hw

theorem set (ρ : Option Report) : Preserves I (set ρ : Reporting (StateM σ) PUnit) :=
  fun _ _ hw => hw

/-- What is done to a report keeps `I` if it does so for every report. -/
theorem update {f : Report → StateM σ (Except ε Report)}
    (hf : ∀ r, Cascade.Preserves I (f r)) : Preserves I (Reporting.update f) := by
  refine bind get fun ρ => ?_
  cases ρ with
  | none => exact pure _
  | some r =>
      refine bind (lift (hf r)) fun answer => ?_
      cases answer with
      | error e => exact pure _
      | ok r => exact bind (set _) fun _ => pure _

end Preserves

/-- With the report `ρ`, the run turns `w` into `w'` and the report into `ρ'`, and returns `a`. -/
def Ran (x : Reporting (StateM σ) α) (ρ : Option Report) (w : σ) (a : α)
    (ρ' : Option Report) (w' : σ) : Prop :=
  (x.run ρ).run w = ((a, ρ'), w')

namespace Ran

variable {x : Reporting (StateM σ) α} {f : α → Reporting (StateM σ) β} {a : α} {b : β}
  {ρ ρ' : Option Report} {w w' : σ}

theorem bind_iff : Ran (x >>= f) ρ w b ρ' w' ↔
    ∃ a ρ₁ w₁, Ran x ρ w a ρ₁ w₁ ∧ Ran (f a) ρ₁ w₁ b ρ' w' := by
  unfold Ran
  rw [StateT.run_bind, run_bind_eq_iff]
  constructor
  · rintro ⟨⟨a, ρ₁⟩, w₁, hx, hf⟩
    exact ⟨a, ρ₁, w₁, hx, hf⟩
  · rintro ⟨a, ρ₁, w₁, hx, hf⟩
    exact ⟨(a, ρ₁), w₁, hx, hf⟩

theorem preserves (hx : Preserves I x) (h : Ran x ρ w a ρ' w') (hw : I w) : I w' := by
  have hw' := hx ρ w hw
  rw [h] at hw'
  exact hw'

theorem lift {y : StateM σ α} (hy : y.run w = (a, w')) :
    Ran (liftM y : Reporting (StateM σ) α) ρ w a ρ w' := by
  show (((y.run w).1, ρ), (y.run w).2) = _
  rw [hy]

theorem exists_ran (x : Reporting (StateM σ) α) (ρ : Option Report) (w : σ) :
    ∃ a ρ' w', Ran x ρ w a ρ' w' :=
  ⟨_, _, _, rfl⟩

end Ran

end Reporting

/-! ## Runs that may fail -/

abbrev Attempt (ε : Type) : Type → Type := ExceptT ε (Reporting (StateM Machine))

namespace Attempt

def Preserves (I : Machine → Prop) (x : Attempt ε α) : Prop := Reporting.Preserves I x.run

/-- With the report `ρ`, the run turns `w` into `w'` and the report into `ρ'`, and ends with `r`. -/
abbrev Ran (x : Attempt ε α) (ρ : Option Report) (w : Machine) (r : Except ε α) (ρ' : Option Report)
    (w' : Machine) : Prop :=
  Reporting.Ran x.run ρ w r ρ' w'

variable {x : Attempt ε α} {f : α → Attempt ε β} {I : Machine → Prop} {ρ ρ' : Option Report}
  {w w' : Machine}

namespace Preserves

theorem pure (a : α) : Preserves I (pure a : Attempt ε α) := Reporting.Preserves.pure _

theorem throw (e : ε) : Preserves I (throw e : Attempt ε α) := Reporting.Preserves.pure _

theorem bind (hx : Preserves I x) (hf : ∀ a, Preserves I (f a)) : Preserves I (x >>= f) := by
  unfold Preserves at *
  rw [ExceptT.run_bind]
  refine Reporting.Preserves.bind hx fun r => ?_
  cases r with
  | ok a => exact hf a
  | error e => exact Reporting.Preserves.pure _

theorem report {y : Reporting (StateM Machine) α} (hy : Reporting.Preserves I y) :
    Preserves I (liftM y : Attempt ε α) :=
  Reporting.Preserves.bind hy fun a => Reporting.Preserves.pure (Except.ok a)

theorem lift {y : StateM Machine α} (hy : Cascade.Preserves I y) :
    Preserves I (liftM y : Attempt ε α) :=
  report (Reporting.Preserves.lift hy)

theorem ofExcept {f : ε → Failure} (r : Except ε α) :
    Preserves I (Action.ofExcept f r : Action (StateM Machine) α) := by
  cases r with
  | ok a => exact pure a
  | error e => exact throw _

theorem before {x : Action (StateM Machine) α} {after : StateM Machine Unit} (hx : Preserves I x)
    (hafter : Cascade.Preserves I after) : Preserves I (x.before after) :=
  Reporting.Preserves.bind hx fun _ =>
    Reporting.Preserves.bind (Reporting.Preserves.lift hafter) fun _ => Reporting.Preserves.pure _

/-- Something may be done first. -/
theorem first {c : Prop} [Decidable c] {y : Attempt ε α} (hy : Preserves I x → Preserves I y)
    (hx : Preserves I x) : Preserves I (if c then y else x) := by
  split
  · exact hy hx
  · exact hx

theorem ran {r : Except ε α} (hx : Preserves I x) (hran : x.Ran ρ w r ρ' w') (hw : I w) : I w' := by
  have hw' := hx ρ w hw
  rw [hran] at hw'
  exact hw'

end Preserves

namespace Ran

theorem bind_ok {b : β} (h : (x >>= f).Ran ρ w (.ok b) ρ' w') :
    ∃ a ρ₁ w₁, x.Ran ρ w (.ok a) ρ₁ w₁ ∧ (f a).Ran ρ₁ w₁ (.ok b) ρ' w' := by
  unfold Ran at h
  rw [ExceptT.run_bind, Reporting.Ran.bind_iff] at h
  obtain ⟨r, ρ₁, w₁, hx, hf⟩ := h
  cases r with
  | error e => cases hf
  | ok a => exact ⟨a, ρ₁, w₁, hx, hf⟩

theorem bind_error {e : ε} (h : (x >>= f).Ran ρ w (.error e) ρ' w') : x.Ran ρ w (.error e) ρ' w' ∨
    ∃ a ρ₁ w₁, x.Ran ρ w (.ok a) ρ₁ w₁ ∧ (f a).Ran ρ₁ w₁ (.error e) ρ' w' := by
  unfold Ran at h
  rw [ExceptT.run_bind, Reporting.Ran.bind_iff] at h
  obtain ⟨r, ρ₁, w₁, hx, hf⟩ := h
  cases r with
  | error e' =>
      cases hf
      exact Or.inl hx
  | ok a => exact Or.inr ⟨a, ρ₁, w₁, hx, hf⟩

theorem lift_ok {y : StateM Machine α} {a : α}
    (h : (liftM y : Attempt ε α).Ran ρ w (.ok a) ρ' w') : y.run w = (a, w') ∧ ρ' = ρ := by
  cases h
  exact ⟨rfl, rfl⟩

theorem ofExcept_ok {g : ε → Failure} {r : Except ε α} {a : α}
    (h : Attempt.Ran (Action.ofExcept g r) ρ w (.ok a) ρ' w') : r = .ok a ∧ ρ' = ρ ∧ w' = w := by
  cases r with
  | error e => cases congrArg (fun out => out.1.1) h
  | ok a' =>
      cases h
      exact ⟨rfl, rfl, rfl⟩

/-- A request was answered, and the run went on with the answer. -/
theorem request_ok {y : StateM Machine (Except ε α)} {g : ε → Failure}
    {f : α → Action (StateM Machine) β} {b : β}
    (h : Attempt.Ran (liftM y >>= fun answer => Action.ofExcept g answer >>= f) ρ w (.ok b) ρ' w') :
    ∃ a w₁, y.run w = (.ok a, w₁) ∧ Attempt.Ran (f a) ρ w₁ (.ok b) ρ' w' := by
  obtain ⟨answer, ρ₁, w₁, hlift, hrest⟩ := bind_ok h
  obtain ⟨hy, hρ⟩ := lift_ok hlift
  obtain ⟨a, ρ₂, w₂, ha, hf⟩ := bind_ok hrest
  obtain ⟨rfl, rfl, rfl⟩ := ofExcept_ok ha
  exact ⟨a, w₂, hy, hρ ▸ hf⟩

theorem demand_ok {y : StateM Machine (Except ε α)} {g : ε → Failure} {a : α}
    (h : Attempt.Ran (liftM y >>= Action.ofExcept g) ρ w (.ok a) ρ' w') :
    y.run w = (.ok a, w') ∧ ρ' = ρ := by
  obtain ⟨answer, ρ₁, w₁, hlift, hrest⟩ := bind_ok h
  obtain ⟨hy, hρ⟩ := lift_ok hlift
  obtain ⟨rfl, rfl, rfl⟩ := ofExcept_ok hrest
  exact ⟨hy, hρ⟩

theorem before_ok {x : Action (StateM Machine) α} {after : StateM Machine Unit} {r : Except Failure α}
    (h : Attempt.Ran (x.before after) ρ w r ρ' w') :
    ∃ w₁, Attempt.Ran x ρ w r ρ' w₁ ∧ w' = (after.run w₁).2 := by
  cases h
  exact ⟨_, rfl, rfl⟩

end Ran

end Attempt

/-! ## Logging -/

/-- The invariant does not look at the streams, the clock and the kept entries. -/
structure OnFiles [Host (StateM σ)] (I : σ → Prop) : Prop where
  now : Preserves I (Host.now : StateM σ Moment)
  print : ∀ data, Preserves I (Host.print data : StateM σ Bool)
  complain : ∀ data, Preserves I (Host.complain data : StateM σ Unit)
  record : ∀ entry, Preserves I (Host.record entry : StateM σ Unit)

def Log.Logger.files (l : Log.Logger) : List Bytes :=
  l.outlets.filterMap fun
    | .file path _ => some path
    | _ => none

/-- What is logged keeps `I`. -/
def Log.Logger.Preserves [Host (StateM σ)] (I : σ → Prop) (l : Log.Logger) : Prop :=
  ∀ e, Cascade.Preserves I (l.emit e : StateM σ Unit)

theorem Log.Logger.preserves [Host (StateM σ)] (hI : OnFiles I) {l : Log.Logger}
    (hfiles : ∀ file ∈ l.files, ∀ data, Cascade.Preserves I (Host.extend file data : StateM σ _)) :
    l.Preserves I := by
  intro e
  refine Cascade.Preserves.bind hI.now fun moment => Cascade.Preserves.forM fun o ho => ?_
  cases o with
  | memory => exact hI.record _
  | output least => exact Cascade.Preserves.bind (hI.print _) fun _ => Cascade.Preserves.pure _
  | errors => exact hI.complain _
  | file path least =>
      have hfile : path ∈ l.files := List.mem_filterMap.mpr ⟨_, (List.mem_filter.mp ho).1, rfl⟩
      exact Cascade.Preserves.bind (hfiles path hfile _) fun _ => Cascade.Preserves.pure _

namespace Action

variable {I : Machine → Prop} {log : Log.Logger}

theorem preserves_scan (hlog : log.Preserves I) (path source : Bytes) :
    Attempt.Preserves I (scan log path source) := by
  refine .bind (.lift (.forM fun entry _ => hlog entry)) fun _ => ?_
  refine .bind (.lift (.forM fun warning _ => hlog _)) fun _ => .pure _

theorem preserves_stylesheet (hlog : log.Preserves I) (command : Bytes) (line : Line) :
    Attempt.Preserves I (stylesheet log command line) := by
  unfold stylesheet
  split
  · exact .throw _
  · split
    · exact .throw _
    · exact .first (fun hrest => .bind (.lift (hlog _)) fun _ => hrest) (.pure _)

theorem preserves_logElapsed (hI : OnFiles I) (hlog : log.Preserves I) (message : String) :
    Preserves I (logElapsed log message : StateM Machine Unit) :=
  .bind hI.now fun _ => hlog _

end Action

end Cascade
