import Cascade.Proofs.Program.Requests
import Cascade.Proofs.Report.Calls

/-!
# The report takes what a run gives it

A report refuses a name that is taken. The names that a run uses start with different
bytes, one for each place in the program, so it never meets a refusal.
-/

namespace Cascade

variable {ε α β : Type} {P P' : Option Report → Prop}

/-! ## What a run makes of the report -/

namespace Reporting

/-- From a report with `P`, the run makes a value and a report with `Q`. -/
def Yields (P : Option Report → Prop) (x : Reporting (StateM Machine) α)
    (Q : α → Option Report → Prop) : Prop :=
  ∀ ρ w, P ρ → Q ((x.run ρ).run w).1.1 ((x.run ρ).run w).1.2

namespace Yields

variable {x : Reporting (StateM Machine) α} {f : α → Reporting (StateM Machine) β}
  {Q Q' : α → Option Report → Prop} {R : β → Option Report → Prop}

theorem pure {a : α} (h : ∀ ρ, P ρ → Q a ρ) :
    Yields P (Pure.pure a : Reporting (StateM Machine) α) Q :=
  fun ρ _ hρ => h ρ hρ

theorem bind (hx : Yields P x Q) (hf : ∀ a, Yields (Q a) (f a) R) : Yields P (x >>= f) R := by
  intro ρ w hρ
  rw [StateT.run_bind]
  exact hf _ _ _ (hx ρ w hρ)

/-- A request does not touch the report. -/
theorem lift (y : StateM Machine α) :
    Yields P (liftM y : Reporting (StateM Machine) α) fun _ => P :=
  fun _ _ hρ => hρ

/-- What a request answers is known afterwards. -/
theorem answer {y : StateM Machine α} {φ : α → Prop} (hy : ∀ w, φ (y.run w).1) :
    Yields P (liftM y : Reporting (StateM Machine) α) fun a ρ => φ a ∧ P ρ :=
  fun _ w hρ => ⟨hy w, hρ⟩

theorem get : Yields P (MonadStateOf.get : Reporting (StateM Machine) (Option Report))
    fun _ => P :=
  fun _ _ hρ => hρ

theorem set {ρ : Option Report} (h : P' ρ) :
    Yields P (MonadStateOf.set ρ : Reporting (StateM Machine) PUnit) fun _ => P' :=
  fun _ _ _ => h

end Yields

end Reporting

namespace Attempt

/-- From a report with `P`, the run makes a value and a report with `Q`, or fails with `E`. -/
def Yields (P : Option Report → Prop) (x : Attempt ε α) (Q : α → Option Report → Prop)
    (E : ε → Prop) : Prop :=
  Reporting.Yields P x.run fun r ρ => (∀ a, r = .ok a → Q a ρ) ∧ ∀ e, r = .error e → E e

namespace Yields

variable {x : Attempt ε α} {f : α → Attempt ε β} {E : ε → Prop}
  {Q Q' : α → Option Report → Prop} {R : β → Option Report → Prop}

theorem pure {a : α} (h : ∀ ρ, P ρ → Q a ρ) : Yields P (Pure.pure a : Attempt ε α) Q E := by
  intro ρ w hρ
  refine ⟨?_, fun e he => nomatch he⟩
  rintro _ ⟨⟩
  exact h ρ hρ

theorem throw {e : ε} (h : ∀ ρ, P ρ → E e) : Yields P (MonadExcept.throw e : Attempt ε α) Q E := by
  intro ρ w hρ
  refine ⟨fun a ha => (nomatch ha), ?_⟩
  rintro _ ⟨⟩
  exact h ρ hρ

theorem bind (hx : Yields P x Q E) (hf : ∀ a, Yields (Q a) (f a) R E) : Yields P (x >>= f) R E := by
  unfold Yields at hx
  unfold Yields
  rw [ExceptT.run_bind]
  refine Reporting.Yields.bind hx fun r => ?_
  cases r with
  | ok a =>
      intro ρ w hρ
      exact hf a ρ w (hρ.1 a rfl)
  | error e =>
      intro ρ w hρ
      refine ⟨fun a ha => (nomatch ha), ?_⟩
      rintro _ ⟨⟩
      exact hρ.2 e rfl

theorem report {y : Reporting (StateM Machine) α} (hy : Reporting.Yields P y Q) :
    Yields P (liftM y : Attempt ε α) Q E := by
  intro ρ w hρ
  refine ⟨?_, fun e he => nomatch he⟩
  rintro _ ⟨⟩
  exact hy ρ w hρ

theorem lift (y : StateM Machine α) : Yields P (liftM y : Attempt ε α) (fun _ => P) E :=
  report (Reporting.Yields.lift y)

/-- What is known of a value before a run is known during it. -/
theorem known {φ : Prop} (h : φ → Yields P x Q E) : Yields (fun ρ => φ ∧ P ρ) x Q E :=
  fun ρ w hρ => h hρ.1 ρ w hρ.2

theorem mono {E' : ε → Prop} (hx : Yields P x Q E) (hQ : ∀ a ρ, Q a ρ → Q' a ρ)
    (hE : ∀ e, E e → E' e) : Yields P x Q' E' :=
  fun ρ w hρ => ⟨fun a ha => hQ _ _ ((hx ρ w hρ).1 a ha), fun e he => hE _ ((hx ρ w hρ).2 e he)⟩

theorem ofExcept {g : ε → Failure} (r : Except ε α) {E : Failure → Prop}
    (h : ∀ e, r = .error e → E (g e)) :
    Yields P (Action.ofExcept g r : Action (StateM Machine) α) (fun _ => P) E := by
  cases r with
  | ok a => exact pure fun _ hρ => hρ
  | error e => exact throw fun _ _ => h e rfl

/-- Something may be done first. -/
theorem first {c : Prop} [Decidable c] {y : Attempt ε α} (hy : Yields P x Q E → Yields P y Q E)
    (hx : Yields P x Q E) : Yields P (if c then y else x) Q E := by
  split
  · exact hy hx
  · exact hx

theorem before {x : Action (StateM Machine) α} {after : StateM Machine Unit} {E : Failure → Prop}
    (hx : Yields P x Q E) : Yields P (x.before after) Q E :=
  fun ρ w hρ => hx ρ w hρ

theorem ran {r : Except ε α} {ρ ρ' : Option Report} {w w' : Machine} (hx : Yields P x Q E)
    (hran : x.Ran ρ w r ρ' w') (hρ : P ρ) : (∀ a, r = .ok a → Q a ρ') ∧ ∀ e, r = .error e → E e := by
  have h := hx ρ w hρ
  rw [hran] at h
  exact h

end Yields

end Attempt

/-! ## Names -/

namespace Report

variable {r : Report} {heads : List UInt8} {b : UInt8} {name : Bytes}

/-- The report is to be written, and its names start with the bytes in `heads`. -/
structure Named (heads : List UInt8) (r : Report) : Prop where
  file : r.file.isSome
  names : ∀ name, r.items.contains name → ∃ b ∈ heads, name.head? = some b

namespace Named

theorem mono (h : r.Named heads) (b : UInt8) : r.Named (b :: heads) where
  file := h.file
  names := by
    intro name hname
    obtain ⟨c, hc, hhead⟩ := h.names name hname
    exact ⟨c, List.mem_cons_of_mem b hc, hhead⟩

theorem get?_eq_none (h : r.Named heads) (hname : name.head? = some b) (hb : b ∉ heads) :
    r.items.get? name = none := by
  by_contra hsome
  obtain ⟨c, hc, hhead⟩ := h.names name (Option.isSome_iff_ne_none.mpr hsome)
  rw [hname] at hhead
  cases hhead
  exact hb hc

theorem put (h : r.Named heads) (hname : name.head? = some b) (s : Stored) :
    ∃ r', r.put name s = .ok r' ∧ r'.Named (b :: heads) := by
  refine ⟨_, if_pos h.file, ⟨h.file, ?_⟩⟩
  intro other hother
  by_cases heq : other = name
  · rw [heq]
    exact ⟨b, List.mem_cons_self, hname⟩
  · unfold Dict.contains at hother
    rw [Dict.get?_insert_of_ne _ _ heq] at hother
    exact (h.mono b).names other hother

theorem addFile (h : r.Named heads) (hname : name.head? = some b) (hb : b ∉ heads) (cwd path : Bytes) :
    ∃ r', r.addFile cwd name path = .ok r' ∧ r'.Named (b :: heads) := by
  unfold Report.addFile
  rw [h.get?_eq_none hname hb]
  exact h.put hname _

theorem addData (h : r.Named heads) (hname : name.head? = some b) (hb : b ∉ heads) (date data : Bytes) :
    ∃ r', r.addData date name data = .ok r' ∧ r'.Named (b :: heads) := by
  unfold Report.addData Dict.contains
  rw [h.get?_eq_none hname hb]
  exact h.put hname _

theorem addCopy (h : r.Named heads) (hname : name.head? = some b) (nanos : Nat)
    (path actual date : Bytes) :
    ∃ r', r.addCopy (r.copyName name nanos) path actual date = .ok r' ∧ r'.Named (b :: heads) := by
  refine h.put ?_ _
  unfold copyName
  split
  · rw [List.append_assoc, List.head?_append, hname]
    rfl
  · exact hname

end Named

/-- A copy that the report takes, or that could not be made. -/
theorem storeCopy_not_refused {w : Machine} (h : r.Named heads) (hname : name.head? = some b)
    (path : Bytes) {answer : Except CopyError Report} {w' : Machine}
    (hrun : (r.storeCopy name path : StateM Machine _).run w = (answer, w')) :
    (∀ r', answer = .ok r' → r'.Named (b :: heads)) ∧
      ∀ e, answer = .error e → ∀ refusal, e ≠ .refused refusal := by
  have hlost : ∀ {e : CopyError}, answer = .error e → (∀ refusal, e ≠ .refused refusal) →
      (∀ r', answer = .ok r' → r'.Named (b :: heads)) ∧
        ∀ e, answer = .error e → ∀ refusal, e ≠ .refused refusal := by
    rintro e rfl he
    refine ⟨fun r' hr' => (nomatch hr'), ?_⟩
    rintro _ ⟨⟩
    exact he
  obtain ⟨full, w₁, _, hrun⟩ := run_bind_eq_iff.mp hrun
  obtain ⟨found, w₂, _, hrun⟩ := run_bind_eq_iff.mp hrun
  split at hrun
  · cases hrun
    exact hlost rfl nofun
  · cases hrun
    exact hlost rfl nofun
  · obtain ⟨moment, w₃, _, hrun⟩ := run_bind_eq_iff.mp hrun
    obtain ⟨made, w₄, _, hrun⟩ := run_bind_eq_iff.mp hrun
    split at hrun
    · cases hrun
      exact hlost rfl nofun
    · obtain ⟨copied, w₅, _, hrun⟩ := run_bind_eq_iff.mp hrun
      split at hrun
      · obtain ⟨_, w₆, _, hrun⟩ := run_bind_eq_iff.mp hrun
        cases hrun
        exact hlost rfl nofun
      · next actual _ =>
        obtain ⟨r', hadd, hnamed⟩ := h.addCopy hname moment.nanos path actual moment.date
        rw [hadd] at hrun
        cases hrun
        refine ⟨?_, fun e he => nomatch he⟩
        rintro _ ⟨⟩
        exact hnamed

end Report

/-- If there is a report, it is to be written, and its names start with the bytes in `heads`. -/
def NamedBy (heads : List UInt8) (ρ : Option Report) : Prop := ∀ r ∈ ρ, r.Named heads

namespace Reporting

variable {heads : List UInt8} {b : UInt8} {name : Bytes}

theorem yields_update {f : Report → StateM Machine (Except ε Report)} {E : ε → Prop}
    (hf : ∀ r w answer w', r.Named heads → (f r).run w = (answer, w') →
      (∀ r', answer = .ok r' → r'.Named (b :: heads)) ∧ ∀ e, answer = .error e → E e) :
    Yields (NamedBy heads) (update f) fun answer ρ =>
      (∀ e, answer = .error e → E e) ∧ NamedBy (b :: heads) ρ := by
  intro ρ w hρ
  cases ρ with
  | none =>
      refine ⟨?_, nofun⟩
      rintro e ⟨⟩
  | some r =>
      obtain ⟨⟨answer, w'⟩, hrun⟩ : ∃ out, (f r).run w = out := ⟨_, rfl⟩
      obtain ⟨hok, herror⟩ := hf r w answer w' (hρ r rfl) hrun
      rw [run_update hrun]
      cases answer with
      | error e =>
          refine ⟨?_, ?_⟩
          · rintro _ ⟨⟩
            exact herror e rfl
          · rintro _ ⟨⟩
            exact (hρ r rfl).mono b
      | ok r' =>
          refine ⟨nofun, ?_⟩
          rintro _ ⟨⟩
          exact hok r' rfl

theorem yields_store (hname : name.head? = some b) (hb : b ∉ heads) (path : Bytes) :
    Yields (NamedBy heads) (store name path) fun answer ρ =>
      (∀ e, answer ≠ .error e) ∧ NamedBy (b :: heads) ρ := by
  refine yields_update ?_
  intro r w answer w' hr hrun
  obtain ⟨r', hadd, hr'⟩ := hr.addFile hname hb w.dir path
  cases hrun
  rw [hadd]
  refine ⟨?_, nofun⟩
  rintro _ ⟨⟩
  exact hr'

theorem yields_storeData (hname : name.head? = some b) (hb : b ∉ heads) (data : Bytes) :
    Yields (NamedBy heads) (storeData name data) fun answer ρ =>
      (∀ e, answer ≠ .error e) ∧ NamedBy (b :: heads) ρ := by
  refine yields_update ?_
  intro r w answer w' hr hrun
  obtain ⟨r', hadd, hr'⟩ := hr.addData hname hb w.now.1.date data
  cases hrun
  refine ⟨?_, ?_⟩
  · rintro _ h
    cases hadd.symm.trans h
    exact hr'
  · rintro _ h
    cases hadd.symm.trans h

theorem yields_storeCopy (hname : name.head? = some b) (path : Bytes) :
    Yields (NamedBy heads) (storeCopy name path) fun answer ρ =>
      (∀ e, answer = .error e → ∀ refusal, e ≠ .refused refusal) ∧ NamedBy (b :: heads) ρ :=
  yields_update fun _ _ _ _ hr hrun => Report.storeCopy_not_refused hr hname path hrun

end Reporting

/-! ## Commands -/

/-- What a command fails with is not that the report refuses an item. -/
def Failure.Survived (e : Failure) : Prop := ∀ refusal, e ≠ .refused refusal

namespace Action

variable {heads : List UInt8} {b : UInt8} {name : Bytes}

theorem yields_store (hname : name.head? = some b) (hb : b ∉ heads) (path : Bytes) :
    Attempt.Yields (NamedBy heads) (store name path : Action (StateM Machine) Unit)
      (fun _ => NamedBy (b :: heads)) Failure.Survived := by
  refine .bind (.report (Reporting.yields_store hname hb path)) fun answer => .known fun hok => ?_
  exact .ofExcept answer fun e he => absurd he (hok e)

theorem yields_storeData (hname : name.head? = some b) (hb : b ∉ heads) (data : Bytes) :
    Attempt.Yields (NamedBy heads) (storeData name data : Action (StateM Machine) Unit)
      (fun _ => NamedBy (b :: heads)) Failure.Survived := by
  refine .bind (.report (Reporting.yields_storeData hname hb data)) fun answer => .known fun hok => ?_
  exact .ofExcept answer fun e he => absurd he (hok e)

theorem yields_storeInput (log : Log.Logger) (path : Bytes) :
    Attempt.Yields (NamedBy heads) (storeInput log path)
      (fun _ => NamedBy (105 :: heads)) Failure.Survived := by
  refine .bind (.report (Reporting.yields_storeCopy rfl path)) fun answer => .known fun hlost => ?_
  split
  · exact .pure fun _ hρ => hρ
  · next refusal => exact absurd rfl (hlost _ rfl refusal)
  · exact .lift _

theorem yields_proceed (env : Environment) :
    Attempt.Yields P (proceed env : Action (StateM Machine) Unit) (fun _ => P) Failure.Survived := by
  unfold proceed
  split
  · exact .throw nofun
  · exact .pure fun _ hρ => hρ

theorem yields_stylesheet (log : Log.Logger) (command : Bytes) (line : Line) :
    Attempt.Yields P (stylesheet log command line) (fun _ => P) Failure.Survived := by
  unfold stylesheet
  split
  · exact .throw nofun
  · split
    · exact .throw nofun
    · exact .first (fun hrest => .bind (.lift _) fun _ => hrest) (.pure fun _ hρ => hρ)

theorem yields_scan (log : Log.Logger) (path source : Bytes) :
    Attempt.Yields P (scan log path source) (fun _ => P) Failure.Survived :=
  .bind (.lift _) fun _ => .bind (.lift _) fun _ => .pure fun _ hρ => hρ

end Action

/-- The report takes what the command gives it, if only the start of the run has used it:
the configuration, the log and the file for the output of a crash are in it. -/
def Accepted (x : Action (StateM Machine) α) : Prop :=
  Attempt.Yields (NamedBy [102, 112, 99]) x (fun _ _ => True) Failure.Survived

namespace Accepted

theorem dedupe [Codecs] (env : Environment) (command : Bytes) (line : Line) :
    Accepted (Dedupe.run env command line) := by
  have hkeep : ∀ {P : Option Report → Prop} (o : Dedupe.Options), Attempt.Yields P
      (Dedupe.keep o : Action (StateM Machine) Unit) (fun _ => P) Failure.Survived := by
    intro P o
    unfold Dedupe.keep
    split
    · refine .bind (.lift _) fun _ => .bind (.ofExcept _ fun _ _ => nofun) fun data => ?_
      exact .bind (.lift _) fun _ => .ofExcept _ fun _ _ => nofun
    · exact .pure fun _ hρ => hρ
  have hprocess : ∀ (o : Dedupe.Options) (log : Log.Logger), Attempt.Yields (NamedBy [102, 112, 99])
      (Dedupe.process o log) (fun _ _ => True) Failure.Survived := by
    intro o log
    rw [Dedupe.process_eq]
    refine .bind (.lift _) fun _ => .bind (.ofExcept _ fun _ _ => nofun) fun data => ?_
    refine .bind (Action.yields_storeInput log _) fun _ => ?_
    refine .bind (Action.yields_scan _ _ _) fun sheet => ?_
    refine .bind (hkeep o) fun _ => ?_
    refine .bind (.lift _) fun _ => .bind (.ofExcept _ fun _ _ => nofun) fun _ => ?_
    refine .bind (Action.yields_store (b := 111) rfl (by decide) _) fun _ => ?_
    exact .bind (.lift _) fun _ => .pure fun _ _ => trivial
  refine .bind (Action.yields_proceed env) fun _ => ?_
  refine .bind (Action.yields_stylesheet _ _ _) fun path => .bind (.lift _) fun _ => .before ?_
  refine .bind (hprocess _ _) fun n => .bind (.lift _) fun fine => ?_
  split
  · exact .throw nofun
  · exact .pure fun _ _ => trivial

theorem analyze [Codecs] (env : Environment) (command : Bytes) (line : Line) :
    Accepted (Analyze.run env command line) := by
  have hsummarize : ∀ {P : Option Report → Prop} log path charset limit, Attempt.Yields P
      (Analyze.summarize log path charset limit : Action (StateM Machine) Summary)
      (fun _ => P) Failure.Survived := by
    intro P log path charset limit
    refine .bind (.lift _) fun _ => .bind (.ofExcept _ fun _ _ => nofun) fun data => ?_
    refine .bind (Action.yields_scan _ _ _) fun sheet => ?_
    exact .bind (.lift _) fun _ => .pure fun _ hρ => hρ
  refine .bind (Action.yields_proceed env) fun _ => ?_
  refine .bind (Action.yields_stylesheet _ _ _) fun path => .bind (.lift _) fun _ => .before ?_
  refine .bind (hsummarize _ _ _ _) fun summary => .bind (Action.yields_storeInput _ _) fun _ => ?_
  refine .bind (Action.yields_storeData (b := 97) rfl (by decide) _) fun _ => ?_
  refine .bind (.lift _) fun fine => ?_
  split
  · exact .throw nofun
  · exact .pure fun _ _ => trivial

theorem dumpConfig (env : Environment) (line : Line) : Accepted (DumpConfig.run env line) := by
  refine .first (fun hrest => .bind (.lift _) fun _ => hrest) ?_
  refine .first (fun hrest => ?_) ?_
  · exact .bind (.lift _) fun _ => .bind (.ofExcept _ fun _ _ => nofun) fun _ => hrest
  refine .bind (.lift _) fun _ => ?_
  split
  · refine .bind (.lift _) fun fine => ?_
    split
    · exact .throw nofun
    · exact .pure fun _ _ => trivial
  · refine .mono (Q := fun _ => NamedBy [102, 112, 99]) (E := Failure.Survived) ?_
      (fun _ _ _ => trivial) fun _ he => he
    exact .bind (.lift _) fun _ => .ofExcept _ fun _ _ => nofun

theorem perform [Codecs] (env : Environment) (request : Program.Request) :
    Accepted (Program.perform env request) := by
  have hprint : ∀ text, Accepted (do let _ ← (Host.print text : StateM Machine Bool) :
      Action (StateM Machine) Unit) :=
    fun text => .bind (.lift _) fun _ => .pure fun _ _ => trivial
  unfold Program.perform
  split
  · exact hprint _
  · exact hprint _
  · split
    · exact hprint _
    · exact .mono (.lift _) (fun _ _ _ => trivial) fun _ he => he
  · exact analyze _ _ _
  · exact dedupe _ _ _
  · exact dumpConfig _ _

end Accepted

/-! ## The start of a run -/

namespace Log

structure Logger.Speaks (console : Channel) (l : Logger) : Prop where
  name : l.name = Identity.name
  console : ∀ o ∈ consoleOutlets console, o ∈ l.outlets

/-- There is no log since no file can be written. -/
def SetupError.IsLost (e : SetupError) : Prop := ∃ destination cause, e = .unavailable destination cause

namespace Setup

variable {heads : List UInt8} {b : UInt8} {name : Bytes}

theorem yields_store (hname : name.head? = some b) (hb : b ∉ heads) (path : Bytes) :
    Attempt.Yields (NamedBy heads) (store name path : Attempt SetupError Unit)
      (fun _ => NamedBy (b :: heads)) SetupError.IsLost := by
  refine .bind (.report (Reporting.yields_store hname hb path)) fun answer => .known fun hok => ?_
  split
  · exact .pure fun _ hρ => hρ
  · next refusal => exact absurd rfl (hok refusal)

theorem yields_openCrashFile (file : Channel) (hb : 112 ∉ heads) :
    Attempt.Yields (NamedBy heads) (openCrashFile file : Attempt SetupError Unit)
      (fun _ => NamedBy (112 :: heads)) SetupError.IsLost := by
  refine .bind (.lift _) fun opened => ?_
  split
  · exact yields_store rfl hb _
  · exact .pure fun _ hρ r hr => (hρ r hr).mono 112

theorem yields_openLog (file : Channel) (hb : 102 ∉ heads) :
    Attempt.Yields (NamedBy heads) (openLog file : Attempt SetupError Opened)
      (fun _ => NamedBy (102 :: heads)) SetupError.IsLost := by
  refine .bind (.lift _) fun opened => ?_
  split
  · exact .throw fun _ _ => ⟨_, _, rfl⟩
  · exact .bind (yields_store rfl hb _) fun _ => .pure fun _ hρ => hρ

theorem yields_run (file console : Channel) :
    Attempt.Yields (NamedBy [99]) (run file console : Attempt SetupError Logger)
      (fun l ρ => l.Speaks console ∧ NamedBy [102, 112, 99] ρ) SetupError.IsLost := by
  refine .bind (.report .get) fun ρ => ?_
  dsimp only
  split
  · refine .pure fun ρ hρ => ⟨⟨rfl, fun o ho => ho⟩, ?_⟩
    exact fun r hr => ((hρ r hr).mono 112).mono 102
  · refine .bind (yields_openCrashFile _ (by decide)) fun _ => ?_
    refine .bind (yields_openLog _ (by decide)) fun log => ?_
    refine .first (fun hrest => .bind (.lift _) fun _ => hrest) (.pure fun ρ hρ => ⟨⟨rfl, ?_⟩, hρ⟩)
    exact fun o ho => List.mem_append_left _ ho

end Setup

end Log

namespace Program

theorem create_named (path : Bytes) (w : Machine) :
    ∀ r, ((Report.create path : StateM Machine _).run w).1 = .ok r → r.Named [] := by
  intro r h
  obtain ⟨file, rfl⟩ := Report.create_ok (Prod.ext h rfl)
  exact ⟨rfl, fun _ hname => nomatch hname⟩

theorem yields_startReport (line : Line) (path : Bytes) (c : Config) :
    Attempt.Yields (· = none) (startReport line path c : Attempt StartError Unit)
      (fun _ => NamedBy [99]) fun e => ∃ cause, e = .report cause := by
  unfold startReport
  split
  · refine .bind (.report (.answer (φ := fun made => ∀ r, made = .ok r → r.Named [])
      (create_named c.report))) fun made => .known fun hmade => ?_
    split
    · next e => exact .throw fun _ _ => ⟨e, rfl⟩
    · next r =>
      have hr : NamedBy [] (some r) := by
        rintro _ ⟨⟩
        exact hmade r rfl
      refine .bind (.report (.set hr)) fun _ => ?_
      split
      · refine .bind (.report (Reporting.yields_storeData rfl (by decide) _)) fun answer => ?_
        refine .known fun hok => ?_
        split
        · next refusal => exact absurd rfl (hok refusal)
        · exact .pure fun _ hρ => hρ
      · exact .pure fun ρ hρ r hr => (hρ r hr).mono 99
  · refine .pure fun ρ hρ r hr => ?_
    rw [hρ] at hr
    cases hr

theorem yields_startLog (c : Config) :
    Attempt.Yields (NamedBy [99]) (startLog c : Attempt StartError Log.Logger)
      (fun l ρ => l.Speaks c.console ∧ NamedBy [102, 112, 99] ρ)
      fun e => ∃ cause : Log.SetupError, cause.IsLost ∧ e = .log cause := by
  refine .bind (.report (Log.Setup.yields_run c.file c.console)) fun answer => ?_
  split
  · next l => exact .pure fun ρ hρ => hρ.1 l rfl
  · next e => exact .throw fun _ hρ => ⟨e, hρ.2 e rfl, rfl⟩

theorem yields_announce (l : Log.Logger) (args : List Bytes) (path : Bytes) :
    Reporting.Yields P (announce l args path : Reporting (StateM Machine) Unit) fun _ => P := by
  have hrest : Reporting.Yields P (if path.isEmpty then
      (l.log .debug "Using defaults (no configuration file)" : StateM Machine Unit)
      else pure () : Reporting (StateM Machine) Unit) fun _ => P := by
    split
    · exact .lift _
    · exact .pure fun _ hρ => hρ
  refine .bind (.lift _) fun _ => .bind (.lift _) fun _ => .bind .get fun ρ => ?_
  dsimp only
  split
  · refine .bind (.bind .get fun ρ => ?_) fun _ => .bind (.lift _) fun _ => hrest
    split
    · exact .pure fun _ hρ => hρ
    · exact .lift _
  · exact hrest

theorem yields_start (line : Line) (args : List Bytes) (c : Config) :
    Attempt.Yields (· = none) (start line args c : Attempt StartError Environment)
      (fun env ρ => env.logger.Speaks c.console ∧ NamedBy [102, 112, 99] ρ) fun _ => True := by
  refine .bind (.mono (yields_startReport _ _ _) (fun _ _ hρ => hρ) fun _ _ => trivial) fun _ => ?_
  refine .bind (.mono (yields_startLog c) (fun _ _ hρ => hρ) fun _ _ => trivial) fun l => ?_
  refine .bind (.report (yields_announce _ _ _)) fun _ => .bind (.lift _) fun charset => ?_
  exact .pure fun _ hρ => hρ

/-- A run that cannot start has no report that it was asked for, and has told nothing yet, or
it has no log. -/
theorem start_error {line : Line} {args : List Bytes} {c : Config} {e : StartError} {ρ : Option Report}
    {w w' : Machine} (h : Attempt.Ran (start line args c) none w (.error e) ρ w') :
    (∃ cause, e = .report cause ∧ w'.err = w.err) ∨
      ∃ cause : Log.SetupError, cause.IsLost ∧ e = .log cause := by
  rcases h.bind_error with h | ⟨_, ρ₁, w₁, hreport, h⟩
  · obtain ⟨cause, rfl⟩ := ((yields_startReport _ _ _).ran h rfl).2 e rfl
    have hquiet := (quiet_err (· = w.err)).startReport line ((line.text? config.name).getD []) c
    exact Or.inl ⟨cause, rfl, hquiet.ran h rfl⟩
  · have hnamed := ((yields_startReport _ _ _).ran hreport rfl).1 _ rfl
    rcases h.bind_error with h | ⟨l, ρ₂, w₂, _, h⟩
    · exact Or.inr (((yields_startLog c).ran h hnamed).2 e rfl)
    · have hrest : Attempt.Yields (fun _ => True) (do
          (announce l args ((line.text? config.name).getD []) : Reporting (StateM Machine) Unit)
          let charset ← (chooseCharset l line c : StateM Machine _)
          return ⟨some c, l, charset, false⟩ : Attempt StartError Environment)
          (fun _ _ => True) fun _ => False :=
        .bind (.report (yields_announce _ _ _)) fun _ => .bind (.lift _) fun _ => .pure fun _ hρ => hρ
      exact ((hrest.ran h trivial).2 e rfl).elim

end Program

end Cascade
