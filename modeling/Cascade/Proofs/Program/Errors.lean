import Cascade.Proofs.Program.Refusals

/-!
# The errors of a run

What goes wrong in a run decides how it ends, and is told on the error stream, if only the
run gets as far as having a log.
-/

namespace Cascade

variable {I : Machine → Prop}

namespace Program

inductive Fault where
  /-- A command is not called as it should be. -/
  | usage (synopsis : Bytes)
  | error (message : Bytes)
deriving DecidableEq

namespace Fault

def ofResult? : Except Failure Unit → Option Fault
  | .ok () => none
  | .error (.usage e) => some (.usage e.synopsis)
  | .error e => some (.error e.message)

/-- Errors at the end of a run are told together. -/
def ofEnd? (errors : List EndError) : Option Fault :=
  if errors.isEmpty then none else some (.error (Log.joined (errors.map EndError.message)))

def status : List Fault → Nat
  | [] => 0
  | [.usage _] => 2
  | _ => 1

def isUsage : Fault → Bool
  | .usage _ => true
  | .error _ => false

/-- The exit code that is due: a wrong call has its own, whatever else goes wrong. -/
def due (faults : List Fault) : Nat :=
  if faults.isEmpty then 0 else if faults.any isUsage then 2 else 1

end Fault

/-! ## The end of a run in parts -/

section Parts

variable [Codecs] {m : Type → Type} [Monad m] [Host m]

def leftovers (logger : Log.Logger) (arguments : List Bytes) (c : Config) :
    Reporting m (List EndError) := do
  let moment ← (Host.now : m _)
  (logger.log .debug "Program ended" [("elapsed", .text moment.elapsed),
    ("parsed args", .list arguments)] : m Unit)
  let left ← Reporting.close
  let unremoved ← (removeCrashFile c : m _)
  return (if left.isEmpty then [] else [.report left]) ++ unremoved

def tell (logger : Log.Logger) (error : Log.Value) : m Unit :=
  logger.log .error "Program ended with error" [("error", error)]

theorem finish_eq [LawfulMonad m] (logger : Log.Logger) (arguments : List Bytes) (c : Config) :
    (finish logger arguments c : Reporting m Bool) = do
      let errors ← leftovers logger arguments c
      if errors.isEmpty then return true
      else
        (tell logger (.errors (errors.map EndError.message)) : m Unit)
        return false := by
  unfold finish leftovers tell
  simp only [bind_assoc, pure_bind]

def tellFault (logger : Log.Logger) : Option Fault → m Unit
  | some (.error message) => tell logger (.text message)
  | _ => pure ()

def putAway (logger : Log.Logger) (arguments : List Bytes) (c : Config) (fault : Option Fault) :
    Reporting m (List EndError) := do
  (tellFault logger fault : m Unit)
  leftovers logger arguments c

def lastWords (logger : Log.Logger) (fault : Option Fault) (errors : List EndError) : m Unit :=
  if errors.isEmpty then
    match fault with
    | some (.usage synopsis) => Host.complain (usageLine synopsis)
    | _ => pure ()
  else tell logger (.errors (errors.map EndError.message))

theorem carryOut_eq [LawfulMonad m] (env : Environment) (i : Invocation) (c : Config) :
    (carryOut env i c : Reporting m Exit) = do
      let r ← (perform env i.request).run
      match r with
      | .error (.refused refusal) => return .crash refusal.message
      | r => do
        let errors ← putAway env.logger i.arguments c (Fault.ofResult? r)
        (lastWords env.logger (Fault.ofResult? r) errors : m Unit)
        return .code (Fault.status ((Fault.ofResult? r).toList ++ (Fault.ofEnd? errors).toList)) := by
  unfold carryOut
  refine congrArg _ (funext fun r => ?_)
  -- A failure other than a wrong call is told first, and nothing changes its exit code.
  have hfailed : ∀ message : Bytes, (do
      (tell env.logger (.text message) : m Unit)
      let _ ← finish env.logger i.arguments c
      return .code 1 : Reporting m Exit) = (do
        let errors ← putAway env.logger i.arguments c (some (.error message))
        (lastWords env.logger (some (.error message)) errors : m Unit)
        return .code (Fault.status (.error message :: (Fault.ofEnd? errors).toList))) := by
    intro message
    simp only [finish_eq, putAway, tellFault, bind_assoc]
    refine congrArg _ (funext fun _ => congrArg _ (funext fun errors => ?_))
    cases errors with
    | nil => simp [lastWords, Fault.status]
    | cons e es => simp [lastWords, Fault.status]
  cases r with
  | ok u =>
      simp only [finish_eq, Fault.ofResult?, putAway, tellFault, bind_assoc, liftM_pure, pure_bind]
      refine congrArg _ (funext fun errors => ?_)
      cases errors with
      | nil => simp [lastWords, Fault.ofEnd?, Fault.status]
      | cons e es => simp [lastWords, Fault.ofEnd?, Fault.status]
  | error e =>
      cases e with
      | refused r => rfl
      | usage synopsis =>
          simp only [finish_eq, Fault.ofResult?, putAway, tellFault, bind_assoc, liftM_pure, pure_bind]
          refine congrArg _ (funext fun errors => ?_)
          cases errors with
          | nil => simp [lastWords, Fault.ofEnd?, Fault.status]
          | cons e es => simp [lastWords, Fault.ofEnd?, Fault.status]
      | _ => exact hfailed _

end Parts

/-! ## What a run meets -/

structure Loads (args : List Bytes) (w : Machine) (i : Invocation) (c : Config) (w₁ : Machine) : Prop where
  parse : Invocation.parse args = .ok i
  not_help : i.request ≠ .help
  not_version : i.request ≠ .version
  load : (Config.load ((i.line.text? config.name).getD []) : StateM Machine _).run w = (.ok c, w₁)

/-- The run has read its configuration, and cannot start. -/
def StartFails (args : List Bytes) (w : Machine) (e : StartError) : Prop :=
  ∃ i c w₁ ρ w₂, Loads args w i c w₁ ∧
    Attempt.Ran (start i.line args c) none w₁ (.error e) ρ w₂

def faultsWith [Codecs] (args : List Bytes) (i : Invocation) (c : Config) :
    Reporting (StateM Machine) (List Fault) := do
  match ← (start i.line args c).run with
  | .error e => return [.error e.message]
  | .ok env =>
    let r ← (perform env i.request).run
    let errors ← putAway env.logger i.arguments c (Fault.ofResult? r)
    return (Fault.ofResult? r).toList ++ (Fault.ofEnd? errors).toList

/-- What goes wrong in a run, in the order in which the run meets it. -/
def faults [Codecs] (args : List Bytes) : StateM Machine (List Fault) := do
  match Invocation.parse args with
  | .error e => return [.error e.message]
  | .ok i =>
    match i.request with
    | .help => return []
    | .version => return []
    | _ =>
      match ← Config.load ((i.line.text? config.name).getD []) with
      | .error e => return [.error (StartError.config e).message]
      | .ok c => (faultsWith args i c).run' none

def errorEntry (value : Log.Value) : Log.Entry :=
  ⟨.error, Identity.name, text "Program ended with error", [(text "error", value)]⟩

def loggedLine (message stamp : Bytes) : Bytes := (errorEntry (.text message)).line stamp

/-- Behind `old`, the error stream has a line for the error. -/
def Shown (message old err : Bytes) : Prop :=
  ∃ new, err = old ++ new ∧
    (errorLine message <:+: new ∨ ∃ stamp, loggedLine message stamp <:+: new)

/-- Whatever goes wrong is told, a wrong call last of all and with an exit code of its own. -/
structure Loud (faults : List Fault) (old : Bytes) (exit : Exit) (err : Bytes) : Prop where
  code : exit = .code (Fault.due faults)
  usage : ∀ synopsis, .usage synopsis ∈ faults → ∃ new, err = old ++ new ++ usageLine synopsis
  error : ∀ message, .error message ∈ faults → Shown message old err

/-- What a run does that has a log: it says how a command is called only if nothing else
goes wrong. -/
structure Told (faults : List Fault) (old : Bytes) (exit : Exit) (err : Bytes) : Prop where
  code : exit = .code (Fault.status faults)
  usage : ∀ synopsis, faults = [.usage synopsis] → ∃ new, err = old ++ new ++ usageLine synopsis
  error : ∀ message, .error message ∈ faults → Shown message old err

/-- A command is not called as it should be, and something else goes wrong too. -/
def Spoiled (faults : List Fault) : Prop :=
  ∃ synopsis, .usage synopsis ∈ faults ∧ faults ≠ [.usage synopsis]

theorem Fault.due_of_usage {faults : List Fault} {synopsis : Bytes}
    (h : .usage synopsis ∈ faults) : Fault.due faults = 2 := by
  have hany : faults.any Fault.isUsage := List.any_eq_true.mpr ⟨_, h, rfl⟩
  cases faults with
  | nil => cases h
  | cons f fs => simp [Fault.due, hany]

theorem Fault.status_of_spoiled {faults : List Fault} (h : Spoiled faults) :
    Fault.status faults = 1 := by
  obtain ⟨synopsis, hmem, hne⟩ := h
  unfold Fault.status
  split
  · cases hmem
  · next other =>
      cases List.mem_singleton.mp hmem
      exact absurd rfl hne
  · rfl

theorem Fault.status_eq_due {faults : List Fault} (h : ¬ Spoiled faults) :
    Fault.status faults = Fault.due faults := by
  unfold Fault.status
  split
  · rfl
  · rfl
  · next hnil hone =>
      have hany : faults.any Fault.isUsage = false := by
        refine List.any_eq_false.mpr ?_
        rintro (synopsis | message) hmem
        · exact absurd ⟨synopsis, hmem, hone synopsis⟩ h
        · exact Bool.false_ne_true
      have hempty : faults.isEmpty = false := by simpa using hnil
      simp [Fault.due, hany, hempty]

/-- What a run tells is all there is to tell, unless a wrong call goes under. -/
theorem Told.loud_iff {faults : List Fault} {old : Bytes} {exit : Exit} {err : Bytes}
    (h : Told faults old exit err) : Loud faults old exit err ↔ ¬ Spoiled faults := by
  constructor
  · intro hloud hspoiled
    obtain ⟨synopsis, hmem, _⟩ := id hspoiled
    have hcode := hloud.code.symm.trans h.code
    rw [Fault.due_of_usage hmem, Fault.status_of_spoiled hspoiled] at hcode
    cases hcode
  · intro hclean
    refine ⟨Fault.status_eq_due hclean ▸ h.code, ?_, h.error⟩
    intro synopsis hmem
    refine h.usage synopsis ?_
    by_contra hne
    exact hclean ⟨synopsis, hmem, hne⟩

section Loads

variable {args : List Bytes} {w w₁ w' : Machine} {i : Invocation} {c : Config} {ρ : Option Report}

theorem run_eq [Codecs] (hparse : Invocation.parse args = .ok i) (hhelp : i.request ≠ .help)
    (hversion : i.request ≠ .version) : (run args : StateM Machine Exit) = (do
      match ← Config.load ((i.line.text? config.name).getD []) with
      | .error e =>
        Host.complain (errorLine (StartError.config e).message)
        return .code 1
      | .ok c => (runConfigured args i c).run' none) := by
  unfold run
  rw [hparse]
  dsimp only
  split
  · contradiction
  · contradiction
  · rfl

theorem faults_eq [Codecs] (hparse : Invocation.parse args = .ok i) (hhelp : i.request ≠ .help)
    (hversion : i.request ≠ .version) : faults args = (do
      match ← Config.load ((i.line.text? config.name).getD []) with
      | .error e => return [.error (StartError.config e).message]
      | .ok c => (faultsWith args i c).run' none) := by
  unfold faults
  rw [hparse]
  dsimp only
  split
  · contradiction
  · contradiction
  · rfl

theorem run_of_loads [Codecs] {exit : Exit} (h : Loads args w i c w₁)
    (hrun : Reporting.Ran (runConfigured args i c) none w₁ exit ρ w') :
    (run args : StateM Machine Exit).run w = (exit, w') := by
  rw [run_eq h.parse h.not_help h.not_version]
  refine run_bind_eq_iff.mpr ⟨_, _, h.load, ?_⟩
  exact congrArg (fun out => (out.1.1, out.2)) hrun

theorem faults_of_loads [Codecs] {fs : List Fault} (h : Loads args w i c w₁)
    (hrun : Reporting.Ran (faultsWith args i c) none w₁ fs ρ w') :
    (faults args).run w = (fs, w') := by
  rw [faults_eq h.parse h.not_help h.not_version]
  refine run_bind_eq_iff.mpr ⟨_, _, h.load, ?_⟩
  exact congrArg (fun out => (out.1.1, out.2)) hrun

end Loads

end Program

/-! ## Telling -/

theorem lasting_err {P : Bytes → Prop} (hP : ∀ err data, P err → P (err ++ data)) :
    Lasting fun w => P w.err where
  toQuiet := quiet_err P
  complain := fun data w hw => hP w.err data hw

theorem lasting_append (old : Bytes) : Lasting fun w => old <+: w.err :=
  lasting_err fun err data h => h.trans (List.prefix_append err data)

theorem lasting_shown (message old : Bytes) : Lasting fun w => Program.Shown message old w.err := by
  refine lasting_err ?_
  rintro _ data ⟨new, rfl, hline⟩
  refine ⟨new ++ data, by rw [List.append_assoc], ?_⟩
  rcases hline with hline | ⟨stamp, hline⟩
  · exact Or.inl (hline.trans (List.infix_append' [] new data))
  · exact Or.inr ⟨stamp, hline.trans (List.infix_append' [] new data)⟩

/-- One of several steps establishes what all of them keep. -/
theorem forM_establishes {α : Type} {J : Machine → Prop} {g : α → StateM Machine Unit} {a : α}
    (hg : ∀ w, J w → I ((g a).run w).2) (hJ : ∀ a, Preserves J (g a)) (hI : ∀ a, Preserves I (g a))
    {as : List α} (ha : a ∈ as) : ∀ w, J w → I ((as.forM g).run w).2 := by
  induction as with
  | nil => cases ha
  | cons b bs ih =>
      intro w hw
      rcases List.mem_cons.mp ha with rfl | ha
      · have hrest : Preserves I (bs.forM g) := Preserves.forM fun b _ => hI b
        exact hrest _ (hg w hw)
      · exact ih ha _ (hJ b w hw)

namespace Program

/-- What is told is on the error stream, whatever else the log writes to. -/
theorem shown_tell {l : Log.Logger} (hname : l.name = Identity.name) (herrors : .errors ∈ l.outlets)
    {value : Log.Value} {message : Bytes} (hvalue : value.brief = .text message) {old : Bytes}
    {w : Machine} (hw : old <+: w.err) :
    Shown message old ((tell l value : StateM Machine Unit).run w).2.err := by
  have hemit : ((tell l value : StateM Machine Unit).run w).2 =
      (((l.outlets.filter fun o => o.takes .error).forM
        (Log.Logger.deliver (errorEntry value) w.now.1.stamp) : StateM Machine Unit).run w.now.2).2 := by
    unfold errorEntry
    rw [← hname]
    rfl
  have hline : (errorEntry value).brief.line w.now.1.stamp = loggedLine message w.now.1.stamp := by
    show (errorEntry value.brief).line _ = _
    rw [hvalue]
    rfl
  have hdeliver : ∀ {I : Machine → Prop}, Lasting I → ∀ o : Log.Outlet,
      Preserves I (Log.Logger.deliver (errorEntry value) w.now.1.stamp o : StateM Machine Unit) := by
    intro I hI o
    cases o with
    | memory => exact hI.record _
    | output least => exact .bind (hI.print _) fun _ => .pure _
    | errors => exact hI.complain _
    | file path least => exact .bind (hI.extend _ _) fun _ => .pure _
  rw [hemit]
  refine forM_establishes (J := fun w => old <+: w.err) (a := .errors) ?_
    (hdeliver (lasting_append old)) (hdeliver (lasting_shown message old)) ?_ w.now.2 hw
  · rintro w₁ ⟨new, hnew⟩
    refine ⟨new ++ loggedLine message w.now.1.stamp, ?_, ?_⟩
    · show w₁.err ++ (errorEntry value).brief.line _ = _
      rw [hline, ← hnew, List.append_assoc]
    · exact Or.inr ⟨w.now.1.stamp, (List.suffix_append _ _).isInfix⟩
  · exact List.mem_filter.mpr ⟨herrors, rfl⟩

theorem preserves_leftovers [Codecs] (hI : Quiet I) {l : Log.Logger} (hlog : l.Preserves I)
    (arguments : List Bytes) (c : Config) :
    Reporting.Preserves I (leftovers l arguments c : Reporting (StateM Machine) _) := by
  refine .bind (.lift hI.now) fun moment => .bind (.lift (hlog _)) fun _ => ?_
  exact .bind hI.closeReport fun left => .bind (.lift (hI.removeCrashFile c)) fun _ => .pure _

/-- Without a log, the end of a run is silent. -/
theorem preserves_finish_silent [Codecs] (hI : Quiet I) (arguments : List Bytes) (c : Config) :
    Reporting.Preserves I (finish Log.Logger.silent arguments c : Reporting (StateM Machine) Bool) := by
  rw [finish_eq]
  refine .bind (preserves_leftovers hI hI.silent arguments c) fun errors => ?_
  split
  · exact .pure _
  · exact .bind (.lift (hI.silent _)) fun _ => .pure _

end Program

/-! ## The console -/

/-- A console that is not turned off shows errors. -/
theorem errors_mem_consoleOutlets {path : Bytes} {c : Config} {w w' : Machine}
    (h : (Config.load path : StateM Machine _).run w = (.ok c, w'))
    (hlevel : c.console.level ≠ Channel.none) : .errors ∈ Log.consoleOutlets c.console := by
  obtain ⟨file, console, report, hnone⟩ := Config.violations_of_load h
  have hmem : Config.levels.contains c.console.level := by
    unfold Config.violations Config.channelViolations at hnone
    simp only [List.append_eq_nil_iff, Config.firstFailing_eq_nil_iff] at hnone
    exact hnone.1.2.1.1 _ (List.mem_cons_of_mem _ List.mem_cons_self)
  have hleast : c.console.least? ≠ none := by
    unfold Channel.least?
    split
    · nofun
    · split
      · nofun
      · simp_all [Config.levels]
  unfold Log.consoleOutlets
  split
  · contradiction
  · exact List.mem_cons_self

namespace Program

/-! ## How a run ends -/

/-- Behind its start, a run tells everything. -/
theorem told_lastWords [Codecs] {old : Bytes} {l : Log.Logger} {arguments : List Bytes} {c : Config}
    {fault : Option Fault} {errors : List EndError} {ρ ρ' : Option Report} {w w' : Machine}
    (hname : l.name = Identity.name) (herrors : .errors ∈ l.outlets) (hw : old <+: w.err)
    (hran : Reporting.Ran (putAway l arguments c fault) ρ w errors ρ' w') :
    Told (fault.toList ++ (Fault.ofEnd? errors).toList) old
      (.code (Fault.status (fault.toList ++ (Fault.ofEnd? errors).toList)))
      ((lastWords l fault errors : StateM Machine Unit).run w').2.err := by
  obtain ⟨_, ρ₁, w₁, htell, hrest⟩ := Reporting.Ran.bind_iff.mp hran
  have hleft : ∀ {I : Machine → Prop}, Lasting I → I w₁ → I w' := fun hI =>
    hrest.preserves (preserves_leftovers hI.toQuiet (hI.logger l) arguments c)
  have hw' : old <+: w'.err := by
    have htold : Preserves (fun w => old <+: w.err) (tellFault l fault : StateM Machine Unit) := by
      unfold tellFault
      split
      · exact (lasting_append old).logger l _
      · exact .pure _
    refine hleft (lasting_append old) ?_
    cases htell
    exact htold w hw
  have hfault : ∀ message, fault = some (.error message) → Shown message old w'.err := by
    rintro message rfl
    refine hleft (lasting_shown message old) ?_
    cases htell
    exact shown_tell hname herrors rfl hw
  cases errors with
  | nil =>
      refine ⟨rfl, ?_, ?_⟩
      · -- only where nothing else is left to say, a wrong call is told how to make it
        intro synopsis h
        cases fault with
        | none => cases h
        | some f =>
            cases h
            obtain ⟨new, hnew⟩ := hw'
            refine ⟨new, ?_⟩
            rw [hnew]
            rfl
      · intro message hmem
        have hsome : fault = some (.error message) := by simpa [Fault.ofEnd?] using hmem
        rw [hsome]
        exact hfault message hsome
  | cons e es =>
      refine ⟨rfl, ?_, ?_⟩
      · intro synopsis h
        cases fault <;> cases h
      · intro message hmem
        rcases List.mem_append.mp hmem with hmem | hmem
        · have hshown := hfault message (by simpa using hmem)
          exact (lasting_shown message old).logger l _ w' hshown
        · cases List.mem_singleton.mp hmem
          exact shown_tell hname herrors rfl hw'

theorem told_complaint (message old : Bytes) :
    Told [.error message] old (.code 1) (old ++ errorLine message) := by
  refine ⟨rfl, nofun, ?_⟩
  intro other hmem
  cases List.mem_singleton.mp hmem
  exact ⟨errorLine message, rfl, Or.inl List.infix_rfl⟩

theorem not_shown_self (message old : Bytes) : ¬ Shown message old old := by
  rintro ⟨new, hnew, hline⟩
  have hnil : new = [] := List.self_eq_append_right.mp hnew
  have hend : text "\n" = [] := by
    rw [hnil] at hline
    rcases hline with hline | ⟨stamp, hline⟩
    · exact (List.append_eq_nil_iff.mp (List.infix_nil.mp hline)).2
    · exact (List.append_eq_nil_iff.mp (List.infix_nil.mp hline)).2
  cases hend

/-- Without a configuration, a run tells what is wrong, if anything is. -/
theorem told_of_not_loads [Codecs] {args : List Bytes} {w : Machine} (hnot : ∀ i c w₁, ¬ Loads args w i c w₁) :
    Told ((faults args).run w).1 w.err ((run args : StateM Machine Exit).run w).1
      ((run args : StateM Machine Exit).run w).2.err := by
  cases hparse : Invocation.parse args with
  | error e =>
      unfold faults run
      rw [hparse]
      exact told_complaint e.message w.err
  | ok i =>
      by_cases hhelp : i.request = .help
      · simp only [faults, run, hparse, hhelp]
        exact ⟨rfl, nofun, nofun⟩
      by_cases hversion : i.request = .version
      · simp only [faults, run, hparse, hversion]
        exact ⟨rfl, nofun, nofun⟩
      obtain ⟨⟨loaded, w₁⟩, hload⟩ :
          ∃ out, (Config.load ((i.line.text? config.name).getD []) : StateM Machine _).run w = out :=
        ⟨_, rfl⟩
      cases loaded with
      | ok c => exact absurd ⟨hparse, hhelp, hversion, hload⟩ (hnot i c w₁)
      | error e =>
          have hw₁ := (quiet_err (· = w.err)).loadConfig ((i.line.text? config.name).getD []) w rfl
          rw [hload] at hw₁
          rw [run_eq hparse hhelp hversion, faults_eq hparse hhelp hversion, StateT.run_bind,
            StateT.run_bind, hload, ← hw₁]
          exact told_complaint (StartError.config e).message w₁.err

/-- A run that gets behind its start tells everything it meets. -/
theorem told_of_started [Codecs] {args : List Bytes} {w w₁ w₂ : Machine} {i : Invocation} {c : Config}
    {env : Environment} {ρ : Option Report} (h : Loads args w i c w₁)
    (herrors : .errors ∈ Log.consoleOutlets c.console)
    (hstart : Attempt.Ran (start i.line args c) none w₁ (.ok env) ρ w₂) :
    Told ((faults args).run w).1 w.err ((run args : StateM Machine Exit).run w).1
      ((run args : StateM Machine Exit).run w).2.err := by
  have hlasting := lasting_append w.err
  obtain ⟨hspeaks, hnamed⟩ := ((yields_start _ _ _).ran hstart rfl).1 env rfl
  obtain ⟨r, ρ₁, w₃, hperform⟩ := Reporting.Ran.exists_ran (perform env i.request).run ρ w₂
  obtain ⟨errors, ρ₂, w₄, hput⟩ := Reporting.Ran.exists_ran
    (putAway env.logger i.arguments c (Fault.ofResult? r)) ρ₁ w₃
  have hsurvived := ((Accepted.perform env i.request).ran hperform hnamed).2
  have hw₃ : w.err <+: w₃.err := by
    have hw₁ := hlasting.loadConfig ((i.line.text? config.name).getD []) w List.prefix_rfl
    rw [h.load] at hw₁
    exact (hlasting.perform env i.request).ran hperform ((hlasting.start _ _ _).ran hstart hw₁)
  have hfaults := faults_of_loads h (Reporting.Ran.bind_iff.mpr ⟨_, _, _, hstart,
    Reporting.Ran.bind_iff.mpr ⟨_, _, _, hperform, Reporting.Ran.bind_iff.mpr ⟨_, _, _, hput, rfl⟩⟩⟩)
  have hcarry : Reporting.Ran (carryOut env i c) ρ w₂
      (.code (Fault.status ((Fault.ofResult? r).toList ++ (Fault.ofEnd? errors).toList))) ρ₂
      ((lastWords env.logger (Fault.ofResult? r) errors : StateM Machine Unit).run w₄).2 := by
    rw [carryOut_eq]
    refine Reporting.Ran.bind_iff.mpr ⟨r, ρ₁, w₃, hperform, ?_⟩
    split
    · next refusal => exact absurd rfl (hsurvived _ rfl refusal)
    · refine Reporting.Ran.bind_iff.mpr ⟨errors, ρ₂, w₄, hput, ?_⟩
      exact Reporting.Ran.bind_iff.mpr ⟨(), ρ₂, _, Reporting.Ran.lift rfl, rfl⟩
  have hrun := run_of_loads h (Reporting.Ran.bind_iff.mpr ⟨_, _, _, hstart, hcarry⟩)
  rw [hfaults, hrun]
  exact told_lastWords hspeaks.name (hspeaks.console _ herrors) hw₃ hput

theorem run_of_start_error [Codecs] {args : List Bytes} {w w₁ w₂ : Machine} {i : Invocation} {c : Config}
    {e : StartError} {ρ : Option Report} (h : Loads args w i c w₁)
    (hstart : Attempt.Ran (start i.line args c) none w₁ (.error e) ρ w₂) :
    (∃ cause, e = .report cause ∧ ((run args : StateM Machine Exit).run w).1 = .code 1 ∧
      ((run args : StateM Machine Exit).run w).2.err = w.err) ∨
    ∃ cause, e = .log cause ∧ ((run args : StateM Machine Exit).run w).1 = .crash noLogger := by
  rcases start_error hstart with ⟨cause, rfl, hw₂⟩ | ⟨_, ⟨destination, cause, rfl⟩, rfl⟩
  · have hw₁ := (quiet_err (· = w.err)).loadConfig ((i.line.text? config.name).getD []) w rfl
    rw [h.load] at hw₁
    obtain ⟨fine, ρ₁, w₃, hfinish⟩ := Reporting.Ran.exists_ran
      (finish Log.Logger.silent i.arguments c : Reporting (StateM Machine) Bool) ρ w₂
    have hw₃ := hfinish.preserves (preserves_finish_silent (quiet_err (· = w.err)) _ _) (hw₂.trans hw₁)
    have hrun := run_of_loads h (Reporting.Ran.bind_iff.mpr ⟨_, _, _, hstart,
      Reporting.Ran.bind_iff.mpr ⟨_, _, _, hfinish, rfl⟩⟩)
    rw [hrun]
    exact Or.inl ⟨cause, rfl, rfl, hw₃⟩
  · have hrun := run_of_loads h (Reporting.Ran.bind_iff.mpr ⟨_, _, _, hstart, rfl⟩)
    rw [hrun]
    exact Or.inr ⟨_, rfl, rfl⟩

/-- A run that does not fail at its start tells what goes wrong. -/
theorem told_of_starts [Codecs] {args : List Bytes} {w : Machine}
    (hconsole : ∀ i c w₁, Loads args w i c w₁ → c.console.level ≠ Channel.none)
    (hstarts : ∀ e, ¬ StartFails args w e) :
    Told ((faults args).run w).1 w.err ((run args : StateM Machine Exit).run w).1
      ((run args : StateM Machine Exit).run w).2.err := by
  by_cases hloads : ∃ i c w₁, Loads args w i c w₁
  · obtain ⟨i, c, w₁, hloads⟩ := hloads
    have herrors := errors_mem_consoleOutlets hloads.load (hconsole i c w₁ hloads)
    obtain ⟨r, ρ, w₂, hstart⟩ := Reporting.Ran.exists_ran
      (start i.line args c : Attempt StartError Environment).run none w₁
    cases r with
    | ok env => exact told_of_started hloads herrors hstart
    | error e => exact absurd ⟨i, c, w₁, ρ, w₂, hloads, hstart⟩ (hstarts e)
  · refine told_of_not_loads ?_
    intro i c w₁ h
    exact hloads ⟨i, c, w₁, h⟩

/-- A run that fails tells so and survives, if only it gets as far as having the report it was
asked for, and a log, and does not go wrong at its end after a wrong call. Without the report it
ends silently, without the log it crashes; after a wrong call, an error at the end takes its place. -/
theorem run_loud_iff [Codecs] (args : List Bytes) (w : Machine)
    (hconsole : ∀ i c w₁, Loads args w i c w₁ → c.console.level ≠ Channel.none) :
    (Loud ((faults args).run w).1 w.err ((run args : StateM Machine Exit).run w).1
        ((run args : StateM Machine Exit).run w).2.err ↔
      (∀ e, ¬ StartFails args w e) ∧ ¬ Spoiled ((faults args).run w).1) ∧
    (∀ e, StartFails args w e →
      (∃ cause, e = .report cause ∧ ((run args : StateM Machine Exit).run w).1 = .code 1 ∧
        ((run args : StateM Machine Exit).run w).2.err = w.err) ∨
      ∃ cause, e = .log cause ∧ ((run args : StateM Machine Exit).run w).1 = .crash noLogger) ∧
    (Spoiled ((faults args).run w).1 → ((run args : StateM Machine Exit).run w).1 = .code 1 ∧
      ∀ message, .error message ∈ ((faults args).run w).1 →
        Shown message w.err ((run args : StateM Machine Exit).run w).2.err) := by
  have hfails : ∀ e, StartFails args w e → ((faults args).run w).1 = [.error e.message] := by
    rintro e ⟨i, c, w₁, ρ, w₂, hloads, hstart⟩
    rw [faults_of_loads hloads (Reporting.Ran.bind_iff.mpr ⟨_, _, _, hstart, rfl⟩)]
  have hlost : ∀ e, StartFails args w e →
      (∃ cause, e = .report cause ∧ ((run args : StateM Machine Exit).run w).1 = .code 1 ∧
        ((run args : StateM Machine Exit).run w).2.err = w.err) ∨
      ∃ cause, e = .log cause ∧ ((run args : StateM Machine Exit).run w).1 = .crash noLogger := by
    rintro e ⟨i, c, w₁, ρ, w₂, hloads, hstart⟩
    exact run_of_start_error hloads hstart
  have htold := told_of_starts hconsole
  refine ⟨⟨?_, ?_⟩, hlost, ?_⟩
  · intro hloud
    have hstarts : ∀ e, ¬ StartFails args w e := by
      intro e he
      rcases hlost e he with ⟨cause, _, _, herr⟩ | ⟨cause, _, hexit⟩
      · have hshown := hloud.error e.message (by rw [hfails e he]; exact List.mem_cons_self)
        rw [herr] at hshown
        exact not_shown_self _ _ hshown
      · cases hexit.symm.trans hloud.code
    exact ⟨hstarts, (htold hstarts).loud_iff.mp hloud⟩
  · rintro ⟨hstarts, hclean⟩
    exact (htold hstarts).loud_iff.mpr hclean
  · intro hspoiled
    have hstarts : ∀ e, ¬ StartFails args w e := by
      intro e he
      obtain ⟨synopsis, hmem, _⟩ := hspoiled
      rw [hfails e he] at hmem
      cases List.mem_singleton.mp hmem
    refine ⟨?_, (htold hstarts).error⟩
    rw [(htold hstarts).code, Fault.status_of_spoiled hspoiled]

section Samples

open scoped Codecs

/-- A command without a stylesheet, in an empty directory. -/
theorem run_loud_iff_usage :
    let args := [text "dedupe"]
    let disk : Disk := ⟨⟨[([text "s"], .dir Disk.dirMode)]⟩⟩
    let w : Machine := ⟨disk, text "/s", text "/tmp", ⟨[], none⟩, [], [], 0, [], [], [], []⟩
    ((faults args).run w).1 = [.usage (text "cssdedup dedupe <path-to-css>")] ∧
      Loud ((faults args).run w).1 w.err ((run args : StateM Machine Exit).run w).1
        ((run args : StateM Machine Exit).run w).2.err := by
  intro args disk w
  have hfaults : ((faults args).run w).1 = [.usage (text "cssdedup dedupe <path-to-css>")] := by
    decide +kernel
  have hconsole : ∀ i c w₁, Loads args w i c w₁ → c.console.level ≠ Channel.none := by
    intro i c w₁ h
    have hset : ∀ i : Invocation, Invocation.parse args = .ok i →
        ((Config.load ((i.line.text? config.name).getD []) : StateM Machine _).run w).1.toOption.all
          fun c => c.console.level != Channel.none := by
      rintro _ ⟨⟩
      decide +kernel
    simpa [h.load, Except.toOption] using hset i h.parse
  refine ⟨hfaults, (run_loud_iff args w hconsole).1.mpr ⟨?_, ?_⟩⟩
  · rintro e ⟨i, c, w₁, ρ, w₂, hloads, hstart⟩
    rw [faults_of_loads hloads (Reporting.Ran.bind_iff.mpr ⟨_, _, _, hstart, rfl⟩)] at hfaults
    cases hfaults
  · rintro ⟨synopsis, hmem, hne⟩
    rw [hfaults] at hmem hne
    cases List.mem_singleton.mp hmem
    exact hne rfl

/-- Nothing can be written anywhere: the report that is asked for cannot be made, and the run
ends with an error that it does not tell. With the report, the log cannot be made. With a log
that can be written and not read, the report cannot be closed, and a wrong call is not told. -/
theorem run_not_loud :
    let args := [text "-d", text "dedupe", text "a.css"]
    let wrong := [text "-d", text "dedupe"]
    let locked : List Bytes × FileNode := ([text "s"], .dir 0o555)
    let report : List Bytes × FileNode := ([text "s", text "cssdedup-report.zip"], .file [] 0o644)
    let log : List Bytes × FileNode := ([text "s", text "cssdedup.log"], .file [] 0o200)
    let w : Machine := ⟨⟨⟨[locked]⟩⟩, text "/s", text "/tmp", ⟨[], none⟩, [], [], 0, [], [], [], []⟩
    let w' : Machine := { w with disk := ⟨⟨[locked, report]⟩⟩ }
    let w'' : Machine := { w with disk := ⟨⟨[locked, report, log]⟩⟩ }
    ¬ Loud ((faults args).run w).1 w.err ((run args : StateM Machine Exit).run w).1
        ((run args : StateM Machine Exit).run w).2.err ∧
      ¬ Loud ((faults args).run w').1 w'.err ((run args : StateM Machine Exit).run w').1
        ((run args : StateM Machine Exit).run w').2.err ∧
      ¬ Loud ((faults wrong).run w'').1 w''.err ((run wrong : StateM Machine Exit).run w'').1
        ((run wrong : StateM Machine Exit).run w'').2.err := by
  intro args wrong locked report log w w' w''
  have hsilent : ((run args : StateM Machine Exit).run w).2.err = w.err := by decide +kernel
  have hfaults : ((faults args).run w).1 = [.error (text ("unable to prepare debug reporter: " ++
      "unable to create report: open /tmp/cssdedup-report.1.zip: no such file or directory"))] := by
    decide +kernel
  have hcrash : ((run args : StateM Machine Exit).run w').1 = .crash noLogger := by decide +kernel
  have hspoiled : ((faults wrong).run w'').1 = [.usage (text "cssdedup dedupe <path-to-css>"),
      .error (text "unable to close debug report: open /s/cssdedup.log: permission denied")] := by
    decide +kernel
  have hcode : ((run wrong : StateM Machine Exit).run w'').1 = .code 1 := by decide +kernel
  refine ⟨?_, ?_, ?_⟩
  · intro hloud
    have hshown := hloud.error _ (by rw [hfaults]; exact List.mem_cons_self)
    rw [hsilent] at hshown
    exact not_shown_self _ _ hshown
  · intro hloud
    cases hcrash.symm.trans hloud.code
  · intro hloud
    have hdue := hcode.symm.trans hloud.code
    rw [hspoiled] at hdue
    cases hdue

end Samples

end Program

end Cascade
