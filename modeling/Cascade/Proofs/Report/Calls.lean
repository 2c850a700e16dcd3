import Cascade.Proofs.Report.Draft
import Cascade.Report.Current

/-!
# Calls on a report

A report is given items one call after another. A call that it refuses changes nothing,
neither the report nor a file. What the calls have put together is the same in every order,
but for the dates and for the directories of the copies.
-/

namespace Cascade

/-! ## One call -/

namespace Reporting

/-- A report changes if it takes what it is given. -/
theorem run_update {ε : Type} {f : Report → StateM Machine (Except ε Report)} {r : Report}
    {w w' : Machine} {answer : Except ε Report} (hrun : (f r).run w = (answer, w')) :
    ((update f).run (some r)).run w =
      ((answer.map fun _ => (), some (answer.toOption.getD r)), w') := by
  have hask : (update f).run (some r) = (do
      let answer ← f r
      return (answer.map fun _ => (), some (answer.toOption.getD r))) := by
    unfold update
    simp only [StateT.run_bind, StateT.run_get, pure_bind, StateT.run_monadLift, bind_assoc]
    refine congrArg _ (funext fun answer => ?_)
    cases answer with
    | error e => rfl
    | ok r' => rfl
  rw [hask]
  exact run_bind_eq_iff.mpr ⟨answer, w', hrun, rfl⟩

end Reporting

namespace Report

open Machine

inductive Call where
  | file (name path : Bytes)
  | data (name content : Bytes)
  | copy (name path : Bytes)
deriving DecidableEq

namespace Call

def name : Call → Bytes
  | .file name _ => name
  | .data name _ => name
  | .copy name _ => name

def path? : Call → Option Bytes
  | .file _ path => some path
  | .data _ _ => none
  | .copy _ path => some path

/-- Makes the call on the current report. The answer is whether the report has taken the item. -/
def make : Call → Reporting (StateM Machine) Bool
  | .file name path => return (← Reporting.store name path).isOk
  | .data name content => return (← Reporting.storeData name content).isOk
  | .copy name path => return (← Reporting.storeCopy name path).isOk

/-- The report that the call makes of a report, if it takes the item. -/
def result? (r : Report) : Call → StateM Machine (Option Report)
  | .file name path => return (← r.store name path).toOption
  | .data name content => return (← r.storeData name content).toOption
  | .copy name path => return (← r.storeCopy name path).toOption

theorem run_toOption {ε : Type} {x : StateM Machine (Except ε Report)} {answer : Except ε Report}
    {w w' : Machine} (h : x.run w = (answer, w')) :
    (do return (← x).toOption : StateM Machine _).run w = (answer.toOption, w') :=
  run_bind_eq_iff.mpr ⟨answer, w', h, rfl⟩

theorem run_toOption_some {ε : Type} {x : StateM Machine (Except ε Report)} {r : Report}
    {w w' : Machine} (h : (do return (← x).toOption : StateM Machine _).run w = (some r, w')) :
    x.run w = (.ok r, w') := by
  obtain ⟨⟨answer, w₁⟩, hrun⟩ : ∃ out, x.run w = out := ⟨_, rfl⟩
  rw [run_toOption hrun] at h
  obtain ⟨hsome, rfl⟩ := Prod.mk.inj h
  cases answer with
  | error e => cases hsome
  | ok r' =>
      cases hsome
      exact hrun

theorem run_isOk_update {ε : Type} (f : Report → StateM Machine (Except ε Report)) (r : Report)
    (w : Machine) :
    ((do return (← Reporting.update f).isOk : Reporting (StateM Machine) Bool).run (some r)).run w =
      (((do return (← f r).toOption : StateM Machine _).run w).map
        (fun taken => (taken.isSome, some (taken.getD r))) id) := by
  obtain ⟨⟨answer, w'⟩, hrun⟩ : ∃ out, (f r).run w = out := ⟨_, rfl⟩
  rw [run_toOption hrun, StateT.run_bind]
  refine run_bind_eq_iff.mpr ⟨_, _, Reporting.run_update hrun, ?_⟩
  cases answer <;> rfl

/-- The current report becomes what the call makes of it, or stays. -/
theorem run_make (c : Call) (r : Report) (w : Machine) :
    (c.make.run (some r)).run w =
      ((c.result? r).run w).map (fun taken => (taken.isSome, some (taken.getD r))) id := by
  cases c with
  | file name path => exact run_isOk_update (fun r => r.store name path) r w
  | data name content => exact run_isOk_update (fun r => r.storeData name content) r w
  | copy name path => exact run_isOk_update (fun r => r.storeCopy name path) r w

end Call

/-- A copy that could not be made leaves every file and directory as it was. -/
theorem Copying.node?_of_error {w w' : Machine} {path : Bytes} {e : OsError} (htree : w.disk.IsTree)
    (h : Copying w path (.error e) w') :
    w'.dir = w.dir ∧ w'.temp = w.temp ∧ ∀ loc, w'.disk.node? loc = w.disk.node? loc := by
  cases h with
  | refused => exact ⟨rfl, rfl, fun _ => rfl⟩
  | undone _ hplace => exact ⟨rfl, rfl, Disk.node?_clear_set_dir htree hplace.vacant _⟩

/-- A call that is refused leaves every file and directory as it was. -/
theorem Call.node?_of_refused {c : Call} {r : Report} {w w' : Machine} (htree : w.disk.IsTree)
    (hfile : r.file.isSome) (h : (c.result? r).run w = (none, w')) :
    w'.dir = w.dir ∧ w'.temp = w.temp ∧ ∀ loc, w'.disk.node? loc = w.disk.node? loc := by
  cases c with
  | file name path =>
      cases (Prod.mk.inj h).2
      exact ⟨rfl, rfl, fun _ => rfl⟩
  | data name content =>
      cases (Prod.mk.inj h).2
      exact ⟨rfl, rfl, fun _ => rfl⟩
  | copy name path =>
      obtain ⟨⟨answer, w₁⟩, hrun⟩ : ∃ out, (r.storeCopy name path : StateM Machine _).run w = out :=
        ⟨_, rfl⟩
      obtain ⟨hnone, rfl⟩ := Prod.mk.inj ((run_toOption hrun).symm.trans h)
      rcases storeCopy_cases htree hrun with ⟨_, rfl⟩ | ⟨copied, hcopying, _, rfl⟩
      · exact ⟨rfl, rfl, fun _ => rfl⟩
      · cases copied with
        | error e => exact hcopying.node?_of_error htree
        | ok actual =>
            unfold addCopy put at hnone
            dsimp only at hnone
            rw [if_pos hfile] at hnone
            cases hnone

/-! ## Histories -/

section Histories

variable {file : Bytes} {kept lost : List Deposit} {r r' : Report} {w w' : Machine} {c : Call}

/-- A refused call is no event. -/
theorem History.refused (h : History file kept lost r w)
    (hrun : (c.result? r).run w = (none, w')) : History file kept lost r w' := by
  have hkeeps := Keeps.of_history h
  obtain ⟨hdir, htemp, hsame⟩ := Call.node?_of_refused hkeeps.tree (by rw [hkeeps.named]; rfl) hrun
  exact h.changed ⟨hdir, htemp, hkeeps.tree.congr hsame, hsame _, fun loc _ => hsame loc,
    fun _ _ _ _ loc _ => hsame loc⟩

theorem History.taken (h : History file kept lost r w)
    (hrun : (c.result? r).run w = (some r', w')) : ∃ kept lost, History file kept lost r' w' := by
  cases c with
  | file name path => exact ⟨_, _, h.stored (Call.run_toOption_some (x := r.store name path) hrun)⟩
  | data name content =>
      exact ⟨_, _, h.storedData (Call.run_toOption_some (x := r.storeData name content) hrun)⟩
  | copy name path =>
      obtain ⟨_, _, _, _, hnext⟩ :=
        h.of_storeCopy (Call.run_toOption_some (x := r.storeCopy name path) hrun)
      exact ⟨_, _, hnext⟩

end Histories

end Report

end Cascade
