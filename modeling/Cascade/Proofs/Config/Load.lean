import Cascade.Config.Load
import Cascade.Proofs.Host.Directories

/-!
# Loading a configuration

A configuration that was accepted is settled: its paths are clean, their directories are there,
and no check fails. To accept it again changes nothing, on the same machine and on one that has
got more directories.
-/

namespace Cascade.Config

variable {I : Machine → Prop} {c c₀ : Config} {w w' : Machine} {path : Bytes}

theorem bind_ok_iff {ε α β : Type} {x : ExceptT ε (StateM Machine) α}
    {f : α → ExceptT ε (StateM Machine) β} {b : β} :
    (x >>= f).run.run w = (.ok b, w') ↔
      ∃ a w₁, x.run.run w = (.ok a, w₁) ∧ (f a).run.run w₁ = (.ok b, w') := by
  rw [ExceptT.run_bind, run_bind_eq_iff]
  constructor
  · rintro ⟨r, w₁, hx, hf⟩
    cases r with
    | error e => cases hf
    | ok a => exact ⟨a, w₁, hx, hf⟩
  · rintro ⟨a, w₁, hx, hf⟩
    exact ⟨.ok a, w₁, hx, hf⟩

/-! ## Paths -/

/-- A path is left alone if it is empty, or if it is clean and its directory is there. -/
def Settled (w : Machine) (path : Bytes) : Prop :=
  path = [] ∨ Path.clean path = path ∧ w.stat (Path.parent path) = .ok .dir

theorem Settled.widened (h : Settled w path) (hw : w.Widened w') : Settled w' path :=
  h.imp_right fun ⟨hclean, hdir⟩ => ⟨hclean, hw.stat_dir hdir⟩

theorem run_sanitizePath_of_settled (h : Settled w path) :
    (sanitizePath path : StateM Machine _).run w = (.ok path, w) := by
  unfold sanitizePath
  split_ifs with hempty
  · rfl
  · have hne : path ≠ [] := fun heq => hempty (List.isEmpty_iff.mpr heq)
    obtain ⟨hclean, hdir⟩ := h.resolve_left hne
    refine run_bind_eq_iff.mpr ⟨.ok (), w, ?_, ?_⟩
    · rw [hclean]
      exact run_mkdirAll_of_dir hdir
    · rw [hclean]
      rfl

theorem preserves_sanitizePath (hI : ∀ path, Preserves I (Host.mkdir path : StateM Machine _))
    (path : Bytes) : Preserves I (sanitizePath path : StateM Machine _) := by
  unfold sanitizePath
  split
  · exact .pure _
  · refine .bind (preserves_mkdirs hI _) fun made => ?_
    split
    · exact .pure _
    · exact .pure _

theorem sanitizePath_ok {p : Bytes} (h : (sanitizePath path : StateM Machine _).run w = (.ok p, w')) :
    w.Widened w' ∧ Settled w' p ∧ (p = [] ↔ path = []) := by
  have hwide := preserves_sanitizePath (preserves_widened_mkdir w) path w (.refl w)
  rw [h] at hwide
  refine ⟨hwide, ?_⟩
  unfold sanitizePath at h
  split_ifs at h with hempty
  · cases h
    exact ⟨Or.inl (List.isEmpty_iff.mp hempty), Iff.rfl⟩
  · obtain ⟨made, w₁, hmade, h⟩ := run_bind_eq_iff.mp h
    split at h
    · cases h
      have hdir := stat_of_mkdirs hmade
      refine ⟨Or.inr ⟨Path.clean_clean path, hdir⟩, iff_of_false (Path.clean_ne_nil path) ?_⟩
      exact fun heq => hempty (List.isEmpty_iff.mpr heq)
    · cases h

/-! ## Configurations -/

structure Sanitized (w : Machine) (c : Config) : Prop where
  file : Settled w c.file.destination
  console : Settled w c.console.destination
  report : Settled w c.report

theorem Sanitized.widened (h : Sanitized w c) (hw : w.Widened w') : Sanitized w' c :=
  ⟨h.file.widened hw, h.console.widened hw, h.report.widened hw⟩

theorem run_sanitize_of_sanitized (h : Sanitized w c) :
    (sanitize c : ExceptT Rejection (StateM Machine) _).run.run w = (.ok c, w) := by
  refine bind_ok_iff.mpr ⟨_, w, run_sanitizePath_of_settled h.file, ?_⟩
  refine bind_ok_iff.mpr ⟨_, w, run_sanitizePath_of_settled h.console, ?_⟩
  exact bind_ok_iff.mpr ⟨_, w, run_sanitizePath_of_settled h.report, rfl⟩

/-- `c` is `c₀` with its paths made clean. -/
structure Cleaned (c₀ c : Config) : Prop where
  version : c.version = c₀.version
  top : c.top = c₀.top
  mode : c.file.mode = c₀.file.mode
  destination : c.file.destination = [] ↔ c₀.file.destination = []

theorem sanitize_ok
    (h : (sanitize c₀ : ExceptT Rejection (StateM Machine) _).run.run w = (.ok c, w')) :
    Sanitized w' c ∧ Cleaned c₀ c := by
  obtain ⟨file, w₁, hfile, h⟩ := bind_ok_iff.mp h
  obtain ⟨console, w₂, hconsole, h⟩ := bind_ok_iff.mp h
  obtain ⟨report, w₃, hreport, h⟩ := bind_ok_iff.mp h
  obtain ⟨-, hfile, hempty⟩ := sanitizePath_ok hfile
  obtain ⟨hwide₁, hconsole, -⟩ := sanitizePath_ok hconsole
  obtain ⟨hwide₂, hreport, -⟩ := sanitizePath_ok hreport
  cases h
  -- Directories that are made for one path leave those of the others where they are.
  exact ⟨⟨(hfile.widened hwide₁).widened hwide₂, hconsole.widened hwide₂, hreport⟩,
    rfl, rfl, rfl, hempty⟩

def violationsOn (w : Machine) (c : Config) : List Violation :=
  c.violations (w.stat c.file.destination) (w.stat c.console.destination) (w.stat c.report)

theorem process_ok (h : (process c₀ : ExceptT Rejection (StateM Machine) _).run.run w = (.ok c, w')) :
    Sanitized w' c ∧ Cleaned c₀ c ∧ violationsOn w' c = [] := by
  obtain ⟨c₁, w₁, hsanitize, h⟩ := bind_ok_iff.mp h
  obtain ⟨file, w₂, hfile, h⟩ := bind_ok_iff.mp h
  obtain ⟨console, w₃, hconsole, h⟩ := bind_ok_iff.mp h
  obtain ⟨report, w₄, hreport, h⟩ := bind_ok_iff.mp h
  cases hfile
  cases hconsole
  cases hreport
  split at h
  · next hnone =>
      cases h
      obtain ⟨hsettled, hcleaned⟩ := sanitize_ok hsanitize
      exact ⟨hsettled, hcleaned, hnone⟩
  · cases h

theorem run_process_of_sanitized (h : Sanitized w c) (hnone : violationsOn w c = []) :
    (process c : ExceptT Rejection (StateM Machine) _).run.run w = (.ok c, w) := by
  refine bind_ok_iff.mpr ⟨c, w, run_sanitize_of_sanitized h, ?_⟩
  refine bind_ok_iff.mpr ⟨w.stat c.file.destination, w, rfl, ?_⟩
  refine bind_ok_iff.mpr ⟨w.stat c.console.destination, w, rfl, ?_⟩
  refine bind_ok_iff.mpr ⟨w.stat c.report, w, rfl, ?_⟩
  unfold violationsOn at hnone
  rw [hnone]
  rfl

/-! ## Files -/

theorem mapError_eq_ok_iff {origin : Origin} {r : Except Rejection Config} :
    r.mapError (LoadError.rejected origin) = .ok c ↔ r = .ok c := by
  cases r with
  | error e => exact iff_of_false nofun nofun
  | ok c' => exact ⟨fun h => congrArg _ (Except.ok.inj h), fun h => congrArg _ (Except.ok.inj h)⟩

def Given (c : Config) : Prop := c = standard ∨ ∃ data, standard.decode data = .ok c

theorem ofText_ok_iff {data : Bytes} :
    (ofText data : ExceptT Rejection (StateM Machine) _).run.run w = (.ok c, w') ↔
      ∃ c₀, standard.decode data = .ok c₀ ∧
        (process c₀ : ExceptT Rejection (StateM Machine) _).run.run w = (.ok c, w') := by
  unfold ofText
  cases hdecode : standard.decode data with
  | error f =>
      refine iff_of_false nofun ?_
      rintro ⟨c₀, ⟨⟩, -⟩
  | ok c₀ => exact ⟨fun h => ⟨c₀, rfl, h⟩, fun ⟨_, hc₀, h⟩ => Except.ok.inj hc₀ ▸ h⟩

theorem run_mapError_ok_iff {origin : Origin} {x : ExceptT Rejection (StateM Machine) Config} :
    (x.run >>= fun r => pure (r.mapError (LoadError.rejected origin)) :
        StateM Machine (Except LoadError Config)).run w = (.ok c, w') ↔
      x.run.run w = (.ok c, w') := by
  rw [run_bind_eq_iff]
  constructor
  · rintro ⟨r, w₁, hr, h⟩
    obtain ⟨hok, rfl⟩ := Prod.mk.inj h
    rw [hr, mapError_eq_ok_iff.mp hok]
  · intro h
    exact ⟨.ok c, w', h, rfl⟩

/-- What a file holds is laid over the standard configuration. -/
theorem load_ok_iff_of_load {data : Bytes} (hload : w.load path = .ok data) :
    (load path : StateM Machine _).run w = (.ok c, w') ↔
      ∃ c₀, standard.decode data = .ok c₀ ∧
        (process c₀ : ExceptT Rejection (StateM Machine) _).run.run w = (.ok c, w') := by
  have hne : ¬ path.isEmpty = true := by
    intro hempty
    rw [List.isEmpty_iff.mp hempty] at hload
    cases hload
  have hrun : (load path : StateM Machine _).run w =
      ((ofText data).run >>= fun r => pure (r.mapError (LoadError.rejected .file)) :
        StateM Machine (Except LoadError Config)).run w := by
    unfold load
    rw [if_neg hne, StateT.run_bind, Source.run_load_ok hload]
    rfl
  rw [hrun, run_mapError_ok_iff, ofText_ok_iff]

theorem load_ok (h : (load path : StateM Machine _).run w = (.ok c, w')) :
    ∃ c₀, Given c₀ ∧
      (process c₀ : ExceptT Rejection (StateM Machine) _).run.run w = (.ok c, w') := by
  by_cases hempty : path.isEmpty = true
  · unfold load at h
    rw [if_pos hempty] at h
    exact ⟨standard, Or.inl rfl, run_mapError_ok_iff.mp h⟩
  · cases hload : w.load path with
    | error e =>
        unfold load at h
        rw [if_neg hempty, StateT.run_bind, Source.run_load, hload] at h
        cases h
    | ok data =>
        obtain ⟨c₀, hdecode, hprocess⟩ := (load_ok_iff_of_load hload).mp h
        exact ⟨c₀, Or.inr ⟨data, hdecode⟩, hprocess⟩

theorem violations_of_load (h : (load path : StateM Machine _).run w = (.ok c, w')) :
    ∃ file console report, c.violations file console report = [] := by
  obtain ⟨c₀, -, hprocess⟩ := load_ok h
  exact ⟨_, _, _, (process_ok hprocess).2.2⟩

theorem firstFailing_eq_nil_iff {f : Field} {checks : List (Requirement × Bool)} :
    firstFailing f checks = [] ↔ ∀ check ∈ checks, check.2 = true := by
  unfold firstFailing
  split
  · next hnone => simpa using hnone
  · next check hsome =>
    have hfails := List.find?_some hsome
    constructor
    · nofun
    · intro hall
      rw [hall check (List.mem_of_find?_eq_some hsome)] at hfails
      cases hfails

end Cascade.Config
