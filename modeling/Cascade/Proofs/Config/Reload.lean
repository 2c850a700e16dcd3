import Cascade.Proofs.Config.Bounds
import Cascade.Proofs.Config.Load
import Cascade.Proofs.Config.Overlay

/-!
# Writing a configuration and loading it again

A configuration that was loaded, written to a file and loaded from there is the same, with one
exception: a log file whose path or mode is empty. What is empty is not written, and so the
standard path or mode takes its place. This goes for texts that read back at all, which are all
but those that are written as a block and start with a line break or a tab.
-/

namespace Cascade.Config

variable {c c₀ : Config} {w w' w₁ : Machine} {path q : Bytes}

/-! ## What is read back -/

theorem atop_standard (hdestination : c.file.destination ≠ []) (hmode : c.file.mode ≠ []) :
    c.atop standard = c := by
  have hfile : c.file.atop standard.file = c.file := by
    simp [Channel.atop, hdestination, hmode]
  have hconsole : c.console.atop standard.console = c.console := by
    -- The standard console has neither a path nor a mode.
    have hkept : ∀ s : Bytes, (if s.isEmpty then [] else s) = s := by
      intro s
      cases s <;> rfl
    show Channel.mk _ (if _ then [] else _) (if _ then [] else _) = _
    rw [hkept, hkept]
  unfold atop
  rw [hfile, hconsole]

/-- The standard path and mode of the log file take the place of empty ones. -/
theorem Cleaned.ne_nil (h : Cleaned (c₀.atop standard) c) :
    c.file.destination ≠ [] ∧ c.file.mode ≠ [] := by
  have hfilled : ∀ s t : Bytes, t ≠ [] → (if s.isEmpty then t else s) ≠ [] := by
    intro s t ht
    cases s with
    | nil => exact ht
    | cons b s => exact nofun
  constructor
  · rw [Ne, h.destination]
    exact hfilled _ _ (by decide)
  · rw [h.mode]
    exact hfilled _ _ (by decide)

theorem bounded_of_given (h : Given c) : c.Bounded := by
  have hstandard : standard.Bounded := by
    unfold Bounded
    decide
  rcases h with rfl | ⟨data, hdecode⟩
  · exact hstandard
  · exact bounded_decode hstandard hdecode

theorem survives_level {level : Field} {s : Bytes} (h : firstFailing level
    [(.required, !s.isEmpty), (.oneOf, levels.contains s)] = []) : Yaml.survives s = true := by
  rw [firstFailing_eq_nil_iff, List.forall_mem_cons, List.forall_mem_singleton] at h
  have hall : ∀ s ∈ levels, Yaml.survives s = true := by decide +kernel
  exact hall s (List.contains_iff_mem.mp h.2)

theorem survives_mode {mode : Field} {s : Bytes}
    (h : firstFailing mode [(.oneOf, s.isEmpty || modes.contains s)] = []) :
    Yaml.survives s = true := by
  rw [firstFailing_eq_nil_iff, List.forall_mem_singleton, Bool.or_eq_true] at h
  rcases h with hempty | hmem
  · rw [List.isEmpty_iff.mp hempty]
    decide
  · have hall : ∀ s ∈ modes, Yaml.survives s = true := by decide +kernel
    exact hall s (List.contains_iff_mem.mp hmem)

def chosen (c : Config) : List Bytes :=
  [c.encoding, c.file.destination, c.console.destination, c.report]

/-- A configuration that was loaded can be read back, as far as its texts can be. -/
theorem sturdy_of_load (h : (load path : StateM Machine _).run w = (.ok c, w'))
    (hchosen : ∀ s ∈ c.chosen, Yaml.survives s = true) : c.Sturdy := by
  obtain ⟨c₀, hgiven, hprocess⟩ := load_ok h
  obtain ⟨-, hcleaned, hnone⟩ := process_ok hprocess
  have hbounded : c.top < Laying.bound := hcleaned.top ▸ bounded_of_given hgiven
  simp only [violationsOn, violations, channelViolations, List.append_eq_nil_iff] at hnone
  obtain ⟨⟨⟨⟨⟨hversion, -⟩, htop⟩, ⟨hlevel, -⟩, hmode⟩, ⟨hlevel', -⟩, hmode'⟩, -⟩ := hnone
  simp only [firstFailing_eq_nil_iff, List.forall_mem_singleton, beq_iff_eq,
    decide_eq_true_iff] at hversion htop
  simp only [chosen, List.forall_mem_cons] at hchosen
  obtain ⟨hencoding, hfile, hconsole, hreport, -⟩ := hchosen
  refine ⟨?_, ⟨?_, hbounded⟩, ?_⟩
  · rw [hversion]
    decide
  · omega
  · simp only [texts, List.forall_mem_cons]
    exact ⟨hencoding, survives_level hlevel, hfile, survives_mode hmode, survives_level hlevel',
      hconsole, survives_mode hmode', hreport, List.forall_mem_nil _⟩

/-! ## The checks after the file was written -/

theorem isFilePath_of_save {data : Bytes} (h : w.save q data = (.ok (), w'))
    (hpath : isFilePath path (w.stat path) = true) : isFilePath path (w'.stat path) = true := by
  cases hstat' : w'.stat path with
  | ok s =>
      cases s with
      | dir =>
          rw [Machine.stat_dir_of_save h hstat'] at hpath
          cases hpath
      | file size => rfl
  | error e' =>
      cases hstat : w.stat path with
      | ok s =>
          cases s with
          | dir =>
              rw [hstat] at hpath
              cases hpath
          | file size =>
              obtain ⟨size', hfile⟩ := Machine.exists_stat_file_of_save h ⟨size, hstat⟩
              cases hfile.symm.trans hstat'
      | error e =>
          rw [hstat] at hpath
          simp only [isFilePath, Bool.and_eq_true, bne_iff_ne] at hpath ⊢
          obtain ⟨⟨hvalid, hblank⟩, hslash⟩ := hpath
          refine ⟨⟨fun hinvalid => hvalid ?_, hblank⟩, hslash⟩
          -- Whether a path is valid does not depend on the disk.
          have horigin := Machine.stat_invalid_iff.mp ⟨e', hstat', hinvalid⟩
          rw [Machine.place_congr (Machine.widened_save h).dir] at horigin
          obtain ⟨_, heq, hcause⟩ := Machine.stat_invalid_iff.mpr horigin
          cases hstat.symm.trans heq
          exact hcause

theorem channelViolations_eq_nil {level destination mode : Field} {ch : Channel}
    {found found' : Except OsError Status}
    (hfound : isFilePath ch.destination found = true → isFilePath ch.destination found' = true)
    (hnone : channelViolations level destination mode ch found = []) :
    channelViolations level destination mode ch found' = [] := by
  simp only [channelViolations, List.append_eq_nil_iff, firstFailing_eq_nil_iff,
    List.forall_mem_singleton, Bool.or_eq_true] at hnone ⊢
  obtain ⟨⟨hlevel, hdestination⟩, hmode⟩ := hnone
  exact ⟨⟨hlevel, hdestination.imp_right hfound⟩, hmode⟩

theorem violationsOn_of_save {data : Bytes} (h : w.save q data = (.ok (), w'))
    (hnone : violationsOn w c = []) : violationsOn w' c = [] := by
  simp only [violationsOn, violations, List.append_eq_nil_iff] at hnone ⊢
  obtain ⟨⟨⟨hfirst, hfile⟩, hconsole⟩, hreport⟩ := hnone
  refine ⟨⟨⟨hfirst, channelViolations_eq_nil (isFilePath_of_save h) hfile⟩,
    channelViolations_eq_nil (isFilePath_of_save h) hconsole⟩, ?_⟩
  rw [firstFailing_eq_nil_iff, List.forall_mem_cons, List.forall_mem_singleton] at hreport ⊢
  exact ⟨hreport.1, isFilePath_of_save h hreport.2⟩

/-! ## Loading again -/

/-- A configuration that was loaded and written to a file that can be read is loaded from there
as it was just if its log file has a path and a mode. -/
theorem load_dump_iff (hload : (load path : StateM Machine _).run w = (.ok c, w'))
    (hsave : w'.save q c.dump = (.ok (), w₁)) (hread : w₁.load q = .ok c.dump)
    (hchosen : ∀ s ∈ c.chosen, Yaml.survives s = true) :
    ((load q : StateM Machine _).run w₁).1 = .ok c ↔
      c.file.destination ≠ [] ∧ c.file.mode ≠ [] := by
  have hdecode := decode_dump (sturdy_of_load hload hchosen) standard
  -- What is checked again is what was written, laid over the standard configuration.
  have hagain : ∀ {w₂}, (load q : StateM Machine _).run w₁ = (.ok c, w₂) ↔
      (process (c.atop standard) : ExceptT Rejection (StateM Machine) _).run.run w₁ =
        (.ok c, w₂) := by
    intro w₂
    rw [load_ok_iff_of_load hread, hdecode]
    exact ⟨fun ⟨_, heq, h⟩ => Except.ok.inj heq ▸ h, fun h => ⟨_, rfl, h⟩⟩
  constructor
  · intro h
    exact (process_ok (hagain.mp (Prod.ext h rfl))).2.1.ne_nil
  · rintro ⟨hdestination, hmode⟩
    -- Writing a file removes no directory, and puts none in the way of another file.
    obtain ⟨c₀, -, hprocess⟩ := load_ok hload
    obtain ⟨hsettled, -, hnone⟩ := process_ok hprocess
    have hsettled := hsettled.widened (Machine.widened_save hsave)
    have hnone := violationsOn_of_save hsave hnone
    have hsame : (load q : StateM Machine _).run w₁ = (.ok c, w₁) := by
      rw [hagain, atop_standard hdestination hmode]
      exact run_process_of_sanitized hsettled hnone
    rw [hsame]

/-- The log goes to a directory that is not there yet, by a path that is not clean. -/
theorem load_dump_logs :
    let data := text ("analysis:\n  top: 7\nlogging:\n  file:\n" ++
      "    destination: './l//../l/n: 1'\n")
    let c : Config := { standard with
      top := 7, file := ⟨Channel.none, text "l/n: 1", Channel.overwrite⟩ }
    let nodes := [([text "s"], .dir 0o755), ([text "s", text "c.yaml"], .file data 0o644)]
    let made := nodes ++ [([text "s", text "l"], .dir 0o755)]
    let written := made ++ [([text "s", text "d.yaml"], .file c.dump 0o644)]
    let w : Machine := ⟨⟨⟨nodes⟩⟩, text "/s", text "/tmp", ⟨[], none⟩, [], [], 0, [], [], [], []⟩
    let w' : Machine := { w with disk := ⟨⟨made⟩⟩ }
    let w₁ : Machine := { w with disk := ⟨⟨written⟩⟩ }
    (load (text "c.yaml") : StateM Machine _).run w = (.ok c, w') ∧
      w'.save (text "d.yaml") c.dump = (.ok (), w₁) ∧ w₁.load (text "d.yaml") = .ok c.dump ∧
      (∀ s ∈ c.chosen, Yaml.survives s = true) ∧
      ((load (text "d.yaml") : StateM Machine _).run w₁).1 = .ok c := by
  intro data c nodes made written w w' w₁
  have hload : (load (text "c.yaml") : StateM Machine _).run w = (.ok c, w') :=
    Prod.ext (by decide +kernel) (by decide +kernel)
  have hsave : w'.save (text "d.yaml") c.dump = (.ok (), w₁) := by decide +kernel
  have hread : w₁.load (text "d.yaml") = .ok c.dump := by decide +kernel
  have hchosen : ∀ s ∈ c.chosen, Yaml.survives s = true := by decide +kernel
  refine ⟨hload, hsave, hread, hchosen, ?_⟩
  exact (load_dump_iff hload hsave hread hchosen).mpr ⟨by decide, by decide⟩

/-- The path and the mode of the log file are set to nothing, and come back as the standard ones. -/
theorem load_dump_ne :
    let data := text "logging:\n  file:\n    destination: \"\"\n    mode: \"\"\n"
    let c : Config := { standard with file := ⟨Channel.none, [], []⟩ }
    let nodes := [([text "s"], .dir 0o755), ([text "s", text "c.yaml"], .file data 0o644)]
    let written := nodes ++ [([text "s", text "d.yaml"], .file c.dump 0o644)]
    let w : Machine := ⟨⟨⟨nodes⟩⟩, text "/s", text "/tmp", ⟨[], none⟩, [], [], 0, [], [], [], []⟩
    let w₁ : Machine := { w with disk := ⟨⟨written⟩⟩ }
    (load (text "c.yaml") : StateM Machine _).run w = (.ok c, w) ∧
      w.save (text "d.yaml") c.dump = (.ok (), w₁) ∧ w₁.load (text "d.yaml") = .ok c.dump ∧
      ((load (text "d.yaml") : StateM Machine _).run w₁).1 = .ok standard := by
  intro data c nodes written w w₁
  refine ⟨Prod.ext ?_ ?_, ?_, ?_, ?_⟩
  all_goals decide +kernel

end Cascade.Config
