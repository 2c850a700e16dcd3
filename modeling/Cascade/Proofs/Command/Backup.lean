import Cascade.Proofs.Command.Dedupe
import Cascade.Proofs.Report.Copies

/-!
# The original beside the merged file

A backup is made if the destination is spelled like the source. What is overwritten is
the file that the destination names, however it is spelled. So the original is lost
where another spelling of the source is given as the destination.
-/

namespace Cascade

def Log.Logger.Elsewhere (l : Log.Logger) (w : Machine) (paths : List Bytes) : Prop :=
  ∀ file ∈ l.files, ∃ loc, w.Denotes file loc ∧ ∀ path ∈ paths, ¬ w.Denotes path loc

theorem Log.Logger.Elsewhere.writes {l : Log.Logger} {w : Machine} {paths : List Bytes}
    (h : l.Elsewhere w paths) : ∀ file ∈ l.files, ∃ loc, w.Denotes file loc ∧ l.Writes w loc := by
  intro file hfile
  obtain ⟨loc, hloc, _⟩ := h file hfile
  exact ⟨loc, hloc, file, hfile, hloc⟩

theorem Log.Logger.Elsewhere.not_writes {l : Log.Logger} {w : Machine} {paths : List Bytes}
    (h : l.Elsewhere w paths) {path : Bytes} (hpath : path ∈ paths) {loc : Location}
    (hloc : w.Denotes path loc) : ¬ l.Writes w loc := by
  rintro ⟨file, hfile, hwrites⟩
  obtain ⟨loc', hloc', hother⟩ := h file hfile
  obtain rfl : loc = loc' := Except.ok.inj (hwrites.symm.trans hloc')
  exact hother path hpath hloc

theorem Log.Logger.preserves_grown {S : Location → Prop} {start : Machine} {l : Log.Logger}
    (hfiles : ∀ file ∈ l.files, ∃ loc, start.Denotes file loc ∧ S loc) :
    l.Preserves (start.Grown S) := by
  refine preserves (Machine.Grown.onFiles start S) fun file hfile data w hw => ?_
  obtain ⟨loc, hloc, hS⟩ := hfiles file hfile
  refine hw.write (fun loc' hloc' => Or.inl ?_) _ _
  obtain rfl : loc = loc' := Except.ok.inj ((hw.denotes hloc).symm.trans hloc')
  exact hS

namespace Action

variable {I : Machine → Prop} {log : Log.Logger}

theorem preserves_proceed (env : Environment) :
    Attempt.Preserves I (proceed env : Action (StateM Machine) Unit) := by
  unfold proceed
  split
  · exact .throw _
  · exact .pure _

theorem preserves_store (name path : Bytes) :
    Attempt.Preserves I (store name path : Action (StateM Machine) Unit) :=
  .bind (.report (.update fun _ _ hw => hw)) fun answer => .ofExcept answer

theorem preserves_storeInput (hlog : log.Preserves I)
    (hcopy : ∀ (r : Report) name path, Preserves I (r.storeCopy name path : StateM Machine _))
    (path : Bytes) : Attempt.Preserves I (storeInput log path) := by
  refine .bind (.report (.update fun r => hcopy r _ _)) fun answer => ?_
  rcases answer with e | _
  · cases e with
    | refused r => exact .throw _
    | system e => exact .lift (hlog _)
    | notRegular path => exact .lift (hlog _)
  · exact .pure _

end Action

namespace Dedupe

open Cascade.Action

variable {o : Options} {log : Log.Logger} {ρ ρ' : Option Report} {w w' : Machine} {n : Nat}

theorem write_ok {path data : Bytes}
    (h : (Source.write path data : StateM Machine _).run w = (.ok (), w')) :
    ∃ loc, w.disk.Writable w.place path loc ∧ w' = { w with
      disk := w.disk.set loc (.file data (w.disk.modeAt loc Disk.fileMode)) } := by
  by_cases hmay : ∃ loc, w.disk.Writable w.place path loc
  · obtain ⟨loc, hloc⟩ := hmay
    cases h.symm.trans (Source.run_write_ok hloc data)
    exact ⟨loc, hloc, rfl⟩
  · obtain ⟨e, herror⟩ := Source.run_write_error (not_exists.mp hmay) data
    cases h.symm.trans herror

theorem keep_ok (h : Attempt.Ran (keep o) ρ w (.ok ()) ρ' w') :
    (o.backup = false ∧ w' = w) ∨
      ∃ data bak, o.backup = true ∧ w.load o.source = .ok data ∧
        w.disk.Writable w.place (backupPath o.source) bak ∧ w' = { w with
          disk := w.disk.set bak (.file data (w.disk.modeAt bak Disk.fileMode)) } := by
  unfold keep at h
  split at h
  · next hbackup =>
      right
      obtain ⟨data, w₁, hrun, hsave⟩ := Attempt.Ran.request_ok h
      obtain ⟨hload, rfl⟩ := Prod.mk.inj hrun
      obtain ⟨bak, hbak, rfl⟩ := write_ok (Attempt.Ran.demand_ok hsave).1
      exact ⟨data, bak, hbackup, hload, hbak, rfl⟩
  · next hbackup =>
      cases h
      exact Or.inl ⟨Bool.of_not_eq_true hbackup, rfl⟩

theorem finish_ok {sheet : Sheet} (h : Attempt.Ran (finish o log sheet) ρ w (.ok n) ρ' w') :
    ∃ dst w₁, w.disk.Writable w.place o.destination dst ∧
      w₁ = { w with
        disk := w.disk.set dst (.file sheet.deduplicated (w.disk.modeAt dst Disk.fileMode)) } ∧
      ∀ I, log.Preserves I → I w₁ → I w' := by
  obtain ⟨_, w₁, hwrite, hrest⟩ := Attempt.Ran.request_ok h
  obtain ⟨dst, hdst, hw₁⟩ := write_ok hwrite
  refine ⟨dst, w₁, hdst, hw₁, fun I hlog hI => ?_⟩
  have hkeeps : Attempt.Preserves I (do
      store (text "output/" ++ Path.base o.destination) o.destination
      (log.log .debug "Stylesheet deduplicated" [("tokens", .number sheet.tokens.length),
        ("selectors", .number sheet.table.size), ("merged", .number sheet.table.merged),
        ("bytes", .number sheet.deduplicated.length)] : StateM Machine Unit)
      return sheet.deduplicated.length : Action (StateM Machine) Nat) :=
    .bind (preserves_store _ _) fun _ => .bind (.lift (hlog _)) fun _ => .pure _
  exact hkeeps.ran hrest hI

/-- The backup is made beside the source, which stays as it is. -/
theorem exists_saved {S : Location → Prop} {start : Machine} {src : Location} {data : Bytes}
    {mode : Nat} (hw : start.Grown S w) (hsrc : w.Denotes o.source src)
    (hheld : w.disk.node? src = some (.file data mode)) (h : Attempt.Ran (keep o) ρ w (.ok ()) ρ' w') :
    ∃ bak, start.Grown (fun loc => S loc ∨ o.backup = true ∧ loc = bak) w' ∧
      w'.disk.node? src = some (.file data mode) ∧
      (o.backup = true → w'.Denotes (backupPath o.source) bak ∧
        ∃ m, w'.disk.node? bak = some (.file data m)) := by
  rcases keep_ok h with ⟨hbackup, rfl⟩ | ⟨copied, bak, hbackup, hload, hbak, rfl⟩
  · refine ⟨[], hw.mono fun loc => Or.inl, hheld, fun htrue => ?_⟩
    rw [hbackup] at htrue
    cases htrue
  · have hne : bak ≠ src :=
      Disk.locate_append_ne hsrc hheld (by decide) (by decide) (Machine.denotes_of_writable hbak)
    obtain ⟨loc, m, hloc, hnode, _⟩ := Machine.load_eq_ok_iff.mp hload
    obtain rfl : src = loc := Except.ok.inj (hsrc.symm.trans hloc)
    obtain ⟨rfl, rfl⟩ := FileNode.file.inj (Option.some.inj (hheld.symm.trans hnode))
    refine ⟨bak, ⟨hw.dir, ?_⟩, ?_, fun _ => ⟨?_, ?_⟩⟩
    · exact (hw.mono fun loc => Or.inl).disk.set_file hbak (Or.inl (Or.inr ⟨hbackup, rfl⟩)) _ _
    · rw [Disk.node?_set _ hbak.2.ne_nil, if_neg hne.symm]
      exact hheld
    · exact (Machine.kept_set hbak _ _).denotes_iff.mpr (Machine.denotes_of_writable hbak)
    · exact ⟨_, by rw [Disk.node?_set _ hbak.2.ne_nil, if_pos rfl]⟩

theorem scan_ok {path source : Bytes} {sheet : Sheet}
    (h : Attempt.Ran (scan log path source) ρ w (.ok sheet) ρ' w') : sheet = Sheet.scan source := by
  obtain ⟨_, _, _, _, hrest⟩ := Attempt.Ran.bind_ok h
  obtain ⟨_, _, _, _, hlast⟩ := Attempt.Ran.bind_ok hrest
  cases hlast
  rfl

variable {env : Environment} {command : Bytes} {line : Line}

theorem stylesheet_ok {path : Bytes} (h : Attempt.Ran (stylesheet log command line) ρ w (.ok path) ρ' w') :
    ∃ others, line.arguments = path :: others := by
  unfold stylesheet at h
  split at h
  · cases congrArg (fun out => out.1.1) h
  · next first others harguments =>
      split at h
      · cases congrArg (fun out => out.1.1) h
      · dsimp only at h
        split at h
        · obtain ⟨_, _, _, _, hlast⟩ := Attempt.Ran.bind_ok h
          cases hlast
          exact ⟨others, harguments⟩
        · cases h
          exact ⟨others, harguments⟩

theorem options_backup {c : Config} (hconfig : env.config = some c) (hbackup : c.backup = true)
    (path : Bytes) :
    (options env line path).backup = true ↔ (options env line path).destination = path := by
  unfold options
  simp [hconfig, hbackup]

section Runs

variable [Codecs]

theorem process_eq (o : Options) (log : Log.Logger) :
    (process o log : Action (StateM Machine) Nat) = (do
      let data ← ofExcept .source (← (Source.read o.source o.charset : StateM Machine _))
      storeInput log o.source
      let sheet ← scan log o.source data
      keep o
      finish o log sheet) := by
  unfold process keep finish
  cases o.backup <;> rfl

theorem read_ok {path : Bytes} {charset : Charset} {s : Bytes}
    (h : (Source.read path charset : StateM Machine _).run w = (.ok s, w')) :
    ∃ data, w.load path = .ok data ∧ charset.decode? data = some s ∧ w' = w := by
  by_cases hread : ∃ data s, w.load path = .ok data ∧ charset.decode? data = some s
  · obtain ⟨data, s', hload, hdecode⟩ := hread
    cases h.symm.trans (Source.run_read_ok hload hdecode)
    exact ⟨data, hload, hdecode, rfl⟩
  · obtain ⟨e, herror⟩ := Source.run_read_error hread
    cases h.symm.trans herror

/-- The file at `dst`, which the destination names at the end, has the merged text of
the one at `src`, and the backup has the original. Apart from `S`, all else has only grown. -/
structure Written (o : Options) (S : Location → Prop) (w w' : Machine) (src dst bak : Location)
    (data s : Bytes) (mode : Nat) : Prop where
  source : w.Denotes o.source src
  held : w.disk.node? src = some (.file data mode)
  readable : Disk.mayRead mode = true
  decoded : o.charset.decode? data = some s
  grown : w.Grown (fun loc => S loc ∨ loc = dst ∨ o.backup = true ∧ loc = bak) w'
  destination : w'.Denotes o.destination dst
  written : ¬ S dst → ∃ m, (dst = src → m = mode) ∧
    w'.disk.node? dst = some (.file (Sheet.scan s).deduplicated m)
  saved : o.backup = true → w'.Denotes (backupPath o.source) bak ∧
    (bak ≠ dst → ¬ S bak → ∃ m, w'.disk.node? bak = some (.file data m))

/-- If nothing but `S` is overwritten afterwards, what was written stays. -/
theorem Written.later {S : Location → Prop} {w₁ : Machine} {src dst bak : Location}
    {data s : Bytes} {mode : Nat} (h : Written o S w w₁ src dst bak data s mode)
    (hgrown : w₁.Grown S w') : Written o S w w' src dst bak data s mode := by
  have hstays : ∀ loc text m, ¬ S loc → w₁.disk.node? loc = some (.file text m) →
      w'.disk.node? loc = some (.file text m) := by
    intro loc text m hS hfile
    exact (hgrown.disk.files loc text m hS (h.grown.disk.tree loc _ hfile)).mpr hfile
  refine { h with
    grown := h.grown.trans (hgrown.mono fun loc => Or.inl)
    destination := hgrown.denotes h.destination
    written := ?_
    saved := ?_ }
  · intro hS
    obtain ⟨m, hmode, hm⟩ := h.written hS
    exact ⟨m, hmode, hstays dst _ m hS hm⟩
  · intro hbackup
    obtain ⟨hbak, hsaved⟩ := h.saved hbackup
    refine ⟨hgrown.denotes hbak, fun hne hS => ?_⟩
    obtain ⟨m, hm⟩ := hsaved hne hS
    exact ⟨m, hstays bak data m hS hm⟩

theorem written_of_process {S : Location → Prop} (htree : w.disk.IsTree)
    (hlog : ∀ file ∈ log.files, ∃ loc, w.Denotes file loc ∧ S loc)
    (hsource : ∀ loc, w.Denotes o.source loc → ¬ S loc)
    (h : Attempt.Ran (process o log) ρ w (.ok n) ρ' w') :
    ∃ src dst bak data s mode, Written o S w w' src dst bak data s mode := by
  rw [process_eq] at h
  obtain ⟨s, w₀, hread, hrest⟩ := Attempt.Ran.request_ok h
  obtain ⟨data, hload, hdecode, rfl⟩ := read_ok hread
  obtain ⟨src, mode, hsrc, hheld, hreadable⟩ := Machine.load_eq_ok_iff.mp hload
  obtain ⟨_, ρ₁, w₁, hinput, hrest⟩ := Attempt.Ran.bind_ok hrest
  obtain ⟨sheet, ρ₂, w₂, hscan, hrest⟩ := Attempt.Ran.bind_ok hrest
  obtain ⟨_, ρ₃, w₃, hkeep, hfinish⟩ := Attempt.Ran.bind_ok hrest
  obtain rfl := scan_ok hscan
  have hlog₀ : log.Preserves (w₀.Grown S) := Log.Logger.preserves_grown hlog
  have hw₁ : w₀.Grown S w₁ :=
    (preserves_storeInput hlog₀ (fun r name path _ hw => hw.storeCopy r name path) _).ran hinput
      (.refl S htree)
  have hw₂ : w₀.Grown S w₂ := (preserves_scan hlog₀ _ _).ran hscan hw₁
  have hheld₂ : w₂.disk.node? src = some (.file data mode) :=
    (hw₂.disk.files src data mode (hsource src hsrc) (htree src _ hheld)).mpr hheld
  obtain ⟨bak, hw₃, hheld₃, hsaved⟩ := exists_saved hw₂ (hw₂.denotes hsrc) hheld₂ hkeep
  obtain ⟨dst, w₄, hdst, hw₄, hlast⟩ := finish_ok hfinish
  have hset : w₃.Kept (· = dst) w₄ := hw₄ ▸ Machine.kept_set hdst _ _
  have hnode : ∀ loc, w₄.disk.node? loc = if loc = dst then
      some (.file (Sheet.scan s).deduplicated (w₃.disk.modeAt dst Disk.fileMode))
      else w₃.disk.node? loc := by
    intro loc
    rw [hw₄]
    exact Disk.node?_set _ hdst.2.ne_nil _ loc
  have hgrown : w₀.Grown (fun loc => S loc ∨ loc = dst ∨ o.backup = true ∧ loc = bak) w₄ := by
    rw [hw₄]
    refine ⟨hw₃.dir, Disk.Grown.set_file ?_ hdst (Or.inl (Or.inr (Or.inl rfl))) _ _⟩
    exact hw₃.disk.mono fun loc hloc => hloc.imp_right Or.inr
  -- what is written last is logged, and leaves the destination and the backup alone
  have hlog₄ : ∀ file ∈ log.files, ∃ loc, w₄.Denotes file loc ∧ S loc := by
    intro file hfile
    obtain ⟨loc, hloc, hS⟩ := hlog file hfile
    exact ⟨loc, hgrown.denotes hloc, hS⟩
  have hw' : w₄.Grown S w' :=
    hlast _ (Log.Logger.preserves_grown hlog₄) (.refl S hgrown.disk.tree)
  have hdone : Written o S w₀ w₄ src dst bak data s mode := {
    source := hsrc
    held := hheld
    readable := hreadable
    decoded := hdecode
    grown := hgrown
    destination := hset.denotes_iff.mpr (Machine.denotes_of_writable hdst)
    written := fun _ => by
      refine ⟨_, ?_, (hnode dst).trans (if_pos rfl)⟩
      rintro rfl
      unfold Disk.modeAt
      rw [hheld₃]
    saved := fun hbackup => by
      obtain ⟨hbak, m, hm⟩ := hsaved hbackup
      exact ⟨hset.denotes_iff.mpr hbak, fun hne _ => ⟨m, (hnode bak).trans ((if_neg hne).trans hm)⟩⟩ }
  exact ⟨src, dst, bak, data, s, mode, hdone.later hw'⟩

/-! ## The whole command -/

/-- A command that went well has logged, merged a file and logged again. -/
theorem run_ok (h : Attempt.Ran (run env command line) ρ w (.ok ()) ρ' w') :
    ∃ path others ρ₀ w₀ ρ₁ w₁ n, line.arguments = path :: others ∧
      (∀ I, (env.logger.named (text "dedupe")).Preserves I → I w → I w₀) ∧
      Attempt.Ran (process (options env line path) (env.logger.named (text "dedupe"))) ρ₀ w₀ (.ok n)
        ρ₁ w₁ ∧
      ∀ I, OnFiles I → (env.logger.named (text "dedupe")).Preserves I → I w₁ → I w' := by
  unfold run at h
  obtain ⟨_, ρ₁, w₁, hproceed, hrest⟩ := Attempt.Ran.bind_ok h
  obtain ⟨path, ρ₂, w₂, hpath, hrest⟩ := Attempt.Ran.bind_ok hrest
  obtain ⟨_, ρ₃, w₃, hstart, hrest⟩ := Attempt.Ran.bind_ok hrest
  obtain ⟨w₄, hdedupe, rfl⟩ := Attempt.Ran.before_ok hrest
  obtain ⟨n, ρ₅, w₅, hprocess, hprint⟩ := Attempt.Ran.bind_ok hdedupe
  obtain ⟨others, harguments⟩ := stylesheet_ok hpath
  refine ⟨path, others, ρ₃, w₃, ρ₅, w₅, n, harguments, fun I hlog hw => ?_, hprocess,
    fun I hI hlog hw => ?_⟩
  · have hw₁ : I w₁ := (preserves_proceed env).ran hproceed hw
    have hw₂ : I w₂ := (preserves_stylesheet hlog command line).ran hpath hw₁
    exact (Attempt.Preserves.lift (hlog _)).ran hstart hw₂
  · obtain ⟨fine, ρ₆, w₆, hline, hlast⟩ := Attempt.Ran.bind_ok hprint
    have hw₆ : I w₆ := (Attempt.Preserves.lift (hI.print _)).ran hline hw
    refine preserves_logElapsed hI hlog _ w₄ ?_
    cases fine with
    | false => cases congrArg (fun out => out.1.1) hlast
    | true =>
        cases hlast
        exact hw₆

theorem written_of_run {path : Bytes} {others : List Bytes} (hline : line.arguments = path :: others)
    (htree : w.disk.IsTree) (hlog : env.logger.Elsewhere w [path])
    (h : Attempt.Ran (run env command line) ρ w (.ok ()) ρ' w') :
    ∃ src dst bak data s mode,
      Written (options env line path) (env.logger.Writes w) w w' src dst bak data s mode := by
  obtain ⟨first, rest, ρ₀, w₀, ρ₁, w₁, n, harguments, hbefore, hprocess, hafter⟩ := run_ok h
  obtain ⟨rfl, rfl⟩ := List.cons.inj (harguments.symm.trans hline)
  have hsrc : ∀ loc, w.Denotes first loc → ¬ env.logger.Writes w loc := fun loc =>
    hlog.not_writes List.mem_cons_self
  have hopen := hlog.writes
  have hgrown₀ : w.Grown (env.logger.Writes w) w₀ :=
    hbefore _ (Log.Logger.preserves_grown hopen) (.refl _ htree)
  have hkept₀ : w.Kept (env.logger.Writes w) w₀ :=
    hbefore _ (Log.Logger.kept_emit (env.logger.named (text "dedupe")) w) (.refl _ w)
  have hopen₀ : ∀ file ∈ (env.logger.named (text "dedupe")).files,
      ∃ loc, w₀.Denotes file loc ∧ env.logger.Writes w loc := by
    intro file hfile
    obtain ⟨loc, hloc, hwrites⟩ := hopen file hfile
    exact ⟨loc, hgrown₀.denotes hloc, hwrites⟩
  obtain ⟨src, dst, bak, data, s, mode, hdone⟩ := written_of_process hgrown₀.disk.tree hopen₀
    (fun loc hloc => hsrc loc (hkept₀.denotes_iff.mp hloc)) hprocess
  have hgrown₁ : w₁.Grown (env.logger.Writes w) w' := by
    refine hafter _ (Machine.Grown.onFiles _ _) (Log.Logger.preserves_grown ?_)
      (.refl _ hdone.grown.disk.tree)
    intro file hfile
    obtain ⟨loc, hloc, hwrites⟩ := hopen₀ file hfile
    exact ⟨loc, hdone.grown.denotes hloc, hwrites⟩
  have hsrc₀ : w.Denotes first src := hkept₀.denotes_iff.mp hdone.source
  -- what is logged before leaves the source alone
  have hall : Written (options env line first) (env.logger.Writes w) w w₁ src dst bak data s mode :=
    { hdone with
      source := hsrc₀
      held := (hkept₀.disk.off src (hsrc src hsrc₀)).symm.trans hdone.held
      grown := (hgrown₀.mono fun loc => Or.inl).trans hdone.grown }
  exact ⟨src, dst, bak, data, s, mode, hall.later hgrown₁⟩

namespace Written

variable {S : Location → Prop} {src dst bak loc : Location} {data s content : Bytes} {mode : Nat}

/-- The backup has a place of its own, which was there to be filled before. -/
theorem denotes_backup (h : Written o S w w' src dst bak data s mode)
    (hloc : w'.Denotes (backupPath o.source) loc) :
    w.Denotes (backupPath o.source) loc ∧ w.disk.IsDir loc.dropLast := by
  unfold Machine.Denotes at hloc
  rw [h.grown.place_eq] at hloc
  exact h.grown.disk.locate_append_eq_ok h.source (by decide) (by decide) hloc

theorem backup_ne_source (h : Written o S w w' src dst bak data s mode)
    (hloc : w.Denotes (backupPath o.source) loc) : loc ≠ src :=
  Disk.locate_append_ne h.source h.held (by decide) (by decide) hloc

/-- Where a backup is made, it holds the original. -/
theorem holds_backup (h : Written o S w w' src dst bak data s mode) (hbackup : o.backup = true)
    (hdst : dst = src) (hlog : ∀ loc, w.Denotes (backupPath o.source) loc → ¬ S loc) :
    w'.Holds (backupPath o.source) data := by
  obtain ⟨hbak, hsaved⟩ := h.saved hbackup
  have hbefore : w.Denotes (backupPath o.source) bak := (h.denotes_backup hbak).1
  have hne : bak ≠ dst := hdst ▸ h.backup_ne_source hbefore
  obtain ⟨m, hm⟩ := hsaved hne (hlog bak hbefore)
  exact ⟨bak, m, hbak, hm⟩

/-- Where none is made, the file in its place is as before. -/
theorem holds_backup_iff (h : Written o S w w' src dst bak data s mode) (hbackup : ¬ o.backup = true)
    (hdst : dst = src) (hlog : ∀ loc, w.Denotes (backupPath o.source) loc → ¬ S loc) :
    w'.Holds (backupPath o.source) content ↔ w.Holds (backupPath o.source) content := by
  have hsame : ∀ loc m, w.Denotes (backupPath o.source) loc → w.disk.IsDir loc.dropLast →
      (w'.disk.node? loc = some (.file content m) ↔ w.disk.node? loc = some (.file content m)) := by
    intro loc m hloc hdir
    apply h.grown.disk.files loc content m _ hdir
    rintro (hlogged | rfl | ⟨htrue, _⟩)
    · exact hlog loc hloc hlogged
    · exact h.backup_ne_source hloc hdst
    · exact hbackup htrue
  constructor
  · rintro ⟨loc, m, hloc, hm⟩
    obtain ⟨hbefore, hdir⟩ := h.denotes_backup hloc
    exact ⟨loc, m, hbefore, (hsame loc m hbefore hdir).mp hm⟩
  · rintro ⟨loc, m, hloc, hm⟩
    have hafter : w'.Denotes (backupPath o.source) loc := h.grown.denotes hloc
    exact ⟨loc, m, hafter, (hsame loc m hloc (h.denotes_backup hafter).2).mpr hm⟩

/-- A source that was not the destination is as before. -/
theorem holds_source (h : Written o S w w' src dst bak data s mode) (htree : w.disk.IsTree)
    (hbackup : ¬ o.backup = true) (hdst : dst ≠ src) (hlog : ¬ S src) : w'.Holds o.source data := by
  refine ⟨src, mode, h.grown.denotes h.source, ?_⟩
  apply (h.grown.disk.files src data mode _ (htree src _ h.held)).mpr h.held
  rintro (hlogged | rfl | ⟨htrue, _⟩)
  · exact hlog hlogged
  · exact hdst rfl
  · exact hbackup htrue

/-- A source that was the destination has the merged text. -/
theorem holds_source_iff (h : Written o S w w' src dst bak data s mode) (hdst : dst = src)
    (hlog : ¬ S src) : w'.Holds o.source content ↔ (Sheet.scan s).deduplicated = content := by
  subst hdst
  obtain ⟨m, _, hm⟩ := h.written hlog
  have hsrc : w'.Denotes o.source dst := h.grown.denotes h.source
  constructor
  · rintro ⟨loc, m', hloc, hm'⟩
    obtain rfl : dst = loc := Except.ok.inj (hsrc.symm.trans hloc)
    exact (FileNode.file.inj (Option.some.inj (hm.symm.trans hm'))).1
  · rintro rfl
    exact ⟨dst, m, hsrc, hm⟩

end Written

/-- With backups switched on, a command that went well has kept the original, in its
place or beside it, exactly if the destination is spelled like the source, or names
another file, or the merged text is the original, or the backup had it before. -/
theorem run_keeps_original_iff (env : Environment) (c : Config) (command : Bytes) (line : Line)
    (path : Bytes) (others : List Bytes) (ρ ρ' : Option Report) (w w' : Machine)
    (hconfig : env.config = some c) (hbackup : c.backup = true)
    (hline : line.arguments = path :: others) (htree : w.disk.IsTree)
    (hlog : env.logger.Elsewhere w [path, backupPath path])
    (h : Attempt.Ran (run env command line) ρ w (.ok ()) ρ' w') :
    ∃ src data s, w.Denotes path src ∧ w.load path = .ok data ∧ env.charset.decode? data = some s ∧
      ((¬ w'.Holds path data → w'.Holds (backupPath path) data) ↔
        (options env line path).destination = path ∨
        ¬ w'.Denotes (options env line path).destination src ∨
        (Sheet.scan s).deduplicated = data ∨ w.Holds (backupPath path) data) := by
  have hfirst : env.logger.Elsewhere w [path] := by
    intro file hfile
    obtain ⟨loc, hloc, hother⟩ := hlog file hfile
    refine ⟨loc, hloc, fun p hp => hother p ?_⟩
    exact List.mem_cons.mpr (Or.inl (List.mem_singleton.mp hp))
  obtain ⟨src, dst, bak, data, s, mode, hdone⟩ := written_of_run hline htree hfirst h
  have hsrc : w.Denotes path src := hdone.source
  have hsrcLog : ¬ env.logger.Writes w src := hlog.not_writes List.mem_cons_self hsrc
  have hbakLog : ∀ loc, w.Denotes (backupPath path) loc → ¬ env.logger.Writes w loc := fun loc =>
    hlog.not_writes (List.mem_cons_of_mem _ List.mem_cons_self)
  refine ⟨src, data, s, hsrc,
    Machine.load_eq_ok_iff.mpr ⟨src, mode, hsrc, hdone.held, hdone.readable⟩, hdone.decoded, ?_⟩
  by_cases hspelled : (options env line path).destination = path
  · have hb := (options_backup hconfig hbackup path).mpr hspelled
    have hdst : dst = src := by
      have hnow := hdone.destination
      rw [hspelled] at hnow
      exact Except.ok.inj (hnow.symm.trans (hdone.grown.denotes hsrc))
    exact iff_of_true (fun _ => hdone.holds_backup hb hdst hbakLog) (Or.inl hspelled)
  · have hb : ¬ (options env line path).backup = true := fun hb =>
      hspelled ((options_backup hconfig hbackup path).mp hb)
    by_cases hdst : dst = src
    · -- the source is overwritten under another spelling, and no backup is made
      have hsource : w'.Holds path data ↔ (Sheet.scan s).deduplicated = data :=
        hdone.holds_source_iff hdst hsrcLog
      have hbak : w'.Holds (backupPath path) data ↔ w.Holds (backupPath path) data :=
        hdone.holds_backup_iff hb hdst hbakLog
      have hnow : w'.Denotes (options env line path).destination src := hdst ▸ hdone.destination
      rw [hsource, hbak]
      simp [hspelled, hnow, or_iff_not_imp_left]
    · have hsource : w'.Holds path data := hdone.holds_source htree hb hdst hsrcLog
      refine iff_of_true (fun hlost => absurd hsource hlost) (Or.inr (Or.inl fun hnow => ?_))
      exact hdst (Except.ok.inj (hdone.destination.symm.trans hnow))

end Runs

section Samples

open scoped Codecs

/-- A run in place with a debug report, which takes a copy of the source. -/
theorem run_keeps_original_iff_in_place :
    let css := text "a\x7bx:1\x7da\x7bx:2\x7d"
    let disk : Disk := ⟨⟨[([text "s"], .dir Disk.dirMode), ([text "tmp"], .dir Disk.dirMode),
      ([text "s", text "a.css"], .file css 0o600), ([text "s", text "log"], .file [] 0o644)]⟩⟩
    let w : Machine := ⟨disk, text "/s", text "/tmp", ⟨[], none⟩, [], [], 0, [], [], [], []⟩
    let env : Environment := ⟨some { Config.standard with backup := true },
      ⟨[], [.memory, .file (text "log") .debug]⟩, .utf8, false⟩
    let line : Line := ⟨[], [text "./a.css"]⟩
    let report : Report := Report.empty (some (text "/tmp/report.zip"))
    env.logger.Elsewhere w [text "./a.css", text "./a.css.bak"] ∧ w.disk.IsTree ∧
      ∃ ρ' w', Attempt.Ran (run env (text "dedupe") line) (some report) w (.ok ()) ρ' w' ∧
        ¬ w'.Holds (text "./a.css") css ∧ w'.Holds (text "./a.css.bak") css := by
  intro css disk w env line report
  have hlog : env.logger.Elsewhere w [text "./a.css", text "./a.css.bak"] := by
    intro file hmem
    obtain rfl : file = text "log" := List.mem_singleton.mp hmem
    exact ⟨[text "s", text "log"], by decide⟩
  have htree : w.disk.IsTree := by decide
  obtain ⟨⟨⟨res, ρ'⟩, w'⟩, hrun⟩ : ∃ out,
    ((run env (text "dedupe") line : Action (StateM Machine) Unit).run.run (some report)).run w = out :=
    ⟨_, rfl⟩
  have hchanged : res = .ok () ∧ ¬ w'.Holds (text "./a.css") css := by
    have hout : ∀ out : (Except Failure Unit × Option Report) × Machine,
        ((run env (text "dedupe") line : Action (StateM Machine) Unit).run.run (some report)).run w = out →
        out.1.1 = .ok () ∧ ¬ out.2.Holds (text "./a.css") css := by
      rintro _ rfl
      decide +kernel
    exact hout _ hrun
  obtain ⟨rfl, hlost⟩ := hchanged
  obtain ⟨src, data, s, _, hload, _, hiff⟩ := run_keeps_original_iff env _ (text "dedupe") line
    (text "./a.css") [] (some report) ρ' w w' rfl rfl rfl htree hlog hrun
  obtain rfl : css = data := Except.ok.inj ((by decide : w.load (text "./a.css") = .ok css).symm.trans hload)
  exact ⟨hlog, htree, ρ', w', hrun, hlost, hiff.mpr (Or.inl rfl) hlost⟩

/-- The source is overwritten as `./a.css`, and no backup of `a.css` is made. -/
theorem run_loses_original :
    let css := text "a\x7bx:1\x7da\x7bx:2\x7d"
    let disk : Disk := ⟨⟨[([text "s"], .dir Disk.dirMode), ([text "s", text "a.css"], .file css 0o644)]⟩⟩
    let w : Machine := ⟨disk, text "/s", text "/tmp", ⟨[], none⟩, [], [], 0, [], [], [], []⟩
    let env : Environment :=
      ⟨some { Config.standard with backup := true }, ⟨[], [.memory]⟩, .utf8, false⟩
    let line : Line := ⟨[(output.name, .text (text "./a.css"))], [text "a.css"]⟩
    let out := ((run env (text "dedupe") line : Action (StateM Machine) Unit).run.run none).run w
    out.1.1 = .ok () ∧ w.Holds (text "a.css") css ∧ ¬ out.2.Holds (text "a.css") css ∧
      ¬ out.2.Holds (text "a.css.bak") css := by
  decide +kernel

end Samples

end Dedupe

end Cascade
