import Cascade.Command.Dedupe
import Cascade.Proofs.Host.Links

/-!
# Merging a file, or leaving it alone

A run reads, keeps a copy if it is asked to, and writes. Each of these may be refused
after the ones before it have acted. If all of them can be done, they are done; if one
cannot, then nothing has changed but the log.
-/

namespace Cascade.Dedupe

open Cascade.Action

/-- All that a run asks for is granted: the source is read and understood, and the
backup and the destination may be written. -/
def Feasible [Codecs] (o : Options) (w : Linked) : Prop :=
  (∃ data s, w.load o.source = .ok data ∧ o.charset.decode? data = some s) ∧
    (o.backup = true → ∃ bak, w.Writable (backupPath o.source) bak) ∧
    ∃ dst, w.Writable o.destination dst

/-- The machine `w'` is `w` with the rules of a file merged, apart from what is logged. The
backup has what the source held, unless both are one file. -/
structure Done [Codecs] (o : Options) (logged : Location → Prop) (w w' : Linked) (n : Nat)
    (src dst : Location) (data s : Bytes) (mode : Nat) : Prop where
  source : w.Denotes o.source src
  held : w.disk.node? src = some (.file data mode)
  decoded : o.charset.decode? data = some s
  destination : w.Denotes o.destination dst
  written : w'.disk.node? dst =
    some (.file (Sheet.scan s).deduplicated (w.disk.modeAt dst Disk.fileMode))
  count : n = (Sheet.scan s).deduplicated.length
  saved : o.backup = true → ∃ bak, w.Denotes (backupPath o.source) bak ∧
    (bak ≠ src → w'.disk.node? bak = some (.file data (w.disk.modeAt bak Disk.fileMode)))
  untouched : src ≠ dst → w'.disk.node? src = some (.file data mode)
  others : ∀ loc, loc ≠ dst → (o.backup = true → ¬ w.Denotes (backupPath o.source) loc) →
    ¬ logged loc → w'.disk.node? loc = w.disk.node? loc

/-! ## The stages of a run -/

def keep {m : Type → Type} [Monad m] [Host m] (o : Options) : Action m Unit :=
  if o.backup then backUp o.source else pure ()

def finish {m : Type → Type} [Monad m] [Host m] (o : Options) (log : Log.Logger) (sheet : Sheet) :
    Action m Nat := do
  Action.ofExcept .source (← (Source.write o.destination sheet.deduplicated : m _))
  Action.store (text "output/" ++ Path.base o.destination) o.destination
  (log.log .debug "Stylesheet deduplicated" [("tokens", .number sheet.tokens.length),
    ("selectors", .number sheet.table.size), ("merged", .number sheet.table.merged),
    ("bytes", .number sheet.deduplicated.length)] : m Unit)
  return sheet.deduplicated.length

variable {o : Options} {log : Log.Logger} {w w₁ w₂ : Linked} {data s : Bytes} {sheet : Sheet}
  {src dst : Location} {mode : Nat}

theorem run_load (hload : w.load o.source = .ok data) :
    (Host.load o.source : StateM Linked _).run w = (.ok data, w) :=
  congrArg (·, w) hload

theorem ends_backUp {bak : Location} (hload : w.load o.source = .ok data)
    (hbak : w.Writable (backupPath o.source) bak) :
    (backUp o.source).Ends w (.ok ())
      (w.withFile bak data (w.disk.modeAt bak Disk.fileMode)) := by
  have hwrite := Source.run_write_of_save
    (Linked.write_of_writable hbak Disk.fileMode fun _ => data)
  exact Ends.request (run_load hload) ((ends_lift hwrite).bind rfl)

theorem ends_backUp_error (hload : w.load o.source = .ok data)
    (hbak : ∀ bak, ¬ w.Writable (backupPath o.source) bak) :
    ∃ f, (backUp o.source).Ends w (.error f) w := by
  obtain ⟨c, _, hsave⟩ := Linked.write_of_not_writable hbak Disk.fileMode fun _ => data
  have hwrite := Source.run_write_of_save_error hsave
  exact ⟨_, Ends.request (run_load hload) ((ends_lift hwrite).bind rfl)⟩

/-- The locations that the backup may change. Where it is the source itself, it is written with
what it holds. -/
def Saves (o : Options) (w : Linked) (src loc : Location) : Prop :=
  o.backup = true ∧ w.Denotes (backupPath o.source) loc ∧ loc ≠ src

theorem kept_backup {bak : Location} (hfile : w.disk.node? src = some (.file data mode))
    (hbak : w.Writable (backupPath o.source) bak) (hb : o.backup = true) :
    w.Kept (Saves o w src) (w.withFile bak data (w.disk.modeAt bak Disk.fileMode)) := by
  have hset := hbak.kept_withFile data (w.disk.modeAt bak Disk.fileMode)
  refine ⟨⟨hset.machine.dir, hset.machine.disk.dirs, fun loc hloc => ?_⟩, hset.links⟩
  by_cases hsame : loc = bak
  · -- this is the source under another name, and its content stays
    obtain rfl : loc = src := by
      by_contra hne
      exact hloc ⟨hb, hsame ▸ hbak.denotes, hne⟩
    subst hsame
    have hmode : w.disk.modeAt loc Disk.fileMode = mode := by
      unfold Disk.modeAt
      rw [hfile]
    show (w.withFile loc data _).disk.node? loc = _
    rw [hbak.node?_withFile, if_pos rfl, hmode]
    exact hfile.symm
  · exact hset.off hsame

theorem exists_ends_keep (hfile : w.disk.node? src = some (.file data mode))
    (hload : w.load o.source = .ok data)
    (hbak : o.backup = true → ∃ bak, w.Writable (backupPath o.source) bak) :
    ∃ w', (keep o).Ends w (.ok ()) w' ∧ w.Kept (Saves o w src) w' ∧
      (o.backup = true → ∃ bak, w.Denotes (backupPath o.source) bak ∧
        w'.disk.node? bak = some (.file data (w.disk.modeAt bak Disk.fileMode))) := by
  unfold keep
  split
  · next hb =>
      obtain ⟨bak, hbak⟩ := hbak hb
      refine ⟨_, ends_backUp hload hbak, kept_backup hfile hbak hb, fun _ => ⟨bak, hbak.denotes, ?_⟩⟩
      rw [hbak.node?_withFile, if_pos rfl]
  · next hb => exact ⟨w, rfl, .refl _ w, fun h => absurd h hb⟩

theorem exists_ends_finish (hdst : w.Writable o.destination dst) (log : Log.Logger)
    (sheet : Sheet) :
    ∃ w', (finish o log sheet).Ends w (.ok sheet.deduplicated.length) w' ∧
      w.Kept (fun loc => loc = dst ∨ w.Logged log loc) w' ∧
      (¬ w.Logged log dst → w'.disk.node? dst =
        some (.file sheet.deduplicated (w.disk.modeAt dst Disk.fileMode))) := by
  have hset := hdst.kept_withFile sheet.deduplicated (w.disk.modeAt dst Disk.fileMode)
  obtain ⟨w', hlog, hlogged⟩ := exists_ends_log (Linked.kept_emit log _) .debug
    "Stylesheet deduplicated" [("tokens", .number sheet.tokens.length),
      ("selectors", .number sheet.table.size), ("merged", .number sheet.table.merged),
      ("bytes", .number sheet.deduplicated.length)] (.refl _ _)
  have hwrite := Source.run_write_of_save
    (Linked.write_of_writable hdst Disk.fileMode fun _ => sheet.deduplicated)
  refine ⟨w', Ends.request hwrite (Ends.bind (a := ()) rfl (hlog.bind rfl)), ?_, ?_⟩
  · refine (hset.mono fun loc => Or.inl).trans (hlogged.mono fun loc hloc => ?_)
    exact Or.inr (hset.logged_iff.mp hloc)
  · intro hdst'
    rw [hlogged.off fun hloc => hdst' (hset.logged_iff.mp hloc), hdst.node?_withFile, if_pos rfl]

/-- The destination cannot be written, and nothing changes. A file that is there can only be
refused for want of the right. -/
theorem ends_finish_error (hdst : ∀ dst, ¬ w.Writable o.destination dst) (log : Log.Logger)
    (sheet : Sheet) :
    ∃ e : OsError, (finish o log sheet).Ends w (.error (.source (.unwritable e))) w ∧
      ∀ loc data mode, w.Denotes o.destination loc →
        w.disk.node? loc = some (.file data mode) → e.cause = .denied := by
  obtain ⟨c, hput, hsave⟩ :=
    Linked.write_of_not_writable hdst Disk.fileMode fun _ => sheet.deduplicated
  refine ⟨_, Ends.request_error (Source.run_write_of_save_error hsave), ?_⟩
  intro loc data mode hloc hfile
  rw [Linked.target_of_file hloc hfile] at hput
  exact Disk.denied_of_put_file hfile hput

/-! ## Whole runs -/

/-- The log goes to none of the files of a run. -/
def Apart (o : Options) (log : Log.Logger) (w : Linked) : Prop :=
  ∀ path ∈ [o.source, o.destination, backupPath o.source], ∀ loc, w.Denotes path loc →
    ¬ w.Logged log loc

theorem Apart.source (h : Apart o log w) {loc : Location} (hloc : w.Denotes o.source loc) :
    ¬ w.Logged log loc :=
  h o.source (by simp) loc hloc

theorem Apart.destination (h : Apart o log w) {loc : Location}
    (hloc : w.Denotes o.destination loc) : ¬ w.Logged log loc :=
  h o.destination (by simp) loc hloc

theorem Apart.backup (h : Apart o log w) {loc : Location}
    (hloc : w.Denotes (backupPath o.source) loc) : ¬ w.Logged log loc :=
  h (backupPath o.source) (by simp) loc hloc

/-- A run in place writes the source, and a run to another place makes no backup. -/
theorem not_saves_destination (hbackup : o.backup = true → o.destination = o.source)
    (hsrc : w.Denotes o.source src) (hdst : w.Denotes o.destination dst) : ¬ Saves o w src dst := by
  rintro ⟨hb, _, hne⟩
  rw [hbackup hb] at hdst
  exact hne (Except.ok.inj (hdst.symm.trans hsrc))

/-- Up to the writing of the destination, nothing changes there. -/
theorem off_destination (hbackup : o.backup = true → o.destination = o.source)
    (hapart : Apart o log w) (hsrc : w.Denotes o.source src) :
    ∀ dst, w.Denotes o.destination dst → ¬ (w.Logged log dst ∨ Saves o w src dst) := by
  intro dst hdst
  exact not_or.mpr ⟨hapart.destination hdst, not_saves_destination hbackup hsrc hdst⟩

section Whole

variable [Codecs]

theorem process_of_read_error {e : SourceError}
    (hread : (Source.read o.source o.charset : StateM Linked _).run w = (.error e, w)) :
    (process o log).Ends w (.error (.source e)) w :=
  Ends.request_error hread

/-- A run that has read its source ends as the stages behind the reading do. -/
theorem process_of_read {r : Except Failure Nat} (hload : w.load o.source = .ok data)
    (hdecode : o.charset.decode? data = some s)
    (hscan : (Action.scan log o.source s).Ends w (.ok sheet) w₁)
    (hrest : (keep o >>= fun _ => finish o log sheet).Ends w₁ r w₂) :
    (process o log).Ends w r w₂ := by
  have hread : (Source.read o.source o.charset : StateM Linked _).run w = (.ok s, w) := by
    rw [Source.run_read_of_load (run_load hload), hdecode]
  refine Ends.request hread (Ends.bind (a := ()) rfl (hscan.bind ?_))
  unfold keep at hrest
  split
  · next hb =>
      rw [if_pos hb] at hrest
      exact hrest
  · next hb =>
      rw [if_neg hb] at hrest
      exact hrest

theorem exists_read_error
    (h : ¬ ∃ data s, w.load o.source = .ok data ∧ o.charset.decode? data = some s) :
    ∃ e, (Source.read o.source o.charset : StateM Linked _).run w = (.error e, w) := by
  cases hload : w.load o.source with
  | error e => exact ⟨_, Source.run_read_of_load_error (congrArg (·, w) hload)⟩
  | ok data =>
      have hread : (Source.read o.source o.charset : StateM Linked _).run w = _ :=
        Source.run_read_of_load (run_load hload)
      cases hdecode : o.charset.decode? data with
      | none =>
          rw [hdecode] at hread
          exact ⟨_, hread⟩
      | some s => exact absurd ⟨data, s, hload, hdecode⟩ h

/-- Up to the writing of the destination, only the log and the backup change. -/
theorem exists_ends_before_finish (hapart : Apart o log w) (hsrc : w.Denotes o.source src)
    (hfile : w.disk.node? src = some (.file data mode)) (hload : w.load o.source = .ok data)
    (hdecode : o.charset.decode? data = some s)
    (hbak : o.backup = true → ∃ bak, w.Writable (backupPath o.source) bak) :
    ∃ w₁, (∀ r w', (finish o log (Sheet.scan s)).Ends w₁ r w' → (process o log).Ends w r w') ∧
      w.Kept (fun loc => w.Logged log loc ∨ Saves o w src loc) w₁ ∧
      (o.backup = true → ∃ bak, w.Denotes (backupPath o.source) bak ∧
        w₁.disk.node? bak = some (.file data (w.disk.modeAt bak Disk.fileMode))) := by
  obtain ⟨w₀, hscan, hw₀⟩ :=
    exists_ends_scan (Linked.kept_emit log w) o.source s (.refl _ w)
  have hload₀ := hw₀.load_eq_ok (fun _ => hapart.source) hload
  have hfile₀ := (hw₀.off (hapart.source hsrc)).trans hfile
  have hbak₀ : o.backup = true → ∃ bak, w₀.Writable (backupPath o.source) bak := by
    intro hb
    obtain ⟨bak, hbak⟩ := hbak hb
    exact ⟨bak, (hw₀.writable_iff fun _ => hapart.backup).mpr hbak⟩
  obtain ⟨w₁, hkeep, hw₁, hsaved⟩ := exists_ends_keep hfile₀ hload₀ hbak₀
  refine ⟨w₁, fun r w' hrest => ?_, (hw₀.mono fun _ => Or.inl).trans (hw₁.mono ?_), fun hb => ?_⟩
  · exact process_of_read hload hdecode hscan (hkeep.bind hrest)
  · rintro loc ⟨hb, hloc, hne⟩
    exact Or.inr ⟨hb, hw₀.denotes_iff.mp hloc, hne⟩
  · obtain ⟨bak, hbak, hnode⟩ := hsaved hb
    have hdenotes := hw₀.denotes_iff.mp hbak
    exact ⟨bak, hdenotes, by rw [hnode, hw₀.modeAt_eq (hapart.backup hdenotes)]⟩

/-- A run that can be done is done. -/
theorem exists_ends_done (hbackup : o.backup = true → o.destination = o.source)
    (hapart : Apart o log w) (h : Feasible o w) :
    ∃ n w', (process o log).Ends w (.ok n) w' ∧
      (∀ path loc, w'.Denotes path loc ↔ w.Denotes path loc) ∧
      ∃ src dst data s mode, Done o (w.Logged log) w w' n src dst data s mode := by
  obtain ⟨⟨data, s, hload, hdecode⟩, hbak, dst, hdst⟩ := h
  obtain ⟨src, mode, hsrc, hfile, _⟩ := Linked.load_eq_ok_iff.mp hload
  obtain ⟨w₁, hprocess, hw₁, hsaved⟩ :=
    exists_ends_before_finish hapart hsrc hfile hload hdecode hbak
  have hdstSaves := not_saves_destination hbackup hsrc hdst.denotes
  have hdstOff := off_destination hbackup hapart hsrc
  obtain ⟨w', hfinish, hw', hwritten⟩ :=
    exists_ends_finish ((hw₁.writable_iff hdstOff).mpr hdst) log (Sheet.scan s)
  -- the destination is written last, when the backup is there already
  have hlast : ∀ loc, loc ≠ dst → ¬ w.Logged log loc → w'.disk.node? loc = w₁.disk.node? loc := by
    intro loc hne hloc
    exact hw'.off (not_or.mpr ⟨hne, fun hlog => hloc (hw₁.logged_iff.mp hlog)⟩)
  have hothers : ∀ loc, loc ≠ dst → ¬ Saves o w src loc → ¬ w.Logged log loc →
      w'.disk.node? loc = w.disk.node? loc := by
    intro loc hne hsaves hloc
    rw [hlast loc hne hloc]
    exact hw₁.off (not_or.mpr ⟨hloc, hsaves⟩)
  refine ⟨_, w', hprocess _ _ hfinish, fun path loc => hw'.denotes_iff.trans hw₁.denotes_iff,
    src, dst, data, s, mode, ?_⟩
  exact {
    source := hsrc
    held := hfile
    decoded := hdecode
    destination := hdst.denotes
    written := by
      rw [hwritten fun hlog => hapart.destination hdst.denotes (hw₁.logged_iff.mp hlog),
        hw₁.modeAt_eq (hdstOff dst hdst.denotes)]
    count := rfl
    saved := fun hb => by
      obtain ⟨bak, hbak, hnode⟩ := hsaved hb
      refine ⟨bak, hbak, fun hne => ?_⟩
      have hdst : bak ≠ dst := fun heq => hdstSaves ⟨hb, heq ▸ hbak, heq ▸ hne⟩
      exact (hlast bak hdst (hapart.backup hbak)).trans hnode
    untouched := fun hne => by
      rw [hothers src hne (fun hsaves => hsaves.2.2 rfl) (hapart.source hsrc), hfile]
    others := fun loc hne hbak => hothers loc hne fun hsaves => hbak hsaves.1 hsaves.2.1 }

theorem exists_ends_unsaved (hapart : Apart o log w) (hload : w.load o.source = .ok data)
    (hdecode : o.charset.decode? data = some s) (hb : o.backup = true)
    (hbak : ∀ bak, ¬ w.Writable (backupPath o.source) bak) :
    ∃ f w', (process o log).Ends w (.error f) w' ∧ w.Kept (w.Logged log) w' := by
  obtain ⟨w₀, hscan, hw₀⟩ :=
    exists_ends_scan (Linked.kept_emit log w) o.source s (.refl _ w)
  have hload₀ := hw₀.load_eq_ok (fun _ => hapart.source) hload
  have hbak₀ : ∀ bak, ¬ w₀.Writable (backupPath o.source) bak := by
    intro bak hbak'
    exact hbak bak ((hw₀.writable_iff fun _ => hapart.backup).mp hbak')
  obtain ⟨f, hbackUp⟩ := ends_backUp_error hload₀ hbak₀
  have hkeep : (keep o).Ends w₀ (.error f) w₀ := by
    unfold keep
    rw [if_pos hb]
    exact hbackUp
  exact ⟨f, w₀, process_of_read hload hdecode hscan hkeep.bind_error, hw₀⟩

/-- Once the backup is made, the file that is left to write is known to be there. So
nothing but a missing right can come between the two. -/
theorem exists_ends_unwritten (hbackup : o.backup = true → o.destination = o.source)
    (hapart : Apart o log w) (hload : w.load o.source = .ok data)
    (hdecode : o.charset.decode? data = some s)
    (hbak : o.backup = true → ∃ bak, w.Writable (backupPath o.source) bak)
    (hdst : ∀ dst, ¬ w.Writable o.destination dst) :
    ∃ f w', (process o log).Ends w (.error f) w' ∧
      (∀ path loc, w'.Denotes path loc ↔ w.Denotes path loc) ∧
      ((∃ e, f.osError? = some e ∧ e.cause = .denied) ∨ w.Kept (w.Logged log) w') := by
  obtain ⟨src, mode, hsrc, hfile, _⟩ := Linked.load_eq_ok_iff.mp hload
  obtain ⟨w₁, hprocess, hw₁, _⟩ :=
    exists_ends_before_finish hapart hsrc hfile hload hdecode hbak
  have hdst₁ : ∀ dst, ¬ w₁.Writable o.destination dst := by
    intro dst hdst'
    exact hdst dst ((hw₁.writable_iff (off_destination hbackup hapart hsrc)).mp hdst')
  obtain ⟨e, hfinish, hdenied⟩ := ends_finish_error hdst₁ log (Sheet.scan s)
  refine ⟨_, w₁, hprocess _ _ hfinish, fun path loc => hw₁.denotes_iff, ?_⟩
  by_cases hb : o.backup = true
  · have hsrcOff : ¬ (w.Logged log src ∨ Saves o w src src) :=
      not_or.mpr ⟨hapart.source hsrc, fun hsaves => hsaves.2.2 rfl⟩
    refine Or.inl ⟨e, rfl, hdenied src data mode ?_ ((hw₁.off hsrcOff).trans hfile)⟩
    rw [hbackup hb]
    exact hw₁.denotes_iff.mpr hsrc
  · refine Or.inr (hw₁.mono ?_)
    rintro loc (hlog | hsaves)
    · exact hlog
    · exact absurd hsaves.1 hb

/-- A run that cannot be done leaves everything as it was, unless the right to write is
missing. -/
theorem exists_ends_error (hbackup : o.backup = true → o.destination = o.source)
    (hapart : Apart o log w) (h : ¬ Feasible o w) :
    ∃ f w', (process o log).Ends w (.error f) w' ∧
      (∀ path loc, w'.Denotes path loc ↔ w.Denotes path loc) ∧
      ((∃ e, f.osError? = some e ∧ e.cause = .denied) ∨ w.Kept (w.Logged log) w') := by
  by_cases hread : ∃ data s, w.load o.source = .ok data ∧ o.charset.decode? data = some s
  · obtain ⟨data, s, hload, hdecode⟩ := hread
    by_cases hbak : o.backup = true → ∃ bak, w.Writable (backupPath o.source) bak
    · refine exists_ends_unwritten hbackup hapart hload hdecode hbak fun dst hdst => ?_
      exact h ⟨⟨data, s, hload, hdecode⟩, hbak, dst, hdst⟩
    · obtain ⟨hb, hnone⟩ := Classical.not_imp.mp hbak
      obtain ⟨f, w', hends, hkept⟩ :=
        exists_ends_unsaved hapart hload hdecode hb (not_exists.mp hnone)
      exact ⟨f, w', hends, fun _ _ => hkept.denotes_iff, Or.inr hkept⟩
  · obtain ⟨e, hread⟩ := exists_read_error hread
    exact ⟨_, w, process_of_read_error hread, fun _ _ => Iff.rfl, Or.inr (.refl _ w)⟩

end Whole

/-- A run is all or nothing, whatever links there are. It ends without an error exactly if the
source can be read and all that is to be written can be written. Then the destination has the
merged text and the mode it had, the backup has what the source held, unless it is the source
under another name, and no other file changes. If it ends with an error, then no file changes,
unless the system has denied a right. No path leads elsewhere than before. The files of the log
are left out of this; they must be other files. -/
theorem process_all_or_nothing [Codecs] (o : Options) (log : Log.Logger) (w : Linked)
    (hbackup : o.backup = true → o.destination = o.source) (hapart : Apart o log w) :
    ∃ r w', (process o log).Ends w r w' ∧
      ((∃ n, r = .ok n) ↔ Feasible o w) ∧
      (∀ path loc, w'.Denotes path loc ↔ w.Denotes path loc) ∧
      (∀ n, r = .ok n →
        ∃ src dst data s mode, Done o (w.Logged log) w w' n src dst data s mode) ∧
      ∀ f, r = .error f → (∀ e, f.osError? = some e → e.cause ≠ .denied) →
        ∀ loc, ¬ w.Logged log loc → w'.disk.node? loc = w.disk.node? loc := by
  by_cases h : Feasible o w
  · obtain ⟨n, w', hends, hnames, hdone⟩ := exists_ends_done hbackup hapart h
    refine ⟨.ok n, w', hends, iff_of_true ⟨n, rfl⟩ h, hnames, ?_, ?_⟩
    · rintro _ ⟨⟩
      exact hdone
    · rintro f ⟨⟩
  · obtain ⟨f, w', hends, hnames, houtcome⟩ := exists_ends_error hbackup hapart h
    refine ⟨.error f, w', hends, iff_of_false ?_ h, hnames, ?_, ?_⟩
    · rintro ⟨n, ⟨⟩⟩
    · rintro n ⟨⟩
    · rintro _ ⟨⟩ hgranted loc hloc
      rcases houtcome with ⟨e, hos, hdenied⟩ | hkept
      · exact absurd hdenied (hgranted e hos)
      · exact hkept.off hloc

section Samples

open scoped Codecs

def sampleMachine (nodes : List (Location × FileNode)) : Machine :=
  ⟨⟨⟨([text "s"], .dir Disk.dirMode) :: nodes⟩⟩, text "/s", text "/tmp", ⟨[], none⟩, [], [], 0,
    [], [], [], []⟩

/-- A run in place with a backup, logged to a file in the same directory. The source is a link
to a file that has a mode of its own. -/
theorem process_all_or_nothing_in_place :
    let css := text "a\x7bx:1\x7da\x7bx:2\x7d"
    let w : Linked := ⟨sampleMachine [([text "s", text "b.css"], .file css 0o600)],
      ⟨[([text "s", text "a.css"], .soft (text "./b.css"))]⟩⟩
    let o : Options := ⟨text "a.css", text "a.css", Charset.utf8, true⟩
    let log : Log.Logger := ⟨text "dedupe", [.memory, .file (text "log") .debug]⟩
    Apart o log w ∧ Feasible o w ∧
      ∃ w', (process o log).Ends w (.ok 12) w' ∧
        w'.disk.node? [text "s", text "b.css"] = some (.file (text "a\x7b\n  x: 2;\n\x7d") 0o600) ∧
        w'.disk.node? [text "s", text "a.css.bak"] = some (.file css 0o644) := by
  intro css w o log
  have hapart : Apart o log w := by
    have hother : ∀ path ∈ [o.source, o.destination, backupPath o.source],
        w.locate path ≠ w.locate (text "log") := by decide +kernel
    rintro path hpath loc hloc ⟨file, hfile, hlog⟩
    obtain rfl : file = text "log" := List.mem_singleton.mp hfile
    exact hother path hpath (hloc.trans hlog.symm)
  have hsrc : w.Denotes o.source [text "s", text "b.css"] := by decide +kernel
  have hbak : w.Denotes (backupPath o.source) [text "s", text "a.css.bak"] := by decide +kernel
  have hfeasible : Feasible o w := by
    refine ⟨⟨css, css, by decide +kernel, by decide +kernel⟩,
      fun _ => ⟨[text "s", text "a.css.bak"], by decide +kernel, ?_⟩,
      [text "s", text "b.css"], by decide +kernel, ?_⟩
    · exact Disk.mayChangeAround_iff.mpr ⟨Disk.dirMode, rfl, rfl⟩
    · exact (rfl : Disk.mayWrite 0o600 = true)
  obtain ⟨r, w', hends, hok, _, hdone, _⟩ := process_all_or_nothing o log w (fun _ => rfl) hapart
  obtain ⟨n, rfl⟩ := hok.mpr hfeasible
  obtain ⟨src, dst, data, s, mode, h⟩ := hdone n rfl
  obtain ⟨bak, hbak', hsaved⟩ := h.saved rfl
  obtain rfl := Except.ok.inj (hsrc.symm.trans h.source)
  obtain rfl := Except.ok.inj (hsrc.symm.trans h.destination)
  obtain rfl := Except.ok.inj (hbak.symm.trans hbak')
  obtain ⟨rfl, _⟩ := FileNode.file.inj (Option.some.inj (h.held.symm.trans (by decide +kernel :
    w.disk.node? [text "s", text "b.css"] = some (.file css 0o600))))
  obtain rfl := Option.some.inj (h.decoded.symm.trans (by decide +kernel :
    Charset.utf8.decode? css = some css))
  have hcount : n = 12 := h.count.trans (by decide +kernel)
  subst hcount
  exact ⟨hapart, hfeasible, w', hends, h.written.trans (by decide +kernel),
    (hsaved (by decide)).trans (by decide +kernel)⟩

/-- Where the backup is the source under another name, the original is lost. Where the log goes
to the destination, that does not have the merged text only. -/
theorem process_not_exact :
    let css := text "a\x7bx:1\x7da\x7bx:2\x7d"
    let merged := text "a\x7b\n  x: 2;\n\x7d"
    let file : Location := [[], text "1"]
    let twice : Linked := ⟨sampleMachine [(file, .file css 0o644)],
      ⟨[([text "s", text "a.css"], .hard file), ([text "s", text "a.css.bak"], .hard file)]⟩⟩
    let inPlace : Options := ⟨text "a.css", text "a.css", Charset.utf8, true⟩
    let once : Linked := ⟨sampleMachine [([text "s", text "a.css"], .file css 0o644)], ∅⟩
    let beside : Options := ⟨text "a.css", text "b.css", Charset.utf8, false⟩
    let log : Log.Logger := ⟨text "dedupe", [.file (text "b.css") .debug]⟩
    (∃ w', (process inPlace .silent).Ends twice (.ok 12) w' ∧
      twice.load (text "a.css") = .ok css ∧ w'.load (text "a.css.bak") = .ok merged) ∧
    ∃ w', (process beside log).Ends once (.ok 12) w' ∧
      w'.load (text "b.css") = .ok (merged ++ text "\tDEBUG\tdedupe\tStylesheet deduplicated\t" ++
        text "\x7b\"tokens\": 2, \"selectors\": 1, \"merged\": 1, \"bytes\": 12\x7d\n") := by
  intro css merged file twice inPlace once beside log
  exact ⟨⟨_, .of_result (by decide +kernel), by decide +kernel, by decide +kernel⟩,
    _, .of_result (by decide +kernel), by decide +kernel⟩

end Samples

end Cascade.Dedupe
