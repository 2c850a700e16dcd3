import Cascade.Proofs.Host.Clean
import Cascade.Proofs.Host.Growth
import Cascade.Proofs.Host.Machine

/-!
# Directories that are there

A directory that was made can be found, and stays as long as nothing is removed. So making it
again changes nothing.
-/

namespace Cascade

namespace Path

theorem components_append_replicate (path : Bytes) (n : Nat) :
    components (path ++ List.replicate n slash) = components path ++ List.replicate n [] := by
  induction n generalizing path with
  | zero => simp
  | succ n ih =>
      have hslashes := ih []
      rw [List.nil_append] at hslashes
      rw [List.replicate_succ, components_append_slash, hslashes]
      simp [components, List.replicate_succ]

/-- Slashes at the end of a path make empty components. -/
theorem components_stem (path : Bytes) :
    ∃ n, components path = components (stem path) ++ List.replicate n [] := by
  unfold stem
  by_cases hempty : (trimSlashes path).isEmpty = true
  · exact ⟨0, by simp [hempty]⟩
  · have hslashes : path.reverse.takeWhile (· == slash) =
        List.replicate (path.reverse.takeWhile (· == slash)).length slash :=
      List.eq_replicate_iff.mpr
        ⟨rfl, fun b hb => beq_iff_eq.mp (List.all_eq_true.mp List.all_takeWhile b hb)⟩
    have hpath : path = trimSlashes path ++
        List.replicate (path.reverse.takeWhile (· == slash)).length slash := by
      rw [trimSlashes, ← List.reverse_inj, List.reverse_append, List.reverse_reverse,
        List.reverse_replicate, ← hslashes, List.takeWhile_append_dropWhile]
    refine ⟨(path.reverse.takeWhile (· == slash)).length, ?_⟩
    rw [if_neg hempty, ← components_append_replicate, ← hpath]

end Path

theorem Disk.walk_replicate_nil {d : Disk} {loc : Location} {mode : Nat}
    (hdir : d.node? loc = some (.dir mode)) (n : Nat) :
    d.walk loc (List.replicate n []) = .ok loc := by
  induction n with
  | zero => rfl
  | succ n ih => exact walk_cons_eq_ok_iff.mpr ⟨mode, loc, hdir, rfl, ih⟩

theorem Disk.walk_ne_invalid {d : Disk} {loc : Location} {cs : List Bytes} :
    d.walk loc cs ≠ .error .invalid := by
  induction cs generalizing loc with
  | nil => exact nofun
  | cons c cs ih =>
      unfold walk
      split
      · nofun
      · nofun
      · split_ifs
        · exact ih
        · nofun
        · exact ih
        · exact ih
        · nofun
        · exact ih

/-- A path is invalid as a text, whatever the disk. -/
theorem Disk.find_eq_invalid_iff {d : Disk} {cwd : Location} {path : Bytes} :
    d.find cwd path = .error .invalid ↔ origin cwd path = .error .invalid := by
  unfold find locate
  cases horigin : origin cwd path with
  | error c => simp [bind, Except.bind]
  | ok start =>
      refine iff_of_false (fun h => ?_) nofun
      cases hwalk : d.walk start (Path.components path) with
      | error c =>
          simp only [bind, Except.bind, hwalk, Except.error.injEq] at h
          exact walk_ne_invalid (h ▸ hwalk)
      | ok loc =>
          simp only [bind, Except.bind, hwalk] at h
          split at h <;> cases h

namespace Machine

variable {w w' w'' : Machine} {path : Bytes}

theorem stat_eq_dir_iff : w.stat path = .ok .dir ↔
    ∃ loc mode, w.Denotes path loc ∧ w.disk.node? loc = some (.dir mode) := by
  have hfind : w.stat path = .ok .dir ↔ ∃ mode, w.disk.find w.place path = .ok (.dir mode) := by
    unfold stat status
    split
    · next hfile => simp [hfile]
    · next hdir => simp [hdir]
    · next herror => simp [herror]
  rw [hfind]
  simp only [Disk.find_eq_ok_iff, Denotes]
  exact exists_comm

theorem exists_stat_eq_file_iff : (∃ size, w.stat path = .ok (.file size)) ↔
    ∃ loc data mode, w.Denotes path loc ∧ w.disk.node? loc = some (.file data mode) := by
  have hfind : (∃ size, w.stat path = .ok (.file size)) ↔
      ∃ data mode, w.disk.find w.place path = .ok (.file data mode) := by
    unfold stat status
    split
    · next hfile => simp [hfile]
    · next hdir => simp [hdir]
    · next herror => simp [herror]
  rw [hfind]
  simp only [Disk.find_eq_ok_iff, Denotes]
  constructor
  · rintro ⟨data, mode, loc, h⟩
    exact ⟨loc, data, mode, h⟩
  · rintro ⟨loc, data, mode, h⟩
    exact ⟨data, mode, loc, h⟩

theorem stat_invalid_iff :
    (∃ e, w.stat path = .error e ∧ e.cause = .invalid) ↔
      Disk.origin w.place path = .error .invalid := by
  rw [← Disk.find_eq_invalid_iff (d := w.disk)]
  unfold stat status
  split
  · next hfile => simp [hfile]
  · next hdir => simp [hdir]
  · next herror => simp [herror]

/-- The current directory stays, and so do all directories. There may be new ones. -/
structure Widened (w w' : Machine) : Prop where
  dir : w'.dir = w.dir
  dirs : ∀ loc mode, w.disk.node? loc = some (.dir mode) → w'.disk.node? loc = some (.dir mode)

namespace Widened

theorem refl (w : Machine) : Widened w w := ⟨rfl, fun _ _ hdir => hdir⟩

theorem trans (h : Widened w w') (h' : Widened w' w'') : Widened w w'' :=
  ⟨h'.dir.trans h.dir, fun loc mode hdir => h'.dirs loc mode (h.dirs loc mode hdir)⟩

theorem of_kept {S : Location → Prop} (h : Kept S w w') : Widened w w' :=
  ⟨h.dir, fun loc mode => (h.disk.dirs loc mode).mpr⟩

theorem denotes (h : Widened w w') {loc : Location} (hloc : w.Denotes path loc) :
    w'.Denotes path loc := by
  obtain ⟨start, horigin, hwalk⟩ := Disk.locate_eq_ok_iff.mp hloc
  rw [← place_congr h.dir] at horigin
  exact Disk.locate_eq_ok_iff.mpr
    ⟨start, horigin, Disk.walk_congr hwalk fun _ _ _ mode => h.dirs _ mode⟩

theorem stat_dir (h : Widened w w') (hdir : w.stat path = .ok .dir) : w'.stat path = .ok .dir := by
  obtain ⟨loc, mode, hloc, hnode⟩ := stat_eq_dir_iff.mp hdir
  exact stat_eq_dir_iff.mpr ⟨loc, mode, h.denotes hloc, h.dirs loc mode hnode⟩

end Widened

/-! ## Writing files -/

/-- Where a file can be written it was written, and nothing else has changed. -/
theorem save_eq_ok {q data : Bytes} (h : w.save q data = (.ok (), w')) :
    ∃ loc mode, w.disk.Writable w.place q loc ∧
      w' = { w with disk := w.disk.set loc (.file data mode) } := by
  by_cases hmay : ∃ loc, w.disk.Writable w.place q loc
  · obtain ⟨loc, hloc⟩ := hmay
    have hwrite := (write_of_writable hloc Disk.fileMode fun _ => data).symm.trans h
    exact ⟨loc, _, hloc, (Prod.mk.inj hwrite).2.symm⟩
  · obtain ⟨c, _, hwrite⟩ := write_of_not_writable (not_exists.mp hmay) Disk.fileMode fun _ => data
    cases hwrite.symm.trans h

theorem widened_save {q data : Bytes} (h : w.save q data = (.ok (), w')) : Widened w w' := by
  obtain ⟨loc, mode, hmay, rfl⟩ := save_eq_ok h
  exact .of_kept (kept_set hmay data mode)

theorem stat_dir_of_save {q data : Bytes} (h : w.save q data = (.ok (), w'))
    (hdir : w'.stat path = .ok .dir) : w.stat path = .ok .dir := by
  obtain ⟨loc, mode, hmay, rfl⟩ := save_eq_ok h
  have hkept := kept_set hmay data mode
  obtain ⟨loc', mode', hloc', hnode⟩ := stat_eq_dir_iff.mp hdir
  exact stat_eq_dir_iff.mpr
    ⟨loc', mode', hkept.denotes_iff.mp hloc', (hkept.disk.dirs loc' mode').mp hnode⟩

/-- Files may change, but stay files. -/
theorem exists_stat_file_of_save {q data : Bytes} (h : w.save q data = (.ok (), w'))
    (hfile : ∃ size, w.stat path = .ok (.file size)) : ∃ size, w'.stat path = .ok (.file size) := by
  obtain ⟨loc, mode, hmay, rfl⟩ := save_eq_ok h
  obtain ⟨loc', old, mode', hloc', hnode⟩ := exists_stat_eq_file_iff.mp hfile
  have hset := Disk.node?_set w.disk hmay.2.ne_nil (.file data mode) loc'
  have hdenotes := (kept_set hmay data mode).denotes_iff.mpr hloc'
  split at hset
  · exact exists_stat_eq_file_iff.mpr ⟨loc', data, mode, hdenotes, hset⟩
  · exact exists_stat_eq_file_iff.mpr ⟨loc', old, mode', hdenotes, hset.trans hnode⟩

/-! ## Making directories -/

theorem widened_set_dir {loc : Location} (hloc : w.disk.node? loc = none) (mode : Nat) :
    Widened w { w with disk := w.disk.set loc (.dir mode) } := by
  have hne := Disk.ne_nil_of_vacant hloc
  refine ⟨rfl, fun loc' mode' hdir => ?_⟩
  show (w.disk.set loc (.dir mode)).node? loc' = _
  rw [Disk.node?_set _ hne, if_neg]
  · exact hdir
  · rintro rfl
    rw [hloc] at hdir
    cases hdir

/-- A directory is made where none was, and can then be found, or nothing changes. -/
theorem mkdir_cases (w : Machine) (path : Bytes) (mode : Nat) :
    (∃ e, w.mkdir path mode = (.error e, w)) ∨
      ∃ w', w.mkdir path mode = (.ok (), w') ∧ Widened w w' ∧ w'.stat path = .ok .dir := by
  unfold mkdir
  cases hmkdir : w.disk.mkdir w.place path mode with
  | error c => exact Or.inl ⟨_, rfl⟩
  | ok d =>
      refine Or.inr ⟨_, rfl, ?_⟩
      obtain ⟨loc, hentry, hnone, -, rfl⟩ := Disk.mkdir_eq_ok_iff.mp hmkdir
      obtain ⟨start, horigin, hwalk⟩ := Disk.entry_eq_ok_iff.mp hentry
      have hwide := widened_set_dir hnone mode
      have hnode : (w.disk.set loc (.dir mode)).node? loc = some (.dir mode) := by
        rw [Disk.node?_set _ (Disk.ne_nil_of_vacant hnone), if_pos rfl]
      -- It was made without the slashes at the end of the path, and is found with them too.
      obtain ⟨n, hcomponents⟩ := Path.components_stem path
      refine ⟨hwide, stat_eq_dir_iff.mpr ⟨loc, mode, ?_, hnode⟩⟩
      refine Disk.locate_eq_ok_iff.mpr ⟨start, horigin, ?_⟩
      rw [hcomponents]
      exact Disk.walk_append_eq_ok_iff.mpr
        ⟨loc, Disk.walk_congr hwalk fun _ _ _ mode => hwide.dirs _ mode,
          Disk.walk_replicate_nil hnode n⟩

end Machine

/-- Making directories one inside the other keeps what making one keeps. -/
theorem preserves_mkdirs {I : Machine → Prop}
    (hI : ∀ path, Preserves I (Host.mkdir path : StateM Machine _)) (paths : List Bytes) :
    Preserves I (Host.mkdirs paths : StateM Machine _) := by
  have hstat : ∀ path, Preserves I (Host.stat path : StateM Machine _) := fun _ _ hw => hw
  induction paths with
  | nil => exact .pure _
  | cons path outer ih =>
      refine .bind (hstat path) fun found => ?_
      split
      · exact .pure _
      · exact .pure _
      · refine .bind ih fun above => ?_
        split
        · exact .pure _
        · refine .bind (hI path) fun made => ?_
          split
          · exact .pure _
          · refine .bind (hstat path) fun again => ?_
            split
            · exact .pure _
            · exact .pure _

theorem preserves_widened_mkdir (w : Machine) (path : Bytes) :
    Preserves w.Widened (Host.mkdir path : StateM Machine _) := by
  intro w' hw'
  show w.Widened (w'.mkdir path Disk.dirMode).2
  rcases w'.mkdir_cases path Disk.dirMode with ⟨e, h⟩ | ⟨w'', h, hwide, -⟩
  · rw [h]
    exact hw'
  · rw [h]
    exact hw'.trans hwide

theorem stat_of_mkdirs {path : Bytes} {outer : List Bytes} {w w' : Machine}
    (h : (Host.mkdirs (path :: outer) : StateM Machine _).run w = (.ok (), w')) :
    w'.stat path = .ok .dir := by
  obtain ⟨found, w₁, hfound, h⟩ := run_bind_eq_iff.mp h
  split at h
  · obtain ⟨hdir, rfl⟩ := Prod.mk.inj hfound
    cases h
    exact hdir
  · cases h
  · obtain ⟨above, w₂, -, h⟩ := run_bind_eq_iff.mp h
    split at h
    · cases h
    · obtain ⟨made, w₃, hmade, h⟩ := run_bind_eq_iff.mp h
      split at h
      · cases h
        rcases w₂.mkdir_cases path Disk.dirMode with ⟨e, herror⟩ | ⟨w₄, hok, -, hdir⟩
        · cases herror.symm.trans hmade
        · cases hok.symm.trans hmade
          exact hdir
      · obtain ⟨again, w₄, hagain, h⟩ := run_bind_eq_iff.mp h
        split at h
        · obtain ⟨hdir, rfl⟩ := Prod.mk.inj hagain
          cases h
          exact hdir
        · cases h

/-- A directory that is there is not made again. -/
theorem run_mkdirAll_of_dir {path : Bytes} {w : Machine} (h : w.stat path = .ok .dir) :
    (Host.mkdirAll path : StateM Machine _).run w = (.ok (), w) := by
  refine run_bind_eq_iff.mpr ⟨.ok .dir, w, ?_, rfl⟩
  show (w.stat path, w) = _
  rw [h]

end Cascade
