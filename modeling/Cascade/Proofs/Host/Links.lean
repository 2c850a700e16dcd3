import Cascade.Host.Links
import Cascade.Proofs.Host.Machine

/-!
# Runs on a machine with links

Writing a file changes no directory and no link. So every path goes on leading where it led,
and what stands elsewhere stays, under all its names.
-/

namespace Cascade

namespace Linked

/-- The path leads to the location. -/
def Denotes (w : Linked) (path : Bytes) (loc : Location) : Prop := w.locate path = .ok loc

instance (w : Linked) (path : Bytes) (loc : Location) : Decidable (w.Denotes path loc) :=
  inferInstanceAs (Decidable (_ = _))

/-! ## Following a path -/

section Paths

variable {w w' : Linked} {loc place : Location} {path : Bytes} {cs : List Bytes} {n : Nat}
  {jump jump' : Location → Bytes → List Bytes → Except Cause Location}

theorem follow_of_dirs (hlinks : w'.links = w.links)
    (hdirs : ∀ loc mode, w.disk.node? loc = some (.dir mode) → w'.disk.node? loc = some (.dir mode))
    (hjump : ∀ loc path cs place, jump loc path cs = .ok place → jump' loc path cs = .ok place)
    (h : w.follow jump loc cs = .ok place) : w'.follow jump' loc cs = .ok place := by
  induction cs generalizing loc with
  | nil => exact h
  | cons c cs ih =>
      unfold follow at h ⊢
      split at h
      · cases h
      · cases h
      · next mode hnode =>
          rw [hdirs loc mode hnode, hlinks]
          dsimp only
          split_ifs at h ⊢
          · exact ih h
          · exact ih h
          · exact ih h
          · split at h
            · exact ih h
            · exact ih h
            · exact hjump _ _ _ _ h

theorem walk_of_dirs (hlinks : w'.links = w.links)
    (hdirs : ∀ loc mode, w.disk.node? loc = some (.dir mode) → w'.disk.node? loc = some (.dir mode))
    (h : w.walk n loc cs = .ok place) : w'.walk n loc cs = .ok place := by
  induction n generalizing loc cs place with
  | zero =>
      refine follow_of_dirs hlinks hdirs (fun _ _ _ _ hloop => ?_) h
      cases hloop
  | succ n ih => exact follow_of_dirs hlinks hdirs (fun _ _ _ _ => ih) h

/-- With an empty component at the end, only a directory is reached. -/
theorem exists_dir_of_follow
    (hjump : ∀ loc path cs place, jump loc path (cs ++ [[]]) = .ok place →
      ∃ mode, w.disk.node? place = some (.dir mode))
    (h : w.follow jump loc (cs ++ [[]]) = .ok place) :
    ∃ mode, w.disk.node? place = some (.dir mode) := by
  induction cs generalizing loc with
  | nil =>
      rw [List.nil_append] at h
      unfold follow at h
      split at h
      · cases h
      · cases h
      · next mode hnode =>
          obtain rfl : loc = place := Except.ok.inj h
          exact ⟨mode, hnode⟩
  | cons c cs ih =>
      rw [List.cons_append] at h
      unfold follow at h
      split at h
      · cases h
      · cases h
      · split_ifs at h
        · exact ih h
        · exact ih h
        · exact ih h
        · split at h
          · exact ih h
          · exact ih h
          · exact hjump _ _ _ _ h

theorem exists_dir_of_walk (h : w.walk n loc (cs ++ [[]]) = .ok place) :
    ∃ mode, w.disk.node? place = some (.dir mode) := by
  induction n generalizing loc cs place with
  | zero =>
      refine exists_dir_of_follow (fun _ _ _ _ hloop => ?_) h
      cases hloop
  | succ n ih =>
      refine exists_dir_of_follow (fun loc path cs place hrest => ?_) h
      rw [← List.append_assoc] at hrest
      exact ih hrest

theorem denotes_iff : w.Denotes path loc ↔
    ∃ start, Disk.origin w.machine.place path = .ok start ∧
      w.walk linkLimit start (Path.components path) = .ok loc :=
  Disk.bind_eq_ok_iff

theorem target_eq_ok_iff : w.target path = .ok loc ↔
    Bytes.ends [Path.slash] path = false ∧ w.Denotes path loc := by
  unfold target Denotes
  split
  · next hslash => simp [hslash, Disk.bind_eq_ok_iff]
  · next hslash => simp [hslash]

/-- A path that leads to a file has no slash at its end. -/
theorem target_of_file {data : Bytes} {mode : Nat} (hloc : w.Denotes path loc)
    (hfile : w.disk.node? loc = some (.file data mode)) : w.target path = .ok loc := by
  refine target_eq_ok_iff.mpr ⟨?_, hloc⟩
  by_contra hslash
  obtain ⟨init, hinit⟩ := Path.components_slash (Bool.of_not_eq_false hslash)
  obtain ⟨start, _, hwalk⟩ := denotes_iff.mp hloc
  rw [hinit] at hwalk
  obtain ⟨m, hdir⟩ := exists_dir_of_walk hwalk
  cases hdir.symm.trans hfile

end Paths

/-! ## A machine without links -/

theorem follow_empty (w : Machine) (jump : Location → Bytes → List Bytes → Except Cause Location)
    (loc : Location) (cs : List Bytes) :
    (⟨w, ∅⟩ : Linked).follow jump loc cs = w.disk.walk loc cs := by
  induction cs generalizing loc with
  | nil => rfl
  | cons c cs ih =>
      have hnone : (∅ : Dict Location Link).get? (loc ++ [c]) = none := rfl
      unfold follow Disk.walk
      simp only [hnone, ih]
      rfl

theorem walk_empty (w : Machine) (n : Nat) (loc : Location) (cs : List Bytes) :
    (⟨w, ∅⟩ : Linked).walk n loc cs = w.disk.walk loc cs := by
  cases n with
  | zero => exact follow_empty w _ loc cs
  | succ n => exact follow_empty w _ loc cs

/-- Without links, files are read and written as they are on the machine alone. -/
theorem requests_empty (w : Machine) (path : Bytes) :
    (⟨w, ∅⟩ : Linked).load path = w.load path ∧ (⟨w, ∅⟩ : Linked).stat path = w.stat path ∧
      ∀ mode content, (⟨w, ∅⟩ : Linked).write path mode content =
        ((w.write path mode content).1, ⟨(w.write path mode content).2, ∅⟩) := by
  have hlocate : (⟨w, ∅⟩ : Linked).locate path = w.disk.locate w.place path := by
    simp only [locate, walk_empty, Disk.locate]
  have hfind : (⟨w, ∅⟩ : Linked).find path = w.disk.find w.place path := by
    simp only [find, hlocate, Disk.find]
    rfl
  have htarget : (⟨w, ∅⟩ : Linked).target path = w.disk.target w.place path := by
    simp only [target, walk_empty, hlocate, Disk.target]
  refine ⟨congrArg _ hfind, congrArg _ hfind, fun mode content => ?_⟩
  simp only [write, htarget, Machine.write, Disk.write]
  rfl

/-! ## Changing files only -/

/-- The links and the current directory stay, and so do all directories and all that stands
outside `S`. -/
structure Kept (S : Location → Prop) (w w' : Linked) : Prop where
  machine : w.machine.Kept S w'.machine
  links : w'.links = w.links

namespace Kept

variable {S T : Location → Prop} {w w' w'' : Linked} {path data : Bytes} {loc : Location}

theorem refl (S : Location → Prop) (w : Linked) : Kept S w w := ⟨.refl S w.machine, rfl⟩

theorem trans (h : Kept S w w') (h' : Kept S w' w'') : Kept S w w'' :=
  ⟨h.machine.trans h'.machine, h'.links.trans h.links⟩

theorem mono (h : Kept S w w') (hST : ∀ loc, S loc → T loc) : Kept T w w' :=
  ⟨h.machine.mono hST, h.links⟩

theorem off (h : Kept S w w') (hloc : ¬ S loc) : w'.disk.node? loc = w.disk.node? loc :=
  h.machine.disk.off loc hloc

theorem modeAt_eq (h : Kept S w w') (hloc : ¬ S loc) (fresh : Nat) :
    w'.disk.modeAt loc fresh = w.disk.modeAt loc fresh :=
  h.machine.disk.modeAt_eq hloc fresh

theorem denotes_iff (h : Kept S w w') : w'.Denotes path loc ↔ w.Denotes path loc := by
  rw [Linked.denotes_iff, Linked.denotes_iff, h.machine.place_eq]
  refine exists_congr fun start => and_congr_right fun _ => ?_
  exact ⟨walk_of_dirs h.links.symm fun loc mode => (h.machine.disk.dirs loc mode).mp,
    walk_of_dirs h.links fun loc mode => (h.machine.disk.dirs loc mode).mpr⟩

end Kept

/-! ## Requests -/

def Writable (w : Linked) (path : Bytes) (loc : Location) : Prop :=
  w.target path = .ok loc ∧ w.disk.MayPut loc

variable {S : Location → Prop} {w w' : Linked} {path data : Bytes} {loc : Location}

theorem Writable.denotes (h : w.Writable path loc) : w.Denotes path loc :=
  (target_eq_ok_iff.mp h.1).2

theorem Kept.writable_iff (h : Kept S w w') (hpath : ∀ loc, w.Denotes path loc → ¬ S loc) :
    w'.Writable path loc ↔ w.Writable path loc := by
  unfold Writable
  rw [target_eq_ok_iff, target_eq_ok_iff, h.denotes_iff]
  exact and_congr_right fun hloc => h.machine.disk.mayPut_iff (hpath loc hloc.2)

theorem find_eq_ok_iff {n : FileNode} :
    w.find path = .ok n ↔ ∃ loc, w.Denotes path loc ∧ w.disk.node? loc = some n := by
  unfold find
  rw [Disk.bind_eq_ok_iff]
  refine exists_congr fun loc => and_congr_right fun _ => ?_
  cases w.disk.node? loc <;> simp

theorem load_eq_ok_iff :
    w.load path = .ok data ↔
      ∃ loc mode, w.Denotes path loc ∧ w.disk.node? loc = some (.file data mode) ∧
        Disk.mayRead mode = true := by
  unfold load
  rw [Machine.loaded_eq_ok_iff]
  constructor
  · rintro ⟨mode, hfile, hmay⟩
    obtain ⟨loc, hloc, hnode⟩ := find_eq_ok_iff.mp hfile
    exact ⟨loc, mode, hloc, hnode, hmay⟩
  · rintro ⟨loc, mode, hloc, hnode, hmay⟩
    exact ⟨mode, find_eq_ok_iff.mpr ⟨loc, hloc, hnode⟩, hmay⟩

theorem Kept.load_eq_ok (h : Kept S w w') (hpath : ∀ loc, w.Denotes path loc → ¬ S loc)
    (hload : w.load path = .ok data) : w'.load path = .ok data := by
  obtain ⟨loc, mode, hloc, hnode, hmay⟩ := load_eq_ok_iff.mp hload
  exact load_eq_ok_iff.mpr
    ⟨loc, mode, h.denotes_iff.mpr hloc, (h.off (hpath loc hloc)).trans hnode, hmay⟩

def withFile (w : Linked) (loc : Location) (data : Bytes) (mode : Nat) : Linked :=
  { w with machine := { w.machine with disk := w.disk.set loc (.file data mode) } }

theorem Writable.node?_withFile (h : w.Writable path loc) (data : Bytes) (mode : Nat)
    (loc' : Location) : (w.withFile loc data mode).disk.node? loc' =
      if loc' = loc then some (.file data mode) else w.disk.node? loc' :=
  Disk.node?_set w.disk h.2.ne_nil _ loc'

theorem Writable.kept_withFile (h : w.Writable path loc) (data : Bytes) (mode : Nat) :
    Kept (· = loc) w (w.withFile loc data mode) :=
  ⟨⟨rfl, h.2.kept_set data mode⟩, rfl⟩

theorem write_of_writable (h : w.Writable path loc) (mode : Nat) (content : Bytes → Bytes) :
    w.write path mode content =
      (.ok (), w.withFile loc (content (w.disk.dataAt loc)) (w.disk.modeAt loc mode)) := by
  have hput : (do w.disk.put (← w.target path) mode content) = .ok (w.disk.set loc
      (.file (content (w.disk.dataAt loc)) (w.disk.modeAt loc mode))) :=
    Disk.bind_eq_ok_iff.mpr ⟨loc, h.1, Disk.put_eq_ok_iff.mpr ⟨h.2, rfl⟩⟩
  unfold write alone
  rw [hput]
  rfl

/-- Where no file can be written, nothing changes. -/
theorem write_of_not_writable (h : ∀ loc, ¬ w.Writable path loc) (mode : Nat)
    (content : Bytes → Bytes) :
    ∃ c, (do w.disk.put (← w.target path) mode content) = .error c ∧
      w.write path mode content = (.error ⟨text "open", path, c⟩, w) := by
  unfold write alone
  cases hput : (do w.disk.put (← w.target path) mode content : Except Cause Disk) with
  | ok d =>
      obtain ⟨loc, htarget, hput⟩ := Disk.bind_eq_ok_iff.mp hput
      exact absurd ⟨htarget, (Disk.put_eq_ok_iff.mp hput).1⟩ (h loc)
  | error c => exact ⟨c, rfl, rfl⟩

theorem kept_write (hpath : ∀ loc, w.Denotes path loc → S loc) (mode : Nat)
    (content : Bytes → Bytes) : Kept S w (w.write path mode content).2 := by
  by_cases hmay : ∃ loc, w.Writable path loc
  · obtain ⟨loc, hloc⟩ := hmay
    rw [write_of_writable hloc]
    refine (hloc.kept_withFile _ _).mono ?_
    rintro _ rfl
    exact hpath _ hloc.denotes
  · obtain ⟨c, _, hwrite⟩ := write_of_not_writable (not_exists.mp hmay) mode content
    rw [hwrite]
    exact .refl S w

/-! ## Logging -/

/-- Entries of the logger go to the file at the location. -/
def Logged (w : Linked) (l : Log.Logger) (loc : Location) : Prop :=
  ∃ file ∈ l.files, w.Denotes file loc

theorem Kept.logged_iff (h : Kept S w w') {l : Log.Logger} : w'.Logged l loc ↔ w.Logged l loc :=
  exists_congr fun _ => and_congr_right fun _ => h.denotes_iff

theorem kept_emit (l : Log.Logger) (start : Linked) :
    l.Preserves (start.Kept (start.Logged l)) := by
  have hstays : ∀ {w w' : Linked}, w'.machine.dir = w.machine.dir → w'.disk = w.disk →
      w'.links = w.links → start.Kept (start.Logged l) w → start.Kept (start.Logged l) w' := by
    intro w w' hdir hdisk hlinks hw
    refine hw.trans ⟨⟨hdir, ?_⟩, hlinks⟩
    rw [show w'.machine.disk = w.machine.disk from hdisk]
    exact .refl _ _
  have hI : OnFiles (start.Kept (start.Logged l)) := ⟨fun _ => hstays rfl rfl rfl,
    fun _ _ => hstays rfl rfl rfl, fun _ _ => hstays rfl rfl rfl, fun _ _ => hstays rfl rfl rfl⟩
  refine Log.Logger.preserves hI fun path hpath data w hw => ?_
  refine hw.trans (kept_write (fun loc hloc => ?_) _ _)
  exact ⟨path, hpath, hw.denotes_iff.mp hloc⟩

end Linked

end Cascade
