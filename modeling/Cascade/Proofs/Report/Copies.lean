import Cascade.Proofs.Host.Growth
import Cascade.Proofs.Host.Machine
import Cascade.Proofs.Text.Integer

/-!
# Copies for the report

A copy goes into a new directory of its own, under the last name of the path. So it
stands where nothing stood, and all that was there before stays.
-/

namespace Cascade

/-! ## New names -/

namespace Path

theorem slash_notMem_ofNat (n : Nat) : slash ∉ Bytes.ofNat n := by
  intro hmem
  exact absurd (Bytes.isDigit_of_mem_ofNat hmem).1 (by decide)

theorem isName_of_long {c : Bytes} (hlong : 2 < c.length) : IsName c := by
  refine ⟨?_, ?_, ?_⟩ <;>
  · rintro rfl
    exact absurd hlong (by decide)

/-- A path with a name at its end has no slash to be cut off. -/
theorem stem_append_name (dir : Bytes) {name : Bytes} (hempty : name ≠ []) (hslash : slash ∉ name) :
    stem (dir ++ slash :: name) = dir ++ slash :: name := by
  have htrim : trimSlashes (dir ++ slash :: name) = dir ++ slash :: name := by
    unfold trimSlashes
    obtain ⟨b, rest, hname⟩ :=
      List.exists_cons_of_ne_nil (fun h => hempty (List.reverse_eq_nil_iff.mp h))
    have hb : b ≠ slash := by
      rintro rfl
      exact hslash (List.mem_reverse.mp (hname ▸ List.mem_cons_self))
    have hreverse : (dir ++ slash :: name).reverse = b :: (rest ++ slash :: dir.reverse) := by
      simp [hname]
    rw [hreverse, List.dropWhile_cons_of_neg (by simpa using hb), ← hreverse, List.reverse_reverse]
  unfold stem
  rw [htrim]
  simp

theorem base_cases (path : Bytes) : base path = [slash] ∨ slash ∉ base path := by
  unfold base
  split
  · exact Or.inr (by decide)
  · dsimp only
    split
    · exact Or.inl rfl
    · right
      cases hlast : (components (trimSlashes path)).getLast? with
      | none => exact List.not_mem_nil
      | some c => exact slash_notMem_of_mem_components (List.mem_of_getLast? hlast)

end Path

namespace Machine

def copyDirHead : Bytes := Identity.name ++ text "-r-"

/-- The name of the directory that the `n`-th request for a unique name makes. -/
def copyDirName (n : Nat) : Bytes := copyDirHead ++ Bytes.ofNat n

def copyDir (w : Machine) : Bytes := (w.now.2.tempDir copyDirHead).1.toOption.getD []

theorem slash_notMem_copyDirName (n : Nat) : Path.slash ∉ copyDirName n := by
  unfold copyDirName
  rw [List.mem_append, not_or]
  exact ⟨by decide, Path.slash_notMem_ofNat n⟩

theorem isName_copyDirName (n : Nat) : Path.IsName (copyDirName n) := by
  refine Path.isName_of_long ?_
  unfold copyDirName
  rw [List.length_append]
  have hhead : 2 < copyDirHead.length := by decide
  omega

/-- Of all the names that are tried, at most the last one is used. -/
theorem tryName_mkdir_cases {head : Bytes} {mode tries : Nat} {refusal : OsError} {w w' : Machine}
    {res : Except OsError Bytes}
    (h : (Host.tryName (fun w => w.fresh head []) (fun path w => w.mkdir path mode) refusal tries :
      StateM Machine _).run w = (res, w')) :
    ∃ n, (∃ e, res = .error e ∧ w' = { w with ticks := n }) ∨
      ∃ d, w.disk.mkdir w.place (w.temp ++ Path.slash :: (head ++ Bytes.ofNat n)) mode = .ok d ∧
        res = .ok (w.temp ++ Path.slash :: (head ++ Bytes.ofNat n)) ∧
        w' = { w with ticks := n, disk := d } := by
  induction tries generalizing w with
  | zero =>
      obtain ⟨hres, hw⟩ := Prod.mk.inj h
      exact ⟨w.ticks, Or.inl ⟨refusal, hres.symm, hw.symm⟩⟩
  | succ tries ih =>
      have hpath : w.temp ++ [Path.slash] ++ head ++ Bytes.ofNat (w.ticks + 1) ++ [] =
          w.temp ++ Path.slash :: (head ++ Bytes.ofNat (w.ticks + 1)) := by simp
      obtain ⟨path, w₁, hfresh, h⟩ := run_bind_eq_iff.mp h
      obtain ⟨hname, rfl⟩ := Prod.mk.inj hfresh
      obtain rfl := hname.symm.trans hpath
      obtain ⟨made, w₂, hmade, h⟩ := run_bind_eq_iff.mp h
      have hmade : change { w with ticks := w.ticks + 1 } (text "mkdir") _
        (w.disk.mkdir w.place _ mode) = (made, w₂) := hmade
      cases hmkdir : w.disk.mkdir w.place
          (w.temp ++ Path.slash :: (head ++ Bytes.ofNat (w.ticks + 1))) mode with
      | ok d =>
          rw [hmkdir] at hmade
          cases hmade
          cases h
          exact ⟨w.ticks + 1, Or.inr ⟨d, hmkdir, rfl, rfl⟩⟩
      | error c =>
          rw [hmkdir] at hmade
          cases hmade
          dsimp only at h
          split at h
          · obtain ⟨n, hcases⟩ := ih h
            exact ⟨n, hcases⟩
          · cases h
            exact ⟨w.ticks + 1, Or.inl ⟨_, rfl, rfl⟩⟩

theorem run_tempDir (head : Bytes) (w : Machine) :
    (Host.tempDir head : StateM Machine _).run w = w.tempDir head := by
  have hrequest : (Host.tempDir head : StateM Machine _) = fun w => w.tempDir head := rfl
  have hrun : ∀ x : StateM Machine (Except OsError Bytes), x.run w = x w := fun _ => rfl
  rw [hrun, hrequest]

theorem tempDir_cases {w w' : Machine} {head : Bytes} {res : Except OsError Bytes}
    (h : w.tempDir head = (res, w')) :
    ∃ n, (∃ e, res = .error e ∧ w' = { w with ticks := n }) ∨
      ∃ d, w.disk.mkdir w.place (w.temp ++ Path.slash :: (head ++ Bytes.ofNat n))
          Disk.privateDirMode = .ok d ∧
        res = .ok (w.temp ++ Path.slash :: (head ++ Bytes.ofNat n)) ∧
        w' = { w with ticks := n, disk := d } := by
  obtain ⟨made, w₁, hmade, h⟩ := run_bind_eq_iff.mp h
  obtain ⟨n, ⟨e, rfl, rfl⟩ | ⟨d, hmkdir, rfl, rfl⟩⟩ := tryName_mkdir_cases hmade
  · refine ⟨n, Or.inl ?_⟩
    dsimp only at h
    split at h
    · obtain ⟨around, w₂, haround, h⟩ := run_bind_eq_iff.mp h
      cases haround
      split at h <;> (cases h; exact ⟨_, rfl, rfl⟩)
    · cases h
      exact ⟨_, rfl, rfl⟩
  · cases h
    exact ⟨n, Or.inr ⟨d, hmkdir, rfl, rfl⟩⟩

/-- The directory of the next copy is new, in a directory that was there and may change. -/
structure Vacant (w : Machine) (place : Location) : Prop where
  named : ∃ n, w.copyDir = w.temp ++ Path.slash :: copyDirName n
  spot : w.Denotes w.copyDir place
  vacant : w.disk.node? place = none
  open_around : w.disk.mayChangeAround place = true

namespace Vacant

variable {w : Machine} {place : Location}

theorem ne_nil (h : w.Vacant place) : place ≠ [] := Disk.ne_nil_of_vacant h.vacant

theorem parent (h : w.Vacant place) : w.disk.IsDir place.dropLast := by
  obtain ⟨mode, hmode, _⟩ := Disk.mayChangeAround_iff.mp h.open_around
  exact ⟨mode, hmode⟩

theorem of_tempDir {dir : Bytes} {w' : Machine}
    (h : w.now.2.tempDir copyDirHead = (.ok dir, w')) :
    ∃ place n, dir = w.copyDir ∧ w.Vacant place ∧ w' = { w with
      ticks := n, disk := w.disk.set place (.dir Disk.privateDirMode) } := by
  have hdir : dir = w.copyDir := by
    unfold copyDir
    rw [h]
    rfl
  obtain ⟨n, ⟨e, herror, _⟩ | ⟨d, hmkdir, hok, rfl⟩⟩ := tempDir_cases h
  · cases herror
  · obtain ⟨place, hentry, hnode, hmay, rfl⟩ := Disk.mkdir_eq_ok_iff.mp hmkdir
    obtain ⟨start, horigin, hwalk⟩ := Disk.entry_eq_ok_iff.mp hentry
    have hname : w.copyDir = w.temp ++ Path.slash :: copyDirName n :=
      hdir.symm.trans (Except.ok.inj hok)
    have hstem : Path.stem (w.temp ++ Path.slash :: copyDirName n) =
        w.temp ++ Path.slash :: copyDirName n :=
      Path.stem_append_name _ (isName_copyDirName n).1 (slash_notMem_copyDirName n)
    refine ⟨place, n, hdir, ⟨⟨n, hname⟩, ?_, hnode, hmay⟩, rfl⟩
    refine Disk.locate_eq_ok_iff.mpr ⟨start, hname ▸ horigin, ?_⟩
    rw [hname, ← hstem]
    exact hwalk

end Vacant

def withDir (w : Machine) (place : Location) : Machine :=
  { w with
    ticks := (w.now.2.tempDir copyDirHead).2.ticks
    disk := w.disk.set place (.dir Disk.privateDirMode) }

def withCopy (w : Machine) (place : Location) (name data : Bytes) : Machine :=
  { w.withDir place with
    disk := (w.withDir place).disk.set (place ++ [name]) (.file data Disk.fileMode) }

theorem Vacant.grown {S : Location → Prop} {w : Machine} {place : Location} (h : w.Vacant place)
    (htree : w.disk.IsTree) : w.disk.Grown S (w.withDir place).disk :=
  .set_dir htree h.vacant h.parent _

/-- A new directory holds nothing, so that a file in it gets the mode it is written with. -/
theorem Vacant.modeAt_withDir {w : Machine} {place : Location} (h : w.Vacant place)
    (htree : w.disk.IsTree) (name : Bytes) (mode : Nat) :
    (w.withDir place).disk.modeAt (place ++ [name]) mode = mode := by
  have hnone : (w.withDir place).disk.node? (place ++ [name]) = none := by
    rw [withDir, Disk.node?_set _ h.ne_nil, if_neg (by simp)]
    exact htree.node?_below h.vacant (List.prefix_append _ _)
  unfold Disk.modeAt
  rw [hnone]

/-- The new directory goes again, as it is empty. -/
theorem Vacant.removeTree_withDir {w : Machine} {place : Location} (h : w.Vacant place)
    (htree : w.disk.IsTree) :
    (w.withDir place).removeTree w.copyDir = (.ok (), { w.withDir place with
      disk := (w.withDir place).disk.clear place [] }) := by
  have hspot : (w.withDir place).disk.locate (w.withDir place).place w.copyDir = .ok place :=
    (h.grown (S := fun _ => False) htree).locate_eq_ok h.spot
  have hheld : (w.withDir place).disk.held place (w.withDir place).disk.nodes.keys = [] :=
    Disk.held_set_dir htree h.vacant h.open_around _
  unfold removeTree
  rw [hspot]
  dsimp only
  rw [hheld]
  rfl

/-- A file that can be written into a directory under the base of a path has that base
as its name. -/
theorem writable_join_base {d : Disk} {cwd place loc : Location} {dir path : Bytes} (hdir : dir ≠ [])
    (hspot : Path.spot cwd dir = place) (hplace : d.IsDir place) (hparent : d.IsDir place.dropLast)
    (h : d.Writable cwd (Path.join dir (Path.base path)) loc) :
    Path.IsName (Path.base path) ∧ Path.slash ∉ Path.base path ∧ loc = place ++ [Path.base path] := by
  have hnot : ¬ d.IsDir loc := by
    rintro ⟨mode, hmode⟩
    exact h.2.not_dir mode hmode
  have hloc : loc = Path.lead place (Path.components (Path.base path)) := by
    rw [Disk.locate_eq_ok_spot (Disk.target_eq_ok_iff.mp h.1).2, Path.spot_join cwd hdir, hspot]
  rcases Path.base_cases path with hbase | hslash
  · rw [hbase] at hloc
    exact absurd (hloc ▸ hplace) hnot
  · rw [Path.components_of_notMem hslash] at hloc
    have hname : Path.IsName (Path.base path) := by
      refine ⟨fun heq => hnot ?_, fun heq => hnot ?_, fun heq => hnot ?_⟩
      · rw [hloc, heq]
        exact hplace
      · rw [hloc, heq]
        exact hplace
      · rw [hloc, heq]
        exact hparent
    exact ⟨hname, hslash, hloc.trans (Path.follow_name place hname)⟩

end Machine

namespace Report

open Machine

theorem copyInto_cases {dir path : Bytes} {w w' : Machine} {res : Except OsError Bytes}
    (h : (copyInto dir path : StateM Machine _).run w = (res, w')) :
    (w' = w ∧ ∃ e, res = .error e) ∨
      ∃ data loc, w.load path = .ok data ∧
        w.disk.Writable w.place (Path.join dir (Path.base path)) loc ∧
        res = .ok (Path.join dir (Path.base path)) ∧
        w' = { w with disk := w.disk.set loc (.file data (w.disk.modeAt loc Disk.fileMode)) } := by
  obtain ⟨loaded, w₁, hload, h⟩ := run_bind_eq_iff.mp h
  cases hload
  cases hload : w.load path with
  | error e =>
      rw [hload] at h
      cases h
      exact Or.inl ⟨rfl, e, rfl⟩
  | ok data =>
      rw [hload] at h
      obtain ⟨saved, w₁, hsave, h⟩ := run_bind_eq_iff.mp h
      by_cases hmay : ∃ loc, w.disk.Writable w.place (Path.join dir (Path.base path)) loc
      · obtain ⟨loc, hloc⟩ := hmay
        cases hsave.symm.trans (write_of_writable hloc Disk.fileMode fun _ => data)
        cases h
        exact Or.inr ⟨data, loc, rfl, hloc, rfl, rfl⟩
      · obtain ⟨c, _, hwrite⟩ :=
          write_of_not_writable (not_exists.mp hmay) Disk.fileMode fun _ => data
        cases hsave.symm.trans hwrite
        cases h
        exact Or.inl ⟨rfl, _, rfl⟩

/-- What a machine is after an attempt to copy the file at `path`. -/
inductive Copying (w : Machine) (path : Bytes) : Except OsError Bytes → Machine → Prop
  /-- No directory could be made. -/
  | refused (e : OsError) (n : Nat) : Copying w path (.error e) { w with ticks := n }
  /-- The file could not be copied, and the directory was removed again. -/
  | undone (e : OsError) {place : Location} (hplace : w.Vacant place) :
      Copying w path (.error e)
        { w.withDir place with disk := (w.withDir place).disk.clear place [] }
  | done {place : Location} {data : Bytes} (hplace : w.Vacant place)
      (hload : (w.withDir place).load path = .ok data) (hname : Path.IsName (Path.base path))
      (hslash : Path.slash ∉ Path.base path)
      (hmay : (w.withDir place).disk.Writable w.place (Path.join w.copyDir (Path.base path))
        (place ++ [Path.base path])) :
      Copying w path (.ok (Path.join w.copyDir (Path.base path)))
        (w.withCopy place (Path.base path) data)

/-- Once there is a directory for it, the file is copied into it, or the directory goes again. -/
theorem copying_of_run {w w₁ w₂ : Machine} {path dir : Bytes} {res : Except OsError Bytes}
    (htree : w.disk.IsTree) (hmade : w.now.2.tempDir copyDirHead = (.ok dir, w₁))
    (hcopy : (copyInto dir path : StateM Machine _).run w₁ = (res, w₂)) :
    (∀ e, res = .error e → Copying w path (.error e) (w₂.removeTree dir).2) ∧
      ∀ actual, res = .ok actual → Copying w path (.ok actual) w₂ := by
  obtain ⟨place, n, rfl, hplace, hw₁⟩ := Vacant.of_tempDir hmade
  have hw₁ : w₁ = w.withDir place := by
    unfold withDir
    rw [hmade, hw₁]
  subst hw₁
  obtain ⟨rfl, e, rfl⟩ | ⟨data, loc, hload, hmay, rfl, rfl⟩ := copyInto_cases hcopy
  · refine ⟨?_, ?_⟩
    · rintro _ ⟨⟩
      rw [hplace.removeTree_withDir htree]
      exact .undone e hplace
    · rintro _ ⟨⟩
  · have hdir : (w.withDir place).disk.IsDir place :=
      ⟨_, by rw [withDir, Disk.node?_set _ hplace.ne_nil, if_pos rfl]⟩
    have hparent : (w.withDir place).disk.IsDir place.dropLast :=
      (hplace.grown (S := fun _ => False) htree).isDir hplace.parent
    have hspot : Path.spot w.place w.copyDir = place :=
      (Disk.locate_eq_ok_spot hplace.spot).symm
    have hne : w.copyDir ≠ [] := by
      obtain ⟨n, hname⟩ := hplace.named
      rw [hname]
      simp
    obtain ⟨hname, hslash, rfl⟩ := writable_join_base hne hspot hdir hparent hmay
    have hdone := Copying.done hplace hload hname hslash hmay
    unfold withCopy at hdone
    rw [← hplace.modeAt_withDir htree (Path.base path) Disk.fileMode] at hdone
    refine ⟨?_, ?_⟩
    · rintro _ ⟨⟩
    · rintro _ ⟨⟩
      exact hdone

/-- A copy that the report asks for is made in a new directory, or nothing is made. -/
theorem storeCopy_cases {r : Report} {name path : Bytes} {w w' : Machine}
    {res : Except CopyError Report} (htree : w.disk.IsTree)
    (h : (r.storeCopy name path : StateM Machine _).run w = (res, w')) :
    ((∃ e, res = .error e) ∧ w' = w) ∨
      ∃ copied, Copying w (Path.absolute w.dir path) copied w' ∧
        (∃ size, w.stat (Path.absolute w.dir path) = .ok (.file size)) ∧
        res = match copied with
          | .error e => .error (.system e)
          | .ok actual =>
            match r.addCopy (r.copyName name w.now.1.nanos) path actual w.now.1.date with
            | .error e => .error (.refused e)
            | .ok r => .ok r := by
  obtain ⟨full, w₀, hfull, h⟩ := run_bind_eq_iff.mp h
  cases hfull
  obtain ⟨found, w₀, hstat, h⟩ := run_bind_eq_iff.mp h
  cases hstat
  cases hstat : w.stat (Path.absolute w.dir path) with
  | error e =>
      rw [hstat] at h
      cases h
      exact Or.inl ⟨⟨_, rfl⟩, rfl⟩
  | ok status =>
      cases status with
      | dir =>
          rw [hstat] at h
          cases h
          exact Or.inl ⟨⟨_, rfl⟩, rfl⟩
      | file size =>
          rw [hstat] at h
          right
          -- the clock is read before a directory is made, and goes on even if none can be made
          obtain ⟨moment, w₀, hnow, h⟩ := run_bind_eq_iff.mp h
          cases hnow
          obtain ⟨made, w₁, hmade, h⟩ := run_bind_eq_iff.mp h
          rw [run_tempDir] at hmade
          cases made with
          | error e =>
              cases h
              obtain ⟨n, ⟨_, _, rfl⟩ | ⟨d, _, herror, _⟩⟩ := tempDir_cases hmade
              · exact ⟨.error e, .refused e n, ⟨size, rfl⟩, rfl⟩
              · cases herror
          | ok dir =>
              obtain ⟨copied, w₂, hcopy, h⟩ := run_bind_eq_iff.mp h
              obtain ⟨hundone, hdone⟩ := copying_of_run htree hmade hcopy
              cases copied with
              | error e =>
                  cases h
                  exact ⟨.error e, hundone e rfl, ⟨size, rfl⟩, rfl⟩
              | ok actual =>
                  refine ⟨.ok actual, ?_⟩
                  have h : (match r.addCopy (r.copyName name w.now.1.nanos) path actual w.now.1.date with
                    | .error e => pure (.error (.refused e))
                    | .ok r => pure (.ok r) : StateM Machine _).run w₂ = (res, w') := h
                  cases hadd : r.addCopy (r.copyName name w.now.1.nanos) path actual w.now.1.date with
                  | error e =>
                      rw [hadd] at h
                      cases h
                      exact ⟨hdone actual rfl, ⟨size, rfl⟩, by dsimp only; rw [hadd]⟩
                  | ok r' =>
                      rw [hadd] at h
                      cases h
                      exact ⟨hdone actual rfl, ⟨size, rfl⟩, by dsimp only; rw [hadd]⟩

end Report

/-! ## Growing machines -/

namespace Machine

instance (w : Machine) (path : Bytes) (loc : Location) : Decidable (w.Denotes path loc) :=
  inferInstanceAs (Decidable (_ = _))

def Holds (w : Machine) (path data : Bytes) : Prop :=
  ∃ loc mode, w.Denotes path loc ∧ w.disk.node? loc = some (.file data mode)

theorem holds_iff {w : Machine} {path data : Bytes} :
    w.Holds path data ↔ (match w.disk.find w.place path with
      | .ok (.file content _) => some content
      | _ => none) = some data := by
  constructor
  · rintro ⟨loc, mode, hloc, hnode⟩
    rw [Disk.find_eq_ok_iff.mpr ⟨loc, hloc, hnode⟩]
  · intro h
    split at h
    · next content mode hfind =>
        obtain rfl := Option.some.inj h
        obtain ⟨loc, hloc, hnode⟩ := Disk.find_eq_ok_iff.mp hfind
        exact ⟨loc, mode, hloc, hnode⟩
    · cases h

instance (w : Machine) (path data : Bytes) : Decidable (w.Holds path data) :=
  decidable_of_iff' _ holds_iff

structure Grown (S : Location → Prop) (w w' : Machine) : Prop where
  dir : w'.dir = w.dir
  disk : w.disk.Grown S w'.disk

namespace Grown

variable {S : Location → Prop} {start w w' : Machine} {path data : Bytes} {loc : Location}

theorem refl (S : Location → Prop) (h : w.disk.IsTree) : Grown S w w := ⟨rfl, .refl S h⟩

theorem place_eq (h : Grown S w w') : w'.place = w.place := place_congr h.dir

theorem mono {T : Location → Prop} (h : Grown S w w') (hST : ∀ loc, S loc → T loc) : Grown T w w' :=
  ⟨h.dir, h.disk.mono hST⟩

theorem denotes (h : Grown S w w') (hpath : w.Denotes path loc) : w'.Denotes path loc := by
  unfold Denotes
  rw [h.place_eq]
  exact h.disk.locate_eq_ok hpath

theorem onFiles (start : Machine) (S : Location → Prop) : OnFiles (start.Grown S) where
  now := fun _ h => ⟨h.dir, h.disk⟩
  print := fun _ _ h => ⟨h.dir, h.disk⟩
  complain := fun _ _ h => ⟨h.dir, h.disk⟩
  record := fun _ _ h => ⟨h.dir, h.disk⟩

theorem write (h : Grown S start w)
    (hpath : ∀ loc, w.Denotes path loc → S loc ∨ ¬ start.disk.IsDir loc.dropLast) (mode : Nat)
    (content : Bytes → Bytes) : Grown S start (w.write path mode content).2 := by
  by_cases hmay : ∃ loc, w.disk.Writable w.place path loc
  · obtain ⟨loc, hloc⟩ := hmay
    rw [write_of_writable hloc]
    exact ⟨h.dir, h.disk.set_file hloc (hpath loc (denotes_of_writable hloc)) _ _⟩
  · obtain ⟨c, _, hwrite⟩ := write_of_not_writable (not_exists.mp hmay) mode content
    rw [hwrite]
    exact h

theorem trans {w'' : Machine} (h : Grown S w w') (h' : Grown S w' w'') : Grown S w w'' :=
  ⟨h'.dir.trans h.dir, h.disk.trans h'.disk⟩

theorem of_copying {res : Except OsError Bytes} (htree : w.disk.IsTree)
    (h : Report.Copying w path res w') : Grown S w w' := by
  cases h with
  | refused e n => exact ⟨rfl, .refl S htree⟩
  | undone e hplace =>
      exact ⟨rfl, .of_node? htree (Disk.node?_clear_set_dir htree hplace.vacant _)⟩
  | done hplace hload hname hslash hmay =>
      refine ⟨rfl, (hplace.grown htree).set_file hmay (Or.inr ?_) _ _⟩
      rw [List.dropLast_concat]
      rintro ⟨mode, hmode⟩
      rw [hplace.vacant] at hmode
      cases hmode

theorem storeCopy (h : Grown S start w) (r : Report) (name path : Bytes) :
    Grown S start ((r.storeCopy name path : StateM Machine _).run w).2 := by
  obtain ⟨⟨res, w'⟩, hrun⟩ : ∃ out, (r.storeCopy name path : StateM Machine _).run w = out := ⟨_, rfl⟩
  rw [hrun]
  rcases Report.storeCopy_cases h.disk.tree hrun with ⟨_, rfl⟩ | ⟨copied, hcopying, _⟩
  · exact h
  · exact h.trans (of_copying h.disk.tree hcopying)

end Grown

end Machine

end Cascade
