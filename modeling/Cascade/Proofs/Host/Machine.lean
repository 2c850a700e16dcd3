import Cascade.Proofs.Host.Disk
import Cascade.Proofs.Host.Invariance

/-!
# Runs on a machine

What requests do to a machine, and how commands are put together from them. Logging
changes the files that the logger writes to, and no other.
-/

namespace Cascade

namespace Machine

def Denotes (w : Machine) (path : Bytes) (loc : Location) : Prop :=
  w.disk.locate w.place path = .ok loc

theorem place_congr {w w' : Machine} (h : w'.dir = w.dir) : w'.place = w.place := by
  unfold place
  rw [h]

theorem placeOf_congr {w w' : Machine} (h : w'.dir = w.dir) (path : Bytes) :
    w'.placeOf path = w.placeOf path := by
  unfold placeOf
  rw [h]

/-- The current directory stays, and so do all directories and all that stands outside `S`. -/
structure Kept (S : Location → Prop) (w w' : Machine) : Prop where
  dir : w'.dir = w.dir
  disk : w.disk.Kept S w'.disk

namespace Kept

variable {S T : Location → Prop} {w w' w'' : Machine}

theorem refl (S : Location → Prop) (w : Machine) : Kept S w w := ⟨rfl, .refl S w.disk⟩

theorem trans (h : Kept S w w') (h' : Kept S w' w'') : Kept S w w'' :=
  ⟨h'.dir.trans h.dir, h.disk.trans h'.disk⟩

theorem mono (h : Kept S w w') (hST : ∀ loc, S loc → T loc) : Kept T w w' :=
  ⟨h.dir, h.disk.mono hST⟩

theorem place_eq (h : Kept S w w') : w'.place = w.place := place_congr h.dir

theorem denotes_iff (h : Kept S w w') {path : Bytes} {loc : Location} :
    w'.Denotes path loc ↔ w.Denotes path loc := by
  unfold Denotes
  rw [h.place_eq]
  exact h.disk.locate_eq_ok_iff

end Kept

theorem loaded_eq_ok_iff {path data : Bytes} {found : Except Cause FileNode} :
    loaded path found = .ok data ↔
      ∃ mode, found = .ok (.file data mode) ∧ Disk.mayRead mode = true := by
  unfold loaded
  split
  · next old mode => by_cases hmay : Disk.mayRead mode = true <;> simp [hmay]
  · next mode => by_cases hmay : Disk.mayRead mode = true <;> simp [hmay]
  · simp

theorem load_eq_ok_iff {w : Machine} {path data : Bytes} :
    w.load path = .ok data ↔
      ∃ loc mode, w.Denotes path loc ∧ w.disk.node? loc = some (.file data mode) ∧
        Disk.mayRead mode = true := by
  unfold load
  rw [loaded_eq_ok_iff]
  constructor
  · rintro ⟨mode, hfile, hmay⟩
    obtain ⟨loc, hloc, hnode⟩ := Disk.find_eq_ok_iff.mp hfile
    exact ⟨loc, mode, hloc, hnode, hmay⟩
  · rintro ⟨loc, mode, hloc, hnode, hmay⟩
    exact ⟨mode, Disk.find_eq_ok_iff.mpr ⟨loc, hloc, hnode⟩, hmay⟩

theorem write_of_writable {w : Machine} {path : Bytes} {loc : Location}
    (h : w.disk.Writable w.place path loc) (mode : Nat) (content : Bytes → Bytes) :
    w.write path mode content = (.ok (), { w with
      disk := w.disk.set loc (.file (content (w.disk.dataAt loc)) (w.disk.modeAt loc mode)) }) := by
  unfold write
  rw [Disk.write_eq_ok_iff.mpr ⟨loc, h, rfl⟩]
  rfl

/-- Where no file can be written, nothing changes. -/
theorem write_of_not_writable {w : Machine} {path : Bytes}
    (h : ∀ loc, ¬ w.disk.Writable w.place path loc) (mode : Nat) (content : Bytes → Bytes) :
    ∃ c, w.disk.write w.place path mode content = .error c ∧
      w.write path mode content = (.error ⟨text "open", path, c⟩, w) := by
  unfold write
  cases hwrite : w.disk.write w.place path mode content with
  | ok d =>
      obtain ⟨loc, hloc, _⟩ := Disk.write_eq_ok_iff.mp hwrite
      exact absurd hloc (h loc)
  | error c => exact ⟨c, rfl, rfl⟩

theorem denotes_of_writable {w : Machine} {path : Bytes} {loc : Location}
    (h : w.disk.Writable w.place path loc) : w.Denotes path loc :=
  (Disk.target_eq_ok_iff.mp h.1).2

theorem kept_set {w : Machine} {path : Bytes} {loc : Location}
    (h : w.disk.Writable w.place path loc) (data : Bytes) (mode : Nat) :
    Kept (· = loc) w { w with disk := w.disk.set loc (.file data mode) } :=
  ⟨rfl, h.2.kept_set data mode⟩

theorem kept_write {S : Location → Prop} {w : Machine} {path : Bytes}
    (hpath : ∀ loc, w.Denotes path loc → S loc) (mode : Nat) (content : Bytes → Bytes) :
    Kept S w (w.write path mode content).2 := by
  by_cases hmay : ∃ loc, w.disk.Writable w.place path loc
  · obtain ⟨loc, hloc⟩ := hmay
    rw [write_of_writable hloc]
    refine (kept_set hloc _ _).mono ?_
    rintro _ rfl
    exact hpath _ (denotes_of_writable hloc)
  · obtain ⟨c, _, hwrite⟩ := write_of_not_writable (not_exists.mp hmay) mode content
    rw [hwrite]
    exact .refl S w

end Machine

/-! ## Logging -/

namespace Log.Logger

def Writes (l : Logger) (w : Machine) (loc : Location) : Prop := ∃ file ∈ l.files, w.Denotes file loc

variable {l : Logger} {start : Machine}

theorem kept_emit (l : Logger) (start : Machine) :
    l.Preserves (start.Kept (l.Writes start)) := by
  have hstays : ∀ {w w' : Machine}, w'.dir = w.dir → w'.disk = w.disk →
      start.Kept (l.Writes start) w → start.Kept (l.Writes start) w' := by
    intro w w' hdir hdisk hw
    exact hw.trans ⟨hdir, hdisk ▸ .refl _ _⟩
  have hI : OnFiles (start.Kept (l.Writes start)) := ⟨fun _ => hstays rfl rfl,
    fun _ _ => hstays rfl rfl, fun _ _ => hstays rfl rfl, fun _ _ => hstays rfl rfl⟩
  refine preserves hI fun path hpath data w hw => ?_
  refine hw.trans (Machine.kept_write (fun loc hloc => ?_) _ _)
  exact ⟨path, hpath, hw.denotes_iff.mp hloc⟩

end Log.Logger

/-! ## Stylesheets -/

namespace Source

section Requests

variable {σ : Type} [Host (StateM σ)] {w w' : σ} {path data s : Bytes} {charset : Charset}

/-- What is read is what is loaded, decoded. -/
theorem run_read_of_load [Codecs] (hload : (Host.load path : StateM σ _).run w = (.ok data, w)) :
    (read path charset : StateM σ _).run w =
      (match charset.decode? data with
        | some s => .ok s
        | none => .error (.undecodable path), w) := by
  unfold read
  rw [StateT.run_bind, hload]
  change (match charset.decode? data with
    | some s => pure (.ok s)
    | none => pure (.error (.undecodable path)) : StateM σ (Except SourceError Bytes)).run w = _
  cases charset.decode? data <;> rfl

theorem run_read_of_load_error [Codecs] {e : OsError}
    (hload : (Host.load path : StateM σ _).run w = (.error e, w)) :
    (read path charset : StateM σ _).run w = (.error (.unreadable e), w) := by
  unfold read
  rw [StateT.run_bind, hload]
  rfl

theorem run_write_of_save (hsave : (Host.save path data : StateM σ _).run w = (.ok (), w')) :
    (write path data : StateM σ _).run w = (.ok (), w') := by
  unfold write
  rw [StateT.run_bind, hsave]
  rfl

theorem run_write_of_save_error {e : OsError}
    (hsave : (Host.save path data : StateM σ _).run w = (.error e, w')) :
    (write path data : StateM σ _).run w = (.error (.unwritable e), w') := by
  unfold write
  rw [StateT.run_bind, hsave]
  rfl

end Requests

variable {w : Machine} {path data s : Bytes} {charset : Charset}

theorem run_load (path : Bytes) (w : Machine) :
    (Host.load path : StateM Machine (Except OsError Bytes)).run w = (w.load path, w) :=
  rfl

theorem run_load_ok (hload : w.load path = .ok data) :
    (Host.load path : StateM Machine (Except OsError Bytes)).run w = (.ok data, w) := by
  rw [run_load, hload]

theorem run_read_ok [Codecs] (hload : w.load path = .ok data)
    (hdecode : charset.decode? data = some s) :
    (read path charset : StateM Machine _).run w = (.ok s, w) := by
  rw [run_read_of_load (run_load_ok hload), hdecode]

theorem run_read_error [Codecs]
    (h : ¬ ∃ data s, w.load path = .ok data ∧ charset.decode? data = some s) :
    ∃ e, (read path charset : StateM Machine _).run w = (.error e, w) := by
  cases hload : w.load path with
  | error e =>
      have hrun : (Host.load path : StateM Machine _).run w = (.error e, w) := by
        rw [run_load, hload]
      exact ⟨_, run_read_of_load_error hrun⟩
  | ok data =>
      cases hdecode : charset.decode? data with
      | none => exact ⟨.undecodable path, by rw [run_read_of_load (run_load_ok hload), hdecode]⟩
      | some s => exact absurd ⟨data, s, hload, hdecode⟩ h

theorem run_write_ok {loc : Location} (h : w.disk.Writable w.place path loc) (data : Bytes) :
    (write path data : StateM Machine _).run w = (.ok (), { w with
      disk := w.disk.set loc (.file data (w.disk.modeAt loc Disk.fileMode)) }) :=
  run_write_of_save (Machine.write_of_writable h Disk.fileMode fun _ => data)

theorem run_write_error (h : ∀ loc, ¬ w.disk.Writable w.place path loc) (data : Bytes) :
    ∃ e, (write path data : StateM Machine _).run w = (.error e, w) := by
  obtain ⟨c, _, hsave⟩ := Machine.write_of_not_writable h Disk.fileMode fun _ => data
  exact ⟨_, run_write_of_save_error hsave⟩

end Source

/-! ## Commands without a report -/

namespace Action

variable {α β σ : Type}

/-- Without a report, the command ends on `w` with the result `r` and leaves `w'`. -/
def Ends (x : Action (StateM σ) α) (w : σ) (r : Except Failure α) (w' : σ) : Prop :=
  (x.run.run none).run w = ((r, none), w')

variable {x : Action (StateM σ) α} {f : α → Action (StateM σ) β} {w w' w'' : σ}

theorem Ends.of_result {r : Except Failure α} (h : ((x.run.run none).run w).1 = (r, none)) :
    x.Ends w r ((x.run.run none).run w).2 :=
  Prod.ext h rfl

theorem Ends.bind {a : α} {r : Except Failure β} (hx : x.Ends w (.ok a) w')
    (hf : (f a).Ends w' r w'') : (x >>= f).Ends w r w'' := by
  unfold Ends at *
  rw [ExceptT.run_bind, StateT.run_bind, StateT.run_bind, hx]
  exact hf

theorem Ends.bind_error {e : Failure} (hx : x.Ends w (.error e) w') :
    (x >>= f).Ends w (.error e) w' := by
  unfold Ends at *
  rw [ExceptT.run_bind, StateT.run_bind, StateT.run_bind, hx]
  rfl

theorem ends_lift {y : StateM σ α} {a : α} (hy : y.run w = (a, w')) :
    (liftM y : Action (StateM σ) α).Ends w (.ok a) w' := by
  have hlift : (liftM y : Action (StateM σ) α).Ends w (.ok (y.run w).1) (y.run w).2 := rfl
  rwa [hy] at hlift

/-- A request that is answered goes on with the answer. -/
theorem Ends.request {ε : Type} {y : StateM σ (Except ε α)} {a : α} {g : ε → Failure}
    {r : Except Failure β} (hy : y.run w = (.ok a, w')) (hf : (f a).Ends w' r w'') :
    (liftM y >>= fun answer => ofExcept g answer >>= f : Action (StateM σ) β).Ends w r w'' :=
  (ends_lift hy).bind (Ends.bind rfl hf)

theorem Ends.request_error {ε : Type} {y : StateM σ (Except ε α)} {e : ε} {g : ε → Failure}
    (hy : y.run w = (.error e, w')) :
    (liftM y >>= fun answer => ofExcept g answer >>= f : Action (StateM σ) β).Ends w
      (.error (g e)) w' :=
  (ends_lift hy).bind (Ends.bind_error rfl)

variable [Host (StateM σ)] {I : σ → Prop} {log : Log.Logger}

theorem exists_ends_log (hlog : log.Preserves I) (level : Log.Level) (message : String)
    (fields : List (String × Log.Value)) (hw : I w) :
    ∃ w', (liftM (log.log level message fields : StateM σ Unit) :
      Action (StateM σ) Unit).Ends w (.ok ()) w' ∧ I w' :=
  ⟨_, rfl, hlog _ w hw⟩

theorem exists_ends_scan (hlog : log.Preserves I) (path source : Bytes) (hw : I w) :
    ∃ w', (scan log path source).Ends w (.ok (Sheet.scan source)) w' ∧ I w' := by
  refine ⟨_, Ends.bind rfl (Ends.bind rfl rfl), ?_⟩
  have hentries : Preserves I ((Scan.log path source).forM (log.emit (m := StateM σ))) :=
    .forM fun entry _ => hlog entry
  have hwarnings : Preserves I ((Sheet.scan source).warnings.forM fun warning =>
      log.log (m := StateM σ) .debug "Malformed stylesheet"
        [("source", .text path), ("problem", .text warning.message)]) :=
    .forM fun warning _ => hlog _
  exact hwarnings _ (hentries w hw)

end Action

end Cascade
