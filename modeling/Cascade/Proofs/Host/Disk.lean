import Cascade.Host.Disk
import Mathlib.Tactic.Common

/-!
# What a write leaves as it is

A path is followed through directories only, and writing a file changes no directory.
So a path that names a place goes on naming it, whatever files are written, and
what stands elsewhere stays.
-/

namespace Cascade

/-! ## Paths -/

namespace Path

theorem components_append (path : Bytes) {t : Bytes} (ht : slash ∉ t) :
    ∃ init name, components path = init ++ [name] ∧ components (path ++ t) = init ++ [name ++ t] := by
  unfold components
  induction path with
  | nil => exact ⟨[], [], List.splitOn_nil _, by rw [List.nil_append, List.splitOn_eq_singleton ht]; rfl⟩
  | cons b path ih =>
      obtain ⟨init, name, hpath, happend⟩ := ih
      rw [List.cons_append, List.splitOn_cons_eq_if_modifyHead, List.splitOn_cons_eq_if_modifyHead,
        hpath, happend]
      split
      · exact ⟨[] :: init, name, rfl, rfl⟩
      · cases init with
        | nil => exact ⟨[], b :: name, rfl, rfl⟩
        | cons c init => exact ⟨(b :: c) :: init, name, rfl, rfl⟩

theorem components_slash {path : Bytes} (h : Bytes.ends [slash] path = true) :
    ∃ init, components path = init ++ [[]] := by
  obtain ⟨dir, rfl⟩ := List.isSuffixOf_iff_suffix.mp h
  exact ⟨components dir, (List.splitOn_append_cons_self dir []).trans (by rw [List.splitOn_nil]; rfl)⟩

theorem isAbsolute_append {dir : Bytes} (hdir : dir ≠ []) (path : Bytes) :
    isAbsolute (dir ++ path) = isAbsolute dir := by
  obtain ⟨b, dir, rfl⟩ := List.exists_cons_of_ne_nil hdir
  rfl

end Path

namespace Disk

/-! ## Following a path -/

def next (mode : Nat) (loc : Location) (c : Bytes) : Except Cause Location :=
  if c.isEmpty then .ok loc
  else if !mayEnter mode then .error .denied
  else if c == Path.here then .ok loc
  else if c == Path.up then .ok loc.dropLast
  else if nameLimit < c.length then .error .nameTooLong
  else .ok (loc ++ [c])

theorem next_eq_ok {mode : Nat} {loc place : Location} {c : Bytes} (h : next mode loc c = .ok place) :
    place = loc ∨ place = loc.dropLast ∨ place = loc ++ [c] := by
  unfold next at h
  split_ifs at h <;> cases h <;> simp

/-- A component that is longer than the special ones is a name. -/
theorem next_eq_ok_of_long {mode : Nat} {loc place : Location} {c : Bytes}
    (h : next mode loc c = .ok place) (hlong : 2 < c.length) : place = loc ++ [c] := by
  have hempty : c.isEmpty = false := by
    cases c with
    | nil => simp at hlong
    | cons b c => rfl
  have hhere : (c == Path.here) = false := by
    refine beq_eq_false_iff_ne.mpr ?_
    rintro rfl
    exact absurd hlong (by decide)
  have hup : (c == Path.up) = false := by
    refine beq_eq_false_iff_ne.mpr ?_
    rintro rfl
    exact absurd hlong (by decide)
  simp only [next, hempty, hhere, hup, Bool.false_eq_true, if_false] at h
  split_ifs at h
  cases h
  rfl

theorem walk_cons_eq_ok_iff {d : Disk} {loc place : Location} {c : Bytes} {cs : List Bytes} :
    d.walk loc (c :: cs) = .ok place ↔
      ∃ mode mid, d.node? loc = some (.dir mode) ∧ next mode loc c = .ok mid ∧
        d.walk mid cs = .ok place := by
  rw [walk]
  cases hnode : d.node? loc with
  | none => simp
  | some n =>
      cases n with
      | file data mode => simp
      | dir mode =>
          simp only [next, Option.some.injEq, FileNode.dir.injEq]
          constructor
          · intro h
            refine ⟨mode, ?_⟩
            split_ifs at h ⊢ <;> simp_all
          · rintro ⟨_, mid, rfl, hnext, hrest⟩
            split_ifs at hnext ⊢ <;> simp_all

theorem walk_append_eq_ok_iff {d : Disk} {loc place : Location} {cs cs' : List Bytes} :
    d.walk loc (cs ++ cs') = .ok place ↔
      ∃ mid, d.walk loc cs = .ok mid ∧ d.walk mid cs' = .ok place := by
  induction cs generalizing loc with
  | nil => simp [walk]
  | cons c cs ih =>
      rw [List.cons_append, walk_cons_eq_ok_iff]
      constructor
      · rintro ⟨mode, mid, hnode, hnext, hrest⟩
        obtain ⟨mid', hfirst, hlast⟩ := ih.mp hrest
        exact ⟨mid', walk_cons_eq_ok_iff.mpr ⟨mode, mid, hnode, hnext, hfirst⟩, hlast⟩
      · rintro ⟨mid', hfirst, hlast⟩
        obtain ⟨mode, mid, hnode, hnext, hrest⟩ := walk_cons_eq_ok_iff.mp hfirst
        exact ⟨mode, mid, hnode, hnext, ih.mpr ⟨mid', hrest, hlast⟩⟩

theorem walk_singleton_eq_ok_iff {d : Disk} {loc place : Location} {c : Bytes} :
    d.walk loc [c] = .ok place ↔
      ∃ mode, d.node? loc = some (.dir mode) ∧ next mode loc c = .ok place := by
  rw [walk_cons_eq_ok_iff]
  constructor
  · rintro ⟨mode, mid, hnode, hnext, hend⟩
    cases hend
    exact ⟨mode, hnode, hnext⟩
  · rintro ⟨mode, hnode, hnext⟩
    exact ⟨mode, place, hnode, hnext, rfl⟩

theorem bind_eq_ok_iff {α β : Type} {x : Except Cause α} {f : α → Except Cause β} {b : β} :
    (x >>= f) = .ok b ↔ ∃ a, x = .ok a ∧ f a = .ok b := by
  cases x with
  | error c => simp [bind, Except.bind]
  | ok a => simp [bind, Except.bind]

theorem locate_eq_ok_iff {d : Disk} {cwd loc : Location} {path : Bytes} :
    d.locate cwd path = .ok loc ↔
      ∃ start, origin cwd path = .ok start ∧ d.walk start (Path.components path) = .ok loc :=
  bind_eq_ok_iff

theorem target_eq_ok_iff {d : Disk} {cwd loc : Location} {path : Bytes} :
    d.target cwd path = .ok loc ↔
      Bytes.ends [Path.slash] path = false ∧ d.locate cwd path = .ok loc := by
  unfold target
  split
  · next hslash => simp [hslash, bind_eq_ok_iff]
  · next hslash => simp [hslash]

theorem find_eq_ok_iff {d : Disk} {cwd : Location} {path : Bytes} {n : FileNode} :
    d.find cwd path = .ok n ↔ ∃ loc, d.locate cwd path = .ok loc ∧ d.node? loc = some n := by
  unfold find
  rw [bind_eq_ok_iff]
  refine exists_congr fun loc => and_congr_right fun _ => ?_
  cases d.node? loc <;> simp

theorem origin_eq_ok {cwd start : Location} {path : Bytes} (h : origin cwd path = .ok start) :
    path ≠ [] ∧ start = if Path.isAbsolute path then [] else cwd := by
  unfold origin at h
  split at h
  · cases h
  · next hempty =>
      split_ifs at h <;> cases h <;> simp_all

section Dirs

/-! A path is followed through directories only: it leads to the same place wherever there are
the same directories, or more. -/

variable {d d' : Disk} {cwd loc loc' : Location} {path : Bytes}

theorem walk_of_dirs
    (hdirs : ∀ loc mode, d.node? loc = some (.dir mode) → d'.node? loc = some (.dir mode))
    {cs : List Bytes} (hwalk : d.walk loc cs = .ok loc') : d'.walk loc cs = .ok loc' := by
  induction cs generalizing loc with
  | nil => exact hwalk
  | cons c cs ih =>
      obtain ⟨mode, mid, hnode, hnext, hrest⟩ := walk_cons_eq_ok_iff.mp hwalk
      exact walk_cons_eq_ok_iff.mpr ⟨mode, mid, hdirs loc mode hnode, hnext, ih hrest⟩

theorem locate_of_dirs
    (hdirs : ∀ loc mode, d.node? loc = some (.dir mode) → d'.node? loc = some (.dir mode))
    (hloc : d.locate cwd path = .ok loc) : d'.locate cwd path = .ok loc := by
  obtain ⟨start, horigin, hwalk⟩ := locate_eq_ok_iff.mp hloc
  exact locate_eq_ok_iff.mpr ⟨start, horigin, walk_of_dirs hdirs hwalk⟩

/-- A path with more text behind it leads into the directory that the path itself leads into last,
whether it is followed there or among more directories. -/
theorem locate_append_of_dirs
    (hdirs : ∀ loc mode, d.node? loc = some (.dir mode) → d'.node? loc = some (.dir mode))
    {t : Bytes} (hloc : d.locate cwd path = .ok loc) (ht : Path.slash ∉ t) (hlong : 2 < t.length)
    (hloc' : d'.locate cwd (path ++ t) = .ok loc') :
    d.locate cwd (path ++ t) = .ok loc' ∧ ∃ dir mode name, d.node? dir = some (.dir mode) ∧
      next mode dir name = .ok loc ∧ loc' = dir ++ [name ++ t] := by
  obtain ⟨init, name, hpath, happend⟩ := Path.components_append path ht
  obtain ⟨start, horigin, hwalk⟩ := locate_eq_ok_iff.mp hloc
  obtain ⟨start', horigin', hwalk'⟩ := locate_eq_ok_iff.mp hloc'
  obtain ⟨hne, hstart⟩ := origin_eq_ok horigin
  have hsame : start' = start := by
    rw [(origin_eq_ok horigin').2, hstart, Path.isAbsolute_append hne]
  rw [hpath] at hwalk
  rw [happend, hsame] at hwalk'
  obtain ⟨dir, hinit, hname⟩ := walk_append_eq_ok_iff.mp hwalk
  obtain ⟨dir', hinit', hname'⟩ := walk_append_eq_ok_iff.mp hwalk'
  -- the components before the last are those of the path, and lead to one directory
  obtain rfl : dir = dir' := Except.ok.inj ((walk_of_dirs hdirs hinit).symm.trans hinit')
  obtain ⟨mode, hdir, hnext⟩ := walk_singleton_eq_ok_iff.mp hname
  obtain ⟨mode', hdir', hnext'⟩ := walk_singleton_eq_ok_iff.mp hname'
  obtain rfl : mode = mode' :=
    FileNode.dir.inj (Option.some.inj ((hdirs dir mode hdir).symm.trans hdir'))
  have hplace : loc' = dir ++ [name ++ t] :=
    next_eq_ok_of_long hnext' (by rw [List.length_append]; omega)
  refine ⟨locate_eq_ok_iff.mpr ⟨start', horigin', ?_⟩, dir, mode, name, hdir, hnext, hplace⟩
  rw [happend, hsame]
  exact walk_append_eq_ok_iff.mpr ⟨dir, hinit, walk_singleton_eq_ok_iff.mpr ⟨mode, hdir, hnext'⟩⟩

/-- A path with more text behind it does not name the file that the path names. -/
theorem locate_append_ne {t data : Bytes} {mode : Nat} (hloc : d.locate cwd path = .ok loc)
    (hfile : d.node? loc = some (.file data mode)) (ht : Path.slash ∉ t) (hlong : 2 < t.length)
    (hloc' : d.locate cwd (path ++ t) = .ok loc') : loc' ≠ loc := by
  obtain ⟨-, dir, m, name, hdir, hnext, hplace⟩ :=
    locate_append_of_dirs (fun _ _ h => h) hloc ht hlong hloc'
  rintro rfl
  rcases next_eq_ok hnext with heq | heq | heq
  · rw [heq, hdir] at hfile
    cases hfile
  · have hlength := congrArg List.length (hplace.symm.trans heq)
    simp only [List.length_append, List.length_singleton, List.length_dropLast] at hlength
    omega
  · have hlength := congrArg (fun l => (l.map List.length).sum) (hplace.symm.trans heq)
    simp at hlength
    simp [hlength] at hlong

end Dirs

/-! ## Changing files only -/

theorem node?_set (d : Disk) {loc : Location} (hloc : loc ≠ []) (n : FileNode) (loc' : Location) :
    (d.set loc n).node? loc' = if loc' = loc then some n else d.node? loc' := by
  unfold node? set
  by_cases heq : loc' = loc
  · subst heq
    simp [hloc]
  · rw [if_neg heq, Dict.get?_insert_of_ne _ _ heq]

/-- The directories stay, and all that stands outside `S`. -/
structure Kept (S : Location → Prop) (d d' : Disk) : Prop where
  dirs : ∀ loc mode, d'.node? loc = some (.dir mode) ↔ d.node? loc = some (.dir mode)
  off : ∀ loc, ¬ S loc → d'.node? loc = d.node? loc

namespace Kept

variable {S T : Location → Prop} {d d' d'' : Disk}

theorem refl (S : Location → Prop) (d : Disk) : Kept S d d :=
  ⟨fun _ _ => Iff.rfl, fun _ _ => rfl⟩

theorem trans (h : Kept S d d') (h' : Kept S d' d'') : Kept S d d'' :=
  ⟨fun loc mode => (h'.dirs loc mode).trans (h.dirs loc mode),
    fun loc hloc => (h'.off loc hloc).trans (h.off loc hloc)⟩

theorem mono (h : Kept S d d') (hST : ∀ loc, S loc → T loc) : Kept T d d' :=
  ⟨h.dirs, fun loc hloc => h.off loc fun hS => hloc (hST loc hS)⟩

theorem locate_eq_ok_iff (h : Kept S d d') {cwd loc : Location} {path : Bytes} :
    d'.locate cwd path = .ok loc ↔ d.locate cwd path = .ok loc :=
  ⟨locate_of_dirs fun loc mode => (h.dirs loc mode).mp,
    locate_of_dirs fun loc mode => (h.dirs loc mode).mpr⟩

end Kept

theorem mayChangeAround_iff {d : Disk} {loc : Location} :
    d.mayChangeAround loc = true ↔
      ∃ mode, d.node? loc.dropLast = some (.dir mode) ∧ mayWrite mode = true := by
  unfold mayChangeAround
  split
  · next mode hnode => simp [hnode]
  · next hnone =>
      constructor
      · intro h
        cases h
      · rintro ⟨mode, hnode, _⟩
        exact absurd hnode (hnone mode)

theorem Kept.mayChangeAround_iff {S : Location → Prop} {d d' : Disk} (h : Kept S d d')
    {loc : Location} : d'.mayChangeAround loc = true ↔ d.mayChangeAround loc = true := by
  rw [Disk.mayChangeAround_iff, Disk.mayChangeAround_iff]
  exact exists_congr fun mode => and_congr_left fun _ => h.dirs _ mode

/-! ## Writing a file -/

def MayPut (d : Disk) (loc : Location) : Prop :=
  match d.node? loc with
  | some (.file _ mode) => mayWrite mode = true
  | some (.dir _) => False
  | none => d.mayChangeAround loc = true

def Writable (d : Disk) (cwd : Location) (path : Bytes) (loc : Location) : Prop :=
  d.target cwd path = .ok loc ∧ d.MayPut loc

def dataAt (d : Disk) (loc : Location) : Bytes :=
  match d.node? loc with
  | some (.file data _) => data
  | _ => []

def modeAt (d : Disk) (loc : Location) (fresh : Nat) : Nat :=
  match d.node? loc with
  | some (.file _ mode) => mode
  | _ => fresh

theorem Kept.modeAt_eq {S : Location → Prop} {d d' : Disk} (h : Kept S d d') {loc : Location}
    (hloc : ¬ S loc) (fresh : Nat) : d'.modeAt loc fresh = d.modeAt loc fresh := by
  unfold modeAt
  rw [h.off loc hloc]

theorem put_eq_ok_iff {d d' : Disk} {loc : Location} {mode : Nat} {content : Bytes → Bytes} :
    d.put loc mode content = .ok d' ↔
      d.MayPut loc ∧ d' = d.set loc (.file (content (d.dataAt loc)) (d.modeAt loc mode)) := by
  unfold put MayPut dataAt modeAt
  cases d.node? loc with
  | none => by_cases hmay : d.mayChangeAround loc = true <;> simp [hmay, eq_comm]
  | some n =>
      cases n with
      | dir m => simp
      | file data m => by_cases hmay : mayWrite m = true <;> simp [hmay, eq_comm]

theorem write_eq_ok_iff {d d' : Disk} {cwd : Location} {path : Bytes} {mode : Nat}
    {content : Bytes → Bytes} :
    d.write cwd path mode content = .ok d' ↔
      ∃ loc, d.Writable cwd path loc ∧
        d' = d.set loc (.file (content (d.dataAt loc)) (d.modeAt loc mode)) := by
  unfold write Writable
  rw [bind_eq_ok_iff]
  refine exists_congr fun loc => ?_
  rw [and_assoc, put_eq_ok_iff]

/-- What is not a directory is not the root. -/
theorem MayPut.ne_nil {d : Disk} {loc : Location} (h : d.MayPut loc) : loc ≠ [] := by
  rintro rfl
  exact h

theorem MayPut.not_dir {d : Disk} {loc : Location} (h : d.MayPut loc) (mode : Nat) :
    d.node? loc ≠ some (.dir mode) := by
  intro hdir
  unfold MayPut at h
  rw [hdir] at h
  exact h

theorem MayPut.kept_set {d : Disk} {loc : Location} (h : d.MayPut loc) (data : Bytes) (mode : Nat) :
    Kept (· = loc) d (d.set loc (.file data mode)) := by
  constructor
  · intro loc' mode'
    rw [node?_set d h.ne_nil]
    split
    · next heq =>
        subst heq
        exact iff_of_false (by rintro ⟨⟩) (h.not_dir mode')
    · exact Iff.rfl
  · intro loc' hne
    rw [node?_set d h.ne_nil, if_neg hne]

theorem Kept.mayPut_iff {S : Location → Prop} {d d' : Disk} (h : Kept S d d') {loc : Location}
    (hloc : ¬ S loc) : d'.MayPut loc ↔ d.MayPut loc := by
  unfold MayPut
  rw [h.off loc hloc]
  split
  · exact Iff.rfl
  · exact Iff.rfl
  · exact h.mayChangeAround_iff

/-- A file that is there can be written, or the right to do so is missing. -/
theorem denied_of_put_file {d : Disk} {loc : Location} {data : Bytes} {m mode : Nat}
    {content : Bytes → Bytes} {c : Cause} (hfile : d.node? loc = some (.file data m))
    (h : d.put loc mode content = .error c) : c = .denied := by
  unfold put at h
  rw [hfile] at h
  dsimp only at h
  split_ifs at h
  cases h
  rfl

end Disk

end Cascade
