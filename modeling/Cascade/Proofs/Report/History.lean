import Cascade.Proofs.Report.Closing

/-!
# What a report keeps

A report is given data and copies of files, until a later call takes the name of one of
them. What it has kept when it is closed is in the archive, with the content it was given,
and the directories of the copies are gone. A copy whose name was taken is lost, and its
directory stays.
-/

namespace Cascade

namespace Machine

variable {S : Location → Prop} {w w' : Machine} {place : Location} {path data : Bytes}

def tempPlace (w : Machine) : Location := Path.spot w.place (w.temp ++ [Path.slash])

theorem Vacant.dropLast_eq (h : w.Vacant place) : place.dropLast = w.tempPlace := by
  obtain ⟨n, hname⟩ := h.named
  have hplace : place = w.tempPlace ++ [copyDirName n] := by
    rw [Disk.locate_eq_ok_spot h.spot, hname,
      Path.spot_append_name _ _ (slash_notMem_copyDirName _)]
    exact Path.follow_name _ (isName_copyDirName _)
  rw [hplace, List.dropLast_concat]

/-- Nothing that is there stands below a new directory. -/
theorem Vacant.not_above (h : w.Vacant place) (htree : w.disk.IsTree) {loc : Location}
    {n : FileNode} (hnode : w.disk.node? loc = some n) : ¬ place <+: loc := by
  intro hbelow
  rw [htree.node?_below h.vacant hbelow] at hnode
  cases hnode

/-- A file that can be read in the machine with a new directory could be read before. -/
theorem load_of_withDir (h : w.Vacant place) (htree : w.disk.IsTree) {size : Nat}
    (hstat : w.stat path = .ok (.file size)) (hload : (w.withDir place).load path = .ok data) :
    w.load path = .ok data := by
  have hgrown : Grown (fun _ => False) w (w.withDir place) := ⟨rfl, h.grown htree⟩
  obtain ⟨loc, mode, hloc, hnode, hmay⟩ := load_eq_ok_iff.mp hload
  obtain ⟨old, oldMode, hfind⟩ :
      ∃ old oldMode, w.disk.find w.place path = .ok (.file old oldMode) := by
    unfold Machine.stat status at hstat
    split at hstat
    · next old oldMode hfind => exact ⟨old, oldMode, hfind⟩
    · cases hstat
    · cases hstat
  obtain ⟨loc', hloc', hnode'⟩ := Disk.find_eq_ok_iff.mp hfind
  obtain rfl : loc' = loc := Except.ok.inj ((hgrown.denotes hloc').symm.trans hloc)
  have hsame := (hgrown.disk.files loc' data mode not_false (htree loc' _ hnode')).mp hnode
  exact load_eq_ok_iff.mpr ⟨loc', mode, hloc', hsame, hmay⟩

end Machine

namespace Report

open Machine

/-! ## Calls -/

/-- What a report has been given: data, or a copy and the place of its directory. -/
structure Deposit where
  name : Bytes
  content : Bytes
  place : Option Location
deriving DecidableEq

/-- Files may change in any way, but for the archive, the copies and the way to them. -/
structure Untouched (file : Bytes) (ds : List Deposit) (w w' : Machine) : Prop where
  dir : w'.dir = w.dir
  temp : w'.temp = w.temp
  tree : w'.disk.IsTree
  archive : w'.disk.node? (w.placeOf file) = w.disk.node? (w.placeOf file)
  way : ∀ loc, loc <+: w.place → w'.disk.node? loc = w.disk.node? loc
  copies : ∀ d ∈ ds, ∀ place, d.place = some place → ∀ loc, loc <+: place ∨ place <+: loc →
    w'.disk.node? loc = w.disk.node? loc

/-- A report with its archive at `file`, and what has been done with it: the deposits that
have their names still, and those whose names a later call has taken. -/
inductive History (file : Bytes) : List Deposit → List Deposit → Report → Machine → Prop
  | created {path : Bytes} {r : Report} {w₀ w : Machine} {mode : Nat} :
      (create path : StateM Machine _).run w₀ = (.ok r, w) → r.file = some file →
      w.disk.IsTree → w.disk.IsDir w.place → w.disk.node? (w.placeOf file) = some (.file [] mode) →
      History file [] [] r w
  | changed {kept lost : List Deposit} {r : Report} {w w' : Machine} :
      History file kept lost r w → Untouched file (kept ++ lost) w w' → History file kept lost r w'
  | stored {kept lost : List Deposit} {r r' : Report} {w w' : Machine} {name path : Bytes} :
      History file kept lost r w → (r.store name path : StateM Machine _).run w = (.ok r', w') →
      History file (kept.filter fun d => d.name ≠ name)
        (lost ++ kept.filter fun d => d.name = name) r' w'
  | storedData {kept lost : List Deposit} {r r' : Report} {w w' : Machine} {name data : Bytes} :
      History file kept lost r w → (r.storeData name data : StateM Machine _).run w = (.ok r', w') →
      History file (⟨name, data, none⟩ :: kept) lost r' w'
  | copied {kept lost : List Deposit} {r r' : Report} {w w' : Machine}
      {name taken path data : Bytes} {place : Location} :
      History file kept lost r w → w.load (Path.absolute w.dir path) = .ok data →
      (r.storeCopy name path : StateM Machine _).run w = (.ok r', w') →
      taken = r.copyName name w.now.1.nanos → w.Denotes w.copyDir place →
      History file (⟨taken, data, some place⟩ :: kept.filter fun d => d.name ≠ taken)
        (lost ++ kept.filter fun d => d.name = taken) r' w'

/-! ## Copies -/

/-- The item stands for a copy in the directory at `place`. -/
structure IsCopy (w : Machine) (s : Stored) (place : Location) (content : Bytes) : Prop where
  data : s.data = []
  copy : s.copy = true
  path : ∃ dir name, dir ≠ [] ∧ Path.normal dir ≠ [] ∧ Path.IsName name ∧ Path.slash ∉ name ∧
    s.actual = Path.clean (dir ++ Path.slash :: name) ∧ w.Denotes s.actual (place ++ [name]) ∧
    w.disk.node? (place ++ [name]) = some (.file content Disk.fileMode)

namespace IsCopy

variable {w w' : Machine} {s : Stored} {place : Location} {content : Bytes}

theorem contentOf_eq (h : IsCopy w s place content) : contentOf w s = .ok (some content) := by
  obtain ⟨dir, name, _, _, _, _, _, hdenotes, hnode⟩ := h.path
  have hfind : w.disk.find w.place s.actual = .ok (.file content Disk.fileMode) :=
    Disk.find_eq_ok_iff.mpr ⟨_, hdenotes, hnode⟩
  have hload : w.load s.actual = .ok content :=
    load_eq_ok_iff.mpr ⟨_, _, hdenotes, hnode, by decide⟩
  have hstat : w.stat s.actual = .ok (.file content.length) := by
    unfold Machine.stat
    rw [hfind]
    rfl
  unfold contentOf
  rw [h.data, hstat, hload]
  rfl

theorem parent_eq (h : IsCopy w s place content) :
    ∃ dir, Path.normal dir ≠ [] ∧ Path.parent s.actual = Path.clean dir ∧
      w.Denotes (Path.clean dir) place := by
  obtain ⟨dir, name, hne, hdir, hname, hslash, hactual, hdenotes, _⟩ := h.path
  have hclean := Path.clean_append_name hdir hne hname hslash
  rw [hactual, hclean] at hdenotes
  refine ⟨dir, hdir, ?_, Disk.locate_of_append_name (Path.clean_ne_nil dir) hname hslash hdenotes⟩
  rw [hactual, hclean, Path.parent_append_name _ hslash, Path.clean_clean_append_slash]

theorem homeOf_eq (h : IsCopy w s place content) : homeOf w s = place := by
  obtain ⟨dir, _, hparent, hdenotes⟩ := h.parent_eq
  unfold homeOf
  rw [hparent, ← Disk.locate_eq_ok_spot hdenotes]

/-- A copy is there as long as nothing happens to its directory and to the way to it. -/
theorem congr (h : IsCopy w s place content) (hdir : w'.dir = w.dir)
    (hway : ∀ loc, loc <+: w.place ∨ loc <+: place → w'.disk.node? loc = w.disk.node? loc)
    (hbelow : ∀ loc, place <+: loc → w'.disk.node? loc = w.disk.node? loc) :
    IsCopy w' s place content := by
  obtain ⟨dir, name, hne, hnormal, hname, hslash, hactual, hdenotes, hnode⟩ := h.path
  have hnormal' := Path.normal_append_name_ne_nil dir hname hslash
  refine ⟨h.data, h.copy, dir, name, hne, hnormal, hname, hslash, hactual, ?_, ?_⟩
  · unfold Machine.Denotes at hdenotes ⊢
    rw [place_congr hdir]
    rw [hactual] at hdenotes ⊢
    refine Disk.locate_clean_congr hnormal' hdenotes ?_
    intro loc mode hloc hmode
    rw [List.dropLast_concat] at hloc
    rw [hway loc hloc, hmode]
  · rw [hbelow _ (List.prefix_append place [name]), hnode]

end IsCopy

theorem IsCopy.grown {w w' : Machine} {s : Stored} {place : Location} {content : Bytes}
    (h : IsCopy w s place content) (hgrown : Machine.Grown (fun _ => False) w w')
    (hplace : w.disk.IsDir place) : IsCopy w' s place content := by
  obtain ⟨dir, name, hne, hnormal, hname, hslash, hactual, hdenotes, hnode⟩ := h.path
  refine ⟨h.data, h.copy, dir, name, hne, hnormal, hname, hslash, hactual,
    hgrown.denotes hdenotes, ?_⟩
  refine (hgrown.disk.files _ _ _ not_false ?_).mpr hnode
  rw [List.dropLast_concat]
  exact hplace

/-- A file that was put into its new directory is a copy. -/
theorem isCopy_withCopy {w : Machine} {s : Stored} {place : Location} {name data : Bytes}
    (htree : w.disk.IsTree) (hplace : w.Vacant place) (hname : Path.IsName name)
    (hslash : Path.slash ∉ name)
    (hmay : (w.withDir place).disk.Writable w.place (Path.join w.copyDir name) (place ++ [name]))
    (hdata : s.data = []) (hcopy : s.copy = true) (hactual : s.actual = Path.join w.copyDir name) :
    IsCopy (w.withCopy place name data) s place data := by
  obtain ⟨n, hdir⟩ := hplace.named
  have hne : w.copyDir ≠ [] := by
    rw [hdir]
    exact List.append_ne_nil_of_right_ne_nil _ (List.cons_ne_nil _ _)
  have hnormal : Path.normal w.copyDir ≠ [] := by
    rw [hdir]
    exact Path.normal_append_name_ne_nil w.temp (isName_copyDirName _) (slash_notMem_copyDirName _)
  have hjoin : Path.join w.copyDir name = Path.clean (w.copyDir ++ Path.slash :: name) := by
    unfold Path.join
    rw [if_neg (by simpa using hne), if_neg (by simpa using hname.1)]
  have hgrown : (w.withDir place).disk.Grown (fun _ => True) (w.withCopy place name data).disk :=
    (Disk.Grown.refl _ (hplace.grown (S := fun _ => False) htree).tree).set_file hmay
      (Or.inl trivial) _ _
  refine ⟨hdata, hcopy, w.copyDir, name, hne, hnormal, hname, hslash, hactual.trans hjoin, ?_, ?_⟩
  · rw [hactual]
    exact hgrown.locate_eq_ok (Disk.target_eq_ok_iff.mp hmay.1).2
  · unfold withCopy
    rw [Disk.node?_set _ hmay.2.ne_nil, if_pos rfl]

theorem eq_of_put {r r' : Report} {name : Bytes} {s : Stored} (h : r.put name s = .ok r') :
    r' = { r with items := r.items.insert name s } := by
  unfold put at h
  split at h
  · exact (Except.ok.inj h).symm
  · cases h

theorem node?_withCopy_self {w : Machine} {place : Location} (hplace : w.Vacant place)
    (name data : Bytes) :
    (w.withCopy place name data).disk.node? place = some (.dir Disk.privateDirMode) := by
  unfold withCopy withDir
  rw [Disk.node?_set _ (by simp), if_neg (by simp), Disk.node?_set _ hplace.ne_nil, if_pos rfl]

/-- Nothing but the new directory and the copy in it is there that was not there before. -/
theorem node?_withCopy {w : Machine} {place loc : Location} (hplace : w.Vacant place) (name data : Bytes)
    (hloc : ¬ place <+: loc) : (w.withCopy place name data).disk.node? loc = w.disk.node? loc := by
  unfold withCopy withDir
  rw [Disk.node?_set _ (by simp), if_neg, Disk.node?_set _ hplace.ne_nil, if_neg]
  · rintro rfl
    exact hloc List.prefix_rfl
  · rintro rfl
    exact hloc (List.prefix_append _ _)

/-- The directory of a copy is private and holds the copy only, so it can be removed. -/
theorem loose_withCopy {w : Machine} {place : Location} (htree : w.disk.IsTree)
    (hplace : w.Vacant place) (name data : Bytes) :
    (w.withCopy place name data).disk.Loose place := by
  have hdir := node?_withCopy_self hplace name data
  intro hlist loc n hnode hbelow
  unfold Disk.mayTake
  by_cases hself : loc = place
  · have haround : (w.withCopy place name data).disk.mayChangeAround place = true := by
      unfold Disk.mayChangeAround
      rw [node?_withCopy hplace name data (Disk.not_prefix_dropLast hplace.ne_nil)]
      exact hplace.open_around
    rw [hself, haround]
    simp
  · have hcopy : loc = place ++ [name] := by
      by_contra hother
      unfold withCopy withDir at hnode
      rw [Disk.node?_set _ (by simp), if_neg hother, Disk.node?_set _ hplace.ne_nil, if_neg hself,
        htree.node?_below hplace.vacant hbelow] at hnode
      cases hnode
    have haround : (w.withCopy place name data).disk.mayChangeAround (place ++ [name]) = true := by
      refine Disk.mayChangeAround_iff.mpr ⟨Disk.privateDirMode, ?_, by decide⟩
      rw [List.dropLast_concat, hdir]
    have hprivate : (w.withCopy place name data).disk.mayList place = true := by
      unfold Disk.mayList
      rw [hdir]
      decide
    rw [hcopy, haround, hlist, List.drop_left]
    unfold Disk.mayDescend Disk.mayDescend
    rw [hprivate]
    simp

/-- A copy that the report has taken has the content of the file, and is in a new directory. -/
theorem storeCopy_ok {r r' : Report} {name path : Bytes} {w w' : Machine} (htree : w.disk.IsTree)
    (h : (r.storeCopy name path : StateM Machine _).run w = (.ok r', w')) :
    ∃ data place s, w.load (Path.absolute w.dir path) = .ok data ∧ w.Vacant place ∧
      r' = { r with items := r.items.insert (r.copyName name w.now.1.nanos) s } ∧
      IsCopy w' s place data ∧ Machine.Grown (fun _ => False) w w' ∧ w'.temp = w.temp ∧
      w'.disk.IsDir place ∧ w'.disk.Loose place ∧
      (∀ loc, ¬ place <+: loc → w'.disk.node? loc = w.disk.node? loc) ∧
      s = ⟨path, Path.join w.copyDir (Path.base (Path.absolute w.dir path)), some w.now.1.date, [],
        true⟩ := by
  rcases storeCopy_cases htree h with ⟨⟨e, herror⟩, _⟩ | ⟨copied, hcopying, ⟨size, hstat⟩, hres⟩
  · cases herror
  · have hgrown : Machine.Grown (fun _ => False) w w' := .of_copying htree hcopying
    cases hcopying with
    | refused e n => cases hres
    | undone e hplace => cases hres
    | @done place data hplace hload hname hslash hmay =>
        let s : Stored := ⟨path, Path.join w.copyDir (Path.base (Path.absolute w.dir path)),
          some w.now.1.date, [], true⟩
        refine ⟨data, place, s, load_of_withDir hplace htree hstat hload, hplace, ?_,
          isCopy_withCopy htree hplace hname hslash hmay rfl rfl rfl, hgrown, rfl,
          ⟨_, node?_withCopy_self hplace _ _⟩, loose_withCopy htree hplace _ _,
          fun loc => node?_withCopy hplace _ _, rfl⟩
        dsimp only at hres
        split at hres
        · cases hres
        · next hput =>
            cases hres
            exact eq_of_put hput

/-! ## What the calls keep -/

def Stands (w : Machine) (s : Stored) (d : Deposit) : Prop :=
  match d.place with
  | none => s.data = d.content ∧ s.actual = [] ∧ s.copy = false
  | some place => IsCopy w s place d.content

theorem Stands.mono {w w' : Machine} {s : Stored} {d : Deposit} (h : Stands w s d)
    (hcopy : ∀ place, d.place = some place →
      IsCopy w s place d.content → IsCopy w' s place d.content) : Stands w' s d := by
  unfold Stands at h ⊢
  split
  · next hnone =>
      rw [hnone] at h
      exact h
  · next place hsome =>
      rw [hsome] at h
      exact hcopy place hsome h

/-- The place of a directory that is made for the report, away from everything else. -/
structure Aside (file : Bytes) (w : Machine) (place : Location) : Prop where
  ne_nil : place ≠ []
  temp : place.dropLast = w.tempPlace
  not_archive : ¬ place <+: w.placeOf file
  not_above : ¬ place <+: w.place

namespace Aside

variable {file : Bytes} {w w' : Machine} {place place' : Location}

theorem congr (h : Aside file w place) (hdir : w'.dir = w.dir) (htemp : w'.temp = w.temp) :
    Aside file w' place := by
  refine ⟨h.ne_nil, ?_, ?_, ?_⟩
  · unfold tempPlace
    rw [place_congr hdir, htemp]
    exact h.temp
  · rw [placeOf_congr hdir]
    exact h.not_archive
  · rw [place_congr hdir]
    exact h.not_above

/-- Such directories stand side by side. -/
theorem eq_of_below (h : Aside file w place) (h' : Aside file w place')
    (hbelow : place <+: place') : place = place' :=
  Disk.eq_of_siblings h.ne_nil h'.ne_nil (h.temp.trans h'.temp.symm) hbelow List.prefix_rfl

/-- Nothing of one such directory, nor the one around it, is below another that is still new. -/
theorem not_below (h : Aside file w place) (h' : Aside file w place') (hdir : w.disk.IsDir place')
    (hvacant : w.disk.node? place = none) {loc : Location}
    (hloc : loc = place'.dropLast ∨ place' <+: loc) : ¬ place <+: loc := by
  intro hbelow
  have hsiblings := h.temp.trans h'.temp.symm
  rcases hloc with rfl | hbelow'
  · rw [← hsiblings] at hbelow
    exact Disk.not_prefix_dropLast h.ne_nil hbelow
  · obtain ⟨mode, hmode⟩ := hdir
    rw [← Disk.eq_of_siblings h.ne_nil h'.ne_nil hsiblings hbelow hbelow', hvacant] at hmode
    cases hmode

theorem of_vacant {n : FileNode} (htree : w.disk.IsTree) (hcwd : w.disk.IsDir w.place)
    (harchive : w.disk.node? (w.placeOf file) = some n) (hplace : w.Vacant place) :
    Aside file w place := by
  obtain ⟨mode, hmode⟩ := hcwd
  exact ⟨hplace.ne_nil, hplace.dropLast_eq, hplace.not_above htree harchive,
    hplace.not_above htree hmode⟩

end Aside

/-- When a name is taken, no deposit is forgotten. -/
theorem perm_taken (kept lost : List Deposit) (taken : Bytes) :
    List.Perm ((kept.filter fun d => d.name ≠ taken) ++
      (lost ++ kept.filter fun d => d.name = taken)) (kept ++ lost) := by
  have hnot : (fun d : Deposit => !decide (d.name ≠ taken)) = fun d => decide (d.name = taken) := by
    funext d
    simp
  have hsplit := List.filter_append_perm (fun d : Deposit => decide (d.name ≠ taken)) kept
  rw [hnot] at hsplit
  refine (List.perm_append_comm.append_left _).trans ?_
  rw [← List.append_assoc]
  exact hsplit.append_right lost

/-- A deposit at a new place is apart from those that were there. -/
theorem nodup_places {new : Option Deposit} {ds : List Deposit}
    (hds : (ds.filterMap Deposit.place).Nodup)
    (hnew : ∀ d ∈ new, ∀ place, d.place = some place → ∀ d' ∈ ds, d'.place ≠ some place) :
    ((new.toList ++ ds).filterMap Deposit.place).Nodup := by
  cases new with
  | none => exact hds
  | some d =>
      rw [Option.toList_some, List.singleton_append, List.filterMap_cons]
      split
      · exact hds
      · next place hplace =>
          refine List.nodup_cons.mpr ⟨?_, hds⟩
          intro hmem
          obtain ⟨d', hd', hplace'⟩ := List.mem_filterMap.mp hmem
          exact hnew d rfl place hplace d' hd' hplace'

structure Keeps (file : Bytes) (kept lost : List Deposit) (r : Report) (w : Machine) : Prop where
  tree : w.disk.IsTree
  cwd : w.disk.IsDir w.place
  named : r.file = some file
  opened : r.closed = false
  archive : ∃ mode, w.disk.node? (w.placeOf file) = some (.file [] mode)
  keys : r.items.keys.Nodup
  stands : ∀ d ∈ kept, ∃ s, r.items.get? d.name = some s ∧ Stands w s d
  made : ∀ name s, r.items.get? name = some s → s.copy = true →
    ∃ d ∈ kept, d.name = name ∧ ∃ place, d.place = some place
  dirs : ∀ d ∈ kept ++ lost, ∀ place, d.place = some place → w.disk.IsDir place
  aside : ∀ d ∈ kept ++ lost, ∀ place, d.place = some place → Aside file w place
  loose : ∀ d ∈ kept ++ lost, ∀ place, d.place = some place → w.disk.Loose place
  distinct : ((kept ++ lost).filterMap Deposit.place).Nodup

namespace Keeps

variable {file : Bytes} {kept lost : List Deposit} {r r' : Report} {w w' : Machine}
  {name path data : Bytes}

theorem created {mode : Nat} {w₀ : Machine}
    (h : (create path : StateM Machine _).run w₀ = (.ok r, w)) (hfile : r.file = some file)
    (htree : w.disk.IsTree) (hcwd : w.disk.IsDir w.place)
    (harchive : w.disk.node? (w.placeOf file) = some (.file [] mode)) : Keeps file [] [] r w := by
  obtain ⟨_, rfl⟩ := create_ok h
  exact {
    tree := htree
    cwd := hcwd
    named := hfile
    opened := rfl
    archive := ⟨mode, harchive⟩
    keys := List.nodup_nil
    stands := fun d hd => absurd hd List.not_mem_nil
    made := fun name s hget => nomatch hget
    dirs := fun d hd => absurd hd List.not_mem_nil
    aside := fun d hd => absurd hd List.not_mem_nil
    loose := fun d hd => absurd hd List.not_mem_nil
    distinct := List.nodup_nil }

/-- Whatever else changes, the deposits are kept. -/
theorem changed (h : Keeps file kept lost r w) (hsame : Untouched file (kept ++ lost) w w') :
    Keeps file kept lost r w' := by
  refine { h with
    tree := hsame.tree
    cwd := ?_
    archive := ?_
    stands := ?_
    dirs := ?_
    aside := ?_
    loose := ?_ }
  · obtain ⟨mode, hmode⟩ := h.cwd
    rw [place_congr hsame.dir]
    exact ⟨mode, (hsame.way _ List.prefix_rfl).trans hmode⟩
  · rw [placeOf_congr hsame.dir, hsame.archive]
    exact h.archive
  · intro d hd
    obtain ⟨s, hget, hs⟩ := h.stands d hd
    refine ⟨s, hget, hs.mono ?_⟩
    intro place hsome hcopy
    have hnode := hsame.copies d (List.mem_append_left _ hd) place hsome
    refine hcopy.congr hsame.dir ?_ fun loc hbelow => hnode loc (Or.inr hbelow)
    rintro loc (hloc | hloc)
    · exact hsame.way loc hloc
    · exact hnode loc (Or.inl hloc)
  · intro d hd place hsome
    obtain ⟨mode, hmode⟩ := h.dirs d hd place hsome
    refine ⟨mode, ?_⟩
    rw [hsame.copies d hd place hsome place (Or.inl List.prefix_rfl), hmode]
  · intro d hd place hsome
    exact (h.aside d hd place hsome).congr hsame.dir hsame.temp
  · intro d hd place hsome
    refine (h.loose d hd place hsome).congr fun loc hloc => hsame.copies d hd place hsome loc ?_
    rcases hloc with rfl | hbelow
    · exact Or.inl (List.dropLast_prefix place)
    · exact Or.inr hbelow

/-- Whatever comes under a name takes it from the deposit that had it. -/
theorem insert (h : Keeps file kept lost r w) (taken : Bytes) (s : Stored) (new : Option Deposit)
    (hgrown : Machine.Grown (fun _ => False) w w') (htemp : w'.temp = w.temp)
    (hname : ∀ d ∈ new, d.name = taken) (hstands : ∀ d ∈ new, Stands w' s d)
    (hvacant : ∀ d ∈ new, ∀ place, d.place = some place →
      w.Vacant place ∧ w'.disk.IsDir place ∧ w'.disk.Loose place)
    (hframe : ∀ loc, (∀ d ∈ new, ∀ place, d.place = some place → ¬ place <+: loc) →
      w'.disk.node? loc = w.disk.node? loc)
    (hmade : s.copy = true → ∃ d ∈ new, ∃ place, d.place = some place) :
    Keeps file (new.toList ++ kept.filter fun d => d.name ≠ taken)
      (lost ++ kept.filter fun d => d.name = taken)
      { r with items := r.items.insert taken s } w' := by
  have hperm := perm_taken kept lost taken
  obtain ⟨mode, hmode⟩ := h.archive
  refine { h with
    tree := hgrown.disk.tree
    cwd := ?_
    archive := ?_
    keys := Dict.nodup_keys_insert h.keys taken s
    stands := ?_
    made := ?_
    dirs := ?_
    aside := ?_
    loose := ?_
    distinct := ?_ }
  · rw [hgrown.place_eq]
    exact hgrown.disk.isDir h.cwd
  · rw [placeOf_congr hgrown.dir]
    exact ⟨mode, (hgrown.disk.files _ _ _ not_false (h.tree _ _ hmode)).mpr hmode⟩
  · intro d hd
    rcases List.mem_append.mp hd with hd | hd
    · have hd := Option.mem_toList.mp hd
      refine ⟨s, ?_, hstands d hd⟩
      rw [hname d hd]
      exact Dict.get?_insert_self _ _ _
    · obtain ⟨hd, hne⟩ := List.mem_filter.mp hd
      obtain ⟨s', hget, hs'⟩ := h.stands d hd
      refine ⟨s', ?_, hs'.mono ?_⟩
      · exact (Dict.get?_insert_of_ne _ _ (of_decide_eq_true hne)).trans hget
      · intro place hsome hcopy
        exact hcopy.grown hgrown (h.dirs d (List.mem_append_left _ hd) place hsome)
  · intro name s' hget hcopy
    by_cases hsame : name = taken
    · rw [hsame, Dict.get?_insert_self] at hget
      cases hget
      obtain ⟨d, hd, hplace⟩ := hmade hcopy
      refine ⟨d, List.mem_append_left _ (Option.mem_toList.mpr hd), ?_, hplace⟩
      rw [hname d hd, hsame]
    · have hget := (Dict.get?_insert_of_ne r.items s hsame).symm.trans hget
      obtain ⟨d, hd, hd', hplace⟩ := h.made name s' hget hcopy
      refine ⟨d, List.mem_append_right _ (List.mem_filter.mpr ⟨hd, ?_⟩), hd', hplace⟩
      exact decide_eq_true (hd' ▸ hsame)
  · intro d hd place hplace
    rw [List.append_assoc, List.mem_append, hperm.mem_iff] at hd
    rcases hd with hd | hd
    · exact (hvacant d (Option.mem_toList.mp hd) place hplace).2.1
    · exact hgrown.disk.isDir (h.dirs d hd place hplace)
  · intro d hd place hplace
    rw [List.append_assoc, List.mem_append, hperm.mem_iff] at hd
    refine Aside.congr ?_ hgrown.dir htemp
    rcases hd with hd | hd
    · exact .of_vacant h.tree h.cwd hmode (hvacant d (Option.mem_toList.mp hd) place hplace).1
    · exact h.aside d hd place hplace
  · intro d hd place hplace
    rw [List.append_assoc, List.mem_append, hperm.mem_iff] at hd
    rcases hd with hd | hd
    · exact (hvacant d (Option.mem_toList.mp hd) place hplace).2.2
    · -- a new directory stands beside this one, and nothing in it is below this one
      refine (h.loose d hd place hplace).congr fun loc hloc => hframe loc ?_
      intro d' hd' place' hplace' hbelow
      have hvacant' := (hvacant d' hd' place' hplace').1
      have haside' : Aside file w place' := .of_vacant h.tree h.cwd hmode hvacant'
      exact haside'.not_below (h.aside d hd place hplace) (h.dirs d hd place hplace)
        hvacant'.vacant hloc hbelow
  · -- The directories of the other deposits were there, so the new one is none of them.
    rw [List.append_assoc]
    refine nodup_places ((hperm.filterMap Deposit.place).nodup_iff.mpr h.distinct) ?_
    intro d hd place hplace d' hd' hplace'
    obtain ⟨m, hm⟩ := h.dirs d' (hperm.mem_iff.mp hd') place hplace'
    rw [(hvacant d hd place hplace).1.vacant] at hm
    cases hm

theorem now (h : Keeps file kept lost r w) : Keeps file kept lost r w.now.2 :=
  h.changed ⟨rfl, rfl, h.tree, rfl, fun _ _ => rfl, fun _ _ _ _ _ _ => rfl⟩

theorem stored (h : Keeps file kept lost r w)
    (hrun : (r.store name path : StateM Machine _).run w = (.ok r', w')) :
    Keeps file (kept.filter fun d => d.name ≠ name)
      (lost ++ kept.filter fun d => d.name = name) r' w' := by
  obtain ⟨hadd, rfl⟩ := Prod.mk.inj hrun
  have hadd : r.addFile w.dir name path = .ok r' := hadd
  have hput : r.put name ⟨path, Path.absolute w.dir path, none, [], false⟩ = .ok r' := by
    unfold addFile at hadd
    split at hadd
    · split at hadd
      · exact hadd
      · cases hadd
    · exact hadd
  obtain rfl := eq_of_put hput
  exact h.insert name _ none (.refl _ h.tree) rfl nofun nofun nofun (fun _ _ => rfl) nofun

/-- Data comes under a new name only, and takes nothing away. -/
theorem storedData (h : Keeps file kept lost r w)
    (hrun : (r.storeData name data : StateM Machine _).run w = (.ok r', w')) :
    Keeps file (⟨name, data, none⟩ :: kept) lost r' w' := by
  obtain ⟨hadd, rfl⟩ := Prod.mk.inj hrun
  have hadd : r.addData w.now.1.date name data = .ok r' := hadd
  unfold addData at hadd
  split at hadd
  · cases hadd
  · next hnew =>
      obtain rfl := eq_of_put hadd
      have hfree : ∀ d ∈ kept, d.name ≠ name := by
        intro d hd heq
        obtain ⟨s, hget, _⟩ := h.stands d hd
        refine hnew ?_
        unfold Dict.contains
        rw [← heq, hget]
        rfl
      have hkeep : (kept.filter fun d => d.name ≠ name) = kept :=
        List.filter_eq_self.mpr fun d hd => decide_eq_true (hfree d hd)
      have hnone : (kept.filter fun d => d.name = name) = [] :=
        List.filter_eq_nil_iff.mpr fun d hd => by simpa using hfree d hd
      have hgrown : Machine.Grown (fun _ => False) w w.now.2 := ⟨rfl, .refl _ h.tree⟩
      have hkeeps := h.insert name ⟨[], [], some w.now.1.date, data, false⟩
        (some ⟨name, data, none⟩) hgrown rfl ?_ ?_ ?_ (fun _ _ => rfl) ?_
      · rw [hkeep, hnone, List.append_nil] at hkeeps
        exact hkeeps
      · rintro _ ⟨⟩
        rfl
      · rintro _ ⟨⟩
        exact ⟨rfl, rfl, rfl⟩
      · rintro _ ⟨⟩ place ⟨⟩
      · nofun

theorem copied {taken : Bytes} {place : Location} (h : Keeps file kept lost r w)
    (hload : w.load (Path.absolute w.dir path) = .ok data)
    (hrun : (r.storeCopy name path : StateM Machine _).run w = (.ok r', w'))
    (htaken : taken = r.copyName name w.now.1.nanos) (hplace : w.Denotes w.copyDir place) :
    Keeps file (⟨taken, data, some place⟩ :: kept.filter fun d => d.name ≠ taken)
      (lost ++ kept.filter fun d => d.name = taken) r' w' := by
  obtain ⟨data', place', s, hload', hvacant, rfl, hcopy, hgrown, htemp, hdir, hloose, hframe, _⟩ :=
    storeCopy_ok h.tree hrun
  obtain rfl : data' = data := Except.ok.inj (hload'.symm.trans hload)
  obtain rfl : place' = place := Except.ok.inj (hvacant.spot.symm.trans hplace)
  rw [← htaken]
  refine h.insert taken s (some ⟨taken, data', some place'⟩) hgrown htemp ?_ ?_ ?_ ?_ ?_
  · rintro _ ⟨⟩
    rfl
  · rintro _ ⟨⟩
    exact hcopy
  · rintro _ ⟨⟩ _ ⟨⟩
    exact ⟨hvacant, hdir, hloose⟩
  · exact fun loc hloc => hframe loc (hloc _ rfl place' rfl)
  · intro _
    exact ⟨_, rfl, place', rfl⟩

theorem of_history (h : History file kept lost r w) : Keeps file kept lost r w := by
  induction h with
  | created hcreate hfile htree hcwd harchive => exact created hcreate hfile htree hcwd harchive
  | changed _ hsame ih => exact ih.changed hsame
  | stored _ hrun ih => exact ih.stored hrun
  | storedData _ hrun ih => exact ih.storedData hrun
  | copied _ hload hrun htaken hplace ih => exact ih.copied hload hrun htaken hplace

theorem isCopy (h : Keeps file kept lost r w) {d : Deposit} (hd : d ∈ kept) {place : Location}
    (hplace : d.place = some place) :
    ∃ s, r.items.get? d.name = some s ∧ IsCopy w s place d.content := by
  obtain ⟨s, hget, hs⟩ := h.stands d hd
  unfold Stands at hs
  rw [hplace] at hs
  exact ⟨s, hget, hs⟩

theorem removable (h : Keeps file kept lost r w) {s : Stored}
    (hs : s ∈ r.items.values.filter fun s => s.copy) :
    Removable w.tempPlace w s ∧ ∃ d ∈ kept, d.place = some (homeOf w s) := by
  obtain ⟨hmem, hcopy⟩ := List.mem_filter.mp hs
  obtain ⟨p, hp, rfl⟩ := List.mem_map.mp hmem
  have hget := Dict.get?_of_mem h.keys hp
  obtain ⟨d, hd, hname, place, hplace⟩ := h.made p.1 p.2 hget hcopy
  obtain ⟨s, hget', hs⟩ := h.isCopy hd hplace
  rw [hname, hget] at hget'
  cases hget'
  have haside := h.aside d (List.mem_append_left _ hd) place hplace
  obtain ⟨dir, hnormal, hparent, hdenotes⟩ := hs.parent_eq
  have heq := hs.homeOf_eq
  refine ⟨⟨⟨dir, hnormal, hparent⟩, ?_, ?_, ?_, ?_⟩, d, hd, heq ▸ hplace⟩
  · rw [heq, hparent]
    exact hdenotes
  · exact heq ▸ haside.ne_nil
  · exact heq ▸ haside.temp
  · exact heq ▸ haside.not_above

theorem removable_patch (h : Keeps file kept lost r w) (data : Bytes) :
    ∀ s ∈ r.items.values.filter fun s => s.copy,
      Removable w.tempPlace (w.patch file data) s := by
  obtain ⟨mode, hmode⟩ := h.archive
  intro s hs
  refine (h.removable hs).1.congr rfl ?_
  intro loc m _ hm
  rw [node?_patch hmode, if_neg]
  · exact hm
  · rintro rfl
    cases hmode.symm.trans hm

/-- Closing the report removes nothing outside the directories of the copies it kept, and all in
them if nothing goes wrong. -/
theorem node?_swept_patch (h : Keeps file kept lost r w) (data : Bytes) (loc : Location) :
    let left := swept (w.patch file data) (r.items.values.filter fun s => s.copy)
    (left.1 = [] → (∃ d ∈ kept, ∃ place, d.place = some place ∧ place <+: loc) →
      left.2.disk.node? loc = none) ∧
    ((∀ d ∈ kept, ∀ place, d.place = some place → ¬ place <+: loc) →
      left.2.disk.node? loc = (w.patch file data).disk.node? loc) := by
  intro left
  obtain ⟨hgone, hstays⟩ := node?_swept (h.removable_patch data) loc
  constructor
  · rintro hsilent ⟨d, hd, place, hplace, hbelow⟩
    obtain ⟨s, hget, hs⟩ := h.isCopy hd hplace
    have hmem : s ∈ r.items.values := List.mem_map.mpr ⟨_, Dict.mem_of_get? hget, rfl⟩
    refine hgone hsilent ⟨s, List.mem_filter.mpr ⟨hmem, hs.copy⟩, ?_⟩
    have heq : homeOf (w.patch file data) s = place := hs.homeOf_eq
    rw [heq]
    exact hbelow
  · intro hnone
    refine hstays fun s hs => ?_
    obtain ⟨_, d, hd, hplace⟩ := h.removable hs
    exact hnone d hd _ hplace

/-- All copies are removed, if the temporary directory can be listed. -/
theorem swept_patch_silent (h : Keeps file kept lost r w)
    (hlist : w.disk.mayList w.tempPlace = true) (data : Bytes) :
    (swept (w.patch file data) (r.items.values.filter fun s => s.copy)).1 = [] := by
  obtain ⟨mode, hmode⟩ := h.archive
  have hnode := node?_patch hmode data
  refine swept_fst_eq_nil ?_ (h.removable_patch data) fun s hs => ?_
  · unfold Disk.mayList at hlist ⊢
    rw [hnode, if_neg]
    · exact hlist
    · intro heq
      rw [heq, hmode] at hlist
      cases hlist
  · obtain ⟨_, d, hd, hplace⟩ := h.removable hs
    have hd := List.mem_append_left lost hd
    show (w.patch file data).disk.Loose (homeOf w s)
    refine (h.loose d hd _ hplace).congr fun loc hloc => ?_
    rw [hnode, if_neg]
    rintro rfl
    rcases hloc with heq | hbelow
    · rw [heq, (h.aside d hd _ hplace).temp] at hmode
      unfold Disk.mayList at hlist
      rw [hmode] at hlist
      cases hlist
    · exact (h.aside d hd _ hplace).not_archive hbelow

/-- What the archive has for a deposit. Without content, data leaves no trace in it. -/
theorem mem_archive_iff (h : Keeps file kept lost r w) {d : Deposit} (hd : d ∈ kept)
    (date : Bytes) :
    ⟨d.name, d.content⟩ ∈ (⟨text "MANIFEST", r.manifest date⟩ : Member) ::
        r.sorted.filterMap (member? w) ↔ d.place.isSome ∨ d.content ≠ [] := by
  obtain ⟨s, hget, hs⟩ := h.stands d hd
  rw [List.mem_cons, mem_filterMap_member? h.keys hget]
  unfold Stands at hs
  split at hs
  · next hnone =>
      obtain ⟨hdata, hactual, _⟩ := hs
      rw [hnone]
      by_cases hempty : d.content = []
      · have hcontent : contentOf w s = .ok none := by
          unfold contentOf
          rw [hdata, hempty, hactual]
          rfl
        rw [hcontent, hempty]
        constructor
        · rintro (heq | hmem)
          · exact absurd (Member.mk.inj heq).2.symm (manifest_ne_nil hget date)
          · cases hmem
        · rintro (hsome | hne)
          · cases hsome
          · exact absurd rfl hne
      · have hcontent : contentOf w s = .ok (some d.content) := by
          unfold contentOf
          rw [hdata, if_neg (by simpa using hempty)]
        exact ⟨fun _ => Or.inr hempty, fun _ => Or.inr hcontent⟩
  · next place hsome =>
      rw [hsome]
      exact ⟨fun _ => Or.inl rfl, fun _ => Or.inr hs.contentOf_eq⟩

end Keeps

/-- Every copy that the report takes is a deposit, of what the file holds then. -/
theorem History.of_storeCopy {file name path : Bytes} {kept lost : List Deposit} {r r' : Report}
    {w w' : Machine} (h : History file kept lost r w)
    (hrun : (r.storeCopy name path : StateM Machine _).run w = (.ok r', w')) :
    ∃ data place taken, w.load (Path.absolute w.dir path) = .ok data ∧
      History file (⟨taken, data, some place⟩ :: kept.filter fun d => d.name ≠ taken)
        (lost ++ kept.filter fun d => d.name = taken) r' w' := by
  obtain ⟨data, place, _, hload, hvacant, _⟩ := storeCopy_ok (Keeps.of_history h).tree hrun
  exact ⟨data, place, _, hload, .copied h hload hrun rfl hvacant.spot⟩

/-! ## What is left -/

/-- A report that is closed without an error has the deposits that kept their names in its
archive, but for empty data. The directories of their copies are gone, and only those. -/
theorem close_keeps [Codecs] {file : Bytes} {kept lost : List Deposit} {r r' : Report} {w w' : Machine}
    (h : History file kept lost r w)
    (hclose : (r.close : StateM Machine _).run w = (([], r'), w')) :
    ∃ ms mode, w'.disk.node? (w'.placeOf file) = some (.file (Archive.encode ms) mode) ∧
      ((∀ x ∈ ms, x.content.length < 256 ^ 4) → Archive.decode? (Archive.encode ms) = some ms) ∧
      (∀ d ∈ kept, ⟨d.name, d.content⟩ ∈ ms ↔ d.place.isSome ∨ d.content ≠ []) ∧
      ∀ d ∈ kept ++ lost, ∀ place, d.place = some place →
        (w'.disk.node? place = none ↔ d ∈ kept) := by
  have hkeeps := Keeps.of_history h
  obtain ⟨ms, hms, hnames, hleft⟩ := close_ok hkeeps.named hkeeps.opened hclose
  obtain ⟨mode, hmode⟩ := hkeeps.archive
  have hpatched := node?_patch (w := w.now.2) hmode (Archive.encode ms)
  have hdir := dir_swept (w.now.2.patch file (Archive.encode ms))
    (r.items.values.filter fun s => s.copy)
  have hstays := hkeeps.now.node?_swept_patch (Archive.encode ms)
  rw [hleft] at hdir hstays
  refine ⟨ms, mode, ?_, ?_, ?_, ?_⟩
  · rw [show w'.placeOf file = w.placeOf file from placeOf_congr hdir file, (hstays _).2, hpatched]
    · exact if_pos rfl
    · intro d hd place hplace
      exact (hkeeps.aside d (List.mem_append_left _ hd) place hplace).not_archive
  · intro hsizes
    refine Archive.decode?_encode fun x hx => ⟨?_, hsizes x hx⟩
    exact Nat.lt_of_le_of_lt (hnames x hx) (by decide)
  · intro d hd
    rw [hms]
    exact hkeeps.mem_archive_iff hd _
  · intro d hd place hplace
    constructor
    · intro hgone
      by_contra hnot
      have hlost := (List.mem_append.mp hd).resolve_left hnot
      obtain ⟨m, hm⟩ := hkeeps.dirs d hd place hplace
      rw [(hstays place).2, hpatched, if_neg] at hgone
      · cases hm.symm.trans hgone
      · rintro rfl
        cases hmode.symm.trans hm
      · intro d' hd' place' hplace' hbelow
        have haside' := hkeeps.aside d' (List.mem_append_left _ hd') place' hplace'
        obtain rfl := haside'.eq_of_below (hkeeps.aside d hd place hplace) hbelow
        have hdistinct := hkeeps.distinct
        rw [List.filterMap_append] at hdistinct
        exact List.disjoint_of_nodup_append hdistinct
          (List.mem_filterMap.mpr ⟨d', hd', hplace'⟩) (List.mem_filterMap.mpr ⟨d, hlost, hplace⟩)
    · intro hkept
      exact (hstays place).1 rfl ⟨d, hkept, place, hplace, List.prefix_rfl⟩

section Samples

open scoped Codecs

/-- A machine with an empty archive, a file, and a copy that was made when the file had the
content `x`. -/
def sampleMachine (content : Bytes) : Machine :=
  ⟨⟨⟨[([text "s"], .dir 0o755), ([text "tmp"], .dir 0o755),
    ([text "s", text "f"], .file content 0o644), ([text "s", text "r.zip"], .file [] 0o644),
    ([text "tmp", text "cssdedup-r-3"], .dir 0o700),
    ([text "tmp", text "cssdedup-r-3", text "f"], .file (text "x") 0o644)]⟩⟩,
    text "/s", text "/tmp", ⟨[], none⟩, [], [], 3, [], [], [], []⟩

def sampleReport (s : Stored) : Report :=
  ⟨⟨[(text "n", ⟨[], [], some [], [], false⟩), (text "c", s)]⟩, some (text "r.zip"), false⟩

theorem sorted_sampleReport (s : Stored) :
    (sampleReport s).sorted = (sampleReport s).items.items.reverse := by
  have hle : ¬ Bytes.le (text "n") (text "c") := by decide
  simp [sorted, Dict.sorted, sampleReport, List.mergeSort, List.MergeSort.Internal.splitInTwo, hle]

theorem history_sample :
    History (text "r.zip") [⟨text "c", text "x", some [text "tmp", text "cssdedup-r-3"]⟩,
      ⟨text "n", [], none⟩] []
      (sampleReport ⟨text "f", text "/tmp/cssdedup-r-3/f", some [], [], true⟩)
      (sampleMachine (text "x")) := by
  let w : Machine := sampleMachine (text "x")
  let w₀ : Machine := { w with disk := ⟨⟨w.disk.nodes.items.take 3⟩⟩, ticks := 0 }
  let w₁ : Machine := { w with disk := ⟨⟨w.disk.nodes.items.take 4⟩⟩, ticks := 0 }
  let r₁ : Report := ⟨⟨[(text "n", ⟨[], [], some [], [], false⟩)]⟩, some (text "r.zip"), false⟩
  have hcreate : (create (text "r.zip") : StateM Machine _).run w₀ =
      (.ok (empty (some (text "r.zip"))), w₁) := rfl
  have harchive : w₁.disk.node? (w₁.placeOf (text "r.zip")) = some (.file [] 0o644) := by
    decide +kernel
  have hcreated := History.created hcreate rfl (by decide +kernel) (by decide +kernel) harchive
  have hstore : (storeData (empty (some (text "r.zip"))) (text "n") [] : StateM Machine _).run w₁ =
      (.ok r₁, w₁.now.2) := rfl
  have hcopy : (r₁.storeCopy (text "c") (text "f") : StateM Machine _).run w₁.now.2 =
      (.ok (sampleReport ⟨text "f", text "/tmp/cssdedup-r-3/f", some [], [], true⟩), w) :=
    Prod.ext (by decide +kernel) (by decide +kernel)
  exact .copied (.storedData hcreated hstore) (by decide +kernel) hcopy (by decide +kernel)
    (by decide +kernel)

theorem close_keeps_sample :
    let r := sampleReport ⟨text "f", text "/tmp/cssdedup-r-3/f", some [], [], true⟩
    let closed := (r.close : StateM Machine _).run (sampleMachine (text "x"))
    closed.1.1 = [] ∧
      (∃ ms, ⟨text "c", text "x"⟩ ∈ ms ∧ ⟨text "n", []⟩ ∉ ms ∧
        ∃ mode, closed.2.disk.node? (closed.2.placeOf (text "r.zip")) =
          some (.file (Archive.encode ms) mode)) ∧
      closed.2.disk.node? [text "tmp", text "cssdedup-r-3"] = none := by
  intro r closed
  have hclosed : closed.1.1 = [] := by
    show ((r.close : StateM Machine _).run (sampleMachine (text "x"))).1.1 = []
    unfold close outline manifest
    rw [sorted_sampleReport]
    decide +kernel
  have hrun : (r.close : StateM Machine _).run (sampleMachine (text "x")) =
      (([], closed.1.2), closed.2) := Prod.ext (Prod.ext hclosed rfl) rfl
  obtain ⟨ms, mode, hnode, _, hkept, hplaces⟩ := close_keeps history_sample hrun
  refine ⟨hclosed, ⟨ms, ?_, ?_, mode, hnode⟩, ?_⟩
  · exact (hkept _ List.mem_cons_self).mpr (Or.inl rfl)
  · rw [hkept _ (List.mem_cons_of_mem _ List.mem_cons_self)]
    decide
  · exact (hplaces _ List.mem_cons_self _ rfl).mpr List.mem_cons_self

/-- Empty data is not in the archive. A copy whose name is stored again is not there either,
and its directory stays. -/
theorem close_loses :
    let r := sampleReport ⟨text "f", text "/s/f", none, [], false⟩
    let w := sampleMachine (text "y")
    let closed := (r.close : StateM Machine _).run w
    History (text "r.zip") [⟨text "n", [], none⟩]
        [⟨text "c", text "x", some [text "tmp", text "cssdedup-r-3"]⟩] r w ∧
      closed.1.1 = [] ∧
      (closed.2.load (text "r.zip")).toOption.bind Archive.decode? =
        some [⟨text "MANIFEST", text "\tc\tf : /s/f\n\tn\t : \n"⟩, ⟨text "c", text "y"⟩] ∧
      closed.2.disk.IsDir [text "tmp", text "cssdedup-r-3"] := by
  intro r w closed
  have hnode : ∀ loc, loc ≠ [text "s", text "f"] →
      w.disk.node? loc = (sampleMachine (text "x")).disk.node? loc := by
    intro loc hloc
    have hset : (sampleMachine (text "x")).disk =
        w.disk.set [text "s", text "f"] (.file (text "x") 0o644) := by decide +kernel
    rw [hset, Disk.node?_set _ (by decide), if_neg hloc]
  have hchanged : Untouched (text "r.zip")
      [⟨text "c", text "x", some [text "tmp", text "cssdedup-r-3"]⟩, ⟨text "n", [], none⟩]
      (sampleMachine (text "x")) w := by
    refine ⟨rfl, rfl, by decide +kernel, hnode _ (by decide +kernel), ?_, ?_⟩
    · intro loc hloc
      refine hnode loc ?_
      rintro rfl
      exact absurd hloc (by decide +kernel)
    · intro d hd place hplace loc hloc
      refine hnode loc ?_
      rintro rfl
      rcases List.mem_cons.mp hd with rfl | hd
      · cases hplace
        exact absurd hloc (by decide +kernel)
      · cases List.mem_singleton.mp hd
        cases hplace
  have hstore : (store (sampleReport ⟨text "f", text "/tmp/cssdedup-r-3/f", some [], [], true⟩)
      (text "c") (text "f") : StateM Machine _).run w = (.ok r, w) := rfl
  have hclosed : closed = (r.close : StateM Machine _).run w := rfl
  unfold close outline manifest at hclosed
  rw [sorted_sampleReport] at hclosed
  rw [hclosed]
  refine ⟨.stored (.changed history_sample hchanged) hstore, ?_, ?_, ?_⟩ <;> decide +kernel

end Samples

end Report

end Cascade
