import Cascade.Proofs.Report.History
import Mathlib.Data.List.Sort

/-!
# What is written when a report is closed

The archive has the manifest first and then the items that contribute something, in the
order of their names. It goes on until an item stops it: a file that cannot be read, a
content under the name of a directory, or a name that is too long.
-/

namespace Cascade

namespace Machine

def IsFile (w : Machine) (path : Bytes) : Prop := ∃ size, w.stat path = .ok (.file size)

theorem isFile_iff {w : Machine} {path : Bytes} :
    w.IsFile path ↔ (w.stat path matches .ok (.file _)) = true := by
  unfold IsFile
  split
  · next size hstat => simp [hstat]
  · next hother => simpa using fun size hstat => hother size hstat

instance (w : Machine) (path : Bytes) : Decidable (w.IsFile path) := decidable_of_iff' _ isFile_iff

end Machine

namespace Report

open Machine

/-! ## The order of the items -/

theorem sorted_perm (r : Report) : r.sorted.Perm r.items.items := List.mergeSort_perm _ _

/-- The items stand in ascending order of their names, each name once. -/
theorem pairwise_sorted {r : Report} (hkeys : r.items.keys.Nodup) :
    r.sorted.Pairwise fun p q => p.1 < q.1 := by
  have hle : r.sorted.Pairwise fun p q => Bytes.le p.1 q.1 = true := by
    refine List.pairwise_mergeSort (fun p q s hpq hqs => ?_) (fun p q => ?_) _
    · exact Bytes.le_iff.mpr (List.le_trans (Bytes.le_iff.mp hpq) (Bytes.le_iff.mp hqs))
    · rw [Bool.or_eq_true, Bytes.le_iff, Bytes.le_iff]
      exact List.le_total p.1 q.1
  have hne : r.sorted.Pairwise fun p q => p.1 ≠ q.1 :=
    List.pairwise_map.mp ((r.sorted_perm.map Prod.fst).nodup_iff.mpr hkeys)
  refine (hle.and hne).imp fun h => ?_
  exact Std.lt_of_le_of_ne (Bytes.le_iff.mp h.1) h.2

theorem sorted_names_eq {r r' : Report} (hkeys : r.items.keys.Nodup) (hkeys' : r'.items.keys.Nodup)
    (hsame : ∀ name, name ∈ r.items.keys ↔ name ∈ r'.items.keys) :
    r.sorted.map Prod.fst = r'.sorted.map Prod.fst := by
  have hperm : (r.sorted.map Prod.fst).Perm (r'.sorted.map Prod.fst) :=
    ((r.sorted_perm.map _).trans ((List.perm_ext_iff_of_nodup hkeys hkeys').mpr hsame)).trans
      (r'.sorted_perm.map _).symm
  refine hperm.eq_of_pairwise ?_ (List.pairwise_map.mpr (pairwise_sorted hkeys))
    (List.pairwise_map.mpr (pairwise_sorted hkeys'))
  intro s t _ _ hst hts
  exact List.le_antisymm (List.le_of_lt hst) (List.le_of_lt hts)

/-! ## The manifest -/

def newline : UInt8 := 0x0A

def entryLine (date : Bytes) (p : Bytes × Stored) : Bytes :=
  (p.2.date.getD date) ++ text "\t" ++ p.1 ++ text "\t" ++ p.2.given ++ text " : " ++ p.2.actual

/-- The manifest has a line for every item, in the order of the items. -/
theorem manifest_eq (r : Report) (date : Bytes) :
    r.manifest date = r.sorted.flatMap fun p => entryLine date p ++ [newline] := rfl

theorem splitOn_manifest {r : Report} {date : Bytes}
    (hlines : ∀ p ∈ r.sorted, newline ∉ entryLine date p) :
    (r.manifest date).splitOn newline = r.sorted.map (entryLine date) ++ [[]] := by
  rw [manifest_eq]
  generalize r.sorted = items at hlines
  induction items with
  | nil => rfl
  | cons p items ih =>
      obtain ⟨hp, hrest⟩ := List.forall_mem_cons.mp hlines
      rw [List.flatMap_cons, List.append_assoc, List.singleton_append,
        List.splitOn_append_cons_self_of_not_mem hp, ih hrest, List.map_cons, List.cons_append]

/-! ## The members -/

def Archived (w : Machine) (p : Bytes × Stored) : Prop := p.2.data ≠ [] ∨ w.IsFile p.2.actual

instance (w : Machine) (p : Bytes × Stored) : Decidable (Archived w p) :=
  inferInstanceAs (Decidable (_ ∨ _))

/-- A member for an item: the data of the item, or what its file holds. -/
structure IsMember (w : Machine) (p : Bytes × Stored) (x : Member) : Prop where
  name : x.name = p.1
  data : p.2.data ≠ [] → x.content = p.2.data
  file : p.2.data = [] → w.load p.2.actual = .ok x.content

/-- An item that does not stop the archive has a member if it is to be archived. -/
theorem member?_of_fault {w : Machine} {p : Bytes × Stored} (h : fault? w p = none) :
    (¬ Archived w p ∧ member? w p = none) ∨
      ∃ x, Archived w p ∧ member? w p = some x ∧ IsMember w p x := by
  unfold fault? contentOf at h
  unfold member? contentOf
  by_cases hdata : p.2.data = []
  · rw [if_pos (by simpa using hdata)] at h ⊢
    by_cases hfile : w.IsFile p.2.actual
    · obtain ⟨size, hstat⟩ := hfile
      rw [hstat] at h ⊢
      cases hload : w.load p.2.actual with
      | error e =>
          rw [hload] at h
          cases h
      | ok data =>
          refine Or.inr ⟨⟨p.1, data⟩, Or.inr ⟨size, hstat⟩, rfl, rfl, ?_, fun _ => hload⟩
          exact fun hne => absurd hdata hne
    · refine Or.inl ⟨fun h => h.elim (· hdata) hfile, ?_⟩
      cases hstat : w.stat p.2.actual with
      | error e => rfl
      | ok status =>
          cases status with
          | file size => exact absurd ⟨size, hstat⟩ hfile
          | dir => rfl
  · rw [if_neg (by simpa using hdata)]
    exact Or.inr ⟨⟨p.1, p.2.data⟩, Or.inl hdata, rfl, rfl, fun _ => rfl, fun hnil => absurd hnil hdata⟩

/-- Items that do not stop the archive have the members that they should have, in their order. -/
theorem forall₂_isMember {w : Machine} {items : List (Bytes × Stored)}
    (h : ∀ p ∈ items, fault? w p = none) :
    List.Forall₂ (IsMember w) (items.filter fun p => Archived w p) (items.filterMap (member? w)) := by
  induction items with
  | nil => exact .nil
  | cons p items ih =>
      obtain ⟨hp, hrest⟩ := List.forall_mem_cons.mp h
      obtain ⟨hnot, hnone⟩ | ⟨x, hyes, hsome, hmember⟩ := member?_of_fault hp
      · rw [List.filter_cons_of_neg (by simpa using hnot), List.filterMap_cons_none hnone]
        exact ih hrest
      · rw [List.filter_cons_of_pos (by simpa using hyes), List.filterMap_cons_some hsome]
        exact .cons hmember (ih hrest)

theorem decode?_archive {d : Draft} (hfault : d.fault ≠ some .longName)
    (hfits : ∀ x ∈ d.members, Archive.Fits x) : Archive.decode? d.archive = some d.members := by
  unfold Draft.archive
  rw [if_neg hfault]
  exact Archive.decode?_encode hfits

/-! ## Closing -/

/-- The errors of closing a report: what has stopped the archive, and then what is said of the
copies that stay. None of them stays if the temporary directory can be listed. -/
def Complaints (w : Machine) (r : Report) (fault : Option CloseError) (errors : List CloseError) :
    Prop :=
  ∃ left, errors = fault.toList ++ left ∧
    (∀ e ∈ left, ∃ p ∈ r.sorted, p.2.copy = true ∧ IsAbout p.2 e) ∧
    (w.disk.mayList w.tempPlace = true → left = [])

/-- The archive of a report that is closed. -/
theorem Keeps.closed [Codecs] {file : Bytes} {kept lost : List Deposit} {r r' : Report}
    {w w' : Machine} {errors : List CloseError} (h : Keeps file kept lost r w)
    (hclose : (r.close : StateM Machine _).run w = ((errors, r'), w')) :
    Complaints w r (outlineOf w r).fault errors ∧
      ∀ mode, w.disk.node? (w.placeOf file) = some (.file [] mode) →
        w'.disk.node? (w'.placeOf file) = some (.file (outlineOf w r).archive mode) := by
  rw [run_close h.named h.opened] at hclose
  cases hclose
  refine ⟨⟨_, rfl, fun e he => ?_, fun hlist => h.now.swept_patch_silent hlist _⟩, ?_⟩
  · obtain ⟨s, hs, habout⟩ := isAbout_of_mem_swept he
    obtain ⟨hmem, hcopy⟩ := List.mem_filter.mp hs
    obtain ⟨p, hp, rfl⟩ := List.mem_map.mp hmem
    exact ⟨p, mem_sorted.mpr hp, hcopy, habout⟩
  intro mode hmode
  have hstays := h.now.node?_swept_patch (outlineOf w r).archive (w.placeOf file)
  have hpatched := node?_patch (w := w.now.2) hmode (outlineOf w r).archive
  rw [placeOf_congr (dir_swept _ _)]
  show (swept (w.now.2.patch file _) _).2.disk.node? (w.placeOf file) = _
  rw [hstays.2, hpatched]
  · exact if_pos rfl
  · intro d hd place hplace
    exact (h.aside d (List.mem_append_left _ hd) place hplace).not_archive

end Report

end Cascade
