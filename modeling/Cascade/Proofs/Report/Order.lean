import Cascade.Proofs.Report.Calls

/-!
# The order of the calls does not matter

The archive of a report is determined by its items. Calls with different names put the same
items together in every order, as long as their files stay as they are: the items may
differ in their dates and in the directories of the copies, and in nothing that is archived.
-/

namespace Cascade

/-! ## Files that stay -/

namespace Path

theorem absolute_cases (cwd path : Bytes) :
    absolute cwd path = [] ∨ ∃ p, absolute cwd path = clean p := by
  unfold absolute join
  split_ifs
  · exact Or.inr ⟨_, rfl⟩
  · exact Or.inl rfl
  · exact Or.inr ⟨_, rfl⟩
  · exact Or.inr ⟨_, rfl⟩
  · exact Or.inr ⟨_, rfl⟩

end Path

theorem Disk.IsTree.isDir_of_above {d : Disk} {place loc : Location} (h : d.IsTree)
    (hloc : d.IsDir loc) (habove : place <+: loc) : d.IsDir place := by
  obtain ⟨below, rfl⟩ := habove
  by_cases hnil : below = []
  · rwa [hnil, List.append_nil] at hloc
  · obtain ⟨mode, hmode⟩ := hloc
    exact h.isDir_of_append hnil hmode

namespace Machine.Grown

variable {w w' : Machine} {path data : Bytes}

theorem load_eq_ok (h : Grown (fun _ => False) w w') (htree : w.disk.IsTree)
    (hload : w.load path = .ok data) : w'.load path = .ok data := by
  obtain ⟨loc, mode, hloc, hnode, hmay⟩ := load_eq_ok_iff.mp hload
  refine load_eq_ok_iff.mpr ⟨loc, mode, h.denotes hloc, ?_, hmay⟩
  exact (h.disk.files loc data mode not_false (htree loc _ hnode)).mpr hnode

/-- On a machine that has grown, a full path leads to the file that it led to before, if what
stands there is what stood there. -/
theorem find_file_iff (h : Grown (fun _ => False) w w') (htree : w.disk.IsTree)
    (hcwd : w.disk.IsDir w.place)
    (hsame : w'.disk.node? (Path.spot w.place (Path.absolute w.dir path)) =
      w.disk.node? (Path.spot w.place (Path.absolute w.dir path))) {mode : Nat} :
    w'.disk.find w'.place (Path.absolute w.dir path) = .ok (.file data mode) ↔
      w.disk.find w.place (Path.absolute w.dir path) = .ok (.file data mode) := by
  rw [h.place_eq, Disk.find_eq_ok_iff, Disk.find_eq_ok_iff]
  constructor
  · rintro ⟨loc, hloc, hnode⟩
    have hspot := Disk.locate_eq_ok_spot hloc
    rw [← hspot, hnode] at hsame
    refine ⟨loc, ?_, hsame.symm⟩
    rcases Path.absolute_cases w.dir path with hempty | ⟨p, hp⟩
    · rw [hempty] at hloc
      cases hloc
    · rw [hp] at hloc hspot ⊢
      have hparent := htree loc _ hsame.symm
      by_cases hnormal : Path.normal p = []
      · -- The path leads to the root or to the current directory, so there is no file.
        have hdir : w.disk.IsDir loc := by
          rw [hspot, Path.spot_clean, Path.spot, ← Path.lead_normal, hnormal, Path.lead_nil]
          · split
            · exact Disk.isDir_nil _
            · exact hcwd
          · intro hroot
            rw [if_pos hroot]
        obtain ⟨m, hm⟩ := hdir
        cases hsame.trans hm
      · refine Disk.locate_clean_congr hnormal hloc ?_
        intro place m hplace hm
        have hdir : w.disk.IsDir place := by
          rcases hplace with habove | habove
          · exact htree.isDir_of_above hcwd habove
          · exact htree.isDir_of_above hparent habove
        obtain ⟨m', hm'⟩ := hdir
        rw [hm', ← h.disk.dirs place m' hm', hm]
  · rintro ⟨loc, hloc, hnode⟩
    exact ⟨loc, h.disk.locate_eq_ok hloc,
      (h.disk.files loc data mode not_false (htree loc _ hnode)).mpr hnode⟩

end Machine.Grown

namespace Report

open Machine

/-! ## Contents -/

theorem contentOf_of_find {w : Machine} {s : Stored} (hdata : s.data = []) :
    contentOf w s = match w.disk.find w.place s.actual with
      | .ok (.file data mode) =>
        if Disk.mayRead mode then .ok (some data) else .error ⟨text "open", s.actual, .denied⟩
      | _ => .ok none := by
  unfold contentOf Machine.stat Machine.load Machine.status Machine.loaded
  rw [if_pos (by rw [hdata]; rfl)]
  rcases w.disk.find w.place s.actual with c | n
  · rfl
  · cases n with
    | file data mode =>
        dsimp only
        split <;> rfl
    | dir mode => rfl

theorem contentOf_eq_some_iff {w : Machine} {s : Stored} {data : Bytes} (hdata : s.data = []) :
    contentOf w s = .ok (some data) ↔ w.load s.actual = .ok data := by
  rw [contentOf_of_find hdata]
  unfold Machine.load Machine.loaded
  rcases w.disk.find w.place s.actual with c | n
  · simp
  · cases n with
    | file content mode =>
        dsimp only
        split <;> simp
    | dir mode =>
        dsimp only
        split <;> simp

/-- The content of a file that has stayed as it was. -/
theorem contentOf_grown {w w' : Machine} {s : Stored} {path : Bytes}
    (h : Machine.Grown (fun _ => False) w w') (htree : w.disk.IsTree) (hcwd : w.disk.IsDir w.place)
    (hdata : s.data = []) (hactual : s.actual = Path.absolute w.dir path)
    (hsame : w'.disk.node? (Path.spot w.place (Path.absolute w.dir path)) =
      w.disk.node? (Path.spot w.place (Path.absolute w.dir path))) :
    contentOf w' s = contentOf w s := by
  rw [contentOf_of_find hdata, contentOf_of_find hdata, hactual]
  have hiff : ∀ data mode,
      w'.disk.find w'.place (Path.absolute w.dir path) = .ok (.file data mode) ↔
        w.disk.find w.place (Path.absolute w.dir path) = .ok (.file data mode) :=
    fun _ _ => h.find_file_iff htree hcwd hsame
  cases hfind : w.disk.find w.place (Path.absolute w.dir path) with
  | ok n =>
      cases n with
      | file data mode => rw [(hiff data mode).mpr hfind]
      | dir mode =>
          split
          · next data mode' hfile => cases hfind.symm.trans ((hiff data mode').mp hfile)
          · rfl
  | error c =>
      split
      · next data mode' hfile => cases hfind.symm.trans ((hiff data mode').mp hfile)
      · rfl

/-! ## Items -/

def Call.contentAt (w : Machine) : Call → Except OsError (Option Bytes)
  | .file _ path => contentOf w ⟨path, Path.absolute w.dir path, none, [], false⟩
  | .data _ content => .ok (if content.isEmpty then none else some content)
  | .copy _ path => (w.load (Path.absolute w.dir path)).map some

def Call.Gives (w : Machine) (s : Stored) : Call → Prop
  | .file _ path => s = ⟨path, Path.absolute w.dir path, none, [], false⟩
  | .data _ content => ∃ date, s = ⟨[], [], some date, content, false⟩
  | .copy _ path => ∃ n date data,
    s = ⟨path, Path.join (w.temp ++ Path.slash :: copyDirName n)
      (Path.base (Path.absolute w.dir path)), some date, [], true⟩ ∧
    w.load s.actual = .ok data ∧ w.load (Path.absolute w.dir path) = .ok data

/-- The file of the call is not the archive, and it is the same in both machines. -/
def Call.Steady (file : Bytes) (w w' : Machine) (c : Call) : Prop :=
  ∀ path, c.path? = some path →
    Path.spot w.place (Path.absolute w.dir path) ≠ w.placeOf file ∧
      w'.disk.node? (Path.spot w.place (Path.absolute w.dir path)) =
        w.disk.node? (Path.spot w.place (Path.absolute w.dir path))

theorem Call.steady_data {file : Bytes} {w w' : Machine} (name content : Bytes) :
    (Call.data name content).Steady file w w' := by
  intro path hpath
  cases hpath

/-- Items that differ at most in their dates and in the directories of copies. -/
structure Alike (temp : Bytes) (p q : Bytes × Stored) : Prop where
  name : p.1 = q.1
  given : p.2.given = q.2.given
  dated : p.2.date.isSome = q.2.date.isSome
  data : p.2.data = q.2.data
  copy : p.2.copy = q.2.copy
  actual : p.2.actual = q.2.actual ∨ p.2.copy = true ∧ ∃ m n name,
    p.2.actual = Path.join (temp ++ Path.slash :: copyDirName m) name ∧
    q.2.actual = Path.join (temp ++ Path.slash :: copyDirName n) name

namespace Call.Gives

variable {file : Bytes} {w w' w₁ w₂ : Machine} {s s₁ s₂ : Stored} {c : Call}

theorem grown (h : c.Gives w s) (hgrown : Machine.Grown (fun _ => False) w w')
    (htree : w.disk.IsTree) (htemp : w'.temp = w.temp) : c.Gives w' s := by
  cases c with
  | file name path =>
      unfold Gives at h ⊢
      rw [hgrown.dir]
      exact h
  | data name content => exact h
  | copy name path =>
      obtain ⟨n, date, data, hs, hcopy, hload⟩ := h
      unfold Gives
      rw [hgrown.dir, htemp]
      exact ⟨n, date, data, hs, hgrown.load_eq_ok htree hcopy, hgrown.load_eq_ok htree hload⟩

/-- An item contributes what its call does, if the file of the call has not changed. -/
theorem contentOf_eq (h : c.Gives w' s) (hgrown : Machine.Grown (fun _ => False) w w')
    (htree : w.disk.IsTree) (hcwd : w.disk.IsDir w.place) (hsteady : c.Steady file w w') :
    contentOf w' s = c.contentAt w := by
  cases c with
  | file name path =>
      obtain ⟨_, hsame⟩ := hsteady path rfl
      unfold Gives at h
      rw [hgrown.dir] at h
      subst h
      exact contentOf_grown hgrown htree hcwd rfl rfl hsame
  | data name content =>
      obtain ⟨date, rfl⟩ := h
      unfold contentOf contentAt
      dsimp only
      split <;> rfl
  | copy name path =>
      obtain ⟨_, hsame⟩ := hsteady path rfl
      -- a copy holds what its file held, and the file still does
      obtain ⟨n, date, data, rfl, hcopy, hload⟩ := h
      rw [(contentOf_eq_some_iff rfl).mpr hcopy]
      rw [hgrown.dir] at hload
      have hcontent := contentOf_grown (s := ⟨path, Path.absolute w.dir path, none, [], false⟩)
        hgrown htree hcwd rfl rfl hsame
      rw [(contentOf_eq_some_iff rfl).mpr hload] at hcontent
      have hstart : w.load (Path.absolute w.dir path) = .ok data :=
        (contentOf_eq_some_iff rfl).mp hcontent.symm
      show _ = (w.load (Path.absolute w.dir path)).map some
      rw [hstart]
      rfl

theorem alike (h₁ : c.Gives w₁ s₁) (h₂ : c.Gives w₂ s₂) (hdir : w₁.dir = w₂.dir)
    (htemp : w₁.temp = w₂.temp) (name : Bytes) : Alike w₁.temp (name, s₁) (name, s₂) := by
  cases c with
  | file _ path =>
      have hsame : s₁ = s₂ := by
        rw [show s₁ = _ from h₁, show s₂ = _ from h₂, hdir]
      rw [hsame]
      exact ⟨rfl, rfl, rfl, rfl, rfl, Or.inl rfl⟩
  | data _ content =>
      obtain ⟨_, rfl⟩ := h₁
      obtain ⟨_, rfl⟩ := h₂
      exact ⟨rfl, rfl, rfl, rfl, rfl, Or.inl rfl⟩
  | copy _ path =>
      obtain ⟨m, _, _, rfl, _⟩ := h₁
      obtain ⟨n, _, _, rfl, _⟩ := h₂
      exact ⟨rfl, rfl, rfl, rfl, rfl, Or.inr ⟨rfl, m, n, _, rfl, by rw [hdir, htemp]⟩⟩

end Call.Gives

/-- What a call makes of a report in which its name is free. -/
theorem Call.gives_of_taken {c : Call} {r r' : Report} {w w' : Machine} (htree : w.disk.IsTree)
    (hfree : c.name ∉ r.items.keys) (h : (c.result? r).run w = (some r', w')) :
    (∃ s, r' = { r with items := r.items.insert c.name s } ∧ c.Gives w' s) ∧
      Machine.Grown (fun _ => False) w w' ∧ w'.temp = w.temp := by
  have hnone : r.items.get? c.name = none := by
    cases hget : r.items.get? c.name with
    | none => rfl
    | some s => exact absurd (Dict.mem_keys_iff.mpr ⟨s, hget⟩) hfree
  have hnot : r.items.contains c.name = false := by
    unfold Dict.contains
    rw [hnone]
    rfl
  cases c with
  | file name path =>
      obtain ⟨hadd, rfl⟩ := Prod.mk.inj (run_toOption_some (x := r.store name path) h)
      have hadd : r.addFile w.dir name path = .ok r' := hadd
      unfold addFile at hadd
      rw [show r.items.get? name = none from hnone] at hadd
      exact ⟨⟨_, eq_of_put hadd, rfl⟩, .refl _ htree, rfl⟩
  | data name content =>
      obtain ⟨hadd, rfl⟩ := Prod.mk.inj (run_toOption_some (x := r.storeData name content) h)
      have hadd : r.addData w.now.1.date name content = .ok r' := hadd
      unfold addData at hadd
      rw [show r.items.contains name = false from hnot] at hadd
      exact ⟨⟨_, eq_of_put hadd, _, rfl⟩, ⟨rfl, .refl _ htree⟩, rfl⟩
  | copy name path =>
      obtain ⟨data, place, s, hload, hvacant, hr', hcopy, hgrown, htemp, _, _, _, hs⟩ :=
        storeCopy_ok htree (run_toOption_some (x := r.storeCopy name path) h)
      have hname : r.copyName name w.now.1.nanos = name := by
        unfold copyName
        rw [show r.items.contains name = false from hnot]
        rfl
      obtain ⟨n, hdir⟩ := hvacant.named
      rw [hname] at hr'
      refine ⟨⟨s, hr', n, w.now.1.date, data, ?_, ?_, ?_⟩, hgrown, htemp⟩
      · rw [hs, hgrown.dir, htemp, hdir]
      · exact (contentOf_eq_some_iff hcopy.data).mp hcopy.contentOf_eq
      · rw [hgrown.dir]
        exact hgrown.load_eq_ok htree hload

/-! ## Sequences of calls -/

/-- The report takes the items of the calls, one after another. -/
inductive Takes (r₀ : Report) (w₀ : Machine) : List Call → Report → Machine → Prop
  | nil : Takes r₀ w₀ [] r₀ w₀
  | snoc {cs : List Call} {c : Call} {r r' : Report} {w w' : Machine} :
      Takes r₀ w₀ cs r w → (c.make.run (some r)).run w = ((true, some r'), w') →
      Takes r₀ w₀ (cs ++ [c]) r' w'

/-- The report has one item for every call, and no other. -/
structure Collected (w : Machine) (cs : List Call) (r : Report) : Prop where
  keys : r.items.keys.Nodup
  names : ∀ name, name ∈ r.items.keys ↔ name ∈ cs.map Call.name
  gives : ∀ c ∈ cs, ∃ s, r.items.get? c.name = some s ∧ c.Gives w s

theorem Collected.snoc {w w' : Machine} {cs : List Call} {c : Call} {r r' : Report}
    (h : Collected w cs r) (htree : w.disk.IsTree) (hfree : c.name ∉ cs.map Call.name)
    (hrun : (c.result? r).run w = (some r', w')) : Collected w' (cs ++ [c]) r' := by
  obtain ⟨⟨s, rfl, hs⟩, hgrown, htemp⟩ :=
    Call.gives_of_taken htree (fun hmem => hfree ((h.names _).mp hmem)) hrun
  refine ⟨Dict.nodup_keys_insert h.keys _ _, ?_, ?_⟩
  · intro name
    rw [Dict.mem_keys_insert, h.names, List.map_append, List.mem_append, List.map_singleton,
      List.mem_singleton]
  · intro c' hc'
    rcases List.mem_append.mp hc' with hc' | hc'
    · obtain ⟨s', hget, hs'⟩ := h.gives c' hc'
      have hne : c'.name ≠ c.name := fun heq => hfree (heq ▸ List.mem_map_of_mem hc')
      exact ⟨s', (Dict.get?_insert_of_ne _ _ hne).trans hget, hs'.grown hgrown htree htemp⟩
    · cases List.mem_singleton.mp hc'
      exact ⟨s, Dict.get?_insert_self _ _ _, hs⟩

theorem Call.taken_of_make {c : Call} {r r' : Report} {w w' : Machine}
    (h : (c.make.run (some r)).run w = ((true, some r'), w')) :
    (c.result? r).run w = (some r', w') := by
  rw [run_make] at h
  obtain ⟨⟨taken, w₁⟩, hrun⟩ : ∃ out, (c.result? r).run w = out := ⟨_, rfl⟩
  rw [hrun] at h ⊢
  cases taken with
  | none => cases h
  | some r₁ =>
      cases h
      rfl

theorem Call.refused_of_make {c : Call} {r : Report} {ρ : Option Report} {w w' : Machine}
    (h : (c.make.run (some r)).run w = ((false, ρ), w')) :
    ρ = some r ∧ (c.result? r).run w = (none, w') := by
  rw [run_make] at h
  obtain ⟨⟨taken, w₁⟩, hrun⟩ : ∃ out, (c.result? r).run w = out := ⟨_, rfl⟩
  rw [hrun] at h ⊢
  cases taken with
  | none =>
      cases h
      exact ⟨rfl, rfl⟩
  | some r₁ => cases h

/-- What calls with different names leave behind. -/
theorem Takes.collected {file : Bytes} {w₀ w : Machine} {cs : List Call} {r : Report}
    (h : Takes (empty (some file)) w₀ cs r w) (hstart : History file [] [] (empty (some file)) w₀)
    (hnames : (cs.map Call.name).Nodup) :
    Collected w cs r ∧ Machine.Grown (fun _ => False) w₀ w ∧ w.temp = w₀.temp ∧
      ∃ kept lost, History file kept lost r w := by
  induction h with
  | nil =>
      refine ⟨⟨List.nodup_nil, fun name => Iff.rfl, fun c hc => absurd hc List.not_mem_nil⟩,
        .refl _ (Keeps.of_history hstart).tree, rfl, _, _, hstart⟩
  | @snoc cs c r r' w w' _ hmake ih =>
      rw [List.map_append, List.nodup_append] at hnames
      obtain ⟨hcs, _, happart⟩ := hnames
      obtain ⟨hcollected, hgrown, htemp, kept, lost, hhistory⟩ := ih hcs
      have hrun := Call.taken_of_make hmake
      have htree := (Keeps.of_history hhistory).tree
      have hfree : c.name ∉ cs.map Call.name := fun hmem =>
        happart _ hmem _ (List.mem_singleton.mpr rfl) rfl
      obtain ⟨_, hgrown', htemp'⟩ :=
        Call.gives_of_taken htree (fun hmem => hfree ((hcollected.names _).mp hmem)) hrun
      exact ⟨hcollected.snoc htree hfree hrun, hgrown.trans hgrown', htemp'.trans htemp,
        hhistory.taken hrun⟩

theorem forall₂_of_names {items items' : List (Bytes × Stored)}
    {R : Bytes × Stored → Bytes × Stored → Prop} (hnames : items.map Prod.fst = items'.map Prod.fst)
    (hR : ∀ p ∈ items, ∀ q ∈ items', p.1 = q.1 → R p q) : List.Forall₂ R items items' := by
  induction items generalizing items' with
  | nil =>
      rw [List.map_nil, eq_comm, List.map_eq_nil_iff] at hnames
      rw [hnames]
      exact .nil
  | cons p items ih =>
      cases items' with
      | nil => cases hnames
      | cons q items' =>
          obtain ⟨hname, hrest⟩ := List.cons.inj hnames
          refine .cons (hR p List.mem_cons_self q List.mem_cons_self hname) (ih hrest ?_)
          intro p' hp' q' hq'
          exact hR p' (List.mem_cons_of_mem _ hp') q' (List.mem_cons_of_mem _ hq')

/-- Two reports with items for the same calls have their items in the same order. -/
theorem Collected.forall₂_sorted {w₁ w₂ : Machine} {cs₁ cs₂ : List Call} {r₁ r₂ : Report}
    {R : Bytes × Stored → Bytes × Stored → Prop} (h₁ : Collected w₁ cs₁ r₁)
    (h₂ : Collected w₂ cs₂ r₂) (hperm : cs₁.Perm cs₂)
    (hR : ∀ c ∈ cs₁, ∀ s₁ s₂, c.Gives w₁ s₁ → c.Gives w₂ s₂ → R (c.name, s₁) (c.name, s₂)) :
    List.Forall₂ R r₁.sorted r₂.sorted := by
  have hsame : ∀ name, name ∈ r₁.items.keys ↔ name ∈ r₂.items.keys := by
    intro name
    rw [h₁.names, h₂.names, (hperm.map Call.name).mem_iff]
  refine forall₂_of_names (sorted_names_eq h₁.keys h₂.keys hsame) ?_
  rintro ⟨name, s₁⟩ hp ⟨_, s₂⟩ hq rfl
  have hget₁ := Dict.get?_of_mem h₁.keys (mem_sorted.mp hp)
  have hget₂ := Dict.get?_of_mem h₂.keys (mem_sorted.mp hq)
  have hmem := (h₁.names name).mp (Dict.mem_keys_iff.mpr ⟨s₁, hget₁⟩)
  obtain ⟨c, hc, rfl⟩ := List.mem_map.mp hmem
  obtain ⟨s₁', hget₁', hs₁⟩ := h₁.gives c hc
  obtain ⟨s₂', hget₂', hs₂⟩ := h₂.gives c (hperm.mem_iff.mp hc)
  obtain rfl : s₁' = s₁ := Option.some.inj (hget₁'.symm.trans hget₁)
  obtain rfl : s₂' = s₂ := Option.some.inj (hget₂'.symm.trans hget₂)
  exact hR c hc s₁' s₂' hs₁ hs₂

/-! ## What determines the archive -/

/-- The archive at `file` has the manifest of the report and the given members behind it, and
reads as that if the contents fit, unless a name that is too long has stopped it. -/
structure HasArchive (file : Bytes) (w' w : Machine) (r : Report) (ms : List Member)
    (fault : Option CloseError) : Prop where
  written : ∃ mode, w'.disk.node? (w'.placeOf file) =
    some (.file (Draft.archive ⟨⟨text "MANIFEST", r.manifest w.now.1.date⟩ :: ms, fault⟩) mode)
  readable : fault ≠ some .longName →
    (∀ x ∈ (⟨text "MANIFEST", r.manifest w.now.1.date⟩ : Member) :: ms, x.content.length < 256 ^ 4) →
    Archive.decode? (Draft.archive ⟨⟨text "MANIFEST", r.manifest w.now.1.date⟩ :: ms, fault⟩) =
      some (⟨text "MANIFEST", r.manifest w.now.1.date⟩ :: ms)

theorem Keeps.hasArchive [Codecs] {file : Bytes} {kept lost : List Deposit} {r r' : Report}
    {w w' : Machine} {errors : List CloseError} (h : Keeps file kept lost r w)
    (hclose : (r.close : StateM Machine _).run w = ((errors, r'), w')) :
    Complaints w r (draftOf w r.sorted).fault errors ∧
      HasArchive file w' w r (draftOf w r.sorted).members (draftOf w r.sorted).fault := by
  obtain ⟨herrors, harchive⟩ := h.closed hclose
  obtain ⟨mode, hmode⟩ := h.archive
  refine ⟨herrors, ⟨mode, harchive mode hmode⟩, ?_⟩
  intro hfault hsizes
  refine decode?_archive hfault fun x hx => ⟨?_, hsizes x hx⟩
  have hmanifest : (text "MANIFEST").length ≤ nameLimit := by decide
  have hname : x.name.length ≤ nameLimit := by
    rcases List.mem_cons.mp hx with rfl | hx
    · exact hmanifest
    · exact length_name_of_draftOf hfault x hx
  exact Nat.lt_of_le_of_lt hname (by decide)

/-- Closing a report writes the items up to the first one that stops the archive. -/
theorem close_writes [Codecs] {file : Bytes} {kept lost : List Deposit} {r r' : Report}
    {w w' : Machine} {errors : List CloseError} (h : History file kept lost r w)
    (hclose : (r.close : StateM Machine _).run w = ((errors, r'), w')) :
    (∃ ms, HasArchive file w' w r ms none ∧ Complaints w r none errors ∧
      (∀ p ∈ r.sorted, fault? w p = none) ∧
      List.Forall₂ (IsMember w) (r.sorted.filter fun p => Archived w p) ms) ∨
    ∃ front p rest e ms, HasArchive file w' w r (ms ++ stub w p) (some e) ∧
      Complaints w r (some e) errors ∧ r.sorted = front ++ p :: rest ∧
      (∀ q ∈ front, fault? w q = none) ∧ fault? w p = some e ∧
      List.Forall₂ (IsMember w) (front.filter fun p => Archived w p) ms := by
  obtain ⟨herrors, harchive⟩ := (Keeps.of_history h).hasArchive hclose
  rcases draftOf_cases w r.sorted with ⟨hall, hdraft⟩ | ⟨front, p, rest, e, hitems, hfront, hp, hdraft⟩
  · rw [hdraft] at herrors harchive
    exact Or.inl ⟨_, harchive, herrors, hall, forall₂_isMember hall⟩
  · rw [hdraft] at herrors harchive
    exact Or.inr ⟨front, p, rest, e, _, harchive, herrors, hitems, hfront, hp,
      forall₂_isMember hfront⟩

/-- Calls with different names lead to the same members in every order. -/
theorem close_of_perm [Codecs] {file : Bytes} {cs₁ cs₂ : List Call} {w₀ w₁ w₂ w₁' w₂' : Machine}
    {r₁ r₂ r₁' r₂' : Report} {errors₁ errors₂ : List CloseError}
    (hstart : History file [] [] (empty (some file)) w₀) (hperm : cs₁.Perm cs₂)
    (hnames : (cs₁.map Call.name).Nodup) (h₁ : Takes (empty (some file)) w₀ cs₁ r₁ w₁)
    (h₂ : Takes (empty (some file)) w₀ cs₂ r₂ w₂)
    (hsteady : ∀ c ∈ cs₁, c.Steady file w₀ w₁ ∧ c.Steady file w₀ w₂)
    (hclose₁ : (r₁.close : StateM Machine _).run w₁ = ((errors₁, r₁'), w₁'))
    (hclose₂ : (r₂.close : StateM Machine _).run w₂ = ((errors₂, r₂'), w₂')) :
    List.Forall₂ (Alike w₀.temp) r₁.sorted r₂.sorted ∧
      ∃ ms fault, Complaints w₁ r₁ fault errors₁ ∧ Complaints w₂ r₂ fault errors₂ ∧
        HasArchive file w₁' w₁ r₁ ms fault ∧ HasArchive file w₂' w₂ r₂ ms fault := by
  obtain ⟨hcollected₁, hgrown₁, htemp₁, _, _, hhistory₁⟩ := h₁.collected hstart hnames
  obtain ⟨hcollected₂, hgrown₂, htemp₂, _, _, hhistory₂⟩ :=
    h₂.collected hstart ((hperm.map Call.name).nodup_iff.mp hnames)
  have hkeeps := Keeps.of_history hstart
  have hdraft : draftOf w₁ r₁.sorted = draftOf w₂ r₂.sorted := by
    refine draftOf_congr (hcollected₁.forall₂_sorted hcollected₂ hperm ?_)
    intro c hc s₁ s₂ hs₁ hs₂
    refine ⟨rfl, ?_⟩
    rw [hs₁.contentOf_eq hgrown₁ hkeeps.tree hkeeps.cwd (hsteady c hc).1,
      hs₂.contentOf_eq hgrown₂ hkeeps.tree hkeeps.cwd (hsteady c hc).2]
  obtain ⟨herrors₁, harchive₁⟩ := (Keeps.of_history hhistory₁).hasArchive hclose₁
  obtain ⟨herrors₂, harchive₂⟩ := (Keeps.of_history hhistory₂).hasArchive hclose₂
  rw [← hdraft] at herrors₂ harchive₂
  refine ⟨?_, _, _, herrors₁, herrors₂, harchive₁, harchive₂⟩
  refine hcollected₁.forall₂_sorted hcollected₂ hperm fun c hc s₁ s₂ hs₁ hs₂ => ?_
  rw [← htemp₁]
  exact hs₁.alike hs₂ (hgrown₁.dir.trans hgrown₂.dir.symm) (htemp₁.trans htemp₂.symm) c.name

/-- A call that is refused changes nothing. The manifest has a line for every item, in ascending
order of the names. Closing writes it first and then the items that are to be archived, in that
order, up to the first item that stops the archive, unless the archive itself is an item. Calls
that are made in another order, with different names and files that stay, lead to the same
members. -/
theorem archive_determined [Codecs] (file : Bytes) :
    (∀ {kept lost : List Deposit} {r : Report} {ρ : Option Report} {w w' : Machine} (c : Call),
      History file kept lost r w → (c.make.run (some r)).run w = ((false, ρ), w') →
      ρ = some r ∧ (∀ loc, w'.disk.node? loc = w.disk.node? loc) ∧ History file kept lost r w') ∧
    (∀ {kept lost : List Deposit} {r r' : Report} {w w' : Machine} {errors : List CloseError},
      History file kept lost r w →
      (r.close : StateM Machine _).run w = ((errors, r'), w') →
      r.sorted.Perm r.items.items ∧ (r.sorted.Pairwise fun p q => p.1 < q.1) ∧
      (r.manifest w.now.1.date =
        r.sorted.flatMap fun p => entryLine w.now.1.date p ++ [newline]) ∧
      ((∀ p ∈ r.sorted, newline ∉ entryLine w.now.1.date p) →
        (r.manifest w.now.1.date).splitOn newline =
          r.sorted.map (entryLine w.now.1.date) ++ [[]]) ∧
      ((∀ p ∈ r.sorted, ¬ w.Denotes p.2.actual (w.placeOf file)) →
        (∃ ms, HasArchive file w' w r ms none ∧ Complaints w r none errors ∧
          (∀ p ∈ r.sorted, fault? w p = none) ∧
          List.Forall₂ (IsMember w) (r.sorted.filter fun p => Archived w p) ms) ∨
        ∃ front p rest e ms, HasArchive file w' w r (ms ++ stub w p) (some e) ∧
          Complaints w r (some e) errors ∧ r.sorted = front ++ p :: rest ∧
          (∀ q ∈ front, fault? w q = none) ∧ fault? w p = some e ∧
          List.Forall₂ (IsMember w) (front.filter fun p => Archived w p) ms)) ∧
    ∀ {cs₁ cs₂ : List Call} {w₀ w₁ w₂ w₁' w₂' : Machine} {r₁ r₂ r₁' r₂' : Report}
      {errors₁ errors₂ : List CloseError},
      History file [] [] (empty (some file)) w₀ → cs₁.Perm cs₂ → (cs₁.map Call.name).Nodup →
      Takes (empty (some file)) w₀ cs₁ r₁ w₁ → Takes (empty (some file)) w₀ cs₂ r₂ w₂ →
      (∀ c ∈ cs₁, c.Steady file w₀ w₁ ∧ c.Steady file w₀ w₂) →
      (r₁.close : StateM Machine _).run w₁ = ((errors₁, r₁'), w₁') →
      (r₂.close : StateM Machine _).run w₂ = ((errors₂, r₂'), w₂') →
      List.Forall₂ (Alike w₀.temp) r₁.sorted r₂.sorted ∧
        ∃ ms fault, Complaints w₁ r₁ fault errors₁ ∧ Complaints w₂ r₂ fault errors₂ ∧
          HasArchive file w₁' w₁ r₁ ms fault ∧ HasArchive file w₂' w₂ r₂ ms fault := by
  refine ⟨?_, ?_, ?_⟩
  · intro kept lost r ρ w w' c hhistory hmake
    obtain ⟨hsame, hrefused⟩ := Call.refused_of_make hmake
    have hkeeps := Keeps.of_history hhistory
    have hfile : r.file.isSome := by
      rw [hkeeps.named]
      rfl
    exact ⟨hsame, (Call.node?_of_refused hkeeps.tree hfile hrefused).2.2, hhistory.refused hrefused⟩
  · intro kept lost r r' w w' errors hhistory hclose
    exact ⟨r.sorted_perm, pairwise_sorted (Keeps.of_history hhistory).keys, r.manifest_eq _,
      splitOn_manifest, fun _ => close_writes hhistory hclose⟩
  · intro cs₁ cs₂ w₀ w₁ w₂ w₁' w₂' r₁ r₂ r₁' r₂' errors₁ errors₂
    exact close_of_perm

section Samples

open scoped Codecs

def sampleStart : Machine :=
  { sampleMachine (text "x") with
    disk := ⟨⟨(sampleMachine (text "x")).disk.nodes.items.take 4⟩⟩, ticks := 0 }

theorem history_sampleStart :
    History (text "r.zip") [] [] (empty (some (text "r.zip"))) sampleStart := by
  let w₀ : Machine := { sampleStart with disk := ⟨⟨sampleStart.disk.nodes.items.take 3⟩⟩ }
  have hcreate : (create (text "r.zip") : StateM Machine _).run w₀ =
      (.ok (empty (some (text "r.zip"))), sampleStart) := rfl
  have harchive : sampleStart.disk.node? (sampleStart.placeOf (text "r.zip")) =
      some (.file [] 0o644) := by
    decide +kernel
  exact .created hcreate rfl (by decide +kernel) (by decide +kernel) harchive

theorem archive_determined_sample :
    let stored : Stored := ⟨[], [], some [], text "d", false⟩
    let r₁ : Report := ⟨⟨[(text "n", stored),
      (text "c", ⟨text "f", text "/tmp/cssdedup-r-3/f", some [], [], true⟩)]⟩,
      some (text "r.zip"), false⟩
    let r₂ : Report := ⟨⟨[(text "c", ⟨text "f", text "/tmp/cssdedup-r-2/f", some [], [], true⟩),
      (text "n", stored)]⟩, some (text "r.zip"), false⟩
    let w₁ := sampleMachine (text "x")
    let w₂ := { w₁ with disk := ⟨⟨sampleStart.disk.nodes.items ++
      [([text "tmp", text "cssdedup-r-2"], .dir 0o700),
        ([text "tmp", text "cssdedup-r-2", text "f"], .file (text "x") 0o644)]⟩⟩ }
    let closed₁ := (r₁.close : StateM Machine _).run w₁
    let closed₂ := (r₂.close : StateM Machine _).run w₂
    List.Forall₂ (Alike (text "/tmp")) r₁.sorted r₂.sorted ∧
      (∃ ms fault, HasArchive (text "r.zip") closed₁.2 w₁ r₁ ms fault ∧
        HasArchive (text "r.zip") closed₂.2 w₂ r₂ ms fault) ∧
      ((Call.data (text "n") []).make.run (some r₁)).run w₁ = ((false, some r₁), w₁.now.2) ∧
      (∀ loc, w₁.now.2.disk.node? loc = w₁.disk.node? loc) ∧
      (r₁.sorted.Pairwise fun p q => p.1 < q.1) ∧
      ∃ ms, HasArchive (text "r.zip") closed₁.2 w₁ r₁ ms none ∧ Complaints w₁ r₁ none closed₁.1.1 ∧
        List.Forall₂ (IsMember w₁) (r₁.sorted.filter fun p => Archived w₁ p) ms := by
  intro stored r₁ r₂ w₁ w₂ closed₁ closed₂
  obtain ⟨hrefused, hwritten, hordered⟩ := archive_determined (text "r.zip")
  let data : Call := .data (text "n") (text "d")
  let copy : Call := .copy (text "c") (text "f")
  have hfirst₁ : (data.make.run (some (empty (some (text "r.zip"))))).run sampleStart =
      ((true, some ⟨⟨[(text "n", stored)]⟩, some (text "r.zip"), false⟩), sampleStart.now.2) := rfl
  have hsecond₁ : (copy.make.run (some ⟨⟨[(text "n", stored)]⟩, some (text "r.zip"), false⟩)).run
      sampleStart.now.2 = ((true, some r₁), w₁) :=
    Prod.ext (by decide +kernel) (by decide +kernel)
  have hfirst₂ : (copy.make.run (some (empty (some (text "r.zip"))))).run sampleStart =
      ((true, some ⟨⟨r₂.items.items.take 1⟩, some (text "r.zip"), false⟩),
        { w₂ with ticks := 2 }) :=
    Prod.ext (by decide +kernel) (by decide +kernel)
  have hsecond₂ : (data.make.run (some ⟨⟨r₂.items.items.take 1⟩, some (text "r.zip"), false⟩)).run
      { w₂ with ticks := 2 } = ((true, some r₂), w₂) :=
    Prod.ext (by decide +kernel) (by decide +kernel)
  have htakes₁ : Takes (empty (some (text "r.zip"))) sampleStart [data, copy] r₁ w₁ :=
    .snoc (.snoc .nil hfirst₁) hsecond₁
  have htakes₂ : Takes (empty (some (text "r.zip"))) sampleStart [copy, data] r₂ w₂ :=
    .snoc (.snoc .nil hfirst₂) hsecond₂
  have hsteady : ∀ c ∈ [data, copy],
      c.Steady (text "r.zip") sampleStart w₁ ∧ c.Steady (text "r.zip") sampleStart w₂ := by
    intro c hc
    rcases List.mem_cons.mp hc with rfl | hc
    · exact ⟨Call.steady_data _ _, Call.steady_data _ _⟩
    · cases List.mem_singleton.mp hc
      constructor <;> (rintro _ ⟨⟩; decide +kernel)
  obtain ⟨halike, ms, fault, _, _, hmembers⟩ := hordered history_sampleStart (List.Perm.swap copy data [])
    (by decide +kernel) htakes₁ htakes₂ hsteady (Prod.ext (Prod.ext rfl rfl) rfl)
    (Prod.ext (Prod.ext rfl rfl) rfl)
  obtain ⟨_, _, _, kept, lost, hhistory⟩ :=
    htakes₁.collected history_sampleStart (by decide +kernel)
  have hagain : ((Call.data (text "n") []).make.run (some r₁)).run w₁ =
      ((false, some r₁), w₁.now.2) := rfl
  have hitems : ∀ p ∈ r₁.items.items,
      ¬ w₁.Denotes p.2.actual (w₁.placeOf (text "r.zip")) ∧ fault? w₁ p = none := by decide +kernel
  obtain ⟨_, hpairwise, _, _, hclosed⟩ := hwritten hhistory (Prod.ext (Prod.ext rfl rfl) rfl)
  refine ⟨halike, ⟨ms, fault, hmembers⟩, hagain, (hrefused _ hhistory hagain).2.1, hpairwise, ?_⟩
  rcases hclosed fun p hp => (hitems p (mem_sorted.mp hp)).1 with
    ⟨ms, harchive, herrors, _, hall⟩ | ⟨front, p, rest, e, _, _, _, hsorted, _, hfault, _⟩
  · exact ⟨ms, harchive, herrors, hall⟩
  · have hp : p ∈ r₁.sorted := hsorted ▸ List.mem_append_right front List.mem_cons_self
    cases (hitems p (mem_sorted.mp hp)).2.symm.trans hfault

/-- A content under the name of a directory stops the archive, and the data that comes behind it
is not there. -/
theorem close_stops :
    let w := { sampleStart with ticks := 2 }
    let r : Report := ⟨⟨[(text "x/", ⟨[], [], some [], text "d", false⟩),
      (text "y", ⟨[], [], some [], text "e", false⟩)]⟩, some (text "r.zip"), false⟩
    let closed := (r.close : StateM Machine _).run w
    History (text "r.zip") [⟨text "y", text "e", none⟩, ⟨text "x/", text "d", none⟩] [] r w ∧
      (∀ p ∈ r.sorted, Archived w p) ∧ closed.1.1 = [.directory] ∧
      (closed.2.load (text "r.zip")).toOption.bind Archive.decode? =
        some [⟨text "MANIFEST", text "\tx/\t : \n\ty\t : \n"⟩, ⟨text "x/", []⟩] := by
  intro w r closed
  have hle : Bytes.le (text "x/") (text "y") := by decide
  have hsorted : r.sorted = r.items.items := by
    simp [r, sorted, Dict.sorted, List.mergeSort, List.MergeSort.Internal.splitInTwo, hle]
  have hclosed : closed = (r.close : StateM Machine _).run w := rfl
  unfold close outline manifest at hclosed
  rw [hsorted] at hclosed ⊢
  rw [hclosed]
  refine ⟨?_, by decide +kernel, by decide +kernel, by decide +kernel⟩
  let r₁ : Report :=
    ⟨⟨[(text "x/", ⟨[], [], some [], text "d", false⟩)]⟩, some (text "r.zip"), false⟩
  have hfirst : (storeData (empty (some (text "r.zip"))) (text "x/") (text "d") :
      StateM Machine _).run sampleStart = (.ok r₁, sampleStart.now.2) := rfl
  have hsecond : (r₁.storeData (text "y") (text "e") : StateM Machine _).run sampleStart.now.2 =
      (.ok r, w) := rfl
  exact .storedData (.storedData history_sampleStart hfirst) hsecond

end Samples

end Report

end Cascade
