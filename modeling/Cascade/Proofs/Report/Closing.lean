import Cascade.Proofs.Dict
import Cascade.Proofs.Host.Clean
import Cascade.Proofs.Report.Archive
import Cascade.Proofs.Report.Copies

/-!
# Opening and closing a report

A report is opened empty. When it is closed without an error, its archive has a member for
every item that contributes one, and the manifest before them. Then the directories of its
copies are removed.
-/

namespace Cascade

namespace Report

theorem create_ok {path : Bytes} {r : Report} {w w' : Machine}
    (h : (create path : StateM Machine _).run w = (.ok r, w')) : ∃ file, r = empty (some file) := by
  obtain ⟨saved, w₁, _, h⟩ := run_bind_eq_iff.mp h
  split at h
  · cases h
    exact ⟨_, rfl⟩
  · obtain ⟨made, w₂, _, h⟩ := run_bind_eq_iff.mp h
    split at h
    · cases h
      exact ⟨_, rfl⟩
    · cases h

/-! ## What goes into the archive -/

def contentOf (w : Machine) (s : Stored) : Except OsError (Option Bytes) :=
  if s.data.isEmpty then
    match w.stat s.actual with
    | .ok (.file _) => (w.load s.actual).map some
    | _ => .ok none
  else .ok (some s.data)

theorem run_content? (w : Machine) (s : Stored) :
    (content? s : StateM Machine _).run w = (contentOf w s, w) := by
  unfold content? contentOf
  split
  · refine run_bind_eq_iff.mpr ⟨w.stat s.actual, w, rfl, ?_⟩
    rcases w.stat s.actual with e | status
    · rfl
    · cases status with
      | file size => rfl
      | dir => rfl
  · rfl

def member? (w : Machine) (p : Bytes × Stored) : Option Member :=
  match contentOf w p.2 with
  | .ok (some data) => some ⟨p.1, data⟩
  | _ => none

def fault? (w : Machine) (p : Bytes × Stored) : Option CloseError :=
  match contentOf w p.2 with
  | .error e => some (.system e)
  | .ok none => none
  | .ok (some data) => objection? ⟨p.1, data⟩

/-- What the archive has of an item that stops it: its name, if it could be read. -/
def stub (w : Machine) (p : Bytes × Stored) : List Member :=
  (member? w p).toList.map fun x => ⟨x.name, []⟩

def draftOf (w : Machine) : List (Bytes × Stored) → Draft
  | [] => ⟨[], none⟩
  | p :: rest =>
    match fault? w p with
    | some e => ⟨stub w p, some e⟩
    | none => ⟨(member? w p).toList ++ (draftOf w rest).members, (draftOf w rest).fault⟩

theorem run_draft_eq (w : Machine) (items : List (Bytes × Stored)) :
    (draft items : StateM Machine _).run w = (draftOf w items, w) := by
  induction items with
  | nil => rfl
  | cons p rest ih =>
      have hcontent := run_content? w p.2
      refine run_bind_eq_iff.mpr ⟨_, w, hcontent, ?_⟩
      unfold draftOf fault? stub member?
      rcases contentOf w p.2 with e | _ | data
      · rfl
      · exact ih
      · refine run_bind_eq_iff.mpr ⟨_, w, ih, ?_⟩
        unfold Draft.add
        dsimp only
        cases objection? ⟨p.1, data⟩ <;> rfl

/-- The items of a draft, or those before the first one that stops it. -/
theorem draftOf_cases (w : Machine) (items : List (Bytes × Stored)) :
    ((∀ p ∈ items, fault? w p = none) ∧ draftOf w items = ⟨items.filterMap (member? w), none⟩) ∨
      ∃ front p rest e, items = front ++ p :: rest ∧ (∀ q ∈ front, fault? w q = none) ∧
        fault? w p = some e ∧
        draftOf w items = ⟨front.filterMap (member? w) ++ stub w p, some e⟩ := by
  induction items with
  | nil => exact Or.inl ⟨fun p hp => absurd hp List.not_mem_nil, rfl⟩
  | cons p items ih =>
      rw [draftOf]
      cases hp : fault? w p with
      | some e => exact Or.inr ⟨[], p, items, e, rfl, fun q hq => absurd hq List.not_mem_nil, hp, rfl⟩
      | none =>
          have hmembers : ∀ qs, (p :: qs).filterMap (member? w) =
              (member? w p).toList ++ qs.filterMap (member? w) := by
            intro qs
            rw [List.filterMap_cons]
            cases member? w p <;> rfl
          rcases ih with ⟨hall, hdraft⟩ | ⟨front, q, rest, e, rfl, hfront, hq, hdraft⟩
          · exact Or.inl ⟨List.forall_mem_cons.mpr ⟨hp, hall⟩, by rw [hdraft, hmembers]⟩
          · refine Or.inr ⟨p :: front, q, rest, e, rfl, List.forall_mem_cons.mpr ⟨hp, hfront⟩, hq, ?_⟩
            rw [hdraft, hmembers, List.append_assoc]

/-- Items with the same names and contents have the same draft. -/
theorem draftOf_congr {w w' : Machine} {items items' : List (Bytes × Stored)}
    (h : List.Forall₂ (fun p q => p.1 = q.1 ∧ contentOf w p.2 = contentOf w' q.2) items items') :
    draftOf w items = draftOf w' items' := by
  induction h with
  | nil => rfl
  | cons hpq _ ih =>
      obtain ⟨hname, hcontent⟩ := hpq
      unfold draftOf fault? stub member?
      rw [hname, hcontent, ih]

theorem length_name_of_member? {w : Machine} {p : Bytes × Stored} {x : Member}
    (hx : member? w p = some x) (h : fault? w p ≠ some .longName) : x.name.length ≤ nameLimit := by
  unfold member? at hx
  unfold fault? at h
  split at hx
  · next data hcontent =>
      cases hx
      rw [hcontent] at h
      dsimp only at h
      by_contra hlong
      refine h ?_
      unfold objection?
      rw [if_pos (Nat.not_le.mp hlong)]
  · cases hx

/-- The names of a draft fit into an archive, unless one of them has stopped it. -/
theorem length_name_of_draftOf {w : Machine} {items : List (Bytes × Stored)}
    (h : (draftOf w items).fault ≠ some .longName) :
    ∀ x ∈ (draftOf w items).members, x.name.length ≤ nameLimit := by
  have hshort : ∀ {qs : List (Bytes × Stored)}, (∀ q ∈ qs, fault? w q = none) →
      ∀ x ∈ qs.filterMap (member? w), x.name.length ≤ nameLimit := by
    intro qs hqs x hx
    obtain ⟨q, hq, hmember⟩ := List.mem_filterMap.mp hx
    refine length_name_of_member? hmember ?_
    rw [hqs q hq]
    exact nofun
  rcases draftOf_cases w items with ⟨hall, hdraft⟩ | ⟨front, p, rest, e, _, hfront, hp, hdraft⟩
  · rw [hdraft]
    exact hshort hall
  · rw [hdraft] at h ⊢
    intro x hx
    rcases List.mem_append.mp hx with hx | hx
    · exact hshort hfront x hx
    · obtain ⟨y, hy, rfl⟩ := List.mem_map.mp hx
      have hy : y.name.length ≤ nameLimit :=
        length_name_of_member? (Option.mem_toList.mp hy) (hp ▸ h)
      exact hy

def outlineOf (w : Machine) (r : Report) : Draft :=
  ⟨⟨text "MANIFEST", r.manifest w.now.1.date⟩ :: (draftOf w r.sorted).members,
    (draftOf w r.sorted).fault⟩

theorem run_outline (w : Machine) (r : Report) :
    (r.outline : StateM Machine _).run w = (outlineOf w r, w.now.2) := by
  have hlater : draftOf w.now.2 r.sorted = draftOf w r.sorted :=
    draftOf_congr (List.forall₂_same.mpr fun _ _ => ⟨rfl, rfl⟩)
  have hobjection : objection? ⟨text "MANIFEST", r.manifest w.now.1.date⟩ = none := rfl
  have hadd : Draft.add ⟨text "MANIFEST", r.manifest w.now.1.date⟩ (draftOf w r.sorted) =
      outlineOf w r := by
    unfold Draft.add
    rw [hobjection]
    rfl
  rw [← hadd, ← hlater]
  exact run_bind_eq_iff.mpr
    ⟨_, _, rfl, run_bind_eq_iff.mpr ⟨_, _, run_draft_eq w.now.2 r.sorted, rfl⟩⟩

theorem mem_sorted {r : Report} {p : Bytes × Stored} : p ∈ r.sorted ↔ p ∈ r.items.items :=
  List.mem_mergeSort

theorem mem_filterMap_member? {r : Report} {w : Machine} {name content : Bytes} {s : Stored}
    (hkeys : r.items.keys.Nodup) (hget : r.items.get? name = some s) :
    ⟨name, content⟩ ∈ r.sorted.filterMap (member? w) ↔ contentOf w s = .ok (some content) := by
  rw [List.mem_filterMap]
  constructor
  · rintro ⟨⟨name', s'⟩, hmem, hmember⟩
    have hget' := Dict.get?_of_mem hkeys (mem_sorted.mp hmem)
    unfold member? at hmember
    split at hmember
    · next data hdata =>
        cases hmember
        obtain rfl : s' = s := Option.some.inj (hget'.symm.trans hget)
        exact hdata
    · cases hmember
  · intro hcontent
    refine ⟨(name, s), mem_sorted.mpr (Dict.mem_of_get? hget), ?_⟩
    unfold member?
    rw [hcontent]

/-- The manifest has a line for every item. -/
theorem manifest_ne_nil {r : Report} {name : Bytes} {s : Stored} (hget : r.items.get? name = some s)
    (date : Bytes) : r.manifest date ≠ [] := by
  intro hempty
  have hline := List.flatMap_eq_nil_iff.mp hempty _ (mem_sorted.mpr (Dict.mem_of_get? hget))
  unfold manifestLine at hline
  have hend := (List.append_eq_nil_iff.mp hline).2
  exact absurd hend (by decide)

theorem node?_patch {w : Machine} {file : Bytes} {mode : Nat}
    (h : w.disk.node? (w.placeOf file) = some (.file [] mode)) (data : Bytes) (loc : Location) :
    (w.patch file data).disk.node? loc =
      if loc = w.placeOf file then some (.file data mode) else w.disk.node? loc := by
  have hne : w.placeOf file ≠ [] := by
    intro hnil
    rw [hnil] at h
    cases h
  unfold Machine.patch Disk.patch
  rw [h]
  dsimp only
  rw [Disk.node?_set _ hne, List.drop_nil, List.append_nil]

/-! ## The copies -/

/-- What is said and what is left when the directories of the items are removed. -/
def swept (w : Machine) (ss : List Stored) : List CloseError × Machine :=
  (removeHomes ss : StateM Machine _).run w

theorem swept_cons_ok {w w₁ : Machine} {s : Stored} (ss : List Stored)
    (h : w.removeTree (Path.parent s.actual) = (.ok (), w₁)) : swept w (s :: ss) = swept w₁ ss :=
  run_bind_eq_iff.mpr ⟨_, _, h, rfl⟩

theorem swept_cons_error {w w₁ : Machine} {s : Stored} (ss : List Stored) {e : OsError}
    (h : w.removeTree (Path.parent s.actual) = (.error e, w₁)) :
    swept w (s :: ss) = (.system e :: (swept w₁ ss).1, (swept w₁ ss).2) :=
  run_bind_eq_iff.mpr ⟨_, _, h, rfl⟩

theorem dir_swept (w : Machine) (ss : List Stored) : (swept w ss).2.dir = w.dir := by
  induction ss generalizing w with
  | nil => rfl
  | cons s ss ih =>
      have hdir : (w.removeTree (Path.parent s.actual)).2.dir = w.dir := by
        unfold Machine.removeTree
        split <;> rfl
      obtain ⟨⟨answer, w₁⟩, hremove⟩ : ∃ out, w.removeTree (Path.parent s.actual) = out := ⟨_, rfl⟩
      rw [hremove] at hdir
      cases answer with
      | ok _ => rw [swept_cons_ok ss hremove, ih, hdir]
      | error e => rw [swept_cons_error ss hremove, ih, hdir]

theorem prefix_join (sep part : Bytes) (parts : List Bytes) :
    part <+: Bytes.join sep (part :: parts) := by
  unfold Bytes.join
  cases parts with
  | nil => exact ⟨[], by rw [List.append_nil, List.intercalate_singleton]⟩
  | cons c cs =>
      rw [List.intercalate_cons_cons, List.append_assoc]
      exact List.prefix_append _ _

theorem removeTree_error {w w' : Machine} {path : Bytes} {o : OsError}
    (h : w.removeTree path = (.error o, w')) : o.request = text "unlinkat" ∧ path <+: o.path := by
  unfold Machine.removeTree at h
  split at h
  · cases h
  · cases h
    exact ⟨rfl, List.prefix_rfl⟩
  · obtain ⟨hcleared, _⟩ := Prod.mk.inj h
    unfold Machine.cleared at hcleared
    split at hcleared
    · cases hcleared
    · cases hcleared
      exact ⟨rfl, prefix_join _ _ _⟩

/-- The error is about what stays of the directory of a copy. -/
def IsAbout (s : Stored) (e : CloseError) : Prop :=
  ∃ o : OsError, e = .system o ∧ o.request = text "unlinkat" ∧ Path.parent s.actual <+: o.path

theorem isAbout_of_mem_swept {w : Machine} {ss : List Stored} {e : CloseError}
    (h : e ∈ (swept w ss).1) : ∃ s ∈ ss, IsAbout s e := by
  induction ss generalizing w with
  | nil => exact absurd h List.not_mem_nil
  | cons s ss ih =>
      have hrest : ∀ w₁, e ∈ (swept w₁ ss).1 → ∃ s' ∈ s :: ss, IsAbout s' e := by
        intro w₁ h
        obtain ⟨s', hs', hsaid⟩ := ih h
        exact ⟨s', List.mem_cons_of_mem _ hs', hsaid⟩
      obtain ⟨⟨answer, w₁⟩, hremove⟩ : ∃ out, w.removeTree (Path.parent s.actual) = out := ⟨_, rfl⟩
      cases answer with
      | ok _ =>
          rw [swept_cons_ok ss hremove] at h
          exact hrest w₁ h
      | error o =>
          rw [swept_cons_error ss hremove] at h
          rcases List.mem_cons.mp h with rfl | h
          · exact ⟨s, List.mem_cons_self, o, rfl, removeTree_error hremove⟩
          · exact hrest w₁ h

def homeOf (w : Machine) (s : Stored) : Location := Path.spot w.place (Path.parent s.actual)

def heldIn (w : Machine) (s : Stored) : List Location :=
  w.disk.held (homeOf w s) w.disk.nodes.keys

/-- The machine without what can be removed of the directory of a copy. -/
def without (w : Machine) (s : Stored) : Machine :=
  { w with disk := w.disk.clear (homeOf w s) (heldIn w s) }

/-- The directory of a copy can be reached, it stands in `temp`, and the current directory is
not below it. -/
structure Removable (temp : Location) (w : Machine) (s : Stored) : Prop where
  clean : ∃ dir, Path.normal dir ≠ [] ∧ Path.parent s.actual = Path.clean dir
  denotes : w.Denotes (Path.parent s.actual) (homeOf w s)
  ne_nil : homeOf w s ≠ []
  temp : (homeOf w s).dropLast = temp
  not_above : ¬ homeOf w s <+: w.place

namespace Removable

variable {temp : Location} {w : Machine} {s s' : Stored}

theorem removeTree_eq (h : Removable temp w s) :
    w.removeTree (Path.parent s.actual) =
      (Machine.cleared (Path.parent s.actual) (homeOf w s) (heldIn w s), without w s) := by
  unfold Machine.removeTree
  rw [show w.disk.locate w.place (Path.parent s.actual) = .ok (homeOf w s) from h.denotes]
  rfl

/-- Nothing is said exactly if nothing resists, here and in the directories behind. -/
theorem swept_cons (h : Removable temp w s) (ss : List Stored) :
    (swept w (s :: ss)).2 = (swept (without w s) ss).2 ∧
      ((swept w (s :: ss)).1 = [] ↔ heldIn w s = [] ∧ (swept (without w s) ss).1 = []) := by
  have hremove := h.removeTree_eq
  cases hheld : heldIn w s with
  | nil =>
      rw [hheld] at hremove
      rw [swept_cons_ok ss hremove]
      simp
  | cons place held =>
      rw [hheld] at hremove
      rw [swept_cons_error ss hremove]
      simp

theorem congr {w' : Machine} (h : Removable temp w s) (hdir : w'.dir = w.dir)
    (hstays : ∀ loc mode, loc <+: w.place ∨ loc <+: temp →
      w.disk.node? loc = some (.dir mode) → w'.disk.node? loc = some (.dir mode)) :
    Removable temp w' s := by
  obtain ⟨dir, hnormal, hparent⟩ := h.clean
  have hplace := Machine.place_congr hdir
  have hhome : homeOf w' s = homeOf w s := by
    unfold homeOf
    rw [hplace]
  have hdenotes := h.denotes
  refine ⟨h.clean, ?_, hhome ▸ h.ne_nil, hhome ▸ h.temp, ?_⟩
  · unfold Machine.Denotes at hdenotes ⊢
    rw [hhome, hplace]
    rw [hparent] at hdenotes ⊢
    refine Disk.locate_clean_congr hnormal hdenotes ?_
    intro loc mode hloc
    exact hstays loc mode (hloc.imp_right fun habove => h.temp ▸ habove)
  · rw [hhome, hplace]
    exact h.not_above

theorem not_above_temp (h : Removable temp w s) {loc : Location} (hloc : loc <+: temp) :
    ¬ homeOf w s <+: loc := by
  intro hbelow
  rw [← h.temp] at hloc
  exact Disk.not_prefix_dropLast h.ne_nil (hbelow.trans hloc)

/-- The directories of copies stand side by side. -/
theorem homeOf_eq (h : Removable temp w s) (h' : Removable temp w s') {loc : Location}
    (hbelow : homeOf w s <+: loc) (hbelow' : homeOf w s' <+: loc) : homeOf w s = homeOf w s' :=
  Disk.eq_of_siblings h.ne_nil h'.ne_nil (h.temp.trans h'.temp.symm) hbelow hbelow'

/-- The directory of one copy is not on the way to that of another. -/
theorem removed (h : Removable temp w s) (h' : Removable temp w s') :
    Removable temp (without w s) s' := by
  refine h'.congr rfl fun loc mode hloc hmode => ?_
  refine (Disk.node?_clear_of_not_below (heldIn w s) ?_).trans hmode
  rcases hloc with hloc | hloc
  · exact fun hbelow => h.not_above (hbelow.trans hloc)
  · exact h.not_above_temp hloc

end Removable

/-- Removing the copies removes nothing outside their directories. If nothing is said, then all
in them is gone. -/
theorem node?_swept {temp : Location} {w : Machine} {ss : List Stored}
    (hss : ∀ s ∈ ss, Removable temp w s) (loc : Location) :
    ((swept w ss).1 = [] → (∃ s ∈ ss, homeOf w s <+: loc) →
      (swept w ss).2.disk.node? loc = none) ∧
    ((∀ s ∈ ss, ¬ homeOf w s <+: loc) → (swept w ss).2.disk.node? loc = w.disk.node? loc) := by
  induction ss generalizing w with
  | nil =>
      refine ⟨?_, fun _ => rfl⟩
      rintro _ ⟨s, hs, _⟩
      exact absurd hs List.not_mem_nil
  | cons s ss ih =>
      obtain ⟨hs, hrest⟩ := List.forall_mem_cons.mp hss
      obtain ⟨hgone, hstays⟩ := ih fun s' hs' => hs.removed (hrest s' hs')
      obtain ⟨hmachine, hsilence⟩ := hs.swept_cons ss
      rw [hmachine]
      constructor
      · rintro hsilent ⟨s', hs', hbelow⟩
        obtain ⟨hheld, hsilent⟩ := hsilence.mp hsilent
        -- two items may have one directory, which is gone when the second is looked at
        by_cases hlater : ∃ s ∈ ss, homeOf w s <+: loc
        · exact hgone hsilent hlater
        · rcases List.mem_cons.mp hs' with rfl | hs'
          · refine (hstays fun s hs hbelow => hlater ⟨s, hs, hbelow⟩).trans ?_
            show (w.disk.clear (homeOf w s') (heldIn w s')).node? loc = none
            rw [hheld]
            exact Disk.node?_clear_of_below hs.ne_nil hbelow
          · exact absurd ⟨s', hs', hbelow⟩ hlater
      · intro hnone
        obtain ⟨hfirst, hlater⟩ := List.forall_mem_cons.mp hnone
        exact (hstays hlater).trans (Disk.node?_clear_of_not_below _ hfirst)

/-- Directories that nothing holds are removed without a word. -/
theorem swept_fst_eq_nil {temp : Location} {w : Machine} {ss : List Stored}
    (hlist : w.disk.mayList temp = true) (hss : ∀ s ∈ ss, Removable temp w s)
    (hloose : ∀ s ∈ ss, w.disk.Loose (homeOf w s)) : (swept w ss).1 = [] := by
  induction ss generalizing w with
  | nil => rfl
  | cons s ss ih =>
      obtain ⟨hs, hrest⟩ := List.forall_mem_cons.mp hss
      obtain ⟨hsLoose, hrestLoose⟩ := List.forall_mem_cons.mp hloose
      have hheld : heldIn w s = [] :=
        Disk.held_eq_nil hs.ne_nil (hsLoose (hs.temp ▸ hlist))
      have hnode : ∀ loc, ¬ homeOf w s <+: loc →
          (without w s).disk.node? loc = w.disk.node? loc :=
        fun loc hloc => Disk.node?_clear_of_not_below _ hloc
      refine (hs.swept_cons ss).2.mpr ⟨hheld, ?_⟩
      refine ih ?_ (fun s' hs' => hs.removed (hrest s' hs')) fun s' hs' => ?_
      · unfold Disk.mayList at hlist ⊢
        rwa [hnode temp (hs.not_above_temp List.prefix_rfl)]
      · show (without w s).disk.Loose (homeOf w s')
        by_cases hhome : homeOf w s = homeOf w s'
        · intro _ place n hplace hbelow
          have hgone : (without w s).disk.node? place = none := by
            show (w.disk.clear (homeOf w s) (heldIn w s)).node? place = none
            rw [hheld]
            exact Disk.node?_clear_of_below hs.ne_nil (hhome ▸ hbelow)
          cases hgone.symm.trans hplace
        · refine (hrestLoose s' hs').congr fun place hplace => hnode place fun hbelow => ?_
          rcases hplace with rfl | hbelow'
          · exact hs.not_above_temp ((hrest s' hs').temp ▸ List.prefix_rfl) hbelow
          · exact hhome (hs.homeOf_eq (hrest s' hs') hbelow hbelow')

/-! ## Closing -/

/-- What closing a report does, with an error or without one. -/
theorem run_close [Codecs] {r : Report} {file : Bytes} (hfile : r.file = some file)
    (hopen : r.closed = false) (w : Machine) :
    let left := swept (w.now.2.patch file (outlineOf w r).archive)
      (r.items.values.filter fun s => s.copy)
    (r.close : StateM Machine _).run w =
      (((outlineOf w r).fault.toList ++ left.1, { r with closed := true }), left.2) := by
  intro left
  unfold close
  rw [hfile]
  refine run_bind_eq_iff.mpr ⟨_, _, run_outline w r, ?_⟩
  rw [hopen]
  refine run_bind_eq_iff.mpr ⟨_, _, rfl, ?_⟩
  refine run_bind_eq_iff.mpr ⟨left.1, left.2, rfl, ?_⟩
  show (((outlineOf w r).fault.toList ++ [] ++ left.1, _), _) = _
  rw [List.append_nil]

/-- What a report becomes when it is closed without an error. -/
theorem close_ok [Codecs] {r r' : Report} {file : Bytes} {w w' : Machine}
    (hfile : r.file = some file) (hopen : r.closed = false)
    (h : (r.close : StateM Machine _).run w = (([], r'), w')) :
    ∃ ms, ms = ⟨text "MANIFEST", r.manifest w.now.1.date⟩ :: r.sorted.filterMap (member? w) ∧
      (∀ x ∈ ms, x.name.length ≤ nameLimit) ∧
      swept (w.now.2.patch file (Archive.encode ms)) (r.items.values.filter fun s => s.copy) =
        ([], w') := by
  rw [run_close hfile hopen] at h
  obtain ⟨hout, hw'⟩ := Prod.mk.inj h
  obtain ⟨hfault, hsilent⟩ := List.append_eq_nil_iff.mp (Prod.mk.inj hout).1
  have hfault : (draftOf w r.sorted).fault = none := Option.toList_eq_nil_iff.mp hfault
  have hnames : ∀ x ∈ (draftOf w r.sorted).members, x.name.length ≤ nameLimit :=
    length_name_of_draftOf (by rw [hfault]; simp)
  obtain ⟨_, hdraft⟩ | ⟨_, _, _, e, _, _, _, hdraft⟩ := draftOf_cases w r.sorted
  · rw [hdraft] at hnames
    have hmanifest : (text "MANIFEST").length ≤ nameLimit := by decide
    refine ⟨_, rfl, List.forall_mem_cons.mpr ⟨hmanifest, hnames⟩, ?_⟩
    have harchive : (outlineOf w r).archive = Archive.encode
        (⟨text "MANIFEST", r.manifest w.now.1.date⟩ :: r.sorted.filterMap (member? w)) := by
      unfold outlineOf
      rw [hdraft]
      rfl
    rw [← harchive]
    exact Prod.ext hsilent hw'
  · rw [hdraft] at hfault
    cases hfault

end Report

end Cascade
