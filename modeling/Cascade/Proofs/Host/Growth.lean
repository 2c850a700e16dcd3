import Cascade.Proofs.Dict
import Cascade.Proofs.Host.Path
import Mathlib.Data.List.Induction

/-!
# Disks that grow

On a disk whose nodes all stand in directories, a new directory holds nothing that was
there before. So directories may be made, filled and removed again, and what stands in
the directories that were there stays.
-/

namespace Cascade.Disk

def IsDir (d : Disk) (loc : Location) : Prop := ∃ mode, d.node? loc = some (.dir mode)

def IsTree (d : Disk) : Prop := ∀ loc n, d.node? loc = some n → d.IsDir loc.dropLast

variable {S : Location → Prop} {d d' d'' : Disk} {cwd loc loc' : Location} {path : Bytes}

theorem isDir_nil (d : Disk) : d.IsDir [] := ⟨dirMode, rfl⟩

theorem ne_nil_of_vacant (hloc : d.node? loc = none) : loc ≠ [] := by
  rintro rfl
  cases hloc

theorem not_prefix_dropLast (hne : loc ≠ []) : ¬ loc <+: loc.dropLast := by
  intro habove
  have hlength := habove.length_le
  rw [List.length_dropLast] at hlength
  have hpos := List.length_pos_iff.mpr hne
  omega

/-- Nothing is below two places of one directory. -/
theorem eq_of_siblings {place : Location} (hne : loc ≠ []) (hne' : loc' ≠ [])
    (hsiblings : loc.dropLast = loc'.dropLast) (hbelow : loc <+: place) (hbelow' : loc' <+: place) :
    loc = loc' := by
  have hlength := congrArg List.length hsiblings
  rw [List.length_dropLast, List.length_dropLast] at hlength
  have hpos := List.length_pos_iff.mpr hne
  have hpos' := List.length_pos_iff.mpr hne'
  exact (List.prefix_of_prefix_length_le hbelow hbelow' (by omega)).eq_of_length (by omega)

theorem isDir_iff : d.IsDir loc ↔ (d.node? loc matches some (.dir _)) = true := by
  unfold IsDir
  split
  · next mode hnode => simp [hnode]
  · next hother => simpa using hother

instance (d : Disk) (loc : Location) : Decidable (d.IsDir loc) := decidable_of_iff' _ isDir_iff

theorem isTree_iff : d.IsTree ↔ ∀ p ∈ d.nodes.items, d.IsDir p.1.dropLast := by
  constructor
  · intro h p hp
    by_cases hnil : p.1 = []
    · rw [hnil]
      exact isDir_nil d
    · cases hnode : d.node? p.1 with
      | some n => exact h p.1 n hnode
      | none =>
          unfold node? Dict.get? at hnode
          rw [if_neg (by simpa using hnil), Option.map_eq_none_iff, List.find?_eq_none] at hnode
          exact absurd (beq_self_eq_true p.1) (hnode p hp)
  · intro h loc n hnode
    by_cases hnil : loc = []
    · rw [hnil]
      exact isDir_nil d
    · unfold node? Dict.get? at hnode
      rw [if_neg (by simpa using hnil), Option.map_eq_some_iff] at hnode
      obtain ⟨p, hp, _⟩ := hnode
      have hfound := List.find?_some hp
      have hloc : loc = p.1 := by simpa using hfound
      rw [hloc]
      exact h p (List.mem_of_find?_eq_some hp)

instance (d : Disk) : Decidable d.IsTree := decidable_of_iff' _ isTree_iff

theorem IsTree.isDir_of_append (h : d.IsTree) {below : Location} (hbelow : below ≠ []) {n : FileNode}
    (hnode : d.node? (loc ++ below) = some n) : d.IsDir loc := by
  induction below using List.reverseRecOn generalizing n with
  | nil => exact absurd rfl hbelow
  | append_singleton below c ih =>
      have hparent := h _ n hnode
      rw [← List.append_assoc, List.dropLast_concat] at hparent
      by_cases hnil : below = []
      · subst hnil
        rwa [List.append_nil] at hparent
      · obtain ⟨mode, hmode⟩ := hparent
        exact ih hnil hmode

/-- Only a directory that is written over is lost. -/
theorem dirs_set (hne : loc ≠ []) (hnot : ¬ d.IsDir loc) (n : FileNode) :
    ∀ loc' mode, d.node? loc' = some (.dir mode) → (d.set loc n).node? loc' = some (.dir mode) := by
  intro loc' mode hmode
  rw [node?_set d hne, if_neg]
  · exact hmode
  · rintro rfl
    exact hnot ⟨mode, hmode⟩

theorem IsTree.set (h : d.IsTree) (hne : loc ≠ []) (hnot : ¬ d.IsDir loc)
    (hparent : d.IsDir loc.dropLast) (n : FileNode) : (d.set loc n).IsTree := by
  intro loc' n' hnode
  obtain ⟨mode, hmode⟩ : d.IsDir loc'.dropLast := by
    rw [node?_set d hne] at hnode
    split at hnode
    · next heq => exact heq ▸ hparent
    · exact h loc' n' hnode
  exact ⟨mode, dirs_set hne hnot n _ mode hmode⟩

/-! ## Growing -/

/-- The directories of `d` stay, and so do their files outside `S`. There may be new
directories, with anything in them. -/
structure Grown (S : Location → Prop) (d d' : Disk) : Prop where
  tree : d'.IsTree
  dirs : ∀ loc mode, d.node? loc = some (.dir mode) → d'.node? loc = some (.dir mode)
  files : ∀ loc data mode, ¬ S loc → d.IsDir loc.dropLast →
    (d'.node? loc = some (.file data mode) ↔ d.node? loc = some (.file data mode))

namespace Grown

theorem refl (S : Location → Prop) (h : d.IsTree) : Grown S d d :=
  ⟨h, fun _ _ hdir => hdir, fun _ _ _ _ _ => Iff.rfl⟩

theorem isDir (h : Grown S d d') (hdir : d.IsDir loc) : d'.IsDir loc := by
  obtain ⟨mode, hmode⟩ := hdir
  exact ⟨mode, h.dirs loc mode hmode⟩

theorem trans (h : Grown S d d') (h' : Grown S d' d'') : Grown S d d'' :=
  ⟨h'.tree, fun loc mode hdir => h'.dirs loc mode (h.dirs loc mode hdir),
    fun loc data mode hS hdir =>
      (h'.files loc data mode hS (h.isDir hdir)).trans (h.files loc data mode hS hdir)⟩

theorem mono {T : Location → Prop} (h : Grown S d d') (hST : ∀ loc, S loc → T loc) :
    Grown T d d' :=
  ⟨h.tree, h.dirs, fun loc data mode hT => h.files loc data mode fun hS => hT (hST loc hS)⟩

theorem locate_eq_ok (h : Grown S d d') (hloc : d.locate cwd path = .ok loc) :
    d'.locate cwd path = .ok loc :=
  locate_of_dirs h.dirs hloc

/-- A path with more text behind it leads to a place beside that of the path, then and now. -/
theorem locate_append_eq_ok (h : Grown S d d') {t : Bytes} (hloc : d.locate cwd path = .ok loc)
    (ht : Path.slash ∉ t) (hlong : 2 < t.length) (hloc' : d'.locate cwd (path ++ t) = .ok loc') :
    d.locate cwd (path ++ t) = .ok loc' ∧ d.IsDir loc'.dropLast := by
  obtain ⟨hthen, dir, mode, name, hdir, -, hplace⟩ :=
    locate_append_of_dirs h.dirs hloc ht hlong hloc'
  refine ⟨hthen, mode, ?_⟩
  rwa [hplace, List.dropLast_concat]

/-- Writing a file is growth, if the file may change or stands in no directory that was there. -/
theorem set_file (h : Grown S d d') (hmay : d'.Writable cwd path loc)
    (hloc : S loc ∨ ¬ d.IsDir loc.dropLast) (data : Bytes) (mode : Nat) :
    Grown S d (d'.set loc (.file data mode)) := by
  have hnot : ¬ d'.IsDir loc := by
    rintro ⟨m, hm⟩
    exact hmay.2.not_dir m hm
  have hparent : d'.IsDir loc.dropLast := by
    cases hnode : d'.node? loc with
    | some n => exact h.tree loc n hnode
    | none =>
        have hkind := hmay.2
        unfold MayPut at hkind
        rw [hnode] at hkind
        obtain ⟨m, hm, _⟩ := mayChangeAround_iff.mp hkind
        exact ⟨m, hm⟩
  refine ⟨h.tree.set hmay.2.ne_nil hnot hparent _, fun loc' m hm => ?_, ?_⟩
  · exact dirs_set hmay.2.ne_nil hnot _ loc' m (h.dirs loc' m hm)
  · intro loc' data' mode' hS hdir
    rw [node?_set d' hmay.2.ne_nil, if_neg]
    · exact h.files loc' data' mode' hS hdir
    · rintro rfl
      rcases hloc with hS' | hdir'
      · exact hS hS'
      · exact hdir' hdir

/-- A new directory is growth. -/
theorem set_dir (h : d.IsTree) (hloc : d.node? loc = none) (hparent : d.IsDir loc.dropLast)
    (mode : Nat) : Grown S d (d.set loc (.dir mode)) := by
  have hne := ne_nil_of_vacant hloc
  have hnot : ¬ d.IsDir loc := by
    rintro ⟨m, hm⟩
    rw [hloc] at hm
    cases hm
  refine ⟨h.set hne hnot hparent _, dirs_set hne hnot _, ?_⟩
  intro loc' data' mode' _ _
  rw [node?_set d hne]
  split
  · next heq =>
      rw [heq, hloc]
      constructor <;> (intro hfile; cases hfile)
  · exact Iff.rfl

end Grown

/-! ## Removing -/

theorem get?_filter_items (ns : Dict Location FileNode) (q : Location → Bool) (loc : Location) :
    (⟨ns.items.filter fun p => q p.1⟩ : Dict Location FileNode).get? loc =
      if q loc then ns.get? loc else none := by
  unfold Dict.get?
  rw [List.find?_filter]
  by_cases hq : q loc = true
  · rw [if_pos hq]
    congr 2
    funext p
    by_cases heq : loc = p.1
    · simp [← heq, hq]
    · simp [heq]
  · rw [if_neg hq, Option.map_eq_none_iff, List.find?_eq_none]
    intro p _ hp
    obtain ⟨hin, heq⟩ := of_decide_eq_true hp
    exact hq (beq_iff_eq.mp heq ▸ hin)

theorem node?_clear (d : Disk) (loc : Location) (held : List Location) (loc' : Location) :
    (d.clear loc held).node? loc' =
      if loc' ≠ [] ∧ outlasts loc held loc' = false then none else d.node? loc' := by
  unfold node? clear
  by_cases hnil : loc' = []
  · simp [hnil]
  · have hempty : loc'.isEmpty = false := by simpa using hnil
    rw [hempty, get?_filter_items d.nodes (outlasts loc held)]
    by_cases hstays : outlasts loc held loc' = true <;> simp [hnil, hstays]

/-- What is not below the location stays. -/
theorem node?_clear_of_not_below (held : List Location) (h : ¬ loc <+: loc') :
    (d.clear loc held).node? loc' = d.node? loc' := by
  rw [node?_clear, if_neg]
  rintro ⟨_, hgone⟩
  unfold outlasts at hgone
  rw [Bool.or_eq_false_iff, Bool.not_eq_false', List.isPrefixOf_iff_prefix] at hgone
  exact h hgone.1

/-- Where nothing resists, all goes. -/
theorem node?_clear_of_below (hne : loc ≠ []) (h : loc <+: loc') :
    (d.clear loc []).node? loc' = none := by
  rw [node?_clear, if_pos]
  refine ⟨?_, ?_⟩
  · rintro rfl
    exact hne (List.prefix_nil.mp h)
  · unfold outlasts
    rw [List.isPrefixOf_iff_prefix.mpr h]
    rfl

theorem held_eq_nil (hne : loc ≠ [])
    (hfree : ∀ place n, d.node? place = some n → loc <+: place → d.mayTake loc place = true) :
    d.held loc d.nodes.keys = [] := by
  refine List.filter_eq_nil_iff.mpr fun place hplace => ?_
  rw [Bool.and_eq_true, not_and, List.isPrefixOf_iff_prefix]
  intro hbelow
  have hnil : place ≠ [] := by
    rintro rfl
    exact hne (List.prefix_nil.mp hbelow)
  obtain ⟨n, hn⟩ := Dict.mem_keys_iff.mp hplace
  have hnode : d.node? place = some n := by
    unfold node?
    rw [if_neg (by simpa using hnil), hn]
  rw [hfree place n hnode hbelow]
  decide

/-- All that stands at the location or below it can be taken away, if the directory around
it can be listed. -/
def Loose (d : Disk) (loc : Location) : Prop :=
  d.mayList loc.dropLast = true →
    ∀ place n, d.node? place = some n → loc <+: place → d.mayTake loc place = true

section Below

variable (hsame : ∀ place, place = loc.dropLast ∨ loc <+: place → d'.node? place = d.node? place)

include hsame

theorem mayDescend_congr (outer cs : List Bytes) :
    d'.mayDescend (loc ++ outer) cs = d.mayDescend (loc ++ outer) cs := by
  induction cs generalizing outer with
  | nil => rfl
  | cons c cs ih =>
      unfold mayDescend mayList
      rw [hsame _ (Or.inr (List.prefix_append loc outer)), List.append_assoc, ih]

theorem mayTake_congr {place : Location} (hbelow : loc <+: place) :
    d'.mayTake loc place = d.mayTake loc place := by
  obtain ⟨below, rfl⟩ := hbelow
  have haround : d'.mayChangeAround (loc ++ below) = d.mayChangeAround (loc ++ below) := by
    unfold mayChangeAround
    rw [hsame]
    by_cases hnil : below = []
    · exact Or.inl (by rw [hnil, List.append_nil])
    · rw [List.dropLast_append_of_ne_nil hnil]
      exact Or.inr (List.prefix_append _ _)
  have hdescend := mayDescend_congr hsame [] below
  rw [List.append_nil] at hdescend
  unfold mayTake mayList
  rw [haround, hsame _ (Or.inl rfl), List.drop_left, hdescend]

theorem Loose.congr (h : d.Loose loc) : d'.Loose loc := by
  intro hlist place n hnode hbelow
  rw [hsame place (Or.inr hbelow)] at hnode
  rw [mayTake_congr hsame hbelow]
  refine h ?_ place n hnode hbelow
  unfold mayList at hlist ⊢
  rwa [hsame _ (Or.inl rfl)] at hlist

end Below

/-- Where nothing stands, nothing stands below. -/
theorem IsTree.node?_below (h : d.IsTree) (hloc : d.node? loc = none) (hbelow : loc <+: loc') :
    d.node? loc' = none := by
  obtain ⟨below, rfl⟩ := hbelow
  cases hnode : d.node? (loc ++ below) with
  | none => rfl
  | some n =>
      by_cases hnil : below = []
      · rw [hnil, List.append_nil, hloc] at hnode
        cases hnode
      · obtain ⟨m, hm⟩ := h.isDir_of_append hnil hnode
        rw [hloc] at hm
        cases hm

/-- A new directory holds nothing, and can be removed again. -/
theorem held_set_dir (h : d.IsTree) (hloc : d.node? loc = none)
    (hmay : d.mayChangeAround loc = true) (mode : Nat) :
    (d.set loc (.dir mode)).held loc (d.set loc (.dir mode)).nodes.keys = [] := by
  have hne := ne_nil_of_vacant hloc
  refine held_eq_nil hne fun place n hnode hbelow => ?_
  rw [node?_set d hne] at hnode
  split at hnode
  · next heq =>
      have hparent : loc.dropLast ≠ loc := fun hsame =>
        not_prefix_dropLast hne (hsame.symm ▸ List.prefix_rfl)
      unfold mayTake mayChangeAround
      unfold mayChangeAround at hmay
      rw [heq, node?_set d hne, if_neg hparent, hmay]
      simp
  · rw [h.node?_below hloc hbelow] at hnode
    cases hnode

/-- A directory that was made and removed leaves no trace. -/
theorem node?_clear_set_dir (h : d.IsTree) (hloc : d.node? loc = none) (mode : Nat)
    (loc' : Location) : ((d.set loc (.dir mode)).clear loc []).node? loc' = d.node? loc' := by
  have hne := ne_nil_of_vacant hloc
  by_cases hbelow : loc <+: loc'
  · rw [node?_clear_of_below hne hbelow, h.node?_below hloc hbelow]
  · rw [node?_clear_of_not_below [] hbelow, node?_set d hne, if_neg]
    rintro rfl
    exact hbelow List.prefix_rfl

theorem IsTree.congr (h : d.IsTree) (hsame : ∀ loc, d'.node? loc = d.node? loc) : d'.IsTree := by
  intro loc n hn
  rw [hsame] at hn
  obtain ⟨m, hm⟩ := h loc n hn
  exact ⟨m, (hsame _).trans hm⟩

theorem Grown.of_node? (h : d.IsTree) (hsame : ∀ loc, d'.node? loc = d.node? loc) : Grown S d d' := by
  refine ⟨h.congr hsame, ?_, ?_⟩
  · intro loc m hm
    rw [hsame, hm]
  · intro loc data mode _ _
    rw [hsame]

/-! ## Making a directory -/

theorem make_eq_ok_iff {n : FileNode} :
    d.make loc n = .ok d' ↔
      d.node? loc = none ∧ d.mayChangeAround loc = true ∧ d' = d.set loc n := by
  unfold make
  cases d.node? loc with
  | some old => simp
  | none => by_cases hmay : d.mayChangeAround loc = true <;> simp [hmay, eq_comm]

theorem entry_eq_ok_iff :
    d.entry cwd path = .ok loc ↔
      ∃ start, origin cwd path = .ok start ∧
        d.walk start (Path.components (Path.stem path)) = .ok loc :=
  bind_eq_ok_iff

theorem mkdir_eq_ok_iff {mode : Nat} :
    d.mkdir cwd path mode = .ok d' ↔
      ∃ loc, d.entry cwd path = .ok loc ∧
        d.node? loc = none ∧ d.mayChangeAround loc = true ∧ d' = d.set loc (.dir mode) := by
  unfold mkdir
  rw [bind_eq_ok_iff]
  exact exists_congr fun loc => and_congr_right fun _ => make_eq_ok_iff

end Cascade.Disk
