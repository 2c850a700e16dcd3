import Cascade.Proofs.Host.Disk

/-!
# Where a path leads

Without links, a path that can be followed leads to the same place as the path with its
dots and double slashes worked out. So the place can be told from the path alone, and
cleaning a path, joining a name to it and taking its parent are steps in the tree.
-/

namespace Cascade

namespace Path

def IsName (c : Bytes) : Prop := c ≠ [] ∧ c ≠ here ∧ c ≠ up

def follow (loc : Location) (c : Bytes) : Location :=
  if c.isEmpty || c == here then loc else if c == up then loc.dropLast else loc ++ [c]

def lead (loc : Location) (cs : List Bytes) : Location := cs.foldl follow loc

def spot (cwd : Location) (path : Bytes) : Location :=
  lead (if isAbsolute path then [] else cwd) (components path)

@[simp] theorem follow_nil (loc : Location) : follow loc [] = loc := rfl

@[simp] theorem follow_here (loc : Location) : follow loc here = loc := rfl

@[simp] theorem follow_up (loc : Location) : follow loc up = loc.dropLast := rfl

theorem follow_name (loc : Location) {c : Bytes} (hc : IsName c) : follow loc c = loc ++ [c] := by
  obtain ⟨hempty, hhere, hup⟩ := hc
  simp [follow, hempty, hhere, hup]

@[simp] theorem lead_nil (loc : Location) : lead loc [] = loc := rfl

@[simp] theorem lead_append (loc : Location) (cs cs' : List Bytes) :
    lead loc (cs ++ cs') = lead (lead loc cs) cs' :=
  List.foldl_append

@[simp] theorem lead_cons (loc : Location) (c : Bytes) (cs : List Bytes) :
    lead loc (c :: cs) = lead (follow loc c) cs :=
  rfl

/-! ## Cleaning -/

/-- What stands on the stack while a path is cleaned. -/
def Proper (c : Bytes) : Prop := c ≠ [] ∧ c ≠ here ∧ slash ∉ c

theorem slash_notMem_of_mem_components {path c : Bytes} (hc : c ∈ components path) : slash ∉ c := by
  unfold components at hc
  induction path generalizing c with
  | nil =>
      rw [List.splitOn_nil, List.mem_singleton] at hc
      rw [hc]
      exact List.not_mem_nil
  | cons b path ih =>
      rw [List.splitOn_cons_eq_if_modifyHead] at hc
      split at hc
      · rcases List.mem_cons.mp hc with rfl | hc
        · exact List.not_mem_nil
        · exact ih hc
      · next hb =>
          obtain ⟨c₀, cs, hcs⟩ := List.exists_cons_of_ne_nil (List.splitOn_ne_nil slash path)
          rw [hcs, List.modifyHead_cons] at hc
          rcases List.mem_cons.mp hc with rfl | hc
          · rw [List.mem_cons, not_or]
            exact ⟨fun heq => hb (beq_iff_eq.mpr heq.symm), ih (hcs ▸ List.mem_cons_self)⟩
          · exact ih (hcs ▸ List.mem_cons_of_mem _ hc)

theorem proper_push {rooted : Bool} {stack : List Bytes} {c : Bytes}
    (hstack : ∀ x ∈ stack, Proper x) (hc : slash ∉ c) : ∀ x ∈ push rooted stack c, Proper x := by
  have hcons : c ≠ [] → c ≠ here → ∀ x ∈ c :: stack, Proper x := fun hempty hhere =>
    List.forall_mem_cons.mpr ⟨⟨hempty, hhere, hc⟩, hstack⟩
  unfold push
  split
  · exact hstack
  · next hskip =>
      obtain ⟨hempty, hhere⟩ : c ≠ [] ∧ c ≠ here := by simpa using hskip
      split
      · cases stack with
        | nil => cases rooted <;> simp [Proper, hempty, hhere, hc]
        | cons top rest =>
            show ∀ x ∈ (if top == up then c :: top :: rest else rest), Proper x
            split
            · exact hcons hempty hhere
            · exact (List.forall_mem_cons.mp hstack).2
      · exact hcons hempty hhere

/-- A component on the stack leads where it leads on the path. -/
theorem lead_push {rooted : Bool} {stack : List Bytes} {c : Bytes} {loc : Location}
    (hstack : ∀ x ∈ stack, Proper x) (hroot : rooted = true → loc = []) :
    lead loc (push rooted stack c).reverse = follow (lead loc stack.reverse) c := by
  unfold push
  split
  · next hskip =>
      rcases (by simpa using hskip : c = [] ∨ c = here) with rfl | rfl
      · rfl
      · rfl
  · split
    · next hup =>
        rw [beq_iff_eq.mp hup, follow_up]
        cases stack with
        | nil =>
            cases rooted with
            | false => rfl
            | true => rw [hroot rfl]; rfl
        | cons top rest =>
            show lead loc (if top == up then up :: top :: rest else rest).reverse = _
            split
            · simp
            · next htop =>
                obtain ⟨hempty, hhere, _⟩ := hstack top List.mem_cons_self
                have hname : IsName top := ⟨hempty, hhere, fun heq => htop (beq_iff_eq.mpr heq)⟩
                simp [follow_name _ hname]
    · simp

theorem proper_foldl_push {rooted : Bool} {cs stack : List Bytes} (hcs : ∀ c ∈ cs, slash ∉ c)
    (hstack : ∀ x ∈ stack, Proper x) : ∀ x ∈ cs.foldl (push rooted) stack, Proper x := by
  induction cs generalizing stack with
  | nil => exact hstack
  | cons c cs ih =>
      obtain ⟨hc, hcs⟩ := List.forall_mem_cons.mp hcs
      exact ih hcs (proper_push hstack hc)

theorem lead_foldl_push {rooted : Bool} {cs stack : List Bytes} {loc : Location}
    (hcs : ∀ c ∈ cs, slash ∉ c) (hstack : ∀ x ∈ stack, Proper x) (hroot : rooted = true → loc = []) :
    lead loc (cs.foldl (push rooted) stack).reverse = lead (lead loc stack.reverse) cs := by
  induction cs generalizing stack with
  | nil => rfl
  | cons c cs ih =>
      obtain ⟨hc, hcs⟩ := List.forall_mem_cons.mp hcs
      rw [List.foldl_cons, ih hcs (proper_push hstack hc), lead_push hstack hroot, lead_cons]

def normal (path : Bytes) : List Bytes :=
  ((components path).foldl (push (isAbsolute path)) []).reverse

theorem clean_eq (path : Bytes) : clean path =
    if isAbsolute path then slash :: Bytes.join [slash] (normal path)
    else if (Bytes.join [slash] (normal path)).isEmpty then here
    else Bytes.join [slash] (normal path) :=
  rfl

theorem proper_of_mem_normal {path c : Bytes} (hc : c ∈ normal path) : Proper c :=
  proper_foldl_push (fun _ => slash_notMem_of_mem_components) (fun _ hx => absurd hx List.not_mem_nil)
    c (List.mem_reverse.mp hc)

theorem lead_normal {path : Bytes} {loc : Location} (hroot : isAbsolute path = true → loc = []) :
    lead loc (normal path) = lead loc (components path) :=
  lead_foldl_push (fun _ => slash_notMem_of_mem_components)
    (fun _ hx => absurd hx List.not_mem_nil) hroot

theorem components_join {cs : List Bytes} (hcs : ∀ c ∈ cs, slash ∉ c) (hne : cs ≠ []) :
    components (Bytes.join [slash] cs) = cs :=
  List.splitOn_intercalate slash hcs hne

theorem components_slash_cons (path : Bytes) : components (slash :: path) = [] :: components path := by
  unfold components
  rw [List.splitOn_cons_eq_if_modifyHead, if_pos (beq_self_eq_true slash)]

theorem components_append_slash (dir path : Bytes) :
    components (dir ++ slash :: path) = components dir ++ components path :=
  List.splitOn_append_cons_self dir path

theorem components_of_notMem {c : Bytes} (hc : slash ∉ c) : components c = [c] :=
  List.splitOn_eq_singleton hc

theorem lead_components_join (loc : Location) {cs : List Bytes} (hcs : ∀ c ∈ cs, slash ∉ c) :
    lead loc (components (Bytes.join [slash] cs)) = lead loc cs := by
  by_cases hne : cs = []
  · subst hne
    rfl
  · rw [components_join hcs hne]

theorem join_eq_nil_iff {cs : List Bytes} (hcs : ∀ c ∈ cs, c ≠ []) :
    Bytes.join [slash] cs = [] ↔ cs = [] := by
  cases cs with
  | nil => exact iff_of_true rfl rfl
  | cons c cs =>
      have hc : c ≠ [] := hcs c List.mem_cons_self
      cases cs with
      | nil => simpa [Bytes.join, List.intercalate_singleton] using hc
      | cons c' cs => simp [Bytes.join, List.intercalate_cons_cons]

theorem isAbsolute_join {cs : List Bytes} (hcs : ∀ c ∈ cs, Proper c) :
    isAbsolute (Bytes.join [slash] cs) = false := by
  cases cs with
  | nil => rfl
  | cons c cs =>
      obtain ⟨hempty, _, hslash⟩ := hcs c List.mem_cons_self
      obtain ⟨b, c, rfl⟩ := List.exists_cons_of_ne_nil hempty
      have hb : b ≠ slash := fun heq => hslash (heq ▸ List.mem_cons_self)
      cases cs with
      | nil => simpa [Bytes.join, List.intercalate_singleton, isAbsolute] using hb
      | cons c' cs => simpa [Bytes.join, List.intercalate_cons_cons, isAbsolute] using hb

theorem isAbsolute_clean (path : Bytes) : isAbsolute (clean path) = isAbsolute path := by
  rw [clean_eq]
  split
  · next habsolute =>
      rw [habsolute]
      rfl
  · next hrelative =>
      rw [Bool.of_not_eq_true hrelative]
      split
      · rfl
      · exact isAbsolute_join fun c => proper_of_mem_normal

/-- A clean path leads where the path leads. -/
theorem spot_clean (cwd : Location) (path : Bytes) : spot cwd (clean path) = spot cwd path := by
  unfold spot
  rw [isAbsolute_clean, clean_eq]
  have hslash : ∀ c ∈ normal path, slash ∉ c := fun c hc => (proper_of_mem_normal hc).2.2
  split
  · next habsolute =>
      rw [components_slash_cons, lead_cons, follow_nil, lead_components_join [] hslash]
      exact lead_normal fun _ => rfl
  · next hrelative =>
      have hnormal : lead cwd (normal path) = lead cwd (components path) :=
        lead_normal fun habsolute => absurd habsolute hrelative
      split
      · next hbody =>
          have hnil : normal path = [] :=
            (join_eq_nil_iff fun c hc => (proper_of_mem_normal hc).1).mp (List.isEmpty_iff.mp hbody)
          rw [← hnormal, hnil]
          rfl
      · rw [lead_components_join cwd hslash, hnormal]

/-! ## Joining, and the way back -/

theorem spot_append_slash (cwd : Location) {dir : Bytes} (hdir : dir ≠ []) (path : Bytes) :
    spot cwd (dir ++ slash :: path) = lead (spot cwd dir) (components path) := by
  unfold spot
  rw [isAbsolute_append hdir, components_append_slash, lead_append]

theorem spot_append_name (cwd : Location) (dir : Bytes) {name : Bytes} (hname : slash ∉ name) :
    spot cwd (dir ++ slash :: name) = follow (spot cwd (dir ++ [slash])) name := by
  have habsolute : isAbsolute (dir ++ slash :: name) = isAbsolute (dir ++ [slash]) := by
    cases dir <;> rfl
  unfold spot
  rw [habsolute, components_append_slash, components_append_slash, components_of_notMem hname]
  simp [components]

theorem spot_join (cwd : Location) {dir path : Bytes} (hdir : dir ≠ []) :
    spot cwd (join dir path) = lead (spot cwd dir) (components path) := by
  unfold join
  rw [if_neg (by simpa using hdir)]
  split
  · next hpath =>
      rw [List.isEmpty_iff.mp hpath, spot_clean]
      rfl
  · rw [spot_clean, spot_append_slash cwd hdir]

end Path

namespace Disk

theorem next_eq_ok_follow {mode : Nat} {loc place : Location} {c : Bytes}
    (h : next mode loc c = .ok place) : place = Path.follow loc c := by
  unfold next at h
  unfold Path.follow
  split_ifs at h <;> cases h <;> simp_all

/-- Where a path can be followed, it leads where its text says. -/
theorem walk_eq_ok_lead {d : Disk} {loc place : Location} {cs : List Bytes}
    (h : d.walk loc cs = .ok place) : place = Path.lead loc cs := by
  induction cs generalizing loc with
  | nil => exact (Except.ok.inj h).symm
  | cons c cs ih =>
      obtain ⟨mode, mid, _, hnext, hrest⟩ := walk_cons_eq_ok_iff.mp h
      rw [Path.lead_cons, ← next_eq_ok_follow hnext]
      exact ih hrest

theorem locate_eq_ok_spot {d : Disk} {cwd loc : Location} {path : Bytes}
    (h : d.locate cwd path = .ok loc) : loc = Path.spot cwd path := by
  obtain ⟨start, horigin, hwalk⟩ := locate_eq_ok_iff.mp h
  rw [Path.spot, ← (origin_eq_ok horigin).2]
  exact walk_eq_ok_lead hwalk

end Disk

end Cascade
