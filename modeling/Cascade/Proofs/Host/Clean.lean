import Cascade.Proofs.Host.Path

/-!
# The way of a clean path

A clean path goes up first and then only down. So all that it goes through stands above the
place where it starts or above the place where it leads, and its parent is the path without
its last name.
-/

namespace Cascade

namespace Path

/-- A stack that is built again when its components are pushed one after another. -/
inductive Stacked (rooted : Bool) : List Bytes → Prop
  | nil : Stacked rooted []
  | cons {top : Bytes} {rest : List Bytes} :
      Stacked rooted rest → push rooted rest top = top :: rest → Stacked rooted (top :: rest)

namespace Stacked

variable {rooted : Bool} {stack rest : List Bytes} {top : Bytes}

theorem push (h : Stacked rooted stack) (c : Bytes) : Stacked rooted (push rooted stack c) := by
  by_cases hsame : Path.push rooted stack c = c :: stack
  · rw [hsame]
    exact .cons h hsame
  · unfold Path.push at hsame ⊢
    split
    · exact h
    · next hskip =>
        rw [if_neg hskip] at hsame
        split
        · next hup =>
            rw [if_pos hup] at hsame
            cases h with
            | nil =>
                cases rooted with
                | true => exact .nil
                | false => exact absurd rfl hsame
            | @cons top rest hrest _ =>
                show Stacked rooted (if top == up then c :: top :: rest else rest)
                split
                · next htop => exact absurd (if_pos htop) hsame
                · exact hrest
        · next hname => exact absurd (if_neg hname) hsame

theorem foldl_push (h : Stacked rooted stack) (cs : List Bytes) :
    Stacked rooted (cs.foldl (Path.push rooted) stack) := by
  induction cs generalizing stack with
  | nil => exact h
  | cons c cs ih => exact ih (h.push c)

theorem foldl_reverse (h : Stacked rooted stack) :
    stack.reverse.foldl (Path.push rooted) [] = stack := by
  induction h with
  | nil => rfl
  | cons _ hpush ih =>
      rw [List.reverse_cons, List.foldl_append, ih, List.foldl_cons, List.foldl_nil, hpush]

/-- Below a step up there are only steps up. -/
theorem eq_up (h : Stacked rooted (up :: rest)) : ∀ c ∈ rest, c = up := by
  induction rest with
  | nil => exact fun c hc => absurd hc List.not_mem_nil
  | cons c rest ih =>
      cases h with
      | cons hrest hpush =>
          have hc : c = up := by
            by_contra hne
            have hshort : Path.push rooted (c :: rest) up = rest :=
              if_neg (fun heq => hne (beq_iff_eq.mp heq))
            rw [hshort] at hpush
            have hlength := congrArg List.length hpush
            simp only [List.length_cons] at hlength
            omega
          rw [hc] at hrest
          exact List.forall_mem_cons.mpr ⟨hc, ih hrest⟩

theorem lead_ups_above {cs : List Bytes} (hcs : ∀ c ∈ cs, c = up) (start : Location) :
    lead start cs <+: start := by
  induction cs generalizing start with
  | nil => exact List.prefix_rfl
  | cons c cs ih =>
      obtain ⟨hc, hrest⟩ := List.forall_mem_cons.mp hcs
      rw [lead_cons, hc]
      exact (ih hrest start.dropLast).trans (List.dropLast_prefix start)

/-- The way goes through places above its start and above its end. -/
theorem lead_above (h : Stacked rooted stack) (hproper : ∀ c ∈ stack, Proper c) (start : Location)
    {pre : List Bytes} (hpre : pre <+: stack.reverse) (hne : pre ≠ stack.reverse) :
    lead start pre <+: start ∨ lead start pre <+: (lead start stack.reverse).dropLast := by
  induction h with
  | nil => exact absurd (List.prefix_nil.mp hpre) hne
  | @cons top rest hrest hpush ih =>
      rw [List.reverse_cons] at hpre hne ⊢
      obtain ⟨htop, hbelow⟩ := List.forall_mem_cons.mp hproper
      have hbefore : pre <+: rest.reverse := (List.prefix_concat_iff.mp hpre).resolve_left hne
      by_cases hup : top = up
      · subst hup
        refine Or.inl (lead_ups_above ?_ start)
        intro c hc
        exact (Stacked.cons hrest hpush).eq_up c (List.mem_reverse.mp (hbefore.subset hc))
      · have hdown : lead start (rest.reverse ++ [top]) = lead start rest.reverse ++ [top] := by
          rw [lead_append]
          exact follow_name _ ⟨htop.1, htop.2.1, hup⟩
        rw [hdown, List.dropLast_concat]
        by_cases hall : pre = rest.reverse
        · rw [hall]
          exact Or.inr List.prefix_rfl
        · exact (ih hbelow hbefore hall).imp_right fun habove => habove.trans (List.dropLast_prefix _)

end Stacked

theorem stacked_normal (path : Bytes) : Stacked (isAbsolute path) (normal path).reverse := by
  unfold normal
  rw [List.reverse_reverse]
  exact Stacked.nil.foldl_push _

/-- The components of a clean path. -/
theorem components_clean {path : Bytes} (h : normal path ≠ []) :
    components (clean path) = (if isAbsolute path then [[]] else []) ++ normal path := by
  have hslash : ∀ c ∈ normal path, slash ∉ c := fun c hc => (proper_of_mem_normal hc).2.2
  have hbody : Bytes.join [slash] (normal path) ≠ [] := fun hnil =>
    h ((join_eq_nil_iff fun c hc => (proper_of_mem_normal hc).1).mp hnil)
  rw [clean_eq]
  split
  · rw [components_slash_cons, components_join hslash h]
    rfl
  · rw [if_neg (by simpa using hbody), components_join hslash h]
    rfl

theorem clean_ne_nil (path : Bytes) : clean path ≠ [] := by
  rw [clean_eq]
  split
  · exact List.cons_ne_nil _ _
  · split
    · exact List.cons_ne_nil _ _
    · next hbody => simpa using hbody

theorem normal_append_slash {path : Bytes} (hne : path ≠ []) :
    normal (path ++ [slash]) = normal path := by
  unfold normal
  rw [isAbsolute_append hne, components_append_slash, List.foldl_append]
  rfl

theorem normal_clean (path : Bytes) : normal (clean path) = normal path := by
  by_cases h : normal path = []
  · rw [clean_eq, h]
    split <;> rfl
  · have hstack : (normal path).foldl (push (isAbsolute path)) [] = (normal path).reverse := by
      have hbuilt := (stacked_normal path).foldl_reverse
      rwa [List.reverse_reverse] at hbuilt
    have hroot : (if isAbsolute path then [[]] else []).foldl (push (isAbsolute path)) [] = [] := by
      split <;> rfl
    show ((components (clean path)).foldl (push (isAbsolute (clean path))) []).reverse = _
    rw [isAbsolute_clean, components_clean h, List.foldl_append, hroot, hstack, List.reverse_reverse]

/-- A clean path stays as it is when it is cleaned. -/
theorem clean_clean (path : Bytes) : clean (clean path) = clean path := by
  rw [clean_eq, normal_clean, isAbsolute_clean, ← clean_eq]

theorem clean_clean_append_slash (path : Bytes) : clean (clean path ++ [slash]) = clean path := by
  rw [clean_eq, normal_append_slash (clean_ne_nil path), isAbsolute_append (clean_ne_nil path),
    ← clean_eq, clean_clean]

theorem join_concat {cs : List Bytes} (hne : cs ≠ []) (c : Bytes) :
    Bytes.join [slash] (cs ++ [c]) = Bytes.join [slash] cs ++ [slash] ++ c := by
  unfold Bytes.join
  induction cs with
  | nil => exact absurd rfl hne
  | cons c₀ cs ih =>
      cases cs with
      | nil => simp
      | cons c₁ cs =>
          rw [List.cons_append, List.cons_append, List.intercalate_cons_cons,
            List.intercalate_cons_cons, ← List.cons_append, ih (List.cons_ne_nil c₁ cs)]
          simp

theorem normal_append_name_ne_nil (dir : Bytes) {name : Bytes} (hname : IsName name)
    (hslash : slash ∉ name) : normal (dir ++ slash :: name) ≠ [] := by
  obtain ⟨hempty, hhere, hup⟩ := hname
  unfold normal
  rw [components_append_slash, components_of_notMem hslash, List.foldl_append]
  simp [push, hempty, hhere, hup]

/-- A name at the end of a path stays there when the path is cleaned. -/
theorem clean_append_name {dir name : Bytes} (hdir : normal dir ≠ []) (hne : dir ≠ [])
    (hname : IsName name) (hslash : slash ∉ name) :
    clean (dir ++ slash :: name) = clean dir ++ slash :: name := by
  obtain ⟨hempty, hhere, hup⟩ := hname
  have hnormal : normal (dir ++ slash :: name) = normal dir ++ [name] := by
    unfold normal
    rw [isAbsolute_append hne, components_append_slash, components_of_notMem hslash,
      List.foldl_append]
    simp [push, hempty, hhere, hup]
  have hbody : Bytes.join [slash] (normal dir) ≠ [] := fun hnil =>
    hdir ((join_eq_nil_iff fun c hc => (proper_of_mem_normal hc).1).mp hnil)
  rw [clean_eq, clean_eq, hnormal, isAbsolute_append hne, join_concat hdir]
  split
  · simp
  · rw [if_neg (by simp), if_neg (by simpa using hbody)]
    simp

theorem parent_append_name (path : Bytes) {name : Bytes} (hslash : slash ∉ name) :
    parent (path ++ slash :: name) = clean (path ++ [slash]) := by
  have hskip : ∀ b ∈ name.reverse, (b != slash) = true := by
    intro b hb
    refine bne_iff_ne.mpr fun heq => hslash ?_
    exact heq ▸ List.mem_reverse.mp hb
  have hreverse : (path ++ slash :: name).reverse = name.reverse ++ (slash :: path.reverse) := by simp
  unfold parent
  rw [hreverse, List.dropWhile_append_of_pos hskip, List.dropWhile_cons_of_neg (by simp)]
  simp

end Path

namespace Disk

variable {d d' : Disk} {cwd loc loc' : Location}

/-- A walk depends only on the directories it goes through. -/
theorem walk_congr {cs : List Bytes} (h : d.walk loc cs = .ok loc')
    (hsame : ∀ pre, pre <+: cs → pre ≠ cs → ∀ mode, d.node? (Path.lead loc pre) = some (.dir mode) →
      d'.node? (Path.lead loc pre) = some (.dir mode)) : d'.walk loc cs = .ok loc' := by
  induction cs generalizing loc with
  | nil => exact h
  | cons c cs ih =>
      obtain ⟨mode, mid, hnode, hnext, hrest⟩ := walk_cons_eq_ok_iff.mp h
      have hhere := hsame [] List.nil_prefix (List.cons_ne_nil c cs).symm mode hnode
      refine walk_cons_eq_ok_iff.mpr ⟨mode, mid, hhere, hnext, ?_⟩
      refine ih hrest fun pre hpre hne mode hmode => ?_
      rw [next_eq_ok_follow hnext] at hmode ⊢
      refine hsame (c :: pre) (List.cons_prefix_cons.mpr ⟨rfl, hpre⟩) ?_ mode hmode
      exact fun heq => hne (List.cons.inj heq).2

/-- A clean path can be followed as long as what is above its start and above its end stays. -/
theorem locate_clean_congr {path : Bytes} (hpath : Path.normal path ≠ [])
    (h : d.locate cwd (Path.clean path) = .ok loc)
    (hsame : ∀ place mode, place <+: cwd ∨ place <+: loc.dropLast →
      d.node? place = some (.dir mode) → d'.node? place = some (.dir mode)) :
    d'.locate cwd (Path.clean path) = .ok loc := by
  obtain ⟨start, horigin, hwalk⟩ := locate_eq_ok_iff.mp h
  refine locate_eq_ok_iff.mpr ⟨start, horigin, walk_congr hwalk ?_⟩
  intro pre hpre hne mode
  have hstart : start <+: cwd := by
    rw [(origin_eq_ok horigin).2]
    split
    · exact List.nil_prefix
    · exact List.prefix_rfl
  have hend : loc = Path.lead start (Path.normal path) := by
    rw [walk_eq_ok_lead hwalk, Path.components_clean hpath, Path.lead_append]
    split <;> rfl
  have hnormal : ∀ {pre : List Bytes}, pre <+: Path.normal path → pre ≠ Path.normal path →
      Path.lead start pre <+: start ∨ Path.lead start pre <+: loc.dropLast := by
    intro pre hpre hne
    have hproper : ∀ c ∈ (Path.normal path).reverse, Path.Proper c := fun c hc =>
      Path.proper_of_mem_normal (List.mem_reverse.mp hc)
    rw [← List.reverse_reverse (Path.normal path)] at hpre hne hend
    rw [hend]
    exact (Path.stacked_normal path).lead_above hproper start hpre hne
  -- an absolute path has an empty component in front, which leads nowhere
  have hway : Path.lead start pre <+: start ∨ Path.lead start pre <+: loc.dropLast := by
    rw [Path.components_clean hpath] at hpre hne
    split at hpre
    · next habsolute =>
        rw [if_pos habsolute] at hne
        cases pre with
        | nil => exact Or.inl List.prefix_rfl
        | cons c pre =>
            obtain ⟨rfl, hbelow⟩ := List.cons_prefix_cons.mp hpre
            show Path.lead start pre <+: start ∨ Path.lead start pre <+: loc.dropLast
            exact hnormal hbelow fun heq => hne (congrArg ([] :: ·) heq)
    · next hrelative =>
        rw [if_neg hrelative] at hne
        exact hnormal hpre hne
  exact hsame _ mode (hway.imp_left fun habove => habove.trans hstart)

/-- Where a name can be reached, so can the directory it stands in. -/
theorem locate_of_append_name {path name : Bytes} (hpath : path ≠ []) (hname : Path.IsName name)
    (hslash : Path.slash ∉ name)
    (h : d.locate cwd (path ++ Path.slash :: name) = .ok (loc ++ [name])) :
    d.locate cwd path = .ok loc := by
  obtain ⟨start, horigin, hwalk⟩ := locate_eq_ok_iff.mp h
  rw [Path.components_append_slash, Path.components_of_notMem hslash, walk_append_eq_ok_iff] at hwalk
  obtain ⟨mid, hwalk, hlast⟩ := hwalk
  obtain ⟨mode, _, hnext⟩ := walk_singleton_eq_ok_iff.mp hlast
  have hmid : mid = loc := by
    have hfollow := next_eq_ok_follow hnext
    rw [Path.follow_name mid hname] at hfollow
    exact (List.append_inj_left' hfollow rfl).symm
  rw [hmid] at hwalk
  refine locate_eq_ok_iff.mpr ⟨start, ?_, hwalk⟩
  unfold origin at horigin ⊢
  rw [Path.isAbsolute_append hpath] at horigin
  rw [if_neg (by simp)] at horigin
  split at horigin
  · cases horigin
  · next hnul =>
      split at horigin
      · cases horigin
      · next hlong =>
          have hnul' : ¬ path.contains 0 = true := by
            intro hmem
            exact hnul (by simp [List.contains_iff_mem.mp hmem])
          have hlong' : ¬ pathLimit < path.length := by
            rw [List.length_append] at hlong
            omega
          rw [if_neg (by simpa using hpath), if_neg hnul', if_neg hlong', horigin]

end Disk

end Cascade
