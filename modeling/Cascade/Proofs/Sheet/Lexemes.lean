import Cascade.Sheet.Lexeme

/-!
# Texts as lexemes

A text and its lexemes determine each other: the lexemes spell the text again,
and a list of lexemes that could be read off some text is read off the text it
spells. Lists of the second kind are closed under cutting anywhere, and under
joining wherever no comment is left open and no comment opener comes into being
at the seam.
-/

namespace Cascade

namespace Lexeme

/-! ## Comment closers -/

theorem closerEnd_bounds {s : Bytes} {n : Nat} (h : closerEnd s = some n) :
    2 ≤ n ∧ n ≤ s.length := by
  fun_induction closerEnd s generalizing n with
  | case1 a b s hab =>
      cases h
      simp
  | case2 a b s hab ih =>
      obtain ⟨m, hm, rfl⟩ := Option.map_eq_some_iff.mp h
      have hbounds := ih hm
      simp only [List.length_cons] at hbounds ⊢
      omega
  | case3 => cases h

/-- Where a comment closes depends only on the text up to there. -/
theorem closerEnd_take_append {s : Bytes} {n : Nat} (h : closerEnd s = some n) (t : Bytes) :
    closerEnd (s.take n ++ t) = some n := by
  fun_induction closerEnd s generalizing n with
  | case1 a b s hab =>
      cases h
      simp [closerEnd, hab]
  | case2 a b s hab ih =>
      obtain ⟨m, hm, rfl⟩ := Option.map_eq_some_iff.mp h
      obtain ⟨k, rfl⟩ : ∃ k, m = k + 1 := ⟨m - 1, by have := closerEnd_bounds hm; omega⟩
      have hrest := ih hm
      simp only [List.take_succ_cons, List.cons_append] at hrest ⊢
      rw [closerEnd, if_neg hab, hrest]
      rfl
  | case3 => cases h

theorem closerEnd_cons_of_not_mem (a : UInt8) {u : Bytes} (hu : slash ∉ u) :
    closerEnd (a :: u) = none := by
  induction u generalizing a with
  | nil => rfl
  | cons b u ih =>
      have hb : b ≠ slash := fun h => hu (h ▸ List.mem_cons_self)
      have hrest := ih b fun h => hu (List.mem_cons_of_mem _ h)
      simp [closerEnd, hb, hrest]

/-- Text without a slash closes nothing. -/
theorem closerEnd_append_of_not_mem {s u : Bytes} (hs : closerEnd s = none) (hu : slash ∉ u) :
    closerEnd (s ++ u) = none := by
  fun_induction closerEnd s with
  | case1 => cases hs
  | case2 a b s hab ih =>
      rw [Option.map_eq_none_iff] at hs
      rw [List.cons_append, List.cons_append, closerEnd, if_neg hab,
        Option.map_eq_none_iff]
      exact ih hs
  | case3 s hshort =>
      -- one byte at most is left, which could be the star of a closer, but no slash follows
      rcases s with _ | ⟨a, _ | ⟨b, s⟩⟩
      · rcases u with _ | ⟨a, u⟩
        · rfl
        · exact closerEnd_cons_of_not_mem a fun h => hu (List.mem_cons_of_mem _ h)
      · exact closerEnd_cons_of_not_mem a hu
      · exact absurd rfl (hshort a b s)

/-! ## Reading one lexeme -/

/-- Everything that can be read at `a :: s`. -/
theorem read_cases (a : UInt8) (s : Bytes) :
    (∃ inner n, a = slash ∧ s = star :: inner ∧ closerEnd inner = some n ∧
      read a s = (.comment (slash :: star :: inner.take n) true, n + 1)) ∨
    (∃ inner, a = slash ∧ s = star :: inner ∧ closerEnd inner = none ∧
      read a s = (.comment (slash :: star :: inner) false, inner.length + 1)) ∨
    ((a = slash → s.head? ≠ some star) ∧ read a s = (.code a, 0)) := by
  rcases s with _ | ⟨b, inner⟩
  · exact Or.inr (Or.inr ⟨by simp, rfl⟩)
  by_cases hab : a = slash ∧ b = star
  · obtain ⟨rfl, rfl⟩ := hab
    cases hn : closerEnd inner with
    | some n => exact Or.inl ⟨inner, n, rfl, rfl, hn, by simp [read, hn]⟩
    | none => exact Or.inr (Or.inl ⟨inner, rfl, rfl, hn, by simp [read, hn]⟩)
  · refine Or.inr (Or.inr ⟨?_, by simp [read, hab]⟩)
    intro ha hb
    simp only [List.head?_cons, Option.some.injEq] at hb
    exact hab ⟨ha, hb⟩

theorem ofBytesFrom_eq (k : Nat) (s : Bytes) : ofBytesFrom k s = ofBytes (s.drop k) := by
  induction s generalizing k with
  | nil => simp [ofBytes, ofBytesFrom]
  | cons a s ih =>
      cases k with
      | zero => rfl
      | succ k => simpa [ofBytesFrom] using ih k

@[simp] theorem ofBytes_nil : ofBytes [] = [] := rfl

theorem ofBytes_cons (a : UInt8) (s : Bytes) :
    ofBytes (a :: s) = (read a s).1 :: ofBytes (s.drop (read a s).2) := by
  rw [ofBytes, ofBytesFrom, ofBytesFrom_eq]

@[simp] theorem source_nil : source [] = [] := rfl

@[simp] theorem source_cons (l : Lexeme) (ls : List Lexeme) :
    source (l :: ls) = l.bytes ++ source ls := by
  simp [source]

@[simp] theorem source_append (xs ys : List Lexeme) :
    source (xs ++ ys) = source xs ++ source ys := by
  simp [source]

/-! ## The lists of lexemes that texts are read as -/

/-- No comment opens between two code bytes, a closed comment ends with its first
closer, and an open one stands at the end. -/
inductive Lexed : List Lexeme → Prop
  | nil : Lexed []
  | code {b : UInt8} {ls : List Lexeme} :
      (b = slash → (source ls).head? ≠ some star) → Lexed ls → Lexed (.code b :: ls)
  | comment {inner : Bytes} {ls : List Lexeme} :
      closerEnd inner = some inner.length → Lexed ls →
      Lexed (.comment (slash :: star :: inner) true :: ls)
  | openComment {inner : Bytes} :
      closerEnd inner = none → Lexed [.comment (slash :: star :: inner) false]

def isOpen : Lexeme → Bool
  | .code _ => false
  | .comment _ closed => !closed

/-- Reading a text as lexemes loses nothing and gives a well-formed list. -/
theorem ofBytes_spec (s : Bytes) : source (ofBytes s) = s ∧ Lexed (ofBytes s) := by
  -- by the length of the text, since a comment takes many bytes at once
  induction hn : s.length using Nat.strongRecOn generalizing s with
  | ind m ih =>
      rcases s with _ | ⟨a, s⟩
      · exact ⟨rfl, .nil⟩
      simp only [List.length_cons] at hn
      rw [ofBytes_cons]
      rcases read_cases a s with ⟨inner, n, rfl, rfl, hclose, hread⟩ |
          ⟨inner, rfl, rfl, hclose, hread⟩ | ⟨hab, hread⟩
      · simp only [List.length_cons] at hn
        have hbounds := closerEnd_bounds hclose
        have hrest := ih (inner.drop n).length (by simp only [List.length_drop]; omega) _ rfl
        rw [hread]
        simp only [List.drop_succ_cons, source_cons, bytes, List.cons_append, hrest.1,
          List.take_append_drop, true_and]
        refine .comment ?_ hrest.2
        have htake := closerEnd_take_append hclose []
        rw [List.append_nil] at htake
        rw [htake, List.length_take, Nat.min_eq_left hbounds.2]
      · rw [hread]
        simp only [List.drop_succ_cons, List.drop_length, ofBytes_nil, source_cons, bytes,
          source_nil, List.append_nil, true_and]
        exact .openComment hclose
      · have hrest := ih s.length (by omega) s rfl
        rw [hread]
        simp only [List.drop_zero, source_cons, bytes, List.singleton_append, hrest.1, true_and]
        exact .code (by rwa [hrest.1]) hrest.2

@[simp] theorem source_ofBytes (s : Bytes) : source (ofBytes s) = s := (ofBytes_spec s).1

theorem lexed_ofBytes (s : Bytes) : Lexed (ofBytes s) := (ofBytes_spec s).2

/-- A well-formed list is what its own text is read as. -/
theorem Lexed.ofBytes_source {ls : List Lexeme} (h : Lexed ls) : ofBytes (source ls) = ls := by
  induction h with
  | nil => rfl
  | @code b ls hb _ ih =>
      rw [source_cons, bytes, List.singleton_append, ofBytes_cons]
      rcases read_cases b (source ls) with ⟨inner, n, rfl, hs, _⟩ | ⟨inner, rfl, hs, _⟩ |
          ⟨_, hread⟩
      · exact absurd (by rw [hs]; rfl) (hb rfl)
      · exact absurd (by rw [hs]; rfl) (hb rfl)
      · rw [hread, List.drop_zero, ih]
  | @comment inner ls hclose _ ih =>
      have happend := closerEnd_take_append hclose (source ls)
      rw [List.take_length] at happend
      rw [source_cons, bytes, List.cons_append, List.cons_append, ofBytes_cons]
      simp [read, happend, ih]
  | @openComment inner hclose =>
      simp [bytes, ofBytes_cons, read, hclose]

/-! ## Cutting and joining -/

theorem Lexed.of_append_right {xs ys : List Lexeme} (h : Lexed (xs ++ ys)) : Lexed ys := by
  induction xs with
  | nil => exact h
  | cons x xs ih =>
      rw [List.cons_append] at h
      -- the cases on `h` need a variable where the append stands
      generalize hzs : xs ++ ys = zs at h ih
      cases h with
      | code _ h => exact ih h
      | comment _ h => exact ih h
      | openComment _ =>
          obtain ⟨_, rfl⟩ := List.append_eq_nil_iff.mp hzs
          exact .nil

theorem Lexed.tail {l : Lexeme} {ls : List Lexeme} (h : Lexed (l :: ls)) : Lexed ls :=
  Lexed.of_append_right (show Lexed ([l] ++ ls) from h)

theorem Lexed.of_append_left {xs ys : List Lexeme} (h : Lexed (xs ++ ys)) : Lexed xs := by
  induction xs with
  | nil => exact .nil
  | cons x xs ih =>
      rw [List.cons_append] at h
      generalize hzs : xs ++ ys = zs at h ih
      cases h with
      | code hb h =>
          refine .code (fun hslash hstar => hb hslash ?_) (ih h)
          rw [← hzs, source_append, List.head?_append, hstar]
          rfl
      | comment hclose h => exact .comment hclose (ih h)
      | openComment hclose =>
          obtain ⟨rfl, _⟩ := List.append_eq_nil_iff.mp hzs
          exact .openComment hclose

/-- Only the last lexeme can be an open comment. -/
theorem Lexed.isOpen_eq_false {xs ys : List Lexeme} {y : Lexeme} (h : Lexed (xs ++ y :: ys)) :
    ∀ x ∈ xs, x.isOpen = false := by
  induction xs with
  | nil => simp
  | cons x xs ih =>
      rw [List.cons_append] at h
      generalize hzs : xs ++ y :: ys = zs at h ih
      cases h with
      | code _ h => simpa [isOpen] using ih h
      | comment _ h => simpa [isOpen] using ih h
      | openComment _ => simp at hzs

theorem Lexed.append {xs ys : List Lexeme} (hxs : Lexed xs) (hys : Lexed ys)
    (hopen : ∀ x ∈ xs, x.isOpen = false) (hstar : (source ys).head? ≠ some star) :
    Lexed (xs ++ ys) := by
  induction hxs with
  | nil => exact hys
  | @code b ls hb _ ih =>
      rw [List.cons_append]
      refine .code (fun hslash => ?_) (ih fun x hx => hopen x (List.mem_cons_of_mem _ hx))
      rw [source_append, List.head?_append]
      cases hls : (source ls).head? with
      | none => exact hstar
      | some c =>
          have hc := hb hslash
          rw [hls] at hc
          exact hc
  | comment hclose _ ih =>
      exact .comment hclose (ih fun x hx => hopen x (List.mem_cons_of_mem _ hx))
  | openComment _ =>
      have hfalse := hopen _ List.mem_cons_self
      simp [isOpen] at hfalse

/-- A text may be cut where no comment is open and none opens across the cut. -/
theorem ofBytes_append {s t : Bytes} (hs : ∀ l ∈ ofBytes s, l.isOpen = false)
    (ht : t.head? ≠ some star) : ofBytes (s ++ t) = ofBytes s ++ ofBytes t := by
  have hjoin : Lexed (ofBytes s ++ ofBytes t) :=
    (lexed_ofBytes s).append (lexed_ofBytes t) hs (by rwa [source_ofBytes])
  have hread := hjoin.ofBytes_source
  rwa [source_append, source_ofBytes, source_ofBytes] at hread

/-- Bytes other than a slash are code wherever code is expected. -/
theorem ofBytes_code_append {u : Bytes} (hu : slash ∉ u) (t : Bytes) :
    ofBytes (u ++ t) = u.map .code ++ ofBytes t := by
  induction u with
  | nil => rfl
  | cons b u ih =>
      have hb : b ≠ slash := fun h => hu (h ▸ List.mem_cons_self)
      have hread : read b (u ++ t) = (.code b, 0) := by
        rcases read_cases b (u ++ t) with ⟨_, _, rfl, _⟩ | ⟨_, rfl, _⟩ | ⟨_, hread⟩
        · exact absurd rfl hb
        · exact absurd rfl hb
        · exact hread
      rw [List.cons_append, ofBytes_cons, hread, List.drop_zero,
        ih fun h => hu (List.mem_cons_of_mem _ h)]
      rfl

theorem Lexed.open_cases {ls : List Lexeme} (h : Lexed ls) :
    (∀ l ∈ ls, l.isOpen = false) ∨ ∃ xs t, ls = xs ++ [.comment t false] := by
  induction h with
  | nil => exact Or.inl (by simp)
  | @code b ls _ _ ih =>
      rcases ih with hclosed | ⟨xs, t, rfl⟩
      · exact Or.inl (by simpa [isOpen] using hclosed)
      · exact Or.inr ⟨.code b :: xs, t, rfl⟩
  | @comment inner ls _ _ ih =>
      rcases ih with hclosed | ⟨xs, t, rfl⟩
      · exact Or.inl (by simpa [isOpen] using hclosed)
      · exact Or.inr ⟨_ :: xs, t, rfl⟩
  | openComment _ => exact Or.inr ⟨[], _, rfl⟩

/-- Text without a slash leaves an open comment open. -/
theorem Lexed.extend_open {xs : List Lexeme} {t u : Bytes}
    (h : Lexed (xs ++ [.comment t false])) (hu : slash ∉ u) :
    Lexed (xs ++ [.comment (t ++ u) false]) := by
  induction xs with
  | nil =>
      rw [List.nil_append] at h
      cases h with
      | openComment hclose => exact .openComment (closerEnd_append_of_not_mem hclose hu)
  | cons x xs ih =>
      rw [List.cons_append] at h ⊢
      generalize hzs : xs ++ [.comment t false] = zs at h ih
      cases h with
      | @code b _ hb h =>
          refine .code (fun hslash => ?_) (ih h)
          -- the text behind the byte has only grown at its far end
          have hgrow : source (xs ++ [.comment (t ++ u) false]) = source zs ++ u := by
            rw [← hzs]
            simp [bytes]
          have hne : source zs ≠ [] := by
            rw [← hzs] at h ⊢
            intro hnil
            have hread := h.ofBytes_source
            rw [hnil] at hread
            simp at hread
          obtain ⟨c, s, hs⟩ := List.exists_cons_of_ne_nil hne
          have hc := hb hslash
          rw [hs] at hc
          rwa [hgrow, hs]
      | comment hclose h => exact .comment hclose (ih h)
      | openComment _ => simp at hzs

/-- Behind any text, bytes without a slash are code, or they lengthen an open comment. -/
theorem ofBytes_append_cases {s u : Bytes} (hu : slash ∉ u) (hstar : u.head? ≠ some star) :
    ((∀ l ∈ ofBytes s, l.isOpen = false) ∧ ofBytes (s ++ u) = ofBytes s ++ u.map .code) ∨
      ∃ xs t, ofBytes s = xs ++ [.comment t false] ∧
        ofBytes (s ++ u) = xs ++ [.comment (t ++ u) false] := by
  have hlexed := lexed_ofBytes s
  rcases hlexed.open_cases with hclosed | ⟨xs, t, hopen⟩
  · have hcode := ofBytes_code_append hu []
    rw [List.append_nil, ofBytes_nil, List.append_nil] at hcode
    exact Or.inl ⟨hclosed, by rw [ofBytes_append hclosed hstar, hcode]⟩
  · refine Or.inr ⟨xs, t, hopen, ?_⟩
    rw [hopen] at hlexed
    have hread := (hlexed.extend_open hu).ofBytes_source
    have hsource : source (xs ++ [.comment (t ++ u) false]) = s ++ u := by
      have hs := source_ofBytes s
      rw [hopen] at hs
      rw [← hs]
      simp [bytes]
    rwa [hsource] at hread

end Lexeme

end Cascade
