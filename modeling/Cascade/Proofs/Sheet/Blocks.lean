import Cascade.Sheet.Block
import Cascade.Proofs.Sheet.Lexemes
import Mathlib.Data.List.TakeDrop

/-!
# Blocks and what encloses them

Where a block closes depends on nothing behind its closer, and where the search
for an opener stops depends on nothing behind the opener. A text is balanced if
a closing brace put behind it closes it as a block.
-/

namespace Cascade

namespace Lexeme

/-! ## The search for a code byte -/

theorem before_eq (p : UInt8 → Bool) (ls : List Lexeme) :
    before p ls = (ls.takeWhile (!isCode p ·), ls.dropWhile (!isCode p ·)) :=
  List.span_eq_takeWhile_dropWhile _ _

/-- The search stops at the first code byte with the property, or finds none. -/
theorem before_cases (p : UInt8 → Bool) (ls : List Lexeme) :
    (∃ pre b rest, ls = pre ++ .code b :: rest ∧ p b = true ∧
      (∀ l ∈ pre, l.isCode p = false) ∧ before p ls = (pre, .code b :: rest)) ∨
    ((∀ l ∈ ls, l.isCode p = false) ∧ before p ls = (ls, [])) := by
  induction ls with
  | nil => exact Or.inr ⟨by simp, rfl⟩
  | cons l ls ih =>
      cases hl : l.isCode p with
      | true =>
          cases l with
          | code b => exact Or.inl ⟨[], b, ls, rfl, hl, by simp, by simp [before_eq, hl]⟩
          | comment t c => exact Bool.noConfusion hl
      | false =>
          rw [before_eq] at ih ⊢
          rcases ih with ⟨pre, b, rest, rfl, hb, hpre, hspan⟩ | ⟨hnone, hspan⟩
          · refine Or.inl ⟨l :: pre, b, rest, rfl, hb, by simpa [hl] using hpre, ?_⟩
            simpa [hl] using hspan
          · refine Or.inr ⟨by simpa [hl] using hnone, ?_⟩
            simpa [hl] using hspan

theorem before_append {p : UInt8 → Bool} {pre : List Lexeme} {b : UInt8}
    (hpre : ∀ l ∈ pre, l.isCode p = false) (hb : p b = true) (rest : List Lexeme) :
    before p (pre ++ .code b :: rest) = (pre, .code b :: rest) := by
  induction pre with
  | nil => simp [before_eq, isCode, hb]
  | cons l pre ih =>
      have hl : l.isCode p = false := hpre l List.mem_cons_self
      have hrest := ih fun x hx => hpre x (List.mem_cons_of_mem _ hx)
      rw [before_eq] at hrest ⊢
      simpa [hl] using hrest

theorem before_eq_self {p : UInt8 → Bool} {ls : List Lexeme}
    (hls : ∀ l ∈ ls, l.isCode p = false) : before p ls = (ls, []) := by
  rcases before_cases p ls with ⟨pre, b, rest, rfl, hb, _⟩ | ⟨_, hspan⟩
  · have hfalse := hls (.code b) (by simp)
    rw [isCode, hb] at hfalse
    exact Bool.noConfusion hfalse
  · exact hspan

/-! ## The end of a block -/

/-- A closed block is its interior, its closer and the rest, and it closes at the
same place whatever the rest is. -/
theorem block_eq_some {d : Nat} {ls body rest : List Lexeme}
    (h : block d ls = some (body, rest)) :
    ls = body ++ .code closeBrace :: rest ∧
      ∀ rest', block d (body ++ .code closeBrace :: rest') = some (body, rest') := by
  fun_induction block d ls generalizing body rest with
  | case1 => cases h
  | case2 d t c ls ih =>
      obtain ⟨⟨inner, r⟩, hblock, hp⟩ := Option.map_eq_some_iff.mp h
      cases hp
      obtain ⟨rfl, hclose⟩ := ih hblock
      exact ⟨rfl, fun rest' => by simp [block, hclose]⟩
  | case3 d b ls hb ih =>
      obtain ⟨⟨inner, r⟩, hblock, hp⟩ := Option.map_eq_some_iff.mp h
      cases hp
      obtain ⟨rfl, hclose⟩ := ih hblock
      exact ⟨rfl, fun rest' => by simp [block, hb, hclose]⟩
  | case4 b ls hopen hclose =>
      cases h
      have hb : b = closeBrace := by simpa using hclose
      subst hb
      exact ⟨rfl, fun rest' => by simp [block, openBrace, closeBrace]⟩
  | case5 b ls hopen hclose d ih =>
      obtain ⟨⟨inner, r⟩, hblock, hp⟩ := Option.map_eq_some_iff.mp h
      cases hp
      obtain ⟨rfl, hrest⟩ := ih hblock
      exact ⟨rfl, fun rest' => by simp [block, hopen, hclose, hrest]⟩
  | case6 d b ls hopen hclose ih =>
      obtain ⟨⟨inner, r⟩, hblock, hp⟩ := Option.map_eq_some_iff.mp h
      cases hp
      obtain ⟨rfl, hrest⟩ := ih hblock
      exact ⟨rfl, fun rest' => by simp [block, hopen, hclose, hrest]⟩

/-- Without braces among the code bytes, the next closer closes the block. -/
theorem block_of_no_brace {ls : List Lexeme}
    (h : ∀ l ∈ ls, l.isCode (fun b => b == openBrace || b == closeBrace) = false)
    (rest : List Lexeme) : block 0 (ls ++ .code closeBrace :: rest) = some (ls, rest) := by
  induction ls with
  | nil => simp [block, openBrace, closeBrace]
  | cons l ls ih =>
      have hrest := ih fun x hx => h x (List.mem_cons_of_mem _ hx)
      cases l with
      | comment t c => simp [block, hrest]
      | code b =>
          have hb := h (.code b) List.mem_cons_self
          simp only [isCode, Bool.or_eq_false_iff] at hb
          simp [block, hb.1, hb.2, hrest]

end Lexeme

open Lexeme

/-! ## Balanced texts -/

/-- A closing brace right behind the text closes the text as a block. -/
def Balanced (body : Bytes) : Prop :=
  block 0 (ofBytes (body ++ [closeBrace])) = some (ofBytes body, [])

instance (body : Bytes) : Decidable (Balanced body) :=
  inferInstanceAs (Decidable (_ = _))

theorem balanced_iff {body : Bytes} :
    Balanced body ↔ (∀ l ∈ ofBytes body, l.isOpen = false) ∧
      ∀ rest, block 0 (ofBytes body ++ .code closeBrace :: rest) = some (ofBytes body, rest) := by
  constructor
  · intro h
    obtain ⟨hls, hclose⟩ := block_eq_some h
    have hlexed := lexed_ofBytes (body ++ [closeBrace])
    rw [hls] at hlexed
    exact ⟨hlexed.isOpen_eq_false, hclose⟩
  · rintro ⟨hopen, hclose⟩
    rw [Balanced, ofBytes_append hopen (by decide)]
    exact hclose []

/-- The interior of a closed block is balanced. -/
theorem balanced_source {body rest : List Lexeme} {ls : List Lexeme} (hls : Lexed ls)
    (h : block 0 ls = some (body, rest)) : Balanced (source body) := by
  obtain ⟨rfl, hclose⟩ := block_eq_some h
  rw [balanced_iff, hls.of_append_left.ofBytes_source]
  exact ⟨hls.isOpen_eq_false, hclose⟩

theorem Balanced.isOpen_eq_false {body : Bytes} (h : Balanced body) :
    ∀ l ∈ ofBytes body, l.isOpen = false :=
  (balanced_iff.mp h).1

theorem Balanced.ofBytes_append {body : Bytes} (h : Balanced body) (rest : Bytes) :
    ofBytes (body ++ closeBrace :: rest) = ofBytes body ++ .code closeBrace :: ofBytes rest := by
  have hread : ofBytes (closeBrace :: rest) = .code closeBrace :: ofBytes rest :=
    ofBytes_code_append (u := [closeBrace]) (by decide) rest
  rw [Lexeme.ofBytes_append h.isOpen_eq_false (by simp; decide), hread]

/-- A balanced text ends at the closing brace behind it, whatever follows. -/
theorem Balanced.block_eq {body : Bytes} (h : Balanced body) (rest : Bytes) :
    block 0 (ofBytes (body ++ closeBrace :: rest)) = some (ofBytes body, ofBytes rest) := by
  rw [h.ofBytes_append]
  exact (balanced_iff.mp h).2 _

/-- Nothing in the text closes the block that it starts in. -/
def Unclosed (body : Bytes) : Prop := block 0 (ofBytes body) = none

instance (body : Bytes) : Decidable (Unclosed body) :=
  inferInstanceAs (Decidable (_ = _))

/-- Behind an opening brace, a text is a balanced text up to a closing brace, or unclosed. -/
theorem balanced_or_unclosed (s : Bytes) :
    (∃ body rest, s = body ++ closeBrace :: rest ∧ Balanced body) ∨ Unclosed s := by
  cases hblock : block 0 (ofBytes s) with
  | none => exact Or.inr hblock
  | some p =>
      obtain ⟨body, rest⟩ := p
      refine Or.inl ⟨source body, source rest, ?_, balanced_source (lexed_ofBytes s) hblock⟩
      have hsource := congrArg source (block_eq_some hblock).1
      simpa [bytes] using hsource

theorem Balanced.not_unclosed {body : Bytes} (h : Balanced body) (rest : Bytes) :
    ¬ Unclosed (body ++ closeBrace :: rest) := by
  simp [Unclosed, h.block_eq]

/-- A closing brace behind an unclosed text closes it or changes nothing. -/
theorem Unclosed.append_closeBrace {body : Bytes} (h : Unclosed body) :
    Balanced body ∨ Unclosed (body ++ [closeBrace]) := by
  rcases balanced_or_unclosed (body ++ [closeBrace]) with ⟨inner, rest, heq, hinner⟩ | hopen
  · rcases List.eq_nil_or_concat rest with rfl | ⟨rest, b, rfl⟩
    · obtain ⟨rfl, _⟩ := List.append_inj' heq rfl
      exact Or.inl hinner
    · -- the brace that closes stands inside the text already
      rw [List.concat_eq_append, ← List.cons_append, ← List.append_assoc] at heq
      obtain ⟨rfl, _⟩ := List.append_inj' heq rfl
      exact absurd h (hinner.not_unclosed rest)
  · exact Or.inr hopen

end Cascade
