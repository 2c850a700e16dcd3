import Cascade.Sheet.Scan
import Cascade.Proofs.Sheet.Blocks
import Mathlib.Data.Set.Card

/-!
# Matching braces, by position

The lexemes of a text are a way to walk it. Here the same is said by positions alone: which
positions lie outside comments, where the first opener stands among these, and which closing
brace is the first to make up for all the opening ones. A block ends at that brace, and the
search for an opener stops at that opener.
-/

namespace Cascade

open Lexeme

/-! ## Comments, by position -/

/-- Two bytes that stand at `k` and behind it. -/
def PairAt (s : Bytes) (k : Nat) (a b : UInt8) : Prop := s[k]? = some a ∧ s[k + 1]? = some b

/-- A comment that opens at `a` ends at `e`: behind the first closer that is clear of the opener,
or at the end of the text. -/
def EndsAt (s : Bytes) (a e : Nat) : Prop :=
  IsLeast {e | a + 4 ≤ e ∧ PairAt s (e - 2) star slash} e ∨
    (∀ i, a + 2 ≤ i → ¬ PairAt s i star slash) ∧ e = s.length

/-- Read from `p` on, the text has a comment from `a` to `e`. The next comment is looked for
behind the end of the one before. -/
inductive Span (s : Bytes) : Nat → Nat → Nat → Prop
  | first {p a e : Nat} : IsLeast {a | p ≤ a ∧ PairAt s a slash star} a → EndsAt s a e →
      Span s p a e
  | later {p a e a' e' : Nat} : IsLeast {a | p ≤ a ∧ PairAt s a slash star} a → EndsAt s a e →
      Span s e a' e' → Span s p a' e'

/-- Read from `p` on, the position is in no comment. -/
def CodeAt (s : Bytes) (p k : Nat) : Prop :=
  p ≤ k ∧ k < s.length ∧ ∀ a e, Span s p a e → ¬ (a ≤ k ∧ k < e)

theorem pairAt_drop {s : Bytes} {n k : Nat} {a b : UInt8} :
    PairAt (s.drop n) k a b ↔ PairAt s (n + k) a b := by
  unfold PairAt
  rw [List.getElem?_drop, List.getElem?_drop, Nat.add_assoc]

theorem PairAt.lt_length {s : Bytes} {k : Nat} {a b : UInt8} (h : PairAt s k a b) :
    k + 1 < s.length :=
  (List.getElem?_eq_some_iff.mp h.2).1

/-- The closer that is found is the first one. -/
theorem closerEnd_isLeast {s : Bytes} {n : Nat} (h : closerEnd s = some n) :
    PairAt s (n - 2) star slash ∧ ∀ i, PairAt s i star slash → n - 2 ≤ i := by
  fun_induction closerEnd s generalizing n with
  | case1 a b s hab =>
      cases h
      simp only [Bool.and_eq_true, beq_iff_eq] at hab
      obtain ⟨rfl, rfl⟩ := hab
      exact ⟨⟨rfl, rfl⟩, fun i _ => Nat.zero_le i⟩
  | case2 a b s hab ih =>
      obtain ⟨m, hm, rfl⟩ := Option.map_eq_some_iff.mp h
      obtain ⟨hpair, hleast⟩ := ih hm
      have hbound := (closerEnd_bounds hm).1
      have hindex : m + 1 - 2 = m - 2 + 1 := by omega
      refine ⟨?_, ?_⟩
      · rw [hindex]
        exact hpair
      · intro i hi
        cases i with
        | zero =>
            obtain ⟨ha, hb⟩ := hi
            cases ha
            cases hb
            exact absurd rfl hab
        | succ i =>
            have hi := hleast i hi
            omega
  | case3 => cases h

theorem not_pairAt_of_closerEnd {s : Bytes} (h : closerEnd s = none) (i : Nat) :
    ¬ PairAt s i star slash := by
  intro hi
  fun_induction closerEnd s generalizing i with
  | case1 => cases h
  | case2 a b s hab ih =>
      cases i with
      | zero =>
          obtain ⟨ha, hb⟩ := hi
          cases ha
          cases hb
          exact absurd rfl hab
      | succ i => exact ih (Option.map_eq_none_iff.mp h) i hi
  | case3 s hshort =>
      rcases s with _ | ⟨a, _ | ⟨b, s⟩⟩
      · exact absurd hi.lt_length (Nat.not_lt_zero _)
      · exact absurd hi.lt_length (by simp)
      · exact hshort a b s rfl

/-! ## The walk over lexemes -/

/-- What lies ahead of a walk over the lexemes of a text is the lexemes of the rest. -/
theorem ofBytes_drop_extent {s : Bytes} {pre ls : List Lexeme} (h : ofBytes s = pre ++ ls) :
    ofBytes (s.drop (extent pre)) = ls := by
  have hlexed := lexed_ofBytes s
  rw [h] at hlexed
  have hsource : s = source pre ++ source ls := by
    rw [← source_append, ← h, source_ofBytes]
  have hdrop : s.drop (extent pre) = source ls := by
    rw [hsource]
    exact List.drop_left
  rw [hdrop, hlexed.of_append_right.ofBytes_source]

theorem ofBytes_drop_cons {s : Bytes} {p : Nat} {l : Lexeme} {ls : List Lexeme}
    (h : ofBytes (s.drop p) = l :: ls) : ofBytes (s.drop (p + l.bytes.length)) = ls := by
  have hrest := ofBytes_drop_extent (show ofBytes (s.drop p) = [l] ++ ls from h)
  simpa [extent, List.drop_drop] using hrest

/-- A span starts no earlier than where it was looked for. -/
theorem Span.le {s : Bytes} {p a e : Nat} (h : Span s p a e) : p ≤ a := by
  induction h with
  | first ha _ => exact ha.1.1
  | @later p a e a' e' ha he _ ih =>
      have hend : a ≤ e := by
        rcases he with he | ⟨_, rfl⟩
        · have := he.1.1
          omega
        · have := ha.1.2.lt_length
          omega
      exact (ha.1.1.trans hend).trans ih

theorem isLeast_succ {s : Bytes} {p a : Nat} (hp : ¬ PairAt s p slash star) :
    IsLeast {a | p ≤ a ∧ PairAt s a slash star} a ↔
      IsLeast {a | p + 1 ≤ a ∧ PairAt s a slash star} a := by
  have hset : {a | p ≤ a ∧ PairAt s a slash star} = {a | p + 1 ≤ a ∧ PairAt s a slash star} := by
    ext i
    refine and_congr_left fun hi => ⟨fun hle => ?_, Nat.le_of_succ_le⟩
    refine Nat.lt_of_le_of_ne hle ?_
    rintro rfl
    exact hp hi
  rw [hset]

/-- Where no comment opens, the comments are those from the next position on. -/
theorem span_succ {s : Bytes} {p a e : Nat} (hp : ¬ PairAt s p slash star) :
    Span s p a e ↔ Span s (p + 1) a e := by
  constructor
  · rintro (⟨ha, he⟩ | ⟨ha, he, hlater⟩)
    · exact .first ((isLeast_succ hp).mp ha) he
    · exact .later ((isLeast_succ hp).mp ha) he hlater
  · rintro (⟨ha, he⟩ | ⟨ha, he, hlater⟩)
    · exact .first ((isLeast_succ hp).mpr ha) he
    · exact .later ((isLeast_succ hp).mpr ha) he hlater

theorem EndsAt.unique {s : Bytes} {a e e' : Nat} (h : EndsAt s a e) (h' : EndsAt s a e') :
    e = e' := by
  rcases h with h | ⟨h, rfl⟩ <;> rcases h' with h' | ⟨h', rfl⟩
  · exact h.unique h'
  · exact absurd h.1.2 (h' _ (by have := h.1.1; omega))
  · exact absurd h'.1.2 (h _ (by have := h'.1.1; omega))
  · rfl

/-- Where a comment opens, there is that comment, and those from its end on. -/
theorem span_comment {s : Bytes} {p e a e' : Nat} (hp : PairAt s p slash star)
    (he : EndsAt s p e) : Span s p a e' ↔ (a = p ∧ e' = e) ∨ Span s e a e' := by
  have hleast : IsLeast {a | p ≤ a ∧ PairAt s a slash star} p := ⟨⟨le_rfl, hp⟩, fun i hi => hi.1⟩
  constructor
  · rintro (⟨ha, he'⟩ | ⟨ha, he'', hlater⟩)
    · obtain rfl := ha.unique hleast
      exact Or.inl ⟨rfl, he'.unique he⟩
    · obtain rfl := ha.unique hleast
      obtain rfl := he''.unique he
      exact Or.inr hlater
  · rintro (⟨rfl, rfl⟩ | hlater)
    · exact .first hleast he
    · exact .later hleast he hlater

theorem codeAt_succ {s : Bytes} {p k : Nat} (hlt : p < s.length) (hp : ¬ PairAt s p slash star) :
    CodeAt s p k ↔ k = p ∨ CodeAt s (p + 1) k := by
  unfold CodeAt
  simp only [span_succ hp]
  constructor
  · rintro ⟨hle, hk, hspan⟩
    rcases Nat.eq_or_lt_of_le hle with rfl | hlt
    · exact Or.inl rfl
    · exact Or.inr ⟨hlt, hk, hspan⟩
  · rintro (rfl | ⟨hle, hk, hspan⟩)
    · exact ⟨le_rfl, hlt, fun a e hae hin => absurd hin.1 (Nat.not_le.mpr hae.le)⟩
    · exact ⟨Nat.le_of_succ_le hle, hk, hspan⟩

theorem codeAt_comment {s : Bytes} {p e k : Nat} (hp : PairAt s p slash star) (he : EndsAt s p e)
    (hle : p ≤ e) : CodeAt s p k ↔ CodeAt s e k := by
  unfold CodeAt
  simp only [span_comment hp he]
  constructor
  · rintro ⟨hpk, hk, hspan⟩
    have hek : e ≤ k := by
      by_contra hlt
      exact hspan p e (Or.inl ⟨rfl, rfl⟩) ⟨hpk, Nat.not_le.mp hlt⟩
    exact ⟨hek, hk, fun a e' hae => hspan a e' (Or.inr hae)⟩
  · rintro ⟨hek, hk, hspan⟩
    refine ⟨hle.trans hek, hk, ?_⟩
    rintro a e' (⟨rfl, rfl⟩ | hae)
    · exact fun hin => absurd hin.2 (Nat.not_lt.mpr hek)
    · exact hspan a e' hae

/-- The first lexeme from `p` on is a code byte where no comment opens, or the comment that opens
there, up to its end. -/
theorem lexeme_at {s : Bytes} {p : Nat} {l : Lexeme} {ls : List Lexeme}
    (h : ofBytes (s.drop p) = l :: ls) :
    (∃ b, l = .code b ∧ p < s.length ∧ ¬ PairAt s p slash star) ∨
      ∃ t closed, l = .comment t closed ∧ PairAt s p slash star ∧
        if closed then IsLeast {e | p + 4 ≤ e ∧ PairAt s (e - 2) star slash} (p + t.length)
        else (∀ i, p + 2 ≤ i → ¬ PairAt s i star slash) ∧ p + t.length = s.length := by
  obtain ⟨a, rest, hdrop⟩ : ∃ a rest, s.drop p = a :: rest := by
    cases hdrop : s.drop p with
    | nil =>
        rw [hdrop] at h
        cases h
    | cons a rest => exact ⟨a, rest, rfl⟩
  have hlength : s.length = p + 1 + rest.length := by
    have hcount := congrArg List.length hdrop
    rw [List.length_drop, List.length_cons] at hcount
    omega
  have hpair : ∀ i x y, PairAt (a :: rest) i x y ↔ PairAt s (p + i) x y := by
    intro i x y
    rw [← hdrop]
    exact pairAt_drop
  rw [hdrop, ofBytes_cons] at h
  obtain ⟨hl, _⟩ := List.cons.inj h
  rcases read_cases a rest with ⟨inner, n, rfl, rfl, hclose, hread⟩ |
      ⟨inner, rfl, rfl, hclose, hread⟩ | ⟨hnot, hread⟩
  · -- a comment that is closed
    rw [hread] at hl
    subst hl
    obtain ⟨hcloser, hfirst⟩ := closerEnd_isLeast hclose
    have hbounds := closerEnd_bounds hclose
    have hlen : (slash :: star :: inner.take n).length = n + 2 := by simp [hbounds.2]
    refine Or.inr ⟨_, true, rfl, (hpair 0 _ _).mp ⟨rfl, rfl⟩, ?_⟩
    rw [if_pos rfl, hlen]
    refine ⟨⟨by omega, ?_⟩, ?_⟩
    · have hat := (hpair (n - 2 + 2) _ _).mp hcloser
      have hindex : p + (n + 2) - 2 = p + (n - 2 + 2) := by omega
      rw [hindex]
      exact hat
    · rintro e ⟨hle, hat⟩
      have hindex : e - 2 = p + (e - 2 - p - 2 + 2) := by omega
      rw [hindex] at hat
      have hmin := hfirst _ ((hpair _ _ _).mpr hat)
      omega
  · -- a comment that takes the rest
    rw [hread] at hl
    subst hl
    refine Or.inr ⟨_, false, rfl, (hpair 0 _ _).mp ⟨rfl, rfl⟩, ?_⟩
    rw [if_neg Bool.false_ne_true]
    refine ⟨fun i hi hat => ?_, ?_⟩
    · have hindex : i = p + (i - p - 2 + 2) := by omega
      rw [hindex] at hat
      exact not_pairAt_of_closerEnd hclose _ ((hpair _ _ _).mpr hat)
    · rw [hlength]
      simp only [List.length_cons]
      omega
  · rw [hread] at hl
    subst hl
    refine Or.inl ⟨a, rfl, by omega, fun hat => ?_⟩
    obtain ⟨ha, hb⟩ := (hpair 0 _ _).mpr hat
    refine hnot (Option.some.inj ha) ?_
    rw [← hb, List.head?_eq_getElem?]
    rfl

/-- The first lexeme from `p` on, if it is a comment, ends where the comment ends. -/
theorem endsAt_comment {s : Bytes} {p : Nat} {t : Bytes} {closed : Bool}
    (h : if closed then IsLeast {e | p + 4 ≤ e ∧ PairAt s (e - 2) star slash} (p + t.length)
      else (∀ i, p + 2 ≤ i → ¬ PairAt s i star slash) ∧ p + t.length = s.length) :
    EndsAt s p (p + t.length) := by
  cases closed with
  | true => exact Or.inl h
  | false => exact Or.inr h

/-- The first lexeme from `p` on tells whether `p` is code, and where to go on. -/
theorem codeAt_cons {s : Bytes} {p k : Nat} {l : Lexeme} {ls : List Lexeme}
    (h : ofBytes (s.drop p) = l :: ls) :
    CodeAt s p k ↔ ((∃ b, l = .code b) ∧ k = p) ∨ CodeAt s (p + l.bytes.length) k := by
  rcases lexeme_at h with ⟨b, rfl, hlt, hnot⟩ | ⟨t, closed, rfl, hopen, hend⟩
  · rw [codeAt_succ hlt hnot]
    simp [bytes]
  · rw [bytes, codeAt_comment hopen (endsAt_comment hend) (Nat.le_add_right _ _)]
    simp

theorem length_le_of_ofBytes_drop {s : Bytes} {p : Nat} (h : ofBytes (s.drop p) = []) :
    s.length ≤ p := by
  have hsource := congrArg source h
  rw [source_ofBytes] at hsource
  exact List.drop_eq_nil_iff.mp hsource

theorem extent_cons (l : Lexeme) (ls : List Lexeme) :
    extent (l :: ls) = l.bytes.length + extent ls := by
  rw [extent, source_cons, List.length_append, extent]

theorem getElem?_of_code {s : Bytes} {p : Nat} {b : UInt8} {ls : List Lexeme}
    (h : ofBytes (s.drop p) = .code b :: ls) : s[p]? = some b := by
  have hsource := congrArg source h
  rw [source_ofBytes] at hsource
  have hhead := congrArg (fun t => t[0]?) hsource
  rw [List.getElem?_drop] at hhead
  exact hhead

/-- The code bytes of a text are its lexemes of that kind. -/
theorem codeAt_iff {s : Bytes} {p k : Nat} {b : UInt8} :
    CodeAt s p k ∧ s[k]? = some b ↔
      ∃ pre post, ofBytes (s.drop p) = pre ++ .code b :: post ∧ k = p + extent pre := by
  generalize hls : ofBytes (s.drop p) = ls
  induction ls generalizing p with
  | nil =>
      have hend := length_le_of_ofBytes_drop hls
      constructor
      · rintro ⟨⟨hle, hlt, _⟩, _⟩
        omega
      · rintro ⟨pre, post, hnil, _⟩
        simp at hnil
  | cons l ls ih =>
      rw [codeAt_cons hls]
      constructor
      · rintro ⟨⟨⟨c, rfl⟩, rfl⟩ | hk, hb⟩
        · obtain rfl := Option.some.inj ((getElem?_of_code hls).symm.trans hb)
          exact ⟨[], ls, rfl, rfl⟩
        · obtain ⟨pre, post, rfl, rfl⟩ := (ih (ofBytes_drop_cons hls)).mp ⟨hk, hb⟩
          exact ⟨l :: pre, post, rfl, by rw [extent_cons, Nat.add_assoc]⟩
      · rintro ⟨pre, post, hsplit, rfl⟩
        cases pre with
        | nil =>
            obtain ⟨rfl, rfl⟩ := List.cons.inj hsplit
            exact ⟨Or.inl ⟨⟨b, rfl⟩, rfl⟩, getElem?_of_code hls⟩
        | cons x pre =>
            obtain ⟨rfl, rfl⟩ := List.cons.inj hsplit
            have hindex : p + extent (l :: pre) = p + l.bytes.length + extent pre := by
              rw [extent_cons, Nat.add_assoc]
            have hrest := (ih (ofBytes_drop_cons hls)).mpr ⟨pre, post, rfl, hindex⟩
            exact ⟨Or.inr hrest.1, hrest.2⟩

/-! ## Counting code bytes -/

/-- How many code bytes `b` there are from `p` up to and including `k`, read from `p` on. -/
noncomputable def codeCount (s : Bytes) (p : Nat) (b : UInt8) (k : Nat) : Nat :=
  {i | i ≤ k ∧ CodeAt s p i ∧ s[i]? = some b}.ncard

/-- How many code bytes `b` there are among lexemes. -/
def Lexeme.tally (b : UInt8) (ls : List Lexeme) : Nat := ls.countP (isCode (· == b))

@[simp] theorem tally_nil (b : UInt8) : tally b [] = 0 := rfl

theorem tally_cons (b : UInt8) (l : Lexeme) (ls : List Lexeme) :
    tally b (l :: ls) = tally b ls + if l = .code b then 1 else 0 := by
  unfold tally
  rw [List.countP_cons]
  cases l <;> simp [isCode]

theorem tally_append (b : UInt8) (ls ls' : List Lexeme) :
    tally b (ls ++ ls') = tally b ls + tally b ls' :=
  List.countP_append

/-- The first lexeme gives the position `p` or nothing, the others give what is behind it. -/
theorem setOf_codeAt_cons {s : Bytes} {p n : Nat} {l : Lexeme} {ls : List Lexeme} (b : UInt8)
    (h : ofBytes (s.drop p) = l :: ls) (hn : p + l.bytes.length ≤ n) :
    {i | i < n ∧ CodeAt s p i ∧ s[i]? = some b} =
      {i | i < n ∧ CodeAt s (p + l.bytes.length) i ∧ s[i]? = some b} ∪
        {i | i = p ∧ l = .code b} := by
  ext i
  constructor
  · rintro ⟨hlt, hcode, hb⟩
    rcases (codeAt_cons h).mp hcode with ⟨⟨c, rfl⟩, rfl⟩ | hcode
    · obtain rfl := Option.some.inj ((getElem?_of_code h).symm.trans hb)
      exact Or.inr ⟨rfl, rfl⟩
    · exact Or.inl ⟨hlt, hcode, hb⟩
  · rintro (⟨hlt, hcode, hb⟩ | ⟨rfl, rfl⟩)
    · exact ⟨hlt, (codeAt_cons h).mpr (Or.inr hcode), hb⟩
    · exact ⟨hn, (codeAt_cons h).mpr (Or.inl ⟨⟨b, rfl⟩, rfl⟩), getElem?_of_code h⟩

/-- The places of a code byte are as many as the lexemes that are this byte. -/
theorem ncard_codeAt {s : Bytes} {p : Nat} {pre post : List Lexeme} (b : UInt8)
    (h : ofBytes (s.drop p) = pre ++ post) :
    {i | i < p + extent pre ∧ CodeAt s p i ∧ s[i]? = some b}.ncard = tally b pre := by
  induction pre generalizing p with
  | nil =>
      have hempty : {i | i < p + extent [] ∧ CodeAt s p i ∧ s[i]? = some b} = ∅ := by
        refine Set.eq_empty_of_forall_notMem ?_
        rintro i ⟨hlt, hcode, _⟩
        exact absurd hcode.1 (Nat.not_le.mpr hlt)
      rw [hempty, Set.ncard_empty]
      rfl
  | cons l pre ih =>
      have hrest := ih (ofBytes_drop_cons h)
      rw [extent_cons, ← Nat.add_assoc, tally_cons, ← hrest]
      have hdisjoint : Disjoint {i | i < p + l.bytes.length + extent pre ∧
          CodeAt s (p + l.bytes.length) i ∧ s[i]? = some b} {i | i = p ∧ l = .code b} := by
        refine Set.disjoint_left.mpr ?_
        rintro i ⟨_, hcode, _⟩ ⟨rfl, rfl⟩
        exact absurd hcode.1 (by simp [bytes])
      have hsingle : {i | i = p ∧ l = .code b}.ncard = if l = .code b then 1 else 0 := by
        split
        · next hl => simp [hl]
        · next hl => simp [hl]
      have hfinite := Set.finite_lt_nat (p + l.bytes.length + extent pre)
      rw [setOf_codeAt_cons b h (Nat.le_add_right _ _),
        Set.ncard_union_eq hdisjoint (hfinite.subset fun i hi => hi.1)
          ((Set.finite_singleton p).subset fun i hi => hi.1), hsingle]

theorem codeCount_eq {s : Bytes} {p : Nat} {pre post : List Lexeme} {c : UInt8} (b : UInt8)
    (h : ofBytes (s.drop p) = pre ++ .code c :: post) :
    codeCount s p b (p + extent pre) = tally b (pre ++ [.code c]) := by
  have hsplit : ofBytes (s.drop p) = (pre ++ [.code c]) ++ post := by
    rw [h, List.append_assoc, List.singleton_append]
  have hcount := ncard_codeAt b hsplit
  have hextent : p + extent (pre ++ [.code c]) = p + extent pre + 1 := by
    simp [extent, bytes]
    rfl
  rw [hextent] at hcount
  unfold codeCount
  rw [← hcount]
  simp only [Nat.lt_succ_iff]

/-! ## Where a block ends -/

/-- The closing braces make up for the opening ones and `depth` more. -/
def Lexeme.Evens (depth : Nat) (ls : List Lexeme) : Prop :=
  tally closeBrace ls = tally openBrace ls + depth

/-- A closing brace between `body` and `rest` makes up for the last opening one. -/
def Lexeme.Ends (depth : Nat) (ls body rest : List Lexeme) : Prop :=
  ls = body ++ .code closeBrace :: rest ∧ Evens depth body

/-- What stands in front of a block changes the depth it has to make up for. -/
theorem ends_cons_iff {depth depth' : Nat} {l : Lexeme} {ls : List Lexeme}
    (hl : l = .code openBrace ∧ depth' = depth + 1 ∨ l = .code closeBrace ∧ depth = depth' + 1 ∨
      (l ≠ .code openBrace ∧ l ≠ .code closeBrace) ∧ depth = depth') (body rest : List Lexeme) :
    Ends depth (l :: ls) body rest ↔ ∃ body', body = l :: body' ∧ Ends depth' ls body' rest := by
  have hevens : ∀ ls, Evens depth (l :: ls) ↔ Evens depth' ls := by
    intro ls
    unfold Evens
    rw [tally_cons, tally_cons]
    rcases hl with ⟨rfl, rfl⟩ | ⟨rfl, rfl⟩ | ⟨⟨hopen, hclose⟩, rfl⟩
    · rw [if_pos rfl, if_neg (by decide)]
      omega
    · rw [if_pos rfl, if_neg (by decide)]
      omega
    · rw [if_neg hopen, if_neg hclose]
      omega
  constructor
  · rintro ⟨hsplit, heven⟩
    cases body with
    | nil =>
        -- the first closing brace ends only a block of depth zero
        obtain ⟨rfl, _⟩ := List.cons.inj hsplit
        rcases hl with ⟨h, _⟩ | ⟨_, rfl⟩ | ⟨⟨_, h⟩, _⟩
        · exact absurd h (by decide)
        · exact absurd heven.symm (Nat.succ_ne_zero _)
        · exact absurd rfl h
    | cons x body =>
        obtain ⟨rfl, rfl⟩ := List.cons.inj hsplit
        exact ⟨body, rfl, rfl, (hevens body).mp heven⟩
  · rintro ⟨body, rfl, rfl, heven⟩
    exact ⟨rfl, (hevens body).mpr heven⟩

def Lexeme.FirstEnd (depth : Nat) (ls : List Lexeme) : Option (List Lexeme × List Lexeme) → Prop
  | some (body, rest) => Ends depth ls body rest ∧
      ∀ body' rest', Ends depth ls body' rest' → body <+: body'
  | none => ∀ body rest, ¬ Ends depth ls body rest

theorem Lexeme.FirstEnd.cons {depth depth' : Nat} {l : Lexeme} {ls : List Lexeme}
    {r : Option (List Lexeme × List Lexeme)} (h : FirstEnd depth' ls r)
    (hl : l = .code openBrace ∧ depth' = depth + 1 ∨ l = .code closeBrace ∧ depth = depth' + 1 ∨
      (l ≠ .code openBrace ∧ l ≠ .code closeBrace) ∧ depth = depth') :
    FirstEnd depth (l :: ls) (r.map fun p => (l :: p.1, p.2)) := by
  have hends : ∀ body rest, Ends depth (l :: ls) body rest ↔
      ∃ body', body = l :: body' ∧ Ends depth' ls body' rest := ends_cons_iff hl
  cases r with
  | none =>
      intro body rest hend
      obtain ⟨body', _, hend'⟩ := (hends _ _).mp hend
      exact h body' rest hend'
  | some p =>
      obtain ⟨hend, hfirst⟩ := h
      refine ⟨(hends _ _).mpr ⟨p.1, rfl, hend⟩, ?_⟩
      intro body rest hend
      obtain ⟨body', rfl, hend'⟩ := (hends _ _).mp hend
      exact List.cons_prefix_cons.mpr ⟨rfl, hfirst body' rest hend'⟩

/-- A block ends at the first closing brace that makes up for the last opening one. -/
theorem firstEnd_block (depth : Nat) (ls : List Lexeme) : FirstEnd depth ls (block depth ls) := by
  fun_induction block depth ls with
  | case1 depth =>
      rintro body rest ⟨hsplit, _⟩
      simp at hsplit
  | case2 depth t c ls ih => exact ih.cons (Or.inr (Or.inr ⟨⟨by simp, by simp⟩, rfl⟩))
  | case3 depth b ls hb ih =>
      obtain rfl := eq_of_beq hb
      exact ih.cons (Or.inl ⟨rfl, rfl⟩)
  | case4 b ls hopen hclose =>
      obtain rfl := eq_of_beq hclose
      exact ⟨⟨rfl, rfl⟩, fun body rest _ => List.nil_prefix⟩
  | case5 b ls hopen hclose depth ih =>
      obtain rfl := eq_of_beq hclose
      exact ih.cons (Or.inr (Or.inl ⟨rfl, rfl⟩))
  | case6 depth b ls hopen hclose ih =>
      refine ih.cons (Or.inr (Or.inr ⟨⟨?_, ?_⟩, rfl⟩))
      · rintro ⟨⟩
        exact hopen rfl
      · rintro ⟨⟩
        exact hclose rfl

/-! ## Blocks and openers, by position -/

/-- The closing braces that make up for all the opening ones from `p` on. -/
def Closers (s : Bytes) (p : Nat) : Set Nat :=
  {k | CodeAt s p k ∧ s[k]? = some closeBrace ∧
    codeCount s p openBrace k = codeCount s p closeBrace k}

def stops (terminates : Bool) : UInt8 → Bool :=
  if terminates then fun b => b == openBrace || b == semicolon else (· == openBrace)

/-- The places from `p` on where a search for an opener can stop. -/
def Openers (s : Bytes) (p : Nat) (terminates : Bool) : Set Nat :=
  {k | CodeAt s p k ∧ (s[k]? = some openBrace ∨ terminates = true ∧ s[k]? = some semicolon)}

theorem ofBytes_openBrace {s : Bytes} {p : Nat} (h : s[p]? = some openBrace) :
    ofBytes (s.drop p) = .code openBrace :: ofBytes (s.drop (p + 1)) := by
  obtain ⟨hlt, hat⟩ := List.getElem?_eq_some_iff.mp h
  rw [List.drop_eq_getElem_cons hlt, hat]
  exact ofBytes_code_append (u := [openBrace]) (by decide) _

/-- Both braces of a block count once more than those between them. -/
theorem codeCount_eq_iff {s : Bytes} {p : Nat} {body rest : List Lexeme}
    (h : ofBytes (s.drop p) = .code openBrace :: body ++ .code closeBrace :: rest) :
    codeCount s p openBrace (p + extent (.code openBrace :: body)) =
      codeCount s p closeBrace (p + extent (.code openBrace :: body)) ↔ Evens 0 body := by
  rw [codeCount_eq openBrace h, codeCount_eq closeBrace h]
  unfold Evens
  simp only [tally_append, tally_cons, tally_nil, if_pos,
    if_neg (show code openBrace ≠ code closeBrace by decide),
    if_neg (show code closeBrace ≠ code openBrace by decide)]
  omega

theorem mem_closers_iff {s : Bytes} {p k : Nat} (h : s[p]? = some openBrace) :
    k ∈ Closers s p ↔
      ∃ body rest, Ends 0 (ofBytes (s.drop (p + 1))) body rest ∧ k = p + 1 + extent body := by
  have hbrace := ofBytes_openBrace h
  have hextent : ∀ body, p + extent (.code openBrace :: body) = p + 1 + extent body := by
    intro body
    rw [extent_cons, ← Nat.add_assoc]
    rfl
  constructor
  · rintro ⟨hcode, hk, hcount⟩
    obtain ⟨pre, rest, hsplit, rfl⟩ := codeAt_iff.mp ⟨hcode, hk⟩
    have hcons := hbrace.symm.trans hsplit
    cases pre with
    | nil => exact absurd (List.cons.inj hcons).1 (by decide)
    | cons x body =>
        obtain ⟨rfl, hrest⟩ := List.cons.inj hcons
        exact ⟨body, rest, ⟨hrest, (codeCount_eq_iff hsplit).mp hcount⟩, hextent body⟩
  · rintro ⟨body, rest, ⟨hrest, hevens⟩, rfl⟩
    have hsplit : ofBytes (s.drop p) = .code openBrace :: body ++ .code closeBrace :: rest := by
      rw [hbrace, hrest, List.cons_append]
    rw [← hextent]
    obtain ⟨hcode, hk⟩ := codeAt_iff.mpr ⟨.code openBrace :: body, rest, hsplit, rfl⟩
    exact ⟨hcode, hk, (codeCount_eq_iff hsplit).mpr hevens⟩

theorem extent_mono {ls ls' : List Lexeme} (h : ls <+: ls') : extent ls ≤ extent ls' := by
  obtain ⟨rest, rfl⟩ := h
  rw [extent, extent, source_append, List.length_append]
  exact Nat.le_add_right _ _

theorem source_eq_slice {s : Bytes} {p : Nat} {pre post : List Lexeme}
    (h : ofBytes (s.drop p) = pre ++ post) : source pre = (s.take (p + extent pre)).drop p := by
  have hsource := congrArg source h
  rw [source_ofBytes, source_append] at hsource
  rw [List.drop_take, hsource, Nat.add_sub_cancel_left]
  exact List.take_left.symm

/-- The interior of a block and the position behind it, or all that is left. -/
theorem block_by_position {s : Bytes} {p : Nat} (h : s[p]? = some openBrace) :
    (∃ body rest, block 0 (ofBytes (s.drop (p + 1))) = some (body, rest) ∧
      IsLeast (Closers s p) (p + 1 + extent body) ∧
      source body = (s.take (p + 1 + extent body)).drop (p + 1) ∧
      extent ((ofBytes (s.drop (p + 1))).take (body.length + 1)) = extent body + 1) ∨
    (block 0 (ofBytes (s.drop (p + 1))) = none ∧ Closers s p = ∅) := by
  have hfirst := firstEnd_block 0 (ofBytes (s.drop (p + 1)))
  cases hblock : block 0 (ofBytes (s.drop (p + 1))) with
  | none =>
      rw [hblock] at hfirst
      refine Or.inr ⟨rfl, Set.eq_empty_of_forall_notMem fun k hk => ?_⟩
      obtain ⟨body, rest, hend, _⟩ := (mem_closers_iff h).mp hk
      exact hfirst body rest hend
  | some r =>
      obtain ⟨body, rest⟩ := r
      rw [hblock] at hfirst
      obtain ⟨hend, hleast⟩ := hfirst
      refine Or.inl ⟨body, rest, rfl, ⟨(mem_closers_iff h).mpr ⟨body, rest, hend, rfl⟩, ?_⟩,
        source_eq_slice hend.1, ?_⟩
      · intro k hk
        obtain ⟨body', rest', hend', rfl⟩ := (mem_closers_iff h).mp hk
        exact Nat.add_le_add_left (extent_mono (hleast body' rest' hend')) _
      · rw [hend.1, List.take_append, List.take_of_length_le (Nat.le_succ _)]
        simp [extent, bytes]

theorem stops_iff {terminates : Bool} {b : UInt8} :
    stops terminates b = true ↔ b = openBrace ∨ terminates = true ∧ b = semicolon := by
  cases terminates <;> simp [stops]

theorem mem_openers_iff {s : Bytes} {p k : Nat} {terminates : Bool} :
    k ∈ Openers s p terminates ↔ ∃ pre b post, ofBytes (s.drop p) = pre ++ .code b :: post ∧
      stops terminates b = true ∧ k = p + extent pre := by
  constructor
  · rintro ⟨hcode, hk | ⟨hterm, hk⟩⟩
    · obtain ⟨pre, post, hsplit, hpos⟩ := codeAt_iff.mp ⟨hcode, hk⟩
      exact ⟨pre, _, post, hsplit, stops_iff.mpr (Or.inl rfl), hpos⟩
    · obtain ⟨pre, post, hsplit, hpos⟩ := codeAt_iff.mp ⟨hcode, hk⟩
      exact ⟨pre, _, post, hsplit, stops_iff.mpr (Or.inr ⟨hterm, rfl⟩), hpos⟩
  · rintro ⟨pre, b, post, hsplit, hb, rfl⟩
    obtain ⟨hcode, hk⟩ := codeAt_iff.mpr ⟨pre, post, hsplit, rfl⟩
    refine ⟨hcode, ?_⟩
    rcases stops_iff.mp hb with rfl | ⟨hterm, rfl⟩
    · exact Or.inl hk
    · exact Or.inr ⟨hterm, hk⟩

/-- The first opener, or that there is none. -/
theorem before_by_position (s : Bytes) (p : Nat) (terminates : Bool) :
    (∃ pre b post, before (stops terminates) (ofBytes (s.drop p)) = (pre, .code b :: post) ∧
      IsLeast (Openers s p terminates) (p + extent pre) ∧ s[p + extent pre]? = some b) ∨
    (∃ pre, before (stops terminates) (ofBytes (s.drop p)) = (pre, []) ∧
      Openers s p terminates = ∅) := by
  rcases before_cases (stops terminates) (ofBytes (s.drop p)) with
    ⟨pre, b, post, hsplit, hb, hpre, hbefore⟩ | ⟨hnone, hbefore⟩
  · refine Or.inl ⟨pre, b, post, hbefore, ⟨mem_openers_iff.mpr ⟨pre, b, post, hsplit, hb, rfl⟩, ?_⟩,
      (codeAt_iff.mpr ⟨pre, post, hsplit, rfl⟩).2⟩
    intro k hk
    obtain ⟨pre', b', post', hsplit', hb', rfl⟩ := mem_openers_iff.mp hk
    refine Nat.add_le_add_left (extent_mono ?_) _
    -- nothing in `pre` stops the search, so the other place is not inside it
    rcases List.prefix_or_prefix_of_prefix ⟨_, hsplit.symm⟩ ⟨_, hsplit'.symm⟩ with hle | ⟨mid, hmid⟩
    · exact hle
    · cases mid with
      | nil => exact ⟨[], by rw [List.append_nil] at hmid ⊢; exact hmid.symm⟩
      | cons x mid =>
          have hcons := hsplit.symm.trans hsplit'
          rw [← hmid, List.append_assoc, List.append_cancel_left_eq] at hcons
          obtain ⟨rfl, _⟩ := List.cons.inj hcons
          have hfalse := hpre (.code b') (by rw [← hmid]; simp)
          rw [isCode, hb'] at hfalse
          cases hfalse
  · refine Or.inr ⟨_, hbefore, Set.eq_empty_of_forall_notMem fun k hk => ?_⟩
    obtain ⟨pre, b, post, hsplit, hb, _⟩ := mem_openers_iff.mp hk
    have hfalse := hnone (.code b) (by rw [hsplit]; simp)
    rw [isCode, hb] at hfalse
    cases hfalse

/-- The first opener stands behind the lexemes that are none. -/
theorem isLeast_openers {s : Bytes} {o : Nat} {terminates : Bool} {pre rest : List Lexeme}
    (h : ofBytes (s.drop o) = pre ++ .code openBrace :: rest)
    (hpre : ∀ l ∈ pre, l.isCode (stops terminates) = false) :
    IsLeast (Openers s o terminates) (o + extent pre) ∧ s[o + extent pre]? = some openBrace := by
  have hbrace : stops terminates openBrace = true := stops_iff.mpr (Or.inl rfl)
  have hstop : before (stops terminates) (ofBytes (s.drop o)) = (pre, .code openBrace :: rest) := by
    rw [h]
    exact before_append hpre hbrace rest
  rcases before_by_position s o terminates with ⟨pre', b, post, hfound, hleast, hb⟩ |
    ⟨pre', hfound, _⟩
  · rw [hstop] at hfound
    cases hfound
    exact ⟨hleast, hb⟩
  · rw [hstop] at hfound
    cases hfound

/-- The position behind the block that a step has taken, if the opener stands at `p` and `taken`
lexemes of the step lie before it. -/
def behindBlock (s : Bytes) (p taken : Nat) (step : Scan.Step) : Nat :=
  p + 1 + extent ((ofBytes (s.drop (p + 1))).take (step.used - taken))

/-- Wherever a scan stands, it sees the lexemes of the rest of the source. From there, a block
ends at the first closing brace outside comments that makes up for all the opening ones; if there
is none, the block takes the rest and that is a recovery. The search for an opener stops at the
first opening brace outside comments, or at a semicolon where that ends it, and at nothing else. -/
theorem braces_by_position (s : Bytes) :
    (∀ pre ls, ofBytes s = pre ++ ls → ls = ofBytes (s.drop (extent pre))) ∧
    (∀ p, s[p]? = some openBrace → ∀ (offset taken : Nat) (item : Bytes → Item) (step : Scan.Step),
      step = Scan.blockStep offset p taken item (ofBytes (s.drop (p + 1))) →
      (∀ k, IsLeast (Closers s p) k ↔
        step.events = [.token ⟨item ((s.take k).drop (p + 1)), offset⟩] ∧
          behindBlock s p taken step = k + 1) ∧
      (Closers s p = ∅ ↔
        step.events = [.recovered p .unbalancedBlock, .token ⟨item (s.drop (p + 1)), offset⟩] ∧
          behindBlock s p taken step = s.length)) ∧
    ∀ p terminates pre rest, before (stops terminates) (ofBytes (s.drop p)) = (pre, rest) →
      (∀ k b, IsLeast (Openers s p terminates) k ∧ s[k]? = some b ↔
        p + extent pre = k ∧ rest.head? = some (.code b)) ∧
      (Openers s p terminates = ∅ ↔ rest = []) := by
  refine ⟨fun pre ls h => (ofBytes_drop_extent h).symm, ?_, ?_⟩
  · rintro p hp offset taken item step rfl
    have hlt := (List.getElem?_eq_some_iff.mp hp).1
    unfold Scan.blockStep behindBlock
    rcases block_by_position hp with ⟨body, rest, hblock, hleast, hsource, hextent⟩ |
      ⟨hblock, hempty⟩
    · rw [hblock]
      dsimp only
      rw [Nat.add_assoc taken, Nat.add_sub_cancel_left, hextent]
      constructor
      · intro k
        constructor
        · intro hk
          obtain rfl := hk.unique hleast
          exact ⟨by rw [hsource], rfl⟩
        · rintro ⟨_, hk⟩
          obtain rfl : p + 1 + extent body = k := Nat.succ.inj hk
          exact hleast
      · exact ⟨fun hempty => absurd hempty hleast.nonempty.ne_empty,
          fun hevents => nomatch hevents.1⟩
    · rw [hblock]
      dsimp only
      rw [Nat.add_sub_cancel_left, List.take_length, extent, source_ofBytes]
      constructor
      · intro k
        exact ⟨fun hk => absurd hempty hk.nonempty.ne_empty, fun hevents => nomatch hevents.1⟩
      · refine ⟨fun _ => ⟨rfl, ?_⟩, fun _ => hempty⟩
        rw [List.length_drop]
        omega
  · intro p terminates pre rest hbefore
    rcases before_by_position s p terminates with ⟨pre', b', post, hfound, hleast, hb'⟩ |
      ⟨pre', hfound, hempty⟩
    · obtain ⟨rfl, rfl⟩ := Prod.mk.inj (hfound.symm.trans hbefore)
      constructor
      · intro k b
        constructor
        · rintro ⟨hk, hb⟩
          obtain rfl := hk.unique hleast
          obtain rfl := Option.some.inj (hb'.symm.trans hb)
          exact ⟨rfl, rfl⟩
        · rintro ⟨rfl, hb⟩
          cases hb
          exact ⟨hleast, hb'⟩
      · exact ⟨fun hempty => absurd hempty hleast.nonempty.ne_empty, nofun⟩
    · obtain ⟨rfl, rfl⟩ := Prod.mk.inj (hfound.symm.trans hbefore)
      constructor
      · intro k b
        exact ⟨fun hk => absurd hempty hk.1.nonempty.ne_empty, fun hk => nomatch hk.2⟩
      · exact ⟨fun _ => rfl, fun _ => hempty⟩

/-- The brace in the comment counts for nothing, and the inner block is made up for. -/
theorem braces_by_position_nested :
    (text "a\x7b/*\x7d*/\x7b\x7d\x7db")[1]? = some openBrace ∧
      IsLeast (Closers (text "a\x7b/*\x7d*/\x7b\x7d\x7db") 1) 9 ∧
      IsLeast (Openers (text "@m/*\x7b*/;\x7b\x7d") 0 true) 7 ∧
      Closers (text "a\x7b\x7b/*\x7d\x7d") 1 = ∅ := by
  refine ⟨by decide, ?_, ?_, ?_⟩
  · have hblock := (braces_by_position (text "a\x7b/*\x7d*/\x7b\x7d\x7db")).2.1 1 (by decide) 0 1
      (.rule (text "a")) _ rfl
    exact (hblock.1 9).mpr (by decide)
  · have hsearch := (braces_by_position (text "@m/*\x7b*/;\x7b\x7d")).2.2 0 true _ _ rfl
    exact ((hsearch.1 7 semicolon).mpr (by decide)).1
  · have hblock := (braces_by_position (text "a\x7b\x7b/*\x7d\x7d")).2.1 1 (by decide) 0 1
      (.rule (text "a")) _ rfl
    exact hblock.2.mpr (by decide)

end Cascade
