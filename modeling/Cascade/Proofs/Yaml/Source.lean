import Cascade.Yaml.Source
import Cascade.Proofs.Text.Validity
import Mathlib.Data.List.GetD

/-!
# Sources that spell a text

A document of allowed characters is read to its end, wherever the portions cut it. So a
reader may think of a source as the characters that are still to come, of which some are
known, and need not care about portions.
-/

namespace Cascade.Yaml

/-! ## Portions -/

namespace Spelling

theorem width?_encode (c : Char) :
    ∃ a tails, String.utf8EncodeChar c = a :: tails ∧ width? a = some (tails.length + 1) ∧
      tails.length < 4 := by
  have hv : c.val.toNat.isValidChar := c.valid
  unfold String.utf8EncodeChar
  generalize c.val.toNat = v at hv
  unfold Nat.isValidChar at hv
  dsimp only
  unfold width?
  -- one case for each number of bytes
  split_ifs with h1 h2 h3 <;> refine ⟨_, _, rfl, ?_, of_decide_eq_true rfl⟩ <;>
    simp only [UInt8.lt_iff_toNat_lt, UInt8.le_iff_toNat_le, Bool.and_eq_true, decide_eq_true_eq,
      List.length_cons, List.length_nil]
  · rw [if_pos]
    rw [UInt8.toNat_ofNat', Nat.mod_eq_of_lt (by omega)]
    exact Nat.lt_succ_of_le h1
  all_goals
    rw [UInt8.toNat_ofNat', Nat.mod_eq_of_lt (by omega)]
    simp only [UInt8.toNat_ofNat, Nat.reducePow, Nat.reduceMod]
    split_ifs <;> first | rfl | omega

theorem glyph_encode (c : Char) (z : Bytes) :
    Spelling.utf8.glyph (String.utf8EncodeChar c ++ z) =
      .char c (String.utf8EncodeChar c).length := by
  obtain ⟨a, tails, henc, hwidth, _⟩ := width?_encode c
  have hsymbols := Utf8.symbols_encode_append c z
  rw [henc, List.cons_append, Utf8.symbols_cons] at hsymbols
  have hread : (Utf8.read a (tails ++ z)).1 = .char c := (List.cons.inj hsymbols).1
  have hlength : (Utf8.read a (tails ++ z)).2 = tails.length := by
    obtain ⟨hbytes, hle⟩ := Utf8.read_bytes a (tails ++ z)
    rw [hread, Symbol.bytes, henc] at hbytes
    have hcount := congrArg List.length hbytes
    rw [List.length_cons, List.length_cons, List.length_take] at hcount
    omega
  have hpair : Utf8.read a (tails ++ z) = (.char c, tails.length) := Prod.ext hread hlength
  have hlong :
      ¬ (((tails ++ z).drop (tails.length + 1 - 2)).isEmpty && tails.length + 1 != 1) := by
    rw [Bool.and_eq_true, not_and, List.isEmpty_iff, List.drop_eq_nil_iff, List.length_append]
    intro hshort
    simp only [bne_iff_ne, not_not]
    omega
  rw [henc, List.cons_append]
  unfold glyph
  dsimp only
  rw [hwidth]
  dsimp only
  rw [if_neg hlong, hpair]
  rfl

/-- The beginning of a character is known as one. -/
theorem glyph_cut {c : Char} {p q : Bytes} (h : String.utf8EncodeChar c = p ++ q) (hp : p ≠ [])
    (hq : q ≠ []) : Spelling.utf8.glyph p = .cut := by
  obtain ⟨a, tails, henc, hwidth, _⟩ := width?_encode c
  obtain ⟨b, r, rfl⟩ := List.exists_cons_of_ne_nil hp
  rw [henc, List.cons_append] at h
  obtain ⟨rfl, rfl⟩ := List.cons.inj h
  have hpos := List.length_pos_iff.mpr hq
  have hshort :
      ((r.drop ((r ++ q).length + 1 - 2)).isEmpty && (r ++ q).length + 1 != 1) = true := by
    rw [Bool.and_eq_true, List.isEmpty_iff, List.drop_eq_nil_iff, List.length_append]
    refine ⟨by omega, ?_⟩
    simp only [bne_iff_ne]
    omega
  unfold glyph
  dsimp only
  rw [hwidth]
  dsimp only
  rw [if_pos hshort]

theorem chars_drop (spelling : Spelling) (k : Nat) (s : Bytes) :
    spelling.chars k s = spelling.chars 0 (s.drop k) := by
  induction s generalizing k with
  | nil => cases k <;> simp [chars]
  | cons a s ih =>
      cases k with
      | zero => rfl
      | succ k => rw [chars, List.drop_succ_cons, ih]

theorem chars_encode {c : Char} (hc : isAllowed c = true) (z : Bytes) :
    Spelling.utf8.chars 0 (String.utf8EncodeChar c ++ z) =
      (Spelling.utf8.chars 0 z).map fun p => (c :: p.1, p.2) := by
  obtain ⟨a, tails, henc, _⟩ := width?_encode c
  have hglyph := glyph_encode c z
  rw [henc, List.cons_append] at hglyph ⊢
  rw [chars, hglyph]
  dsimp only
  rw [if_pos hc, chars_drop, List.length_cons, Nat.add_sub_cancel, List.drop_left]

/-- What is read of a part of a text, and what is left of that part. -/
theorem chars_of_append {t : List Char} (ht : ∀ c ∈ t, isAllowed c = true) {s rest : Bytes}
    (h : Utf8.ofChars t = s ++ rest) :
    ∃ t₁ t₂ carry, t = t₁ ++ t₂ ∧ Spelling.utf8.chars 0 s = some (t₁, carry) ∧
      Utf8.ofChars t₂ = carry ++ rest ∧ carry.length < 4 ∧ (rest = [] → carry = []) := by
  induction t generalizing s with
  | nil =>
      obtain ⟨rfl, rfl⟩ := List.append_eq_nil_iff.mp h.symm
      exact ⟨[], [], [], rfl, rfl, rfl, by decide, fun _ => rfl⟩
  | cons c t ih =>
      obtain ⟨hc, ht⟩ := List.forall_mem_cons.mp ht
      have hcons : Utf8.ofChars (c :: t) = String.utf8EncodeChar c ++ Utf8.ofChars t := by
        rw [Utf8.ofChars, List.flatMap_cons]
        rfl
      rw [hcons, List.append_eq_append_iff] at h
      rcases h with ⟨s', rfl, hrest⟩ | ⟨q, henc, rfl⟩
      · obtain ⟨t₁, t₂, carry, rfl, hchars, hofChars, hlength, hend⟩ := ih ht hrest
        refine ⟨c :: t₁, t₂, carry, rfl, ?_, hofChars, hlength, hend⟩
        rw [chars_encode hc, hchars]
        rfl
      · by_cases hq : q = []
        · subst hq
          rw [List.append_nil] at henc
          obtain ⟨t₁, t₂, carry, rfl, hchars, hofChars, hlength, hend⟩ := ih ht (s := []) rfl
          refine ⟨c :: t₁, t₂, carry, rfl, ?_, hofChars, hlength, hend⟩
          rw [← henc, ← List.append_nil (String.utf8EncodeChar c), chars_encode hc, hchars]
          rfl
        · have hrest : ∀ {z : Bytes}, q ++ z ≠ [] := List.append_ne_nil_of_left_ne_nil hq _
          obtain ⟨a, tails, hbytes, _, hfew⟩ := width?_encode c
          have hlength : s.length < 4 := by
            have hcount := congrArg List.length (henc.symm.trans hbytes)
            rw [List.length_append, List.length_cons] at hcount
            have hpos := List.length_pos_iff.mpr hq
            omega
          refine ⟨[], c :: t, s, rfl, ?_, ?_, hlength, fun hnil => absurd hnil hrest⟩
          · cases s with
            | nil => rfl
            | cons b s =>
                rw [chars, glyph_cut henc (List.cons_ne_nil b s) hq]
          · rw [hcons, henc, List.append_assoc]

/-- The portions of a text are the text. -/
theorem portions_flatten {fuel : Nat} {t : List Char} {carry rest : Bytes}
    (ht : ∀ c ∈ t, isAllowed c = true) (h : Utf8.ofChars t = carry ++ rest)
    (hcarry : carry.length < 4) (hend : rest = [] → carry = []) (hfuel : rest.length < fuel) :
    ∃ ps, Spelling.utf8.portions fuel carry rest = (ps, true) ∧ ps.flatten = t := by
  induction fuel generalizing t carry rest with
  | zero => cases hfuel
  | succ fuel ih =>
      rw [portions]
      dsimp only
      by_cases hrest : rest = []
      · obtain rfl := hend hrest
        subst hrest
        refine ⟨[], by rw [List.take_nil]; rfl, ?_⟩
        cases t with
        | nil => rfl
        | cons c t =>
            obtain ⟨a, tails, hbytes, _⟩ := width?_encode c
            rw [Utf8.ofChars, List.flatMap_cons, hbytes] at h
            cases h
      · have hsize : portionSize - carry.length ≠ 0 := by
          unfold portionSize
          omega
        have hraw : rest.take (portionSize - carry.length) ≠ [] := by
          simpa [List.take_eq_nil_iff, hsize] using hrest
        have hsplit : Utf8.ofChars t = (carry ++ rest.take (portionSize - carry.length)) ++
            rest.drop (portionSize - carry.length) := by
          rw [List.append_assoc, List.take_append_drop, h]
        obtain ⟨t₁, t₂, carry', rfl, hchars, hofChars, hlength, hend'⟩ := chars_of_append ht hsplit
        have hshort : (rest.drop (portionSize - carry.length)).length < fuel := by
          have hpos := List.length_pos_iff.mpr hrest
          rw [List.length_drop]
          omega
        obtain ⟨ps, hps, hflatten⟩ :=
          ih (fun c hc => ht c (List.mem_append_right _ hc)) hofChars hlength hend' hshort
        refine ⟨t₁ :: ps, ?_, by rw [List.flatten_cons, hflatten]⟩
        split
        · next hnil => exact absurd hnil hraw
        · rw [hchars]
          dsimp only
          rw [hps]

end Spelling

/-! ## Sources -/

namespace Source

/-- The characters `t` are still to come, and `n` of them are known, or all of them. There is no
byte order mark among them. -/
structure Holds (src : Source) (t : List Char) (n : Nat) : Prop where
  intact : src.intact = true
  unmarked : src.marked = false
  noMark : orderMark ∉ t
  rest : ∃ k, src.ahead ++ src.later.flatten = t ++ List.replicate k finish ∧
    (k ≠ 0 → src.later = [])
  known : n ≤ src.ahead.length ∨ src.later = []

namespace Holds

variable {src : Source} {t : List Char} {n m : Nat} {c : Char}

theorem mono (h : src.Holds t n) (hm : m ≤ n) : src.Holds t m :=
  { h with known := h.known.imp_left fun hn => hm.trans hn }

theorem getD_append_replicate (t : List Char) (k i : Nat) :
    (t ++ List.replicate k finish).getD i finish = t.getD i finish := by
  by_cases hi : i < t.length
  · rw [List.getD_append _ _ _ _ hi]
  · rw [List.getD_append_right _ _ _ _ (by omega), List.getD_eq_default t finish (by omega),
      List.getD_eq_getElem?_getD, List.getElem?_getD_replicate_default_eq]

/-- A known character, or the end. -/
theorem look_eq (h : src.Holds t n) {i : Nat} (hi : i < n) :
    src.look i = (t.drop i).headD finish := by
  obtain ⟨k, hrest, hk⟩ := h.rest
  unfold look
  rw [List.headD_eq_head?_getD, List.head?_drop, ← List.getD_eq_getElem?_getD,
    ← getD_append_replicate t k i, ← hrest]
  rcases h.known with hn | hlater
  · rw [List.getD_append _ _ _ _ (by omega)]
  · rw [hlater, List.flatten_nil, List.append_nil]

theorem drop (h : src.Holds (c :: t) n) (hn : 0 < n) : (src.drop 1).Holds t (n - 1) := by
  obtain ⟨k, hrest, hk⟩ := h.rest
  have hne : src.ahead ≠ [] := by
    intro hnil
    rcases h.known with hle | hlater
    · rw [hnil, List.length_nil] at hle
      omega
    · rw [hnil, hlater] at hrest
      cases hrest
  obtain ⟨c', ahead, hahead⟩ := List.exists_cons_of_ne_nil hne
  rw [hahead, List.cons_append, List.cons_append] at hrest
  refine ⟨h.intact, h.unmarked, fun hmem => h.noMark (List.mem_cons_of_mem c hmem),
    ⟨k, ?_, hk⟩, ?_⟩
  · show src.ahead.drop 1 ++ _ = _
    rw [hahead]
    exact (List.cons.inj hrest).2
  · refine h.known.imp_left fun hle => ?_
    show n - 1 ≤ (src.ahead.drop 1).length
    rw [List.length_drop]
    omega

end Holds

theorem reaches_iff {n : Nat} {s : List Char} : reaches n s = true ↔ n ≤ s.length := by
  induction s generalizing n with
  | nil => cases n <;> simp [reaches]
  | cons c s ih => cases n <;> simp [reaches, ih]

theorem fill_eq_some (n : Nat) (ahead : List Char) (later : List (List Char)) :
    ∃ ahead' later', fill n ahead later true = some (ahead', later') ∧
      ((ahead' ++ later'.flatten = ahead ++ later.flatten ∧ n ≤ ahead'.length ∧ later ≠ []) ∨
        (later' = [] ∧ ahead' = ahead ++ later.flatten ++ [finish])) := by
  induction later generalizing ahead with
  | nil => exact ⟨_, _, rfl, Or.inr ⟨rfl, by rw [List.flatten_nil, List.append_nil]⟩⟩
  | cons portion later ih =>
      rw [fill]
      by_cases hreach : reaches n (ahead ++ portion) = true
      · rw [if_pos hreach]
        refine ⟨_, _, rfl, Or.inl ⟨?_, reaches_iff.mp hreach, List.cons_ne_nil _ _⟩⟩
        rw [List.flatten_cons, List.append_assoc]
      · rw [if_neg hreach]
        obtain ⟨ahead', later', hfill, hcases⟩ := ih (ahead ++ portion)
        refine ⟨ahead', later', hfill, ?_⟩
        rw [List.flatten_cons, ← List.append_assoc]
        exact hcases.imp_left fun h => ⟨h.1, h.2.1, List.cons_ne_nil _ _⟩

/-- Characters can be made known, and that is all that changes. -/
theorem Holds.need {src : Source} {t : List Char} {n : Nat} (h : src.Holds t n) (m : Nat) :
    ∃ src', src.need m = .ok src' ∧ src'.Holds t (max n m) := by
  unfold Source.need
  by_cases hreach : reaches m src.ahead = true
  · rw [if_pos hreach]
    refine ⟨src, rfl, { h with known := ?_ }⟩
    exact h.known.imp_left fun hn => max_le hn (reaches_iff.mp hreach)
  · rw [if_neg hreach, h.intact]
    obtain ⟨k, hrest, hk⟩ := h.rest
    have hhead : ∀ {ahead' later' : List Char} {j : Nat},
        ahead' ++ later' = t ++ List.replicate j finish →
        (ahead'.head? == some orderMark) = false := by
      intro ahead' later' j heq
      cases ahead' with
      | nil => rfl
      | cons c ahead' =>
          have hmem : c ∈ t ++ List.replicate j finish := heq ▸ List.mem_cons_self
          rw [List.mem_append, List.mem_replicate] at hmem
          rw [List.head?_cons]
          refine beq_eq_false_iff_ne.mpr fun heq => ?_
          obtain rfl := Option.some.inj heq
          rcases hmem with hmem | ⟨_, hmem⟩
          · exact h.noMark hmem
          · exact absurd hmem (by decide)
    obtain ⟨ahead', later', hfill, hcases⟩ := fill_eq_some m src.ahead src.later
    rw [hfill]
    refine ⟨_, rfl, ?_⟩
    rcases hcases with ⟨hsame, hknown, hne⟩ | ⟨hlater, hahead⟩
    · have hzero : k = 0 := by
        by_contra hk'
        exact hne (hk hk')
      rw [← hsame] at hrest
      refine ⟨rfl, hhead hrest, h.noMark, ⟨k, hrest, fun hk' => absurd hzero hk'⟩, ?_⟩
      rcases h.known with hn | hnil
      · by_cases hle : n ≤ ahead'.length
        · exact Or.inl (max_le hle hknown)
        · -- Characters that were known are not forgotten.
          have hm : ¬ m ≤ src.ahead.length := fun hm => hreach (reaches_iff.mpr hm)
          omega
      · exact absurd hnil hne
    · rw [hrest, List.append_assoc, ← List.replicate_succ'] at hahead
      refine ⟨rfl, ?_, h.noMark, ⟨k + 1, ?_, fun _ => hlater⟩, Or.inr hlater⟩
      · have heq : ahead' ++ [] = t ++ List.replicate (k + 1) finish := by
          rw [List.append_nil, hahead]
        exact hhead heq
      · show ahead' ++ later'.flatten = _
        rw [hlater, List.flatten_nil, List.append_nil, hahead]

/-- A document that can be read to its end. -/
theorem holds_ofBytes {t : List Char} (ht : ∀ c ∈ t, isAllowed c = true) (hmark : orderMark ∉ t)
    (hdetect : Spelling.detect (Utf8.ofChars t) = (.utf8, 0)) :
    (ofBytes (Utf8.ofChars t)).Holds t 0 := by
  unfold ofBytes
  rw [hdetect]
  dsimp only
  rw [List.drop_zero]
  obtain ⟨t₁, t₂, carry, rfl, hchars, hofChars, hlength, hend⟩ :=
    Spelling.chars_of_append ht (List.take_append_drop portionSize (Utf8.ofChars t)).symm
  rw [hchars]
  dsimp only
  have hshort : ((Utf8.ofChars (t₁ ++ t₂)).drop portionSize).length <
      (Utf8.ofChars (t₁ ++ t₂)).length + 1 := by
    rw [List.length_drop]
    omega
  obtain ⟨ps, hps, hflatten⟩ := Spelling.portions_flatten
    (fun c hc => ht c (List.mem_append_right _ hc)) hofChars hlength hend hshort
  rw [hps]
  refine ⟨rfl, rfl, hmark, ⟨0, ?_, fun h => absurd rfl h⟩, Or.inl (Nat.zero_le _)⟩
  rw [List.nil_append, List.flatten_cons, hflatten, List.replicate_zero, List.append_nil]

end Source

end Cascade.Yaml
