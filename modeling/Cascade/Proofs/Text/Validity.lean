import Cascade.Sheet.Selector
import Cascade.Proofs.Text.Symbols

/-!
# Valid texts

A text is valid UTF-8 exactly if it spells a list of characters. Valid texts put
together are valid. A valid text may be cut beside a valid part of it and at every
ASCII byte, since such a byte neither continues a character nor is continued.
-/

namespace Cascade

namespace Utf8

/-! ## Reading a character that has been spelled -/

theorem ascii_iff {b : UInt8} : b < 0x80 ↔ b.toNat < 128 := UInt8.lt_iff_toNat_lt

theorem follows_of_bounds {a b : UInt8} (hb : 128 ≤ b.toNat ∧ b.toNat < 192)
    (hE0 : a.toNat = 0xE0 → 160 ≤ b.toNat) (hED : a.toNat = 0xED → b.toNat < 160)
    (hF0 : a.toNat = 0xF0 → 144 ≤ b.toNat) (hF4 : a.toNat = 0xF4 → b.toNat < 144) :
    follows a b = true := by
  simp only [follows, isTail, beq_iff_eq, UInt8.le_iff_toNat_le, ← UInt8.toNat_inj]
  simp only [UInt8.toNat_ofNat, Nat.reducePow, Nat.reduceMod]
  split_ifs <;> simp only [Bool.and_eq_true, decide_eq_true_eq] <;> omega

theorem read_two {a b : UInt8} {v : Nat} (hv : 0x80 ≤ v ∧ v < 0x800)
    (ha : a.toNat = v / 64 + 0xC0) (hb : b.toNat = v % 64 + 0x80) (z : Bytes) :
    read a (b :: z) = (.char (Char.ofNat v), 1) := by
  have hlow : ¬ a < 0x80 := by
    rw [ascii_iff]
    omega
  have hlead : 0xC2 ≤ a ∧ a ≤ 0xDF := by
    rw [UInt8.le_iff_toNat_le, UInt8.le_iff_toNat_le]
    change 0xC2 ≤ a.toNat ∧ a.toNat ≤ 0xDF
    omega
  have htail : isTail b = true := isTail_iff.mpr (by omega)
  have hbits : a.toNat % 32 * 64 + tailBits b = v := by
    unfold tailBits
    omega
  simp [read, hlow, hlead, htail, hbits]

theorem read_three {a b c : UInt8} {v : Nat} (hv : 0x800 ≤ v ∧ v < 0x10000)
    (hsurrogate : v < 0xD800 ∨ 0xDFFF < v) (ha : a.toNat = v / 4096 + 0xE0)
    (hb : b.toNat = v / 64 % 64 + 0x80) (hc : c.toNat = v % 64 + 0x80) (z : Bytes) :
    read a (b :: c :: z) = (.char (Char.ofNat v), 2) := by
  have hlow : ¬ a < 0x80 := by
    rw [ascii_iff]
    omega
  have htwo : ¬ (0xC2 ≤ a ∧ a ≤ 0xDF) := by
    rw [UInt8.le_iff_toNat_le, UInt8.le_iff_toNat_le]
    change ¬ (0xC2 ≤ a.toNat ∧ a.toNat ≤ 0xDF)
    omega
  have hlead : 0xE0 ≤ a ∧ a ≤ 0xEF := by
    rw [UInt8.le_iff_toNat_le, UInt8.le_iff_toNat_le]
    change 0xE0 ≤ a.toNat ∧ a.toNat ≤ 0xEF
    omega
  have hfollows : follows a b = true := by
    apply follows_of_bounds <;> omega
  have htail : isTail c = true := isTail_iff.mpr (by omega)
  have hbits : a.toNat % 16 * 4096 + tailBits b * 64 + tailBits c = v := by
    unfold tailBits
    omega
  simp [read, hlow, htwo, hlead, hfollows, htail, hbits]

theorem read_four {a b c d : UInt8} {v : Nat} (hv : 0x10000 ≤ v ∧ v < 0x110000)
    (ha : a.toNat = v / 262144 + 0xF0) (hb : b.toNat = v / 4096 % 64 + 0x80)
    (hc : c.toNat = v / 64 % 64 + 0x80) (hd : d.toNat = v % 64 + 0x80) (z : Bytes) :
    read a (b :: c :: d :: z) = (.char (Char.ofNat v), 3) := by
  have hlow : ¬ a < 0x80 := by
    rw [ascii_iff]
    omega
  have htwo : ¬ (0xC2 ≤ a ∧ a ≤ 0xDF) := by
    rw [UInt8.le_iff_toNat_le, UInt8.le_iff_toNat_le]
    change ¬ (0xC2 ≤ a.toNat ∧ a.toNat ≤ 0xDF)
    omega
  have hthree : ¬ (0xE0 ≤ a ∧ a ≤ 0xEF) := by
    rw [UInt8.le_iff_toNat_le, UInt8.le_iff_toNat_le]
    change ¬ (0xE0 ≤ a.toNat ∧ a.toNat ≤ 0xEF)
    omega
  have hlead : 0xF0 ≤ a ∧ a ≤ 0xF4 := by
    rw [UInt8.le_iff_toNat_le, UInt8.le_iff_toNat_le]
    change 0xF0 ≤ a.toNat ∧ a.toNat ≤ 0xF4
    omega
  have hfollows : follows a b = true := by
    apply follows_of_bounds <;> omega
  have htail : isTail c = true ∧ isTail d = true :=
    ⟨isTail_iff.mpr (by omega), isTail_iff.mpr (by omega)⟩
  have hbits : a.toNat % 8 * 262144 + tailBits b * 4096 + tailBits c * 64 + tailBits d = v := by
    unfold tailBits
    omega
  simp [read, hlow, htwo, hthree, hlead, hfollows, htail, hbits]

/-- The bytes that spell a character are read as this character. -/
theorem symbols_encode_append (c : Char) (z : Bytes) :
    symbols (String.utf8EncodeChar c ++ z) = .char c :: symbols z := by
  have hc : Char.ofNat c.val.toNat = c := Char.ofNat_toNat c
  have hv : c.val.toNat.isValidChar := c.valid
  unfold String.utf8EncodeChar
  generalize c.val.toNat = v at hc hv
  unfold Nat.isValidChar at hv
  dsimp only
  -- one case for each number of bytes
  split_ifs with h1 h2 h3
  · have ha : UInt8.ofNat v < 0x80 := by
      rw [ascii_iff, UInt8.toNat_ofNat']
      omega
    rw [List.singleton_append, symbols_ascii_cons ha, UInt8.toNat_ofNat_of_lt' (by rw [UInt8.size]; omega), hc]
  · rw [List.cons_append, List.singleton_append, symbols_cons, read_two (v := v), hc]
    · rfl
    · omega
    · rw [UInt8.toNat_ofNat']
      omega
    · rw [UInt8.toNat_ofNat']
      omega
  · rw [List.cons_append, List.cons_append, List.singleton_append, symbols_cons,
      read_three (v := v), hc]
    · rfl
    · omega
    · omega
    · rw [UInt8.toNat_ofNat']
      omega
    · rw [UInt8.toNat_ofNat']
      omega
    · rw [UInt8.toNat_ofNat']
      omega
  · rw [List.cons_append, List.cons_append, List.cons_append, List.singleton_append, symbols_cons,
      read_four (v := v), hc]
    · rfl
    · omega
    · rw [UInt8.toNat_ofNat']
      omega
    · rw [UInt8.toNat_ofNat']
      omega
    · rw [UInt8.toNat_ofNat']
      omega
    · rw [UInt8.toNat_ofNat']
      omega

/-! ## Validity -/

theorem isValid_iff {s : Bytes} : isValid s = true ↔ ∀ y ∈ symbols s, y.isChar = true :=
  List.all_eq_true

theorem isValid_spell {ys : List Symbol} (h : ∀ y ∈ ys, y.isChar = true) :
    isValid (spell ys) = true := by
  suffices hsymbols : symbols (spell ys) = ys by
    rw [isValid_iff, hsymbols]
    exact h
  induction ys with
  | nil => rfl
  | cons y ys ih =>
      obtain ⟨hy, hys⟩ := List.forall_mem_cons.mp h
      cases y with
      | char c => rw [spell_cons, Symbol.bytes, symbols_encode_append, ih hys]
      | stray b => cases hy

/-- A text is valid exactly if it spells characters. -/
theorem isValid_iff_exists_chars {s : Bytes} : isValid s = true ↔ ∃ cs, s = ofChars cs := by
  constructor
  · intro h
    rw [isValid_iff] at h
    rw [← spell_symbols s]
    generalize symbols s = ys at h
    induction ys with
    | nil => exact ⟨[], rfl⟩
    | cons y ys ih =>
        obtain ⟨hy, hys⟩ := List.forall_mem_cons.mp h
        obtain ⟨cs, hcs⟩ := ih hys
        cases y with
        | char c => exact ⟨c :: cs, by rw [spell_cons, hcs]; rfl⟩
        | stray b => cases hy
  · rintro ⟨cs, rfl⟩
    have hspell : ofChars cs = spell (cs.map .char) := by
      unfold ofChars spell
      rw [List.flatMap_map]
      rfl
    rw [hspell]
    apply isValid_spell
    intro y hy
    obtain ⟨c, _, rfl⟩ := List.mem_map.mp hy
    rfl

@[simp] theorem isValid_nil : isValid [] = true := rfl

/-- Behind a valid text, a text is as valid as it is alone. -/
theorem isValid_append_iff {a b : Bytes} (ha : isValid a = true) :
    isValid (a ++ b) = true ↔ isValid b = true := by
  obtain ⟨cs, rfl⟩ := isValid_iff_exists_chars.mp ha
  clear ha
  induction cs with
  | nil => exact Iff.rfl
  | cons c cs ih =>
      rw [show ofChars (c :: cs) ++ b = String.utf8EncodeChar c ++ (ofChars cs ++ b) by
        simp [ofChars]]
      rw [isValid, symbols_encode_append, List.all_cons, ← isValid, ← ih]
      rfl

theorem isValid_append {a b : Bytes} (ha : isValid a = true) (hb : isValid b = true) :
    isValid (a ++ b) = true :=
  (isValid_append_iff ha).mpr hb

theorem isValid_flatMap {α : Type} {f : α → Bytes} {xs : List α}
    (h : ∀ x ∈ xs, isValid (f x) = true) : isValid (xs.flatMap f) = true := by
  induction xs with
  | nil => rfl
  | cons x xs ih =>
      obtain ⟨hx, hxs⟩ := List.forall_mem_cons.mp h
      exact isValid_append hx (ih hxs)

theorem not_isTail_of_ascii {b : UInt8} (hb : b < 0x80) : isTail b = false := by
  rw [Bool.eq_false_iff]
  intro htail
  rw [isTail_iff] at htail
  rw [ascii_iff] at hb
  omega

/-- An ASCII byte is a character, and the texts on its two sides are cut cleanly. -/
theorem isValid_ascii_iff {a : Bytes} {x : UInt8} {b : Bytes} (hx : x < 0x80) :
    isValid (a ++ x :: b) = true ↔ isValid a = true ∧ isValid b = true := by
  have hsplit : symbols (a ++ x :: b) = symbols a ++ symbols (x :: b) :=
    symbols_append a (by simpa using not_isTail_of_ascii hx)
  rw [isValid, hsplit, symbols_ascii_cons hx, List.all_append, List.all_cons, Bool.and_eq_true]
  exact Iff.rfl

theorem isValid_ascii_cons_iff {x : UInt8} {b : Bytes} (hx : x < 0x80) :
    isValid (x :: b) = true ↔ isValid b = true := by
  have hall := isValid_ascii_iff (a := []) (b := b) hx
  simpa using hall

end Utf8

namespace Bytes

open Utf8

theorem isValid_trim {s : Bytes} (hs : isValid s = true) : isValid s.trim = true := by
  obtain ⟨l, r, hsymbols, _, _, _⟩ := symbols_trim s
  rw [isValid_iff] at hs ⊢
  intro y hy
  apply hs
  rw [hsymbols]
  simp [hy]

theorem isValid_join {sep : Bytes} {parts : List Bytes} (hsep : isValid sep = true)
    (hparts : ∀ p ∈ parts, isValid p = true) : isValid (join sep parts) = true := by
  unfold join
  induction parts with
  | nil => rfl
  | cons p parts ih =>
      obtain ⟨hp, hrest⟩ := List.forall_mem_cons.mp hparts
      cases parts with
      | nil => simpa using hp
      | cons q parts =>
          rw [List.intercalate_cons_cons]
          exact isValid_append (isValid_append hp hsep) (ih hrest)

theorem mem_of_mem_splitOnP {p : Symbol → Bool} {ys part : List Symbol} {y : Symbol}
    (hpart : part ∈ ys.splitOnP p) (hy : y ∈ part) : y ∈ ys := by
  induction ys generalizing part with
  | nil =>
      rw [List.splitOnP_nil, List.mem_singleton] at hpart
      rwa [hpart] at hy
  | cons x ys ih =>
      rw [List.splitOnP_cons_eq_if_modifyHead] at hpart
      split at hpart
      · rcases List.mem_cons.mp hpart with rfl | hpart
        · cases hy
        · exact List.mem_cons_of_mem _ (ih hpart hy)
      · obtain ⟨first, parts, hsplit⟩ := List.exists_cons_of_ne_nil (List.splitOnP_ne_nil p ys)
        rw [hsplit, List.modifyHead_cons] at hpart
        rw [hsplit] at ih
        rcases List.mem_cons.mp hpart with rfl | hpart
        · rcases List.mem_cons.mp hy with rfl | hy
          · exact List.mem_cons_self
          · exact List.mem_cons_of_mem _ (ih List.mem_cons_self hy)
        · exact List.mem_cons_of_mem _ (ih (List.mem_cons_of_mem _ hpart) hy)

theorem isValid_words {s : Bytes} (hs : isValid s = true) {word : List Symbol}
    (hword : word ∈ s.words) : isValid (spell word) = true := by
  rw [isValid_iff] at hs
  apply isValid_spell
  intro y hy
  apply hs
  exact mem_of_mem_splitOnP (List.mem_filter.mp hword).1 hy

end Bytes

theorem isValid_normalize {s : Bytes} (hs : Utf8.isValid s = true) :
    Utf8.isValid (normalize s) = true := by
  unfold normalize
  apply Bytes.isValid_join (by decide)
  intro part hpart
  obtain ⟨word, hword, rfl⟩ := List.mem_map.mp hpart
  exact Bytes.isValid_words hs hword

end Cascade
