import Mathlib.Tactic.IntervalCases
import Cascade.Text.Integer

/-!
# Decimal numbers read back

A number that is written in decimal reads back as the same number if it fits in 64 bits.
-/

namespace Cascade

namespace Bytes

/-- What holds of the ten digits holds of every character that is a digit. -/
theorem forall_digit {p : Char → Bool} (h : ∀ d : Fin 10, p (Char.ofNat (0x30 + d.val)) = true)
    {c : Char} (hc : c.isDigit = true) : p c = true := by
  unfold Char.isDigit at hc
  rw [Bool.and_eq_true, decide_eq_true_eq, decide_eq_true_eq] at hc
  have hlow : 0x30 ≤ c.toNat := hc.1
  have hhigh : c.toNat ≤ 0x39 := hc.2
  have hp := h ⟨c.toNat - 0x30, by omega⟩
  rwa [show 0x30 + (c.toNat - 0x30) = c.toNat by omega, Char.ofNat_toNat] at hp

theorem forall_mem_toDigits {p : Char → Bool}
    (h : ∀ d : Fin 10, p (Char.ofNat (0x30 + d.val)) = true) (n : Nat) :
    ∀ c ∈ Nat.toDigits 10 n, p c = true := fun _ hc =>
  forall_digit h (Nat.isDigit_of_mem_toDigits (by decide) (by decide) hc)

theorem mem_ofNat_iff {n : Nat} {b : UInt8} :
    b ∈ ofNat n ↔ ∃ c ∈ Nat.toDigits 10 n, c.toUInt8 = b := by
  unfold ofNat
  exact List.mem_map

theorem forall_mem_ofNat {p : UInt8 → Bool}
    (h : ∀ d : Fin 10, p (Char.ofNat (0x30 + d.val)).toUInt8 = true) (n : Nat) :
    ∀ b ∈ ofNat n, p b = true := by
  intro b hb
  obtain ⟨c, hc, rfl⟩ := mem_ofNat_iff.mp hb
  exact forall_mem_toDigits (p := fun c => p c.toUInt8) h n c hc

theorem isDigit_of_mem_ofNat {n : Nat} {b : UInt8} (hb : b ∈ ofNat n) : 0x30 ≤ b ∧ b ≤ 0x39 := by
  have h := forall_mem_ofNat (p := Integer.isDigit) (by decide) n b hb
  simpa [Integer.isDigit] using h

/-- A number that is not zero starts with another digit. -/
theorem head_toDigits {n : Nat} (hn : 0 < n) : (Nat.toDigits 10 n).head? ≠ some '0' := by
  induction n using Nat.strongRecOn with
  | _ n ih =>
      by_cases hlt : n < 10
      · rw [Nat.toDigits_of_lt_base hlt]
        interval_cases n <;> decide
      · obtain ⟨c, cs, hcs⟩ := List.exists_cons_of_ne_nil
          (Nat.toDigits_ne_nil (n := n / 10) (b := 10))
        have hhead := ih (n / 10) (by omega) (by omega)
        rw [hcs] at hhead
        rw [Nat.toDigits_of_base_le (by decide) (by omega), hcs]
        exact hhead

/-- The first digit of a number that is not zero. -/
theorem exists_ofNat_eq_cons {n : Nat} (hn : 0 < n) :
    ∃ b s, ofNat n = b :: s ∧ Integer.isDigit b = true ∧ b ≠ 0x30 := by
  obtain ⟨c, cs, hcs⟩ := List.exists_cons_of_ne_nil (Nat.toDigits_ne_nil (n := n) (b := 10))
  have hmem : c ∈ Nat.toDigits 10 n := hcs ▸ List.mem_cons_self
  have hne : c ≠ '0' := by
    have h := head_toDigits hn
    rw [hcs] at h
    exact fun hc => h (congrArg some hc)
  have hzero := forall_mem_toDigits (p := fun c => c == '0' || c.toUInt8 != 0x30) (by decide) n c hmem
  refine ⟨c.toUInt8, cs.map Char.toUInt8, congrArg (List.map Char.toUInt8) hcs, ?_, ?_⟩
  · exact forall_mem_toDigits (p := fun c => Integer.isDigit c.toUInt8) (by decide) n c hmem
  · rw [beq_false_of_ne hne, Bool.false_or, bne_iff_ne] at hzero
    exact hzero

end Bytes

namespace Integer

theorem le_ofDigitChars (cs : List Char) (n : Nat) : n ≤ Nat.ofDigitChars 10 cs n := by
  induction cs generalizing n with
  | nil => exact Nat.le_refl n
  | cons c cs ih =>
      rw [Nat.ofDigitChars_cons]
      exact (by omega : n ≤ 10 * n + (c.toNat - '0'.toNat)).trans (ih _)

theorem magnitude_digits {limit : Nat} {cs : List Char} (hcs : ∀ c ∈ cs, c.isDigit = true) {n : Nat}
    (h : Nat.ofDigitChars 10 cs n ≤ limit) :
    magnitude 10 limit n (cs.map Char.toUInt8) = .ok (Nat.ofDigitChars 10 cs n) := by
  induction cs generalizing n with
  | nil => rfl
  | cons c cs ih =>
      obtain ⟨hc, hcs⟩ := List.forall_mem_cons.mp hcs
      have hplain : (c.toUInt8 == underscore) = false := by
        have h := Bytes.forall_digit (p := fun c => c.toUInt8 != underscore) (by decide) hc
        simpa using h
      have hdigit : digit? c.toUInt8 = some (c.toNat - '0'.toNat) := by
        have h := Bytes.forall_digit
          (p := fun c => digit? c.toUInt8 == some (c.toNat - '0'.toNat)) (by decide) hc
        simpa using h
      have hsmall : c.toNat - '0'.toNat < 10 := by
        have h := Bytes.forall_digit (p := fun c => c.toNat - '0'.toNat < 10) (by decide) hc
        simpa using h
      rw [Nat.ofDigitChars_cons] at h ⊢
      have hle := (le_ofDigitChars cs (10 * n + (c.toNat - '0'.toNat))).trans h
      rw [List.map_cons, magnitude, hplain, if_neg Bool.false_ne_true, hdigit]
      dsimp only
      rw [if_neg (Nat.not_le.mpr hsmall), Nat.mul_comm n 10, if_neg (Nat.not_lt.mpr hle)]
      exact ih hcs h

theorem spaced_digits {s : Bytes} (hs : ∀ b ∈ s, isDigit b = true) (behindDigit : Bool) :
    spaced behindDigit isDigit s = true := by
  induction s generalizing behindDigit with
  | nil => rfl
  | cons b s ih =>
      obtain ⟨hb, hs⟩ := List.forall_mem_cons.mp hs
      have hplain : (b == underscore) = false := beq_false_of_ne fun h => by
        rw [h] at hb
        cases hb
      unfold spaced
      rw [hplain, if_neg Bool.false_ne_true]
      exact ih hs _

/-- Without a mark, digits are decimal. -/
theorem split_digits {b : UInt8} {s : Bytes} (hb : b ≠ 0x30) : split (b :: s) = (10, b :: s) := by
  unfold split
  split
  · rename_i heq
    exact absurd (List.cons.inj heq).1 hb
  · rename_i heq
    exact absurd (List.cons.inj heq).1 hb
  · rfl

theorem underscoresOk_digits {b : UInt8} {s : Bytes} (hs : ∀ x ∈ b :: s, isDigit x = true)
    (hb : b ≠ 0x30) : underscoresOk (b :: s) = true := by
  unfold underscoresOk
  split
  · rename_i heq
    exact absurd (List.cons.inj heq).1 hb
  · exact spaced_digits hs false

theorem sign_digits {b : UInt8} {s : Bytes} (hb : isDigit b = true) :
    sign (b :: s) = (false, b :: s) := by
  unfold sign
  split
  · rename_i heq
    rw [(List.cons.inj heq).1] at hb
    cases hb
  · rename_i heq
    rw [(List.cons.inj heq).1] at hb
    cases hb
  · rfl

/-- A number below the bound for a sign reads back. -/
theorem parse_ofNat {n : Nat} (hpos : 0 < n) (hlt : n < Nat.pow 2 63) :
    parse (Bytes.ofNat n) = .ok (n : Int) := by
  obtain ⟨b, s, hcons, hb, hzero⟩ := Bytes.exists_ofNat_eq_cons hpos
  have hdigits : ∀ x ∈ b :: s, isDigit x = true := by
    rw [← hcons]
    exact Bytes.forall_mem_ofNat (by decide) n
  have hvalue : Nat.ofDigitChars 10 (Nat.toDigits 10 n) 0 = n :=
    Nat.ofDigitChars_toDigits (by decide) (by decide)
  have hmagnitude : magnitude 10 maxWord 0 (b :: s) = .ok n := by
    have hle : Nat.ofDigitChars 10 (Nat.toDigits 10 n) 0 ≤ maxWord := by
      rw [hvalue]
      exact hlt.le.trans (by decide)
    have h := magnitude_digits (Bytes.forall_mem_toDigits (p := Char.isDigit) (by decide) n) hle
    rw [hvalue] at h
    rw [← hcons]
    exact h
  have hunsigned : parseUnsigned (b :: s) = .ok n := by
    rw [parseUnsigned, split_digits hzero]
    dsimp only [List.isEmpty_cons]
    rw [if_neg Bool.false_ne_true, hmagnitude]
    dsimp only
    rw [underscoresOk_digits hdigits hzero, if_pos rfl]
  rw [parse, hcons, sign_digits hb]
  dsimp only
  rw [hunsigned]
  dsimp only
  rw [if_neg Bool.false_ne_true, if_pos hlt]

end Integer

end Cascade
