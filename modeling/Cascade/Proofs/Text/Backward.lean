import Cascade.Proofs.Text.Validity
import Mathlib.Data.List.Induction

/-!
# Reading a text from its end

The last symbol of a text can be found from the end: back up over bytes that continue a character
to one that does not, and see whether the character that starts there ends with the text. This
gives what reading from the front gives, on texts with stray bytes too. So white space at the end
may be cut off from either side.
-/

namespace Cascade

namespace Utf8

/-- The symbol at the end of a text. Its last byte is `b`, and `before` is what stands before that
byte, last byte first. A character has at most three bytes in front of its last one. -/
def readLast (before : Bytes) (b : UInt8) : Symbol :=
  if b < 0x80 then .char (Char.ofNat b.toNat)
  else
    match (before.take 3).dropWhile isTail with
    | [] => .stray b
    | a :: _ =>
      let tails := (b :: (before.take 3).takeWhile isTail).reverse
      if (read a tails).2 = tails.length then (read a tails).1 else .stray b

/-! ## The bytes of a character -/

theorem read_tail {a : UInt8} (h : isTail a = true) (rest : Bytes) : read a rest = (.stray a, 0) := by
  have hrange := isTail_iff.mp h
  have hlow : ¬ a < 0x80 := by
    rw [ascii_iff]
    omega
  have hbelow : ∀ x : UInt8, 0xC0 ≤ x.toNat → ¬ x ≤ a := by
    intro x hx
    rw [UInt8.le_iff_toNat_le]
    omega
  simp [read, hlow, hbelow 0xC2 (by decide), hbelow 0xE0 (by decide), hbelow 0xF0 (by decide)]

theorem read_nil {a : UInt8} (h : ¬ a < 0x80) : read a [] = (.stray a, 0) := by
  simp [read, h]

theorem symbols_eq_nil_iff {s : Bytes} : symbols s = [] ↔ s = [] := by
  constructor
  · intro h
    rw [← spell_symbols s, h]
    rfl
  · rintro rfl
    rfl

/-- A character is spelled by a byte that continues none and up to three that do, and is read off
these bytes. -/
theorem exists_encode_eq (c : Char) :
    ∃ a tails, String.utf8EncodeChar c = a :: tails ∧ isTail a = false ∧
      (∀ b ∈ tails, isTail b = true) ∧ tails.length ≤ 3 ∧
      read a tails = (.char c, tails.length) := by
  obtain ⟨a, tails, henc⟩ := List.exists_cons_of_ne_nil (String.utf8EncodeChar_ne_nil (c := c))
  have hsymbols := symbols_encode_append c []
  rw [List.append_nil, henc, symbols_cons] at hsymbols
  obtain ⟨hchar, hrest⟩ := List.cons.inj hsymbols
  have hcount : (read a tails).2 = tails.length := by
    apply Nat.le_antisymm (read_bytes a tails).2
    exact List.drop_eq_nil_iff.mp (symbols_eq_nil_iff.mp hrest)
  have hread : read a tails = (.char c, tails.length) := Prod.ext hchar hcount
  refine ⟨a, tails, henc, ?_, ?_, ?_, hread⟩
  · rw [Bool.eq_false_iff]
    intro htail
    rw [read_tail htail] at hchar
    cases hchar
  · rcases read_spec a tails with ⟨c', tails', z, heq, _, htails, hread'⟩ | hstray
    · rw [heq, hread'] at hread
      have hlength := congrArg List.length heq
      have hsame := (Prod.mk.inj hread).2
      rw [List.length_append] at hlength hsame
      have hz : z = [] := List.eq_nil_of_length_eq_zero (by omega)
      rwa [heq, hz, List.append_nil]
    · have hall := hstray tails.length
      rw [List.take_length, hread] at hall
      cases hall
  · have hsize := String.length_utf8EncodeChar c
    have hfour := Char.utf8Size_le_four c
    rw [henc, List.length_cons] at hsize
    omega

/-! ## The last symbol -/

/-- A text that ends with a symbol read at `a` has it as its last symbol. -/
theorem symbols_append_read (z : Bytes) {a : UInt8} {tails : Bytes} (ha : isTail a = false)
    (hall : (read a tails).2 = tails.length) :
    symbols (z ++ a :: tails) = symbols z ++ [(read a tails).1] := by
  rw [symbols_append z (by simpa using ha), symbols_cons, hall, List.drop_length, symbols_nil]

/-- A character of two bytes or more is found from its last byte. -/
theorem readLast_char {s z : Bytes} {b : UInt8} {c : Char} (hb : ¬ b < 0x80)
    (h : s ++ [b] = z ++ String.utf8EncodeChar c) : readLast s.reverse b = .char c := by
  obtain ⟨a, tails, henc, ha, htails, hlength, hread⟩ := exists_encode_eq c
  rw [henc] at h
  rcases List.eq_nil_or_concat tails with rfl | ⟨front, b', rfl⟩
  · obtain ⟨_, hlast⟩ := List.append_inj' h rfl
    obtain rfl := (List.cons.inj hlast).1
    rw [read_nil hb] at hread
    cases hread
  rw [List.concat_eq_append] at h htails hread hlength
  rw [← List.cons_append, ← List.append_assoc] at h
  obtain ⟨rfl, hlast⟩ := List.append_inj' h rfl
  obtain rfl := (List.cons.inj hlast).1
  rw [List.length_append, List.length_singleton] at hlength
  have hfront : ∀ x ∈ front.reverse, isTail x = true := by
    intro x hx
    exact htails x (List.mem_append_left _ (List.mem_reverse.mp hx))
  -- three bytes back from the last one there is room for the others, the first one included
  have hback : ∃ n, (z ++ a :: front).reverse.take 3 = front.reverse ++ a :: z.reverse.take n := by
    refine ⟨2 - front.length, ?_⟩
    have hroom : 3 - front.length = 2 - front.length + 1 := by omega
    rw [List.reverse_append, List.reverse_cons, List.append_assoc, List.singleton_append,
      List.take_append, List.length_reverse, hroom, List.take_succ_cons,
      List.take_of_length_le (by rw [List.length_reverse]; omega)]
  obtain ⟨n, hback⟩ := hback
  rw [readLast, if_neg hb, hback, List.takeWhile_append_of_pos hfront,
    List.dropWhile_append_of_pos hfront, List.takeWhile_cons_of_neg (by simp [ha]),
    List.dropWhile_cons_of_neg (by simp [ha]), List.append_nil, List.reverse_cons,
    List.reverse_reverse]
  simp only [hread, if_pos]

/-- A stray byte at the end is found as one: if backing up came to a character that ends there,
reading from the front would come to it too. -/
theorem readLast_stray {s : Bytes} {b : UInt8} {ys : List Symbol} (hb : ¬ b < 0x80)
    (h : symbols (s ++ [b]) = ys ++ [.stray b]) : readLast s.reverse b = .stray b := by
  rw [readLast, if_neg hb]
  split
  · rfl
  next a r hdrop =>
  generalize htails : (s.reverse.take 3).takeWhile isTail = tails
  dsimp only
  split
  · next hall =>
      have ha : isTail a = false := by
        have hhead := List.head?_dropWhile_not isTail (s.reverse.take 3)
        rw [hdrop] at hhead
        simpa using hhead
      have hback : s.reverse = tails ++ a :: (r ++ s.reverse.drop 3) := by
        rw [← List.cons_append, ← List.append_assoc, ← htails, ← hdrop,
          List.takeWhile_append_dropWhile, List.take_append_drop]
      generalize s.reverse.drop 3 = z at hback
      have hs : s ++ [b] = (r ++ z).reverse ++ a :: (b :: tails).reverse := by
        rw [← List.reverse_inj, List.reverse_append, hback]
        simp
      rw [hs, symbols_append_read _ ha hall] at h
      have hlast := (List.cons.inj (List.append_inj' h rfl).2).1
      have hbytes := congrArg List.length (read_bytes a (b :: tails).reverse).1
      rw [hlast, hall, List.take_length] at hbytes
      simp [Symbol.bytes] at hbytes
  · rfl

/-- Reading from the end finds the symbol that reading from the front comes to last. -/
theorem readLast_eq {s : Bytes} {b : UInt8} {ys : List Symbol} {y : Symbol}
    (h : symbols (s ++ [b]) = ys ++ [y]) : readLast s.reverse b = y := by
  by_cases hascii : b < 0x80
  · -- an ASCII byte is a character of its own
    rw [symbols_append s (by simpa using not_isTail_of_ascii hascii), symbols_ascii_cons hascii] at h
    have hy := (List.append_inj' h rfl).2
    rw [readLast, if_pos hascii]
    exact (List.cons.inj hy).1
  have htext : s ++ [b] = spell ys ++ y.bytes := by
    have hspell := congrArg spell h
    simpa using hspell
  cases y with
  | char c => exact readLast_char hascii htext
  | stray b' =>
      obtain ⟨_, hb⟩ := List.append_inj' htext rfl
      obtain rfl := (List.cons.inj hb).1
      exact readLast_stray hascii h

end Utf8

/-! ## Trimming the end from the end -/

namespace Bytes

open Utf8

/-- What is left of a text, last byte first, once `skip` of its bytes and then the white space at
its end are gone. -/
def dropBlanks : (skip : Nat) → Bytes → Bytes
  | _, [] => []
  | k + 1, _ :: before => dropBlanks k before
  | 0, b :: before =>
    if (readLast before b).isBlank then dropBlanks ((readLast before b).bytes.length - 1) before
    else b :: before

/-- The text without the white space at its end, which is found from the end. -/
def trimEnd (s : Bytes) : Bytes := (dropBlanks 0 s.reverse).reverse

def trimStart (s : Bytes) : Bytes := spell ((symbols s).dropWhile Symbol.isBlank)

theorem dropBlanks_eq (k : Nat) (s : Bytes) : dropBlanks k s = dropBlanks 0 (s.drop k) := by
  induction s generalizing k with
  | nil => cases k <;> rfl
  | cons b s ih =>
      cases k with
      | zero => rfl
      | succ k => exact ih k

/-- From the end, the symbols are met one by one in reverse order, and the blank ones dropped. -/
theorem dropBlanks_reverse {s : Bytes} {ys : List Symbol} (h : symbols s = ys) :
    dropBlanks 0 s.reverse = (spell (ys.reverse.dropWhile Symbol.isBlank).reverse).reverse := by
  induction ys using List.reverseRecOn generalizing s with
  | nil =>
      rw [symbols_eq_nil_iff.mp h]
      rfl
  | append_singleton ys y ih =>
      have htext : s = spell ys ++ y.bytes := by
        have hspell := congrArg spell h
        simpa using hspell
      have hfront := ih (symbols_spell_left h)
      obtain ⟨front, b, hbytes⟩ : ∃ front b, y.bytes = front ++ [b] := by
        rcases List.eq_nil_or_concat y.bytes with hnil | ⟨front, b, hconcat⟩
        · exact absurd hnil (bytes_ne_nil y)
        · exact ⟨front, b, hconcat.trans (List.concat_eq_append)⟩
      have hs : s = (spell ys ++ front) ++ [b] := by
        rw [htext, hbytes, List.append_assoc]
      have hlast : readLast (spell ys ++ front).reverse b = y := by
        rw [hs] at h
        exact readLast_eq h
      have hback : (ys ++ [y]).reverse = y :: ys.reverse := by simp
      rw [hs, List.reverse_append, List.reverse_singleton, List.singleton_append, dropBlanks, hlast,
        hback]
      cases hy : y.isBlank with
      | true =>
          -- the bytes before the last one of a blank symbol go with it
          have hcount : y.bytes.length - 1 = front.reverse.length := by
            rw [hbytes]
            simp
          rw [if_pos rfl, dropBlanks_eq, hcount, List.reverse_append, List.drop_left, hfront,
            List.dropWhile_cons_of_pos hy]
      | false =>
          rw [if_neg Bool.false_ne_true, List.dropWhile_cons_of_neg (by simp [hy])]
          simp [hbytes]

/-- Trimming cuts white space off the start, read from the start, and off the end, read from the
end. -/
theorem trim_eq_trimEnd (s : Bytes) : s.trim = trimEnd (trimStart s) := by
  have hfront : symbols (trimStart s) = (symbols s).dropWhile Symbol.isBlank :=
    symbols_spell_right (List.takeWhile_append_dropWhile).symm
  rw [trimEnd, dropBlanks_reverse hfront, List.reverse_reverse, trim]

end Bytes

end Cascade
