import Cascade.Text.Blank
import Mathlib.Data.List.TakeWhile
import Mathlib.Tactic.SplitIfs

/-!
# Texts as symbols

Reading a text as symbols loses nothing, whether it is valid UTF-8 or not. A text
can be cut in front of any byte that continues no character, and at any place
between two of its symbols, without a change to the symbols on either side.
Trimming is a cut of the second kind.
-/

namespace Cascade

namespace Utf8

/-! ## Reading one symbol -/

theorem isTail_iff {b : UInt8} : isTail b = true ↔ 128 ≤ b.toNat ∧ b.toNat < 192 := by
  simp only [isTail, Bool.and_eq_true, decide_eq_true_eq, UInt8.le_iff_toNat_le]
  change 128 ≤ b.toNat ∧ b.toNat ≤ 191 ↔ _
  omega

/-- What `follows` allows, in numbers. -/
theorem follows_bounds {a b : UInt8} (h : follows a b = true) :
    (a.toNat = 0xE0 → 160 ≤ b.toNat) ∧ (a.toNat = 0xED → b.toNat < 160) ∧
      (a.toNat = 0xF0 → 144 ≤ b.toNat) ∧ (a.toNat = 0xF4 → b.toNat < 144) ∧
      128 ≤ b.toNat ∧ b.toNat < 192 := by
  simp only [follows, isTail, beq_iff_eq, UInt8.le_iff_toNat_le, ← UInt8.toNat_inj] at h
  simp only [UInt8.toNat_ofNat, Nat.reducePow, Nat.reduceMod] at h
  split_ifs at h <;> simp only [Bool.and_eq_true, decide_eq_true_eq] at h <;> omega

theorem isTail_of_follows {a b : UInt8} (h : follows a b = true) : isTail b = true := by
  have hb := follows_bounds h
  exact isTail_iff.mpr ⟨hb.2.2.2.2.1, hb.2.2.2.2.2⟩

theorem encode_ofNat {v : Nat} (h : v.isValidChar) :
    String.utf8EncodeChar (Char.ofNat v) =
      if v ≤ 0x7F then [.ofNat v]
      else if v ≤ 0x7FF then [.ofNat (v / 64 % 32 + 0xC0), .ofNat (v % 64 + 0x80)]
      else if v ≤ 0xFFFF then
        [.ofNat (v / 4096 % 16 + 0xE0), .ofNat (v / 64 % 64 + 0x80), .ofNat (v % 64 + 0x80)]
      else [.ofNat (v / 262144 % 8 + 0xF0), .ofNat (v / 4096 % 64 + 0x80),
        .ofNat (v / 64 % 64 + 0x80), .ofNat (v % 64 + 0x80)] := by
  rw [Char.ofNat, dif_pos h]
  rfl

theorem encode_one {a : UInt8} (ha : a < 0x80) :
    String.utf8EncodeChar (Char.ofNat a.toNat) = [a] := by
  have hn : a.toNat < 128 := by simpa using UInt8.lt_iff_toNat_lt.mp ha
  rw [encode_ofNat (Or.inl (by omega)), if_pos (by omega), UInt8.ofNat_toNat]

theorem encode_two {a b : UInt8} (ha : 0xC2 ≤ a ∧ a ≤ 0xDF) (hb : isTail b = true) :
    String.utf8EncodeChar (Char.ofNat (a.toNat % 32 * 64 + tailBits b)) = [a, b] := by
  rw [isTail_iff] at hb
  simp only [UInt8.le_iff_toNat_le] at ha
  simp only [UInt8.toNat_ofNat, Nat.reducePow, Nat.reduceMod] at ha
  have hv : (a.toNat % 32 * 64 + tailBits b).isValidChar := by
    unfold tailBits Nat.isValidChar
    omega
  rw [encode_ofNat hv]
  unfold tailBits
  rw [if_neg (by omega), if_pos (by omega)]
  simp only [List.cons.injEq, and_true, ← UInt8.toNat_inj, UInt8.toNat_ofNat']
  omega

theorem encode_three {a b c : UInt8} (ha : 0xE0 ≤ a ∧ a ≤ 0xEF)
    (hb : follows a b = true) (hc : isTail c = true) :
    String.utf8EncodeChar
      (Char.ofNat (a.toNat % 16 * 4096 + tailBits b * 64 + tailBits c)) = [a, b, c] := by
  have hb := follows_bounds hb
  rw [isTail_iff] at hc
  simp only [UInt8.le_iff_toNat_le] at ha
  simp only [UInt8.toNat_ofNat, Nat.reducePow, Nat.reduceMod] at ha
  have hv : (a.toNat % 16 * 4096 + tailBits b * 64 + tailBits c).isValidChar := by
    unfold tailBits Nat.isValidChar
    omega
  rw [encode_ofNat hv]
  unfold tailBits
  rw [if_neg (by omega), if_neg (by omega), if_pos (by omega)]
  simp only [List.cons.injEq, and_true, ← UInt8.toNat_inj, UInt8.toNat_ofNat']
  omega

theorem encode_four {a b c d : UInt8} (ha : 0xF0 ≤ a ∧ a ≤ 0xF4)
    (hb : follows a b = true) (hc : isTail c = true) (hd : isTail d = true) :
    String.utf8EncodeChar (Char.ofNat
      (a.toNat % 8 * 262144 + tailBits b * 4096 + tailBits c * 64 + tailBits d)) =
        [a, b, c, d] := by
  have hb := follows_bounds hb
  rw [isTail_iff] at hc hd
  simp only [UInt8.le_iff_toNat_le] at ha
  simp only [UInt8.toNat_ofNat, Nat.reducePow, Nat.reduceMod] at ha
  have hv : (a.toNat % 8 * 262144 + tailBits b * 4096 + tailBits c * 64 +
      tailBits d).isValidChar := by
    unfold tailBits Nat.isValidChar
    omega
  rw [encode_ofNat hv]
  unfold tailBits
  rw [if_neg (by omega), if_neg (by omega), if_neg (by omega)]
  simp only [List.cons.injEq, and_true, ← UInt8.toNat_inj, UInt8.toNat_ofNat']
  omega

/-- Reading at a lead byte gives a character whatever follows its last byte, or a
stray byte however much of what follows is cut off. -/
theorem read_spec (a : UInt8) (rest : Bytes) :
    (∃ c tails z, rest = tails ++ z ∧ String.utf8EncodeChar c = a :: tails ∧
      (∀ b ∈ tails, isTail b = true) ∧
      ∀ z', read a (tails ++ z') = (.char c, tails.length)) ∨
    (∀ n, read a (rest.take n) = (.stray a, 0)) := by
  by_cases h1 : a < 0x80
  · left
    exact ⟨Char.ofNat a.toNat, [], rest, rfl, encode_one h1, by simp, fun z' => by simp [read, h1]⟩
  -- each lead byte asks for its number of tails: too few of them, or a byte that is
  -- none, make the lead byte a stray, and cutting more off does not change that
  by_cases h2 : 0xC2 ≤ a ∧ a ≤ 0xDF
  · rcases rest with _ | ⟨b, z⟩
    · right
      intro n
      simp [read, h1]
    · by_cases hb : isTail b = true
      · left
        refine ⟨_, [b], z, rfl, encode_two h2 hb, by simpa using hb, fun z' => ?_⟩
        simp [read, h1, h2, hb]
      · right
        intro n
        cases n <;> simp [read, h1, h2, hb]
  by_cases h3 : 0xE0 ≤ a ∧ a ≤ 0xEF
  · rcases rest with _ | ⟨b, _ | ⟨c, z⟩⟩
    · right
      intro n
      simp [read, h1]
    · right
      intro n
      cases n <;> simp [read, h1, h2]
    · by_cases hbc : follows a b = true ∧ isTail c = true
      · left
        refine ⟨_, [b, c], z, rfl, encode_three h3 hbc.1 hbc.2, ?_, fun z' => ?_⟩
        · simp [isTail_of_follows hbc.1, hbc.2]
        · simp [read, h1, h2, h3, hbc]
      · right
        intro n
        rcases n with _ | _ | n <;> simp [read, h1, h2, h3, hbc]
  by_cases h4 : 0xF0 ≤ a ∧ a ≤ 0xF4
  · rcases rest with _ | ⟨b, _ | ⟨c, _ | ⟨d, z⟩⟩⟩
    · right
      intro n
      simp [read, h1]
    · right
      intro n
      cases n <;> simp [read, h1, h2, h3]
    · right
      intro n
      rcases n with _ | _ | n <;> simp [read, h1, h2, h3]
    · by_cases hbcd : (follows a b = true ∧ isTail c = true) ∧ isTail d = true
      · left
        refine ⟨_, [b, c, d], z, rfl, encode_four h4 hbcd.1.1 hbcd.1.2 hbcd.2, ?_,
          fun z' => ?_⟩
        · simp [isTail_of_follows hbcd.1.1, hbcd.1.2, hbcd.2]
        · simp [read, h1, h2, h3, h4, hbcd]
      · right
        intro n
        rcases n with _ | _ | _ | n <;> simp [read, h1, h2, h3, h4, hbcd]
  · right
    intro n
    simp [read, h1, h2, h3, h4]

theorem read_ascii {a : UInt8} (h : a < 0x80) (rest : Bytes) :
    read a rest = (.char (Char.ofNat a.toNat), 0) := by
  simp [read, h]

/-- Three bytes ahead are enough. -/
theorem read_take_three (a : UInt8) (rest : Bytes) : read a (rest.take 3) = read a rest := by
  rcases rest with _ | ⟨b, _ | ⟨c, _ | ⟨d, rest⟩⟩⟩ <;> rfl

/-- The symbol read at a lead byte is spelled by that byte and those counted behind it. -/
theorem read_bytes (a : UInt8) (rest : Bytes) :
    (read a rest).1.bytes = a :: rest.take (read a rest).2 ∧
      (read a rest).2 ≤ rest.length := by
  rcases read_spec a rest with ⟨c, tails, z, rfl, henc, _, hread⟩ | hstray
  · simp [hread, Symbol.bytes, henc]
  · have hall := hstray rest.length
    rw [List.take_length] at hall
    simp [hall, Symbol.bytes]

/-- A byte that continues no character ends whatever stands before it. -/
theorem read_append {b : Bytes} (hb : ∀ x ∈ b.head?, isTail x = false)
    (a : UInt8) (rest : Bytes) : read a (rest ++ b) = read a rest := by
  rcases read_spec a (rest ++ b) with ⟨c, tails, z, hz, _, htails, hread⟩ | hstray
  · -- the tails cannot reach into `b`
    have hpre : tails <+: rest := by
      rw [List.append_eq_append_iff] at hz
      rcases hz with ⟨mid, rfl, hmid⟩ | ⟨mid, rfl, _⟩
      · rcases mid with _ | ⟨x, mid⟩
        · simp
        · have hx : isTail x = true := htails x (by simp)
          rw [hb x (by simp [hmid])] at hx
          exact Bool.noConfusion hx
      · exact List.prefix_append _ _
    obtain ⟨z', rfl⟩ := hpre
    rw [List.append_assoc, hread, hread]
  · have hall := hstray (rest ++ b).length
    have hpart := hstray rest.length
    rw [List.take_length] at hall
    rw [List.take_left'] at hpart
    · rw [hall, hpart]
    · rfl

/-! ## The symbols of a text -/

theorem symbolsFrom_eq (k : Nat) (s : Bytes) : symbolsFrom k s = symbols (s.drop k) := by
  induction s generalizing k with
  | nil => simp [symbols, symbolsFrom]
  | cons a s ih =>
      cases k with
      | zero => rfl
      | succ k => simpa [symbolsFrom] using ih k

@[simp] theorem symbols_nil : symbols [] = [] := rfl

theorem symbols_cons (a : UInt8) (s : Bytes) :
    symbols (a :: s) = (read a s).1 :: symbols (s.drop (read a s).2) := by
  rw [symbols, symbolsFrom, symbolsFrom_eq]

/-- The first symbol of a text, what follows it, and how much of what follows it
the symbol depends on. -/
theorem symbols_cons_cases (a : UInt8) (s : Bytes) :
    ∃ y z, a :: s = y.bytes ++ z ∧ symbols (a :: s) = y :: symbols z ∧
      ∀ z', z' <+: z → symbols (y.bytes ++ z') = y :: symbols z' := by
  rcases read_spec a s with ⟨c, tails, z, rfl, henc, _, hread⟩ | hstray
  · refine ⟨.char c, z, ?_, ?_, fun z' _ => ?_⟩
    · simp [Symbol.bytes, henc]
    · rw [symbols_cons, hread]
      simp
    · rw [Symbol.bytes, henc, List.cons_append, symbols_cons, hread]
      simp
  · refine ⟨.stray a, s, by simp [Symbol.bytes], ?_, ?_⟩
    · have hall := hstray s.length
      rw [List.take_length] at hall
      rw [symbols_cons, hall]
      rfl
    · rintro z' ⟨w, rfl⟩
      have hpart := hstray z'.length
      rw [List.take_left' rfl] at hpart
      rw [Symbol.bytes, List.singleton_append, symbols_cons, hpart]
      rfl

theorem symbols_ascii_cons {a : UInt8} (h : a < 0x80) (s : Bytes) :
    symbols (a :: s) = .char (Char.ofNat a.toNat) :: symbols s := by
  rw [symbols_cons, read_ascii h]
  rfl

@[simp] theorem spell_nil : spell [] = [] := rfl

@[simp] theorem spell_cons (y : Symbol) (ys : List Symbol) :
    spell (y :: ys) = y.bytes ++ spell ys := by
  simp [spell]

@[simp] theorem spell_append (ys zs : List Symbol) :
    spell (ys ++ zs) = spell ys ++ spell zs := by
  simp [spell]

theorem bytes_ne_nil (y : Symbol) : y.bytes ≠ [] := by
  cases y with
  | char c => exact String.utf8EncodeChar_ne_nil
  | stray b => simp [Symbol.bytes]

/-- Nothing is lost in reading a text as symbols. -/
@[simp] theorem spell_symbols (s : Bytes) : spell (symbols s) = s := by
  induction hn : s.length using Nat.strongRecOn generalizing s with
  | ind n ih =>
      rcases s with _ | ⟨a, s⟩
      · rfl
      · obtain ⟨y, z, hz, hsym, _⟩ := symbols_cons_cases a s
        have hlt : z.length < n := by
          have hpos := List.length_pos_iff.mpr (bytes_ne_nil y)
          have hlen := congrArg List.length hz
          rw [List.length_append] at hlen
          omega
        rw [hsym, spell_cons, ih _ hlt z rfl, ← hz]

/-- A text may be cut in front of a byte that continues no character. -/
theorem symbols_append (a : Bytes) {b : Bytes} (hb : ∀ x ∈ b.head?, isTail x = false) :
    symbols (a ++ b) = symbols a ++ symbols b := by
  induction hn : a.length using Nat.strongRecOn generalizing a with
  | ind n ih =>
      rcases a with _ | ⟨x, a⟩
      · rfl
      · rw [List.cons_append, symbols_cons, symbols_cons, read_append hb]
        have hle := (read_bytes x a).2
        have hlt : (a.drop (read x a).2).length < n := by
          simp only [List.length_cons] at hn
          simp only [List.length_drop]
          omega
        rw [List.drop_append_of_le_length hle, ih _ hlt _ rfl, List.cons_append]

/-- The front part of the symbols of a text are the symbols of what they spell. -/
theorem symbols_spell_left {s : Bytes} {ys zs : List Symbol} (h : symbols s = ys ++ zs) :
    symbols (spell ys) = ys := by
  induction ys generalizing s with
  | nil => rfl
  | cons y ys ih =>
      rcases s with _ | ⟨a, s⟩
      · simp at h
      · obtain ⟨y', z, _, hsym, hshort⟩ := symbols_cons_cases a s
        rw [hsym, List.cons_append, List.cons.injEq] at h
        obtain ⟨rfl, hz⟩ := h
        have hpre : spell ys <+: z := by
          rw [← spell_symbols z, hz, spell_append]
          exact List.prefix_append _ _
        rw [spell_cons, hshort _ hpre, ih hz]

/-- The back part of the symbols of a text are the symbols of what they spell. -/
theorem symbols_spell_right {s : Bytes} {ys zs : List Symbol} (h : symbols s = ys ++ zs) :
    symbols (spell zs) = zs := by
  induction ys generalizing s with
  | nil =>
      rw [List.nil_append] at h
      rw [← h, spell_symbols]
  | cons y ys ih =>
      rcases s with _ | ⟨a, s⟩
      · simp at h
      · obtain ⟨y', z, _, hsym, _⟩ := symbols_cons_cases a s
        rw [hsym, List.cons_append, List.cons.injEq] at h
        exact ih h.2

end Utf8

/-! ## White space at the ends of a text -/

def Symbol.Trimmed (ys : List Symbol) : Prop :=
  (∀ y ∈ ys.head?, y.isBlank = false) ∧ ∀ y ∈ ys.getLast?, y.isBlank = false

/-- White space is spelled with ASCII white space and bytes above ASCII. -/
theorem Symbol.bytes_of_isBlank {y : Symbol} (hy : y.isBlank = true) :
    ∀ b ∈ y.bytes, b.toNat ≤ 13 ∨ b.toNat = 32 ∨ 128 ≤ b.toNat := by
  intro b hb
  cases y with
  | stray b => exact Bool.noConfusion hy
  | char c =>
      simp only [Symbol.isBlank, Cascade.isBlank, Char.toNat, Bool.or_eq_true, Bool.and_eq_true,
        decide_eq_true_eq, beq_iff_eq] at hy
      simp only [Symbol.bytes, String.utf8EncodeChar] at hb
      split_ifs at hb <;> simp only [List.mem_cons, List.not_mem_nil, or_false] at hb
      · subst hb
        rw [UInt8.toNat_ofNat']
        omega
      · rcases hb with rfl | rfl <;> rw [UInt8.toNat_ofNat'] <;> omega
      · rcases hb with rfl | rfl | rfl <;> rw [UInt8.toNat_ofNat'] <;> omega
      · rcases hb with rfl | rfl | rfl | rfl <;> rw [UInt8.toNat_ofNat'] <;> omega

theorem Utf8.not_mem_spell_of_isBlank {ys : List Symbol} (hys : ∀ y ∈ ys, y.isBlank = true)
    {b : UInt8} (hb : 32 < b.toNat ∧ b.toNat < 128) : b ∉ Utf8.spell ys := by
  intro hmem
  obtain ⟨y, hy, hbytes⟩ := List.mem_flatMap.mp hmem
  have hrange := Symbol.bytes_of_isBlank (hys y hy) b hbytes
  omega

namespace Bytes

open Utf8

theorem dropWhile_ends {l m r : List Symbol} (hl : ∀ y ∈ l, y.isBlank = true)
    (hr : ∀ y ∈ r, y.isBlank = true) (hm : Symbol.Trimmed m) :
    (((l ++ m ++ r).dropWhile Symbol.isBlank).reverse.dropWhile Symbol.isBlank).reverse = m := by
  rw [List.append_assoc, List.dropWhile_append_of_pos hl]
  rcases m with _ | ⟨y, m⟩
  · rw [List.nil_append, List.dropWhile_eq_nil_iff.mpr hr]
    rfl
  · have hy : y.isBlank = false := hm.1 y rfl
    rw [List.cons_append, List.dropWhile_cons_of_neg (by simp [hy]), ← List.cons_append,
      List.reverse_append, List.dropWhile_append_of_pos (by simpa using hr)]
    have hlast := hm.2
    rw [← List.head?_reverse] at hlast
    rcases hrev : (y :: m).reverse with _ | ⟨w, ws⟩
    · simp at hrev
    · rw [hrev] at hlast
      rw [List.dropWhile_cons_of_neg (by simp [hlast w rfl]), ← hrev, List.reverse_reverse]

theorem trim_eq_spell {s : Bytes} {l m r : List Symbol} (hs : symbols s = l ++ m ++ r)
    (hl : ∀ y ∈ l, y.isBlank = true) (hr : ∀ y ∈ r, y.isBlank = true)
    (hm : Symbol.Trimmed m) : trim s = spell m := by
  rw [trim, hs, dropWhile_ends hl hr hm]

/-- Trimming cuts white space off both ends and nothing else. -/
theorem symbols_trim (s : Bytes) :
    ∃ l r, symbols s = l ++ symbols s.trim ++ r ∧ (∀ y ∈ l, y.isBlank = true) ∧
      (∀ y ∈ r, y.isBlank = true) ∧ Symbol.Trimmed (symbols s.trim) := by
  -- `l` goes in front, and `r` off the back of the rest `d`, which is read backwards
  have hfront := List.takeWhile_append_dropWhile (p := Symbol.isBlank) (l := symbols s)
  generalize hl : (symbols s).takeWhile Symbol.isBlank = l at hfront
  generalize hd : (symbols s).dropWhile Symbol.isBlank = d at hfront
  have hback := List.takeWhile_append_dropWhile (p := Symbol.isBlank) (l := d.reverse)
  generalize hr : d.reverse.takeWhile Symbol.isBlank = r at hback
  generalize hm : d.reverse.dropWhile Symbol.isBlank = m at hback
  have hd' : d = m.reverse ++ r.reverse := by
    rw [← List.reverse_append, hback, List.reverse_reverse]
  have hsym : symbols s = (l ++ m.reverse) ++ r.reverse := by
    rw [← hfront, hd', List.append_assoc]
  have htrim : symbols s.trim = m.reverse := by
    have hspell : s.trim = spell m.reverse := by rw [trim, hd, hm]
    have hfrontpart := symbols_spell_left hsym
    rw [hspell]
    exact symbols_spell_right hfrontpart
  refine ⟨l, r.reverse, by rw [htrim, hsym], ?_, ?_, ?_, ?_⟩
  · intro y hy
    rw [← hl] at hy
    exact List.mem_takeWhile_imp hy
  · intro y hy
    rw [List.mem_reverse, ← hr] at hy
    exact List.mem_takeWhile_imp hy
  · -- the first symbol left is the first of `d`, where dropping stopped
    intro y hy
    rw [htrim] at hy
    have hhead : d.head? = some y := by
      rw [hd', List.head?_append, hy]
      rfl
    rw [← hd] at hhead
    simpa [hhead] using List.head?_dropWhile_not Symbol.isBlank (symbols s)
  · intro y hy
    rw [htrim, List.getLast?_reverse, ← hm] at hy
    have hy : (List.dropWhile Symbol.isBlank d.reverse).head? = some y := hy
    simpa [hy] using List.head?_dropWhile_not Symbol.isBlank d.reverse

theorem trim_eq_self_iff {s : Bytes} : s.trim = s ↔ Symbol.Trimmed (symbols s) := by
  constructor
  · intro h
    obtain ⟨_, _, _, _, _, htrimmed⟩ := symbols_trim s
    rwa [h] at htrimmed
  · intro h
    rw [trim_eq_spell (l := []) (r := []) (m := symbols s) (by simp) (by simp) (by simp) h,
      spell_symbols]

@[simp] theorem trim_trim (s : Bytes) : s.trim.trim = s.trim := by
  obtain ⟨_, _, _, _, _, htrimmed⟩ := symbols_trim s
  exact trim_eq_self_iff.mpr htrimmed

/-- A text is its trimmed form with white space around it. -/
theorem exists_eq_trim (s : Bytes) :
    ∃ l r, s = spell l ++ s.trim ++ spell r ∧ (∀ y ∈ l, y.isBlank = true) ∧
      ∀ y ∈ r, y.isBlank = true := by
  obtain ⟨l, r, hsym, hl, hr, _⟩ := symbols_trim s
  refine ⟨l, r, ?_, hl, hr⟩
  have hspell := congrArg spell hsym
  simpa using hspell

theorem trim_infix (s : Bytes) : s.trim <:+: s := by
  obtain ⟨l, r, hs, _, _⟩ := exists_eq_trim s
  exact ⟨spell l, spell r, hs.symm⟩

/-- White space around a text does not change its trimmed form. -/
theorem trim_append_blank {s t : Bytes} {l r : List Symbol}
    (ht : symbols t = l ++ symbols s ++ r) (hl : ∀ y ∈ l, y.isBlank = true)
    (hr : ∀ y ∈ r, y.isBlank = true) : t.trim = s.trim := by
  obtain ⟨l', r', hsym, hl', hr', htrimmed⟩ := symbols_trim s
  rw [trim_eq_spell (l := l ++ l') (r := r' ++ r) (by rw [ht, hsym]; simp)
    (by simpa [or_imp, forall_and] using ⟨hl, hl'⟩)
    (by simpa [or_imp, forall_and] using ⟨hr', hr⟩) htrimmed, spell_symbols]

theorem trim_cons_blank {a : UInt8} (ha : a < 0x80)
    (hblank : Symbol.isBlank (.char (Char.ofNat a.toNat)) = true) (s : Bytes) :
    trim (a :: s) = trim s :=
  trim_append_blank (l := [.char (Char.ofNat a.toNat)]) (r := [])
    (by rw [symbols_ascii_cons ha, List.append_nil, List.singleton_append])
    (by simpa using hblank) (by simp)

end Bytes

end Cascade
