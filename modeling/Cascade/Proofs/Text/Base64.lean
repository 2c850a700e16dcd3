import Cascade.Text.Base64

/-!
# Letters read back

Bytes that are written as letters read back as the same bytes, also if the letters stand in lines.
-/

namespace Cascade.Base64

theorem value?_letter {n : Nat} (h : n < 64) : value? (letter n) = some n := by
  have hall : ∀ m : Fin 64, value? (letter m.val) = some m.val := by decide
  exact hall ⟨n, h⟩

theorem letter_ne_filler {n : Nat} (h : n < 64) : (letter n == filler) = false := by
  have hall : ∀ m : Fin 64, (letter m.val == filler) = false := by decide
  exact hall ⟨n, h⟩

/-- What holds of every letter and of the filler holds of all that is written. -/
theorem forall_mem_encode {p : UInt8 → Bool} (h : ∀ n : Fin 64, p (letter n.val) = true)
    (hfiller : p filler = true) {s : Bytes} : ∀ x ∈ encode s, p x = true := by
  have hletter : ∀ {n : Nat}, n < 64 → p (letter n) = true := fun {n} hn => h ⟨n, hn⟩
  fun_induction encode s with
  | case1 a b c s n ih =>
      have ha := a.toNat_lt
      have hb := b.toNat_lt
      have hc := c.toNat_lt
      simp only [List.forall_mem_cons]
      exact ⟨hletter (by omega), hletter (by omega), hletter (by omega), hletter (by omega), ih⟩
  | case2 a b n =>
      have ha := a.toNat_lt
      have hb := b.toNat_lt
      simp only [List.forall_mem_cons]
      exact ⟨hletter (by omega), hletter (by omega), hletter (by omega), hfiller, nofun⟩
  | case3 a =>
      have ha := a.toNat_lt
      simp only [List.forall_mem_cons]
      exact ⟨hletter (by omega), hletter (by omega), hfiller, hfiller, nofun⟩
  | case4 => exact nofun

theorem toUInt8_eq {n : Nat} {a : UInt8} (h : n = a.toNat) : n.toUInt8 = a := by
  rw [h]
  exact UInt8.ofNat_toNat

/-- Four letters of which the last is no filler are three bytes. -/
theorem whole_letters (a b c : UInt8) :
    let n := a.toNat * 65536 + b.toNat * 256 + c.toNat
    groups.whole (letter (n / 262144)) (letter (n / 4096 % 64)) (letter (n / 64 % 64))
      (letter (n % 64)) = some [a, b, c] := by
  intro n
  have ha := a.toNat_lt
  have hb := b.toNat_lt
  have hc := c.toNat_lt
  have hn : n / 262144 * 262144 + n / 4096 % 64 * 4096 + n / 64 % 64 * 64 + n % 64 = n := by omega
  rw [groups.whole, value?_letter (by omega), value?_letter (by omega), value?_letter (by omega),
    value?_letter (by omega)]
  show some [(_ / 65536).toUInt8, (_ / 256 % 256).toUInt8, (_ % 256).toUInt8] = _
  rw [hn, toUInt8_eq (a := a) (by omega), toUInt8_eq (a := b) (by omega),
    toUInt8_eq (a := c) (by omega)]

theorem groups_cons {p q r t : UInt8} {s : Bytes} (ht : (t == filler) = false) {x y : Bytes}
    (hx : groups.whole p q r t = some x) (hy : groups s = some y) :
    groups (p :: q :: r :: t :: s) = some (x ++ y) := by
  cases s with
  | nil =>
      obtain rfl := Option.some.inj hy
      rw [groups, ht, if_neg Bool.false_ne_true, hx, List.append_nil]
  | cons u s =>
      rw [groups, hx, hy]
      · rfl
      · simp

theorem groups_encode (s : Bytes) : groups (encode s) = some s := by
  fun_induction encode s with
  | case1 a b c s n ih =>
      have ha := a.toNat_lt
      exact groups_cons (letter_ne_filler (by omega)) (whole_letters a b c) ih
  | case2 a b n =>
      have ha := a.toNat_lt
      have hb := b.toNat_lt
      have hn : n / 1024 * 4096 + n / 16 % 64 * 64 + n % 16 * 4 = n * 4 := by omega
      rw [groups, letter_ne_filler (by omega), value?_letter (by omega), value?_letter (by omega),
        value?_letter (by omega)]
      show some [(_ / 1024).toUInt8, (_ / 4 % 256).toUInt8] = _
      rw [hn, toUInt8_eq (a := a) (by omega), toUInt8_eq (a := b) (by omega)]
  | case3 a =>
      have ha := a.toNat_lt
      rw [groups, value?_letter (by omega), value?_letter (by omega)]
      show some [(_ / 16).toUInt8] = _
      rw [toUInt8_eq (a := a) (by omega)]
  | case4 => rfl

/-- Letters in lines spell what they spell without. -/
theorem decode?_of_filter {s t : Bytes} (ht : t.filter (· != 0x0A) = encode s) :
    decode? t = some s := by
  have hreturn : ∀ x ∈ encode s, (x != 0x0D) = true :=
    forall_mem_encode (p := fun x => x != 0x0D) (by decide) (by decide)
  have hfilter : t.filter (fun b => b != 0x0A && b != 0x0D) = encode s := by
    rw [← List.filter_eq_self.mpr hreturn, ← ht, List.filter_filter]
    exact List.filter_congr fun x _ => Bool.and_comm _ _
  rw [decode?, hfilter, groups_encode]

end Cascade.Base64
