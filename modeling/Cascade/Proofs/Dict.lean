import Cascade.Dict
import Mathlib.Data.List.Nodup

/-!
# The keys of a dictionary

Inserting under a key leaves the keys as they are, or puts the new one behind them.
So a dictionary that is filled from empty has every key once, and its pairs are its
keys with what is found under them.
-/

namespace Cascade.Dict

variable {α β γ : Type}

def map (f : β → γ) (d : Dict α β) : Dict α γ := ⟨d.items.map fun p => (p.1, f p.2)⟩

theorem values_map (f : β → γ) (d : Dict α β) : (d.map f).values = d.values.map f := by
  unfold values map
  rw [List.map_map, List.map_map]
  rfl

variable [BEq α]

theorem get?_map (f : β → γ) (d : Dict α β) (k : α) : (d.map f).get? k = (d.get? k).map f := by
  unfold get? map
  rw [List.find?_map, Option.map_map, Option.map_map]
  rfl

theorem put_map (f : β → γ) (k : α) (v : β) (ps : List (α × β)) :
    put k (f v) (ps.map fun p => (p.1, f p.2)) = (put k v ps).map fun p => (p.1, f p.2) := by
  induction ps with
  | nil => rfl
  | cons p ps ih =>
      rw [List.map_cons, put, put]
      split
      · rfl
      · rw [ih, List.map_cons]

theorem insert_map (f : β → γ) (d : Dict α β) (k : α) (v : β) :
    (d.map f).insert k (f v) = (d.insert k v).map f :=
  congrArg Dict.mk (put_map f k v d.items)

variable [LawfulBEq α]

theorem map_fst_put (k : α) (v : β) (ps : List (α × β)) :
    (put k v ps).map Prod.fst =
      if k ∈ ps.map Prod.fst then ps.map Prod.fst else ps.map Prod.fst ++ [k] := by
  induction ps with
  | nil => rfl
  | cons p ps ih =>
      by_cases hk : k = p.1
      · simp [put, hk]
      · rw [put, if_neg (by simpa using hk), List.map_cons, ih]
        split <;> simp_all

theorem mem_keys_insert {d : Dict α β} {k a : α} {v : β} :
    a ∈ (d.insert k v).keys ↔ a ∈ d.keys ∨ a = k := by
  unfold keys insert
  rw [map_fst_put]
  split
  · next hk =>
      constructor
      · exact Or.inl
      · rintro (ha | rfl)
        · exact ha
        · exact hk
  · rw [List.mem_append, List.mem_singleton]

theorem nodup_keys_insert {d : Dict α β} (h : d.keys.Nodup) (k : α) (v : β) :
    (d.insert k v).keys.Nodup := by
  unfold keys insert at *
  rw [map_fst_put]
  split
  · exact h
  · next hk =>
      rw [List.nodup_append]
      refine ⟨h, List.nodup_singleton k, ?_⟩
      rintro a ha b hb rfl
      exact hk (List.mem_singleton.mp hb ▸ ha)

theorem get?_of_mem {d : Dict α β} (h : d.keys.Nodup) {p : α × β} (hp : p ∈ d.items) :
    d.get? p.1 = some p.2 := by
  obtain ⟨ps⟩ := d
  unfold keys get? at *
  induction ps with
  | nil => exact absurd hp List.not_mem_nil
  | cons q ps ih =>
      rw [List.map_cons, List.nodup_cons] at h
      rcases List.mem_cons.mp hp with rfl | hp
      · simp
      · have hne : p.1 ≠ q.1 := fun heq => h.1 (heq ▸ List.mem_map_of_mem hp)
        simpa [hne] using ih h.2 hp

theorem mem_of_get? {d : Dict α β} {k : α} {v : β} (h : d.get? k = some v) : (k, v) ∈ d.items := by
  obtain ⟨p, hp, rfl⟩ := Option.map_eq_some_iff.mp h
  have hfound := List.find?_some hp
  have hk : k = p.1 := by simpa using hfound
  rw [hk]
  exact List.mem_of_find?_eq_some hp

theorem mem_keys_iff {d : Dict α β} {k : α} : k ∈ d.keys ↔ ∃ v, d.get? k = some v := by
  constructor
  · intro hk
    obtain ⟨p, hp, rfl⟩ := List.mem_map.mp hk
    unfold get?
    cases hfind : d.items.find? fun q => p.1 == q.1 with
    | none => exact absurd (List.find?_eq_none.mp hfind p hp) (by simp)
    | some q => exact ⟨q.2, rfl⟩
  · rintro ⟨v, hv⟩
    exact List.mem_map.mpr ⟨(k, v), mem_of_get? hv, rfl⟩

/-- With every key once, the pairs are the keys with what is found under them. -/
theorem items_eq_map {d : Dict α β} (h : d.keys.Nodup) {f : α → β}
    (hf : ∀ k ∈ d.keys, d.get? k = some (f k)) : d.items = d.keys.map fun k => (k, f k) := by
  unfold keys
  rw [List.map_map]
  conv_lhs => rw [← List.map_id d.items]
  refine List.map_congr_left fun p hp => ?_
  have hvalue : some p.2 = some (f p.1) :=
    (get?_of_mem h hp).symm.trans (hf p.1 (List.mem_map_of_mem hp))
  exact Prod.ext rfl (Option.some.inj hvalue)

end Cascade.Dict
