/-!
# Dictionaries in insertion order

A key keeps the place of its first insertion; inserting it again replaces the
value.
-/

namespace Cascade

/-- Keys with values, in the order of their first insertion. -/
structure Dict (α β : Type) where
  items : List (α × β)
deriving DecidableEq

namespace Dict

variable {α β : Type} [BEq α]

def empty : Dict α β := ⟨[]⟩

instance : EmptyCollection (Dict α β) := ⟨empty⟩

instance : Inhabited (Dict α β) := ⟨empty⟩

def get? (d : Dict α β) (k : α) : Option β :=
  (d.items.find? fun p => k == p.1).map Prod.snd

def contains (d : Dict α β) (k : α) : Bool := (d.get? k).isSome

/-- Puts a pair at the place of its key, or at the end. -/
def put (k : α) (v : β) : List (α × β) → List (α × β)
  | [] => [(k, v)]
  | p :: ps => if k == p.1 then (k, v) :: ps else p :: put k v ps

def insert (d : Dict α β) (k : α) (v : β) : Dict α β := ⟨put k v d.items⟩

def erase (d : Dict α β) (k : α) : Dict α β := ⟨d.items.filter fun p => !(k == p.1)⟩

/-- Applies `f` to the value of `k`, if it has one. -/
def modify (d : Dict α β) (k : α) (f : β → β) : Dict α β :=
  ⟨d.items.map fun p => if k == p.1 then (p.1, f p.2) else p⟩

def keys (d : Dict α β) : List α := d.items.map Prod.fst

def values (d : Dict α β) : List β := d.items.map Prod.snd

def size (d : Dict α β) : Nat := d.items.length

def sorted (d : Dict α β) (le : α → α → Bool) : List (α × β) :=
  d.items.mergeSort fun p q => le p.1 q.1

variable [LawfulBEq α]

theorem find?_put_self (k : α) (v : β) (ps : List (α × β)) :
    (put k v ps).find? (fun p => k == p.1) = some (k, v) := by
  induction ps with
  | nil => simp [put]
  | cons p ps ih => by_cases h : k = p.1 <;> simp [put, h, ih]

theorem find?_put_of_ne {k k' : α} (v : β) (ps : List (α × β)) (h : k' ≠ k) :
    (put k v ps).find? (fun p => k' == p.1) = ps.find? (fun p => k' == p.1) := by
  induction ps with
  | nil => simp [put, h]
  | cons p ps ih =>
    by_cases hk : k = p.1
    · subst hk
      simp [put, h]
    · simp [put, hk, List.find?_cons, ih]

@[simp] theorem get?_insert_self (d : Dict α β) (k : α) (v : β) :
    (d.insert k v).get? k = some v := by
  simp [get?, insert, find?_put_self]

theorem get?_insert_of_ne (d : Dict α β) {k k' : α} (v : β) (h : k' ≠ k) :
    (d.insert k v).get? k' = d.get? k' := by
  simp [get?, insert, find?_put_of_ne v d.items h]

end Dict

end Cascade
