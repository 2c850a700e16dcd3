import Cascade.Config.Decode
import Mathlib.Tactic.Common

/-!
# Numbers that are read

What every field of a document keeps, the document keeps, however its sections are merged. So the
numbers of a configuration fit in 64 bits, whatever a document says.
-/

namespace Cascade

open Yaml (Node Value)

namespace Laying

variable {α β : Type} {P : α → Prop} {Q : β → Prop}

/-- What the step gives, if it gives anything, satisfies `P`. -/
def Gives (P : α → Prop) (x : Laying α) : Prop := ∀ v a v', x.run v = .ok (a, v') → P a

theorem gives_pure {a : α} (h : P a) : Gives P (pure a) := by
  rintro v _ _ ⟨⟩
  exact h

theorem gives_misfit : Gives P misfit := nofun

theorem Gives.bind {x : Laying α} {f : α → Laying β} (hx : Gives P x)
    (hf : ∀ a, P a → Gives Q (f a)) : Gives Q (x >>= f) := by
  intro v b v' h
  rw [StateT.run_bind] at h
  cases hrun : x.run v with
  | error e =>
      rw [hrun] at h
      cases h
  | ok r =>
      rw [hrun] at h
      exact hf r.1 (hx v r.1 r.2 hrun) r.2 b v' h

theorem gives_any (x : Laying α) : Gives (fun _ => True) x := fun _ _ _ _ => trivial

/-- Whatever part is looked at. -/
theorem gives_within {read : Node → Laying α} (h : ∀ n, Gives P (read n)) (n : Node) :
    Gives P (within n read) := by
  refine (gives_any visit).bind fun _ _ => ?_
  split
  · exact gives_misfit
  · refine (gives_any _).bind fun _ _ => (gives_any visit).bind fun _ _ => ?_
    exact (h _).bind fun a ha => (gives_any _).bind fun _ _ => gives_pure ha
  · exact h _

theorem gives_scalar {old : α} {read : Value → Bytes → Laying α} (hold : P old)
    (hread : ∀ v s, Gives P (read v s)) (n : Node) : Gives P (scalar old read n) := by
  refine gives_within (fun n => ?_) n
  split
  · split
    · exact gives_misfit
    · exact gives_pure hold
    · exact hread _ _
  · exact gives_misfit

section Sections

variable {field : α → Bytes → Node → Laying α}
  (hfield : ∀ a key node, P a → Gives P (field a key node))

include hfield

theorem gives_entry {s : Section α} (hs : P s.value) (p : Node × Node) :
    Gives (fun s => P s.value) (entry field s p) := by
  unfold entry
  split_ifs
  · exact gives_pure hs
  · refine (gives_any _).bind fun name _ => ?_
    cases name with
    | none => exact gives_pure hs
    | some name =>
        cases s.settled with
        | none =>
            dsimp only
            split_ifs
            · exact gives_misfit
            · exact (hfield _ _ _ hs).bind fun a ha => gives_pure ha
        | some names =>
            dsimp only
            split_ifs
            · exact gives_pure hs
            · exact (hfield _ _ _ hs).bind fun a ha => gives_pure ha

theorem gives_foldlM {s : Section α} (hs : P s.value) (es : List (Node × Node)) :
    Gives (fun s => P s.value) (es.foldlM (entry field) s) := by
  induction es generalizing s with
  | nil => exact gives_pure hs
  | cons p es ih => exact (gives_entry hfield hs p).bind fun s' hs' => ih hs'

/-- Mappings that are merged need one step less than those they are merged into. -/
theorem gives_entries (fuel : Nat) :
    (∀ settled a es, P a → Gives (fun r => P r.1) (entries field fuel settled a es)) ∧
      ∀ settled a ns, P a → Gives (fun r => P r.1) (merge field fuel settled a ns) := by
  induction fuel with
  | zero => exact ⟨fun _ _ _ _ => gives_misfit, fun _ _ _ _ => gives_misfit⟩
  | succ fuel ih =>
      obtain ⟨hentries, hmerge⟩ := ih
      constructor
      · intro settled a es ha
        unfold entries
        split_ifs
        · exact gives_misfit
        · refine (gives_foldlM hfield (s := ⟨a, [], settled⟩) ha es).bind fun s hs => ?_
          split
          · exact gives_pure hs
          · split
            · exact gives_misfit
            · split
              · exact (gives_any _).bind fun names _ =>
                  (hmerge names _ _ hs).bind fun r hr => gives_pure hr
              · exact (gives_any _).bind fun names _ =>
                  (hmerge names _ _ hs).bind fun r hr => gives_pure hr
      · intro settled a ns ha
        cases ns with
        | nil => exact gives_pure ha
        | cons n ns =>
            unfold merge
            refine (gives_within (P := fun r => P r.1) (fun n => ?_) n).bind fun r hr => ?_
            · split
              · exact hentries _ _ _ ha
              · exact gives_misfit
            · exact hmerge _ _ _ hr

/-- A section keeps what all its fields keep. -/
theorem gives_overlay (fuel : Nat) {a : α} (ha : P a) (n : Node) :
    Gives P (overlay fuel field a n) := by
  refine gives_within (fun n => ?_) n
  split
  · exact ((gives_entries hfield fuel).1 none _ _ ha).bind fun r hr => gives_pure hr
  · split
    · exact gives_pure ha
    · exact gives_misfit
  · exact gives_misfit

end Sections

/-- No number is too large. -/
theorem gives_int {old : Int} (hold : old < bound) (n : Node) : Gives (· < bound) (int old n) := by
  refine gives_scalar (P := (· < bound)) hold (fun v _ => ?_) n
  split
  · next n =>
      split_ifs with hn
      · exact gives_pure hn
      · exact gives_misfit
  · next n =>
      unfold whole
      split_ifs with hlarge hsmall
      · exact gives_misfit
      · exact gives_pure (by decide)
      · refine gives_pure ?_
        simp at hsmall
        omega
  · exact gives_pure (by decide)
  · exact gives_misfit

end Laying

namespace Config

open Laying (Gives gives_any gives_pure gives_misfit gives_int gives_overlay)

def Bounded (c : Config) : Prop := c.top < Laying.bound

theorem gives_inputField (c : Config) (key : Bytes) (node : Node) (hc : c.Bounded) :
    Gives Bounded (inputField c key node) := by
  unfold inputField
  split_ifs
  · exact (gives_any _).bind fun _ _ => gives_pure hc
  · exact gives_misfit

theorem gives_analysisField (c : Config) (key : Bytes) (node : Node) (hc : c.Bounded) :
    Gives Bounded (analysisField c key node) := by
  unfold analysisField
  split_ifs
  · exact (gives_int hc node).bind fun _ htop => gives_pure htop
  · exact gives_misfit

theorem gives_dedupeField (c : Config) (key : Bytes) (node : Node) (hc : c.Bounded) :
    Gives Bounded (dedupeField c key node) := by
  unfold dedupeField
  split_ifs
  · exact (gives_any _).bind fun _ _ => gives_pure hc
  · exact gives_misfit

theorem gives_loggingField (fuel : Nat) (c : Config) (key : Bytes) (node : Node) (hc : c.Bounded) :
    Gives Bounded (loggingField fuel c key node) := by
  unfold loggingField
  split_ifs
  · exact (gives_any _).bind fun _ _ => gives_pure hc
  · exact (gives_any _).bind fun _ _ => gives_pure hc
  · exact gives_misfit

theorem gives_reportingField (c : Config) (key : Bytes) (node : Node) (hc : c.Bounded) :
    Gives Bounded (reportingField c key node) := by
  unfold reportingField
  split_ifs
  · exact (gives_any _).bind fun _ _ => gives_pure hc
  · exact gives_misfit

theorem gives_field (fuel : Nat) (c : Config) (key : Bytes) (node : Node) (hc : c.Bounded) :
    Gives Bounded (field fuel c key node) := by
  unfold field
  split_ifs
  · exact (gives_any _).bind fun _ _ => gives_pure hc
  · exact gives_overlay gives_inputField fuel hc node
  · exact gives_overlay gives_analysisField fuel hc node
  · exact gives_overlay gives_dedupeField fuel hc node
  · exact gives_overlay (gives_loggingField fuel) fuel hc node
  · exact gives_overlay gives_reportingField fuel hc node
  · exact gives_misfit

/-- A document sets the number to one that fits, if it sets it at all. -/
theorem bounded_decode {old c : Config} {data : Bytes} (hold : old.Bounded)
    (h : old.decode data = .ok c) : c.Bounded := by
  unfold decode at h
  cases hparse : Node.parse data with
  | error e =>
      rw [hparse] at h
      cases h
  | ok n =>
      rw [hparse] at h
      have hgives := gives_overlay (gives_field (data.length + 2)) (data.length + 2) hold n
      let laid := (Laying.overlay (data.length + 2) (field (data.length + 2)) old n).run ⟨1, 0, 0⟩
      change laid.map Prod.fst = _ at h
      cases hrun : laid with
      | error e =>
          rw [hrun] at h
          cases h
      | ok r =>
          rw [hrun] at h
          cases h
          exact hgives _ _ _ hrun

end Config

end Cascade
