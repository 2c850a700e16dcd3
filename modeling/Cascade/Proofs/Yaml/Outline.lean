import Cascade.Yaml.Node
import Cascade.Proofs.Yaml.Lines

/-!
# Outlines

A document whose parts are mappings, down to scalars. Its lines are indented by their depth, and
reading them gives the mappings back.
-/

namespace Cascade.Yaml

/-- A scalar: what its tag is called, if it has one, and how it reads. -/
structure Leaf where
  tag : Option Bytes
  style : Style
  text : Bytes

namespace Leaf

def tokens (l : Leaf) : List Token :=
  l.tag.toList.map (.tag (Cascade.text "!!")) ++ [.scalar l.style l.text]

def node (l : Leaf) : Node := .ofScalar ((l.tag.map (Tag.space ++ ·)).getD []) l.style l.text

end Leaf

inductive Outline where
  | nil
  /-- A key, its value as it is written, and how that reads. -/
  | value (key text : List Char) (leaf : Leaf) (rest : Outline)
  | part (key : List Char) (inner rest : Outline)

namespace Outline

open Yaml.Scan (around ends enter opening isRight)

def keyNode (key : List Char) : Node := .ofScalar [] .plain (Utf8.ofChars key)

def lines (step : Nat) : (column : Nat) → Outline → List Line
  | _, nil => []
  | column, value key text leaf rest =>
    ⟨column, key, some (text, leaf.tokens)⟩ :: rest.lines step column
  | column, part key inner rest =>
    ⟨column, key, none⟩ :: (inner.lines step (column + step) ++ rest.lines step column)

def tokens : Outline → List Token
  | nil => []
  | value key _ leaf rest =>
    .key :: .scalar .plain (Utf8.ofChars key) :: .value :: (leaf.tokens ++ rest.tokens)
  | part key inner rest =>
    .key :: .scalar .plain (Utf8.ofChars key) :: .value :: .blockMapping ::
      (inner.tokens ++ .blockEnd :: rest.tokens)

def entries : Outline → List (Node × Node)
  | nil => []
  | value key _ leaf rest => (keyNode key, leaf.node) :: rest.entries
  | part key inner rest => (keyNode key, .mapping inner.entries) :: rest.entries

def Sound (step : Nat) : (column : Nat) → Outline → Prop
  | _, nil => True
  | column, value key text leaf rest =>
    Line.Sound ⟨column, key, some (text, leaf.tokens)⟩ ∧ rest.Sound step column
  | column, part key inner rest =>
    Line.Sound ⟨column, key, none⟩ ∧ inner ≠ nil ∧ inner.Sound step (column + step) ∧
      rest.Sound step column

variable {step column : Nat} {columns : List Nat} {ls : List Line}

/-- Lines of an outline before other lines that are no further to the right. -/
theorem allSound_lines {o : Outline} (ho : o.Sound step column) (hls : Line.AllSound ls)
    (hfirst : (Line.first ls).1 ≤ column) :
    Line.AllSound (o.lines step column ++ ls) ∧
      (Line.first (o.lines step column ++ ls)).1 ≤ column := by
  induction o generalizing column ls with
  | nil => exact ⟨hls, hfirst⟩
  | value key text leaf rest ih =>
      obtain ⟨hline, hrest⟩ := ho
      obtain ⟨hsound, hle⟩ := ih hrest hls hfirst
      exact ⟨⟨hline, fun _ => hle, hsound⟩, Nat.le_refl _⟩
  | part key inner rest ihinner ihrest =>
      obtain ⟨hline, -, hinner, hrest⟩ := ho
      obtain ⟨hsound, hle⟩ := ihrest hrest hls hfirst
      obtain ⟨hsound, -⟩ := ihinner hinner hsound (hle.trans (Nat.le_add_right _ _))
      rw [lines, List.cons_append, List.append_assoc]
      exact ⟨⟨hline, nofun, hsound⟩, Nat.le_refl _⟩

/-! ## Tokens of an outline -/

section Columns

/-- A line inside the innermost mapping, or further to the right, ends none. -/
theorem ends_eq_nil {c : Nat} (hc : columns.head? = some c) (hle : c ≤ column) :
    around column columns = columns ∧ ends column columns = [] := by
  obtain ⟨rest, rfl⟩ := List.head?_eq_some_iff.mp hc
  have hnot : ¬ isRight column c = true := by
    rw [isRight, decide_eq_true_eq]
    omega
  exact ⟨List.dropWhile_cons_of_neg hnot, by rw [ends, List.takeWhile_cons_of_neg hnot]; rfl⟩

/-- A line in the column of the innermost mapping is an entry of it. -/
theorem allTokens_entry {l : Line} (hc : columns.head? = some l.column) :
    Line.allTokens columns (l :: ls) = l.tokens ++ Line.allTokens columns ls := by
  obtain ⟨haround, hends⟩ := ends_eq_nil hc (Nat.le_refl _)
  rw [Line.allTokens, haround, hends, opening, if_pos hc, enter, if_pos hc]
  rfl

/-- A line further to the right starts a mapping. -/
theorem allTokens_enter {l : Line} (hc : ∀ c ∈ columns.head?, c < l.column) :
    Line.allTokens columns (l :: ls) =
      .blockMapping :: Line.allTokens (l.column :: columns) (l :: ls) := by
  have hnew : ¬ columns.head? = some l.column := fun h => Nat.lt_irrefl _ (hc _ h)
  have hkeep : around l.column columns = columns ∧ ends l.column columns = [] := by
    cases hhead : columns.head? with
    | none =>
        obtain rfl := List.head?_eq_none_iff.mp hhead
        exact ⟨rfl, rfl⟩
    | some c => exact ends_eq_nil hhead (hc c hhead).le
  have hentry : Line.allTokens (l.column :: columns) (l :: ls) = _ := allTokens_entry rfl
  rw [hentry, Line.allTokens, hkeep.1, hkeep.2, opening, if_neg hnew, enter, if_neg hnew]
  rfl

/-- A line further to the left ends a mapping. -/
theorem allTokens_leave (hfirst : (Line.first ls).1 < column) :
    Line.allTokens (column :: columns) ls = .blockEnd :: Line.allTokens columns ls := by
  cases ls with
  | nil => rfl
  | cons l ls =>
      have hright : isRight l.column column = true := decide_eq_true (Int.ofNat_lt.mpr hfirst)
      have haround : around l.column (column :: columns) = around l.column columns :=
        List.dropWhile_cons_of_pos hright
      have hends : ends l.column (column :: columns) = .blockEnd :: ends l.column columns := by
        rw [ends, List.takeWhile_cons_of_pos hright]
        rfl
      rw [Line.allTokens, haround, hends]
      rfl

end Columns

theorem exists_lines_eq_cons {o : Outline} (ho : o ≠ nil) (step column : Nat) :
    ∃ l ls, o.lines step column = l :: ls ∧ l.column = column := by
  cases o with
  | nil => exact absurd rfl ho
  | value key text leaf rest => exact ⟨_, _, rfl, rfl⟩
  | part key inner rest => exact ⟨_, _, rfl, rfl⟩

/-- The lines of an outline give its tokens, and then those of the lines behind it. -/
theorem allTokens_lines {o : Outline} (hstep : 0 < step) (ho : o.Sound step column)
    (hls : Line.AllSound ls) (hfirst : (Line.first ls).1 ≤ column)
    (hc : columns.head? = some column) :
    Line.allTokens columns (o.lines step column ++ ls) =
      o.tokens ++ Line.allTokens columns ls := by
  induction o generalizing column columns ls with
  | nil => rfl
  | value key text leaf rest ih =>
      obtain ⟨-, hrest⟩ := ho
      rw [lines, List.cons_append, allTokens_entry hc, ih hrest hls hfirst hc]
      simp only [tokens, Line.tokens, Option.elim_some, List.cons_append, List.append_assoc]
  | part key inner rest ihinner ihrest =>
      obtain ⟨-, hne, hinner, hrest⟩ := ho
      obtain ⟨hsound, hle⟩ := allSound_lines hrest hls hfirst
      -- the inner lines open a mapping of their own, and the line behind them closes it
      have hdeeper : (Line.first (rest.lines step column ++ ls)).1 < column + step := by omega
      obtain ⟨l, ls', hlines, hcolumn⟩ := exists_lines_eq_cons hne step (column + step)
      have henter : Line.allTokens columns
          (inner.lines step (column + step) ++ (rest.lines step column ++ ls)) =
            .blockMapping :: Line.allTokens ((column + step) :: columns)
              (inner.lines step (column + step) ++ (rest.lines step column ++ ls)) := by
        rw [hlines, List.cons_append, ← hcolumn]
        refine allTokens_enter fun c hmem => ?_
        obtain rfl := Option.some.inj (hc.symm.trans hmem)
        omega
      rw [lines, List.cons_append, allTokens_entry hc, List.append_assoc, henter,
        ihinner hinner hsound hdeeper.le rfl, allTokens_leave hdeeper, ihrest hrest hls hfirst hc]
      simp only [tokens, Line.tokens, Option.elim_none, List.cons_append, List.append_assoc,
        List.nil_append]

/-- A document with one mapping. -/
theorem allTokens_document {o : Outline} (hstep : 0 < step) (ho : o.Sound step 0) (hne : o ≠ nil) :
    Line.allTokens [] (o.lines step 0) = .blockMapping :: (o.tokens ++ [.blockEnd, .streamEnd]) := by
  obtain ⟨l, ls, hlines, hcolumn⟩ := exists_lines_eq_cons hne step 0
  have htokens : Line.allTokens [0] (o.lines step 0 ++ []) = _ :=
    allTokens_lines hstep ho trivial (Nat.le_refl 0) rfl
  have henter : Line.allTokens [] (l :: ls) = _ := allTokens_enter nofun
  rw [List.append_nil, hlines] at htokens
  rw [hlines, henter, hcolumn, htokens]
  rfl

end Outline

end Cascade.Yaml
