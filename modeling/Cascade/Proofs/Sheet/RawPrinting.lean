import Cascade.Merge.Output
import Cascade.Proofs.Sheet.Spelling

/-!
# Printing without merging

With an empty table every rule is written as it stands. The scan of that text
finds the same items, nested blocks included, although the white space and the
@-rules without a block are gone.
-/

namespace Cascade

open Lexeme Scan

theorem Item.ne_blank_of_lineup {last : Item → Prop} (hlast : ¬ last .blank) {its : List Item}
    (h : Lineup Item.Closed last its) : ∀ it ∈ its, it ≠ .blank := by
  rintro it hit rfl
  rcases h.forall_mem _ hit with hclosed | hopen
  · exact hclosed
  · exact hlast hopen

theorem scan_ne_blank (s : Bytes) : ∀ it ∈ (Sheet.scan s).items, it ≠ .blank :=
  Item.ne_blank_of_lineup (by simp [Item.Trailing, Item.Unfinished]) (lineup_scan s)

namespace Output

/-- What is written depends on the items and their places only. -/
theorem pieces_eq (table : Table) (ts : List Token) :
    pieces table ts = (ts.map Token.item).zipIdx.filterMap fun p => piece? table p.2 p.1 := by
  rw [pieces, List.zipIdx_map, List.filterMap_map]
  rfl

/-- The table matters to rules only. -/
theorem piece?_of_not_rule (table : Table) (i : Nat) {it : Item} (hrule : it.rule? = none)
    (hblank : it ≠ .blank) : piece? table i it = some it.spelling := by
  cases it with
  | comment t => rfl
  | atRule header body =>
      simp only [piece?, Item.spelling, List.append_assoc, List.singleton_append]
      rfl
  | rule selector body => cases hrule
  | other t => rfl
  | blank => exact absurd rfl hblank

theorem piece?_empty {it : Item} (h : it ≠ .blank) (i : Nat) :
    piece? ∅ i it = some it.spelling := by
  cases hrule : it.rule? with
  | none => exact piece?_of_not_rule ∅ i hrule h
  | some r =>
      cases it with
      | rule selector body =>
          have hnone : Dict.get? (∅ : Table) (normalize selector) = none := rfl
          simp [piece?, hnone, Item.spelling]
      | _ => cases hrule

theorem render_empty {ts : List Token} (h : ∀ it ∈ ts.map Token.item, it ≠ .blank) :
    render ∅ ts = Bytes.join (text "\n") ((ts.map Token.item).map Item.spelling) := by
  rw [render, pieces_eq]
  congr 1
  generalize ts.map Token.item = its at h
  generalize 0 = n
  induction its generalizing n with
  | nil => rfl
  | cons it its ih =>
      have hpiece := piece?_empty (h it List.mem_cons_self) n
      have hrest := ih (fun x hx => h x (List.mem_cons_of_mem _ hx)) (n + 1)
      simp [List.zipIdx_cons, hpiece, hrest]

end Output

/-- Printing without merging is undone by the scanner. If no block is left open, the
printed text, with every rule as its selector and its braced body, has the items of
the source, and printing it once more gives the same text. -/
theorem scan_raw_printing (s : Bytes)
    (h : ∀ w ∈ (Sheet.scan s).warnings, w.problem ≠ .unbalancedBlock) :
    Output.render ∅ (Sheet.scan s).tokens =
        Bytes.join (text "\n") ((Sheet.scan s).items.map Item.spelling) ∧
      (Sheet.scan (Output.render ∅ (Sheet.scan s).tokens)).items = (Sheet.scan s).items ∧
      Output.render ∅ (Sheet.scan (Output.render ∅ (Sheet.scan s).tokens)).tokens =
        Output.render ∅ (Sheet.scan s).tokens := by
  have hraw := Output.render_empty (scan_ne_blank s)
  have hitems : (Sheet.scan (Output.render ∅ (Sheet.scan s).tokens)).items =
      (Sheet.scan s).items := by
    rw [Sheet.items_scan, hraw, Item.join_spelling, Item.items_tail_lines]
    exact (lineup_scan_of_balanced h).items_lines
  refine ⟨hraw, hitems, ?_⟩
  rw [Output.render_empty (scan_ne_blank _)]
  exact (congrArg (fun its => Bytes.join (text "\n") (its.map Item.spelling)) hitems).trans
    hraw.symm

/-- A nested block, braces hidden in comments, a dropped @-rule and an open comment. -/
theorem scan_raw_printing_nested :
    let s := text "@x /*\x7b*/;@m y \x7ba\x7bb:c\x7d/*\x7d*/\x7d p/*\x7b*/ q\x7br\x7bs:t\x7d\x7d/*z"
    (∀ w ∈ (Sheet.scan s).warnings, w.problem ≠ .unbalancedBlock) ∧
      (Sheet.scan (Output.render ∅ (Sheet.scan s).tokens)).items =
        [.atRule (text "m y") (text "a\x7bb:c\x7d/*\x7d*/"),
          .rule (text "p/*\x7b*/ q") (text "r\x7bs:t\x7d"), .comment (text "/*z")] := by
  intro s
  have h : ∀ w ∈ (Sheet.scan s).warnings, w.problem ≠ .unbalancedBlock := by decide
  exact ⟨h, (scan_raw_printing s h).2.1.trans (by decide)⟩

end Cascade
