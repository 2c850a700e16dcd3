import Cascade.Proofs.Sheet.Comments

/-!
# The declarations that bodies have

What is read off a body is clean, and every list of clean declarations is read off some body.
Writing the declarations one a line gives such a body, unless the lines have a complete comment,
which is taken out before anything is read. The layout has no slash, so such a comment opens in a
property or in a value. A body for these declarations too is made of the same lines, with an empty
comment behind each slash: the slash opens nothing then, and the lines are what is left.
-/

namespace Cascade

open Lexeme

/-! ## Texts that are left by taking comments out -/

/-- The bytes of a text as code, with an empty comment behind each slash. -/
def Lexeme.guarded : Bytes → List Lexeme
  | [] => []
  | b :: s =>
    if b = slash then .code b :: .comment [slash, star, star, slash] true :: guarded s
    else .code b :: guarded s

theorem Lexeme.lexed_guarded (s : Bytes) : Lexed (guarded s) := by
  induction s with
  | nil => exact .nil
  | cons b s ih =>
      rw [guarded]
      split
      · -- the first byte behind the slash is the one that opens the empty comment
        refine .code (fun _ => ?_) (.comment rfl ih)
        simp [bytes, slash, star]
      · next hb => exact .code (fun hslash => absurd hslash hb) ih

theorem Lexeme.flatMap_stripped_guarded (s : Bytes) : (guarded s).flatMap stripped = s := by
  induction s with
  | nil => rfl
  | cons b s ih =>
      rw [guarded]
      split <;> simp [stripped, ih]

/-- Every text is what is left of some text, with its own openers and closers in it. -/
theorem stripComments_guarded (s : Bytes) : stripComments (source (guarded s)) = s := by
  rw [stripComments, (lexed_guarded s).ofBytes_source, flatMap_stripped_guarded]

namespace Declaration

/-! ## Bodies for clean declarations -/

instance (d : Declaration) : Decidable d.Clean :=
  decidable_of_iff (d.property.trim = d.property ∧ d.value.trim = d.value ∧ colon ∉ d.property ∧
      semicolon ∉ d.property ∧ semicolon ∉ d.value)
    ⟨fun ⟨hp, hv, hcolon, hps, hvs⟩ => ⟨hp, hv, hcolon, hps, hvs⟩,
      fun ⟨hp, hv, hcolon, hps, hvs⟩ => ⟨hp, hv, hcolon, hps, hvs⟩⟩

def Plain (d : Declaration) : Prop :=
  ¬ [slash, star] <:+: d.property ∧ ¬ [slash, star] <:+: d.value

instance (d : Declaration) : Decidable d.Plain :=
  inferInstanceAs (Decidable (_ ∧ _))

theorem parse_of_stripComments {ds : List Declaration} (hds : ∀ d ∈ ds, d.Clean) {body : Bytes}
    (hbody : stripComments body = format ds) : parse body = ds := by
  rw [← List.append_nil (format ds)] at hbody
  exact parse_of_stripComments_append hds List.not_mem_nil List.not_mem_nil hbody

/-- Lines of clean declarations are read back if and only if no complete comment is in them. -/
theorem parse_format_eq_iff {ds : List Declaration} (hds : ∀ d ∈ ds, d.Clean) :
    parse (format ds) = ds ↔ ¬ HasComment (format ds) := by
  rw [← not_uncommented_iff, not_not]
  constructor
  · -- a comment that is taken out takes a slash along, which was one of a declaration
    intro h
    refine uncommented_of_count (le_antisymm ((stripComments_sublist _).count_le slash) ?_)
    have hback := (parse_spec (format ds)).2.count_le slash
    rwa [h, ← count_format (by decide)] at hback
  · intro h
    exact parse_of_stripComments hds (stripComments_eq_self_iff.mpr h)

/-- A comment can run from one value to the next and take the lines between along. -/
example : parse (format [⟨text "a", text "/*"⟩, ⟨text "b", text "*/"⟩]) = [⟨text "a", []⟩] := by
  decide

theorem not_hasComment_format {ds : List Declaration} (hds : ∀ d ∈ ds, d.Plain) :
    ¬ HasComment (format ds) := by
  have hcode : ofBytes (format ds) = (format ds).map .code := by
    refine ofBytes_format fun d hd => ?_
    obtain ⟨hp, hv⟩ := hds d hd
    exact ⟨ofBytes_eq_map_code hp, ofBytes_eq_map_code hv⟩
  rw [← not_uncommented_iff, not_not]
  exact uncommented_of_code hcode

/-- Reading undoes formatting, and clean declarations are all that is ever read. What a body
declares is clean, and any list of clean declarations, with repeated and with empty parts, is what
some body declares. Formatting gives such a body if and only if no complete comment comes together
in the lines, and none does if no part of a declaration opens a comment. -/
theorem parse_format_on_image :
    (∀ body, ∀ d ∈ parse body, d.Clean) ∧
    ∀ ds : List Declaration, (∀ d ∈ ds, d.Clean) →
      (∃ body, parse body = ds) ∧
      (parse (format ds) = ds ↔ ¬ HasComment (format ds)) ∧
      ((∀ d ∈ ds, d.Plain) → parse (format ds) = ds) := by
  refine ⟨fun body d hd => clean_of_mem_parse hd, fun ds hds => ⟨?_, ?_, ?_⟩⟩
  · exact ⟨_, parse_of_stripComments hds (stripComments_guarded (format ds))⟩
  · exact parse_format_eq_iff hds
  · intro hplain
    exact (parse_format_eq_iff hds).mpr (not_hasComment_format hplain)

/-- Nothing at all, a slash and a star that only the layout keeps apart, two bytes that would be
white space side by side, and a property given twice with values that start with a colon, end with
a slash and close a comment. -/
theorem parse_format_on_image_edges :
    let ds : List Declaration := [⟨[], []⟩, ⟨text "/", text "*"⟩, ⟨[0xC2], [0xA0]⟩,
      ⟨text "a", text ":b/"⟩, ⟨text "a", text "*/"⟩]
    (∀ d ∈ ds, d.Clean) ∧ (∀ d ∈ ds, d.Plain) ∧
    format ds = text "\n  : ;\n  /: *;\n  " ++ [0xC2] ++ text ": " ++ [0xA0] ++
      text ";\n  a: :b/;\n  a: */;\n" ∧
    parse (format ds) = ds := by
  intro ds
  have hclean : ∀ d ∈ ds, d.Clean := by decide
  have hplain : ∀ d ∈ ds, d.Plain := by decide
  exact ⟨hclean, hplain, by decide, (parse_format_on_image.2 ds hclean).2.2 hplain⟩

end Declaration

end Cascade
