import Cascade.Proofs.Merge.Counting

/-!
# How far the text before the first block reaches

The first item of a text stands before its first block, and tidying keeps the
lead of an item as it is. So a tidied text cannot begin with something that was in
front of the text it was made from: its first block would start too late.
-/

namespace Cascade

open Lexeme Scan

/-! ## The text before the first block -/

def Lexeme.reach (ls : List Lexeme) : Nat := extent (before (· == openBrace) ls).1

theorem Lexeme.reach_append {pre : List Lexeme}
    (hpre : ∀ l ∈ pre, l.isCode (· == openBrace) = false) (rest : List Lexeme) :
    reach (pre ++ rest) = extent pre + reach rest := by
  have hspan : (before (· == openBrace) (pre ++ rest)).1 =
      pre ++ (before (· == openBrace) rest).1 := by
    rw [before_eq, before_eq]
    exact List.takeWhile_append_of_pos fun l hl => by simp [hpre l hl]
  rw [reach, hspan, reach, extent, extent, extent, source_append, List.length_append]

theorem Lexeme.reach_open {pre : List Lexeme}
    (hpre : ∀ l ∈ pre, l.isCode (· == openBrace) = false) (rest : List Lexeme) :
    reach (pre ++ .code openBrace :: rest) = extent pre := by
  rw [reach, before_append hpre (by decide)]

theorem Lexeme.reach_le (ls : List Lexeme) : reach ls ≤ extent ls := by
  have hsub : ((before (· == openBrace) ls).1).Sublist ls := by
    rw [before_eq]
    exact List.takeWhile_sublist _
  exact (hsub.flatMap bytes).length_le

def Item.lead : Item → Bytes
  | .atRule header _ => 0x40 :: header
  | .rule selector _ => selector
  | .other t => t
  | _ => []

theorem lead_atRule_le {pre : List Lexeme} (hpre : ∀ l ∈ pre, l.isCode endsPrelude = false)
    (body : Bytes) (rest : List Lexeme) :
    (Item.atRule (source pre).trim body).lead.length ≤
      reach (.code 0x40 :: (pre ++ .code openBrace :: rest)) := by
  rw [← List.cons_append, reach_open (isCode_at hpre)]
  simpa [Item.lead, extent, bytes] using (Bytes.trim_infix (source pre)).length_le

theorem lead_rule_le {pre : List Lexeme} (hpre : ∀ l ∈ pre, l.isCode (· == openBrace) = false)
    (body : Bytes) (rest : List Lexeme) :
    (Item.rule (source pre).trim body).lead.length ≤ reach (pre ++ .code openBrace :: rest) := by
  rw [reach_open hpre]
  exact (Bytes.trim_infix (source pre)).length_le

/-- A lap takes an item whose lead stands before the first block, or nothing with a block. -/
theorem lead_lap {o : Nat} {taken rest : List Lexeme} {es : List Event}
    (h : Lap o taken rest es) :
    (itemsOf es = [] ∧ ∀ l ∈ taken, l.isCode (· == openBrace) = false) ∨
      ∃ it, itemsOf es = [it] ∧ it.lead.length ≤ reach (taken ++ rest) := by
  cases h with
  | @blank y _ hy _ =>
      refine Or.inl ⟨rfl, fun l hl => ?_⟩
      obtain ⟨b, hb, rfl⟩ := List.mem_map.mp hl
      have hrange := Symbol.bytes_of_isBlank hy b hb
      simp only [isCode, beq_eq_false_iff_ne]
      rintro rfl
      revert hrange
      decide
  | comment => exact Or.inr ⟨_, rfl, Nat.zero_le _⟩
  | openComment => exact Or.inr ⟨_, rfl, Nat.zero_le _⟩
  | @dropped pre _ hpre =>
      refine Or.inl ⟨rfl, fun l hl => ?_⟩
      rw [← List.cons_append] at hl
      rcases List.mem_append.mp hl with hl | hl
      · exact isCode_at hpre l hl
      · rw [List.mem_singleton.mp hl]
        rfl
  | openDropped hpre => exact Or.inl ⟨rfl, isCode_at hpre⟩
  | atRule hpre _ =>
      refine Or.inr ⟨_, rfl, ?_⟩
      rw [List.cons_append, List.append_assoc, List.cons_append]
      exact lead_atRule_le hpre _ _
  | openAtRule hpre _ =>
      refine Or.inr ⟨_, rfl, ?_⟩
      rw [List.cons_append, List.append_assoc, List.cons_append]
      exact lead_atRule_le hpre _ _
  | rule _ hpre _ =>
      refine Or.inr ⟨_, rfl, ?_⟩
      rw [List.append_assoc, List.cons_append]
      exact lead_rule_le hpre _ _
  | openRule _ hpre _ =>
      refine Or.inr ⟨_, rfl, ?_⟩
      rw [List.append_assoc, List.cons_append]
      exact lead_rule_le hpre _ _
  | other _ hpre =>
      refine Or.inr ⟨_, rfl, ?_⟩
      rw [reach_append hpre]
      exact Nat.le_add_right _ _

/-- The first item found stands before the first block, with its lead whole. -/
theorem lead_le_reach {s : Bytes} {it : Item} {its : List Item}
    (h : items (ofBytes s) = it :: its) : it.lead.length ≤ reach (ofBytes s) := by
  have hall := items_induction
    (motive := fun ls its => ∀ it ∈ its.head?, it.lead.length ≤ reach ls) (by simp)
    (fun taken rest es _ hlap ih it hit => by
      rcases lead_lap hlap with ⟨hnone, htaken⟩ | ⟨first, hfirst, hle⟩
      · rw [hnone] at hit
        rw [reach_append htaken]
        exact Nat.le_trans (ih it hit) (Nat.le_add_left _ _)
      · rw [hfirst] at hit
        cases hit
        exact hle)
    (lexed_ofBytes s)
  exact hall it (by rw [h]; rfl)

/-! ## No block swallows a merged text -/

namespace Item

open Declaration

/-- Tidying a body makes no byte up. -/
theorem count_tidy_body_le {c : UInt8} (hc : c ∉ [0x0A, 0x20, colon, semicolon]) (b : Bytes) :
    (format (merge (parse b))).count c ≤ b.count c := by
  rw [count_format hc]
  calc ((merge (parse b)).flatMap fields).count c
      ≤ ((parse b).flatMap fields).count c := count_merge_le c _
    _ ≤ (stripComments b).count c := (parse_spec b).2.count_le c
    _ ≤ b.count c := (stripComments_sublist b).count_le c

theorem count_lines_tidy_le {c : UInt8} (hc : c ∉ [0x0A, 0x20, colon, semicolon])
    (its : List Item) : (lines (its.map tidy)).count c ≤ (lines its).count c := by
  induction its with
  | nil => exact Nat.le_refl _
  | cons it its ih =>
      have hit : it.tidy.spelling.count c ≤ it.spelling.count c := by
        cases it with
        | rule selector b =>
            have hbody := count_tidy_body_le hc b
            simp only [tidy, spelling, List.count_append, List.count_cons]
            omega
        | _ => exact Nat.le_refl _
      simp only [List.map_cons, lines_cons, List.count_cons, List.count_append]
      omega

theorem comment_eq_cons {t : Bytes} {closed : Bool} (h : ofBytes t = [.comment t closed]) :
    ∃ r, t = slash :: r := by
  have hlex := lexed_ofBytes t
  rw [h] at hlex
  cases hlex with
  | comment _ _ => exact ⟨_, rfl⟩
  | openComment _ => exact ⟨_, rfl⟩

/-- The text of a comment starts with a slash, and any other text has its lead up to
the first block. -/
theorem reach_spelling_tidy {it : Item} {its : List Item}
    (h : Lineup Closed (fun it => it.Trailing ∨ it.Unfinished) (it :: its)) :
    (∃ r, it.tidy.spelling = slash :: r) ∨
      reach (ofBytes (it.tidy.spelling ++ lines (its.map tidy))) ≤ it.lead.length := by
  have hit := h.forall_mem it List.mem_cons_self
  cases it with
  | comment t =>
      left
      rcases hit with hclosed | hopen | hopen
      · exact comment_eq_cons hclosed
      · exact comment_eq_cons hopen
      · exact hopen.elim
  | atRule header b =>
      right
      have hheader : IsHeader header := by
        rcases hit with hit | hit | hit
        · exact hit.1
        · exact hit.elim
        · exact hit.1
      have hpre := isCode_at fun l hl => (hheader.lexemes l hl).1
      rw [tidy_of_not_rule rfl, spelling, List.cons_append, List.append_assoc, List.cons_append,
        ofBytes_at,
        ofBytes_block fun l hl => (hheader.lexemes l hl).2, ← List.cons_append, reach_open hpre]
      simp [extent, bytes, lead]
  | rule selector b =>
      right
      have hselector : IsSelector selector := by
        rcases hit with hit | hit | hit
        · exact hit.1
        · exact hit.elim
        · exact hit.1
      rw [tidy, spelling, List.append_assoc, List.cons_append,
        ofBytes_block fun l hl => (hselector.lexemes l hl).2,
        reach_open fun l hl => (hselector.lexemes l hl).1]
      simp [extent, lead]
  | other t =>
      right
      cases h with
      | cons hclosed _ => exact hclosed.elim
      | last _ =>
          -- nothing follows trailing text, so the whole text is its lead
          refine Nat.le_trans (reach_le _) ?_
          simp [extent, tidy, spelling, lead]
  | blank =>
      rcases hit with hit | hit | hit
      · exact hit.elim
      · exact hit.elim
      · exact hit.elim

/-- What is in front of the text, with a closing brace between, could only have signs that tidying
puts in. -/
theorem notMem_of_lines_tidy {b w : Bytes} {c : UInt8}
    (h : lines ((items (ofBytes w)).map tidy) = b ++ closeBrace :: w)
    (hc : c ∉ [0x0A, 0x20, colon, semicolon]) (hclose : c ≠ closeBrace) : c ∉ b := by
  have hfeed : c ≠ 0x0A := fun heq => hc (by simp [heq])
  have htidy := count_lines_tidy_le hc (items (ofBytes w))
  have hitems := count_items_le hfeed hclose w
  rw [h, List.count_append, List.count_cons_of_ne hclose.symm] at htidy
  exact List.count_eq_zero.mp (by omega)

theorem reach_code_append {b : Bytes} (hopen : openBrace ∉ b) (hslash : slash ∉ b) (w : Bytes) :
    reach (ofBytes (b ++ closeBrace :: w)) = b.length + 1 + reach (ofBytes w) := by
  have hread : ofBytes (b ++ closeBrace :: w) = (b ++ [closeBrace]).map .code ++ ofBytes w := by
    rw [← ofBytes_code_append (by simpa [slash, closeBrace] using hslash), List.append_assoc]
    rfl
  have hcode : ∀ l ∈ (b ++ [closeBrace]).map code, l.isCode (· == openBrace) = false := by
    intro l hl
    obtain ⟨z, hz, rfl⟩ := List.mem_map.mp hl
    simp only [isCode, beq_eq_false_iff_ne]
    rintro rfl
    rcases List.mem_append.mp hz with hz | hz
    · exact hopen hz
    · exact absurd (List.mem_singleton.mp hz) (by decide)
  have hextent : extent ((b ++ [closeBrace]).map code) = b.length + 1 := by
    simp [extent, source, List.flatMap_map, bytes]
  rw [hread, reach_append hcode, hextent]

/-- A tidied text does not stand in front of the text that it was made from, with a
closing brace between. What is in front could have neither an opening brace nor a
slash, and so the first block would start too late. -/
theorem lines_tidy_ne (b w : Bytes) :
    lines ((items (ofBytes w)).map tidy) ≠ b ++ closeBrace :: w := by
  intro h
  have hopen : openBrace ∉ b := notMem_of_lines_tidy h (by decide) (by decide)
  have hslash : slash ∉ b := notMem_of_lines_tidy h (by decide) (by decide)
  rcases hits : items (ofBytes w) with _ | ⟨it, its⟩
  · rw [hits] at h
    simp at h
  · have hlead := lead_le_reach hits
    have hline := lineup_items w
    rw [hits] at h hline
    rw [List.map_cons, lines_cons] at h
    -- the first byte is the line feed before the first item, or the closing brace
    rcases b with _ | ⟨x, b⟩
    · exact absurd (List.cons.inj h).1 (by decide)
    · have htext : it.tidy.spelling ++ lines (its.map tidy) = b ++ closeBrace :: w :=
        (List.cons.inj h).2
      rw [List.mem_cons, not_or] at hopen hslash
      rcases reach_spelling_tidy hline with ⟨r, hr⟩ | hreach
      · -- a comment starts with a slash
        rw [hr] at htext
        rcases b with _ | ⟨y, b⟩
        · exact absurd (List.cons.inj htext).1 (by decide)
        · exact hslash.2 ((List.cons.inj htext).1 ▸ List.mem_cons_self)
      · rw [htext, reach_code_append hopen.2 hslash.2] at hreach
        omega

end Item

end Cascade
