import Cascade.Merge.Output
import Cascade.Proofs.Merge.Table

/-!
# Writing to a sink that runs full

Writing pieces in turn is writing all of them at once, also where the sink runs full on the way.
So a sink with a limit gets the front part of what one without a limit gets. What that is depends
on the table, which need not be the table of the sheet: an entry may name any place, and a rule
without an entry is written as it stands.
-/

namespace Cascade

/-! ## Many writes and one -/

namespace Sink

theorem room_le (s : Sink) (n : Nat) : s.room n ≤ n := by
  unfold room
  split
  · exact Nat.le_refl n
  · exact Nat.min_le_left _ _

/-- How much of two pieces fits: if the first does not fit as a whole, nothing of the second. -/
theorem room_append (s : Sink) (p q : Bytes) :
    s.room (p ++ q).length = if s.room p.length < p.length then s.room p.length
      else p.length + (s.write p).sink.room q.length := by
  obtain ⟨out, limit⟩ := s
  cases limit with
  | none => simp [room, write]
  | some l =>
      simp only [room, write, List.length_append, List.length_take]
      split <;> omega

theorem write_nil (s : Sink) : s.write [] = ⟨0, s, false⟩ := by
  obtain ⟨out, limit⟩ := s
  cases limit <;> simp [write, room]

/-- Two writes, the second of them only if the first did not fail, are one write of both pieces. -/
theorem write_append (s : Sink) (p q : Bytes) :
    s.write (p ++ q) = if (s.write p).failed then s.write p
      else { (s.write p).sink.write q with
        count := (s.write p).count + ((s.write p).sink.write q).count } := by
  have hroom := s.room_append p q
  by_cases hfull : s.room p.length < p.length
  · -- the sink is full within the first piece
    rw [if_pos hfull] at hroom
    have hfailed : (s.write p).failed = true := decide_eq_true hfull
    have htake : (p ++ q).take (s.room p.length) = p.take (s.room p.length) :=
      List.take_append_of_le_length (Nat.le_of_lt hfull)
    have hlt : s.room p.length < (p ++ q).length := by
      rw [List.length_append]
      exact Nat.lt_add_right _ hfull
    rw [if_pos hfailed]
    simp only [write, hroom, htake, hlt, hfull]
  · rw [if_neg hfull] at hroom
    have hfailed : (s.write p).failed = false := decide_eq_false hfull
    have hall : s.room p.length = p.length :=
      Nat.le_antisymm (s.room_le p.length) (Nat.not_lt.mp hfull)
    have hsink : (s.write p).sink = { s with out := s.out ++ p } := by
      simp only [write, hall, List.take_length]
    rw [hsink] at hroom ⊢
    generalize hrest : room { s with out := s.out ++ p } q.length = m at hroom
    have htake : (p ++ q).take (p.length + m) = p ++ q.take m := by
      simp [List.take_append]
    have hlt : p.length + m < (p ++ q).length ↔ m < q.length := by
      rw [List.length_append]
      exact Nat.add_lt_add_iff_left
    rw [hfailed, if_neg Bool.false_ne_true]
    simp only [write, hroom, hrest, hall, htake, hlt, List.append_assoc]

theorem writeAll_eq_write (s : Sink) (ps : List Bytes) : s.writeAll ps = s.write ps.flatten := by
  induction ps generalizing s with
  | nil => rw [List.flatten_nil, write_nil, writeAll]
  | cons p ps ih =>
      rw [writeAll, List.flatten_cons, write_append]
      simp only [ih]

end Sink

/-! ## The pieces and where they come from -/

namespace Output

theorem flatten_chunks (ps : List Bytes) : (chunks ps).flatten = Bytes.join (text "\n") ps := by
  cases ps with
  | nil => rfl
  | cons p ps =>
      rw [chunks, List.flatten_cons, Bytes.join]
      induction ps generalizing p with
      | nil => simp
      | cons q ps ih =>
          rw [List.intercalate_cons_cons, ← ih q, List.map_cons, List.flatten_cons]
          simp

theorem writeTo_eq_write (sink : Sink) (table : Table) (tokens : List Token) :
    writeTo sink table tokens = sink.write (render table tokens) := by
  rw [writeTo, Sink.writeAll_eq_write, flatten_chunks, render]

/-- `Adds table i item x`: at place `i`, the item adds `x` to the text. Only a rule asks the table.
If its entry names another place, it adds nothing. -/
inductive Adds (table : Table) (i : Nat) : Item → Bytes → Prop
  | comment {t : Bytes} : Adds table i (.comment t) t
  | other {t : Bytes} : Adds table i (.other t) t
  | atRule {header body : Bytes} : Adds table i (.atRule header body)
      (text "@" ++ header ++ text "\x7b" ++ body ++ text "\x7d")
  | unlisted {selector body : Bytes} : table.get? (normalize selector) = none →
      Adds table i (.rule selector body) (selector ++ text "\x7b" ++ body ++ text "\x7d")
  | listed {selector body : Bytes} {e : Entry} : table.get? (normalize selector) = some e →
      e.last = i → Adds table i (.rule selector body)
        (e.selector ++ text "\x7b" ++
          (e.order.flatMap fun p =>
            text "\n  " ++ p ++ text ": " ++ (e.values.get? p).getD [] ++ text ";") ++
          text "\n\x7d")

theorem format_eq (e : Entry) : e.format = e.selector ++ text "\x7b" ++
    (e.order.flatMap fun p =>
      text "\n  " ++ p ++ text ": " ++ (e.values.get? p).getD [] ++ text ";") ++
    text "\n\x7d" := by
  have hlines : e.declarations.flatMap Declaration.line = e.order.flatMap fun p =>
      text "\n  " ++ p ++ text ": " ++ (e.values.get? p).getD [] ++ text ";" := by
    rw [Entry.declarations, List.flatMap_map]
    rfl
  rw [Entry.format, Declaration.format, hlines]
  simp only [List.append_assoc]
  rfl

theorem piece?_eq_some_iff {table : Table} {i : Nat} {item : Item} {x : Bytes} :
    piece? table i item = some x ↔ Adds table i item x := by
  constructor
  · intro h
    cases item with
    | comment t =>
        cases h
        exact .comment
    | other t =>
        cases h
        exact .other
    | atRule header body =>
        cases h
        exact .atRule
    | blank => cases h
    | rule selector body =>
        rw [piece?] at h
        cases hget : table.get? (normalize selector) with
        | none =>
            rw [hget] at h
            cases h
            exact .unlisted hget
        | some e =>
            rw [hget] at h
            dsimp only at h
            -- a listed selector is written at its last place only
            by_cases hlast : e.last = i
            · rw [if_pos hlast, format_eq] at h
              cases h
              exact .listed hget hlast
            · rw [if_neg hlast] at h
              cases h
  · intro h
    cases h with
    | comment => rfl
    | other => rfl
    | atRule => rfl
    | unlisted hget =>
        rw [piece?, hget]
        rfl
    | listed hget hlast =>
        rw [piece?, hget]
        exact (if_pos hlast).trans (congrArg some (format_eq _))

def placedPieces (table : Table) (tokens : List Token) : List (Nat × Bytes) :=
  tokens.zipIdx.filterMap fun p => (piece? table p.2 p.1.item).map fun x => (p.2, x)

theorem map_snd_placedPieces (table : Table) (tokens : List Token) :
    (placedPieces table tokens).map Prod.snd = pieces table tokens := by
  rw [placedPieces, List.map_filterMap, pieces]
  refine List.filterMap_congr fun p _ => ?_
  rw [Option.map_map]
  exact Option.map_id'

theorem mem_placedPieces_iff {table : Table} {tokens : List Token} {i : Nat} {x : Bytes} :
    (i, x) ∈ placedPieces table tokens ↔
      ∃ t, tokens[i]? = some t ∧ Adds table i t.item x := by
  rw [placedPieces, List.mem_filterMap]
  constructor
  · rintro ⟨⟨t, j⟩, hmem, hpiece⟩
    obtain ⟨y, hy, heq⟩ := Option.map_eq_some_iff.mp hpiece
    cases heq
    exact ⟨t, List.mem_zipIdx_iff_getElem?.mp hmem, piece?_eq_some_iff.mp hy⟩
  · rintro ⟨t, hget, hadds⟩
    refine ⟨(t, i), List.mem_zipIdx_iff_getElem?.mpr hget, ?_⟩
    rw [piece?_eq_some_iff.mpr hadds]
    rfl

/-- The places come in ascending order, so none comes twice. -/
theorem pairwise_placedPieces (table : Table) (tokens : List Token) :
    ((placedPieces table tokens).map Prod.fst).Pairwise (· < ·) := by
  have hplaces : tokens.zipIdx.Pairwise fun p q => p.2 < q.2 := by
    rw [← List.pairwise_map, List.zipIdx_map_snd]
    exact List.pairwise_lt_range'
  rw [List.pairwise_map, placedPieces]
  apply hplaces.filterMap
  intro p q hlt x hx y hy
  obtain ⟨_, _, rfl⟩ := Option.map_eq_some_iff.mp hx
  obtain ⟨_, _, rfl⟩ := Option.map_eq_some_iff.mp hy
  exact hlt

/-- A rule with an entry is written where its entry says, and nowhere else. -/
theorem Adds.last_eq {table : Table} {i : Nat} {item : Item} {x k : Bytes} {e : Entry}
    (h : Adds table i item x) (hkey : item.key? = some k) (hget : table.get? k = some e) :
    e.last = i := by
  cases h with
  | comment => cases hkey
  | other => cases hkey
  | atRule => cases hkey
  | unlisted hnone =>
      cases hkey
      cases hnone.symm.trans hget
  | listed hsome hlast =>
      cases hkey
      cases hsome.symm.trans hget
      exact hlast

/-- An item that holds something and has no entry is written wherever it stands. -/
theorem exists_adds {table : Table} {item : Item} (hitem : item ≠ .blank)
    (hkey : item.key?.bind table.get? = none) (i : Nat) : ∃ x, Adds table i item x := by
  cases item with
  | comment t => exact ⟨t, .comment⟩
  | other t => exact ⟨t, .other⟩
  | atRule header body => exact ⟨_, .atRule⟩
  | rule selector body => exact ⟨_, .unlisted hkey⟩
  | blank => exact absurd rfl hitem

/-- A sink that runs full gets exactly the front part. Whatever the table is, let `full` be what a
sink without a limit gets. A sink with a limit gets as much of it as fits, counts that, and fails
if and only if that is not all. The full text is made of pieces with a line feed between them, in
the order of the tokens: every item adds what it should, what has no entry is always written, and
no key of the table is written at two places. -/
theorem writeTo_cut_short (table : Table) (tokens : List Token) :
    ∃ (full : Bytes) (written : List (Nat × Bytes)),
      writeTo (.new none) table tokens = ⟨full.length, ⟨full, none⟩, false⟩ ∧
      (∀ limit, writeTo (.new (some limit)) table tokens =
        ⟨min limit full.length, ⟨full.take (min limit full.length), some limit⟩,
          limit < full.length⟩) ∧
      full = Bytes.join (text "\n") (written.map Prod.snd) ∧
      (written.map Prod.fst).Pairwise (· < ·) ∧
      (∀ i x, (i, x) ∈ written ↔ ∃ t, tokens[i]? = some t ∧ Adds table i t.item x) ∧
      (∀ i t, tokens[i]? = some t → t.item ≠ .blank → t.item.key?.bind table.get? = none →
        i ∈ written.map Prod.fst) ∧
      ∀ k e, table.get? k = some e → ∀ i ∈ written.map Prod.fst, ∀ j ∈ written.map Prod.fst,
        (tokens[i]?.bind fun t => t.item.key?) = some k →
        (tokens[j]?.bind fun t => t.item.key?) = some k → i = j := by
  refine ⟨render table tokens, placedPieces table tokens, ?_, ?_, ?_,
    pairwise_placedPieces table tokens, fun i x => mem_placedPieces_iff, ?_, ?_⟩
  · rw [writeTo_eq_write]
    simp [Sink.write, Sink.room, Sink.new]
  · intro limit
    have hfails : min limit (render table tokens).length < (render table tokens).length ↔
        limit < (render table tokens).length := by omega
    rw [writeTo_eq_write]
    simp [Sink.write, Sink.room, Sink.new, Nat.min_comm, hfails]
  · rw [map_snd_placedPieces, render]
  · intro i t hget hitem hkey
    obtain ⟨x, hx⟩ := exists_adds hitem hkey i
    exact List.mem_map.mpr ⟨(i, x), mem_placedPieces_iff.mpr ⟨t, hget, hx⟩, rfl⟩
  · intro k e hentry i hi j hj hkeyi hkeyj
    have hlast : ∀ n ∈ (placedPieces table tokens).map Prod.fst,
        (tokens[n]?.bind fun t => t.item.key?) = some k → e.last = n := by
      intro n hn hkey
      obtain ⟨⟨m, x⟩, hmem, rfl⟩ := List.mem_map.mp hn
      obtain ⟨t, hget, hadds⟩ := mem_placedPieces_iff.mp hmem
      rw [hget] at hkey
      exact hadds.last_eq hkey hentry
    exact Int.ofNat.inj ((hlast i hi hkeyi).symm.trans (hlast j hj hkeyj))

/-- A table that is not that of the tokens: the entry of `a` names the first of two places, spells
the selector in its own way and has no value for one property, that of `b` names a place that is
not there, and `c` has none. The sink runs full on the line feed behind the first piece. -/
theorem writeTo_cut_short_foreign_table :
    let tokens : List Token := [⟨.rule (text "a") [], 0⟩, ⟨.other [], 3⟩, ⟨.rule (text "b") [], 3⟩,
      ⟨.rule (text "c") (text "x"), 6⟩, ⟨.blank, 10⟩, ⟨.rule (text " a") [], 10⟩]
    let table : Table := ⟨[
      (text "a", ⟨4, 0, 7, text "A", [text "p", text "q"], ⟨[(text "p", text "1")]⟩⟩),
      (text "b", ⟨0, -9, 1, text "b", [], ∅⟩)]⟩
    let full := text "A\x7b\n  p: 1;\n  q: ;\n\x7d\n\nc\x7bx\x7d"
    tokens[3]? = some ⟨.rule (text "c") (text "x"), 6⟩ ∧
    (Item.rule (text "c") (text "x")).key?.bind table.get? = none ∧
    writeTo (.new none) table tokens = ⟨25, ⟨full, none⟩, false⟩ ∧
    writeTo (.new (some 19)) table tokens =
      ⟨19, ⟨text "A\x7b\n  p: 1;\n  q: ;\n\x7d", some 19⟩, true⟩ ∧
    ∃ written : List (Nat × Bytes), full = Bytes.join (text "\n") (written.map Prod.snd) ∧
      3 ∈ written.map Prod.fst := by
  intro tokens table full
  have hget : tokens[3]? = some ⟨.rule (text "c") (text "x"), 6⟩ := rfl
  have hkey : (Item.rule (text "c") (text "x")).key?.bind table.get? = none := by decide
  have hall : writeTo (.new none) table tokens = ⟨25, ⟨full, none⟩, false⟩ := by decide
  obtain ⟨full', written, hfull', hlimit, hjoin, _, _, hwritten, _⟩ := writeTo_cut_short table tokens
  obtain rfl : full = full' := congrArg (fun w => w.sink.out) (hall.symm.trans hfull')
  refine ⟨hget, hkey, hall, (hlimit 19).trans (by decide), written, hjoin, ?_⟩
  exact hwritten 3 _ hget (by decide) hkey

end Output

end Cascade
