import Cascade.Proofs.Sheet.Cuts

/-!
# One source behind another

Where a scan starts shows in offsets only. So a source that leaves nothing open can be put in
front of any other: the tokens of the two follow each other, and those of the second move by the
length of the first. White space between them is a source without tokens.
-/

namespace Cascade

open Lexeme

/-! ## Moving a scan -/

/-- The token with `n` more bytes in front of its source. -/
def Token.shift (n : Nat) (t : Token) : Token := { t with offset := t.offset + n }

def Event.shift (n : Nat) : Event → Event
  | .token t => .token (t.shift n)
  | .dropped rule => .dropped rule
  | .recovered offset problem => .recovered (offset + n) problem

namespace Scan

theorem token_shift (n o : Nat) (item : Item) :
    Event.shift n (.token ⟨item, o⟩) = .token ⟨item, ↑(o + n)⟩ := by
  simp [Event.shift, Token.shift]

theorem recovered_shift (n o k : Nat) (p : Problem) :
    Event.shift n (.recovered (o + k) p) = .recovered (o + n + k) p := by
  rw [Event.shift, Nat.add_right_comm]

/-- A lap is the same wherever it starts, but for the offsets of what it meets. -/
theorem Lap.map_shift {o : Nat} {taken rest : List Lexeme} {es : List Event}
    (h : Lap o taken rest es) (n : Nat) : Lap (o + n) taken rest (es.map (Event.shift n)) := by
  cases h with
  | blank hy hsym => exact .blank hy hsym
  | comment =>
      rw [List.map_singleton, token_shift]
      exact .comment
  | openComment =>
      rw [List.map_cons, List.map_singleton, token_shift]
      exact .openComment
  | dropped hpre => exact .dropped hpre
  | openDropped hpre => exact .openDropped hpre
  | atRule hpre hbody =>
      rw [List.map_singleton, token_shift]
      exact .atRule hpre hbody
  | openAtRule hpre hbody =>
      rw [List.map_cons, List.map_singleton, token_shift, Nat.add_assoc, recovered_shift,
        ← Nat.add_assoc]
      exact .openAtRule hpre hbody
  | rule hplain hpre hbody =>
      rw [List.map_singleton, token_shift]
      exact .rule hplain hpre hbody
  | openRule hplain hpre hbody =>
      rw [List.map_cons, List.map_singleton, token_shift, recovered_shift]
      exact .openRule hplain hpre hbody
  | other hplain hpre =>
      rw [List.map_cons, List.map_singleton, token_shift]
      exact .other hplain hpre

/-- A scan that starts further on meets the same, further on. -/
theorem eventsFrom_shift (n o : Nat) {ls : List Lexeme} (hls : Lexed ls) :
    eventsFrom 0 (o + n) ls = (eventsFrom 0 o ls).map (Event.shift n) := by
  refine eventsFrom_induction
    (motive := fun o ls es => eventsFrom 0 (o + n) ls = es.map (Event.shift n))
    (fun _ => rfl) (fun o taken rest es hlex hlap ih => ?_) o hls
  rw [(hlap.map_shift n).eventsFrom_eq hlex, List.map_append, Nat.add_right_comm, ih]

/-! ## Sources without tokens -/

theorem symbols_at (s : Bytes) : Utf8.symbols (0x40 :: s) = .char '@' :: Utf8.symbols s :=
  Utf8.symbols_ascii_cons (by decide) s

/-- A lap over white space meets nothing, and leaves white space. -/
theorem Lap.of_isBlank {o : Nat} {taken rest : List Lexeme} {es : List Event}
    (hlex : Lexed (taken ++ rest)) (h : Lap o taken rest es)
    (hblank : (source (taken ++ rest)).isBlank = true) :
    es = [] ∧ (source rest).isBlank = true := by
  have hfirst : ∀ y ∈ (Utf8.symbols (source (taken ++ rest))).head?, y.isBlank = true :=
    fun y hy => List.all_eq_true.mp hblank y (List.mem_of_head? hy)
  -- what is no white space starts with a symbol that is none
  have hplain : ¬ Plain (taken ++ rest) := by
    rintro ⟨b, tail, heq, _, hnot⟩
    rw [heq, head_symbols_code] at hfirst
    rw [heq, head_symbols_code] at hnot
    exact Bool.noConfusion ((hfirst _ rfl).symm.trans (hnot _ rfl))
  have hat : ∀ tail, taken ≠ .code 0x40 :: tail := by
    rintro tail rfl
    rw [List.cons_append, source_cons, bytes, List.singleton_append, symbols_at] at hfirst
    exact absurd (hfirst _ rfl) (by decide)
  have hcomment : ∀ t c tail, taken ≠ .comment t c :: tail := by
    rintro t c tail rfl
    have hslash : ∃ s, source (.comment t c :: tail ++ rest) = slash :: s := by
      rw [List.cons_append, source_cons, bytes]
      rw [List.cons_append] at hlex
      generalize tail ++ rest = ls at hlex
      cases hlex <;> exact ⟨_, rfl⟩
    obtain ⟨s, hs⟩ := hslash
    rw [hs, Utf8.symbols_ascii_cons (by decide)] at hfirst
    exact absurd (hfirst _ rfl) (by decide)
  cases h with
  | @blank y _ hy hsym =>
      refine ⟨rfl, ?_⟩
      have hsource : source (y.bytes.map .code ++ rest) = y.bytes ++ source rest := by
        simp [source, List.flatMap_map, bytes]
      rw [Bytes.isBlank, hsource, hsym, List.all_cons] at hblank
      exact (Bool.and_eq_true_iff.mp hblank).2
  | comment => exact absurd rfl (hcomment _ _ _)
  | openComment => exact absurd rfl (hcomment _ _ _)
  | dropped _ => exact absurd rfl (hat _)
  | openDropped _ => exact absurd rfl (hat _)
  | atRule _ _ => exact absurd rfl (hat _)
  | openAtRule _ _ => exact absurd rfl (hat _)
  | rule h _ _ => exact absurd (by simpa using h) hplain
  | openRule h _ _ => exact absurd (by simpa using h) hplain
  | other h _ => exact absurd (by simpa using h) hplain

theorem events_of_isBlank {w : Bytes} (h : w.isBlank = true) : events w = [] := by
  refine eventsFrom_induction (motive := fun _ ls es => (source ls).isBlank = true → es = [])
    (fun _ _ => rfl) (fun o taken rest es hlex hlap ih hblank => ?_) 0 (lexed_ofBytes w)
    (by rwa [source_ofBytes])
  obtain ⟨rfl, hrest⟩ := hlap.of_isBlank hlex hblank
  exact ih hrest

/-! ## What is left open at the end -/

theorem ended_dropped {pre rest : List Lexeme}
    (hlex : Lexed (.code 0x40 :: (pre ++ .code semicolon :: rest))) :
    Ended (Bytes.trim (0x40 :: source pre ++ [semicolon])) := by
  have htext : source (.code 0x40 :: (pre ++ [.code semicolon])) =
      0x40 :: source pre ++ [semicolon] := by simp [bytes]
  have htrim : Bytes.trim (0x40 :: source pre ++ [semicolon]) = 0x40 :: source pre ++ [semicolon] := by
    refine Bytes.trim_eq_self_iff.mpr ?_
    have hlast : Utf8.symbols [semicolon] = [.char ';'] := by decide
    rw [Utf8.symbols_append _ (by simp; decide), symbols_at, hlast]
    refine ⟨by simp; decide, ?_⟩
    rw [List.getLast?_concat]
    simp
    decide
  have hsplit : Lexed ((.code 0x40 :: (pre ++ [.code semicolon])) ++ rest) := by simpa using hlex
  have hread := hsplit.of_append_left
  rw [Ended, htrim, ← htext, hread.ofBytes_source, ← List.cons_append, List.getLast?_concat]

/-- If the last @-rule without a block is ended, all of them are: the others have something
behind them. -/
theorem ended_of_last {s : Bytes} (h : ∀ rule ∈ (dropped s).getLast?, Ended rule) :
    ∀ rule ∈ dropped s, Ended rule := by
  refine eventsFrom_induction
    (motive := fun _ _ es => (∀ rule ∈ (es.filterMap Event.dropped?).getLast?, Ended rule) →
      ∀ rule ∈ es.filterMap Event.dropped?, Ended rule)
    (fun _ _ => by simp) (fun o taken rest es hlex hlap ih => ?_) 0 (lexed_ofBytes s) h
  rw [List.filterMap_append]
  cases hlap with
  | dropped _ =>
      intro hlast rule hrule
      rcases List.mem_cons.mp hrule with rfl | hmem
      · exact ended_dropped (by simpa using hlex)
      · refine ih (fun last hlast' => hlast last ?_) rule hmem
        rw [List.getLast?_append, hlast']
        rfl
  | openDropped _ => simp [Event.dropped?, eventsFrom]
  | blank _ _ => exact ih
  | comment => exact ih
  | openComment => exact ih
  | atRule _ _ => exact ih
  | openAtRule _ _ => exact ih
  | rule _ _ _ => exact ih
  | openRule _ _ _ => exact ih
  | other _ _ => exact ih

/-! ## Both sources at once -/

/-- Behind a source that leaves nothing open, a scan meets what it meets in the other source. -/
theorem events_append_shift {a : Bytes} (h : ∀ e ∈ events a, e.Settled) (b : Bytes) :
    events (a ++ b) = events a ++ (events b).map (Event.shift a.length) := by
  have hshift := eventsFrom_shift a.length 0 (lexed_ofBytes b)
  rw [Nat.zero_add] at hshift
  rw [events_append h, hshift]
  rfl

end Scan

open Scan

theorem Sheet.tokens_append {a : Bytes} (h : ∀ e ∈ events a, e.Settled) (b : Bytes) :
    (Sheet.scan (a ++ b)).tokens =
      (Sheet.scan a).tokens ++ (Sheet.scan b).tokens.map (Token.shift a.length) := by
  have hmove : ∀ e, (Event.shift a.length e).token? = e.token?.map (Token.shift a.length) := by
    intro e
    cases e <;> rfl
  simp only [Sheet.scan, events_append_shift h, List.filterMap_append, List.filterMap_map,
    List.map_filterMap, Function.comp_def, hmove]

/-- Scanning is a homomorphism at clean cuts. If a source is scanned without a warning and its
last @-rule without a block, if it has one, is ended by its semicolon, then any text may be put
behind it: the tokens of the text follow, moved by the length of the source. White space in
between moves them further and does nothing else. -/
theorem Sheet.tokens_homomorphism (a b : Bytes) (hwarnings : (Sheet.scan a).warnings = [])
    (hended : ∀ rule ∈ (dropped a).getLast?, Ended rule) :
    (Sheet.scan (a ++ b)).tokens =
      (Sheet.scan a).tokens ++ (Sheet.scan b).tokens.map (Token.shift a.length) ∧
    ∀ w, w.isBlank = true → (Sheet.scan (a ++ w ++ b)).tokens =
      (Sheet.scan a).tokens ++ (Sheet.scan b).tokens.map (Token.shift (a.length + w.length)) := by
  have hsettled := settled_of_warnings hwarnings (ended_of_last hended)
  refine ⟨Sheet.tokens_append hsettled b, fun w hw => ?_⟩
  have hboth : events (a ++ w) = events a := by
    rw [events_append_shift hsettled, events_of_isBlank hw, List.map_nil, List.append_nil]
  have htokens : (Sheet.scan (a ++ w)).tokens = (Sheet.scan a).tokens := by
    simp only [Sheet.scan, hboth]
  rw [Sheet.tokens_append (by rwa [hboth]), htokens, List.length_append]

/-- The first source ends with an @-rule without a block. The second starts with a byte that goes
on with a character, and its first item with what could close a comment. -/
theorem Sheet.tokens_homomorphism_bodyless :
    let a := text "@m\x7b/*\x7d*/\x7d a\x7bp:1\x7d@x/*;*/;"
    let b := 0x80 :: text "*/\x7d\x7bq:2\x7d/*c"
    (Sheet.scan a).warnings = [] ∧ (dropped a).getLast? = some (text "@x/*;*/;") ∧
      Ended (text "@x/*;*/;") ∧
      (Sheet.scan (a ++ b)).tokens = [⟨.atRule (text "m") (text "/*\x7d*/"), 0⟩,
        ⟨.rule (text "a") (text "p:1"), 10⟩, ⟨.rule (0x80 :: text "*/\x7d") (text "q:2"), 24⟩,
        ⟨.comment (text "/*c"), 33⟩] ∧
      (Sheet.scan (a ++ text " \t" ++ b)).tokens.map Token.offset = [0, 10, 26, 35] := by
  intro a b
  have hwarnings : (Sheet.scan a).warnings = [] := by decide
  have hlast : (dropped a).getLast? = some (text "@x/*;*/;") := by decide
  have hended : Ended (text "@x/*;*/;") := by decide
  obtain ⟨htokens, hblank⟩ := Sheet.tokens_homomorphism a b hwarnings
    (fun rule hrule => Option.some.inj (hlast.symm.trans hrule) ▸ hended)
  refine ⟨hwarnings, hlast, hended, htokens.trans (by decide), ?_⟩
  rw [hblank (text " \t") (by decide)]
  decide

end Cascade
