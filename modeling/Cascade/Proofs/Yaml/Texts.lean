import Cascade.Proofs.Text.Base64
import Cascade.Proofs.Text.Integer
import Cascade.Proofs.Yaml.Scalars

/-!
# Texts read back

A text without a mark of its own reads plain, a block of lines by its indentation, and letters as
the bytes that they spell. So every text reads as it was written, unless it is a block that starts
with a line break or a tab. Numbers and truth values read as what they are.
-/

namespace Cascade.Yaml

open Reading

variable {column : Nat}

/-! ## Looks -/

theorem isBlockChar_of_special {cs : List Char} (h : (Look.ofChars cs).special = false) :
    ∀ c ∈ cs, isBlockChar c = true := by
  intro c hc
  have hchar := (List.any_eq_false.mp h) c hc
  rw [Bool.and_eq_true, not_and, bne_iff_ne, Bool.not_eq_true', Bool.not_eq_false] at hchar
  rw [isBlockChar, Bool.or_eq_true, beq_iff_eq, or_iff_not_imp_right]
  exact hchar

theorem isPrintable_of_tabs {cs : List Char} (htabs : (Look.ofChars cs).tabs = false)
    (hspecial : (Look.ofChars cs).special = false) : ∀ c ∈ cs, isPrintable c = true := by
  intro c hc
  have htab : '\t' ∉ cs := by simpa [Look.ofChars] using htabs
  rcases Bool.or_eq_true_iff.mp (isBlockChar_of_special hspecial c hc) with h | h
  · exact h
  · exact absurd (beq_iff_eq.mp h ▸ hc) htab

structure Bare (cs : List Char) : Prop where
  printable : ∀ c ∈ cs, isPrintable c = true ∧ isBreak c = false
  head : cs.head? ≠ some ' '
  last : cs.getLast? ≠ some ' '
  start : marksStart cs = false
  inside : marksInside (cs.headD ' ') (cs.drop 1) = false

theorem bare_of_allowsPlain {cs : List Char} (h : (Look.ofChars cs).allowsPlain = true) :
    Bare cs := by
  simp only [Look.allowsPlain, Look.allowsSingle, Bool.and_eq_true, Bool.not_eq_true',
    Bool.or_eq_false_iff] at h
  obtain ⟨⟨⟨-, htabs⟩, hspecial⟩, ⟨⟨⟨⟨hhead, -⟩, hlast⟩, -⟩, hbreaks⟩, hmarks⟩ := h
  obtain ⟨hstart, hinside⟩ := Bool.or_eq_false_iff.mp hmarks
  refine ⟨fun c hc => ⟨isPrintable_of_tabs htabs hspecial c hc, ?_⟩, ?_, ?_, hstart, hinside⟩
  · exact Bool.of_not_eq_true (List.any_eq_false.mp hbreaks c hc)
  · simpa [Look.ofChars] using hhead
  · simpa [Look.ofChars] using hlast

namespace Bare

variable {c : Char} {u cs : List Char}

theorem endsWord_head (h : Bare (c :: u)) : endsWord c = false := by
  obtain ⟨hprint, hbreak⟩ := h.printable c List.mem_cons_self
  exact endsWord_of_isPrintable hprint hbreak fun heq => h.head (congrArg some heq)

theorem notMem_firstMarks (h : Bare (c :: u)) : c ∉ firstMarks := by
  have hstart := h.start
  simp only [marksStart, Bool.or_eq_false_iff] at hstart
  simpa using hstart.1.1

/-- A dash, a question mark or a colon at the start has a word behind it. -/
theorem plainStart (h : Bare (c :: u)) : PlainStart c (u.headD '\n') := by
  refine ⟨h.endsWord_head, or_iff_not_imp_left.mpr fun hmem => ?_⟩
  have hsplit :
      indicators.all (fun x => firstMarks.contains x || ['-', '?', ':'].contains x) = true := by
    decide
  have hc := List.all_eq_true.mp hsplit c (not_not.mp hmem)
  rw [Bool.or_eq_true, List.contains_iff_mem, List.contains_iff_mem] at hc
  have hmark := hc.resolve_left h.notMem_firstMarks
  have hgap : gapFollows u = false := by
    have hstart := h.start
    simp only [marksStart, Bool.or_eq_false_iff] at hstart
    have hfollows := hstart.1.2
    simp only [List.mem_cons, List.not_mem_nil, or_false] at hmark
    rcases hmark with rfl | rfl | rfl <;> simpa using hfollows
  refine ⟨hmark, ?_⟩
  cases u with
  | nil => cases hgap
  | cons d u =>
      obtain ⟨hprint, hbreak⟩ := h.printable d (by simp)
      show endsWord d = false
      refine endsWord_of_isPrintable hprint hbreak ?_
      rintro rfl
      cases hgap

theorem marks (h : Bare (c :: u)) : marksInside ' ' (c :: u) = false := by
  have hcolon : (c == ':' && gapFollows u) = false := by
    have hstart := h.start
    simp only [marksStart, Bool.or_eq_false_iff] at hstart
    have hfollows := hstart.1.2
    by_cases hc : c = ':'
    · subst hc
      simpa using hfollows
    · simp [hc]
  have hhash : c ≠ '#' := fun heq => h.notMem_firstMarks (heq ▸ by decide)
  have hinside : marksInside c u = false := h.inside
  rw [marksInside, hcolon, beq_false_of_ne hhash, hinside]
  rfl

theorem isStart_head (h : Bare (c :: u)) : isStart c = true := by
  have hword := h.endsWord_head
  refine isStart_iff.mpr ⟨isGap_of_endsWord hword, isBreak_of_endsWord hword, ?_⟩
  exact fun heq => h.notMem_firstMarks (heq ▸ by decide)

theorem words (h : Bare (c :: u)) : Words (c :: u) := by
  refine words_of_marks (List.cons_ne_nil c u) (fun x hx => ?_) (fun hspace => ?_) h.last h.marks
  · obtain ⟨hprint, hbreak⟩ := h.printable x hx
    exact or_iff_not_imp_left.mpr fun hspace => endsWord_of_isPrintable hprint hbreak hspace
  · obtain rfl : c = ' ' := Option.some.inj hspace
    cases h.endsWord_head

/-- A text without quotes reads as it is written. -/
theorem reads (h : Bare (c :: u)) :
    Reads column (c :: u ++ ['\n']) [.scalar .plain (Utf8.ofChars (c :: u))] := by
  have hfinish : c ≠ finish := by
    rintro rfl
    cases h.endsWord_head
  exact reads_plain h.words h.isStart_head hfinish h.plainStart

end Bare

def isTame (c : Char) : Bool :=
  isPrintable c && !endsWord c && !firstMarks.contains c && !(['?', ':', '-', '.'].contains c)

theorem isTame_iff {c : Char} : isTame c = true ↔ isPrintable c = true ∧ endsWord c = false ∧
    c ∉ firstMarks ∧ c ≠ '?' ∧ c ≠ ':' ∧ c ≠ '-' ∧ c ≠ '.' := by
  simp [isTame, and_assoc]

theorem isBlockChar_of_isTame {c : Char} (hc : isTame c = true) : isBlockChar c = true :=
  isBlockChar_of_isPrintable (isTame_iff.mp hc).1

theorem bare_of_isTame {cs : List Char} (hcs : ∀ c ∈ cs, isTame c = true) : Bare cs := by
  have htame := fun c hc => isTame_iff.mp (hcs c hc)
  have hspace : ' ' ∉ cs := fun hmem => absurd (htame _ hmem).2.1 (by decide)
  have hinside : ∀ (behind : Char) (u : List Char), (∀ c ∈ u, c ≠ ':' ∧ c ≠ '#') →
      marksInside behind u = false := by
    intro behind u hu
    induction u generalizing behind with
    | nil => rfl
    | cons c u ih =>
        obtain ⟨⟨hcolon, hhash⟩, hu⟩ := List.forall_mem_cons.mp hu
        rw [marksInside, beq_false_of_ne hcolon, beq_false_of_ne hhash, ih c hu]
        rfl
  refine ⟨fun c hc => ⟨(htame c hc).1, isBreak_of_endsWord (htame c hc).2.1⟩, ?_, ?_, ?_, ?_⟩
  · exact fun h => hspace (List.mem_of_head? h)
  · exact fun h => hspace (List.mem_of_getLast? h)
  · cases cs with
    | nil => rfl
    | cons c u =>
        obtain ⟨-, -, hmarks, hquestion, hcolon, hdash, hdot⟩ := htame c List.mem_cons_self
        simp [marksStart, hmarks, hquestion, hcolon, hdash, hdot]
  · refine hinside _ _ fun c hc => ?_
    obtain ⟨-, -, hmarks, -, hcolon, -⟩ := htame c (List.mem_of_mem_drop hc)
    exact ⟨hcolon, fun heq => hmarks (heq ▸ by decide)⟩

theorem written_plain {cs : List Char} (hne : cs ≠ []) (h : Bare cs) :
    Written column (cs ++ ['\n'], ⟨none, .plain, Utf8.ofChars cs⟩)
      (Value.ofPlain (Utf8.ofChars cs)) (Utf8.ofChars cs) := by
  obtain ⟨c, u, rfl⟩ := List.exists_cons_of_ne_nil hne
  refine ⟨⟨c, u ++ ['\n'], rfl, h.isStart_head⟩, ?_, h.reads, means_plain _⟩
  refine List.forall_mem_append.mpr ⟨fun x hx => ?_, List.forall_mem_singleton.mpr rfl⟩
  exact isBlockChar_of_isPrintable (h.printable x hx).1

/-! ## Blocks -/

theorem exists_ended (cs : List Char) : ∃ u x, ended cs = u ++ [x] ∧ isBreak x = true := by
  unfold ended
  split_ifs with hlast
  · cases hx : cs.getLast? with
    | none => simp [hx] at hlast
    | some x =>
        obtain ⟨u, rfl⟩ := List.getLast?_eq_some_iff.mp hx
        exact ⟨u, x, rfl, by simpa using hlast⟩
  · exact ⟨cs, '\n', rfl, rfl⟩

/-- The mark of a text says what becomes of the break that ends its block. -/
theorem fits_chompOf {cs : List Char} (hne : cs ≠ []) : (chompOf cs).Fits (ended cs) cs := by
  obtain ⟨r, rfl⟩ : ∃ r, cs = List.reverse r := ⟨cs.reverse, cs.reverse_reverse.symm⟩
  unfold chompOf
  rw [List.reverse_reverse]
  rcases r with _ | ⟨c, r⟩
  · exact absurd rfl hne
  cases hc : isBreak c with
  | false =>
      have hended : ended (c :: r).reverse = (c :: r).reverse ++ ['\n'] := if_neg (by simp [hc])
      rcases r with _ | ⟨d, r⟩
      · simp only [hc]
        exact ⟨hended, [], c, rfl, hc⟩
      · simp only [hc]
        exact ⟨hended, (d :: r).reverse, c, List.reverse_cons, hc⟩
  | true =>
      have hended : ended (c :: r).reverse = (c :: r).reverse := if_pos (by simp [hc])
      -- one break at the end needs no mark, a further one or nothing else does
      rcases r with _ | ⟨d, r⟩
      · simp only [hc]
        exact hended
      · cases hd : isBreak d with
        | true =>
            simp only [hc, hd]
            exact hended
        | false =>
            simp only [hc, hd]
            exact ⟨hended, r.reverse, d, c, by simp, hd⟩

theorem digitChar_bounds {step : Nat} (hstep : 1 ≤ step ∧ step ≤ 9) :
    ('1' ≤ step.digitChar ∧ step.digitChar ≤ '9') ∧ step.digitChar.toNat - 0x30 = step := by
  obtain ⟨hlow, hhigh⟩ := hstep
  interval_cases step <;> decide

variable {step : Nat}

/-- A block that starts with neither a line break nor a tab. -/
theorem reads_blockChars (hstep : 1 ≤ step ∧ step ≤ 9) {c : Char} {u : List Char}
    (hcs : ∀ x ∈ c :: u, isBlockChar x = true) (hbreak : isBreak c = false) (htab : c ≠ '\t') :
    Reads column (blockChars step column (c :: u)) [.scalar .literal (Utf8.ofChars (c :: u))] := by
  obtain ⟨v, x, hended, hx⟩ := exists_ended (c :: u)
  have hhead : (ended (c :: u)).head? = some c := by
    unfold ended
    split_ifs <;> rfl
  have hchars : ∀ y ∈ ended (c :: u), isBlockChar y = true := by
    unfold ended
    split_ifs
    · exact hcs
    · exact List.forall_mem_append.mpr ⟨hcs, List.forall_mem_singleton.mpr rfl⟩
  have hfits := fits_chompOf (List.cons_ne_nil c u)
  unfold blockChars
  rw [hended] at hhead hchars hfits ⊢
  refine reads_block hchars hx ?_ hfits ?_
  · rw [List.headD_eq_head?_getD, hhead]
    exact hbreak
  · by_cases hspace : c = ' '
    · obtain ⟨hdigit, hvalue⟩ := digitChar_bounds hstep
      refine Or.inl ⟨step.digitChar, if_pos (congrArg some hspace), hdigit, ?_⟩
      rw [hvalue, Nat.add_comm]
    · refine Or.inr ⟨if_neg fun h => hspace (Option.some.inj h), by omega, c, hhead, ?_⟩
      rcases Bool.or_eq_true_iff.mp (hcs c List.mem_cons_self) with hprint | heq
      · exact endsWord_of_isPrintable hprint hbreak hspace
      · exact absurd (beq_iff_eq.mp heq) htab

theorem isBlockChar_blockChars (hstep : 1 ≤ step ∧ step ≤ 9) {cs : List Char}
    (hcs : ∀ c ∈ cs, isBlockChar c = true) :
    ∀ c ∈ blockChars step column cs, isBlockChar c = true := by
  have hdigit : isBlockChar step.digitChar = true := by
    obtain ⟨hlow, hhigh⟩ := hstep
    interval_cases step <;> decide
  have hended : ∀ c ∈ ended cs, isBlockChar c = true := by
    unfold ended
    split_ifs
    · exact hcs
    · exact List.forall_mem_append.mpr ⟨hcs, List.forall_mem_singleton.mpr rfl⟩
  have hlines : ∀ x ∈ indented (fun c => [c]) (column + step) true (ended cs), isBlockChar x = true :=
    forall_mem_indented rfl
      (fun c hc => ⟨hended c hc, List.forall_mem_singleton.mpr (hended c hc)⟩) _ _
  unfold blockChars
  simp only [List.forall_mem_cons, List.forall_mem_append]
  refine ⟨rfl, ?_, ?_, rfl, hlines⟩
  · split_ifs
    · exact List.forall_mem_singleton.mpr hdigit
    · exact nofun
  · cases chompOf cs with
    | clip => exact nofun
    | strip => exact List.forall_mem_singleton.mpr rfl
    | keep => exact List.forall_mem_singleton.mpr rfl

theorem written_block (hstep : 1 ≤ step ∧ step ≤ 9) {c : Char} {u : List Char}
    (hcs : ∀ x ∈ c :: u, isBlockChar x = true) (hbreak : isBreak c = false) (htab : c ≠ '\t') :
    Written column (blockChars step column (c :: u), ⟨none, .literal, Utf8.ofChars (c :: u)⟩) .text
      (Utf8.ofChars (c :: u)) :=
  ⟨⟨_, _, rfl, rfl⟩, isBlockChar_blockChars hstep hcs, reads_blockChars hstep hcs hbreak htab,
    means_text (by decide) _⟩

/-! ## Bytes that are no text -/

theorem filter_letterLines {fuel : Nat} {s : Bytes} (hs : ∀ b ∈ s, (b != 0x0A) = true)
    (hfuel : s.length ≤ fuel) : (letterLines fuel s).filter (· != 0x0A) = s := by
  induction fuel generalizing s with
  | zero =>
      obtain rfl := List.length_eq_zero_iff.mp (Nat.le_zero.mp hfuel)
      rfl
  | succ fuel ih =>
      rw [letterLines]
      split_ifs with hempty
      · rw [List.isEmpty_iff.mp hempty]
        rfl
      · have hpos : 0 < s.length := List.length_pos_iff.mpr fun h => hempty (List.isEmpty_iff.mpr h)
        have hrest := ih (s := s.drop letterLine) (fun b hb => hs b (List.mem_of_mem_drop hb)) (by
          rw [List.length_drop, letterLine]
          omega)
        have hfirst : (s.take letterLine).filter (· != 0x0A) = s.take letterLine :=
          List.filter_eq_self.mpr fun b hb => hs b (List.mem_of_mem_take hb)
        rw [List.filter_append, List.filter_append, hrest, hfirst]
        show s.take letterLine ++ [] ++ s.drop letterLine = s
        rw [List.append_nil, List.take_append_drop]

theorem forall_mem_letterLines {p : UInt8 → Prop} (hp : p 0x0A) {s : Bytes} (hs : ∀ b ∈ s, p b)
    (fuel : Nat) : ∀ b ∈ letterLines fuel s, p b := by
  induction fuel generalizing s with
  | zero => exact hs
  | succ fuel ih =>
      rw [letterLines]
      split_ifs
      · exact nofun
      · have hrest := ih (s := s.drop letterLine) fun b hb => hs b (List.mem_of_mem_drop hb)
        refine List.forall_mem_append.mpr ⟨List.forall_mem_append.mpr ⟨?_, ?_⟩, hrest⟩
        · exact fun b hb => hs b (List.mem_of_mem_take hb)
        · exact List.forall_mem_singleton.mpr hp

/-- What is known of the letters that spell bytes. -/
theorem letters_encode {s : Bytes} {b : UInt8} (hb : b ∈ Base64.encode s) :
    isTame (Char.ofNat b.toNat) = true ∧ b < 0x80 ∧ (b != 0x0A) = true := by
  have h := Base64.forall_mem_encode (s := s)
    (p := fun b => isTame (Char.ofNat b.toNat) && decide (b < 0x80) && b != 0x0A)
    (by decide) (by decide) b hb
  simpa [and_assoc] using h

theorem exists_encode_eq_cons {s : Bytes} (hs : Utf8.chars? s = none) :
    ∃ b code, Base64.encode s = b :: code := by
  fun_cases Base64.encode s with
  | case4 => cases hs
  | _ => exact ⟨_, _, rfl⟩

theorem means_binary {style : Style} {s t : Bytes} (ht : Base64.decode? t = some s) :
    ∃ tag style' t', (Leaf.mk (some (text "binary")) style t).node = .scalar tag style' t' ∧
      Value.ofTagged tag t' = some (.text, s) := by
  refine ⟨Tag.binary, style, t, rfl, ?_⟩
  rw [Value.ofTagged, if_pos (by decide), ht]
  rfl

theorem written_tagged {style : Style} {c : Char} {u : List Char} {t s : Bytes}
    (hc : isStart c = true) (hshown : ∀ x ∈ c :: u, isBlockChar x = true)
    (hreads : Reads column (c :: u) [.scalar style t]) (ht : Base64.decode? t = some s) :
    Written column ('!' :: '!' :: ("binary".toList ++ ' ' :: c :: u),
      ⟨some (text "binary"), style, t⟩) .text s := by
  refine ⟨⟨_, _, rfl, rfl⟩, ?_, reads_tagged (by decide) ?_ hc hreads, means_binary ht⟩
  · simp only [List.forall_mem_cons, List.forall_mem_append] at hshown ⊢
    refine ⟨rfl, rfl, ?_, rfl, hshown⟩
    exact List.all_eq_true.mp (by decide)
  · exact List.all_eq_true.mp (by decide)

/-- Lines of letters start with the first letter. -/
theorem exists_letterLines_eq_cons (b : UInt8) (s : Bytes) :
    ∃ t, letterLines (b :: s).length (b :: s) = b :: t := by
  rw [List.length_cons, letterLines, if_neg (by simp), letterLine, List.take_succ_cons]
  exact ⟨_, rfl⟩

/-- Few letters stand on the line of their tag. -/
theorem written_letters {b : UInt8} {code s : Bytes}
    (hletters : ∀ x ∈ b :: code, isTame (Char.ofNat x.toNat) = true ∧ x < 0x80)
    (hdecode : Base64.decode? (b :: code) = some s) :
    Written column ('!' :: '!' :: ("binary".toList ++ ' ' :: (letters (b :: code) ++ ['\n'])),
      ⟨some (text "binary"), .plain, b :: code⟩) .text s := by
  have hbare : Bare (letters (b :: code)) := bare_of_isTame fun c hc => by
    obtain ⟨x, hx, rfl⟩ := List.mem_map.mp hc
    exact (hletters x hx).1
  have hreads : Reads column (letters (b :: code) ++ ['\n'])
      [.scalar .plain (Utf8.ofChars (letters (b :: code)))] := hbare.reads
  rw [ofChars_letters fun x hx => (hletters x hx).2] at hreads
  have hshown : ∀ x ∈ letters (b :: code) ++ ['\n'], isBlockChar x = true := by
    refine List.forall_mem_append.mpr ⟨fun x hx => ?_, List.forall_mem_singleton.mpr rfl⟩
    exact isBlockChar_of_isPrintable (hbare.printable x hx).1
  exact written_tagged hbare.isStart_head hshown hreads hdecode

/-- Many letters stand in a block, on lines of their own. -/
theorem written_letterLines (hstep : 1 ≤ step ∧ step ≤ 9) {b : UInt8} {lines s : Bytes}
    (hfirst : isTame (Char.ofNat b.toNat) = true)
    (hletters : ∀ x ∈ b :: lines, isBlockChar (Char.ofNat x.toNat) = true ∧ x < 0x80)
    (hdecode : Base64.decode? (b :: lines) = some s) :
    Written column
      ('!' :: '!' :: ("binary".toList ++ ' ' :: blockChars step column (letters (b :: lines))),
        ⟨some (text "binary"), .literal, b :: lines⟩) .text s := by
  obtain ⟨-, hword, -⟩ := isTame_iff.mp hfirst
  have htab : Char.ofNat b.toNat ≠ '\t' := by
    intro h
    rw [h] at hword
    cases hword
  have hshown : ∀ c ∈ letters (b :: lines), isBlockChar c = true := fun c hc => by
    obtain ⟨x, hx, rfl⟩ := List.mem_map.mp hc
    exact (hletters x hx).1
  have hreads : Reads column (blockChars step column (letters (b :: lines)))
      [.scalar .literal (Utf8.ofChars (letters (b :: lines)))] :=
    reads_blockChars hstep hshown (isBreak_of_endsWord hword) htab
  rw [ofChars_letters fun x hx => (hletters x hx).2] at hreads
  exact written_tagged rfl (isBlockChar_blockChars hstep hshown) hreads hdecode

/-- Bytes that are no characters are written as letters behind a tag. -/
theorem written_binary (hstep : 1 ≤ step ∧ step ≤ 9) {s : Bytes} (hs : Utf8.chars? s = none) :
    Written column (spell step column s) .text s := by
  obtain ⟨b, code, hcode⟩ := exists_encode_eq_cons hs
  have hletters : ∀ x ∈ Base64.encode s, isTame (Char.ofNat x.toNat) = true ∧ x < 0x80 ∧
      (x != 0x0A) = true := fun x => letters_encode
  have hdecode := fun t => Base64.decode?_of_filter (s := s) (t := t)
  unfold spell
  rw [hs]
  dsimp only
  rw [hcode] at hletters hdecode ⊢
  split_ifs
  · have hfilter : (b :: code).filter (· != 0x0A) = b :: code :=
      List.filter_eq_self.mpr fun x hx => (hletters x hx).2.2
    exact written_letters (fun x hx => ⟨(hletters x hx).1, (hletters x hx).2.1⟩)
      (hdecode _ hfilter)
  · obtain ⟨lines, hlines⟩ := exists_letterLines_eq_cons b code
    have hchars : ∀ x ∈ letterLines (b :: code).length (b :: code),
        isBlockChar (Char.ofNat x.toNat) = true ∧ x < 0x80 := by
      refine forall_mem_letterLines (by decide) (fun x hx => ?_) _
      obtain ⟨htame, hascii, -⟩ := hletters x hx
      exact ⟨isBlockChar_of_isTame htame, hascii⟩
    -- the breaks between the lines are passed over when the letters are decoded
    have hfilter := filter_letterLines (fun x hx => (hletters x hx).2.2)
      (Nat.le_refl (b :: code).length)
    rw [hlines] at hchars hfilter ⊢
    exact written_letterLines hstep (hletters b List.mem_cons_self).1 hchars (hdecode _ hfilter)

/-! ## All texts -/

/-- A text reads back as it was written, unless it is written as a block that starts with a line
break, which ends the line of the marks, or with a tab, which is taken for indentation. -/
def survives (s : Bytes) : Bool :=
  match Utf8.chars? s with
  | none => true
  | some cs =>
    !(cs.contains '\n' && (Look.ofChars cs).allowsBlock &&
      (isBreak (cs.headD ' ') || cs.head? == some '\t'))

/-- A text with a line break has a first character. -/
theorem exists_cons_of_survives {s : Bytes} (hs : survives s = true) {cs : List Char}
    (hcs : Utf8.chars? s = some cs) (hbreak : '\n' ∈ cs)
    (hblock : (Look.ofChars cs).allowsBlock = true) :
    ∃ c u, cs = c :: u ∧ isBreak c = false ∧ c ≠ '\t' := by
  obtain ⟨c, u, rfl⟩ := List.exists_cons_of_ne_nil (List.ne_nil_of_mem hbreak)
  have hnewline : (c :: u).contains '\n' = true := List.contains_iff_mem.mpr hbreak
  rw [survives, hcs] at hs
  dsimp only at hs
  rw [hnewline, hblock] at hs
  simpa using hs

theorem ofPlain_of_not_isAmbiguous {s : Bytes} (h : ¬ isAmbiguous s = true) :
    Value.ofPlain s = .text := by
  simp only [isAmbiguous, Bool.or_eq_true, not_or, bne_iff_ne, not_not] at h
  exact h.1.1.1

/-- A text that survives is read back from its spelling. -/
theorem written_spell (hstep : 1 ≤ step ∧ step ≤ 9) {s : Bytes} (hs : survives s = true) :
    Written column (spell step column s) .text s := by
  cases hcs : Utf8.chars? s with
  | none => exact written_binary hstep hcs
  | some cs =>
      obtain rfl := Utf8.eq_ofChars_of_chars? hcs
      unfold spell
      rw [hcs]
      dsimp only
      split_ifs with hblock hquoted hplain hsingle
      · rw [Bool.and_eq_true, List.contains_iff_mem] at hblock
        obtain ⟨c, u, rfl, hbreak, htab⟩ := exists_cons_of_survives hs hcs hblock.1 hblock.2
        have hlook := hblock.2
        simp only [Look.allowsBlock, Bool.not_eq_true', Bool.or_eq_false_iff] at hlook
        exact written_block hstep (isBlockChar_of_special hlook.2) hbreak htab
      · exact written_double cs
      · rw [Bool.or_eq_true, not_or] at hquoted
        have hvalue := ofPlain_of_not_isAmbiguous hquoted.2
        have hne : cs ≠ [] := by
          rintro rfl
          cases hvalue
        have hwritten : Written column _ _ _ := written_plain hne (bare_of_allowsPlain hplain)
        rwa [hvalue] at hwritten
      · rw [Bool.or_eq_true, not_or, List.contains_iff_mem] at hquoted
        simp only [Look.allowsSingle, Bool.not_eq_true', Bool.or_eq_false_iff] at hsingle
        obtain ⟨⟨⟨hbreak, hspace⟩, htabs⟩, hspecial⟩ := hsingle
        refine written_single (by omega) (fun c hc => ⟨?_, fun heq => ?_⟩) hbreak hspace
        · exact isPrintable_of_tabs htabs hspecial c hc
        · exact hquoted.1 (heq ▸ hc)
      · exact written_double cs

/-- What is printed for a text is its spelling. -/
theorem ofChars_spell (hstep : 1 ≤ step ∧ step ≤ 9) {s : Bytes} (hs : survives s = true) :
    Utf8.ofChars (spell step column s).1 = printScalar step column s := by
  cases hcs : Utf8.chars? s with
  | none =>
      have htag : ∀ u, Utf8.ofChars ('!' :: '!' :: ("binary".toList ++ ' ' :: u)) =
          text "!!binary " ++ Utf8.ofChars u := fun u => rfl
      have hletters : ∀ b ∈ Base64.encode s, isTame (Char.ofNat b.toNat) = true ∧ b < 0x80 ∧
          (b != 0x0A) = true := fun b => letters_encode
      unfold spell printScalar
      rw [hcs]
      dsimp only
      unfold printBinary
      dsimp only
      split_ifs with hshort
      · rw [htag, Utf8.ofChars_append, ofChars_letters fun x hx => (hletters x hx).2.1]
        rfl
      · obtain ⟨b, code, hcode⟩ := exists_encode_eq_cons hcs
        obtain ⟨lines, hlines⟩ := exists_letterLines_eq_cons b code
        rw [hcode] at hletters ⊢
        obtain ⟨-, hword, -⟩ := isTame_iff.mp (hletters b List.mem_cons_self).1
        rw [htag, hlines]
        exact congrArg (text "!!binary " ++ ·)
          (ofChars_blockChars hstep column (isBreak_of_endsWord hword))
  | some cs =>
      have htext := Utf8.eq_ofChars_of_chars? hcs
      unfold spell printScalar
      rw [hcs]
      dsimp only
      split_ifs with hblock hquoted hplain hsingle
      · rw [Bool.and_eq_true, List.contains_iff_mem] at hblock
        obtain ⟨c, u, rfl, hbreak, -⟩ := exists_cons_of_survives hs hcs hblock.1 hblock.2
        exact ofChars_blockChars hstep column hbreak
      · exact ofChars_doubleChars cs
      · rw [Utf8.ofChars_append, ← htext]
        rfl
      · rw [singleChars, singleQuoted, singleText_eq]
        simp only [Utf8.ofChars_cons, Utf8.ofChars_append, List.append_assoc]
        rfl
      · exact ofChars_doubleChars cs

/-! ## Numbers and truth values -/

/-- No word with a fixed meaning starts with a digit. -/
theorem fixed?_digits {b : UInt8} {s : Bytes} (hb : Integer.isDigit b = true) :
    fixed? (b :: s) = none := by
  have hwords : ∀ ws : List Bytes, ws.all (fun w => !(w.head?.map Integer.isDigit).getD false) = true →
      ws.contains (b :: s) = false := by
    intro ws hws
    rw [List.contains_eq_mem, decide_eq_false_iff_not]
    intro hmem
    have hhead := List.all_eq_true.mp hws _ hmem
    rw [List.head?_cons, Option.map_some, Option.getD_some, hb] at hhead
    cases hhead
  rw [fixed?, hwords nulls (by decide), hwords trues (by decide), hwords falses (by decide),
    hwords infinities (by decide), hwords negativeInfinities (by decide),
    hwords notNumbers (by decide)]
  rfl

/-- Digits alone are no date. -/
theorem isDate_digits {s : Bytes} (hs : ∀ b ∈ s, Integer.isDigit b = true) : isDate s = false := by
  have hyear : s.takeWhile Integer.isDigit = s := List.takeWhile_eq_self_iff.mpr hs
  have hdate : date? s = none := by
    unfold date?
    dsimp only
    rw [hyear]
    split_ifs with hlength
    · rfl
    · have hshort := bne_eq_false_iff_eq.mp (Bool.of_not_eq_true hlength)
      have hdrop : s.drop 4 = [] := List.drop_eq_nil_of_le (by simpa using hshort.le)
      rw [hdrop]
      rfl
  rw [isDate, hdate]

theorem ofPlain_ofNat {n : Nat} (hpos : 0 < n) (hlt : n < Nat.pow 2 63) :
    Value.ofPlain (Bytes.ofNat n) = .int n := by
  obtain ⟨b, s, hcons, hb, -⟩ := Bytes.exists_ofNat_eq_cons hpos
  have hdigits : ∀ x ∈ b :: s, Integer.isDigit x = true := by
    rw [← hcons]
    exact Bytes.forall_mem_ofNat (by decide) n
  have hparse := Integer.parse_ofNat hpos hlt
  have hplain : (b :: s).filter (fun b => b != Integer.underscore) = b :: s := by
    refine List.filter_eq_self.mpr fun x hx => ?_
    have h := hdigits x hx
    refine bne_iff_ne.mpr ?_
    rintro rfl
    cases h
  have hnumber : number? (b :: s) = some (.int n) := by
    rw [hcons] at hparse
    unfold number? int?
    rw [hplain]
    dsimp only
    rw [hparse]
  rw [hcons, Value.ofPlain, fixed?_digits hb]
  dsimp only
  rw [hb, Bool.true_or, Bool.true_or, if_pos rfl, isDate_digits hdigits, if_neg Bool.false_ne_true,
    hnumber]
  rfl

theorem ofChars_digits (n : Nat) : Utf8.ofChars (Nat.toDigits 10 n) = Bytes.ofNat n := by
  have hbyte := Bytes.forall_mem_toDigits (p := fun c => String.utf8EncodeChar c == [c.toUInt8])
    (by decide) n
  rw [Utf8.ofChars, Bytes.ofNat, List.map_eq_flatMap]
  exact List.flatMap_congr fun c hc => beq_iff_eq.mp (hbyte c hc)

theorem written_number {n : Nat} (hpos : 0 < n) (hlt : n < Nat.pow 2 63) :
    Written column (Nat.toDigits 10 n ++ ['\n'], ⟨none, .plain, Bytes.ofNat n⟩) (.int n)
      (Bytes.ofNat n) := by
  have hbare : Bare (Nat.toDigits 10 n) :=
    bare_of_isTame (Bytes.forall_mem_toDigits (p := isTame) (by decide) n)
  have h : Written column _ _ _ := written_plain Nat.toDigits_ne_nil hbare
  rwa [ofChars_digits, ofPlain_ofNat hpos hlt] at h

def boolChars (b : Bool) : List Char := (if b then "true" else "false").toList

theorem written_bool (b : Bool) :
    Written column (boolChars b ++ ['\n'], ⟨none, .plain, Utf8.ofChars (boolChars b)⟩) (.bool b)
      (Utf8.ofChars (boolChars b)) := by
  have hbare : Bare (boolChars b) := bare_of_isTame (List.all_eq_true.mp (by cases b <;> decide))
  have hvalue : Value.ofPlain (Utf8.ofChars (boolChars b)) = .bool b := by cases b <;> decide
  have h : Written column _ _ _ := written_plain (by cases b <;> decide) hbare
  rwa [hvalue] at h

end Cascade.Yaml
