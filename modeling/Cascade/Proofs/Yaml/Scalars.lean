import Mathlib.Tactic.IntervalCases
import Cascade.Proofs.Text.Validity
import Cascade.Proofs.Yaml.Outline
import Cascade.Proofs.Yaml.Values

/-!
# Scalars between quotes and in blocks

Every text is written in one of a few ways: plain, between quotes, as a block of lines, or as
letters if its bytes are no text. Between quotes it reads as it was written.
-/

namespace Cascade

namespace Utf8

theorem ofChars_append (a b : List Char) : ofChars (a ++ b) = ofChars a ++ ofChars b :=
  List.flatMap_append

theorem ofChars_cons (c : Char) (cs : List Char) :
    ofChars (c :: cs) = String.utf8EncodeChar c ++ ofChars cs := List.flatMap_cons

theorem ofChars_flatMap (spelling : Char → List Char) (cs : List Char) :
    ofChars (cs.flatMap spelling) = cs.flatMap fun c => ofChars (spelling c) :=
  List.flatMap_assoc

theorem ofChars_spaces (k : Nat) : ofChars (List.replicate k ' ') = List.replicate k 0x20 := by
  rw [ofChars, List.flatMap_replicate]
  exact List.flatten_replicate_singleton

theorem eq_ofChars_of_chars? {s : Bytes} {cs : List Char} (h : chars? s = some cs) :
    s = ofChars cs := by
  rw [← spell_symbols s]
  unfold chars? at h
  generalize symbols s = ys at h
  induction ys generalizing cs with
  | nil =>
      obtain rfl : [] = cs := by simpa using h
      rfl
  | cons y ys ih =>
      rw [List.mapM_cons] at h
      cases y with
      | stray b => cases h
      | char c =>
          obtain ⟨cs', hcs', rfl⟩ : ∃ cs', ys.mapM _ = some cs' ∧ c :: cs' = cs := by
            simpa [bind, Option.bind_eq_some_iff] using h
          rw [spell_cons, ih hcs', ofChars_cons]
          rfl

end Utf8

namespace Yaml

open Reading

/-! ## How texts are written -/

def doubleChars (cs : List Char) : List Char :=
  mark false :: (cs.flatMap (doubleSpelling (cs.head? == some orderMark)) ++ [mark false] ++ ['\n'])

def singleChars (indent : Nat) (cs : List Char) : List Char :=
  mark true :: (indented singleSpelling indent false cs ++ [mark true] ++ ['\n'])

def chompOf (cs : List Char) : Chomp :=
  match cs.reverse with
  | [] => .strip
  | [c] => if isBreak c then .keep else .strip
  | c :: d :: _ => if !isBreak c then .strip else if isBreak d then .keep else .clip

/-- The lines, with an end behind the last one. -/
def ended (cs : List Char) : List Char :=
  if (cs.getLast?.map isBreak).getD false then cs else cs ++ ['\n']

def blockChars (step indent : Nat) (cs : List Char) : List Char :=
  '|' :: ((if cs.head? = some ' ' then some step.digitChar else none).toList ++
    (chompChars (chompOf cs) ++ '\n' :: indented (fun c => [c]) (indent + step) true (ended cs)))

/-- A text as the value of a key, up to the end of its last line, and how that reads. -/
def spell (step indent : Nat) (s : Bytes) : List Char × Leaf :=
  match Utf8.chars? s with
  | none =>
    let code := Base64.encode s
    if code.length < letterLine then
      ('!' :: '!' :: ("binary".toList ++ ' ' :: (letters code ++ ['\n'])),
        ⟨some (text "binary"), .plain, code⟩)
    else
      let lines := letterLines code.length code
      ('!' :: '!' :: ("binary".toList ++ ' ' :: blockChars step indent (letters lines)),
        ⟨some (text "binary"), .literal, lines⟩)
  | some cs =>
    if cs.contains '\n' && (Look.ofChars cs).allowsBlock then
      (blockChars step indent cs, ⟨none, .literal, s⟩)
    else if cs.contains '\n' || isAmbiguous s then (doubleChars cs, ⟨none, .double, s⟩)
    else if (Look.ofChars cs).allowsPlain then (cs ++ ['\n'], ⟨none, .plain, s⟩)
    else if (Look.ofChars cs).allowsSingle then
      (singleChars (indent + step) cs, ⟨none, .single, s⟩)
    else (doubleChars cs, ⟨none, .double, s⟩)

theorem ofChars_doubleChars (cs : List Char) :
    Utf8.ofChars (doubleChars cs) = doubleQuoted cs ++ text "\n" := by
  have hspelling : ∀ all c, Utf8.ofChars (doubleSpelling all c) =
      if all || needsEscape c then escape c else String.utf8EncodeChar c := by
    intro all c
    unfold doubleSpelling
    split_ifs
    · obtain ⟨u, -, hvisible⟩ := escape_cases c
      refine ofChars_letters fun b hb => ?_
      have h := hvisible b hb
      rw [isVisible, Bool.and_eq_true, decide_eq_true_eq, decide_eq_true_eq] at h
      exact UInt8.lt_of_le_of_lt h.2 (by decide)
    · exact List.append_nil _
  simp only [doubleChars, doubleQuoted, Utf8.ofChars_cons, Utf8.ofChars_append,
    Utf8.ofChars_flatMap, hspelling, List.append_assoc]
  rfl

theorem singleText_eq (indent : Nat) (start : Bool) (cs : List Char) :
    singleText indent start cs = Utf8.ofChars (indented singleSpelling indent start cs) := by
  have hspelling : ∀ c, Utf8.ofChars (singleSpelling c) =
      if c == '\x27' then text "\x27\x27" else String.utf8EncodeChar c := by
    intro c
    unfold singleSpelling
    split_ifs
    · rfl
    · exact List.append_nil _
  induction cs generalizing start with
  | nil => rfl
  | cons c cs ih =>
      rw [singleText, indented]
      by_cases hbreak : isBreak c = true
      · rw [if_pos hbreak, if_pos hbreak, ih, Utf8.ofChars_cons]
      · rw [if_neg hbreak, if_neg hbreak, ih, Utf8.ofChars_append, Utf8.ofChars_append, hspelling]
        cases start
        · rfl
        · rw [if_pos rfl, if_pos rfl, Utf8.ofChars_spaces]

/-- Where a line starts, nothing stands on it yet. -/
theorem blockText_eq {indent : Nat} {start fresh : Bool} (h : start = true → fresh = true)
    (cs : List Char) :
    blockText indent start fresh cs = Utf8.ofChars (indented (fun c => [c]) indent start cs) := by
  induction cs generalizing start fresh with
  | nil => rfl
  | cons c cs ih =>
      rw [blockText, indented]
      by_cases hbreak : isBreak c = true
      · rw [if_pos hbreak, if_pos hbreak, ih fun _ => rfl, Utf8.ofChars_cons]
      · have hinside : blockText indent false false cs = _ := ih fun hstart => absurd hstart Bool.false_ne_true
        have hone : Utf8.ofChars [c] = String.utf8EncodeChar c := List.append_nil _
        rw [if_neg hbreak, if_neg hbreak, hinside, Utf8.ofChars_append, Utf8.ofChars_append, hone]
        cases start
        · rfl
        · rw [if_pos rfl, if_pos rfl, h rfl, if_pos rfl, List.nil_append, Utf8.ofChars_spaces]

theorem blockMarks_eq (step : Nat) (cs : List Char) :
    blockMarks step cs = text "|" ++
      (if cs.headD 'x' == ' ' || isBreak (cs.headD 'x') then Bytes.ofNat step else []) ++
      Utf8.ofChars (chompChars (chompOf cs)) := by
  unfold blockMarks chompOf
  rcases cs.reverse with _ | ⟨c, _ | ⟨d, r⟩⟩
  · rfl
  · dsimp only
    split_ifs <;> rfl
  · dsimp only
    split_ifs <;> rfl

/-- A block whose first line is not empty. -/
theorem ofChars_blockChars {step : Nat} (hstep : 1 ≤ step ∧ step ≤ 9) (indent : Nat) {c : Char}
    {cs : List Char} (hc : isBreak c = false) :
    Utf8.ofChars (blockChars step indent (c :: cs)) = block step indent (c :: cs) := by
  have hdigit : Utf8.ofChars [step.digitChar] = Bytes.ofNat step := by
    obtain ⟨hlow, hhigh⟩ := hstep
    interval_cases step <;> rfl
  have hindicator : Utf8.ofChars (if (c :: cs).head? = some ' ' then some step.digitChar
      else none).toList = if c == ' ' || isBreak c then Bytes.ofNat step else [] := by
    rw [List.head?_cons, hc, Bool.or_false]
    by_cases hspace : c = ' '
    · rw [if_pos (congrArg some hspace), if_pos (beq_iff_eq.mpr hspace)]
      exact hdigit
    · rw [if_neg fun h => hspace (Option.some.inj h), if_neg fun h => hspace (beq_iff_eq.mp h)]
      rfl
  have hlines : blockText (indent + step) true false (c :: cs) =
      text "\n" ++ Utf8.ofChars (indented (fun c => [c]) (indent + step) true (c :: cs)) := by
    have hnot : ¬ isBreak c = true := ne_true_of_eq_false hc
    rw [← blockText_eq fun _ => rfl, blockText, blockText, if_neg hnot, if_neg hnot]
    rfl
  have hended : Utf8.ofChars (indented (fun c => [c]) (indent + step) true (ended (c :: cs))) =
      Utf8.ofChars (indented (fun c => [c]) (indent + step) true (c :: cs)) ++
        if ((c :: cs).getLast?.map isBreak).getD false then [] else text "\n" := by
    unfold ended
    split_ifs
    · exact (List.append_nil _).symm
    · rw [indented_concat rfl, Utf8.ofChars_append]
      rfl
  rw [blockChars, block, blockMarks_eq, hlines, Utf8.ofChars_cons, Utf8.ofChars_append,
    Utf8.ofChars_append, Utf8.ofChars_cons, hindicator, hended]
  simp only [List.headD_cons, List.append_assoc]
  rfl

/-! ## What they read as -/

structure Written (column : Nat) (p : List Char × Leaf) (v : Value) (x : Bytes) : Prop where
  start : ∃ c u, p.1 = c :: u ∧ isStart c = true
  shown : ∀ c ∈ p.1, isBlockChar c = true
  reads : Reads column p.1 p.2.tokens
  means : ∃ tag style t, p.2.node = .scalar tag style t ∧ Value.ofTagged tag t = some (v, x)

theorem ofTagged_text (s : Bytes) : Value.ofTagged Tag.text s = some (.text, s) := by
  have hbinary : ¬ (Tag.text == Tag.binary) = true := by decide
  have htelling : ¬ Tag.telling.contains Tag.text = true := by decide
  rw [Value.ofTagged, if_neg hbinary, if_neg htelling]

/-- A scalar that is not plain is a text. -/
theorem means_text {style : Style} (hstyle : style ≠ .plain) (s : Bytes) :
    ∃ tag style' t, (Leaf.mk none style s).node = .scalar tag style' t ∧
      Value.ofTagged tag t = some (.text, s) := by
  refine ⟨Tag.text, style, s, ?_, ofTagged_text s⟩
  exact if_pos (bne_iff_ne.mpr hstyle)

/-- A plain one means what it looks like. -/
theorem ofTagged_tag (s : Bytes) :
    Value.ofTagged (Value.ofPlain s).tag s = some (Value.ofPlain s, s) := by
  unfold Value.ofTagged
  cases Value.ofPlain s <;> rfl

theorem means_plain (s : Bytes) :
    ∃ tag style t, (Leaf.mk none .plain s).node = .scalar tag style t ∧
      Value.ofTagged tag t = some (Value.ofPlain s, s) := by
  by_cases hkey : (s == text "<<") = true
  · obtain rfl := beq_iff_eq.mp hkey
    exact ⟨Tag.merge, .plain, text "<<", rfl, rfl⟩
  · exact ⟨_, _, _, if_neg hkey, ofTagged_tag s⟩

theorem isBlockChar_of_isPrintable {c : Char} (hc : isPrintable c = true) : isBlockChar c = true := by
  rw [isBlockChar, hc, Bool.true_or]

variable {column : Nat}

theorem written_double (cs : List Char) :
    Written column (doubleChars cs, ⟨none, .double, Utf8.ofChars cs⟩) .text (Utf8.ofChars cs) := by
  refine ⟨⟨_, _, rfl, rfl⟩, ?_, reads_quoted (segmented_double _ cs), means_text (by decide) _⟩
  have hspelling : ∀ all, ∀ c ∈ cs.flatMap (doubleSpelling all), isBlockChar c = true := by
    intro all x hx
    obtain ⟨c, -, hc⟩ := List.mem_flatMap.mp hx
    unfold doubleSpelling at hc
    split_ifs at hc with hesc
    · obtain ⟨u, -, hvisible⟩ := escape_cases c
      exact isBlockChar_of_isPrintable (isPrintable_of_mem_letters hvisible hc).1
    · obtain rfl := List.mem_singleton.mp hc
      rw [Bool.not_eq_true, Bool.or_eq_false_iff] at hesc
      exact isBlockChar_of_isPrintable (needsEscape_eq_false_iff.mp hesc.2).1
  simp only [doubleChars, List.forall_mem_cons, List.forall_mem_append]
  exact ⟨rfl, ⟨hspelling _, rfl, nofun⟩, rfl, nofun⟩

/-- Characters of an indented text. -/
theorem forall_mem_indented {p : Char → Bool} {spelling : Char → List Char} (hspace : p ' ' = true)
    {cs : List Char} (hcs : ∀ c ∈ cs, p c = true ∧ ∀ x ∈ spelling c, p x = true) (indent : Nat)
    (start : Bool) : ∀ x ∈ indented spelling indent start cs, p x = true := by
  induction cs generalizing start with
  | nil => exact List.forall_mem_nil _
  | cons c cs ih =>
      obtain ⟨⟨hc, hspelling⟩, hcs⟩ := List.forall_mem_cons.mp hcs
      rw [indented]
      by_cases hbreak : isBreak c = true
      · rw [if_pos hbreak]
        exact List.forall_mem_cons.mpr ⟨hc, ih hcs true⟩
      · rw [if_neg hbreak]
        refine List.forall_mem_append.mpr ⟨List.forall_mem_append.mpr ⟨?_, hspelling⟩, ih hcs false⟩
        cases start with
        | false => exact List.forall_mem_nil _
        | true => exact fun x hx => List.eq_of_mem_replicate hx ▸ hspace

theorem written_single {indent : Nat} (hindent : 0 < indent) {cs : List Char}
    (hprint : ∀ c ∈ cs, isPrintable c = true ∧ c ≠ '\n')
    (hbreak : anyPair (fun a b => isBreak a && b == ' ') cs = false)
    (hspace : anyPair (fun a b => a == ' ' && isBreak b) cs = false) :
    Written column (singleChars indent cs, ⟨none, .single, Utf8.ofChars cs⟩) .text
      (Utf8.ofChars cs) := by
  refine ⟨⟨_, _, rfl, rfl⟩, ?_, reads_quoted (segmented_single hindent hprint hbreak hspace),
    means_text (by decide) _⟩
  have hspelling : ∀ c ∈ cs, isBlockChar c = true ∧ ∀ x ∈ singleSpelling c, isBlockChar x = true := by
    intro c hc
    have h := isBlockChar_of_isPrintable (hprint c hc).1
    refine ⟨h, ?_⟩
    unfold singleSpelling
    split_ifs
    · exact List.forall_mem_cons.mpr ⟨rfl, List.forall_mem_singleton.mpr rfl⟩
    · exact List.forall_mem_singleton.mpr h
  simp only [singleChars, List.forall_mem_cons, List.forall_mem_append]
  exact ⟨rfl, ⟨forall_mem_indented rfl hspelling _ _, rfl, nofun⟩, rfl, nofun⟩

end Yaml

end Cascade
