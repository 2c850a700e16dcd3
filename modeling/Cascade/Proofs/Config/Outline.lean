import Cascade.Config.Decode
import Cascade.Config.Dump
import Cascade.Proofs.Yaml.Build
import Cascade.Proofs.Yaml.Texts

/-!
# A configuration as an outline

A configuration is written line by line, and its lines are an outline. So a configuration that is
written reads as the sections and fields that it has.
-/

namespace Cascade

theorem Utf8.ofChars_toList (s : String) : ofChars s.toList = text s := by
  rw [text, String.toUTF8, ← String.utf8Encode_toList, List.utf8Encode, ofChars]
  simp

namespace Yaml

namespace Line

theorem ofChars_chars_cons (l : Line) (ls : List Line) :
    Utf8.ofChars (chars (l :: ls)) = List.replicate l.column 0x20 ++ Utf8.ofChars l.key ++
      Cascade.text ":" ++ Utf8.ofChars l.text ++ Utf8.ofChars (chars ls) := by
  rw [chars, Utf8.ofChars_append, Utf8.ofChars_append, Utf8.ofChars_cons, Utf8.ofChars_append,
    Utf8.ofChars_spaces]
  simp only [List.append_assoc]
  rfl

theorem chars_append (ls ls' : List Line) : chars (ls ++ ls') = chars ls ++ chars ls' := by
  induction ls with
  | nil => rfl
  | cons l ls ih => simp only [List.cons_append, chars, ih, List.append_assoc]

/-- All characters may stand in a document. -/
theorem forall_mem_chars {p : Char → Bool} (hspace : p ' ' = true) (hcolon : p ':' = true)
    (hbreak : p '\n' = true) {ls : List Line}
    (hls : ∀ l ∈ ls, (∀ c ∈ l.key, p c = true) ∧ ∀ v ∈ l.value, ∀ c ∈ v.1, p c = true) :
    ∀ c ∈ chars ls, p c = true := by
  induction ls with
  | nil => exact nofun
  | cons l ls ih =>
      obtain ⟨⟨hkey, hvalue⟩, hls⟩ := List.forall_mem_cons.mp hls
      have htext : ∀ c ∈ l.text, p c = true := by
        unfold text
        cases h : l.value with
        | none => exact List.forall_mem_singleton.mpr hbreak
        | some v => exact List.forall_mem_cons.mpr ⟨hspace, hvalue v h⟩
      simp only [chars, List.forall_mem_append, List.forall_mem_cons]
      exact ⟨fun c hc => List.eq_of_mem_replicate hc ▸ hspace, hkey, hcolon, htext, ih hls⟩

end Line

end Yaml

namespace Config

open Yaml (Outline Leaf Line spell survives)
open Yaml.Reading (isBlockChar isLetter)

/-! ## The outline -/

def numeral (n : Int) : List Char × Leaf :=
  (Nat.toDigits 10 n.toNat ++ ['\n'], ⟨none, .plain, Bytes.ofNat n.toNat⟩)

def truth (b : Bool) : List Char × Leaf :=
  (Yaml.boolChars b ++ ['\n'], ⟨none, .plain, Utf8.ofChars (Yaml.boolChars b)⟩)

def given (name : String) (p : List Char × Leaf) (rest : Outline) : Outline :=
  .value name.toList p.1 p.2 rest

def optional (depth : Nat) (name : String) (s : Bytes) (rest : Outline) : Outline :=
  if s.isEmpty then rest else given name (spell step (depth * step) s) rest

def part (name : String) (inner rest : Outline) : Outline := .part name.toList inner rest

def channelOutline (c : Channel) : Outline :=
  given "level" (spell step (2 * step) c.level) <|
  optional 2 "destination" c.destination <|
  optional 2 "mode" c.mode .nil

def outline (c : Config) : Outline :=
  given "version" (numeral c.version) <|
  part "input" (given "encoding" (spell step (1 * step) c.encoding) .nil) <|
  part "analysis" (given "top" (numeral c.top) .nil) <|
  part "dedupe" (given "backup" (truth c.backup) .nil) <|
  part "logging"
    (part "file" (channelOutline c.file) <| part "console" (channelOutline c.console) .nil) <|
  part "reporting" (given "destination" (spell step (1 * step) c.report) .nil) .nil

def texts (c : Config) : List Bytes :=
  [c.encoding, c.file.level, c.file.destination, c.file.mode, c.console.level,
    c.console.destination, c.console.mode, c.report]

/-- A configuration that can be read back: its numbers are positive and fit in 64 bits, and none of
its texts gets lost. -/
structure Sturdy (c : Config) : Prop where
  version : 0 < c.version ∧ c.version < Laying.bound
  top : 0 < c.top ∧ c.top < Laying.bound
  texts : ∀ s ∈ c.texts, survives s = true

/-! ## Its bytes -/

def bytes (depth : Nat) (o : Outline) : Bytes :=
  Utf8.ofChars (Line.chars (o.lines step (depth * step)))

theorem bytes_given (depth : Nat) (name : String) (p : List Char × Leaf) (rest : Outline) :
    bytes depth (given name p rest) =
      key depth name ++ text " " ++ Utf8.ofChars p.1 ++ bytes depth rest := by
  rw [bytes, given, Outline.lines, Line.ofChars_chars_cons, Utf8.ofChars_toList, Line.text,
    Option.elim_some, Utf8.ofChars_cons, key]
  simp only [List.append_assoc]
  rfl

theorem bytes_part (depth : Nat) (name : String) (inner rest : Outline) :
    bytes depth (part name inner rest) =
      heading depth name ++ bytes (depth + 1) inner ++ bytes depth rest := by
  rw [bytes, part, Outline.lines, Line.ofChars_chars_cons, Utf8.ofChars_toList, Line.text,
    Option.elim_none, Line.chars_append, Utf8.ofChars_append, heading, key, ← Nat.succ_mul]
  simp only [List.append_assoc]
  rfl

theorem step_bounds : 1 ≤ step ∧ step ≤ 9 := by decide

theorem bytes_text {depth : Nat} {name : String} {s : Bytes} (hs : survives s = true)
    (rest : Outline) :
    bytes depth (given name (spell step (depth * step) s) rest) =
      textLine depth name s ++ bytes depth rest := by
  rw [bytes_given, Yaml.ofChars_spell step_bounds hs]
  rfl

theorem bytes_optional {depth : Nat} {name : String} {s : Bytes} (hs : survives s = true)
    (rest : Outline) :
    bytes depth (optional depth name s rest) = optionalLine depth name s ++ bytes depth rest := by
  unfold optional optionalLine
  split_ifs
  · rfl
  · exact bytes_text hs rest

theorem bytes_number {depth : Nat} {name : String} {n : Int} (hn : 0 < n) (rest : Outline) :
    bytes depth (given name (numeral n) rest) = numberLine depth name n ++ bytes depth rest := by
  obtain ⟨m, rfl⟩ := Int.eq_ofNat_of_zero_le hn.le
  rw [bytes_given, numeral, Utf8.ofChars_append, Int.toNat_natCast, Yaml.ofChars_digits]
  simp only [numberLine, List.append_assoc]
  rfl

theorem bytes_bool {depth : Nat} {name : String} (b : Bool) (rest : Outline) :
    bytes depth (given name (truth b) rest) = boolLine depth name b ++ bytes depth rest := by
  rw [bytes_given]
  cases b <;> simp only [boolLine, List.append_assoc] <;> rfl

theorem bytes_channel {c : Channel} (hlevel : survives c.level = true)
    (hdestination : survives c.destination = true) (hmode : survives c.mode = true) :
    bytes 2 (channelOutline c) = textLine 2 "level" c.level ++
      optionalLine 2 "destination" c.destination ++ optionalLine 2 "mode" c.mode := by
  rw [channelOutline, bytes_text hlevel, bytes_optional hdestination, bytes_optional hmode]
  simp only [List.append_assoc]
  exact congrArg _ (congrArg _ (List.append_nil _))

theorem bytes_outline {c : Config} (hc : c.Sturdy) : bytes 0 (outline c) = c.dump := by
  obtain ⟨⟨hversion, -⟩, ⟨htop, -⟩, htexts⟩ := hc
  simp only [texts, List.forall_mem_cons] at htexts
  obtain ⟨hencoding, hlevel, hdestination, hmode, hlevel', hdestination', hmode', hreport, -⟩ := htexts
  have hnil : ∀ depth, bytes depth .nil = [] := fun _ => rfl
  rw [outline, bytes_number hversion]
  simp only [bytes_part, Nat.zero_add, bytes_text hencoding, bytes_number htop, bytes_bool,
    bytes_channel hlevel hdestination hmode, bytes_channel hlevel' hdestination' hmode',
    bytes_text hreport, hnil, dump, channelLines, List.append_assoc, List.append_nil]

/-! ## Reading it -/

/-- At its depth, an outline can be read, and only characters of documents stand in it. -/
structure Legible (depth : Nat) (o : Outline) : Prop where
  sound : o.Sound step (depth * step)
  shown : ∀ l ∈ o.lines step (depth * step),
    (∀ c ∈ l.key, isBlockChar c = true) ∧ ∀ v ∈ l.value, ∀ c ∈ v.1, isBlockChar c = true

def isKey (name : String) : Bool :=
  !name.toList.isEmpty && name.toList.all isLetter && name.toList.length ≤ Yaml.keyLimit

theorem isKey_iff {name : String} : isKey name = true ↔ name.toList ≠ [] ∧
    (∀ c ∈ name.toList, isLetter c = true) ∧ name.toList.length ≤ Yaml.keyLimit := by
  simp [isKey, and_assoc]

theorem isBlockChar_of_isKey {name : String} (hname : isKey name = true) :
    ∀ c ∈ name.toList, isBlockChar c = true := fun c hc =>
  Yaml.Reading.forall_letter (p := isBlockChar) (by decide) ((isKey_iff.mp hname).2.1 c hc)

theorem legible_nil (depth : Nat) : Legible depth .nil := ⟨trivial, nofun⟩

theorem Legible.given {depth : Nat} {name : String} {p : List Char × Leaf} {v : Yaml.Value}
    {x : Bytes} {rest : Outline} (h : Legible depth rest) (hname : isKey name = true)
    (hp : Yaml.Written (depth * step) p v x) : Legible depth (given name p rest) := by
  obtain ⟨hne, hletter, hlength⟩ := isKey_iff.mp hname
  refine ⟨⟨⟨hne, hletter, hlength, ?_, ?_⟩, h.sound⟩, ?_⟩
  · rintro _ ⟨⟩
    exact hp.start
  · rintro _ ⟨⟩
    exact hp.reads
  · refine List.forall_mem_cons.mpr ⟨⟨isBlockChar_of_isKey hname, ?_⟩, h.shown⟩
    rintro _ ⟨⟩
    exact hp.shown

theorem Legible.part {depth : Nat} {name : String} {inner rest : Outline} (h : Legible depth rest)
    (hname : isKey name = true) (hinner : Legible (depth + 1) inner) (hne : inner ≠ .nil) :
    Legible depth (part name inner rest) := by
  obtain ⟨hname', hletter, hlength⟩ := isKey_iff.mp hname
  obtain ⟨hsound, hshown⟩ := hinner
  rw [Nat.succ_mul] at hsound hshown
  refine ⟨⟨⟨hname', hletter, hlength, nofun, nofun⟩, hne, hsound, h.sound⟩, ?_⟩
  refine List.forall_mem_cons.mpr ⟨⟨isBlockChar_of_isKey hname, nofun⟩, ?_⟩
  exact List.forall_mem_append.mpr ⟨hshown, h.shown⟩

theorem written_text {depth : Nat} {s : Bytes} (hs : survives s = true) :
    Yaml.Written (depth * step) (spell step (depth * step) s) .text s :=
  Yaml.written_spell step_bounds hs

theorem written_numeral {column : Nat} {n : Int} (hn : 0 < n ∧ n < Laying.bound) :
    Yaml.Written column (numeral n) (.int n) (Bytes.ofNat n.toNat) := by
  obtain ⟨m, rfl⟩ := Int.eq_ofNat_of_zero_le hn.1.le
  have hlt : m < Nat.pow 2 63 := Int.ofNat_lt.mp hn.2
  exact Yaml.written_number (Int.natCast_pos.mp hn.1) hlt

theorem Legible.optional {depth : Nat} {name : String} {s : Bytes} {rest : Outline}
    (h : Legible depth rest) (hname : isKey name = true) (hs : survives s = true) :
    Legible depth (optional depth name s rest) := by
  unfold Config.optional
  split_ifs
  · exact h
  · exact h.given hname (written_text hs)

theorem legible_channel {c : Channel} (hlevel : survives c.level = true)
    (hdestination : survives c.destination = true) (hmode : survives c.mode = true) :
    Legible 2 (channelOutline c) :=
  (((legible_nil 2).optional rfl hmode).optional rfl hdestination).given rfl (written_text hlevel)

theorem legible_outline {c : Config} (hc : c.Sturdy) : Legible 0 (outline c) := by
  obtain ⟨hversion, htop, htexts⟩ := hc
  simp only [texts, List.forall_mem_cons] at htexts
  obtain ⟨hencoding, hlevel, hdestination, hmode, hlevel', hdestination', hmode', hreport, -⟩ := htexts
  have hreporting : Legible 1 (given "destination" _ .nil) :=
    (legible_nil 1).given rfl (written_text hreport)
  have hconsole : Legible 1 (part "console" _ .nil) :=
    (legible_nil 1).part rfl (legible_channel hlevel' hdestination' hmode') nofun
  have hlogging : Legible 1 (part "file" _ _) :=
    hconsole.part rfl (legible_channel hlevel hdestination hmode) nofun
  have hdedupe : Legible 1 (given "backup" _ .nil) :=
    (legible_nil 1).given rfl (Yaml.written_bool c.backup)
  have hanalysis : Legible 1 (given "top" _ .nil) :=
    (legible_nil 1).given rfl (written_numeral htop)
  have hinput : Legible 1 (given "encoding" _ .nil) :=
    (legible_nil 1).given rfl (written_text hencoding)
  refine Legible.given ?_ rfl (written_numeral hversion)
  refine .part (.part (.part (.part (.part (legible_nil 0) rfl hreporting nofun) rfl hlogging nofun)
    rfl hdedupe nofun) rfl hanalysis nofun) rfl hinput nofun

theorem isAllowed_of_isBlockChar {c : Char} (hc : isBlockChar c = true) :
    Yaml.isAllowed c = true ∧ c ≠ Yaml.orderMark := by
  have hmark : ¬ isBlockChar Yaml.orderMark = true := by decide
  refine ⟨?_, fun h => hmark (h ▸ hc)⟩
  rw [isBlockChar, Bool.or_eq_true, beq_iff_eq] at hc
  rcases hc with hprint | rfl
  · simp only [Yaml.isPrintable, Yaml.isAllowed, Bool.or_eq_true, Bool.and_eq_true,
      decide_eq_true_eq, beq_iff_eq, bne_iff_ne] at hprint ⊢
    omega
  · rfl

theorem length_lines_channel (c : Channel) (column : Nat) :
    ((channelOutline c).lines step column).length ≤ 3 := by
  unfold channelOutline optional
  split_ifs <;> simp [given, Outline.lines]

/-- A configuration that is written reads as its outline. -/
theorem parse_dump {c : Config} (hc : c.Sturdy) :
    Yaml.Node.parse c.dump = .ok (.mapping (outline c).entries) := by
  obtain ⟨hsound, hshown⟩ := legible_outline hc
  rw [Nat.zero_mul] at hsound hshown
  have hchars : ∀ x ∈ Line.chars ((outline c).lines step 0), isBlockChar x = true :=
    Line.forall_mem_chars rfl rfl rfl hshown
  have hdepth : ((outline c).lines step 0).length ≤ Yaml.depthLimit := by
    have hfile := length_lines_channel c.file (0 + step + step)
    have hconsole := length_lines_channel c.console (0 + step + step)
    simp only [outline, given, part, Outline.lines, List.length_append, List.length_cons,
      List.length_nil, Yaml.depthLimit]
    omega
  have hbytes : Utf8.ofChars (Line.chars ((outline c).lines step 0)) = c.dump := by
    have h := bytes_outline hc
    rwa [bytes, Nat.zero_mul] at h
  rw [← hbytes]
  refine Outline.parse_lines (by decide) hsound (by rintro ⟨⟩) hdepth ?_ ?_ ?_
  · exact fun x hx => (isAllowed_of_isBlockChar (hchars x hx)).1
  · exact fun hmem => (isAllowed_of_isBlockChar (hchars _ hmem)).2 rfl
  · rw [hbytes]
    rfl

end Config

end Cascade
