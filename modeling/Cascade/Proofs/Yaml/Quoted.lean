import Cascade.Proofs.Yaml.Words
import Mathlib.Algebra.Group.Nat.Defs
import Mathlib.Data.List.Forall2

/-!
# Reading quoted scalars

Each character between quotes has a spelling, and what lies between two words reads as it is
written, apart from the indentation behind a line break.
-/

namespace Cascade.Yaml

def letters (s : Bytes) : List Char := s.map fun b => Char.ofNat b.toNat

theorem ofChars_letters {s : Bytes} (hs : ∀ b ∈ s, b < 0x80) : Utf8.ofChars (letters s) = s := by
  induction s with
  | nil => rfl
  | cons b s ih =>
      obtain ⟨hb, hs⟩ := List.forall_mem_cons.mp hs
      rw [letters, List.map_cons, Utf8.ofChars, List.flatMap_cons, Utf8.encode_one hb]
      exact congrArg (b :: ·) (ih hs)

namespace Reading

variable {s : Scan} {t o : List Char} {n f : Nat}

theorem runs_skipMany {w : List Char} (hw : ∀ c ∈ w, isBreak c = false) :
    Runs (skipMany w.length) ⟨s, w ++ t, w.length + n⟩ () ⟨s.beyond w, t, n⟩ := by
  induction w generalizing s with
  | nil =>
      rw [List.length_nil, Nat.zero_add]
      exact runs_pure _ _
  | cons c w ih =>
      obtain ⟨hc, hw⟩ := List.forall_mem_cons.mp hw
      have h := ih (s := s.beyond [c]) hw
      rw [Scan.beyond_beyond] at h
      rw [List.length_cons, Nat.add_right_comm]
      exact (runs_skip hc).bind h

/-! ## Spellings -/

/-- Between quotes, the characters `u` are read as the character `c`. -/
def Spelled (single : Bool) (c : Char) (u : List Char) : Prop :=
  ∀ (s : Scan) (t o : List Char) (f : Nat) (r : List Char × Between) (v : View),
    Runs (quotedWord single f (c :: o)) ⟨s.beyond u, t, 2⟩ r v →
      Runs (quotedWord single (f + 1) o) ⟨s, u ++ t, 2⟩ r v

theorem spelled_self {single : Bool} {c : Char} (hc : endsWord c = false)
    (hsingle : (single && c == '\x27') = false) (hdouble : (!single && c == '\x22') = false)
    (hback : (!single && c == '\\') = false) : Spelled single c [c] := by
  intro s t o f r v h
  refine (runs_look Nat.zero_lt_two).bind ((runs_look Nat.one_lt_two).bind ?_)
  refine runs_if_neg (ne_true_of_eq_false hc) (runs_if_neg (ne_true_of_eq_false hsingle) ?_)
  refine runs_if_neg (ne_true_of_eq_false hdouble) (runs_if_neg (ne_true_of_eq_false hback) ?_)
  exact (runs_skip (isBreak_of_endsWord hc)).bind ((runs_need 2).bind h)

/-- A quote is doubled. -/
theorem spelled_quote : Spelled true '\x27' ['\x27', '\x27'] := by
  intro s t o f r v h
  refine (runs_look Nat.zero_lt_two).bind ((runs_look Nat.one_lt_two).bind ?_)
  refine runs_if_neg Bool.false_ne_true (runs_if_pos rfl (runs_if_pos rfl ?_))
  have hskip := runs_skipMany (s := s) (t := t) (n := 0) (w := ['\x27', '\x27'])
    (List.forall_mem_cons.mpr ⟨rfl, List.forall_mem_singleton.mpr rfl⟩)
  exact hskip.bind ((runs_need 2).bind h)

theorem spelled_escape {l x : Char} {u : List Char} (hl : isBreak l = false)
    (h : ∀ {s : Scan} {t : List Char},
      Runs escaped ⟨s, '\\' :: l :: u ++ t, 2⟩ x ⟨s.beyond ('\\' :: l :: u), t, 0⟩) :
    Spelled false x ('\\' :: l :: u) := by
  intro s t o f r v hrec
  refine (runs_look Nat.zero_lt_two).bind ((runs_look Nat.one_lt_two).bind ?_)
  refine runs_if_neg Bool.false_ne_true (runs_if_neg Bool.false_ne_true ?_)
  refine runs_if_neg Bool.false_ne_true (runs_if_pos rfl ?_)
  refine runs_if_neg (ne_true_of_eq_false hl) ?_
  exact h.bind ((runs_need 2).bind hrec)

/-- An escape of one letter. -/
theorem spelled_letter {c l : Char} (hl : letterEscapes.lookup l = some c.toNat)
    (hbreak : isBreak l = false) : Spelled false c ['\\', l] := by
  refine spelled_escape hbreak fun {s t} => ?_
  refine (runs_look Nat.one_lt_two).bind ?_
  have hskip := runs_skipMany (s := s) (t := t) (n := 0) (w := ['\\', l])
    (List.forall_mem_cons.mpr ⟨rfl, by simpa using hbreak⟩)
  rw [List.cons_append, List.cons_append, List.drop_succ_cons, List.drop_zero, List.headD_cons, hl]
  refine hskip.bind ?_
  rw [Char.ofNat_toNat]
  exact runs_pure _ _

/-! ## Numbers of characters -/

theorem isBreak_of_hexValue {c : Char} {d : Nat} (h : hexValue? c = some d) :
    isBreak c = false := by
  have hrange : 0x30 ≤ c.toNat ∧ c.toNat ≤ 0x66 := by
    simp only [hexValue?, Bool.and_eq_true, decide_eq_true_eq] at h
    split_ifs at h with h1 h2 h3
    · exact ⟨h1.1, le_trans (show c.toNat ≤ 0x39 from h1.2) (by decide)⟩
    · exact ⟨le_trans (by decide) (show 0x61 ≤ c.toNat from h2.1), h2.2⟩
    · exact ⟨le_trans (by decide) (show 0x41 ≤ c.toNat from h3.1),
        le_trans (show c.toNat ≤ 0x46 from h3.2) (by decide)⟩
  simp only [isBreak, Bool.or_eq_false_iff, beq_eq_false_iff_ne]
  omega

theorem runs_hexNumber {ds : List Char} {vs : List Nat}
    (h : List.Forall₂ (fun c d => hexValue? c = some d) ds vs) (x : Nat) :
    Runs (hexNumber ds.length x) ⟨s, ds ++ t, ds.length + n⟩
      (vs.foldl (fun x d => x * 16 + d) x) ⟨s.beyond ds, t, n⟩ := by
  induction h generalizing s x with
  | nil =>
      rw [List.length_nil, Nat.zero_add]
      exact runs_pure _ _
  | @cons c d ds vs hc _ ih =>
      have hrec := ih (s := s.beyond [c]) (x * 16 + d)
      rw [Scan.beyond_beyond] at hrec
      rw [List.length_cons, Nat.add_right_comm]
      refine (runs_look (Nat.succ_pos _)).bind ?_
      rw [List.drop_zero, List.cons_append, List.headD_cons, hc]
      exact (runs_skip (isBreak_of_hexValue hc)).bind hrec

def hexPlaces : (k : Nat) → Nat → List Nat
  | 0, _ => []
  | k + 1, v => hexPlaces k (v / 16) ++ [v % 16]

theorem foldl_hexPlaces {k v : Nat} (hv : v < 16 ^ k) :
    (hexPlaces k v).foldl (fun x d => x * 16 + d) 0 = v := by
  induction k generalizing v with
  | zero => exact (Nat.lt_one_iff.mp hv).symm
  | succ k ih =>
      rw [hexPlaces, List.foldl_append, ih (by rw [Nat.pow_succ] at hv; omega)]
      exact Nat.div_add_mod' v 16

theorem hexValue?_digit : ∀ d : Fin 16,
    (letters (escape.upper [Bytes.hexDigit d.val.toUInt8])).map hexValue? = [some d.val] := by
  decide

theorem forall₂_hexDigits (k v : Nat) :
    List.Forall₂ (fun c d => hexValue? c = some d) (letters (escape.upper (hexDigits k v)))
      (hexPlaces k v) := by
  induction k generalizing v with
  | zero => exact .nil
  | succ k ih =>
      have hdigit := hexValue?_digit ⟨v % 16, Nat.mod_lt v (by decide)⟩
      rw [hexDigits, hexPlaces, escape.upper, List.map_append, letters, List.map_append]
      exact List.rel_append (ih (v / 16)) (.cons (List.cons.inj hdigit).1 .nil)

theorem length_hexDigits (k v : Nat) : (letters (escape.upper (hexDigits k v))).length = k := by
  induction k generalizing v with
  | zero => rfl
  | succ k ih =>
      have h := ih (v / 16)
      simp only [letters, escape.upper, List.length_map] at h ⊢
      rw [hexDigits, List.length_append, h]
      rfl

/-- An escape of a number. -/
theorem spelled_number {l c : Char} {k : Nat} (hl : letterEscapes.lookup l = none)
    (hk : numberEscapes.lookup l = some k) (hbreak : isBreak l = false) (hc : c.toNat < 16 ^ k) :
    Spelled false c ('\\' :: l :: letters (escape.upper (hexDigits k c.toNat))) := by
  refine spelled_escape hbreak fun {s t} => ?_
  refine (runs_look Nat.one_lt_two).bind ?_
  have hskip := runs_skipMany (s := s) (n := 0) (w := ['\\', l])
    (t := letters (escape.upper (hexDigits k c.toNat)) ++ t)
    (List.forall_mem_cons.mpr ⟨rfl, by simpa using hbreak⟩)
  have hnumber := runs_hexNumber (s := s.beyond ['\\', l]) (t := t) (n := 0)
    (forall₂_hexDigits k c.toNat) 0
  rw [length_hexDigits, foldl_hexPlaces hc, Scan.beyond_beyond] at hnumber
  rw [List.cons_append, List.cons_append, List.drop_succ_cons, List.drop_zero, List.headD_cons, hl,
    hk]
  refine hskip.bind ((runs_need k).bind (hnumber.bind (runs_if_neg ?_ ?_)))
  · simp only [Bool.or_eq_true, Bool.and_eq_true, decide_eq_true_eq]
    have hvalid : c.toNat.isValidChar := c.valid
    unfold Nat.isValidChar at hvalid
    omega
  · rw [Char.ofNat_toNat]
    exact runs_pure _ _

theorem spelled_escape_char (c : Char) : Spelled false c (letters (escape c)) := by
  have hmax : c.toNat < 0x110000 := by
    have hvalid : c.toNat.isValidChar := c.valid
    unfold Nat.isValidChar at hvalid
    omega
  unfold escape
  split
  case h_16 =>
    split_ifs with h2 h4
    · exact spelled_number (l := 'x') (k := 2) rfl rfl rfl (by omega)
    · exact spelled_number (l := 'u') (k := 4) rfl rfl rfl (by omega)
    · exact spelled_number (l := 'U') (k := 8) rfl rfl rfl (by omega)
  all_goals
    rename_i h
    exact spelled_letter (h ▸ rfl) rfl

/-! ## Words between quotes -/

def mark (single : Bool) : Char := if single then '\x27' else '\x22'

def Stops (single : Bool) (t : List Char) : Prop :=
  endsWord (t.headD finish) = true ∨
    t.headD finish = mark single ∧ (t.drop 1).headD finish ≠ '\x27'

theorem runs_quotedWord_stop {single : Bool} (ht : Stops single t) :
    Runs (quotedWord single (f + 1) o) ⟨s, t, 2⟩ (o, .nothing) ⟨s, t, 2⟩ := by
  refine (runs_look Nat.zero_lt_two).bind ((runs_look Nat.one_lt_two).bind ?_)
  rcases ht with hword | ⟨hmark, hnext⟩
  · exact runs_if_pos hword (runs_pure _ _)
  · rw [List.drop_zero, hmark]
    cases single with
    | true =>
        refine runs_if_neg Bool.false_ne_true (runs_if_pos rfl (runs_if_neg ?_ (runs_pure _ _)))
        rwa [beq_iff_eq]
    | false =>
        refine runs_if_neg Bool.false_ne_true (runs_if_neg Bool.false_ne_true ?_)
        exact runs_if_pos rfl (runs_pure _ _)

def Spells (single : Bool) (spelling : Char → List Char) (w : List Char) : Prop :=
  ∀ c ∈ w, Spelled single c (spelling c) ∧ spelling c ≠ [] ∧ finish ∉ spelling c

section Words

variable {single : Bool} {spelling : Char → List Char} {w : List Char}

theorem Spells.length_le (hw : Spells single spelling w) :
    w.length ≤ (w.flatMap spelling).length := by
  induction w with
  | nil => exact Nat.le_refl _
  | cons c w ih =>
      obtain ⟨hc, hw⟩ := List.forall_mem_cons.mp hw
      have hpos := List.length_pos_iff.mpr hc.2.1
      have hrest := ih hw
      rw [List.flatMap_cons, List.length_append, List.length_cons]
      omega

theorem Spells.headD_ne (hw : Spells single spelling w) (ht : t.headD finish ≠ finish) :
    (w.flatMap spelling ++ t).headD finish ≠ finish := by
  cases w with
  | nil => exact ht
  | cons c w =>
      obtain ⟨-, hne, hfinish⟩ := hw c List.mem_cons_self
      obtain ⟨d, u, hu⟩ := List.exists_cons_of_ne_nil hne
      rw [List.flatMap_cons, hu]
      rw [hu] at hfinish
      exact fun h => hfinish (h ▸ List.mem_cons_self)

/-- A word is read as its characters, each by its spelling. -/
theorem runs_quotedWord (hw : Spells single spelling w) (ht : Stops single t)
    (hfuel : w.length < f) :
    Runs (quotedWord single f o) ⟨s, w.flatMap spelling ++ t, 2⟩ (w.reverse ++ o, .nothing)
      ⟨s.beyond (w.flatMap spelling), t, 2⟩ := by
  induction w generalizing f s o with
  | nil =>
      obtain ⟨f, rfl⟩ := Nat.exists_eq_succ_of_ne_zero (Nat.zero_lt_of_lt hfuel).ne'
      exact runs_quotedWord_stop ht
  | cons c w ih =>
      obtain ⟨f, rfl⟩ := Nat.exists_eq_succ_of_ne_zero (Nat.zero_lt_of_lt hfuel).ne'
      obtain ⟨hc, hw⟩ := List.forall_mem_cons.mp hw
      have h := ih (s := s.beyond (spelling c)) (o := c :: o) hw (Nat.lt_of_succ_lt_succ hfuel)
      rw [Scan.beyond_beyond] at h
      rw [List.flatMap_cons, List.append_assoc, List.reverse_cons, List.append_assoc]
      exact hc.1 _ _ _ _ _ _ h

/-- The last word, and the quote behind it. -/
theorem runs_quotedFrom_last (hw : Spells single spelling w) (ht : t.headD finish ≠ '\x27')
    (hcolumn : s.place.column ≠ 0 ∨ w.flatMap spelling = []) (hlimit : w.length < s.limit) :
    Runs (quotedFrom single (f + 1) o) ⟨s, w.flatMap spelling ++ mark single :: t, n⟩
      (w.reverse ++ o) ⟨s.beyond (w.flatMap spelling), mark single :: t, 1⟩ := by
  have hmark : mark single ≠ '-' ∧ mark single ≠ '.' ∧ mark single ≠ finish := by
    cases single <;> decide
  have hstart := hw.headD_ne (t := mark single :: t) hmark.2.2
  have hread := runs_quotedWord (s := s) (o := o) (f := s.limit) (t := mark single :: t)
    hw (Or.inr ⟨rfl, ht⟩) hlimit
  refine (runs_need 4).bind ((runs_atMarker ?_).bind ?_)
  · refine hcolumn.imp_right fun hnil => ?_
    rw [hnil]
    exact ⟨by decide, hmark.1, hmark.2.1⟩
  refine (runs_look (by decide)).bind (runs_if_neg (by simpa using hstart) (runs_fuel.bind ?_))
  refine (hread.of_known (by decide)).bind (runs_next.bind (runs_if_pos ?_ (runs_pure _ _)))
  exact beq_self_eq_true _

/-- A word between quotes and the blanks behind it. -/
theorem runs_quotedFrom_word {ws r : List Char} {v : View} (hw : Spells single spelling w)
    (hne : ws ≠ []) (hws : ∀ c ∈ ws, c = ' ' ∨ isBreak c = true ∧ isPrintable c = true)
    (hgap : isGap (t.headD finish) = false) (hbreak : isBreak (t.headD finish) = false)
    (hcolumn : s.place.column ≠ 0) (hlimit : w.length + ws.length < s.limit)
    (h : Runs (quotedFrom single f
        ((ws.foldl Between.pass .nothing).reversed ++ (w.reverse ++ o)))
      ⟨s.beyond (w.flatMap spelling ++ ws), t, 1⟩ r v) :
    Runs (quotedFrom single (f + 1) o) ⟨s, w.flatMap spelling ++ (ws ++ t), n⟩ r v := by
  have hblank : endsWord ((ws ++ t).headD finish) = true ∧ (ws ++ t).headD finish ≠ finish ∧
      (ws ++ t).headD finish ≠ mark single := by
    obtain ⟨c, ws, rfl⟩ := List.exists_cons_of_ne_nil hne
    show endsWord c = true ∧ c ≠ finish ∧ c ≠ mark single
    rcases hws c List.mem_cons_self with rfl | ⟨hc, -⟩
    · exact ⟨rfl, by decide, by cases single <;> decide⟩
    · refine ⟨by rw [endsWord, endsLine, hc, Bool.or_true, Bool.or_true], ?_, ?_⟩
      · rintro rfl
        exact absurd hc (by decide)
      · rintro rfl
        exact absurd hc (by cases single <;> decide)
  obtain ⟨hends, hfinish, hmark⟩ := hblank
  have hread := runs_quotedWord (s := s) (o := o) (f := s.limit) (t := ws ++ t) hw
    (Or.inl hends) (by omega)
  have hbetween := runs_between (s := s.beyond (w.flatMap spelling)) (n := 1) (b := .nothing)
    (f := s.limit) (-1) hws hgap hbreak (by omega)
  rw [Scan.beyond_beyond] at hbetween
  refine (runs_need 4).bind ((runs_atMarker (Or.inl hcolumn)).bind ?_)
  refine (runs_look (by decide)).bind (runs_if_neg (by simpa using hw.headD_ne hfinish) ?_)
  refine runs_fuel.bind ((hread.of_known (by decide)).bind (runs_next.bind ?_))
  refine runs_if_neg ?_ (runs_fuel.bind (hbetween.bind h))
  rwa [beq_iff_eq]

end Words

/-! ## Texts between quotes -/

inductive Segmented (single : Bool) (spelling : Char → List Char) : List Char → List Char → Prop
  | last {w : List Char} (hw : Spells single spelling w) :
      Segmented single spelling (w.flatMap spelling) w
  | more {w blanks spaced text value : List Char} (hw : Spells single spelling w)
      (hne : spaced ≠ [])
      (hspaced : ∀ c ∈ spaced, c = ' ' ∨ isBreak c = true ∧ isPrintable c = true)
      (hreads : (spaced.foldl Between.pass .nothing).reversed = blanks.reverse)
      (hend : spaced.getLast? = some ' ' ∨ text = [])
      (hnext : text ≠ [] → endsWord (text.headD finish) = false)
      (rest : Segmented single spelling text value) :
      Segmented single spelling (w.flatMap spelling ++ (spaced ++ text)) (w ++ (blanks ++ value))

/-- A text between quotes is read segment by segment, up to the closing quote. -/
theorem runs_quotedFrom {single : Bool} {spelling : Char → List Char} {text value : List Char}
    (htext : Segmented single spelling text value) (ht : t.headD finish ≠ '\x27')
    (hcolumn : s.place.column ≠ 0 ∨ text = []) (hfuel : text.length < f)
    (hlimit : text.length < s.limit) :
    Runs (quotedFrom single f o) ⟨s, text ++ mark single :: t, n⟩ (value.reverse ++ o)
      ⟨s.beyond text, mark single :: t, 1⟩ := by
  induction htext generalizing s o f n with
  | last hw =>
      obtain ⟨f, rfl⟩ := Nat.exists_eq_succ_of_ne_zero (Nat.zero_lt_of_lt hfuel).ne'
      have hle := hw.length_le
      exact runs_quotedFrom_last hw ht hcolumn (by omega)
  | @more w blanks spaced text value hw hne hspaced hreads hend hnext _ ih =>
      obtain ⟨f, rfl⟩ := Nat.exists_eq_succ_of_ne_zero (Nat.zero_lt_of_lt hfuel).ne'
      have hle := hw.length_le
      have hpos := List.length_pos_iff.mpr hne
      simp only [List.length_append] at hfuel hlimit
      -- a text in the first column could be taken for the mark of a document
      have hcolumn' : (s.beyond (w.flatMap spelling ++ spaced)).place.column ≠ 0 ∨ text = [] := by
        refine hend.imp_left fun hlast => ?_
        obtain ⟨init, rfl⟩ := List.getLast?_eq_some_iff.mp hlast
        rw [← List.append_assoc, ← Scan.beyond_beyond]
        exact Nat.succ_ne_zero _
      have hnext' : endsWord ((text ++ mark single :: t).headD finish) = false := by
        cases text with
        | nil => cases single <;> rfl
        | cons c text => exact hnext (List.cons_ne_nil c text)
      have hrec := ih (s := s.beyond (w.flatMap spelling ++ spaced)) (n := 1) (f := f)
        (o := blanks.reverse ++ (w.reverse ++ o)) hcolumn' (by omega)
        (by show _ < s.limit; omega)
      rw [Scan.beyond_beyond, List.append_assoc, ← hreads] at hrec
      rw [List.append_assoc, List.append_assoc, List.reverse_append, List.reverse_append,
        List.append_assoc, List.append_assoc, ← hreads]
      refine runs_quotedFrom_word hw hne hspaced (isGap_of_endsWord hnext')
        (isBreak_of_endsWord hnext') (hcolumn.resolve_right ?_) (by omega) hrec
      simp [hne]

/-- A quoted scalar from its opening to its closing quote. -/
theorem runs_quoted {single : Bool} {spelling : Char → List Char} {text value : List Char}
    (htext : Segmented single spelling text value) (ht : t.headD finish ≠ '\x27')
    (hlimit : text.length < s.limit) :
    Runs (quoted single) ⟨s, mark single :: (text ++ mark single :: t), n + 1⟩ (Utf8.ofChars value)
      ⟨s.beyond (mark single :: (text ++ [mark single])), t, 0⟩ := by
  have hmark : isBreak (mark single) = false := by cases single <;> rfl
  have hcolumn : (s.beyond [mark single]).place.column ≠ 0 := by
    cases single <;> exact Nat.succ_ne_zero _
  have hread := runs_quotedFrom (s := s.beyond [mark single]) (n := n) (o := []) (f := s.limit)
    htext ht (Or.inl hcolumn) hlimit hlimit
  rw [List.append_nil, Scan.beyond_beyond] at hread
  refine (runs_skip hmark).bind (runs_fuel.bind (hread.bind ((runs_skip hmark).bind ?_)))
  rw [Scan.beyond_beyond, List.reverse_reverse]
  exact runs_pure _ _

/-! ### Double quotes -/

def doubleSpelling (all : Bool) (c : Char) : List Char :=
  if all || needsEscape c then letters (escape c) else [c]

def isVisible (b : UInt8) : Bool := 0x20 ≤ b && b ≤ 0x7E

theorem isPrintable_of_mem_letters {u : Bytes} (hu : ∀ b ∈ u, isVisible b = true) {c : Char}
    (hc : c ∈ letters u) : isPrintable c = true ∧ isBreak c = false := by
  obtain ⟨b, hb, rfl⟩ := List.mem_map.mp hc
  have hvisible := hu b hb
  rw [isVisible, Bool.and_eq_true, decide_eq_true_eq, decide_eq_true_eq, UInt8.le_iff_toNat_le,
    UInt8.le_iff_toNat_le] at hvisible
  have hlow : 0x20 ≤ b.toNat := hvisible.1
  have hhigh : b.toNat ≤ 0x7E := hvisible.2
  have hval : (Char.ofNat b.toNat).toNat = b.toNat := by
    rw [Char.ofNat, dif_pos (Or.inl (by omega))]
    rfl
  constructor
  · simp only [isPrintable, hval, Bool.or_eq_true, Bool.and_eq_true, decide_eq_true_eq]
    omega
  · simp only [isBreak, hval, Bool.or_eq_false_iff, beq_eq_false_iff_ne]
    omega

theorem isVisible_hexDigits {k v : Nat} {b : UInt8} (hb : b ∈ escape.upper (hexDigits k v)) :
    isVisible b = true := by
  have hdigit : ∀ d : Fin 16,
      (escape.upper [Bytes.hexDigit d.val.toUInt8]).all isVisible = true := by decide
  induction k generalizing v with
  | zero => cases hb
  | succ k ih =>
      rw [hexDigits, escape.upper, List.map_append, List.mem_append] at hb
      rcases hb with hb | hb
      · exact ih hb
      · exact List.all_eq_true.mp (hdigit ⟨v % 16, Nat.mod_lt v (by decide)⟩) b hb

/-- An escape is a backslash and visible characters. -/
theorem escape_cases (c : Char) :
    ∃ u, escape c = 0x5C :: u ∧ ∀ b ∈ escape c, isVisible b = true := by
  have hclosed : ∀ {s : String} {k v : Nat} {u : Bytes}, text s = 0x5C :: u →
      (text s).all isVisible = true →
      ∃ u, text s ++ escape.upper (hexDigits k v) = 0x5C :: u ∧
        ∀ b ∈ text s ++ escape.upper (hexDigits k v), isVisible b = true := by
    intro s k v u hs hvisible
    refine ⟨u ++ escape.upper (hexDigits k v), by rw [hs, List.cons_append], ?_⟩
    exact List.forall_mem_append.mpr
      ⟨List.all_eq_true.mp hvisible, fun b hb => isVisible_hexDigits hb⟩
  unfold escape
  split
  case h_16 => split_ifs <;> exact hclosed rfl rfl
  all_goals exact ⟨_, rfl, List.all_eq_true.mp rfl⟩

theorem endsWord_of_isPrintable {c : Char} (hc : isPrintable c = true) (hbreak : isBreak c = false)
    (hspace : c ≠ ' ') : endsWord c = false := by
  have htab : c ≠ '\t' := by
    rintro rfl
    exact absurd hc (by decide)
  have hfinish : c ≠ finish := by
    rintro rfl
    exact absurd hc (by decide)
  rw [endsWord, isGap, endsLine, beq_false_of_ne hspace, beq_false_of_ne htab,
    beq_false_of_ne hfinish, hbreak]
  rfl

theorem needsEscape_eq_false_iff {c : Char} : needsEscape c = false ↔
    isPrintable c = true ∧ isBreak c = false ∧ (c == '\x22') = false ∧ (c == '\\') = false := by
  simp only [needsEscape, Bool.or_eq_false_iff, Bool.not_eq_false', and_assoc]

theorem spells_double {all : Bool} {w : List Char} (hspace : all = true ∨ ' ' ∉ w) :
    Spells false (doubleSpelling all) w := by
  intro c hc
  unfold doubleSpelling
  by_cases hesc : (all || needsEscape c) = true
  · obtain ⟨u, hu, hvisible⟩ := escape_cases c
    rw [if_pos hesc]
    refine ⟨spelled_escape_char c, by rw [hu]; exact List.cons_ne_nil _ _, fun hmem => ?_⟩
    exact absurd (isPrintable_of_mem_letters hvisible hmem).1 (by decide)
  · rw [if_neg hesc]
    obtain ⟨rfl, hraw⟩ := Bool.or_eq_false_iff.mp (Bool.not_eq_true _ ▸ hesc)
    obtain ⟨hprint, hbreak, hquote, hback⟩ := needsEscape_eq_false_iff.mp hraw
    have hne : c ≠ ' ' := by
      rintro rfl
      exact hspace.elim Bool.false_ne_true fun h => h hc
    refine ⟨spelled_self (endsWord_of_isPrintable hprint hbreak hne) rfl hquote hback,
      List.cons_ne_nil _ _, ?_⟩
    rw [List.mem_singleton]
    rintro rfl
    exact absurd hprint (by decide)

theorem endsWord_double {c : Char} (hc : c ≠ ' ') (t : List Char) :
    endsWord ((doubleSpelling false c ++ t).headD finish) = false := by
  unfold doubleSpelling
  by_cases hesc : needsEscape c = true
  · obtain ⟨u, hu, -⟩ := escape_cases c
    rw [if_pos (by rwa [Bool.false_or]), hu]
    rfl
  · obtain ⟨hprint, hbreak, -⟩ := needsEscape_eq_false_iff.mp (Bool.not_eq_true _ ▸ hesc)
    rw [if_neg (by rwa [Bool.false_or])]
    exact endsWord_of_isPrintable hprint hbreak hc

theorem segmented_double (all : Bool) (cs : List Char) :
    Segmented false (doubleSpelling all) (cs.flatMap (doubleSpelling all)) cs := by
  cases all with
  | true => exact .last (spells_double (Or.inl rfl))
  | false =>
      induction hk : cs.length using Nat.strongRecOn generalizing cs with
      | _ k ih =>
          obtain ⟨w, m, cs', rfl, hspace, hhead, hend⟩ := exists_word cs
          have hw : Spells false (doubleSpelling false) w := spells_double (Or.inr hspace)
          cases m with
          | zero =>
              obtain rfl := hend rfl
              simpa using Segmented.last hw
          | succ m =>
              have hspaces : (List.replicate (m + 1) ' ').flatMap (doubleSpelling false) =
                  List.replicate (m + 1) ' ' := by
                rw [List.flatMap_replicate]
                exact List.flatten_replicate_singleton
              have hrest := ih _ (by simp [← hk]; omega) cs' rfl
              rw [List.flatMap_append, List.flatMap_append, hspaces]
              refine .more hw (by simp) (fun c hc => Or.inl (List.eq_of_mem_replicate hc)) ?_
                (Or.inl ?_) ?_ hrest
              · rw [Between.nothing, Between.foldl_pass_spaces, if_neg Bool.false_ne_true,
                  List.append_nil, List.reverse_replicate]
                rfl
              · rw [List.replicate_succ', List.getLast?_concat]
              · intro hne
                cases cs' with
                | nil => exact absurd rfl hne
                | cons c cs' =>
                    exact endsWord_double (fun h => hhead (by rw [h, List.head?_cons])) _

/-! ### Single quotes -/

def singleSpelling (c : Char) : List Char := if c == '\x27' then ['\x27', '\x27'] else [c]

/-- A text of which all lines but the first are indented, unless they are empty. If it is at the
start of a line, the first is too. -/
def indented (spelling : Char → List Char) (indent : Nat) : (start : Bool) → List Char → List Char
  | _, [] => []
  | start, c :: cs =>
    if isBreak c then c :: indented spelling indent true cs
    else (if start then List.replicate indent ' ' else []) ++ spelling c ++
      indented spelling indent false cs

theorem spells_single {w : List Char}
    (hw : ∀ c ∈ w, isPrintable c = true ∧ isBreak c = false ∧ c ≠ ' ') :
    Spells true singleSpelling w := by
  intro c hc
  obtain ⟨hprint, hbreak, hspace⟩ := hw c hc
  unfold singleSpelling
  by_cases hquote : c = '\x27'
  · subst hquote
    exact ⟨spelled_quote, by decide, by decide⟩
  · have hfalse : (c == '\x27') = false := beq_false_of_ne hquote
    rw [hfalse, if_neg Bool.false_ne_true]
    refine ⟨spelled_self (endsWord_of_isPrintable hprint hbreak hspace) hfalse rfl rfl,
      List.cons_ne_nil _ _, ?_⟩
    rw [List.mem_singleton]
    rintro rfl
    exact absurd hprint (by decide)

theorem anyPair_of_append {p : Char → Char → Bool} {u v : List Char}
    (h : anyPair p (u ++ v) = false) : anyPair p v = false := by
  induction u with
  | nil => exact h
  | cons c u ih =>
      refine ih ?_
      rw [List.cons_append] at h
      cases hrest : u ++ v with
      | nil => rfl
      | cons d r =>
          rw [hrest] at h
          exact (Bool.or_eq_false_iff.mp h).2

/-- A word, and blanks of one kind behind it. -/
theorem exists_segment {cs : List Char}
    (hbreak : anyPair (fun a b => isBreak a && b == ' ') cs = false)
    (hspace : anyPair (fun a b => a == ' ' && isBreak b) cs = false) :
    ∃ w blanks cs', cs = w ++ (blanks ++ cs') ∧ (∀ c ∈ w, isBreak c = false ∧ c ≠ ' ') ∧
      ((∀ c ∈ blanks, c = ' ') ∨ ∀ c ∈ blanks, isBreak c = true) ∧
      (∀ c ∈ cs'.head?, isBreak c = false ∧ c ≠ ' ') ∧ (blanks = [] → cs' = []) := by
  induction cs with
  | nil => exact ⟨[], [], [], rfl, by simp, by simp, by simp, fun _ => rfl⟩
  | cons c cs ih =>
      obtain ⟨w, blanks, cs', rfl, hw, hblanks, hcs', hend⟩ :=
        ih (anyPair_of_append (u := [c]) hbreak) (anyPair_of_append (u := [c]) hspace)
      by_cases hc : isBreak c = false ∧ c ≠ ' '
      · exact ⟨c :: w, blanks, cs', rfl, List.forall_mem_cons.mpr ⟨hc, hw⟩, hblanks, hcs', hend⟩
      · cases w with
        | cons d w =>
            refine ⟨[], [c], d :: w ++ (blanks ++ cs'), rfl, by simp, ?_, ?_, by simp⟩
            · by_cases hspace : c = ' '
              · exact Or.inl (by simpa using hspace)
              · exact Or.inr (by simpa [hspace] using hc)
            · rintro _ ⟨⟩
              exact hw d List.mem_cons_self
        | nil =>
            refine ⟨[], c :: blanks, cs', rfl, by simp, ?_, hcs', by simp⟩
            -- The next blank is of the same kind, since the two stand side by side.
            by_cases hone : c = ' '
            · subst hone
              refine Or.inl (List.forall_mem_cons.mpr ⟨rfl, ?_⟩)
              rcases hblanks with h | h
              · exact h
              · cases blanks with
                | nil => simp
                | cons b blanks =>
                    have hpair : (' ' == ' ' && isBreak b) = false :=
                      (Bool.or_eq_false_iff.mp hspace).1
                    rw [h b List.mem_cons_self] at hpair
                    cases hpair
            · have hbreakc : isBreak c = true := by
                by_contra hfalse
                exact hc ⟨Bool.not_eq_true _ ▸ hfalse, hone⟩
              refine Or.inr (List.forall_mem_cons.mpr ⟨hbreakc, ?_⟩)
              rcases hblanks with h | h
              · cases blanks with
                | nil => simp
                | cons b blanks =>
                    have hpair : (isBreak c && b == ' ') = false :=
                      (Bool.or_eq_false_iff.mp hbreak).1
                    rw [hbreakc, h b List.mem_cons_self] at hpair
                    cases hpair
              · exact h

theorem flatMap_singleSpelling {k : Nat} :
    (List.replicate k ' ').flatMap singleSpelling = List.replicate k ' ' := by
  rw [List.flatMap_replicate]
  exact List.flatten_replicate_singleton

section Indented

variable {spelling : Char → List Char} {indent : Nat}

theorem indented_append {w u : List Char} (hw : ∀ c ∈ w, isBreak c = false) :
    indented spelling indent false (w ++ u) =
      w.flatMap spelling ++ indented spelling indent false u := by
  induction w with
  | nil => rfl
  | cons c w ih =>
      obtain ⟨hc, hw⟩ := List.forall_mem_cons.mp hw
      rw [List.cons_append, indented, hc, if_neg Bool.false_ne_true,
        if_neg Bool.false_ne_true, ih hw, List.nil_append, List.flatMap_cons, List.append_assoc]

theorem indented_breaks {start : Bool} {bs u : List Char} (hne : bs ≠ [])
    (hbs : ∀ c ∈ bs, isBreak c = true) :
    indented spelling indent start (bs ++ u) = bs ++ indented spelling indent true u := by
  induction bs generalizing start with
  | nil => exact absurd rfl hne
  | cons c bs ih =>
      obtain ⟨hc, hbs⟩ := List.forall_mem_cons.mp hbs
      rw [List.cons_append, indented, hc, if_pos rfl, List.cons_append]
      cases bs with
      | nil => rfl
      | cons d bs => rw [ih (List.cons_ne_nil d bs) hbs]

theorem indented_start (spelling : Char → List Char) (indent : Nat) {cs : List Char} (hne : cs ≠ [])
    (hhead : ∀ c ∈ cs.head?, isBreak c = false) :
    indented spelling indent true cs =
      List.replicate indent ' ' ++ indented spelling indent false cs := by
  obtain ⟨c, cs, rfl⟩ := List.exists_cons_of_ne_nil hne
  have hc : isBreak c = false := hhead c rfl
  rw [indented, indented, hc, if_neg Bool.false_ne_true, if_neg Bool.false_ne_true,
    if_pos rfl, if_neg Bool.false_ne_true, List.nil_append, List.append_assoc]

end Indented

theorem foldl_pass_breaks {bs : List Char} {k : Nat} (hne : bs ≠ [])
    (hbs : ∀ c ∈ bs, isBreak c = true ∧ c ≠ '\n') :
    ((bs ++ List.replicate k ' ').foldl Between.pass .nothing).reversed = bs.reverse := by
  have hpass : ∀ {c : Char} {b : Between}, isBreak c = true → b.pass c = b.addBreak [c] := by
    intro c b hc
    exact if_neg (ne_true_of_eq_false (isGap_of_isBreak hc))
  have hmore : ∀ {ds first more : List Char}, (∀ c ∈ ds, isBreak c = true) →
      ds.foldl Between.pass ⟨true, [], first, more⟩ = ⟨true, [], first, ds.reverse ++ more⟩ := by
    intro ds first more hds
    induction ds generalizing more with
    | nil => rfl
    | cons d ds ih =>
        obtain ⟨hd, hds⟩ := List.forall_mem_cons.mp hds
        rw [List.foldl_cons, hpass hd, List.reverse_cons, List.append_assoc]
        exact ih hds
  obtain ⟨c, bs, rfl⟩ := List.exists_cons_of_ne_nil hne
  obtain ⟨⟨hc, hline⟩, hbs⟩ := List.forall_mem_cons.mp hbs
  rw [List.foldl_append, List.foldl_cons, hpass hc,
    show Between.nothing.addBreak [c] = ⟨true, [], [c], []⟩ from rfl,
    hmore fun d hd => (hbs d hd).1, Between.foldl_pass_spaces, if_pos rfl]
  simp [Between.reversed, hline]

theorem endsWord_single {indent : Nat} {c : Char} {cs : List Char} (hprint : isPrintable c = true)
    (hbreak : isBreak c = false) (hspace : c ≠ ' ') :
    endsWord ((indented singleSpelling indent false (c :: cs)).headD finish) = false := by
  rw [indented, hbreak, if_neg Bool.false_ne_true, if_neg Bool.false_ne_true, List.nil_append,
    singleSpelling]
  split_ifs
  · rfl
  · exact endsWord_of_isPrintable hprint hbreak hspace

theorem segmented_single {indent : Nat} (hindent : 0 < indent) {cs : List Char}
    (hprint : ∀ c ∈ cs, isPrintable c = true ∧ c ≠ '\n')
    (hbreak : anyPair (fun a b => isBreak a && b == ' ') cs = false)
    (hspace : anyPair (fun a b => a == ' ' && isBreak b) cs = false) :
    Segmented true singleSpelling (indented singleSpelling indent false cs) cs := by
  induction hk : cs.length using Nat.strongRecOn generalizing cs with
  | _ k ih =>
      obtain ⟨w, blanks, cs', rfl, hw, hblanks, hhead, hend⟩ := exists_segment hbreak hspace
      obtain ⟨hwprint, hrestprint⟩ := List.forall_mem_append.mp hprint
      obtain ⟨hbprint, hprint'⟩ := List.forall_mem_append.mp hrestprint
      have hspells : Spells true singleSpelling w :=
        spells_single fun c hc => ⟨(hwprint c hc).1, hw c hc⟩
      rw [indented_append fun c hc => (hw c hc).1]
      by_cases hnil : blanks = []
      · obtain rfl := hend hnil
        subst hnil
        rw [List.append_nil, List.append_nil, indented, List.append_nil]
        exact .last hspells
      have hpos := List.length_pos_iff.mpr hnil
      have hrest : Segmented true singleSpelling (indented singleSpelling indent false cs') cs' :=
        ih _ (by simp [← hk]; omega) hprint' (anyPair_of_append (anyPair_of_append hbreak))
          (anyPair_of_append (anyPair_of_append hspace)) rfl
      have hnext : indented singleSpelling indent false cs' ≠ [] →
          endsWord ((indented singleSpelling indent false cs').headD finish) = false := by
        intro hne
        cases cs' with
        | nil => exact absurd rfl hne
        | cons c cs' =>
            obtain ⟨hc, hne⟩ := hhead c rfl
            exact endsWord_single (hprint' c List.mem_cons_self).1 hc hne
      rcases hblanks with hspaces | hbreaks
      · -- Spaces are written as they are.
        obtain ⟨k, rfl⟩ : ∃ k, blanks = List.replicate k ' ' :=
          ⟨_, List.eq_replicate_of_mem hspaces⟩
        rw [indented_append fun c hc => by rw [hspaces c hc]; rfl, flatMap_singleSpelling]
        refine .more hspells hnil (fun c hc => Or.inl (hspaces c hc)) ?_ (Or.inl ?_) hnext hrest
        · rw [Between.nothing, Between.foldl_pass_spaces, if_neg Bool.false_ne_true,
            List.append_nil, List.reverse_replicate]
          rfl
        · rw [List.getLast?_eq_some_getLast hnil]
          exact congrArg some (hspaces _ (List.getLast_mem hnil))
      · -- Line breaks are followed by the indentation of the next word.
        have hkinds : ∀ c ∈ blanks, c = ' ' ∨ isBreak c = true ∧ isPrintable c = true :=
          fun c hc => Or.inr ⟨hbreaks c hc, (hbprint c hc).1⟩
        have hlines : ∀ c ∈ blanks, isBreak c = true ∧ c ≠ '\n' :=
          fun c hc => ⟨hbreaks c hc, (hbprint c hc).2⟩
        rw [indented_breaks hnil hbreaks]
        cases cs' with
        | nil =>
            have hreads := foldl_pass_breaks (k := 0) hnil hlines
            rw [List.replicate_zero, List.append_nil] at hreads
            exact .more hspells hnil hkinds hreads (Or.inr rfl) hnext hrest
        | cons c cs' =>
            rw [indented_start _ _ (List.cons_ne_nil c cs') fun d hd => (hhead d hd).1,
              ← List.append_assoc blanks]
            refine .more hspells (by simp [hnil]) ?_ (foldl_pass_breaks hnil hlines) (Or.inl ?_)
              hnext hrest
            · exact List.forall_mem_append.mpr
                ⟨hkinds, fun d hd => Or.inl (List.eq_of_mem_replicate hd)⟩
            · obtain ⟨i, rfl⟩ := Nat.exists_eq_succ_of_ne_zero hindent.ne'
              rw [List.replicate_succ', ← List.append_assoc, List.getLast?_concat]

end Reading

end Cascade.Yaml
