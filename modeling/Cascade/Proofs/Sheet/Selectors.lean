import Cascade.Proofs.Sheet.Laps
import Cascade.Proofs.Sheet.Matching
import Cascade.Proofs.Text.Backward

/-!
# The canonical form of a selector

A text is read as symbols, and its words are the maximal runs of symbols that are not white space.
Putting a space between the words changes nothing about how each of them is read, as a space
continues no character. So the canonical form has the words of the text, and two texts have one
canonical form if and only if they have the same words.
-/

namespace Cascade

open Utf8

/-! ## Maximal runs -/

/-- `MaximalRuns ys ws`: the maximal runs of symbols of `ys` that are not white space are `ws`, in
order. A run ends at white space or at the end. -/
inductive MaximalRuns : List Symbol → List (List Symbol) → Prop
  | nil : MaximalRuns [] []
  | blank {y : Symbol} {ys : List Symbol} {ws : List (List Symbol)} : y.isBlank = true →
      MaximalRuns ys ws → MaximalRuns (y :: ys) ws
  | run {w ys : List Symbol} {ws : List (List Symbol)} : w ≠ [] → (∀ y ∈ w, y.isBlank = false) →
      (∀ y ∈ ys.head?, y.isBlank = true) → MaximalRuns ys ws → MaximalRuns (w ++ ys) (w :: ws)

namespace MaximalRuns

theorem exists_runs (ys : List Symbol) : ∃ ws, MaximalRuns ys ws := by
  induction ys with
  | nil => exact ⟨[], .nil⟩
  | cons y ys ih =>
      obtain ⟨ws, hws⟩ := ih
      cases hy : y.isBlank with
      | true => exact ⟨ws, .blank hy hws⟩
      | false =>
          -- the symbol starts a run, or it lengthens the one that starts behind it
          have hone : ∀ x ∈ [y], x.isBlank = false := by simpa using hy
          cases hws with
          | nil => exact ⟨[[y]], .run (List.cons_ne_nil _ _) hone nofun .nil⟩
          | blank hblank hws =>
              refine ⟨[y] :: ws, .run (List.cons_ne_nil _ _) hone ?_ (.blank hblank hws)⟩
              simpa using hblank
          | @run w ys ws hne hw hend hws =>
              refine ⟨(y :: w) :: ws, .run (List.cons_ne_nil _ _) ?_ hend hws⟩
              simpa [hy] using hw

/-- The words of a text are its maximal runs. -/
theorem words_eq {ys : List Symbol} {ws : List (List Symbol)} (h : MaximalRuns ys ws) :
    (ys.splitOnP Symbol.isBlank).filter (fun w => !w.isEmpty) = ws := by
  induction h with
  | nil => rfl
  | blank hy _ ih =>
      rw [List.splitOnP_cons_eq_if_modifyHead, if_pos hy]
      exact ih
  | @run w ys ws hne hw hend _ ih =>
      have hkept : (!w.isEmpty) = true := by simpa using hne
      cases ys with
      | nil =>
          rw [List.splitOnP_nil] at ih
          rw [List.append_nil, List.splitOnP_eq_singleton hw, List.filter_cons, if_pos hkept, ← ih]
          rfl
      | cons y ys =>
          have hy : y.isBlank = true := hend y rfl
          rw [List.splitOnP_cons_eq_if_modifyHead, if_pos hy] at ih
          rw [List.splitOnP_append_cons_of_forall_mem hw y hy, List.filter_cons, if_pos hkept, ← ih]
          rfl

theorem unique {ys : List Symbol} {ws ws' : List (List Symbol)} (h : MaximalRuns ys ws)
    (h' : MaximalRuns ys ws') : ws = ws' :=
  h.words_eq.symm.trans h'.words_eq

/-- Every run is a part of the symbols. -/
theorem infix_of_mem {ys : List Symbol} {ws : List (List Symbol)} (h : MaximalRuns ys ws) :
    ∀ w ∈ ws, w <:+: ys := by
  induction h with
  | nil => exact nofun
  | blank _ _ ih =>
      intro w hw
      exact (ih w hw).trans (List.suffix_cons _ _).isInfix
  | run _ _ _ _ ih =>
      intro w hw
      rcases List.mem_cons.mp hw with rfl | hw
      · exact (List.prefix_append _ _).isInfix
      · exact (ih w hw).trans (List.suffix_append _ _).isInfix

theorem isWord_of_mem {ys : List Symbol} {ws : List (List Symbol)} (h : MaximalRuns ys ws) :
    ∀ w ∈ ws, w ≠ [] ∧ ∀ y ∈ w, y.isBlank = false := by
  induction h with
  | nil => exact nofun
  | blank _ _ ih => exact ih
  | run hne hw _ _ ih => exact List.forall_mem_cons.mpr ⟨⟨hne, hw⟩, ih⟩

/-- White space in front of the symbols is in no run. -/
theorem prepend {ys : List Symbol} {ws : List (List Symbol)} (h : MaximalRuns ys ws)
    {l : List Symbol} (hl : ∀ y ∈ l, y.isBlank = true) : MaximalRuns (l ++ ys) ws := by
  induction l with
  | nil => exact h
  | cons y l ih =>
      obtain ⟨hy, hl⟩ := List.forall_mem_cons.mp hl
      exact .blank hy (ih hl)

/-- White space behind the symbols is in no run. -/
theorem append {ys : List Symbol} {ws : List (List Symbol)} (h : MaximalRuns ys ws)
    {r : List Symbol} (hr : ∀ y ∈ r, y.isBlank = true) : MaximalRuns (ys ++ r) ws := by
  induction h with
  | nil =>
      have hblank := MaximalRuns.nil.prepend hr
      rwa [List.append_nil] at hblank
  | blank hy _ ih => exact .blank hy ih
  | @run w ys ws hne hw hend _ ih =>
      rw [List.append_assoc]
      refine .run hne hw ?_ ih
      cases ys with
      | nil =>
          intro y hy
          exact hr y (List.mem_of_head? hy)
      | cons x ys => exact hend

end MaximalRuns

def HasRuns (s : Bytes) (parts : List Bytes) : Prop :=
  ∃ ws, MaximalRuns (symbols s) ws ∧ parts = ws.map spell

theorem maximalRuns_words (s : Bytes) : MaximalRuns (symbols s) s.words := by
  obtain ⟨ws, hws⟩ := MaximalRuns.exists_runs (symbols s)
  rw [Bytes.words, hws.words_eq]
  exact hws

theorem symbols_spell_word {s : Bytes} {ws : List (List Symbol)} (h : MaximalRuns (symbols s) ws) :
    ∀ w ∈ ws, symbols (spell w) = w := by
  intro w hw
  obtain ⟨l, r, hlr⟩ := h.infix_of_mem w hw
  exact symbols_spell_right (symbols_spell_left hlr.symm)

/-! ## Words with spaces between them -/

def Symbol.space : Symbol := .char ' '

/-- White space occurs only as single spaces, each between two symbols that are not white space. -/
def Collapsed (ys : List Symbol) : Prop :=
  ∀ l y r, ys = l ++ y :: r → y.isBlank = true →
    y = Symbol.space ∧ (∃ x ∈ l.getLast?, x.isBlank = false) ∧ ∃ x ∈ r.head?, x.isBlank = false

theorem symbols_join {ws : List (List Symbol)} (h : ∀ w ∈ ws, symbols (spell w) = w) :
    symbols (Bytes.join (text " ") (ws.map spell)) = [Symbol.space].intercalate ws := by
  unfold Bytes.join
  induction ws with
  | nil => rfl
  | cons w ws ih =>
      obtain ⟨hw, hws⟩ := List.forall_mem_cons.mp h
      cases ws with
      | nil => simpa using hw
      | cons w' ws =>
          have hrest := ih hws
          rw [List.map_cons, List.map_cons, List.intercalate_cons_cons,
            List.intercalate_cons_cons, ← List.map_cons, ← hrest, List.append_assoc,
            List.append_assoc]
          -- a space continues no character, so the word in front of it is read as before
          have hcut : ∀ z,
              symbols (spell w ++ (text " " ++ z)) = w ++ Symbol.space :: symbols z := by
            intro z
            have htext : text " " ++ z = 0x20 :: z := rfl
            rw [htext, symbols_append _ (by simp; decide), hw, symbols_ascii_cons (by decide)]
            rfl
          exact hcut _

theorem intercalate_eq_cons {w : List Symbol} (hw : w ≠ []) (ws : List (List Symbol)) :
    ∃ y ys, w.head? = some y ∧ [Symbol.space].intercalate (w :: ws) = y :: ys := by
  obtain ⟨y, w, rfl⟩ := List.exists_cons_of_ne_nil hw
  cases ws with
  | nil => exact ⟨y, w, rfl, by simp⟩
  | cons w' ws => exact ⟨y, _, rfl, by rw [List.intercalate_cons_cons]; rfl⟩

theorem maximalRuns_intercalate {ws : List (List Symbol)}
    (h : ∀ w ∈ ws, w ≠ [] ∧ ∀ y ∈ w, y.isBlank = false) :
    MaximalRuns ([Symbol.space].intercalate ws) ws := by
  induction ws with
  | nil => exact .nil
  | cons w ws ih =>
      obtain ⟨⟨hne, hw⟩, hws⟩ := List.forall_mem_cons.mp h
      cases ws with
      | nil =>
          have hrun : MaximalRuns (w ++ []) [w] := .run hne hw nofun .nil
          simpa using hrun
      | cons w' ws =>
          have hspace : Symbol.space.isBlank = true := by decide
          rw [List.intercalate_cons_cons, List.append_assoc]
          refine .run hne hw ?_ (.blank hspace (ih hws))
          simpa using hspace

theorem collapsed_intercalate {ws : List (List Symbol)}
    (h : ∀ w ∈ ws, w ≠ [] ∧ ∀ y ∈ w, y.isBlank = false) :
    Collapsed ([Symbol.space].intercalate ws) := by
  induction ws with
  | nil =>
      intro l y r heq
      simp at heq
  | cons w ws ih =>
      obtain ⟨⟨hne, hw⟩, hws⟩ := List.forall_mem_cons.mp h
      have hrest := ih hws
      intro l y r heq hy
      cases ws with
      | nil =>
          have hmem : y ∈ w := by
            rw [List.intercalate_singleton] at heq
            rw [heq]
            simp
          rw [hw y hmem] at hy
          cases hy
      | cons w' ws =>
          rw [List.intercalate_cons_cons, List.append_assoc, List.singleton_append] at heq
          obtain ⟨x, xs, hx, hnext⟩ := intercalate_eq_cons (hws w' List.mem_cons_self).1 ws
          have hspace : l = w → y :: r = Symbol.space :: [Symbol.space].intercalate (w' :: ws) →
              y = Symbol.space ∧ (∃ x ∈ l.getLast?, x.isBlank = false) ∧
                ∃ x ∈ r.head?, x.isBlank = false := by
            rintro rfl hyr
            obtain ⟨rfl, rfl⟩ := List.cons.inj hyr
            refine ⟨rfl, ⟨l.getLast hne, List.getLast?_eq_some_getLast hne, ?_⟩, x, ?_, ?_⟩
            · exact hw _ (List.getLast_mem hne)
            · rw [hnext]
              rfl
            · exact (hws w' List.mem_cons_self).2 x (List.mem_of_head? hx)
          rcases List.append_eq_append_iff.mp heq with ⟨mid, rfl, hmid⟩ | ⟨mid, rfl, hmid⟩
          · cases mid with
            | nil => exact hspace (List.append_nil w) hmid.symm
            | cons m mid =>
                -- what is behind the first space is not affected by what is in front of it
                obtain ⟨rfl, hlater⟩ := List.cons.inj hmid
                obtain ⟨hyspace, ⟨z, hz, hzblank⟩, hnextr⟩ := hrest mid y r hlater hy
                refine ⟨hyspace, ⟨z, ?_, hzblank⟩, hnextr⟩
                rw [List.getLast?_append, List.getLast?_cons, hz]
                rfl
          · cases mid with
            | nil => exact hspace (List.append_nil l).symm hmid
            | cons m mid =>
                obtain ⟨rfl, _⟩ := List.cons.inj hmid
                rw [hw y (by simp)] at hy
                cases hy

/-! ## The canonical form -/

theorem symbols_normalize (s : Bytes) :
    symbols (normalize s) = [Symbol.space].intercalate s.words :=
  symbols_join (symbols_spell_word (maximalRuns_words s))

theorem words_normalize (s : Bytes) : (normalize s).words = s.words := by
  have hruns := maximalRuns_intercalate (maximalRuns_words s).isWord_of_mem
  rw [← symbols_normalize] at hruns
  exact (maximalRuns_words (normalize s)).unique hruns

theorem normalize_eq_iff {a b : Bytes} : normalize a = normalize b ↔ a.words = b.words := by
  constructor
  · intro h
    rw [← words_normalize a, ← words_normalize b, h]
  · intro h
    rw [normalize, normalize, h]

theorem words_trim (s : Bytes) : s.trim.words = s.words := by
  obtain ⟨l, r, hsym, hl, hr, _⟩ := Bytes.symbols_trim s
  have hruns := ((maximalRuns_words s.trim).prepend hl).append hr
  rw [← hsym] at hruns
  exact hruns.unique (maximalRuns_words s)

theorem hasRuns_iff {s : Bytes} {parts : List Bytes} :
    HasRuns s parts ↔ parts = s.words.map spell := by
  constructor
  · rintro ⟨ws, hws, rfl⟩
    rw [hws.unique (maximalRuns_words s)]
  · intro h
    exact ⟨s.words, maximalRuns_words s, h⟩

/-- The runs determine the canonical form, since they are what it is made of. -/
theorem normalize_eq_iff_hasRuns {a b : Bytes} :
    normalize a = normalize b ↔ ∃ parts, HasRuns a parts ∧ HasRuns b parts := by
  constructor
  · intro h
    refine ⟨a.words.map spell, hasRuns_iff.mpr rfl, ?_⟩
    rw [hasRuns_iff, normalize_eq_iff.mp h]
  · rintro ⟨parts, ha, hb⟩
    rw [normalize, normalize, ← hasRuns_iff.mp ha, ← hasRuns_iff.mp hb]

/-! ## The selectors of a scan -/

namespace Scan

open Lexeme

/-- The selector of a rule is what stands before its first opening brace, trimmed. -/
theorem Lap.selector_eq {o : Nat} {taken rest : List Lexeme} {es : List Event} {t : Token}
    {selector body : Bytes} (h : Lap o taken rest es) (hmem : .token t ∈ es)
    (hitem : t.item = .rule selector body) :
    ∃ pre post, taken ++ rest = pre ++ .code openBrace :: post ∧
      (∀ l ∈ pre, l.isCode (stops false) = false) ∧ t.offset = o ∧
      selector = (source pre).trim := by
  cases h with
  | blank _ _ => cases hmem
  | dropped _ => simp at hmem
  | openDropped _ => simp at hmem
  | @rule pre inner rest _ hpre _ =>
      obtain rfl : t = _ := by simpa using hmem
      cases hitem
      exact ⟨pre, inner ++ .code closeBrace :: rest, by simp, hpre, rfl, rfl⟩
  | @openRule pre inner _ hpre _ =>
      obtain rfl : t = _ := by simpa using hmem
      cases hitem
      exact ⟨pre, inner, by simp, hpre, rfl, rfl⟩
  | _ =>
      obtain rfl : t = _ := by simpa using hmem
      cases hitem

end Scan

theorem Sheet.selector_eq_trim {s : Bytes} {t : Token} {selector body : Bytes}
    (ht : t ∈ (Sheet.scan s).tokens) (hitem : t.item = .rule selector body) :
    ∃ o p : Nat, t.offset = o ∧ IsLeast (Openers s o false) p ∧
      selector = Bytes.trim ((s.take p).drop o) := by
  obtain ⟨e, he, htoken⟩ := List.mem_filterMap.mp ht
  cases e with
  | recovered o p => cases htoken
  | dropped rule => cases htoken
  | token t' =>
      cases htoken
      obtain ⟨es, es', hevents⟩ := List.append_of_mem he
      obtain ⟨pre, taken, rest, _, _, _, hsplit, hlap, _⟩ :=
        Scan.exists_lap_of_event (Lexeme.lexed_ofBytes s) hevents
      have hahead := ofBytes_drop_extent hsplit
      obtain ⟨title, post, heq, htitle, ho, rfl⟩ := hlap.selector_eq (by simp) hitem
      rw [heq] at hahead
      refine ⟨Lexeme.extent pre, Lexeme.extent pre + Lexeme.extent title, by simpa using ho,
        (isLeast_openers hahead htitle).1, ?_⟩
      rw [source_eq_slice hahead]

/-- The canonical form is one up to white space, for texts with stray bytes too. It is a canonical
form of itself. White space occurs in it only as single spaces between symbols that are not white
space. A text has one list of maximal runs, and texts with the same list, and only these, share a
canonical form. Trimming, which finds the end of a text from the end, leaves the canonical form as
it is. So the selectors of a scan, which are trimmed, have the canonical form of what the source has
between the start of the rule and its first opening brace. -/
theorem normalize_canonical (a b : Bytes) :
    normalize (normalize a) = normalize a ∧
    Collapsed (symbols (normalize a)) ∧
    (∃ parts, ∀ parts', HasRuns a parts' ↔ parts' = parts) ∧
    (normalize a = normalize b ↔ ∃ parts, HasRuns a parts ∧ HasRuns b parts) ∧
    a.trim = Bytes.trimEnd (Bytes.trimStart a) ∧
    normalize a.trim = normalize a ∧
    ∀ s t selector body, t ∈ (Sheet.scan s).tokens → t.item = .rule selector body →
      ∃ o p : Nat, t.offset = o ∧ IsLeast (Openers s o false) p ∧
        selector = Bytes.trim ((s.take p).drop o) ∧
        normalize selector = normalize ((s.take p).drop o) := by
  have htrim : ∀ x : Bytes, normalize x.trim = normalize x := by
    intro x
    exact normalize_eq_iff.mpr (words_trim x)
  refine ⟨normalize_eq_iff.mpr (words_normalize a), ?_, ⟨a.words.map spell, fun _ => hasRuns_iff⟩,
    normalize_eq_iff_hasRuns, Bytes.trim_eq_trimEnd a, htrim a, ?_⟩
  · rw [symbols_normalize]
    exact collapsed_intercalate (maximalRuns_words a).isWord_of_mem
  · intro s t selector body ht hitem
    obtain ⟨o, p, ho, hopener, rfl⟩ := Sheet.selector_eq_trim ht hitem
    exact ⟨o, p, ho, hopener, rfl, htrim _⟩

/-- A stray byte right before white space, and white space of two and of three bytes. -/
theorem normalize_canonical_stray_byte :
    let a : Bytes := [0xC2, 0xC2, 0xA0, 0x62, 0xE3, 0x80, 0x80]
    let b : Bytes := [0x0A, 0xC2, 0x20, 0x09, 0x62]
    let s := a ++ text "\x7b\x7d"
    let t : Token := ⟨.rule a.trim [], 0⟩
    t ∈ (Sheet.scan s).tokens ∧ t.item = .rule a.trim [] ∧
    a.trim = [0xC2, 0xC2, 0xA0, 0x62] ∧ normalize a.trim = [0xC2, 0x20, 0x62] ∧
    (∃ parts, HasRuns a parts ∧ HasRuns b parts) ∧
    ∃ o p : Nat, t.offset = o ∧ IsLeast (Openers s o false) p ∧
      normalize a.trim = normalize ((s.take p).drop o) := by
  intro a b s t
  obtain ⟨_, _, _, hsame, _, htrim, hscan⟩ := normalize_canonical a b
  have ht : t ∈ (Sheet.scan s).tokens := by decide
  obtain ⟨o, p, ho, hopener, _, hselector⟩ := hscan s t a.trim [] ht rfl
  exact ⟨ht, rfl, by decide, htrim.trans (by decide), hsame.mp (by decide), o, p, ho, hopener,
    hselector⟩

end Cascade
