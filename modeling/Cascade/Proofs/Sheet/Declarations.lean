import Cascade.Sheet.Declaration
import Cascade.Proofs.Text.Symbols
import Cascade.Proofs.Sheet.Lexemes
import Mathlib.Data.List.Basic
import Mathlib.Data.List.Flatten

/-!
# Reading declarations and writing them down

What a rule body declares is trimmed and has no separator in it. Written one a
line, such declarations are read back, unless the writing puts a comment together.
Nothing is made up on the way: every byte of a declaration comes from the body.
-/

namespace Cascade

open Lexeme

/-! ## Taking comments out -/

/-- A text from which no comment is taken. -/
def Uncommented (s : Bytes) : Prop := ∀ l ∈ ofBytes s, l.stripped = l.bytes

theorem Lexeme.stripped_sublist (l : Lexeme) : l.stripped.Sublist l.bytes := by
  cases l with
  | code b => exact .refl _
  | comment t closed =>
      cases closed with
      | true => exact List.nil_sublist _
      | false => exact .refl _

theorem stripComments_sublist (s : Bytes) : (stripComments s).Sublist s := by
  have hsub : (stripComments s).Sublist (source (ofBytes s)) :=
    List.Sublist.flatMap_right _ fun l _ => l.stripped_sublist
  rwa [source_ofBytes] at hsub

/-- Every comment that is taken out takes a slash along. -/
theorem uncommented_of_count {s : Bytes} (h : (stripComments s).count slash = s.count slash) :
    Uncommented s := by
  have hall : ∀ {ls : List Lexeme}, Lexed ls →
      (ls.flatMap stripped).count slash = (source ls).count slash →
      ∀ l ∈ ls, l.stripped = l.bytes := by
    intro ls hls hcount
    induction hls with
    | nil => simp
    | @code b ls _ _ ih =>
        simp only [List.flatMap_cons, source_cons, List.count_append, stripped, bytes] at hcount
        have hrest := ih (by omega)
        simpa [stripped, bytes] using hrest
    | @comment inner ls _ _ ih =>
        have hle := (stripComments_sublist (source ls)).count_le slash
        rw [stripComments, Lexed.ofBytes_source (by assumption)] at hle
        simp only [List.flatMap_cons, source_cons, List.count_append, stripped, bytes, if_true,
          List.count_nil, List.count_cons_self] at hcount
        omega
    | openComment _ => simp [stripped, bytes]
  refine hall (lexed_ofBytes s) ?_
  rwa [source_ofBytes]

theorem stripComments_eq_self_iff {s : Bytes} : stripComments s = s ↔ Uncommented s := by
  constructor
  · intro h
    exact uncommented_of_count (by rw [h])
  · intro h
    rw [stripComments, List.flatMap_def, List.map_congr_left h, ← List.flatMap_def]
    exact source_ofBytes s

/-- Text without a slash closes no comment. -/
theorem uncommented_append_iff {s u : Bytes} (hu : slash ∉ u) (hstar : u.head? ≠ some star) :
    Uncommented (s ++ u) ↔ Uncommented s := by
  rw [Uncommented, Uncommented]
  rcases ofBytes_append_cases hu hstar with ⟨_, hread⟩ | ⟨xs, t, hs, hread⟩
  · rw [hread]
    constructor
    · exact fun h l hl => h l (List.mem_append_left _ hl)
    · intro h l hl
      rcases List.mem_append.mp hl with hl | hl
      · exact h l hl
      · obtain ⟨b, _, rfl⟩ := List.mem_map.mp hl
        rfl
  · rw [hs, hread]
    simp [or_imp, forall_and, stripped, bytes]

/-- A text without a comment opener has no comment. -/
theorem ofBytes_eq_map_code {s : Bytes} (h : ¬ [slash, star] <:+: s) :
    ofBytes s = s.map .code := by
  induction s with
  | nil => rfl
  | cons a s ih =>
      have hrest : ¬ [slash, star] <:+: s := fun hs => h (hs.trans (List.suffix_cons a s).isInfix)
      rw [ofBytes_cons]
      rcases read_cases a s with ⟨inner, _, rfl, rfl, _⟩ | ⟨inner, rfl, rfl, _⟩ | ⟨_, hread⟩
      · exact absurd ⟨[], inner, rfl⟩ h
      · exact absurd ⟨[], inner, rfl⟩ h
      · rw [hread, List.drop_zero, ih hrest, List.map_cons]

theorem uncommented_of_code {s : Bytes} (h : ofBytes s = s.map .code) : Uncommented s := by
  intro l hl
  rw [h] at hl
  obtain ⟨b, _, rfl⟩ := List.mem_map.mp hl
  rfl

/-! ## Segments -/

namespace Bytes

theorem cut_append {sep : UInt8} {a : Bytes} (ha : sep ∉ a) (b : Bytes) :
    cut sep (a ++ sep :: b) = some (a, b) := by
  induction a with
  | nil => simp [cut]
  | cons x a ih =>
      have hx : x ≠ sep := fun h => ha (h ▸ List.mem_cons_self)
      simp [cut, hx, ih fun h => ha (List.mem_cons_of_mem _ h)]

theorem cut_eq_none_iff {sep : UInt8} {s : Bytes} : cut sep s = none ↔ sep ∉ s := by
  induction s with
  | nil => simp [cut]
  | cons x s ih =>
      by_cases hx : x = sep
      · simp [cut, hx]
      · simp [cut, hx, ih, Ne.symm hx]

theorem cut_eq_some {sep : UInt8} {s a b : Bytes} (h : cut sep s = some (a, b)) :
    s = a ++ sep :: b ∧ sep ∉ a := by
  induction s generalizing a with
  | nil => cases h
  | cons x s ih =>
      rw [cut] at h
      split at h
      · next hx =>
          obtain rfl : x = sep := by simpa using hx
          cases h
          simp
      · next hx =>
          obtain ⟨⟨a', b'⟩, hcut, hp⟩ := Option.map_eq_some_iff.mp h
          cases hp
          obtain ⟨rfl, ha⟩ := ih hcut
          refine ⟨rfl, ?_⟩
          have hne : x ≠ sep := by simpa using hx
          simp [ha, hne.symm]

/-- A text is one segment, or a segment and the segments behind the separator. -/
theorem splitOn_induction (sep : UInt8) {motive : Bytes → List Bytes → Prop}
    (last : ∀ s, sep ∉ s → motive s [s])
    (cons : ∀ a s, sep ∉ a → motive s (s.splitOn sep) →
      motive (a ++ sep :: s) (a :: s.splitOn sep))
    (s : Bytes) : motive s (s.splitOn sep) := by
  induction hn : s.length using Nat.strongRecOn generalizing s with
  | ind n ih =>
      cases hcut : cut sep s with
      | none =>
          have hsep := cut_eq_none_iff.mp hcut
          rw [List.splitOn_eq_singleton hsep]
          exact last s hsep
      | some p =>
          obtain ⟨a, b⟩ := p
          obtain ⟨rfl, ha⟩ := cut_eq_some hcut
          rw [List.splitOn_append_cons_self_of_not_mem ha]
          refine cons a b ha (ih b.length ?_ b rfl)
          rw [← hn, List.length_append, List.length_cons]
          omega

end Bytes

namespace Declaration

/-- The declaration has no separator in it and no white space around its parts. -/
structure Clean (d : Declaration) : Prop where
  property_trim : d.property.trim = d.property
  value_trim : d.value.trim = d.value
  colon_not_mem : colon ∉ d.property
  property_semicolon : semicolon ∉ d.property
  value_semicolon : semicolon ∉ d.value

def fields (d : Declaration) : Bytes := d.property ++ d.value

theorem ofSegment?_eq_some {segment : Bytes} {d : Declaration} (h : ofSegment? segment = some d)
    (hsep : semicolon ∉ segment) :
    d.Clean ∧ d.fields.Sublist segment ∧ d.property <:+: segment ∧ d.value <:+: segment := by
  obtain ⟨⟨a, b⟩, hcut, rfl⟩ := Option.map_eq_some_iff.mp h
  obtain ⟨hseg, ha⟩ := Bytes.cut_eq_some hcut
  have htrim := Bytes.trim_infix segment
  rw [hseg] at htrim
  have hp : a.trim <:+: segment := by
    refine (Bytes.trim_infix a).trans (List.IsInfix.trans ?_ htrim)
    exact (List.prefix_append a _).isInfix
  have hv : b.trim <:+: segment := by
    refine (Bytes.trim_infix b).trans (List.IsInfix.trans ?_ htrim)
    exact ((List.suffix_cons colon b).trans (List.suffix_append a _)).isInfix
  refine ⟨⟨Bytes.trim_trim a, Bytes.trim_trim b, fun hc => ha ?_, fun hc => hsep ?_,
    fun hc => hsep ?_⟩, ?_, hp, hv⟩
  · exact (Bytes.trim_infix a).subset hc
  · exact hp.subset hc
  · exact hv.subset hc
  · refine List.Sublist.trans ?_ htrim.sublist
    exact (Bytes.trim_infix a).sublist.append
      ((Bytes.trim_infix b).sublist.trans (List.sublist_cons_self colon b))

/-- The declarations of a body are clean, and all their bytes come from the body. -/
theorem parse_spec (body : Bytes) :
    (∀ d ∈ parse body, d.Clean ∧ d.property <:+: stripComments body ∧
      d.value <:+: stripComments body) ∧
    ((parse body).flatMap fields).Sublist (stripComments body) := by
  refine Bytes.splitOn_induction semicolon
    (motive := fun s segments =>
      (∀ d ∈ segments.filterMap ofSegment?, d.Clean ∧ d.property <:+: s ∧ d.value <:+: s) ∧
      ((segments.filterMap ofSegment?).flatMap fields).Sublist s)
    (fun s hs => ?_) (fun a s ha ih => ?_) (stripComments body)
  · cases hseg : ofSegment? s with
    | none => simp [hseg]
    | some d =>
        obtain ⟨hclean, hsub, hp, hv⟩ := ofSegment?_eq_some hseg hs
        simpa [hseg] using ⟨⟨hclean, hp, hv⟩, hsub⟩
  · have hs : s <:+: a ++ semicolon :: s :=
      ((List.suffix_cons semicolon s).trans (List.suffix_append a _)).isInfix
    have hrest : ∀ d ∈ (s.splitOn semicolon).filterMap ofSegment?, d.Clean ∧
        d.property <:+: a ++ semicolon :: s ∧ d.value <:+: a ++ semicolon :: s := fun d hd =>
      ⟨(ih.1 d hd).1, (ih.1 d hd).2.1.trans hs, (ih.1 d hd).2.2.trans hs⟩
    have hback := ih.2.trans (List.sublist_cons_self semicolon s)
    cases hseg : ofSegment? a with
    | none =>
        rw [List.filterMap_cons_none hseg]
        exact ⟨hrest, hback.trans (List.sublist_append_right a _)⟩
    | some d =>
        obtain ⟨hclean, hsub, hp, hv⟩ := ofSegment?_eq_some hseg ha
        have hfront : a <:+: a ++ semicolon :: s := (List.prefix_append a _).isInfix
        rw [List.filterMap_cons_some hseg, List.flatMap_cons]
        refine ⟨fun x hx => ?_, hsub.append hback⟩
        rcases List.mem_cons.mp hx with rfl | hx
        · exact ⟨hclean, hp.trans hfront, hv.trans hfront⟩
        · exact hrest x hx

theorem clean_of_mem_parse {body : Bytes} {d : Declaration} (h : d ∈ parse body) : d.Clean :=
  ((parse_spec body).1 d h).1

/-! ## Writing declarations down -/

theorem line_eq (d : Declaration) :
    d.line = 0x0A :: 0x20 :: 0x20 :: (d.property ++ colon :: 0x20 :: (d.value ++ [semicolon])) := by
  simp only [line, List.append_assoc]
  rfl

@[simp] theorem format_nil : format [] = [0x0A] := rfl

@[simp] theorem format_cons (d : Declaration) (ds : List Declaration) :
    format (d :: ds) = d.line ++ format ds := by
  simp [format]

/-- A colon splits the symbols around it, and is no white space itself. -/
theorem symbols_colon (p z : Bytes) :
    Utf8.symbols (p ++ colon :: z) = Utf8.symbols p ++ .char ':' :: Utf8.symbols z := by
  rw [Utf8.symbols_append p (by simp; decide), Utf8.symbols_ascii_cons (by decide)]
  rfl

theorem head_symbols_colon {p : Bytes} (hp : p.trim = p) (z : Bytes) :
    ∀ y ∈ (Utf8.symbols (p ++ colon :: z)).head?, y.isBlank = false := by
  intro y hy
  rw [symbols_colon, List.head?_append] at hy
  cases hhead : (Utf8.symbols p).head? with
  | some first =>
      rw [hhead] at hy
      cases hy
      exact (Bytes.trim_eq_self_iff.mp hp).1 _ hhead
  | none =>
      rw [hhead] at hy
      cases hy
      decide

/-- A line without its semicolon is read as its declaration. -/
theorem ofSegment?_line {d : Declaration} (h : d.Clean) :
    ofSegment? (0x0A :: 0x20 :: 0x20 :: (d.property ++ colon :: 0x20 :: d.value)) = some d := by
  rw [ofSegment?, Bytes.trim_cons_blank (by decide) (by decide),
    Bytes.trim_cons_blank (by decide) (by decide), Bytes.trim_cons_blank (by decide) (by decide)]
  obtain ⟨property, value⟩ := d
  rcases value with _ | ⟨x, v⟩
  · -- the space behind the colon is white space at the end
    have hshort : Bytes.trim (property ++ [colon]) = property ++ [colon] := by
      refine Bytes.trim_eq_self_iff.mpr ⟨head_symbols_colon h.property_trim [], ?_⟩
      rw [symbols_colon]
      simp
      decide
    have htrim : Bytes.trim (property ++ [colon, 0x20]) = property ++ [colon] := by
      refine (Bytes.trim_append_blank (s := property ++ [colon]) (l := []) (r := [.char ' '])
        ?_ (by simp) (by decide)).trans hshort
      rw [symbols_colon, symbols_colon]
      simp
      decide
    simp only [htrim, Bytes.cut_append h.colon_not_mem, Option.map_some]
    rw [h.property_trim]
    rfl
  · -- the last symbol is that of the value, which is trimmed
    have htrim : Bytes.trim (property ++ colon :: 0x20 :: x :: v) =
        property ++ colon :: 0x20 :: x :: v := by
      refine Bytes.trim_eq_self_iff.mpr ⟨head_symbols_colon h.property_trim _, fun y hy => ?_⟩
      have hlast := (Bytes.trim_eq_self_iff.mp h.value_trim).2
      have hne : Utf8.symbols (x :: v) ≠ [] := by
        rw [Utf8.symbols_cons]
        simp
      rw [symbols_colon, Utf8.symbols_ascii_cons (by decide), List.getLast?_append,
        List.getLast?_cons_of_ne_nil (by simp), List.getLast?_cons_of_ne_nil hne,
        List.getLast?_eq_some_getLast hne, Option.some_or] at hy
      exact hlast y ((List.getLast?_eq_some_getLast hne).trans hy)
    simp only [htrim, Bytes.cut_append h.colon_not_mem, Option.map_some]
    rw [h.property_trim, Bytes.trim_cons_blank (by decide) (by decide), h.value_trim]

theorem splitOn_format {ds : List Declaration} (hds : ∀ d ∈ ds, d.Clean) {tail : Bytes}
    (htail : semicolon ∉ tail) :
    (format ds ++ tail).splitOn semicolon =
      ds.map (fun d => 0x0A :: 0x20 :: 0x20 :: (d.property ++ colon :: 0x20 :: d.value)) ++
        [0x0A :: tail] := by
  induction ds with
  | nil =>
      rw [format_nil, List.singleton_append, List.splitOn_eq_singleton]
      · rfl
      · simpa [semicolon] using htail
  | cons d ds ih =>
      have hd := hds d List.mem_cons_self
      have hline : format (d :: ds) ++ tail =
          (0x0A :: 0x20 :: 0x20 :: (d.property ++ colon :: 0x20 :: d.value)) ++
            semicolon :: (format ds ++ tail) := by
        simp [line_eq]
      have hsep : semicolon ∉
          (0x0A :: 0x20 :: 0x20 :: (d.property ++ colon :: 0x20 :: d.value) : Bytes) := by
        have hp := hd.property_semicolon
        have hv := hd.value_semicolon
        simp only [semicolon, colon] at hp hv ⊢
        simp [hp, hv]
      rw [hline, List.splitOn_append_cons_self_of_not_mem hsep,
        ih fun x hx => hds x (List.mem_cons_of_mem _ hx)]
      rfl

/-- Clean declarations one a line are read off whatever leaves them once its comments are taken
out. What follows the last line feed may be any text without a separator. -/
theorem parse_of_stripComments_append {ds : List Declaration} (hds : ∀ d ∈ ds, d.Clean)
    {body tail : Bytes} (hsemicolon : semicolon ∉ tail) (hcolon : colon ∉ tail)
    (hbody : stripComments body = format ds ++ tail) : parse body = ds := by
  have hlast : ofSegment? (0x0A :: tail) = none := by
    rw [ofSegment?, Option.map_eq_none_iff, Bytes.cut_eq_none_iff]
    intro hmem
    have hmem := (Bytes.trim_infix _).subset hmem
    rcases List.mem_cons.mp hmem with hfeed | hmem
    · exact absurd hfeed (by decide)
    · exact hcolon hmem
  rw [parse, hbody, splitOn_format hds hsemicolon, List.filterMap_append,
    List.filterMap_cons_none hlast, List.filterMap_nil, List.append_nil, List.filterMap_map]
  refine (List.filterMap_congr fun d hd => ?_).trans List.filterMap_some
  exact ofSegment?_line (hds d hd)

/-- Clean declarations one a line are read back, unless a comment has come together. -/
theorem parse_format_append {ds : List Declaration} (hds : ∀ d ∈ ds, d.Clean) {tail : Bytes}
    (hsemicolon : semicolon ∉ tail) (hcolon : colon ∉ tail)
    (hplain : Uncommented (format ds ++ tail)) : parse (format ds ++ tail) = ds :=
  parse_of_stripComments_append hds hsemicolon hcolon (stripComments_eq_self_iff.mpr hplain)

/-- Declarations one a line, up to a closing brace, can be read in one way only. -/
theorem format_append_inj {ds es : List Declaration} (hds : ∀ d ∈ ds, d.Clean)
    (hes : ∀ e ∈ es, e.Clean) {x y : Bytes}
    (h : format ds ++ closeBrace :: x = format es ++ closeBrace :: y) : ds = es ∧ x = y := by
  induction ds generalizing es with
  | nil =>
      cases es with
      | nil => simpa using h
      | cons e es => simp [line_eq, closeBrace] at h
  | cons d ds ih =>
      cases es with
      | nil => simp [line_eq, closeBrace] at h
      | cons e es =>
          have hd := hds d List.mem_cons_self
          have he := hes e List.mem_cons_self
          simp only [format_cons, line_eq, List.cons_append, List.append_assoc, List.nil_append,
            List.cons.injEq, true_and] at h
          -- the first colon ends the property, the first semicolon the value
          have hproperty := congrArg (Bytes.cut colon) h
          rw [Bytes.cut_append hd.colon_not_mem, Bytes.cut_append he.colon_not_mem] at hproperty
          obtain ⟨hp, hrest⟩ := Prod.mk.inj (Option.some.inj hproperty)
          have hvalue := congrArg (Bytes.cut semicolon) (List.cons.inj hrest).2
          rw [Bytes.cut_append hd.value_semicolon, Bytes.cut_append he.value_semicolon] at hvalue
          obtain ⟨hv, hmore⟩ := Prod.mk.inj (Option.some.inj hvalue)
          obtain ⟨rfl, rfl⟩ := ih (fun z hz => hds z (List.mem_cons_of_mem _ hz))
            (fun z hz => hes z (List.mem_cons_of_mem _ hz)) hmore
          refine ⟨?_, rfl⟩
          congr 1
          cases d
          cases e
          simp_all

/-- Apart from the layout, the bytes written are the bytes of the declarations. -/
theorem count_format {c : UInt8} (hc : c ∉ [0x0A, 0x20, colon, semicolon])
    (ds : List Declaration) : (format ds).count c = (ds.flatMap fields).count c := by
  simp only [List.mem_cons, List.not_mem_nil, or_false, not_or] at hc
  obtain ⟨hfeed, hspace, hcolon, hsemicolon⟩ := hc
  induction ds with
  | nil => simp [Ne.symm hfeed]
  | cons d ds ih =>
      simp [line_eq, fields, List.count_append, Ne.symm hfeed, Ne.symm hspace, Ne.symm hcolon,
        Ne.symm hsemicolon, ih]

/-- Lines of declarations without comments have no comment. -/
theorem ofBytes_format {ds : List Declaration}
    (hds : ∀ d ∈ ds, ofBytes d.property = d.property.map .code ∧
      ofBytes d.value = d.value.map .code) :
    ofBytes (format ds) = (format ds).map .code := by
  have hopen : ∀ {p : Bytes}, ofBytes p = p.map .code → ∀ l ∈ ofBytes p, l.isOpen = false := by
    intro p hp l hl
    rw [hp] at hl
    obtain ⟨b, _, rfl⟩ := List.mem_map.mp hl
    rfl
  induction ds with
  | nil => rfl
  | cons d ds ih =>
      obtain ⟨hp, hv⟩ := hds d List.mem_cons_self
      have hfeed := ofBytes_code_append (u := [0x0A, 0x20, 0x20]) (by decide)
        (d.property ++ ([colon, 0x20] ++ (d.value ++ ([semicolon] ++ format ds))))
      rw [ofBytes_append (hopen hp) (by simp; decide), hp,
        ofBytes_code_append (u := [colon, 0x20]) (by decide),
        ofBytes_append (hopen hv) (by simp; decide), hv,
        ofBytes_code_append (u := [semicolon]) (by decide),
        ih fun x hx => hds x (List.mem_cons_of_mem _ hx)] at hfeed
      simpa [line_eq] using hfeed

end Declaration

end Cascade
