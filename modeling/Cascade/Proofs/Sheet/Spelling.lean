import Cascade.Proofs.Sheet.Laps

/-!
# Spelling items out

An item that a scan has found can be written down so that a scan finds it again.
Headers and selectors are trimmed, and what trimming takes away is code; a block
is found again if its interior is balanced. So a list of items, one a line, reads
as itself, except that the last one may run to the end of the text.
-/

namespace Cascade

open Lexeme Scan

/-! ## Trimmed text among lexemes -/

/-- Trimming a text takes code bytes off both ends and leaves its other lexemes. -/
theorem Lexeme.ofBytes_trim {s : Bytes} (hs : ∀ x ∈ ofBytes s, x.isOpen = false) :
    ∃ l r : List Symbol, Utf8.symbols s = l ++ Utf8.symbols s.trim ++ r ∧
      (∀ y ∈ l, y.isBlank = true) ∧
      ofBytes s = (Utf8.spell l).map .code ++ (ofBytes s.trim ++ (Utf8.spell r).map .code) := by
  obtain ⟨l, r, hsym, hl, hr, _⟩ := Bytes.symbols_trim s
  refine ⟨l, r, hsym, hl, ?_⟩
  have htext : s = Utf8.spell l ++ (s.trim ++ Utf8.spell r) := by
    have hspell := congrArg Utf8.spell hsym
    simpa using hspell
  have hfront : ofBytes s = (Utf8.spell l).map .code ++ ofBytes (s.trim ++ Utf8.spell r) := by
    conv_lhs => rw [htext]
    exact ofBytes_code_append (Utf8.not_mem_spell_of_isBlank hl (by decide)) _
  have hslash : slash ∉ Utf8.spell r := Utf8.not_mem_spell_of_isBlank hr (by decide)
  have hstar : (Utf8.spell r).head? ≠ some star := fun h =>
    Utf8.not_mem_spell_of_isBlank hr (by decide) (List.mem_of_head? h)
  have hback : ∀ x ∈ ofBytes (s.trim ++ Utf8.spell r), x.isOpen = false := fun x hx =>
    hs x (hfront ▸ List.mem_append_right _ hx)
  rcases ofBytes_append_cases hslash hstar with ⟨_, hcode⟩ | ⟨xs, t, _, hopen⟩
  · rw [hfront, hcode]
  · have hfalse := hback (.comment (t ++ Utf8.spell r) false) (by rw [hopen]; simp)
    exact Bool.noConfusion hfalse

/-- What can stand between `@` and the block of an @-rule, trimmed. -/
structure IsHeader (h : Bytes) : Prop where
  trim_eq : h.trim = h
  lexemes : ∀ l ∈ ofBytes h, l.isCode endsPrelude = false ∧ l.isOpen = false

structure IsSelector (s : Bytes) : Prop where
  trim_eq : s.trim = s
  lexemes : ∀ l ∈ ofBytes s, l.isCode (· == openBrace) = false ∧ l.isOpen = false
  head : ∀ l ∈ (ofBytes s).head?, ∃ b, l = .code b ∧ b ≠ 0x40

theorem isHeader_trim {pre rest : List Lexeme} (hlex : Lexed (pre ++ .code openBrace :: rest))
    (hpre : ∀ l ∈ pre, l.isCode endsPrelude = false) : IsHeader (source pre).trim := by
  have hread := hlex.of_append_left.ofBytes_source
  obtain ⟨l, r, _, _, hsplit⟩ := ofBytes_trim (s := source pre)
    (by rw [hread]; exact hlex.isOpen_eq_false)
  rw [hread] at hsplit
  refine ⟨Bytes.trim_trim _, fun x hx => ?_⟩
  have hmem : x ∈ pre := by
    rw [hsplit]
    exact List.mem_append_right _ (List.mem_append_left _ hx)
  exact ⟨hpre x hmem, hlex.isOpen_eq_false x hmem⟩

/-- The first symbol of a plain text is no white space, so nothing is trimmed in front. -/
theorem isSelector_trim {pre rest : List Lexeme} (hlex : Lexed (pre ++ .code openBrace :: rest))
    (hplain : Plain (pre ++ .code openBrace :: rest))
    (hpre : ∀ l ∈ pre, l.isCode (· == openBrace) = false) : IsSelector (source pre).trim := by
  have hread := hlex.of_append_left.ofBytes_source
  obtain ⟨l, r, hsym, hl, hsplit⟩ := ofBytes_trim (s := source pre)
    (by rw [hread]; exact hlex.isOpen_eq_false)
  obtain ⟨b, tail, hahead, hb, hfirst⟩ := hplain
  have hl : l = [] := by
    rcases l with _ | ⟨y, l⟩
    · rfl
    · rw [source_append, Utf8.symbols_append _ (by simp [bytes]; decide), hsym] at hfirst
      have hy := hl y List.mem_cons_self
      rw [hfirst y rfl] at hy
      exact Bool.noConfusion hy
  subst hl
  rw [hread, Utf8.spell_nil, List.map_nil, List.nil_append] at hsplit
  refine ⟨Bytes.trim_trim _, fun x hx => ?_, fun x hx => ?_⟩
  · have hmem : x ∈ pre := by
      rw [hsplit]
      exact List.mem_append_left _ hx
    exact ⟨hpre x hmem, hlex.isOpen_eq_false x hmem⟩
  · have hhead := congrArg List.head? hahead
    rw [hsplit, List.append_assoc, List.head?_append, hx] at hhead
    exact ⟨b, Option.some.inj hhead, hb⟩

theorem IsSelector.plain {s : Bytes} (h : IsSelector s) (rest : List Lexeme) :
    Plain (ofBytes s ++ .code openBrace :: rest) := by
  have hfirst : ∀ y ∈ (Utf8.symbols (source (ofBytes s ++ .code openBrace :: rest))).head?,
      y.isBlank = false := by
    intro y hy
    rw [source_append, source_ofBytes, Utf8.symbols_append _ (by simp [bytes]; decide),
      List.head?_append] at hy
    cases hs : (Utf8.symbols s).head? with
    | some z =>
        rw [hs] at hy
        cases hy
        exact (Bytes.trim_eq_self_iff.mp h.trim_eq).1 y hs
    | none =>
        rw [hs, head_symbols_code, Utf8.read_ascii (by decide)] at hy
        cases hy
        decide
  rcases hls : ofBytes s with _ | ⟨l, ls⟩
  · rw [hls] at hfirst
    exact ⟨openBrace, rest, rfl, by decide, hfirst⟩
  · obtain ⟨b, rfl, hb⟩ := h.head l (by rw [hls]; rfl)
    rw [hls] at hfirst
    exact ⟨b, _, rfl, hb, hfirst⟩

/-! ## Reading one item -/

theorem ofBytes_block {title : Bytes} (htitle : ∀ l ∈ ofBytes title, l.isOpen = false)
    (rest : Bytes) :
    ofBytes (title ++ openBrace :: rest) = ofBytes title ++ .code openBrace :: ofBytes rest := by
  have hbrace : ofBytes (openBrace :: rest) = .code openBrace :: ofBytes rest :=
    ofBytes_code_append (u := [openBrace]) (by decide) rest
  rw [ofBytes_append htitle (by simp; decide), hbrace]

theorem ofBytes_at (rest : Bytes) : ofBytes (0x40 :: rest) = .code 0x40 :: ofBytes rest :=
  ofBytes_code_append (u := [0x40]) (by decide) rest

theorem items_newline (y : Bytes) : items (ofBytes (0x0A :: y)) = items (ofBytes y) := by
  have hread : ofBytes (0x0A :: y) = [.code 0x0A] ++ ofBytes y :=
    ofBytes_code_append (u := [0x0A]) (by decide) y
  have hlex : Lexed ([.code 0x0A] ++ ofBytes y) := hread ▸ lexed_ofBytes _
  have hsym : Utf8.symbols ([0x0A] ++ source (ofBytes y)) =
      .char (Char.ofNat 0x0A) :: Utf8.symbols (source (ofBytes y)) :=
    Utf8.symbols_ascii_cons (by decide) _
  have hlap : Lap 0 [.code 0x0A] (ofBytes y) [] :=
    Lap.blank (y := .char (Char.ofNat 0x0A)) (by decide) hsym
  rw [hread, hlap.items_eq hlex]
  rfl

theorem items_comment {t : Bytes} (ht : ofBytes t = [.comment t true]) {y : Bytes}
    (hy : y.head? ≠ some star) : items (ofBytes (t ++ y)) = .comment t :: items (ofBytes y) := by
  have hread : ofBytes (t ++ y) = [.comment t true] ++ ofBytes y := by
    rw [ofBytes_append (by simp [ht, isOpen]) hy, ht]
  have hlex : Lexed ([.comment t true] ++ ofBytes y) := hread ▸ lexed_ofBytes _
  rw [hread, (Lap.comment (o := 0)).items_eq hlex]
  rfl

theorem items_rule {s b : Bytes} (hs : IsSelector s) (hb : Balanced b) (y : Bytes) :
    items (ofBytes (s ++ openBrace :: (b ++ closeBrace :: y))) =
      .rule s b :: items (ofBytes y) := by
  have hread : ofBytes (s ++ openBrace :: (b ++ closeBrace :: y)) =
      (ofBytes s ++ .code openBrace :: (ofBytes b ++ [.code closeBrace])) ++ ofBytes y := by
    rw [ofBytes_block fun l hl => (hs.lexemes l hl).2, hb.ofBytes_append]
    simp
  have hlap := Lap.rule (o := 0) (hs.plain _) (fun l hl => (hs.lexemes l hl).1)
    ((balanced_iff.mp hb).2 (ofBytes y))
  rw [source_ofBytes, source_ofBytes, hs.trim_eq] at hlap
  rw [hread, hlap.items_eq (hread ▸ lexed_ofBytes _)]
  rfl

theorem items_rule_unclosed {s b : Bytes} (hs : IsSelector s) (hb : Unclosed b) :
    items (ofBytes (s ++ openBrace :: b)) = [.rule s b] := by
  have hread := ofBytes_block (fun l hl => (hs.lexemes l hl).2) b
  have hlap := Lap.openRule (o := 0) (hs.plain _) (fun l hl => (hs.lexemes l hl).1) hb
  have hitems := hlap.items_eq (by rw [List.append_nil, ← hread]; exact lexed_ofBytes _)
  rw [source_ofBytes, source_ofBytes, hs.trim_eq, List.append_nil, ← hread] at hitems
  exact hitems

theorem items_atRule {h b : Bytes} (hh : IsHeader h) (hb : Balanced b) (y : Bytes) :
    items (ofBytes (0x40 :: (h ++ openBrace :: (b ++ closeBrace :: y)))) =
      .atRule h b :: items (ofBytes y) := by
  have hread : ofBytes (0x40 :: (h ++ openBrace :: (b ++ closeBrace :: y))) =
      (.code 0x40 :: (ofBytes h ++ .code openBrace :: (ofBytes b ++ [.code closeBrace]))) ++
        ofBytes y := by
    rw [ofBytes_at, ofBytes_block fun l hl => (hh.lexemes l hl).2, hb.ofBytes_append]
    simp
  have hlap := Lap.atRule (o := 0) (fun l hl => (hh.lexemes l hl).1)
    ((balanced_iff.mp hb).2 (ofBytes y))
  rw [source_ofBytes, source_ofBytes, hh.trim_eq] at hlap
  rw [hread, hlap.items_eq (hread ▸ lexed_ofBytes _)]
  rfl

theorem items_atRule_unclosed {h b : Bytes} (hh : IsHeader h) (hb : Unclosed b) :
    items (ofBytes (0x40 :: (h ++ openBrace :: b))) = [.atRule h b] := by
  have hread : ofBytes (0x40 :: (h ++ openBrace :: b)) =
      .code 0x40 :: (ofBytes h ++ .code openBrace :: ofBytes b) := by
    rw [ofBytes_at, ofBytes_block fun l hl => (hh.lexemes l hl).2]
  have hlap := Lap.openAtRule (o := 0) (fun l hl => (hh.lexemes l hl).1) hb
  have hitems := hlap.items_eq (by rw [List.append_nil, ← hread]; exact lexed_ofBytes _)
  rw [source_ofBytes, source_ofBytes, hh.trim_eq, List.append_nil, ← hread] at hitems
  exact hitems

/-! ## Items that can be read back -/

namespace Item

def spelling : Item → Bytes
  | .comment t => t
  | .atRule header body => 0x40 :: (header ++ openBrace :: (body ++ [closeBrace]))
  | .rule selector body => selector ++ openBrace :: (body ++ [closeBrace])
  | .other t => t
  | .blank => []

/-- The spelling of the item says where it ends. -/
def Closed : Item → Prop
  | .comment t => ofBytes t = [.comment t true]
  | .atRule header body => IsHeader header ∧ Balanced body
  | .rule selector body => IsSelector selector ∧ Balanced body
  | .other _ => False
  | .blank => False

/-- The item takes whatever follows, and has no block. -/
def Trailing : Item → Prop
  | .comment t => ofBytes t = [.comment t false]
  | .other t => Plain (ofBytes t) ∧ ∀ l ∈ ofBytes t, l.isCode (· == openBrace) = false
  | _ => False

def Unfinished : Item → Prop
  | .atRule header body => IsHeader header ∧ Unclosed body
  | .rule selector body => IsSelector selector ∧ Unclosed body
  | _ => False

theorem Closed.items_eq {it : Item} (h : it.Closed) {y : Bytes} (hy : y.head? ≠ some star) :
    items (ofBytes (it.spelling ++ y)) = it :: items (ofBytes y) := by
  cases it with
  | comment t => exact items_comment h hy
  | atRule header body => simpa [spelling] using items_atRule h.1 h.2 y
  | rule selector body => simpa [spelling] using items_rule h.1 h.2 y
  | other t => exact h.elim
  | blank => exact h.elim

theorem Trailing.items_eq {it : Item} (h : it.Trailing) : items (ofBytes it.spelling) = [it] := by
  cases it with
  | comment t =>
      have hread : ofBytes t = [.comment t false] := h
      rw [spelling, hread]
      rfl
  | other t =>
      have hlap := Lap.other (o := 0) h.1 h.2
      have hitems := hlap.items_eq (by rw [List.append_nil]; exact lexed_ofBytes t)
      rw [List.append_nil, source_ofBytes] at hitems
      exact hitems
  | atRule header body => exact h.elim
  | rule selector body => exact h.elim
  | blank => exact h.elim

def lines (its : List Item) : Bytes := its.flatMap fun it => 0x0A :: it.spelling

@[simp] theorem lines_nil : lines [] = [] := rfl

@[simp] theorem lines_cons (it : Item) (its : List Item) :
    lines (it :: its) = 0x0A :: (it.spelling ++ lines its) := by
  simp [lines]

theorem head?_lines (its : List Item) : (lines its).head? ≠ some star := by
  cases its with
  | nil => simp
  | cons it its => simp [Lexeme.star]

theorem join_spelling (its : List Item) :
    Bytes.join (text "\n") (its.map spelling) = (lines its).tail := by
  rcases its with _ | ⟨it, its⟩
  · rfl
  · rw [lines_cons, List.tail_cons, List.map_cons]
    induction its generalizing it with
    | nil => simp [Bytes.join, List.intercalate]
    | cons it' its ih =>
        rw [List.map_cons, Bytes.join, List.intercalate_cons_cons, ← Bytes.join, ih it',
          lines_cons, List.append_assoc]
        rfl

/-- The line feed in front of the first line adds no item. -/
theorem items_tail_lines (its : List Item) :
    items (ofBytes (lines its).tail) = items (ofBytes (lines its)) := by
  cases its with
  | nil => rfl
  | cons it its => rw [lines_cons, List.tail_cons, items_newline]

end Item

/-- Every item of the list satisfies `each`; the last one may satisfy `last` instead. -/
inductive Lineup (each last : Item → Prop) : List Item → Prop
  | nil : Lineup each last []
  | last {it : Item} : last it → Lineup each last [it]
  | cons {it : Item} {its : List Item} : each it → Lineup each last its →
      Lineup each last (it :: its)

namespace Lineup

variable {each last each' last' : Item → Prop} {its : List Item}

theorem imp (heach : ∀ it, each it → each' it) (hlast : ∀ it, last it → last' it)
    (h : Lineup each last its) : Lineup each' last' its := by
  induction h with
  | nil => exact .nil
  | last h => exact .last (hlast _ h)
  | cons h _ ih => exact .cons (heach _ h) ih

theorem sublist {its' : List Item} (h : Lineup each last its) (hsub : its'.Sublist its) :
    Lineup each last its' := by
  induction h generalizing its' with
  | nil =>
      rw [List.sublist_nil.mp hsub]
      exact .nil
  | @last it h =>
      rcases List.sublist_cons_iff.mp hsub with hnil | ⟨tail, rfl, hnil⟩
      · rw [List.sublist_nil.mp hnil]
        exact .nil
      · rw [List.sublist_nil.mp hnil]
        exact .last h
  | @cons it its h _ ih =>
      rcases List.sublist_cons_iff.mp hsub with htail | ⟨tail, rfl, htail⟩
      · exact ih htail
      · exact .cons h (ih htail)

theorem map {f : Item → Item} (heach : ∀ it ∈ its, each it → each' (f it))
    (hlast : ∀ it ∈ its, last it → last' (f it)) (h : Lineup each last its) :
    Lineup each' last' (its.map f) := by
  induction h with
  | nil => exact .nil
  | last h => exact .last (hlast _ List.mem_cons_self h)
  | cons h _ ih =>
      exact .cons (heach _ List.mem_cons_self h)
        (ih (fun it hit => heach it (List.mem_cons_of_mem _ hit))
          fun it hit => hlast it (List.mem_cons_of_mem _ hit))

/-- What may be anywhere may be last. -/
theorem of_or (h : Lineup each (fun it => each it ∨ last it) its) : Lineup each last its := by
  induction h with
  | nil => exact .nil
  | last h =>
      rcases h with h | h
      · exact .cons h .nil
      · exact .last h
  | cons h _ ih => exact .cons h ih

theorem forall_mem (h : Lineup each last its) : ∀ it ∈ its, each it ∨ last it := by
  induction h with
  | nil => simp
  | last h => simpa using Or.inr h
  | cons h _ ih =>
      intro it hit
      rcases List.mem_cons.mp hit with rfl | hit
      · exact Or.inl h
      · exact ih it hit

/-- Items one a line are read back, if each says where it ends or is the last. -/
theorem items_lines (h : Lineup Item.Closed Item.Trailing its) :
    items (ofBytes (Item.lines its)) = its := by
  induction h with
  | nil => rfl
  | last h => rw [Item.lines_cons, Item.lines_nil, List.append_nil, items_newline, h.items_eq]
  | @cons it its h _ ih =>
      rw [Item.lines_cons, items_newline, h.items_eq (Item.head?_lines its), ih]

end Lineup

/-! ## Every scan finds such items -/

theorem lexed_comment {t : Bytes} {c : Bool} {rest : List Lexeme}
    (h : Lexed (.comment t c :: rest)) : ofBytes t = [.comment t c] := by
  have hfirst : Lexed [.comment t c] :=
    Lexed.of_append_left (show Lexed ([.comment t c] ++ rest) from h)
  simpa [bytes] using hfirst.ofBytes_source

/-- A lap puts an item in front that says where it ends, or it ends the scan. -/
theorem lineup_of_lap {o : Nat} {taken rest : List Lexeme} {es es' : List Event}
    (hlex : Lexed (taken ++ rest)) (h : Lap o taken rest es) (hend : rest = [] → es' = [])
    {last : Item → Prop} (htrail : (∃ w p, .recovered w p ∈ es) → ∀ it, it.Trailing → last it)
    (hopen : (∃ w, .recovered w .unbalancedBlock ∈ es) → ∀ it, it.Unfinished → last it)
    (hrest : Lineup Item.Closed last (itemsOf es')) :
    Lineup Item.Closed last (itemsOf (es ++ es')) := by
  cases h with
  | blank _ _ => exact hrest
  | comment => exact .cons (lexed_comment hlex) hrest
  | openComment =>
      rw [hend rfl, List.append_nil]
      exact .last (htrail ⟨_, _, List.mem_cons_self⟩ _ (lexed_comment hlex))
  | dropped _ => exact hrest
  | openDropped _ => exact hrest
  | @atRule pre body _ hpre hbody =>
      rw [List.cons_append] at hlex
      have hlex' : Lexed (pre ++ .code openBrace :: (body ++ .code closeBrace :: rest)) := by
        simpa using hlex.tail
      exact .cons ⟨isHeader_trim hlex' hpre, balanced_source hlex'.of_append_right.tail hbody⟩ hrest
  | @openAtRule pre body hpre hbody =>
      rw [List.append_nil] at hlex
      rw [hend rfl, List.append_nil]
      refine .last (hopen ⟨_, List.mem_cons_self⟩ _ ⟨isHeader_trim hlex.tail hpre, ?_⟩)
      rwa [Unclosed, hlex.tail.of_append_right.tail.ofBytes_source]
  | @rule pre body _ hplain hpre hbody =>
      have hlex' : Lexed (pre ++ .code openBrace :: (body ++ .code closeBrace :: rest)) := by
        simpa using hlex
      exact .cons ⟨isSelector_trim hlex' hplain hpre,
        balanced_source hlex'.of_append_right.tail hbody⟩ hrest
  | @openRule pre body hplain hpre hbody =>
      rw [List.append_nil] at hlex
      rw [hend rfl, List.append_nil]
      refine .last (hopen ⟨_, List.mem_cons_self⟩ _ ⟨isSelector_trim hlex hplain hpre, ?_⟩)
      rwa [Unclosed, hlex.of_append_right.tail.ofBytes_source]
  | @other ls hplain hpre =>
      rw [List.append_nil] at hlex
      rw [hend rfl, List.append_nil]
      refine .last (htrail ⟨_, _, List.mem_cons_self⟩ _ ?_)
      change Plain (ofBytes (source taken)) ∧ _
      rw [hlex.ofBytes_source]
      exact ⟨hplain, hpre⟩

/-- The items of a scan say where they end. The last one may run to the end of the
source, and if it is a block the scan has noted that. -/
theorem lineup_events (o : Nat) {ls : List Lexeme} (hls : Lexed ls) :
    Lineup Item.Closed (fun it => it.Trailing ∨ it.Unfinished ∧
      ∃ w, .recovered w .unbalancedBlock ∈ eventsFrom 0 o ls) (itemsOf (eventsFrom 0 o ls)) := by
  refine eventsFrom_induction
    (motive := fun o ls es => Lineup Item.Closed (fun it => it.Trailing ∨ it.Unfinished ∧
      ∃ w, .recovered w .unbalancedBlock ∈ es) (itemsOf es))
    (fun _ => .nil) (fun o taken rest es hlex hlap ih => ?_) o hls
  -- a note about an open block, of this lap or of a later one, is a note of the whole scan
  refine lineup_of_lap hlex hlap (fun hrest => by rw [hrest]; rfl) (fun _ _ => Or.inl) ?_ ?_
  · rintro ⟨w, hw⟩ it hit
    exact Or.inr ⟨hit, w, List.mem_append_left _ hw⟩
  · refine ih.imp (fun _ => id) fun it hit => hit.imp id ?_
    rintro ⟨hit, w, hw⟩
    exact ⟨hit, w, List.mem_append_right _ hw⟩

theorem lineup_items (s : Bytes) :
    Lineup Item.Closed (fun it => it.Trailing ∨ it.Unfinished) (items (ofBytes s)) :=
  (lineup_events 0 (lexed_ofBytes s)).imp (fun _ => id) fun _ h => h.imp id And.left

theorem lineup_scan (s : Bytes) :
    Lineup Item.Closed (fun it => it.Trailing ∨ it.Unfinished) (Sheet.scan s).items := by
  rw [Sheet.items_scan]
  exact lineup_items s

/-- Without an unbalanced block, only a comment or text may run to the end. -/
theorem lineup_scan_of_balanced {s : Bytes}
    (h : ∀ w ∈ (Sheet.scan s).warnings, w.problem ≠ .unbalancedBlock) :
    Lineup Item.Closed Item.Trailing (Sheet.scan s).items := by
  rw [Sheet.items_scan]
  refine (lineup_events 0 (lexed_ofBytes s)).imp (fun _ => id) fun it hit => ?_
  rcases hit with hit | ⟨_, w, hw⟩
  · exact hit
  · have hwarning : ⟨.ofOffset s w, .unbalancedBlock⟩ ∈ (Sheet.scan s).warnings :=
      List.mem_filterMap.mpr ⟨_, hw, rfl⟩
    exact absurd rfl (h _ hwarning)

end Cascade
