import Cascade.Proofs.Sheet.Laps

/-!
# The layout of a source

The tokens of a scan and the gaps between them make up the source, byte by byte
and in order. A token stands for the text it was read from, and a gap holds white
space and @-rules without a block only.
-/

namespace Cascade

open Lexeme Scan

/-- The bytes from `i` up to `j`. -/
def Bytes.slice (s : Bytes) (i j : Nat) : Bytes := (s.take j).drop i

/-- A text that a scan passes over without a token: white space, and @-rules
without a block. Such an @-rule has no opening brace among its code bytes and ends
with its first semicolon there; only at the end of the source may that be missing. -/
inductive Gap (atEnd : Prop) : Bytes → Prop
  | nil : Gap atEnd []
  | blank {y : Symbol} {g : Bytes} : y.isBlank = true → Gap atEnd g →
      Gap atEnd (y.bytes ++ g)
  | bodyless {pre g : Bytes} :
      (∀ l ∈ ofBytes pre, l.isCode endsPrelude = false ∧ l.isOpen = false) → Gap atEnd g →
      Gap atEnd (0x40 :: (pre ++ semicolon :: g))
  | unfinished {pre : Bytes} : (∀ l ∈ ofBytes pre, l.isCode endsPrelude = false) → atEnd →
      Gap atEnd (0x40 :: pre)

/-- `x` is a prelude that trims to `title`, and the block of `body`. The block goes
without its closing brace only if the source ends first. -/
def BlockText (atEnd : Prop) (title body x : Bytes) : Prop :=
  ∃ pre : Bytes, pre.trim = title ∧ (∀ l ∈ ofBytes pre, l.isCode (· == openBrace) = false) ∧
    (x = pre ++ openBrace :: (body ++ [closeBrace]) ∧ Balanced body ∨
      x = pre ++ openBrace :: body ∧ atEnd ∧ Unclosed body)

/-- `x` is the source text of an item. -/
def Item.SourceText (atEnd : Prop) : Item → Bytes → Prop
  | .comment t, x => x = t
  | .atRule header body, x => ∃ y, x = 0x40 :: y ∧ BlockText atEnd header body y
  | .rule selector body, x => BlockText atEnd selector body x
  | .other t, x => x = t ∧ atEnd
  | .blank, _ => False

/-- `Layout offset s tokens`: from `offset` on, the rest `s` of the source is the
tokens with gaps around them. -/
inductive Layout : Nat → Bytes → List Token → Prop
  | done {o : Nat} {g : Bytes} : Gap True g → Layout o g []
  | token {o : Nat} {g x r : Bytes} {item : Item} {ts : List Token} : Gap False g → x ≠ [] →
      item.SourceText (r = []) x → Layout (o + g.length + x.length) r ts →
      Layout o (g ++ (x ++ r)) (⟨item, ↑(o + g.length)⟩ :: ts)

/-! ## Every scan lays the source out -/

theorem Layout.gap {x : Bytes} (hx : ∀ atEnd g, Gap atEnd g → Gap atEnd (x ++ g))
    {o : Nat} {r : Bytes} {ts : List Token} (h : Layout (o + x.length) r ts) :
    Layout o (x ++ r) ts := by
  generalize ho : o + x.length = o' at h
  cases h with
  | done hg => exact .done (hx _ _ hg)
  | @token _ g y r item ts hg hy hitem hrest =>
      have hoff : o' + g.length = o + (x ++ g).length := by
        rw [List.length_append]
        omega
      rw [hoff] at hrest ⊢
      rw [← List.append_assoc]
      exact .token (hx _ _ hg) hy hitem hrest

/-- A token at the very front. -/
theorem Layout.front {o : Nat} {x r : Bytes} {item : Item} {ts : List Token} (hx : x ≠ [])
    (hitem : item.SourceText (r = []) x) (h : Layout (o + x.length) r ts) :
    Layout o (x ++ r) (⟨item, o⟩ :: ts) := by
  have htoken := Layout.token (o := o) (g := []) .nil hx hitem (by simpa using h)
  simpa using htoken

theorem source_ne_nil {l : Lexeme} {ls : List Lexeme} (h : Lexed (l :: ls)) :
    source (l :: ls) ≠ [] := by
  cases h <;> simp [bytes]

theorem blockText_closed {pre body rest : List Lexeme} (atEnd : Prop)
    (hlex : Lexed (pre ++ .code openBrace :: (body ++ .code closeBrace :: rest)))
    (hpre : ∀ l ∈ pre, l.isCode (· == openBrace) = false)
    (hbody : block 0 (body ++ .code closeBrace :: rest) = some (body, rest)) :
    BlockText atEnd (source pre).trim (source body)
      (source (pre ++ .code openBrace :: (body ++ [.code closeBrace]))) := by
  refine ⟨source pre, rfl, by rwa [hlex.of_append_left.ofBytes_source], Or.inl ⟨?_, ?_⟩⟩
  · simp [bytes]
  · exact balanced_source (hlex.of_append_right.tail) hbody

theorem blockText_open {pre body : List Lexeme} (atEnd : Prop) (hend : atEnd)
    (hlex : Lexed (pre ++ .code openBrace :: body))
    (hpre : ∀ l ∈ pre, l.isCode (· == openBrace) = false) (hbody : block 0 body = none) :
    BlockText atEnd (source pre).trim (source body)
      (source (pre ++ .code openBrace :: body)) := by
  refine ⟨source pre, rfl, by rwa [hlex.of_append_left.ofBytes_source], Or.inr ⟨?_, hend, ?_⟩⟩
  · simp [bytes]
  · rwa [Unclosed, (hlex.of_append_right.tail).ofBytes_source]

theorem Layout.of_nil {o : Nat} {ts : List Token} (h : Layout o [] ts) : ts = [] := by
  generalize hs : ([] : Bytes) = s at h
  cases h with
  | done _ => rfl
  | token _ hx _ _ =>
      have hnil := List.append_eq_nil_iff.mp hs.symm
      exact absurd (List.append_eq_nil_iff.mp hnil.2).1 hx

/-- A lap puts a token or a piece of a gap in front. -/
theorem Layout.of_lap {o : Nat} {taken rest : List Lexeme} {es : List Event} {ts : List Token}
    (hlex : Lexed (taken ++ rest)) (h : Lap o taken rest es)
    (hrest : Layout (o + extent taken) (source rest) ts) :
    Layout o (source (taken ++ rest)) (es.filterMap Event.token? ++ ts) := by
  rw [source_append]
  have hne : taken ≠ [] → source taken ≠ [] := by
    intro htaken
    obtain ⟨l, tail, rfl⟩ := List.exists_cons_of_ne_nil htaken
    exact source_ne_nil hlex.of_append_left
  have hne := hne (h.taken_ne_nil hlex)
  cases h with
  | @blank y _ hy _ =>
      have hsource : source (y.bytes.map .code) = y.bytes := by
        simp [source, List.flatMap_map, bytes]
      rw [extent, hsource] at hrest
      rw [hsource]
      exact hrest.gap fun _ _ hg => .blank hy hg
  | comment => exact .front hne (by simp [Item.SourceText, bytes]) hrest
  | openComment => exact .front hne (by simp [Item.SourceText, bytes]) hrest
  | @dropped pre _ hpre =>
      have hlex' : Lexed (pre ++ .code semicolon :: rest) := by
        rw [List.cons_append, List.append_assoc] at hlex
        exact hlex.tail
      refine hrest.gap fun _ g hg => ?_
      have hsource : source (.code 0x40 :: (pre ++ [.code semicolon])) ++ g =
          0x40 :: (source pre ++ semicolon :: g) := by simp [bytes]
      rw [hsource]
      refine .bodyless ?_ hg
      rw [hlex'.of_append_left.ofBytes_source]
      exact fun l hl => ⟨hpre l hl, hlex'.isOpen_eq_false l hl⟩
  | @openDropped pre hpre =>
      -- an @-rule without semicolon takes all that is left, so it stands in the last gap
      obtain rfl := hrest.of_nil
      rw [List.append_nil] at hlex
      rw [source_nil, List.append_nil]
      refine .done (.unfinished ?_ trivial)
      change ∀ l ∈ ofBytes (source pre), l.isCode endsPrelude = false
      rwa [hlex.tail.ofBytes_source]
  | @atRule pre body _ hpre hbody =>
      rw [List.cons_append] at hlex
      have hblock := blockText_closed (source rest = [])
        (by simpa using hlex.tail) (fun l hl => isCode_openBrace_of_endsPrelude (hpre l hl)) hbody
      exact .front hne ⟨_, rfl, hblock⟩ hrest
  | @openAtRule pre body hpre hbody =>
      rw [List.append_nil] at hlex
      have hblock := blockText_open (source [] = []) rfl hlex.tail
        (fun l hl => isCode_openBrace_of_endsPrelude (hpre l hl)) hbody
      exact .front hne ⟨_, rfl, hblock⟩ hrest
  | @rule pre body _ _ hpre hbody =>
      exact .front hne (blockText_closed _ (by simpa using hlex) hpre hbody) hrest
  | @openRule pre body _ hpre hbody =>
      rw [List.append_nil] at hlex
      exact .front hne (blockText_open (source [] = []) rfl hlex hpre hbody) hrest
  | other _ _ => exact .front hne ⟨rfl, rfl⟩ hrest

theorem layout_scan (s : Bytes) : Layout 0 s (Sheet.scan s).tokens := by
  have hrun := eventsFrom_induction
    (motive := fun o ls es => Layout o (source ls) (es.filterMap Event.token?))
    (fun o => .done .nil)
    (fun o taken rest es hlex hlap hrest => by
      rw [List.filterMap_append]
      exact .of_lap hlex hlap hrest)
    0 (lexed_ofBytes s)
  rwa [source_ofBytes] at hrun

/-! ## Starts and ends -/

theorem Gap.imp {p q : Prop} (hpq : p → q) {g : Bytes} (h : Gap p g) : Gap q g := by
  induction h with
  | nil => exact .nil
  | blank hy _ ih => exact .blank hy ih
  | bodyless hpre _ ih => exact .bodyless hpre ih
  | unfinished hpre hp => exact .unfinished hpre (hpq hp)

theorem Item.SourceText.imp {p q : Prop} (hpq : p → q) {item : Item} {x : Bytes}
    (h : item.SourceText p x) : item.SourceText q x := by
  have hblock : ∀ {title body y}, BlockText p title body y → BlockText q title body y := by
    rintro title body y ⟨pre, htrim, hpre, hclosed | ⟨hy, hp, hopen⟩⟩
    · exact ⟨pre, htrim, hpre, Or.inl hclosed⟩
    · exact ⟨pre, htrim, hpre, Or.inr ⟨hy, hpq hp, hopen⟩⟩
  cases item with
  | comment t => exact h
  | atRule header body =>
      obtain ⟨y, hy, htext⟩ := h
      exact ⟨y, hy, hblock htext⟩
  | rule selector body => exact hblock h
  | other t => exact ⟨h.1, hpq h.2⟩
  | blank => exact h

theorem slice_append (a b c : Bytes) :
    Bytes.slice (a ++ (b ++ c)) a.length (a.length + b.length) = b := by
  rw [Bytes.slice, ← List.append_assoc, List.take_left' (by simp), List.drop_left]

/-- A layout behind `before` gives every token its start and its end in the source. -/
theorem Layout.exists_spans {o : Nat} {r : Bytes} {ts : List Token} (h : Layout o r ts)
    (before : Bytes) (hbefore : before.length = o) :
    ∃ starts ends : List Nat, ts.map Token.offset = starts.map Int.ofNat ∧
      ends.length = ts.length ∧
      (∀ i t b e, ts[i]? = some t → starts[i]? = some b → ends[i]? = some e →
        b < e ∧ t.item.SourceText (e = (before ++ r).length) ((before ++ r).slice b e) ∧
          ∀ x, t.item = .other x → i + 1 = ts.length) ∧
      ∀ i e b, (o :: ends)[i]? = some e → (starts ++ [(before ++ r).length])[i]? = some b →
        e ≤ b ∧ Gap (i = ts.length) ((before ++ r).slice e b) := by
  induction h generalizing before with
  | @done o g hg =>
      refine ⟨[], [], rfl, rfl, by simp, ?_⟩
      intro i e b he hb
      cases i with
      | succ i => simp at he
      | zero =>
          obtain rfl : o = e := by simpa using he
          obtain rfl : (before ++ g).length = b := by simpa using hb
          have hslice := slice_append before g []
          rw [List.append_nil, ← List.length_append, hbefore] at hslice
          rw [hslice]
          exact ⟨by simp [← hbefore], hg.imp fun _ => rfl⟩
  | @token o g x r item ts hg hx hitem hrest ih =>
      obtain ⟨starts, ends, hoffsets, hlen, htokens, hgaps⟩ :=
        ih (before ++ (g ++ x)) (by simp [hbefore, Nat.add_assoc])
      have hassoc : before ++ (g ++ x) ++ r = before ++ (g ++ (x ++ r)) := by simp
      rw [hassoc] at htokens hgaps
      -- one token more in front moves every index of the rest up by one
      refine ⟨(o + g.length) :: starts, (o + g.length + x.length) :: ends,
        by simp [hoffsets], by simp [hlen], ?_, ?_⟩
      · intro i t b e ht hb he
        cases i with
        | succ i =>
            obtain ⟨hlt, htext, hother⟩ := htokens i t b e ht hb he
            exact ⟨hlt, htext, fun y hy => by simpa using hother y hy⟩
        | zero =>
            obtain rfl : _ = t := by simpa using ht
            obtain rfl : o + g.length = b := by simpa using hb
            obtain rfl : o + g.length + x.length = e := by simpa using he
            have hslice := slice_append (before ++ g) x r
            rw [List.length_append, hbefore, List.append_assoc] at hslice
            rw [hslice]
            refine ⟨Nat.lt_add_of_pos_right (List.length_pos_iff.mpr hx), ?_, ?_⟩
            · refine hitem.imp fun hr => ?_
              simp [hr, ← hbefore, Nat.add_assoc]
            · -- trailing text reaches the end, where no token is left
              rintro y rfl
              obtain rfl : r = [] := hitem.2
              rw [hrest.of_nil]
              rfl
      · intro i e b he hb
        cases i with
        | succ i => simpa using hgaps i e b he hb
        | zero =>
            obtain rfl : o = e := by simpa using he
            obtain rfl : o + g.length = b := by simpa using hb
            have hslice := slice_append before g (x ++ r)
            rw [hbefore] at hslice
            rw [hslice]
            exact ⟨Nat.le_add_right _ _, hg.imp False.elim⟩

/-- The scanner loses and duplicates nothing. The tokens start at their offsets and
end before the next one starts, each covers exactly its own source text, and only
white space and @-rules without a block lie before, between and behind them. -/
theorem tokens_cover_source (s : Bytes) :
    ∃ starts ends : List Nat,
      (Sheet.scan s).tokens.map Token.offset = starts.map Int.ofNat ∧
      ends.length = (Sheet.scan s).tokens.length ∧
      (∀ i t b e, (Sheet.scan s).tokens[i]? = some t → starts[i]? = some b →
        ends[i]? = some e →
        b < e ∧ t.item.SourceText (e = s.length) (s.slice b e) ∧
          ∀ x, t.item = .other x → i + 1 = (Sheet.scan s).tokens.length) ∧
      ∀ i e b, (0 :: ends)[i]? = some e → (starts ++ [s.length])[i]? = some b →
        e ≤ b ∧ Gap (i = (Sheet.scan s).tokens.length) (s.slice e b) :=
  (layout_scan s).exists_spans [] rfl

end Cascade
