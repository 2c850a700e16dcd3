import Cascade.Proofs.Sheet.Laps
import Cascade.Proofs.Sheet.Matching
import Cascade.Proofs.Sheet.Declarations

/-!
# Comments that are skipped and comments that are taken out

The end of a block is found by skipping the comments on the way, which stand somewhere in a
source. Later, comments are taken out of the body of the block, which stands alone by then. Both
see the same comments, so what is left of a body has the braces that were counted.

Taking comments out also brings together what stood around them. A slash and a star that meet in
this way open a comment that was none before, and it is complete if a closer follows.
-/

namespace Cascade

open Lexeme

/-! ## Spans of comments among lexemes -/

/-- The first lexeme from `p` on tells whether a comment starts at `p`, and where to go on. -/
theorem span_cons {s : Bytes} {p a e : Nat} {l : Lexeme} {ls : List Lexeme}
    (h : ofBytes (s.drop p) = l :: ls) :
    Span s p a e ↔ (∃ t closed, l = .comment t closed ∧ a = p ∧ e = p + t.length) ∨
      Span s (p + l.bytes.length) a e := by
  rcases lexeme_at h with ⟨b, rfl, _, hnot⟩ | ⟨t, closed, rfl, hopen, hend⟩
  · rw [span_succ hnot]
    simp [bytes]
  · rw [span_comment hopen (endsAt_comment hend)]
    simp [bytes]

/-- The comments of a text are its lexemes of that kind. -/
theorem span_iff {s : Bytes} {p a e : Nat} :
    Span s p a e ↔ ∃ pre t closed post, ofBytes (s.drop p) = pre ++ .comment t closed :: post ∧
      a = p + extent pre ∧ e = a + t.length := by
  generalize hls : ofBytes (s.drop p) = ls
  induction ls generalizing p with
  | nil =>
      have hend := length_le_of_ofBytes_drop hls
      constructor
      · rintro (⟨ha, _⟩ | ⟨ha, _, _⟩) <;>
        · have hlt := ha.1.2.lt_length
          have hle := ha.1.1
          omega
      · rintro ⟨pre, t, closed, post, hnil, _⟩
        simp at hnil
  | cons l ls ih =>
      rw [span_cons hls, ih (ofBytes_drop_cons hls)]
      constructor
      · rintro (⟨t, closed, rfl, rfl, rfl⟩ | ⟨pre, t, closed, post, rfl, rfl, rfl⟩)
        · exact ⟨[], t, closed, ls, rfl, rfl, rfl⟩
        · exact ⟨l :: pre, t, closed, post, rfl, by rw [extent_cons, Nat.add_assoc], rfl⟩
      · rintro ⟨pre, t, closed, post, hsplit, rfl, rfl⟩
        cases pre with
        | nil =>
            obtain ⟨rfl, rfl⟩ := List.cons.inj hsplit
            exact Or.inl ⟨t, closed, rfl, rfl, rfl⟩
        | cons x pre =>
            obtain ⟨rfl, rfl⟩ := List.cons.inj hsplit
            exact Or.inr ⟨pre, t, closed, post, rfl, by rw [extent_cons, Nat.add_assoc], rfl⟩

theorem extent_append (xs ys : List Lexeme) : extent (xs ++ ys) = extent xs + extent ys := by
  rw [extent, source_append, List.length_append, extent, extent]

theorem Lexeme.Lexed.two_le_length {xs ys : List Lexeme} {t : Bytes} {closed : Bool}
    (h : Lexed (xs ++ .comment t closed :: ys)) : 2 ≤ t.length := by
  have hcomment := h.of_append_right
  cases hcomment <;> simp

/-! ## The bytes outside comments -/

open Classical in
/-- The bytes outside comments among the `n` bytes from `i` on, read from `p` on. -/
noncomputable def codeBytes (s : Bytes) (p i n : Nat) : Bytes :=
  (List.range' i n).filterMap fun k => if CodeAt s p k then s[k]? else none

theorem codeBytes_add (s : Bytes) (p i m n : Nat) :
    codeBytes s p i (m + n) = codeBytes s p i m ++ codeBytes s p (i + m) n := by
  unfold codeBytes
  rw [← List.range'_append_1, List.filterMap_append]

theorem codeBytes_congr {s : Bytes} {p q i n : Nat}
    (h : ∀ k, i ≤ k → (CodeAt s p k ↔ CodeAt s q k)) : codeBytes s p i n = codeBytes s q i n := by
  unfold codeBytes
  refine List.filterMap_congr fun k hk => ?_
  rw [propext (h k (List.mem_range'_1.mp hk).1)]

theorem codeBytes_eq_nil {s : Bytes} {p i n : Nat} (h : ∀ k, i ≤ k → k < i + n → ¬ CodeAt s p k) :
    codeBytes s p i n = [] := by
  unfold codeBytes
  refine List.filterMap_eq_nil_iff.mpr fun k hk => ?_
  obtain ⟨hle, hlt⟩ := List.mem_range'_1.mp hk
  exact if_neg (h k hle hlt)

/-- Behind the first lexeme, it makes no difference whether reading starts with it. -/
theorem codeAt_behind {s : Bytes} {p k : Nat} {l : Lexeme} {ls : List Lexeme}
    (h : ofBytes (s.drop p) = l :: ls) (hk : p + l.bytes.length ≤ k) :
    CodeAt s p k ↔ CodeAt s (p + l.bytes.length) k := by
  rw [codeAt_cons h]
  refine or_iff_right ?_
  rintro ⟨⟨b, rfl⟩, rfl⟩
  exact absurd hk (by simp [bytes])

theorem codeAt_behind_append {s : Bytes} {p k : Nat} {pre post : List Lexeme}
    (h : ofBytes (s.drop p) = pre ++ post) (hk : p + extent pre ≤ k) :
    CodeAt s p k ↔ CodeAt s (p + extent pre) k := by
  induction pre generalizing p with
  | nil => rfl
  | cons l pre ih =>
      rw [extent_cons, ← Nat.add_assoc] at hk ⊢
      rw [codeAt_behind h (Nat.le_of_add_right_le hk), ih (ofBytes_drop_cons h) hk]

/-- What is behind a code byte, and that reading may as well start there. -/
theorem behind_code {s : Bytes} {p : Nat} {pre post : List Lexeme} {b : UInt8}
    (h : ofBytes (s.drop p) = pre ++ .code b :: post) :
    ofBytes (s.drop (p + extent pre + 1)) = post ∧
      ∀ k, p + extent pre + 1 ≤ k → (CodeAt s p k ↔ CodeAt s (p + extent pre + 1) k) := by
  have hsplit : ofBytes (s.drop p) = (pre ++ [.code b]) ++ post := by simpa using h
  have hextent : p + extent (pre ++ [.code b]) = p + extent pre + 1 := by
    rw [extent_append, ← Nat.add_assoc]
    rfl
  refine ⟨?_, fun k hk => ?_⟩
  · have hdrop := ofBytes_drop_extent hsplit
    rwa [List.drop_drop, hextent] at hdrop
  · have hcode := codeAt_behind_append hsplit (k := k) (by rwa [hextent])
    rwa [hextent] at hcode

def Lexeme.code? : Lexeme → Option UInt8
  | .code b => some b
  | .comment _ _ => none

/-- The bytes outside comments are the lexemes of code. -/
theorem codeBytes_eq {s : Bytes} {p : Nat} {pre post : List Lexeme}
    (h : ofBytes (s.drop p) = pre ++ post) :
    codeBytes s p p (extent pre) = pre.filterMap code? := by
  induction pre generalizing p with
  | nil => rfl
  | cons l pre ih =>
      have hback : codeBytes s p (p + l.bytes.length) (extent pre) = pre.filterMap code? := by
        rw [← ih (ofBytes_drop_cons h)]
        exact codeBytes_congr fun k hk => codeAt_behind h hk
      rw [extent_cons, codeBytes_add, hback]
      cases l with
      | code b =>
          have hcode : CodeAt s p p := (codeAt_cons h).mpr (Or.inl ⟨⟨b, rfl⟩, rfl⟩)
          have hfront : codeBytes s p p 1 = [b] := by
            simp [codeBytes, hcode, getElem?_of_code h]
          exact congrArg (· ++ pre.filterMap code?) hfront
      | comment t closed =>
          have hfront : codeBytes s p p t.length = [] := by
            refine codeBytes_eq_nil fun k _ hlt hk => ?_
            rcases (codeAt_cons h).mp hk with ⟨⟨b, hb⟩, _⟩ | hk
            · cases hb
            · exact absurd hk.1 (Nat.not_le.mpr hlt)
          exact congrArg (· ++ pre.filterMap code?) hfront

theorem flatMap_stripped {ls : List Lexeme} (h : ∀ l ∈ ls, l.isOpen = false) :
    ls.flatMap stripped = ls.filterMap code? := by
  induction ls with
  | nil => rfl
  | cons l ls ih =>
      have hrest := ih fun x hx => h x (List.mem_cons_of_mem _ hx)
      cases l with
      | code b => exact congrArg (b :: ·) hrest
      | comment t closed =>
          cases closed with
          | true => exact hrest
          | false => exact absurd (h _ List.mem_cons_self) (by simp [isOpen])

theorem count_code (b : UInt8) (ls : List Lexeme) : (ls.filterMap code?).count b = tally b ls := by
  rw [List.count_filterMap, tally]
  refine List.countP_congr fun l _ => ?_
  cases l <;> simp [code?, isCode]

/-! ## Braces of a body -/

/-- Inside a closed block, the closing braces never outnumber the opening ones. -/
theorem tally_of_block {depth : Nat} {ls body rest : List Lexeme}
    (h : block depth ls = some (body, rest)) :
    ∀ pre, pre <+: body → tally closeBrace pre ≤ tally openBrace pre + depth := by
  -- a lexeme in front changes the depth that the rest may use up
  have hcons : ∀ {d d' : Nat} {l : Lexeme} {inner : List Lexeme},
      (∀ pre, pre <+: inner → tally closeBrace pre ≤ tally openBrace pre + d') →
      d' + (if l = .code closeBrace then 1 else 0) = d + (if l = .code openBrace then 1 else 0) →
      ∀ pre, pre <+: l :: inner → tally closeBrace pre ≤ tally openBrace pre + d := by
    intro d d' l inner hinner hdepth pre hpre
    rcases List.prefix_cons_iff.mp hpre with rfl | ⟨tail, rfl, htail⟩
    · exact Nat.zero_le _
    · have hle := hinner tail htail
      rw [tally_cons, tally_cons]
      omega
  fun_induction block depth ls generalizing body rest with
  | case1 => cases h
  | case2 d t c ls ih =>
      obtain ⟨⟨inner, r⟩, hblock, hp⟩ := Option.map_eq_some_iff.mp h
      cases hp
      exact hcons (ih hblock) (by simp)
  | case3 d b ls hb ih =>
      obtain ⟨⟨inner, r⟩, hblock, hp⟩ := Option.map_eq_some_iff.mp h
      cases hp
      obtain rfl := eq_of_beq hb
      exact hcons (ih hblock) (by simp [openBrace, closeBrace])
  | case4 b ls hopen hclose =>
      cases h
      intro pre hpre
      rw [List.prefix_nil.mp hpre]
      exact Nat.zero_le _
  | case5 b ls hopen hclose d ih =>
      obtain ⟨⟨inner, r⟩, hblock, hp⟩ := Option.map_eq_some_iff.mp h
      cases hp
      obtain rfl := eq_of_beq hclose
      exact hcons (ih hblock) (by simp [openBrace, closeBrace])
  | case6 d b ls hopen hclose ih =>
      obtain ⟨⟨inner, r⟩, hblock, hp⟩ := Option.map_eq_some_iff.mp h
      cases hp
      refine hcons (ih hblock) ?_
      rw [if_neg, if_neg]
      · rintro ⟨⟩
        exact hopen rfl
      · rintro ⟨⟩
        exact hclose rfl

/-! ## Blocks that a scan has closed -/

/-- The body of an item with a block, and whether a semicolon ends the search for its opener. -/
def Item.block? : Item → Option (Bool × Bytes)
  | .atRule _ body => some (true, body)
  | .rule _ body => some (false, body)
  | _ => none

namespace Scan

/-- A lap over an item with a block has a note about that block, or it passes a closed one. -/
theorem Lap.block_cases {o : Nat} {taken rest : List Lexeme} {all before after : List Event}
    {t : Token} {terminates : Bool} {body : Bytes} (h : Lap o taken rest all)
    (hall : all = before ++ .token t :: after) (hitem : t.item.block? = some (terminates, body)) :
    (∃ w, before = [.recovered w .unbalancedBlock]) ∨
      ∃ pre inner, taken = pre ++ .code openBrace :: (inner ++ [.code closeBrace]) ∧
        (∀ l ∈ pre, l.isCode (stops terminates) = false) ∧
        block 0 (inner ++ .code closeBrace :: rest) = some (inner, rest) ∧
        t.offset = o ∧ body = source inner := by
  -- the token is the last event of its lap, behind one recovery at most
  have hone : ∀ {x : Token}, all = [.token x] → before = [] ∧ t = x := by
    rintro x rfl
    rcases before with _ | ⟨y, before⟩ <;> simp_all
  have htwo : ∀ {w : Nat} {p : Problem} {x : Token}, all = [.recovered w p, .token x] →
      before = [.recovered w p] ∧ t = x := by
    rintro w p x rfl
    rcases before with _ | ⟨y, _ | ⟨z, before⟩⟩ <;> simp_all
  cases h with
  | blank _ _ => simp at hall
  | comment =>
      obtain ⟨_, rfl⟩ := hone rfl
      cases hitem
  | openComment =>
      obtain ⟨_, rfl⟩ := htwo rfl
      cases hitem
  | dropped _ => rcases before with _ | ⟨y, before⟩ <;> simp at hall
  | openDropped _ => rcases before with _ | ⟨y, before⟩ <;> simp at hall
  | @atRule pre inner _ hpre hinner =>
      obtain ⟨_, rfl⟩ := hone rfl
      cases hitem
      refine Or.inr ⟨.code 0x40 :: pre, inner, rfl, ?_, hinner, rfl, rfl⟩
      intro l hl
      rcases List.mem_cons.mp hl with rfl | hl
      · decide
      · exact hpre l hl
  | openAtRule _ _ => exact Or.inl ⟨_, (htwo rfl).1⟩
  | @rule pre inner _ _ hpre hinner =>
      obtain ⟨_, rfl⟩ := hone rfl
      cases hitem
      exact Or.inr ⟨pre, inner, rfl, hpre, hinner, rfl, rfl⟩
  | openRule _ _ _ => exact Or.inl ⟨_, (htwo rfl).1⟩
  | other _ _ =>
      obtain ⟨_, rfl⟩ := htwo rfl
      cases hitem

/-- The block of a token without a note is closed: it starts at the first opener from the token
on, and the walk from there gives the body. -/
theorem exists_block_of_token {s : Bytes} {es es' : List Event} {t : Token} {terminates : Bool}
    {body : Bytes} (hevents : events s = es ++ .token t :: es')
    (hitem : t.item.block? = some (terminates, body))
    (hclosed : ∀ w, es.getLast? ≠ some (.recovered w .unbalancedBlock)) :
    ∃ (o p : Nat) (inner rest : List Lexeme), t.offset = o ∧
      IsLeast (Openers s o terminates) p ∧ s[p]? = some openBrace ∧
      block 0 (ofBytes (s.drop (p + 1))) = some (inner, rest) ∧ body = source inner := by
  obtain ⟨pre, taken, rest, earlier, before, after, hsplit, hlap, rfl⟩ :=
    exists_lap_of_event (lexed_ofBytes s) hevents
  rcases hlap.block_cases rfl hitem with ⟨w, rfl⟩ | ⟨title, inner, rfl, htitle, hinner, ho, rfl⟩
  · exact absurd (List.getLast?_concat) (hclosed w)
  have hahead := ofBytes_drop_extent hsplit
  rw [List.append_assoc, List.cons_append, List.append_assoc, List.singleton_append] at hahead
  obtain ⟨hleast, hbrace⟩ := isLeast_openers hahead htitle
  refine ⟨extent pre, extent pre + extent title, inner, rest, by simpa using ho, hleast, hbrace, ?_,
    rfl⟩
  rw [(behind_code hahead).1, hinner]

end Scan

/-- The comments of a body are those that the block with that body has passed. -/
theorem span_body {s : Bytes} {p : Nat} {inner rest : List Lexeme} (hp : s[p]? = some openBrace)
    (h : ofBytes (s.drop (p + 1)) = inner ++ .code closeBrace :: rest) (a e : Nat) :
    Span (source inner) 0 a e ↔ a < extent inner ∧ Span s p (p + 1 + a) (p + 1 + e) := by
  have hlexed := lexed_ofBytes (s.drop (p + 1))
  rw [h] at hlexed
  have hbody : ofBytes ((source inner).drop 0) = inner := hlexed.of_append_left.ofBytes_source
  have hopen := (ofBytes_openBrace hp).trans (congrArg _ h)
  rw [span_iff, span_iff, hbody, hopen]
  constructor
  · rintro ⟨pre, t, closed, post, rfl, rfl, rfl⟩
    have hlength := hlexed.of_append_left.two_le_length
    refine ⟨?_, .code openBrace :: pre, t, closed, post ++ .code closeBrace :: rest, by simp, ?_, ?_⟩
    · rw [extent_append, extent_cons, bytes]
      omega
    · rw [extent_cons, bytes, List.length_singleton]
      omega
    · omega
  · rintro ⟨hlt, pre, t, closed, post, hsplit, ha, he⟩
    cases pre with
    | nil => cases (List.cons.inj hsplit).1
    | cons x pre =>
        obtain ⟨rfl, hrest⟩ := List.cons.inj hsplit
        rw [extent_cons, bytes, List.length_singleton] at ha
        rcases List.append_eq_append_iff.mp hrest with ⟨mid, rfl, hmid⟩ | ⟨mid, rfl, hmid⟩
        · -- behind the body, not in it
          rw [extent_append] at ha
          omega
        · cases mid with
          | nil => cases (List.cons.inj hmid).1
          | cons y mid =>
              obtain ⟨rfl, rfl⟩ := List.cons.inj hmid
              exact ⟨pre, t, closed, mid, rfl, by omega, by omega⟩

/-- Skipping comments and taking them out agree. For every token with a block that the scan has
closed, let the block start at the first opener from the token on and end at the first closer that
makes up for all openers. Then the comments of the body are the comments that were passed between
these two, all of them are complete, and the body without its comments is what lies outside
comments between the two. In that text the braces are balanced. -/
theorem body_comments (s : Bytes) (es es' : List Event) (t : Token) (terminates : Bool)
    (body : Bytes) (hevents : Scan.events s = es ++ .token t :: es')
    (hitem : t.item.block? = some (terminates, body))
    (hclosed : ∀ w, es.getLast? ≠ some (.recovered w .unbalancedBlock)) :
    ∃ o p k : Nat, t.offset = o ∧ IsLeast (Openers s o terminates) p ∧ s[p]? = some openBrace ∧
      IsLeast (Closers s p) k ∧ body = (s.take k).drop (p + 1) ∧
      (∀ a e, Span body 0 a e ↔ p + 1 + a < k ∧ Span s p (p + 1 + a) (p + 1 + e)) ∧
      (∀ a e, Span body 0 a e →
        IsLeast {e | a + 4 ≤ e ∧ PairAt body (e - 2) star slash} e) ∧
      stripComments body = codeBytes s p (p + 1) body.length ∧
      (stripComments body).count openBrace = (stripComments body).count closeBrace ∧
      ∀ front, front <+: stripComments body →
        front.count closeBrace ≤ front.count openBrace := by
  obtain ⟨o, p, inner, rest, ho, hopener, hp, hblock, rfl⟩ :=
    Scan.exists_block_of_token hevents hitem hclosed
  obtain ⟨hinner, -⟩ := block_eq_some hblock
  have hlexed := lexed_ofBytes (s.drop (p + 1))
  rw [hinner] at hlexed
  have hread := hlexed.of_append_left.ofBytes_source
  have hstrip : stripComments (source inner) = inner.filterMap code? := by
    rw [stripComments, hread, flatMap_stripped hlexed.isOpen_eq_false]
  have hcloser : IsLeast (Closers s p) (p + 1 + extent inner) ∧
      source inner = (s.take (p + 1 + extent inner)).drop (p + 1) := by
    rcases block_by_position hp with ⟨inner', rest', hblock', hleast, hsource, _⟩ | ⟨hnone, _⟩
    · obtain ⟨rfl, _⟩ := Prod.mk.inj (Option.some.inj (hblock.symm.trans hblock'))
      exact ⟨hleast, hsource⟩
    · cases hblock.symm.trans hnone
  refine ⟨o, p, p + 1 + extent inner, ho, hopener, hp, hcloser.1, hcloser.2, ?_, ?_, ?_, ?_, ?_⟩
  · intro a e
    rw [span_body hp hinner, Nat.add_lt_add_iff_left]
  · intro a e hspan
    obtain ⟨pre, t, closed, post, hsplit, rfl, rfl⟩ := span_iff.mp hspan
    rw [List.drop_zero] at hsplit
    rcases lexeme_at (ofBytes_drop_extent hsplit) with ⟨b, hb, _⟩ | ⟨t', closed', heq, _, hend⟩
    · cases hb
    · cases heq
      have hcomplete := hlexed.isOpen_eq_false (.comment t closed)
        (by rw [← hread, hsplit]; simp)
      cases closed with
      | true => simpa using hend
      | false => cases hcomplete
  · rw [hstrip, ← codeBytes_eq hinner]
    exact codeBytes_congr fun k hk => (codeAt_behind (ofBytes_openBrace hp) hk).symm
  · rw [hstrip, count_code, count_code]
    have hfirst := firstEnd_block 0 (ofBytes (s.drop (p + 1)))
    rw [hblock] at hfirst
    exact hfirst.1.2.symm
  · intro front hfront
    rw [hstrip] at hfront
    obtain ⟨pre, hpre, rfl⟩ := List.prefix_filterMap_iff.mp hfront
    rw [count_code, count_code]
    exact tally_of_block hblock pre hpre

/-- A body with a brace in a comment, a comment in an inner block, and a comment whose opener
shares its star with no closer. -/
theorem body_comments_nested :
    let s := text "@m;a\x7b/*\x7d*/x\x7b/**/y:1\x7d/*/*/\x7db"
    let body := text "/*\x7d*/x\x7b/**/y:1\x7d/*/*/"
    Scan.events s = [.dropped (text "@m;")] ++ .token ⟨.rule (text "a") body, 3⟩ ::
      [.recovered 26 .textWithoutBlock, .token ⟨.other (text "b"), 26⟩] ∧
    stripComments body = text "x\x7by:1\x7d" ∧
    ∃ p, s[p]? = some openBrace ∧ IsLeast (Openers s 3 false) p ∧
      stripComments body = codeBytes s p (p + 1) body.length := by
  intro s body
  have hevents : Scan.events s = [.dropped (text "@m;")] ++ .token ⟨.rule (text "a") body, 3⟩ ::
      [.recovered 26 .textWithoutBlock, .token ⟨.other (text "b"), 26⟩] := by decide
  obtain ⟨o, p, k, ho, hopener, hp, _, _, _, _, hstrip, _⟩ :=
    body_comments s _ _ _ false body hevents rfl (by simp)
  obtain rfl : 3 = o := Int.ofNat.inj ho
  exact ⟨hevents, by decide, p, hp, hopener, hstrip⟩

/-! ## Comments that come together -/

/-- The text has a complete comment: an opener, and a closer that is clear of it. -/
def HasComment (s : Bytes) : Prop :=
  ∃ i j, PairAt s i slash star ∧ i + 2 ≤ j ∧ PairAt s j star slash

/-- A complete comment is at the front, or in what is behind the first byte. -/
theorem hasComment_cons {x : UInt8} {s : Bytes} :
    HasComment (x :: s) ↔
      (∃ rest, x = slash ∧ s = star :: rest ∧ ∃ j, PairAt rest j star slash) ∨ HasComment s := by
  constructor
  · rintro ⟨i, j, hopen, hle, hclose⟩
    obtain ⟨j, rfl⟩ : ∃ m, j = m + 1 := ⟨j - 1, by omega⟩
    cases i with
    | succ i => exact Or.inr ⟨i, j, hopen, by omega, hclose⟩
    | zero =>
        obtain ⟨j, rfl⟩ : ∃ m, j = m + 1 := ⟨j - 1, by omega⟩
        obtain ⟨hx, hs⟩ := hopen
        cases s with
        | nil => cases hs
        | cons y rest =>
            cases hx
            cases hs
            exact Or.inl ⟨rest, rfl, rfl, j, hclose⟩
  · rintro (⟨rest, rfl, rfl, j, hclose⟩ | ⟨i, j, hopen, hle, hclose⟩)
    · exact ⟨0, j + 2, ⟨rfl, rfl⟩, by omega, hclose⟩
    · exact ⟨i + 1, j + 1, hopen, by omega, hclose⟩

theorem exists_pairAt_iff {s : Bytes} : (∃ j, PairAt s j star slash) ↔ closerEnd s ≠ none := by
  constructor
  · rintro ⟨j, hj⟩ hnone
    exact not_pairAt_of_closerEnd hnone j hj
  · intro hsome
    obtain ⟨n, hn⟩ := Option.ne_none_iff_exists'.mp hsome
    exact ⟨_, (closerEnd_isLeast hn).1⟩

theorem not_hasComment_open {inner : Bytes} (h : closerEnd inner = none) :
    ¬ HasComment (slash :: star :: inner) := by
  have hnone : ∀ j, ¬ PairAt inner j star slash := not_pairAt_of_closerEnd h
  rintro ⟨i, j, _, hle, hclose⟩
  obtain ⟨j, rfl⟩ : ∃ m, j = m + 2 := ⟨j - 2, by omega⟩
  exact hnone j hclose

/-- A text has a complete comment if and only if one is taken out of it. -/
theorem not_uncommented_iff {s : Bytes} : ¬ Uncommented s ↔ HasComment s := by
  have hall : ∀ {ls : List Lexeme}, Lexed ls →
      ((∀ l ∈ ls, l.stripped = l.bytes) ↔ ¬ HasComment (source ls)) := by
    intro ls hls
    induction hls with
    | nil => simp [HasComment, PairAt]
    | @code b ls hb _ ih =>
        have hfront : ¬ ∃ rest, b = slash ∧ source ls = star :: rest ∧
            ∃ j, PairAt rest j star slash := by
          rintro ⟨rest, rfl, hstar, _⟩
          exact hb rfl (by rw [hstar]; rfl)
        rw [source_cons, bytes, List.singleton_append, hasComment_cons, or_iff_right hfront, ← ih]
        simp [stripped, bytes]
    | @comment inner ls hclose _ _ =>
        have hhas : HasComment (source (.comment (slash :: star :: inner) true :: ls)) := by
          refine hasComment_cons.mpr (Or.inl ⟨inner ++ source ls, rfl, rfl, ?_⟩)
          have happend := closerEnd_take_append hclose (source ls)
          rw [List.take_length] at happend
          exact exists_pairAt_iff.mpr (by simp [happend])
        simpa [stripped, bytes] using hhas
    | @openComment inner hclose =>
        have hnone := not_hasComment_open hclose
        simpa [stripped, bytes] using hnone
  have hs := hall (lexed_ofBytes s)
  rw [source_ofBytes] at hs
  rw [Uncommented, hs, not_not]

/-- A slash and a star among lexemes with nothing but complete comments between them, and a closer
in what is left of the lexemes behind. -/
def Lexeme.Seam (ls : List Lexeme) : Prop :=
  ∃ xs cs ys, ls = xs ++ .code slash :: (cs ++ .code star :: ys) ∧
    (∀ l ∈ cs, l.code? = none) ∧ ∃ j, PairAt (ys.flatMap stripped) j star slash

/-- What is left starts with a star if complete comments and a star of code are in front. -/
theorem flatMap_stripped_eq_star {ls : List Lexeme} (h : Lexed ls) {rest : Bytes} :
    ls.flatMap stripped = star :: rest ↔
      ∃ cs ys, ls = cs ++ .code star :: ys ∧ (∀ l ∈ cs, l.code? = none) ∧
        ys.flatMap stripped = rest := by
  induction h with
  | nil => simp
  | @code b ls _ _ _ =>
      constructor
      · intro heq
        obtain ⟨rfl, hrest⟩ := List.cons.inj heq
        exact ⟨[], ls, rfl, by simp, hrest⟩
      · rintro ⟨cs, ys, heq, hcs, rfl⟩
        cases cs with
        | nil =>
            cases heq
            rfl
        | cons c cs =>
            obtain ⟨rfl, _⟩ := List.cons.inj heq
            cases hcs _ List.mem_cons_self
  | @comment inner ls hclose _ ih =>
      have hskip : (Lexeme.comment (slash :: star :: inner) true :: ls).flatMap stripped =
          ls.flatMap stripped := rfl
      rw [hskip, ih]
      constructor
      · rintro ⟨cs, ys, rfl, hcs, hys⟩
        refine ⟨_ :: cs, ys, rfl, ?_, hys⟩
        intro l hl
        rcases List.mem_cons.mp hl with rfl | hl
        · rfl
        · exact hcs l hl
      · rintro ⟨cs, ys, heq, hcs, hys⟩
        cases cs with
        | nil => cases (List.cons.inj heq).1
        | cons c cs =>
            obtain ⟨_, rfl⟩ := List.cons.inj heq
            exact ⟨cs, ys, rfl, fun l hl => hcs l (List.mem_cons_of_mem _ hl), hys⟩
  | @openComment inner _ =>
      -- an open comment is left as it is, and starts with a slash
      constructor
      · intro heq
        simp [stripped, slash, Lexeme.star] at heq
      · rintro ⟨cs, ys, heq, _⟩
        rcases cs with _ | ⟨c, cs⟩ <;> simp at heq

/-- What is left of a text has a complete comment if and only if one comes together at a seam. -/
theorem hasComment_stripped_iff {ls : List Lexeme} (h : Lexed ls) :
    HasComment (ls.flatMap stripped) ↔ Seam ls := by
  induction h with
  | nil => simp [HasComment, PairAt, Seam]
  | @code b ls _ hls ih =>
      have hcut : HasComment ((Lexeme.code b :: ls).flatMap stripped) ↔ _ :=
        hasComment_cons (x := b) (s := ls.flatMap stripped)
      rw [hcut, ih]
      constructor
      · rintro (⟨rest, rfl, hstar, hcloser⟩ | ⟨xs, cs, ys, rfl, hseam⟩)
        · obtain ⟨cs, ys, rfl, hcs, rfl⟩ := (flatMap_stripped_eq_star hls).mp hstar
          exact ⟨[], cs, ys, rfl, hcs, hcloser⟩
        · exact ⟨.code b :: xs, cs, ys, rfl, hseam⟩
      · rintro ⟨xs, cs, ys, heq, hcs, hcloser⟩
        cases xs with
        | nil =>
            obtain ⟨hb, rfl⟩ := List.cons.inj heq
            cases hb
            exact Or.inl ⟨_, rfl, (flatMap_stripped_eq_star hls).mpr ⟨cs, ys, rfl, hcs, rfl⟩, hcloser⟩
        | cons x xs =>
            obtain ⟨_, rfl⟩ := List.cons.inj heq
            exact Or.inr ⟨xs, cs, ys, rfl, hcs, hcloser⟩
  | @comment inner ls _ _ ih =>
      have hskip : (Lexeme.comment (slash :: star :: inner) true :: ls).flatMap stripped =
          ls.flatMap stripped := rfl
      rw [hskip, ih]
      constructor
      · rintro ⟨xs, cs, ys, rfl, hseam⟩
        exact ⟨_ :: xs, cs, ys, rfl, hseam⟩
      · rintro ⟨xs, cs, ys, heq, hseam⟩
        cases xs with
        | nil => cases (List.cons.inj heq).1
        | cons x xs =>
            obtain ⟨_, rfl⟩ := List.cons.inj heq
            exact ⟨xs, cs, ys, rfl, hseam⟩
  | @openComment inner hclose =>
      have hkept : [Lexeme.comment (slash :: star :: inner) false].flatMap stripped =
          slash :: star :: inner := by simp [stripped]
      rw [hkept]
      refine iff_of_false (not_hasComment_open hclose) ?_
      rintro ⟨xs, cs, ys, heq, _⟩
      rcases xs with _ | ⟨x, xs⟩ <;> simp at heq

/-- A slash and a star outside comments with nothing but comments between them, and a closer in
what is left of the text behind. -/
def SeamAt (s : Bytes) (a b : Nat) : Prop :=
  (CodeAt s 0 a ∧ s[a]? = some slash) ∧ (CodeAt s 0 b ∧ s[b]? = some star) ∧ a < b ∧
    (∀ k, a < k → k < b → ¬ CodeAt s 0 k) ∧
    ∃ j, PairAt (stripComments (s.drop (b + 1))) j star slash

theorem seam_iff (s : Bytes) : Seam (ofBytes s) ↔ ∃ a b, SeamAt s a b := by
  have hzero : s.drop 0 = s := List.drop_zero
  constructor
  · rintro ⟨xs, cs, ys, hls, hcs, hcloser⟩
    rw [← hzero] at hls
    obtain ⟨hmid, hcode⟩ := behind_code hls
    obtain ⟨hback, _⟩ := behind_code hmid
    rw [Nat.zero_add] at hmid hcode hback
    obtain ⟨hstar, hbyte⟩ := codeAt_iff.mpr ⟨cs, ys, hmid, rfl⟩
    refine ⟨extent xs, extent xs + 1 + extent cs,
      codeAt_iff.mpr ⟨xs, _, hls, (Nat.zero_add _).symm⟩,
      ⟨(hcode _ (Nat.le_add_right _ _)).mpr hstar, hbyte⟩, by omega, ?_, ?_⟩
    · -- a code byte between the two would be one among the comments
      intro k hlt hk hat
      rw [hcode k hlt] at hat
      obtain ⟨b, hb⟩ : ∃ b, s[k]? = some b := ⟨_, List.getElem?_eq_getElem hat.2.1⟩
      obtain ⟨pre, post, hsplit, rfl⟩ := codeAt_iff.mp ⟨hat, hb⟩
      rcases List.append_eq_append_iff.mp (hmid.symm.trans hsplit) with
        ⟨mid, rfl, _⟩ | ⟨mid, rfl, hrest⟩
      · rw [extent_append] at hk
        omega
      · cases mid with
        | nil => simp at hk
        | cons x mid =>
            obtain ⟨rfl, _⟩ := List.cons.inj hrest
            cases hcs (.code b) (by simp)
    · rw [stripComments, hback]
      exact hcloser
  · rintro ⟨a, b, hslash, ⟨hcodeb, hbyteb⟩, hab, hbetween, hcloser⟩
    obtain ⟨xs, rest, hls, rfl⟩ := codeAt_iff.mp hslash
    obtain ⟨hmid, hcode⟩ := behind_code hls
    obtain ⟨cs, ys, hrest, rfl⟩ := codeAt_iff.mp ⟨(hcode b hab).mp hcodeb, hbyteb⟩
    obtain ⟨hback, _⟩ := behind_code hrest
    refine ⟨xs, cs, ys, ?_, ?_, ?_⟩
    · rw [hzero] at hls
      rw [hls, ← hrest, hmid]
    · intro l hl
      cases l with
      | comment t closed => rfl
      | code c =>
          obtain ⟨pre, post, rfl⟩ := List.append_of_mem hl
          have hat := (codeAt_iff (b := c)).mpr
            ⟨pre, post ++ .code star :: ys, by rw [hrest]; simp, rfl⟩
          refine absurd ((hcode _ (Nat.le_add_right _ _)).mpr hat.1) (hbetween _ (by omega) ?_)
          rw [extent_append, extent_cons, bytes, List.length_singleton]
          omega
    · rwa [stripComments, hback] at hcloser

/-- Of a text, the complete comments are taken out and nothing else: what is left is the bytes
outside comments and a comment that never closes. It has a complete comment if and only if taking
comments out once more changes it, and that is if and only if a slash and a star have come
together that had comments between them, with a closer somewhere behind. -/
theorem stripComments_again_iff (s : Bytes) :
    (∃ c ≤ s.length, stripComments s = codeBytes s 0 0 c ++ s.drop c ∧
      (c = s.length ∨ Span s 0 c s.length ∧ ∀ i, c + 2 ≤ i → ¬ PairAt s i star slash)) ∧
    (HasComment (stripComments s) ↔ stripComments (stripComments s) ≠ stripComments s) ∧
    (HasComment (stripComments s) ↔ ∃ a b, SeamAt s a b) := by
  refine ⟨?_, ?_, ?_⟩
  · rcases (lexed_ofBytes s).open_cases with hclosed | ⟨xs, t, hls⟩
    · refine ⟨s.length, le_rfl, ?_, Or.inl rfl⟩
      have hcode := codeBytes_eq (s := s) (p := 0) (List.append_nil _).symm
      rw [List.drop_zero, extent, source_ofBytes] at hcode
      rw [hcode, stripComments, flatMap_stripped hclosed, List.drop_length, List.append_nil]
    · have hlexed := lexed_ofBytes s
      rw [hls] at hlexed
      have htail := ofBytes_drop_extent hls
      have hdrop : s.drop (extent xs) = t := by
        have hsource := congrArg source htail
        rw [source_ofBytes] at hsource
        simpa [bytes] using hsource
      obtain ⟨hnever, hend⟩ : (∀ i, extent xs + 2 ≤ i → ¬ PairAt s i star slash) ∧
          extent xs + t.length = s.length := by
        rcases lexeme_at htail with ⟨b, hb, _⟩ | ⟨t', closed, heq, _, hend⟩
        · cases hb
        · cases heq
          exact hend
      have hcode := codeBytes_eq (s := s) (p := 0) hls
      refine ⟨extent xs, by omega, ?_, Or.inr ⟨?_, hnever⟩⟩
      · rw [hcode, hdrop, stripComments, hls, List.flatMap_append,
          flatMap_stripped hlexed.isOpen_eq_false]
        simp [stripped]
      · exact span_iff.mpr ⟨xs, t, false, [], hls, (Nat.zero_add _).symm, hend.symm⟩
  · rw [← not_uncommented_iff, ← stripComments_eq_self_iff]
  · rw [← seam_iff, ← hasComment_stripped_iff (lexed_ofBytes s)]
    rfl

/-- Without the comment between them, the slash and the star open another one. -/
theorem stripComments_again_ne :
    stripComments (text "//**/*2*/") = text "/*2*/" ∧ HasComment (text "/*2*/") ∧
      stripComments (stripComments (text "//**/*2*/")) = [] := by
  refine ⟨by decide, ⟨0, 3, ⟨rfl, rfl⟩, by decide, rfl, rfl⟩, by decide⟩

end Cascade
