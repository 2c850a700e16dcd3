import Cascade.Proofs.Sheet.Spelling

/-!
# Cutting a source between two items

A scan that recovers from nothing and leaves no @-rule unfinished ends between two
items. Whatever is put behind its source is then scanned as if it stood alone: the
items of the two texts follow each other.
-/

namespace Cascade

open Lexeme

/-! ## Texts that may be put together -/

/-- A character that reads as itself in front of one text does so in front of any. -/
theorem Utf8.symbols_char_append {c : Char} {z : Bytes}
    (h : symbols (String.utf8EncodeChar c ++ z) = .char c :: symbols z) (z' : Bytes) :
    symbols (String.utf8EncodeChar c ++ z') = .char c :: symbols z' := by
  obtain ⟨a, tails, hc⟩ := List.exists_cons_of_ne_nil (String.utf8EncodeChar_ne_nil (c := c))
  rw [hc, List.cons_append, symbols_cons] at h
  obtain ⟨hchar, _⟩ := List.cons.inj h
  rcases read_spec a (tails ++ z) with ⟨c', tails', z'', hz, henc, _, hread⟩ | hstray
  · rw [hz, hread] at hchar
    obtain rfl : c' = c := Symbol.char.inj hchar
    obtain rfl : tails = tails' := (List.cons.inj (hc.symm.trans henc)).2
    rw [hc, List.cons_append, symbols_cons, hread]
    simp
  · have hall := hstray (tails ++ z).length
    rw [List.take_length] at hall
    rw [hall] at hchar
    cases hchar

namespace Lexeme

/-- The last lexeme decides whether more may follow: an open comment would take it in,
and a slash could open a comment with it. -/
theorem Lexed.append_of_last {xs ys : List Lexeme} {l : Lexeme} (h : Lexed (xs ++ [l]))
    (hopen : l.isOpen = false) (hslash : l ≠ .code slash) (hys : Lexed ys) :
    Lexed (xs ++ l :: ys) := by
  induction xs with
  | nil =>
      rw [List.nil_append] at h ⊢
      cases h with
      | @code b _ _ _ => exact .code (fun hb => absurd (congrArg Lexeme.code hb) hslash) hys
      | comment hclose _ => exact .comment hclose hys
      | openComment _ => cases hopen
  | cons x xs ih =>
      rw [List.cons_append] at h ⊢
      generalize hzs : xs ++ [l] = zs at h ih
      cases h with
      | @code b _ hb h =>
          refine .code (fun hbs => ?_) (ih h)
          -- the byte behind the slash is still the one that was there
          have hne : source zs ≠ [] := by
            intro hnil
            have hread := h.ofBytes_source
            rw [hnil, ofBytes_nil, ← hzs] at hread
            simp at hread
          obtain ⟨c, s, hs⟩ := List.exists_cons_of_ne_nil hne
          have hgrow : source (xs ++ l :: ys) = c :: (s ++ source ys) := by
            rw [← List.cons_append, ← hs, ← hzs]
            simp
          have hc := hb hbs
          rw [hs] at hc
          rw [hgrow]
          exact hc
      | comment hclose h => exact .comment hclose (ih h)
      | openComment _ => simp at hzs

/-- What trimming leaves at the end as code was code before. -/
theorem mem_ofBytes_of_getLast?_trim {s : Bytes} {b : UInt8}
    (h : (ofBytes s.trim).getLast? = some (.code b)) : .code b ∈ ofBytes s := by
  obtain ⟨l, r, hsym, hl, hr, _⟩ := Bytes.symbols_trim s
  have htext : s = Utf8.spell l ++ (s.trim ++ Utf8.spell r) := by
    have hspell := congrArg Utf8.spell hsym
    simpa using hspell
  have hslash : slash ∉ Utf8.spell r := Utf8.not_mem_spell_of_isBlank hr (by decide)
  have hstar : (Utf8.spell r).head? ≠ some star := fun hhead =>
    Utf8.not_mem_spell_of_isBlank hr (by decide) (List.mem_of_head? hhead)
  rw [htext, ofBytes_code_append (Utf8.not_mem_spell_of_isBlank hl (by decide))]
  apply List.mem_append_right
  -- white space behind an open comment would belong to the comment
  rcases ofBytes_append_cases hslash hstar with ⟨_, hcode⟩ | ⟨xs, t, hopen, _⟩
  · rw [hcode]
    exact List.mem_append_left _ (List.mem_of_getLast? h)
  · rw [hopen, List.getLast?_concat] at h
    cases h

end Lexeme

/-! ## Events that leave nothing open -/

def Event.dropped? : Event → Option Bytes
  | .dropped rule => some rule
  | _ => none

/-- The @-rules without a block, trimmed. -/
def Scan.dropped (s : Bytes) : List Bytes := (Scan.events s).filterMap Event.dropped?

/-- Such an @-rule is ended by a semicolon outside comments, not by the end of the source. -/
def Ended (rule : Bytes) : Prop := (ofBytes rule).getLast? = some (.code semicolon)

instance (rule : Bytes) : Decidable (Ended rule) := inferInstanceAs (Decidable (_ = _))

def Event.Settled : Event → Prop
  | .token _ => True
  | .dropped rule => Ended rule
  | .recovered _ _ => False

namespace Scan

theorem not_ended {pre : List Lexeme} (hlex : Lexed (.code 0x40 :: pre))
    (hpre : ∀ l ∈ pre, l.isCode endsPrelude = false) :
    ¬ Ended (Bytes.trim (0x40 :: source pre)) := by
  intro hended
  have hmem := mem_ofBytes_of_getLast?_trim hended
  rw [ofBytes_at, hlex.tail.ofBytes_source] at hmem
  rcases List.mem_cons.mp hmem with hat | hmem
  · cases hat
  · exact absurd (hpre _ hmem) (by decide)

theorem Plain.congr_rest {pre rest : List Lexeme} (h : Plain (pre ++ .code openBrace :: rest))
    (rest' : List Lexeme) : Plain (pre ++ .code openBrace :: rest') := by
  have hhead : ∀ r, (Utf8.symbols (source (pre ++ .code openBrace :: r))).head? =
      ((Utf8.symbols (source pre)).head?).or (some (.char (Char.ofNat openBrace.toNat))) := by
    intro r
    rw [source_append, source_cons, bytes, List.singleton_append,
      Utf8.symbols_append _ (by simp; decide), Utf8.symbols_ascii_cons (by decide),
      List.head?_append, List.head?_cons]
  obtain ⟨b, tail, heq, hb, hfirst⟩ := h
  rw [hhead] at hfirst
  rcases pre with _ | ⟨l, pre⟩
  · exact ⟨openBrace, rest', rfl, by decide, by rw [hhead]; exact hfirst⟩
  · obtain ⟨rfl, _⟩ := List.cons.inj heq
    exact ⟨b, _, rfl, hb, by rw [hhead]; exact hfirst⟩

/-- A lap that leaves nothing open is the same lap in front of more text. -/
theorem Lap.extend {o : Nat} {taken rest : List Lexeme} {es : List Event}
    (hlex : Lexed (taken ++ rest)) (h : Lap o taken rest es) (hes : ∀ e ∈ es, e.Settled)
    (more : List Lexeme) : Lap o taken (rest ++ more) es := by
  cases h with
  | @blank y _ hy hsym =>
      cases y with
      | char c => exact .blank hy (Utf8.symbols_char_append hsym _)
      | stray b => cases hy
  | comment => exact .comment
  | openComment => exact (hes _ List.mem_cons_self).elim
  | dropped hpre => exact .dropped hpre
  | openDropped hpre =>
      rw [List.append_nil] at hlex
      exact absurd (hes _ List.mem_cons_self) (not_ended hlex hpre)
  | atRule hpre hbody => exact .atRule hpre ((block_eq_some hbody).2 _)
  | openAtRule _ _ => exact (hes _ List.mem_cons_self).elim
  | rule hplain hpre hbody =>
      exact .rule (hplain.congr_rest _) hpre ((block_eq_some hbody).2 _)
  | openRule _ _ _ => exact (hes _ List.mem_cons_self).elim
  | other _ _ => exact (hes _ List.mem_cons_self).elim

/-- Such a lap does not end with an open comment or a slash. -/
theorem Lap.exists_last {o : Nat} {taken rest : List Lexeme} {es : List Event}
    (hlex : Lexed (taken ++ rest)) (h : Lap o taken rest es) (hes : ∀ e ∈ es, e.Settled) :
    ∃ xs l, taken = xs ++ [l] ∧ l.isOpen = false ∧ l ≠ .code slash := by
  cases h with
  | @blank y _ hy _ =>
      rcases List.eq_nil_or_concat y.bytes with hnil | ⟨bs, b, hbs⟩
      · exact absurd hnil (Utf8.bytes_ne_nil y)
      · refine ⟨bs.map .code, .code b, by simp [hbs], rfl, ?_⟩
        rintro ⟨⟩
        have hrange := Symbol.bytes_of_isBlank hy slash (by simp [hbs])
        exact absurd hrange (by decide)
  | @comment t _ => exact ⟨[], .comment t true, rfl, rfl, by simp⟩
  | openComment => exact (hes _ List.mem_cons_self).elim
  | @dropped pre _ _ => exact ⟨.code 0x40 :: pre, .code semicolon, rfl, rfl, by decide⟩
  | openDropped hpre =>
      rw [List.append_nil] at hlex
      exact absurd (hes _ List.mem_cons_self) (not_ended hlex hpre)
  | @atRule pre body _ _ _ =>
      exact ⟨.code 0x40 :: (pre ++ .code openBrace :: body), .code closeBrace, by simp, rfl,
        by decide⟩
  | openAtRule _ _ => exact (hes _ List.mem_cons_self).elim
  | @rule pre body _ _ _ _ =>
      exact ⟨pre ++ .code openBrace :: body, .code closeBrace, by simp, rfl, by decide⟩
  | openRule _ _ _ => exact (hes _ List.mem_cons_self).elim
  | other _ _ => exact (hes _ List.mem_cons_self).elim

/-! ## Two texts, one behind the other -/

/-- A scan that leaves nothing open goes on behind its source as if it started there. -/
theorem eventsFrom_append {o : Nat} {ls more : List Lexeme} (hls : Lexed ls)
    (h : ∀ e ∈ eventsFrom 0 o ls, e.Settled) (hmore : Lexed more) :
    Lexed (ls ++ more) ∧
      eventsFrom 0 o (ls ++ more) = eventsFrom 0 o ls ++ eventsFrom 0 (o + extent ls) more := by
  refine eventsFrom_induction
    (motive := fun o ls es => (∀ e ∈ es, e.Settled) → Lexed (ls ++ more) ∧
      eventsFrom 0 o (ls ++ more) = es ++ eventsFrom 0 (o + extent ls) more)
    (fun o _ => ⟨hmore, rfl⟩) (fun o taken rest es hlex hlap ih hes => ?_) o hls h
  have hfirst : ∀ e ∈ es, e.Settled := fun e he => hes e (List.mem_append_left _ he)
  obtain ⟨hrest, hevents⟩ := ih fun e he => hes e (List.mem_append_right _ he)
  have hlap' := hlap.extend hlex hfirst more
  obtain ⟨xs, l, rfl, hopen, hslash⟩ := hlap.exists_last hlex hfirst
  have hjoin : Lexed ((xs ++ [l]) ++ (rest ++ more)) := by
    have hall := hlex.of_append_left.append_of_last hopen hslash hrest
    simpa using hall
  rw [List.append_assoc]
  refine ⟨hjoin, ?_⟩
  rw [hlap'.eventsFrom_eq hjoin, hevents, List.append_assoc]
  simp [extent, Nat.add_assoc]

theorem events_append {a : Bytes} (h : ∀ e ∈ events a, e.Settled) (b : Bytes) :
    events (a ++ b) = events a ++ eventsFrom 0 a.length (ofBytes b) := by
  obtain ⟨hjoin, hevents⟩ := eventsFrom_append (lexed_ofBytes a) h (lexed_ofBytes b)
  have hread : ofBytes (a ++ b) = ofBytes a ++ ofBytes b := by
    have hsource := hjoin.ofBytes_source
    rwa [source_append, source_ofBytes, source_ofBytes] at hsource
  rw [events, hread, hevents, extent, source_ofBytes, Nat.zero_add]
  rfl

end Scan

open Scan

theorem Sheet.items_append {a : Bytes} (h : ∀ e ∈ events a, e.Settled) (b : Bytes) :
    (Sheet.scan (a ++ b)).items = (Sheet.scan a).items ++ (Sheet.scan b).items := by
  have hevents : ∀ s, (Sheet.scan s).items = itemsOf (events s) := Sheet.items_scan
  rw [hevents, hevents, events_append h, itemsOf_append, itemsOf_eventsFrom _ (lexed_ofBytes b),
    Sheet.items_scan b]

/-- Without a warning, only an @-rule without a block can be open at the end. -/
theorem settled_of_warnings {a : Bytes} (hwarnings : (Sheet.scan a).warnings = [])
    (hended : ∀ rule ∈ dropped a, Ended rule) : ∀ e ∈ events a, e.Settled := by
  intro e he
  cases e with
  | token t => trivial
  | dropped rule => exact hended rule (List.mem_filterMap.mpr ⟨_, he, rfl⟩)
  | recovered w p =>
      have hwarning : ⟨.ofOffset a w, p⟩ ∈ (Sheet.scan a).warnings :=
        List.mem_filterMap.mpr ⟨_, he, rfl⟩
      rw [hwarnings] at hwarning
      exact absurd hwarning List.not_mem_nil

/-- Where a scan recovers from nothing, every item says where it ends. -/
theorem closed_of_settled {a : Bytes} (h : ∀ e ∈ events a, e.Settled) :
    ∀ it ∈ (Sheet.scan a).items, it.Closed := by
  have hlineup := eventsFrom_induction
    (motive := fun _ _ es => Lineup Item.Closed (fun _ => ∃ w p, .recovered w p ∈ es) (itemsOf es))
    (fun _ => .nil)
    (fun o taken rest es hlex hlap ih => by
      refine lineup_of_lap hlex hlap (fun hrest => by rw [hrest]; rfl) ?_ ?_ ?_
      · rintro ⟨w, p, hw⟩ it _
        exact ⟨w, p, List.mem_append_left _ hw⟩
      · rintro ⟨w, hw⟩ it _
        exact ⟨w, _, List.mem_append_left _ hw⟩
      · refine ih.imp (fun _ => id) ?_
        rintro it ⟨w, p, hw⟩
        exact ⟨w, p, List.mem_append_right _ hw⟩)
    0 (lexed_ofBytes a)
  intro it hit
  rw [Sheet.items_scan] at hit
  rcases hlineup.forall_mem it hit with hclosed | ⟨w, p, hw⟩
  · exact hclosed
  · exact (h _ hw).elim

end Cascade
