import Cascade.Sheet.Scan
import Cascade.Proofs.Text.Symbols
import Cascade.Proofs.Sheet.Blocks

/-!
# The laps of a scan

A scan is a sequence of laps. Each lap takes a stretch of lexemes from the front
of what is left: one white space character, one comment, one @-rule, one rule, or
trailing text. `Lap` says everything a lap can be. Every scan runs in laps, and
every lap is run by a scan, so facts about whole scans follow lap by lap.
-/

namespace Cascade

namespace Scan

open Lexeme

abbrev endsPrelude : UInt8 → Bool := fun b => b == openBrace || b == semicolon

theorem isCode_openBrace_of_endsPrelude {l : Lexeme} (h : l.isCode endsPrelude = false) :
    l.isCode (· == openBrace) = false := by
  cases l with
  | code b =>
      simp only [isCode, endsPrelude, Bool.or_eq_false_iff] at h
      exact h.1
  | comment t c => rfl

/-- Behind the `@` of a prelude, no opening brace is passed either. -/
theorem isCode_at {pre : List Lexeme} (hpre : ∀ l ∈ pre, l.isCode endsPrelude = false) :
    ∀ l ∈ code 0x40 :: pre, l.isCode (· == openBrace) = false := by
  intro l hl
  rcases List.mem_cons.mp hl with rfl | hl
  · rfl
  · exact isCode_openBrace_of_endsPrelude (hpre l hl)

def Plain (ls : List Lexeme) : Prop :=
  ∃ b tail, ls = .code b :: tail ∧ b ≠ 0x40 ∧
    ∀ y ∈ (Utf8.symbols (source ls)).head?, y.isBlank = false

/-- `Lap offset taken rest events`: with `taken ++ rest` ahead, a scan at `offset`
takes `taken` and meets `events`. -/
inductive Lap (o : Nat) : (taken rest : List Lexeme) → List Event → Prop
  | blank {y : Symbol} {rest : List Lexeme} : y.isBlank = true →
      Utf8.symbols (y.bytes ++ source rest) = y :: Utf8.symbols (source rest) →
      Lap o (y.bytes.map .code) rest []
  | comment {t : Bytes} {rest : List Lexeme} :
      Lap o [.comment t true] rest [.token ⟨.comment t, o⟩]
  | openComment {t : Bytes} : Lap o [.comment t false] []
      [.recovered o .unterminatedComment, .token ⟨.comment t, o⟩]
  | dropped {pre rest : List Lexeme} : (∀ l ∈ pre, l.isCode endsPrelude = false) →
      Lap o (.code 0x40 :: (pre ++ [.code semicolon])) rest
        [.dropped (Bytes.trim (0x40 :: source pre ++ [semicolon]))]
  | openDropped {pre : List Lexeme} : (∀ l ∈ pre, l.isCode endsPrelude = false) →
      Lap o (.code 0x40 :: pre) [] [.dropped (Bytes.trim (0x40 :: source pre))]
  | atRule {pre body rest : List Lexeme} : (∀ l ∈ pre, l.isCode endsPrelude = false) →
      block 0 (body ++ .code closeBrace :: rest) = some (body, rest) →
      Lap o (.code 0x40 :: (pre ++ .code openBrace :: (body ++ [.code closeBrace]))) rest
        [.token ⟨.atRule (source pre).trim (source body), o⟩]
  | openAtRule {pre body : List Lexeme} : (∀ l ∈ pre, l.isCode endsPrelude = false) →
      block 0 body = none →
      Lap o (.code 0x40 :: (pre ++ .code openBrace :: body)) []
        [.recovered (o + 1 + extent pre) .unbalancedBlock,
          .token ⟨.atRule (source pre).trim (source body), o⟩]
  | rule {pre body rest : List Lexeme} :
      Plain (pre ++ .code openBrace :: (body ++ .code closeBrace :: rest)) →
      (∀ l ∈ pre, l.isCode (· == openBrace) = false) →
      block 0 (body ++ .code closeBrace :: rest) = some (body, rest) →
      Lap o (pre ++ .code openBrace :: (body ++ [.code closeBrace])) rest
        [.token ⟨.rule (source pre).trim (source body), o⟩]
  | openRule {pre body : List Lexeme} : Plain (pre ++ .code openBrace :: body) →
      (∀ l ∈ pre, l.isCode (· == openBrace) = false) → block 0 body = none →
      Lap o (pre ++ .code openBrace :: body) []
        [.recovered (o + extent pre) .unbalancedBlock,
          .token ⟨.rule (source pre).trim (source body), o⟩]
  | other {ls : List Lexeme} : Plain ls → (∀ l ∈ ls, l.isCode (· == openBrace) = false) →
      Lap o ls [] [.recovered o .textWithoutBlock, .token ⟨.other (source ls), o⟩]

/-! ## The bytes ahead of a code byte -/

/-- Up to three code bytes ahead decide a symbol as the whole text ahead does. -/
theorem read_codeAhead (b : UInt8) {ls : List Lexeme} (h : Lexed ls) :
    Utf8.read b (codeAhead 3 ls) = Utf8.read b (source ls) := by
  -- either all bytes asked for are code, or they end where a comment starts, and the
  -- slash of a comment continues no character
  have hsplit : ∀ n (ls : List Lexeme), Lexed ls → ∃ z, source ls = codeAhead n ls ++ z ∧
      ((codeAhead n ls).length = n ∨ ∀ x ∈ z.head?, Utf8.isTail x = false) := by
    intro n
    induction n with
    | zero => exact fun ls _ => ⟨source ls, rfl, Or.inl rfl⟩
    | succ n ih =>
        intro ls hls
        cases hls with
        | nil => exact ⟨[], rfl, Or.inr (by simp)⟩
        | @code c ls _ hls =>
            obtain ⟨z, hz, hend⟩ := ih ls hls
            refine ⟨z, by simp [codeAhead, bytes, hz], ?_⟩
            simpa [codeAhead] using hend
        | comment _ _ => exact ⟨_, rfl, Or.inr (by simp; decide)⟩
        | openComment _ => exact ⟨_, rfl, Or.inr (by simp; decide)⟩
  obtain ⟨z, hz, hfull | hend⟩ := hsplit 3 ls h
  · have htake : (source ls).take 3 = codeAhead 3 ls := by
      rw [hz, List.take_left' hfull]
    rw [← Utf8.read_take_three b (source ls), htake]
  · rw [hz, Utf8.read_append hend]

theorem length_codeAhead_map (n : Nat) (ls : List Lexeme) :
    ls.take (codeAhead n ls).length = (codeAhead n ls).map .code := by
  induction n generalizing ls with
  | zero => rfl
  | succ n ih =>
      rcases ls with _ | ⟨l, ls⟩
      · rfl
      · cases l with
        | code b => simp [codeAhead, ih ls]
        | comment t c => rfl

/-! ## One step of the scan -/

theorem head_symbols_code (b : UInt8) (ls : List Lexeme) :
    (Utf8.symbols (source (.code b :: ls))).head? = some (Utf8.read b (source ls)).1 := by
  rw [source_cons, bytes, List.singleton_append, Utf8.symbols_cons, List.head?_cons]

theorem step_blank (o : Nat) {b : UInt8} {ls : List Lexeme} (h : Lexed ls)
    (hblank : (Utf8.read b (source ls)).1.isBlank = true) :
    step o (.code b) ls = ⟨[], (Utf8.read b (source ls)).2⟩ := by
  simp [step, read_codeAhead b h, hblank]

theorem step_at (o : Nat) {ls : List Lexeme} :
    step o (.code 0x40) ls = atRuleStep o ls := by
  have hread := Utf8.read_ascii (a := 0x40) (by decide) (codeAhead 3 ls)
  simp only [step, hread]
  rfl

theorem step_plain (o : Nat) {l : Lexeme} {ls : List Lexeme} (h : Lexed ls)
    (hplain : Plain (l :: ls)) : step o l ls = ruleStep o (l :: ls) := by
  obtain ⟨b, tail, heq, hb, hsym⟩ := hplain
  obtain ⟨rfl, rfl⟩ := List.cons.inj heq
  have hblank := hsym _ (head_symbols_code b ls)
  simp [step, read_codeAhead b h, hblank, hb]

theorem atRuleStep_semicolon (o : Nat) {pre : List Lexeme}
    (hpre : ∀ l ∈ pre, l.isCode endsPrelude = false) (rest : List Lexeme) :
    atRuleStep o (pre ++ .code semicolon :: rest) =
      ⟨[.dropped (Bytes.trim (0x40 :: source pre ++ [semicolon]))], pre.length + 1⟩ := by
  rw [atRuleStep, before_append hpre (by decide)]
  rfl

theorem atRuleStep_none (o : Nat) {pre : List Lexeme}
    (hpre : ∀ l ∈ pre, l.isCode endsPrelude = false) :
    atRuleStep o pre = ⟨[.dropped (Bytes.trim (0x40 :: source pre))], pre.length⟩ := by
  rw [atRuleStep, before_eq_self hpre]

theorem atRuleStep_open (o : Nat) {pre : List Lexeme}
    (hpre : ∀ l ∈ pre, l.isCode endsPrelude = false) (rest : List Lexeme) :
    atRuleStep o (pre ++ .code openBrace :: rest) =
      blockStep o (o + 1 + extent pre) (pre.length + 1) (.atRule (source pre).trim) rest := by
  rw [atRuleStep, before_append hpre (by decide)]
  rfl

theorem ruleStep_open (o : Nat) {pre : List Lexeme}
    (hpre : ∀ l ∈ pre, l.isCode (· == openBrace) = false) (rest : List Lexeme) :
    ruleStep o (pre ++ .code openBrace :: rest) =
      blockStep o (o + extent pre) pre.length (.rule (source pre).trim) rest := by
  rw [ruleStep, before_append hpre (by decide)]

theorem ruleStep_none (o : Nat) {ls : List Lexeme}
    (hls : ∀ l ∈ ls, l.isCode (· == openBrace) = false) :
    ruleStep o ls =
      ⟨[.recovered o .textWithoutBlock, .token ⟨.other (source ls), o⟩], ls.length - 1⟩ := by
  rw [ruleStep, before_eq_self hls]

theorem blockStep_some (o opener taken : Nat) (item : Bytes → Item)
    {ls body rest : List Lexeme} (h : block 0 ls = some (body, rest)) :
    blockStep o opener taken item ls =
      ⟨[.token ⟨item (source body), o⟩], taken + body.length + 1⟩ := by
  rw [blockStep, h]

theorem blockStep_none (o opener taken : Nat) (item : Bytes → Item)
    {ls : List Lexeme} (h : block 0 ls = none) :
    blockStep o opener taken item ls =
      ⟨[.recovered opener .unbalancedBlock, .token ⟨item (source ls), o⟩],
        taken + ls.length⟩ := by
  rw [blockStep, h]

/-- A white space character ahead is taken whole. -/
theorem step_of_blank (o : Nat) {y : Symbol} {rest : List Lexeme} (hy : y.isBlank = true)
    (hsym : Utf8.symbols (y.bytes ++ source rest) = y :: Utf8.symbols (source rest))
    (hlex : Lexed (y.bytes.map .code ++ rest)) :
    ∃ l tail, y.bytes.map .code = l :: tail ∧ step o l (tail ++ rest) = ⟨[], tail.length⟩ := by
  obtain ⟨b, tail, hbytes⟩ := List.exists_cons_of_ne_nil (Utf8.bytes_ne_nil y)
  refine ⟨.code b, tail.map .code, by simp [hbytes], ?_⟩
  rw [hbytes] at hsym hlex
  have hlex' : Lexed (tail.map .code ++ rest) := hlex.tail
  have hsource : source (tail.map .code ++ rest) = tail ++ source rest := by
    simp [source, List.flatMap_map, bytes]
  have hread : (Utf8.read b (source (tail.map .code ++ rest))).1 = y := by
    rw [List.cons_append, Utf8.symbols_cons] at hsym
    rw [hsource]
    exact (List.cons.inj hsym).1
  have hcount := congrArg List.length
    (Utf8.read_bytes b (source (tail.map .code ++ rest))).1
  have hle := (Utf8.read_bytes b (source (tail.map .code ++ rest))).2
  rw [hread, hbytes, List.length_cons, List.length_cons, List.length_take] at hcount
  rw [step_blank o hlex' (by rwa [hread]), List.length_map]
  congr 1
  omega

/-- What is taken as a rule, or as trailing text, is taken by one step. -/
theorem step_of_plain (o : Nat) {taken rest : List Lexeme} {es : List Event} (hne : taken ≠ [])
    (hlex : Lexed (taken ++ rest)) (hplain : Plain (taken ++ rest))
    (h : ruleStep o (taken ++ rest) = ⟨es, taken.length - 1⟩) :
    ∃ l tail, taken = l :: tail ∧ step o l (tail ++ rest) = ⟨es, tail.length⟩ := by
  obtain ⟨l, tail, rfl⟩ := List.exists_cons_of_ne_nil hne
  refine ⟨l, tail, rfl, ?_⟩
  rw [List.cons_append] at hlex hplain h
  rw [step_plain o hlex.tail hplain, h, List.length_cons, Nat.add_sub_cancel]

/-- A lap is what a step does. -/
theorem Lap.step_eq {o : Nat} {taken rest : List Lexeme} {es : List Event}
    (h : Lap o taken rest es) (hlex : Lexed (taken ++ rest)) :
    ∃ l tail, taken = l :: tail ∧ step o l (tail ++ rest) = ⟨es, tail.length⟩ := by
  cases h with
  | blank hy hsym => exact step_of_blank o hy hsym hlex
  | comment => exact ⟨_, [], rfl, rfl⟩
  | openComment => exact ⟨_, [], rfl, rfl⟩
  | @dropped pre _ hpre =>
      refine ⟨_, _, rfl, ?_⟩
      rw [step_at, List.append_assoc, List.singleton_append, atRuleStep_semicolon o hpre]
      simp
  | @openDropped pre hpre =>
      refine ⟨_, _, rfl, ?_⟩
      rw [step_at, List.append_nil, atRuleStep_none o hpre]
  | @atRule pre body _ hpre hbody =>
      refine ⟨_, _, rfl, ?_⟩
      rw [step_at, List.append_assoc, List.cons_append, List.append_assoc,
        List.singleton_append, atRuleStep_open o hpre, blockStep_some _ _ _ _ hbody]
      simp
      omega
  | @openAtRule pre body hpre hbody =>
      refine ⟨_, _, rfl, ?_⟩
      rw [step_at, List.append_nil, atRuleStep_open o hpre, blockStep_none _ _ _ _ hbody]
      simp
      omega
  | @rule pre body _ hplain hpre hbody =>
      have hahead : pre ++ .code openBrace :: (body ++ [.code closeBrace]) ++ rest =
          pre ++ .code openBrace :: (body ++ .code closeBrace :: rest) := by
        simp
      refine step_of_plain o (by simp) hlex (by rwa [hahead]) ?_
      rw [hahead, ruleStep_open o hpre, blockStep_some _ _ _ _ hbody]
      simp
      omega
  | @openRule pre body hplain hpre hbody =>
      refine step_of_plain o (by simp) hlex (by rwa [List.append_nil]) ?_
      rw [List.append_nil, ruleStep_open o hpre, blockStep_none _ _ _ _ hbody]
      simp
  | @other _ hplain hpre =>
      obtain ⟨b, tail, rfl, _⟩ := id hplain
      refine step_of_plain o (List.cons_ne_nil _ _) hlex (by rwa [List.append_nil]) ?_
      rw [List.append_nil, ruleStep_none o hpre]

/-! ## Whole scans -/

theorem eventsFrom_eq (k o : Nat) (ls : List Lexeme) :
    eventsFrom k o ls = eventsFrom 0 (o + extent (ls.take k)) (ls.drop k) := by
  induction ls generalizing k o with
  | nil => simp [eventsFrom]
  | cons l ls ih =>
      cases k with
      | zero => rfl
      | succ k =>
          rw [eventsFrom, ih, List.take_succ_cons, List.drop_succ_cons]
          simp [extent, Nat.add_assoc]

/-- A lap is run by the scan that meets it. -/
theorem Lap.eventsFrom_eq {o : Nat} {taken rest : List Lexeme} {es : List Event}
    (h : Lap o taken rest es) (hlex : Lexed (taken ++ rest)) :
    eventsFrom 0 o (taken ++ rest) = es ++ eventsFrom 0 (o + extent taken) rest := by
  obtain ⟨l, tail, rfl, hstep⟩ := h.step_eq hlex
  rw [List.cons_append, eventsFrom]
  simp only [hstep]
  rw [Scan.eventsFrom_eq, List.take_left' rfl, List.drop_left' rfl]
  simp [extent, Nat.add_assoc]

/-- A white space character ahead is taken byte by byte. -/
theorem exists_lap_blank (o : Nat) {b : UInt8} {ls : List Lexeme} (h : Lexed ls)
    (hblank : (Utf8.read b (source ls)).1.isBlank = true) :
    ∃ taken rest es, .code b :: ls = taken ++ rest ∧ Lap o taken rest es := by
  have hbytes := (Utf8.read_bytes b (source ls)).1
  have hbytes' := Utf8.read_bytes b (codeAhead 3 ls)
  rw [read_codeAhead b h] at hbytes'
  have hsymbols := Utf8.symbols_cons b (source ls)
  generalize (Utf8.read b (source ls)).1 = y at *
  generalize (Utf8.read b (source ls)).2 = k at *
  -- the symbol was read off code bytes, so no comment stands among its bytes
  have htake : ls.take k = ((source ls).take k).map .code := by
    have htails : (source ls).take k = (codeAhead 3 ls).take k :=
      (List.cons.inj (hbytes.symm.trans hbytes'.1)).2
    rw [htails, List.map_take, ← length_codeAhead_map, List.take_take,
      Nat.min_eq_left hbytes'.2]
  have hsplit : .code b :: ls = y.bytes.map .code ++ ls.drop k := by
    rw [hbytes, List.map_cons, List.cons_append, ← htake, List.take_append_drop]
  refine ⟨_, _, _, hsplit, .blank hblank ?_⟩
  have hsource : y.bytes ++ source (ls.drop k) = b :: source ls := by
    have hall := congrArg source hsplit
    rw [source_append] at hall
    simpa [source, List.flatMap_map, bytes] using hall.symm
  have hdrop : source (ls.drop k) = (source ls).drop k := by
    rw [hbytes, List.cons_append, List.cons.injEq] at hsource
    exact List.append_cancel_left (hsource.2.trans (List.take_append_drop k _).symm)
  rw [hsource, hsymbols, hdrop]

theorem exists_lap_at (o : Nat) (ls : List Lexeme) :
    ∃ taken rest es, .code 0x40 :: ls = taken ++ rest ∧ Lap o taken rest es := by
  rcases before_cases endsPrelude ls with ⟨pre, b, rest, rfl, hb, hpre, _⟩ | ⟨hpre, _⟩
  · simp only [endsPrelude, Bool.or_eq_true, beq_iff_eq] at hb
    rcases hb with rfl | rfl
    · cases hblock : block 0 rest with
      | none => exact ⟨_, [], _, (List.append_nil _).symm, .openAtRule hpre hblock⟩
      | some p =>
          obtain ⟨body, rest⟩ := p
          obtain ⟨rfl, hclose⟩ := block_eq_some hblock
          exact ⟨_, rest, _, by simp, .atRule hpre (hclose rest)⟩
    · exact ⟨_, rest, _, by simp, .dropped hpre⟩
  · exact ⟨_, [], _, (List.append_nil _).symm, .openDropped hpre⟩

theorem exists_lap_plain (o : Nat) {ls : List Lexeme} (h : Plain ls) :
    ∃ taken rest es, ls = taken ++ rest ∧ Lap o taken rest es := by
  rcases before_cases (· == openBrace) ls with ⟨pre, b, rest, rfl, hb, hpre, _⟩ | ⟨hpre, _⟩
  · simp only [beq_iff_eq] at hb
    subst hb
    cases hblock : block 0 rest with
    | none => exact ⟨_, [], _, (List.append_nil _).symm, .openRule h hpre hblock⟩
    | some p =>
        obtain ⟨body, rest⟩ := p
        obtain ⟨rfl, hclose⟩ := block_eq_some hblock
        exact ⟨_, rest, _, by simp, .rule h hpre (hclose rest)⟩
  · exact ⟨_, [], _, (List.append_nil _).symm, .other h hpre⟩

/-- Whatever is ahead, a scan runs a lap. -/
theorem exists_lap (o : Nat) {l : Lexeme} {ls : List Lexeme} (h : Lexed (l :: ls)) :
    ∃ taken rest es, l :: ls = taken ++ rest ∧ Lap o taken rest es := by
  cases h with
  | comment _ _ => exact ⟨[_], ls, _, rfl, .comment⟩
  | openComment _ => exact ⟨[_], [], _, rfl, .openComment⟩
  | @code b _ hb hls =>
      cases hblank : (Utf8.read b (source ls)).1.isBlank with
      | true => exact exists_lap_blank o hls hblank
      | false =>
          by_cases hat : b = 0x40
          · subst hat
            exact exists_lap_at o ls
          · exact exists_lap_plain o
              ⟨b, ls, rfl, hat, by rw [head_symbols_code]; simpa using hblank⟩

theorem Lap.taken_ne_nil {o : Nat} {taken rest : List Lexeme} {es : List Event}
    (h : Lap o taken rest es) (hlex : Lexed (taken ++ rest)) : taken ≠ [] := by
  obtain ⟨l, tail, rfl, _⟩ := h.step_eq hlex
  simp

/-- What holds at the end of the source, and before a lap if it holds behind it,
holds of every scan. -/
theorem eventsFrom_induction {motive : Nat → List Lexeme → List Event → Prop}
    (nil : ∀ o, motive o [] [])
    (lap : ∀ o taken rest es, Lexed (taken ++ rest) → Lap o taken rest es →
      motive (o + extent taken) rest (eventsFrom 0 (o + extent taken) rest) →
      motive o (taken ++ rest) (es ++ eventsFrom 0 (o + extent taken) rest))
    (o : Nat) {ls : List Lexeme} (hls : Lexed ls) : motive o ls (eventsFrom 0 o ls) := by
  induction hn : ls.length using Nat.strongRecOn generalizing ls o with
  | ind n ih =>
      rcases ls with _ | ⟨l, ls⟩
      · exact nil o
      obtain ⟨taken, rest, es, heq, hlap⟩ := exists_lap o hls
      rw [heq] at hls hn ⊢
      have hpos := List.length_pos_iff.mpr (hlap.taken_ne_nil hls)
      rw [List.length_append] at hn
      rw [hlap.eventsFrom_eq hls]
      exact lap o taken rest es hls hlap
        (ih rest.length (by omega) _ hls.of_append_right rfl)

/-- Every event of a scan belongs to one of its laps. -/
theorem exists_lap_of_event {o : Nat} {ls : List Lexeme} (hls : Lexed ls) {es es' : List Event}
    {e : Event} (h : eventsFrom 0 o ls = es ++ e :: es') :
    ∃ pre taken rest earlier before after, ls = pre ++ (taken ++ rest) ∧
      Lap (o + extent pre) taken rest (before ++ e :: after) ∧ es = earlier ++ before := by
  refine eventsFrom_induction
    (motive := fun o ls all => ∀ es, all = es ++ e :: es' →
      ∃ pre taken rest earlier before after, ls = pre ++ (taken ++ rest) ∧
        Lap (o + extent pre) taken rest (before ++ e :: after) ∧ es = earlier ++ before)
    (fun _ es hnil => by simp at hnil) (fun o taken rest first hlex hlap ih es heq => ?_) o hls es h
  -- the event is of a later lap, or of this one
  have hlater : ∀ mid, eventsFrom 0 (o + extent taken) rest = mid ++ e :: es' →
      ∃ pre taken' rest' earlier before after, taken ++ rest = pre ++ (taken' ++ rest') ∧
        Lap (o + extent pre) taken' rest' (before ++ e :: after) ∧
          first ++ mid = earlier ++ before := by
    intro mid hmid
    obtain ⟨pre, taken', rest', earlier, before, after, rfl, hlap', rfl⟩ := ih mid hmid
    refine ⟨taken ++ pre, taken', rest', first ++ earlier, before, after, by simp, ?_, by simp⟩
    rwa [extent, source_append, List.length_append, ← Nat.add_assoc]
  rcases List.append_eq_append_iff.mp heq with ⟨mid, rfl, hmid⟩ | ⟨mid, rfl, hmid⟩
  · exact hlater mid hmid
  · cases mid with
    | nil =>
        have hnow := hlater [] hmid.symm
        rwa [List.append_nil, List.append_nil] at hnow
    | cons x after =>
        obtain ⟨rfl, _⟩ := List.cons.inj hmid
        exact ⟨[], taken, rest, [], es, after, rfl, hlap, rfl⟩

/-! ## The items of a scan, wherever it starts -/

def itemsOf (es : List Event) : List Item := es.filterMap fun e => e.token?.map Token.item

@[simp] theorem itemsOf_append (es es' : List Event) :
    itemsOf (es ++ es') = itemsOf es ++ itemsOf es' :=
  List.filterMap_append

def items (ls : List Lexeme) : List Item := itemsOf (eventsFrom 0 0 ls)

@[simp] theorem items_nil : items [] = [] := rfl

theorem Lap.shift {o : Nat} {taken rest : List Lexeme} {es : List Event}
    (h : Lap o taken rest es) (o' : Nat) :
    ∃ es', Lap o' taken rest es' ∧ itemsOf es' = itemsOf es := by
  cases h with
  | blank hy hsym => exact ⟨_, .blank hy hsym, rfl⟩
  | comment => exact ⟨_, .comment, rfl⟩
  | openComment => exact ⟨_, .openComment, rfl⟩
  | dropped hpre => exact ⟨_, .dropped hpre, rfl⟩
  | openDropped hpre => exact ⟨_, .openDropped hpre, rfl⟩
  | atRule hpre hbody => exact ⟨_, .atRule hpre hbody, rfl⟩
  | openAtRule hpre hbody => exact ⟨_, .openAtRule hpre hbody, rfl⟩
  | rule hplain hpre hbody => exact ⟨_, .rule hplain hpre hbody, rfl⟩
  | openRule hplain hpre hbody => exact ⟨_, .openRule hplain hpre hbody, rfl⟩
  | other hplain hpre => exact ⟨_, .other hplain hpre, rfl⟩

/-- Where a scan starts shows in the offsets only. -/
theorem itemsOf_eventsFrom (o : Nat) {ls : List Lexeme} (hls : Lexed ls) :
    itemsOf (eventsFrom 0 o ls) = items ls := by
  have hall := eventsFrom_induction
    (motive := fun _ ls es => ∀ o', itemsOf (eventsFrom 0 o' ls) = itemsOf es)
    (fun _ _ => rfl)
    (fun o taken rest es hlex hlap ih o' => by
      obtain ⟨es', hlap', hes⟩ := hlap.shift o'
      rw [hlap'.eventsFrom_eq hlex, itemsOf_append, itemsOf_append, hes, ih])
    o hls
  exact (hall 0).symm

/-- A lap takes its item from the front. -/
theorem Lap.items_eq {o : Nat} {taken rest : List Lexeme} {es : List Event}
    (h : Lap o taken rest es) (hlex : Lexed (taken ++ rest)) :
    items (taken ++ rest) = itemsOf es ++ items rest := by
  rw [← itemsOf_eventsFrom o hlex, h.eventsFrom_eq hlex, itemsOf_append,
    itemsOf_eventsFrom _ hlex.of_append_right]

/-- What holds of no items at the end of the source, and before a lap if it holds
behind it, holds of the items of every scan. -/
theorem items_induction {motive : List Lexeme → List Item → Prop} (nil : motive [] [])
    (lap : ∀ taken rest es, Lexed (taken ++ rest) → Lap 0 taken rest es →
      motive rest (items rest) → motive (taken ++ rest) (itemsOf es ++ items rest))
    {ls : List Lexeme} (hls : Lexed ls) : motive ls (items ls) := by
  refine eventsFrom_induction (motive := fun _ ls es => motive ls (itemsOf es))
    (fun _ => nil) (fun o taken rest es hlex hlap ih => ?_) 0 hls
  obtain ⟨es', hlap', hes⟩ := hlap.shift 0
  rw [itemsOf_eventsFrom _ hlex.of_append_right] at ih
  rw [itemsOf_append, itemsOf_eventsFrom _ hlex.of_append_right, ← hes]
  exact lap taken rest es' hlex hlap' ih

end Scan

def Sheet.items (sheet : Sheet) : List Item := sheet.tokens.map Token.item

theorem Sheet.items_scan (s : Bytes) : (Sheet.scan s).items = Scan.items (Lexeme.ofBytes s) := by
  rw [Sheet.items, Sheet.scan, List.map_filterMap]
  rfl

end Cascade
