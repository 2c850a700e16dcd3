import Cascade.Proofs.Yaml.Find

/-!
# Lines of a document

A document of lines, each with a key and perhaps a value. The columns of the keys tell which
mappings start and end, and so the tokens of the lines.
-/

namespace Cascade.Yaml

namespace Scan

variable {s b : Scan} {j : Nat} {tok : Token}

/-! ## Tokens that have been taken -/

theorem less_push (hj : j ≤ s.queue.length) : (s.less j).push tok = (s.push tok).less j := by
  simp only [less, push, List.drop_append_of_le_length hj]

theorem less_unroll (hj : j ≤ s.queue.length) (column : Int) :
    (s.less j).unroll column = (s.unroll column).less j := by
  unfold unroll
  show (if s.flow == 0 then _ else _) = _
  split_ifs
  · simp only [less, List.drop_append_of_le_length hj]
  · rfl

theorem less_save (hj : j ≤ s.queue.length) : (s.less j).save = s.save.less j := by
  have hcount : (s.less j).count = s.count := by
    simp only [count, less, List.length_drop]
    omega
  unfold save
  rw [hcount]
  rfl

theorem less_insert {number : Nat} (htaken : s.taken = 0) (hj : j ≤ number)
    (hnumber : number ≤ s.queue.length) :
    (s.less j).insert number tok = (s.insert number tok).less j := by
  have hless : ¬ number < (s.less j).taken := by
    show ¬ number < s.taken + j
    omega
  have hzero : ¬ number < s.taken := by omega
  rw [insert, insert, if_neg hless, if_neg hzero]
  simp only [less, htaken, Nat.zero_add, Nat.sub_zero, List.take_drop, List.drop_drop,
    Nat.add_sub_cancel' hj]
  have hlength : j ≤ (s.queue.take number).length := by
    rw [List.length_take]
    omega
  rw [List.drop_append_of_le_length hlength]

/-- A token before others, where none has been taken. -/
theorem insert_append {before behind : List Token} (htaken : s.taken = 0)
    (hqueue : s.queue = before ++ behind) :
    s.insert before.length tok = { s with queue := before ++ tok :: behind } := by
  have hless : ¬ before.length < s.taken := by omega
  rw [insert, if_neg hless]
  simp [htaken, hqueue]

theorem less_rolled {column number : Nat} (htaken : s.taken = 0) (hj : j ≤ number)
    (hnumber : number ≤ s.queue.length) :
    (s.less j).rolled column number = (s.rolled column number).less j := by
  unfold rolled
  show (if s.indent < column then _ else _) = _
  split_ifs
  · exact less_insert (s := s.deepen column) htaken hj hnumber
  · rfl

theorem less_keyed (htaken : s.taken = 0) (hj : j ≤ s.candidate.number)
    (hnumber : s.candidate.number ≤ s.queue.length) : (s.less j).keyed = s.keyed.less j := by
  have hinsert : (s.insert s.candidate.number .key).taken = 0 := by
    rw [insert_eq]
    exact htaken
  have hlength : s.candidate.number ≤ (s.insert s.candidate.number .key).queue.length := by
    rw [insert, if_neg (by omega)]
    simp [htaken]
    omega
  unfold keyed
  rw [show (s.less j).candidate = s.candidate from rfl, less_insert htaken hj hnumber,
    less_rolled hinsert hj hlength]
  rfl

/-! ## Columns -/

def isRight (column : Int) (c : Nat) : Bool := column < (c : Int)

def around (column : Int) (columns : List Nat) : List Nat := columns.dropWhile (isRight column)

def ends (column : Int) (columns : List Nat) : List Token :=
  List.replicate (columns.takeWhile (isRight column)).length .blockEnd

theorem ends_around (column : Int) (columns : List Nat) :
    ends column columns ++ ends (-1) (around column columns) =
      List.replicate columns.length .blockEnd := by
  have hall : ∀ cs : List Nat, cs.takeWhile (isRight (-1)) = cs := fun cs =>
    List.takeWhile_eq_self_iff.mpr fun c _ => decide_eq_true (by omega)
  rw [ends, ends, hall, List.replicate_append_replicate, around, ← List.length_append,
    List.takeWhile_append_dropWhile]

theorem around_neg (columns : List Nat) : around (-1) columns = [] :=
  List.dropWhile_eq_nil_iff.mpr fun c _ => decide_eq_true (by omega)

/-- The mappings right of the column are closed, and those around it stay open. -/
theorem closeBlocks_eq (column : Int) {indent : Int} {indents : List Int} {columns : List Nat}
    (h : indent :: indents = columns.map Int.ofNat ++ [-1]) :
    ∃ indent' indents', closeBlocks column indent indents =
        ((columns.takeWhile (isRight column)).length, indent', indents') ∧
      indent' :: indents' = (around column columns).map Int.ofNat ++ [-1] := by
  induction columns generalizing indent indents with
  | nil =>
      obtain ⟨rfl, rfl⟩ := List.cons.inj h
      exact ⟨-1, [], rfl, rfl⟩
  | cons c columns ih =>
      obtain ⟨rfl, hindents⟩ := List.cons.inj h
      obtain ⟨outside, indents, rfl⟩ : ∃ a as, indents = a :: as := by
        rw [hindents]
        exact List.exists_cons_of_ne_nil (by simp)
      by_cases hless : column < (c : Int)
      · obtain ⟨indent', indents', hclose, hrest⟩ := ih hindents
        refine ⟨indent', indents', ?_, ?_⟩
        · show (if column < (c : Int) then _ else _) = _
          rw [if_pos hless, hclose, List.takeWhile_cons_of_pos (by simpa [isRight] using hless)]
          rfl
        · rw [around, List.dropWhile_cons_of_pos (by simpa [isRight] using hless)]
          exact hrest
      · refine ⟨(c : Int), outside :: indents, ?_, ?_⟩
        · show (if column < (c : Int) then _ else _) = _
          rw [if_neg hless, List.takeWhile_cons_of_neg (by simpa [isRight] using hless)]
          rfl
        · rw [around, List.dropWhile_cons_of_neg (by simpa [isRight] using hless)]
          exact h

/-- Mappings are open in these columns, the innermost first, and no token has been taken. -/
structure Level (b : Scan) (columns : List Nat) (limit : Nat) : Prop where
  started : b.started = true
  taken : b.taken = 0
  flow : b.flow = 0
  outer : b.outer = []
  columns : b.indent :: b.indents = columns.map Int.ofNat ++ [-1]
  limit : b.limit = limit

/-- All tokens that have been found are there to stay. -/
structure Open (b : Scan) (columns : List Nat) (tokens : List Token) (limit : Nat) : Prop
    extends b.Level columns limit where
  settled : b.candidate.possible = false
  queue : b.queue = tokens

/-- The last token is a key if a colon follows. -/
structure Pending (b : Scan) (columns : List Nat) (column : Nat) (tokens : List Token)
    (tok : Token) (limit : Nat) : Prop extends b.Level columns limit where
  possible : b.candidate.possible = true
  awaited : b.candidate.awaited = true
  fresh : b.isStale b.candidate = false
  number : b.candidate.number = tokens.length
  place : b.candidate.place.column = column
  past : column < b.place.column
  queue : b.queue = tokens ++ [tok]

variable {columns : List Nat} {tokens : List Token} {limit : Nat}

theorem Level.indents_length (hb : b.Level columns limit) : b.indents.length = columns.length := by
  have h := congrArg List.length hb.columns
  simpa using h

theorem Open.steady (hb : b.Open columns tokens limit) : b.Steady :=
  ⟨hb.taken, hb.outer, fun h => by rw [hb.settled] at h; cases h⟩

theorem Open.hold_eq (hb : b.Open columns tokens limit) : b.hold = tokens.length := by
  rw [hold, hb.settled, if_neg Bool.false_ne_true, hb.queue]

theorem Open.beyond (hb : b.Open columns tokens limit) (cs : List Char) :
    (b.beyond cs).Open columns tokens limit :=
  ⟨⟨hb.started, hb.taken, hb.flow, hb.outer, hb.columns, hb.limit⟩, hb.settled, hb.queue⟩

theorem Open.allow (hb : b.Open columns tokens limit) (keys : Bool) :
    (b.allow keys).Open columns tokens limit :=
  ⟨⟨hb.started, hb.taken, hb.flow, hb.outer, hb.columns, hb.limit⟩, hb.settled, hb.queue⟩

theorem Open.push (hb : b.Open columns tokens limit) (tok : Token) :
    (b.push tok).Open columns (tokens ++ [tok]) limit :=
  ⟨⟨hb.started, hb.taken, hb.flow, hb.outer, hb.columns, hb.limit⟩, hb.settled,
    congrArg (· ++ [tok]) hb.queue⟩

theorem Open.unroll (hb : b.Open columns tokens limit) (column : Int) :
    (b.unroll column).Open (around column columns) (tokens ++ ends column columns) limit := by
  obtain ⟨indent', indents', hclose, hcolumns⟩ := closeBlocks_eq column hb.columns
  have hunroll : b.unroll column =
      { b with
        indent := indent'
        indents := indents'
        queue := b.queue ++ ends column columns } := by
    rw [Scan.unroll, beq_iff_eq.mpr hb.flow, if_pos rfl, hclose]
    rfl
  rw [hunroll]
  exact ⟨⟨hb.started, hb.taken, hb.flow, hb.outer, hcolumns, hb.limit⟩, hb.settled,
    congrArg (· ++ ends column columns) hb.queue⟩

theorem Open.count_eq (hb : b.Open columns tokens limit) : b.count = tokens.length := by
  rw [count, hb.taken, hb.queue, Nat.zero_add]

/-- A short word has been read where a key may start. -/
theorem Open.pending (hb : b.Open columns tokens limit) {w : List Char} (hne : w ≠ [])
    (hw : ∀ c ∈ w, isBreak c = false) (hlength : w.length ≤ keyLimit) (tok : Token) :
    (((b.save.allow false).beyond w).push tok).Pending columns b.place.column tokens tok limit := by
  have hplace : w.foldl Place.past b.place = _ := Place.foldl_past hw b.place
  exact
    { started := hb.started
      taken := hb.taken
      flow := hb.flow
      outer := hb.outer
      columns := hb.columns
      limit := hb.limit
      possible := rfl
      awaited := rfl
      fresh := by
        show (decide (b.place.line < (w.foldl Place.past b.place).line) ||
          decide (b.place.index + keyLimit < (w.foldl Place.past b.place).index)) = false
        rw [hplace, Bool.or_eq_false_iff, decide_eq_false_iff_not, decide_eq_false_iff_not]
        exact ⟨Nat.lt_irrefl _, Nat.not_lt.mpr (Nat.add_le_add_left hlength _)⟩
      number := hb.count_eq
      place := rfl
      past := by
        have hpos := List.length_pos_of_ne_nil hne
        show b.place.column < (w.foldl Place.past b.place).column
        rw [hplace]
        exact Nat.lt_add_of_pos_right hpos
      queue := congrArg (· ++ [tok]) hb.queue }

def enter (column : Nat) (columns : List Nat) : List Nat :=
  if columns.head? = some column then columns else column :: columns

def opening (column : Nat) (columns : List Nat) : List Token :=
  if columns.head? = some column then [] else [.blockMapping]

theorem head_enter (column : Nat) (columns : List Nat) :
    (enter column columns).head? = some column := by
  unfold enter
  split_ifs with h
  · exact h
  · rfl

theorem length_around (column : Int) (columns : List Nat) :
    (around column columns).length ≤ columns.length :=
  (List.dropWhile_sublist _).length_le

theorem length_enter_around (column : Nat) (columns : List Nat) :
    (enter column (around column columns)).length ≤ columns.length + 1 := by
  have h := length_around column columns
  unfold enter
  split_ifs
  · omega
  · exact Nat.succ_le_succ h

theorem Level.head_iff (hb : b.Level columns limit) {column : Nat} :
    columns.head? = some column ↔ b.indent = column := by
  have h := hb.columns
  cases columns with
  | nil =>
      rw [(List.cons.inj h).1]
      exact ⟨nofun, fun hindent => by omega⟩
  | cons c rest =>
      rw [(List.cons.inj h).1, List.head?_cons, Option.some_inj]
      exact Int.ofNat_inj.symm

/-- The last token is a key. -/
theorem Pending.keyed {column : Nat} (hb : b.Pending columns column tokens tok limit)
    (hle : b.indent ≤ column) :
    b.keyed.Open (enter column columns) (tokens ++ (opening column columns ++ [.key, tok])) limit ∧
      b.keyed.place = b.place := by
  have hkey : b.insert tokens.length .key = { b with queue := tokens ++ [.key, tok] } :=
    insert_append hb.taken hb.queue
  unfold Scan.keyed enter opening
  rw [hb.number, hkey, hb.place, rolled]
  by_cases hless : b.indent < column
  · have hnew : ¬ columns.head? = some column := by
      rw [hb.head_iff]
      omega
    have hmapping : (Scan.deepen { b with queue := tokens ++ [.key, tok] } column).insert
        tokens.length .blockMapping =
          { b with
            indent := column
            indents := b.indent :: b.indents
            queue := tokens ++ [.blockMapping, .key, tok] } := insert_append hb.taken rfl
    rw [if_pos hless, if_neg hnew, if_neg hnew, hmapping]
    exact ⟨⟨⟨hb.started, hb.taken, hb.flow, hb.outer, congrArg ((column : Int) :: ·) hb.columns,
      hb.limit⟩, rfl, rfl⟩, rfl⟩
  · have hold : columns.head? = some column := by
      rw [hb.head_iff]
      omega
    rw [if_neg hless, if_pos hold, if_pos hold]
    exact ⟨⟨⟨hb.started, hb.taken, hb.flow, hb.outer, hb.columns, hb.limit⟩, rfl, rfl⟩, rfl⟩

/-- The last column of those around another one is no further to the right. -/
theorem indent_le {column : Nat} (hb : b.Level (around column columns) limit) :
    b.indent ≤ column := by
  have h := hb.columns
  cases hrest : around column columns with
  | nil =>
      rw [hrest] at h
      rw [(List.cons.inj h).1]
      omega
  | cons c rest =>
      have hc := List.head?_dropWhile_not (isRight column) columns
      rw [← around, hrest] at hc
      rw [hrest] at h
      rw [(List.cons.inj h).1]
      exact Int.not_lt.mp (of_decide_eq_false hc)

end Scan

namespace Reading

variable {b b' : Scan} {t t' rest : List Char} {columns : List Nat} {tokens : List Token}
  {limit k m : Nat}

/-- Whatever tokens the stages come to that these lead to, this one comes to them. -/
def Leads (b : Scan) (t : List Char) (P : Scan → List Char → Prop) : Prop :=
  ∀ ts, (∀ b' t', P b' t' → Yields (t'.length + 1) b' t' ts) → Yields (t.length + 1) b t ts

theorem Leads.refl {P : Scan → List Char → Prop} (h : P b t) : Leads b t P := fun _ hts => hts b t h

theorem Step.leads {P : Scan → List Char → Prop} (h : Step b t b' t') (hlt : t'.length < t.length)
    (hrest : Leads b' t' P) : Leads b t P :=
  fun ts hts => .step (Nat.succ_lt_succ hlt) h (hrest ts hts)

theorem Leads.trans {P Q : Scan → List Char → Prop} (h : Leads b t P)
    (hrest : ∀ b' t', P b' t' → Leads b' t' Q) : Leads b t Q :=
  fun ts hts => h ts fun b' t' hP => hrest b' t' hP ts hts

/-- What follows starts in column `k` of the next line, unless that has been reached. -/
def Before (b : Scan) (t : List Char) (k : Nat) (rest : List Char) : Prop :=
  t = '\n' :: List.replicate k ' ' ++ rest ∨ t = rest ∧ b.keys = true ∧ b.place.column = k

theorem Before.length_le (h : Before b t k rest) : rest.length ≤ t.length := by
  rcases h with rfl | ⟨rfl, -⟩
  · rw [List.length_append]
    omega
  · exact Nat.le_refl _

/-- The next line is reached. -/
theorem Before.seek (h : Before b t k rest) (hb : b.Open columns tokens limit)
    (hrest : isStart (rest.headD finish) = true) (hlimit : t.length + 4 ≤ limit) :
    ∃ b₀ : Scan, b₀.Open columns tokens limit ∧ b₀.keys = true ∧ b₀.place.column = k ∧
      ∀ {j n}, Runs (seek limit) ⟨b.less j, t, n⟩ () ⟨b₀.less j, rest, 1⟩ := by
  rcases h with rfl | ⟨rfl, hkeys, hcolumn⟩
  · refine ⟨(b.beyond ('\n' :: List.replicate k ' ')).allow true, (hb.beyond _).allow true, rfl,
      Place.foldl_past_line b.place, fun {j n} => ?_⟩
    have hlength : k < b.limit := by
      rw [hb.limit]
      simp only [List.length_append, List.length_cons, List.length_replicate] at hlimit
      omega
    have hrun : Runs (Reading.seek limit) _ _ _ :=
      runs_seek_line (s := b.less j) (n := n) (k := k) hrest (by omega) hlength
    have hflow : ((b.less j).keys || (b.less j).flow == 0) = true := by
      rw [show ((b.less j).flow == 0) = true from beq_iff_eq.mpr hb.flow, Bool.or_true]
    rw [hflow] at hrun
    exact hrun
  · refine ⟨b, hb, hkeys, hcolumn, fun {j n} => ?_⟩
    exact runs_seek (s := b.less j) (n := n) (k := 0) hrest (by omega)
      (by rw [show (b.less j).limit = limit from hb.limit]; omega)

theorem plainStart_of_isLetter {c d : Char} (hc : isLetter c = true) : PlainStart c d :=
  ⟨endsWord_of_isLetter hc, Or.inl fun hmem => by
    have hall : indicators.all (fun x => !isLetter x) = true := by decide
    have h := List.all_eq_true.mp hall c hmem
    rw [hc] at h
    cases h⟩

/-- A key is found, which is not known as one yet. -/
theorem step_key {w : List Char} (hb : b.Open columns tokens limit)
    (ht : Before b t k (w ++ ':' :: t')) (hne : w ≠ []) (hw : ∀ c ∈ w, isLetter c = true)
    (hlength : w.length ≤ keyLimit) (hd : endsWord (t'.headD finish) = true)
    (hlimit : t.length + 4 ≤ limit) :
    ∃ b', Step b t b' (':' :: t') ∧ b'.Pending (Scan.around k columns) k
      (tokens ++ Scan.ends k columns) (.scalar .plain (Utf8.ofChars w)) limit := by
  obtain ⟨c, u, rfl⟩ := List.exists_cons_of_ne_nil hne
  obtain rfl := hb.limit
  have hc : isLetter c = true := hw c List.mem_cons_self
  have hstart : isStart c = true := forall_letter (p := isStart) (by decide) hc
  have hbreak : ∀ x ∈ c :: u, isBreak x = false := fun x hx =>
    isBreak_of_endsWord (endsWord_of_isLetter (hw x hx))
  have hfuel : (c :: u).length < b.limit := by
    have hle := ht.length_le
    rw [List.length_append] at hle
    omega
  obtain ⟨b₀, hopen₀, hkeys₀, hcolumn₀, hseek⟩ := ht.seek hb hstart hlimit
  have hopen := hopen₀.unroll k
  have hcolumn : (b₀.unroll k).place.column = k := by rw [Scan.unroll_place, hcolumn₀]
  have hkeys : (b₀.unroll k).keys = true := by rw [Scan.unroll_keys, hkeys₀]
  generalize hb₁ : b₀.unroll k = b₁ at hopen hcolumn hkeys
  have hpending := hopen.pending hne hbreak hlength (.scalar .plain (Utf8.ofChars (c :: u)))
  rw [hcolumn] at hpending
  refine ⟨((b₁.save.allow false).beyond (c :: u)).push (.scalar .plain (Utf8.ofChars (c :: u))),
    ⟨hb.steady, fun {j n} hj => ?_, ?_, ?_, hopen.limit⟩, hpending⟩
  · -- the key is found in the same way, however many of the tokens before it have been taken
    rw [hb.hold_eq] at hj
    have hj₀ : j ≤ b₀.queue.length := by rwa [hopen₀.queue]
    have hj₁ : j ≤ b₁.queue.length := by
      rw [hopen.queue, List.length_append]
      omega
    have hread : Runs (return Token.scalar .plain (← plain))
        ⟨(b₁.less j).save.allow false, c :: u ++ ':' :: t', 4⟩
        (.scalar .plain (Utf8.ofChars (c :: u)))
        ⟨((b₁.less j).save.allow false).beyond (c :: u), ':' :: t', 2⟩ :=
      (runs_plain_key (s := (b₁.less j).save.allow false) hopen.flow hne hw hd
        (hfuel.trans_eq hopen.limit.symm)).bind (runs_pure _ _)
    have hpart := runs_foundPart_key (s := b₁.less j) hkeys hopen.settled hread
    have hunroll : (b₀.less j).unroll (b₀.less j).place.column = b₁.less j := by
      rw [Scan.less_unroll hj₀, show (b₀.less j).place = b₀.place from rfl, hcolumn₀, hb₁]
    rw [Scan.less_save hj₁] at hpart
    refine runs_find hb.started hseek (ne_of_isLetter hc rfl) (Or.inr ?_) ?_
    · exact ⟨ne_of_isLetter hc rfl, ne_of_isLetter hc rfl, ne_of_isLetter hc rfl⟩
    · rw [hunroll, ← Scan.less_push (s := (b₁.save.allow false).beyond (c :: u)) hj₁]
      exact runs_foundInside_plain hopen.flow (quiet_of_head rfl (show ':' ≠ '#' by decide))
        (plainStart_of_isLetter hc) hpart
  · show b.hold ≤ b₁.count
    rw [hb.hold_eq, hopen.count_eq, List.length_append]
    exact Nat.le_add_right _ _
  · show (b₁.queue ++ [_]).take b.hold = b.queue.take b.hold
    rw [hb.hold_eq, hb.queue, hopen.queue, List.append_assoc, List.take_left, List.take_length]

/-- The colon behind a key is found. -/
theorem step_colon {tok : Token} (hb : b.Pending columns k tokens tok limit)
    (hle : b.indent ≤ k) (hd : endsWord (t.headD finish) = true) (hquiet : Quiet t)
    (hdepth : columns.length < depthLimit) (hlimit : 0 < limit) :
    ∃ b', Step b (':' :: t) b' t ∧
      b'.Open (Scan.enter k columns)
        (tokens ++ (Scan.opening k columns ++ [.key, tok]) ++ [.value]) limit ∧
      b'.keys = false ∧ k < b'.place.column := by
  obtain rfl := hb.limit
  obtain ⟨hopen, hplace⟩ := hb.keyed hle
  have hhold : b.hold = tokens.length := by rw [Scan.hold, hb.possible, if_pos rfl, hb.number]
  have hnumber : b.candidate.number ≤ b.queue.length := by
    rw [hb.number, hb.queue, List.length_append]
    exact Nat.le_add_right _ _
  have hpast := hb.past
  have hopen' := (hopen.beyond [':']).push .value
  refine ⟨(b.keyed.beyond [':']).push .value, ⟨⟨hb.taken, hb.outer, fun _ => ?_⟩, fun {j n} hj => ?_,
    ?_, ?_, hopen.limit⟩, hopen', rfl, ?_⟩
  · exact ⟨hb.awaited, hb.fresh, hnumber⟩
  · rw [hhold] at hj
    have hseek : Runs (seek b.limit) ⟨b.less j, ':' :: t, 1⟩ () ⟨b.less j, ':' :: t, 1⟩ :=
      runs_seek (k := 0) rfl hlimit hlimit
    have hunroll : (b.less j).unroll (b.less j).place.column = b.less j :=
      Scan.unroll_self (show b.indent ≤ b.place.column by omega)
    have hcolon := runs_foundColon (s := b.less j) (t := t) (n := 3) hb.flow hb.possible hb.fresh
      (hb.indents_length.trans_lt hdepth)
    have hj' : j ≤ (b.keyed.beyond [':']).queue.length := by
      rw [(hopen.beyond [':']).queue, List.length_append]
      omega
    have hscan : (((b.less j).keyed.beyond [':']).push .value) =
        ((b.keyed.beyond [':']).push .value).less j := by
      rw [Scan.less_keyed hb.taken (hb.number ▸ hj) hnumber]
      exact Scan.less_push hj'
    rw [hscan] at hcolon
    refine runs_find hb.started hseek (by decide) (Or.inl (show b.place.column ≠ 0 by omega)) ?_
    rw [hunroll]
    exact runs_foundInside_colon hb.flow hquiet hd hcolon
  · rw [hhold, hopen'.hold_eq, List.append_assoc, List.length_append]
    exact Nat.le_add_right _ _
  · rw [hhold, hopen'.queue, hb.queue, List.append_assoc, List.take_left, List.take_left]
  · show k < (b.keyed.place.past ':').column
    rw [hplace]
    exact Nat.lt_succ_of_lt hpast

/-- A value behind a space. -/
theorem step_value {c : Char} {v : List Char} {tok : Token} (hb : b.Open columns tokens limit)
    (hindent : b.indent ≤ b.place.column) (hc : isStart c = true) (hfinish : c ≠ finish)
    (hlimit : 1 < limit) (hb' : b'.Open columns tokens limit)
    (hfound : ∀ {j}, Runs (foundInside c (v.headD finish)) ⟨(b.beyond [' ']).less j, c :: v, 4⟩ ()
      ⟨(b'.less j).push tok, t', 0⟩) :
    Step b (' ' :: c :: v) (b'.push tok) t' := by
  obtain rfl := hb.limit
  refine ⟨hb.steady, fun {j n} hj => ?_, ?_, ?_, hb'.limit⟩
  · rw [hb.hold_eq, ← hb'.queue] at hj
    have hseek : Runs (seek b.limit) ⟨b.less j, ' ' :: c :: v, 1⟩ ()
        ⟨(b.beyond [' ']).less j, c :: v, 1⟩ :=
      runs_seek (s := b.less j) (k := 1) hc (Nat.zero_lt_of_lt hlimit) hlimit
    have hunroll : ((b.beyond [' ']).less j).unroll ((b.beyond [' ']).less j).place.column =
        (b.beyond [' ']).less j :=
      Scan.unroll_self (show b.indent ≤ (b.place.column + 1 : Nat) by omega)
    refine runs_find hb.started hseek hfinish (Or.inl (Nat.succ_ne_zero _)) ?_
    rw [hunroll, ← Scan.less_push hj]
    exact hfound
  · rw [hb.hold_eq, (hb'.push tok).hold_eq, List.length_append]
    exact Nat.le_add_right _ _
  · rw [hb.hold_eq, hb.queue, (hb'.push tok).queue, List.take_left, List.take_length]

/-- Behind the end, only ends are found. -/
theorem idle_of_open (hb : b.Open [] tokens limit) (hkeys : b.keys = false)
    (hcolumn : b.place.column = 0) (hlimit : 0 < limit) : Idle b := by
  obtain rfl := hb.limit
  have hindent : b.indent = -1 := (List.cons.inj hb.columns).1
  refine ⟨hb.steady, hb.settled, fun {j k n} hj => ?_⟩
  have hseek : Runs (seek b.limit) ⟨(b.ended k).less j, [], 1⟩ () ⟨(b.ended k).less j, [], 1⟩ :=
    runs_seek (k := 0) rfl hlimit hlimit
  have hunroll : ∀ column : Int, -1 ≤ column →
      ((b.ended k).less j).unroll column = (b.ended k).less j := fun column hle =>
    Scan.unroll_self (show b.indent ≤ column by rwa [hindent])
  have hend := runs_foundEnd (s := (b.ended k).less j) (t := []) (n := 4) hcolumn
    (by rw [hunroll _ (Int.le_refl _)]; exact hb.settled)
  rw [hunroll _ (Int.le_refl _), Scan.allow_self (s := (b.ended k).less j) hkeys] at hend
  have hpush : ((b.ended k).less j).push .streamEnd = (b.ended (k + 1)).less j := by
    have hj' : j ≤ (b.queue ++ List.replicate k Token.streamEnd).length := by
      rw [List.length_append]
      omega
    rw [Scan.less_push hj']
    simp only [Scan.push, Scan.ended, List.append_assoc, List.replicate_succ']
  rw [hpush] at hend
  refine runs_find_end hb.started hseek ?_
  rw [hunroll _ (by omega)]
  exact hend.forget (Nat.zero_le 4)

/-- The end of a document is found. -/
theorem yields_end (hb : b.Open columns tokens limit) (ht : Before b t 0 [])
    (hlimit : t.length + 4 ≤ limit) :
    Yields (t.length + 1) b t
      (tokens ++ List.replicate columns.length .blockEnd ++ [.streamEnd]) := by
  obtain rfl := hb.limit
  obtain ⟨b₀, hopen₀, -, hcolumn₀, hseek⟩ := ht.seek hb rfl hlimit
  have hopen₁ := hopen₀.unroll 0
  have hopen₂ := hopen₁.unroll (-1)
  have hcolumn : ((b₀.unroll 0).unroll (-1)).place.column = 0 := by
    rw [Scan.unroll_place, Scan.unroll_place, hcolumn₀]
  have hlast := (hopen₂.allow false).push .streamEnd
  rw [Scan.around_neg, List.append_assoc tokens, Scan.ends_around] at hlast
  have hstep : Step b t ((((b₀.unroll 0).unroll (-1)).allow false).push .streamEnd) [] := by
    refine ⟨hb.steady, fun {j n} hj => ?_, ?_, ?_, hlast.limit⟩
    · rw [hb.hold_eq] at hj
      have hj₀ : j ≤ b₀.queue.length := by rwa [hopen₀.queue]
      have hj₁ : j ≤ (b₀.unroll 0).queue.length := by
        rw [hopen₁.queue, List.length_append]
        omega
      have hj₂ : j ≤ ((b₀.unroll 0).unroll (-1)).queue.length := by
        rw [hopen₂.queue, List.length_append, List.length_append]
        omega
      have hunroll : (b₀.less j).unroll (b₀.less j).place.column = (b₀.unroll 0).less j := by
        rw [Scan.less_unroll hj₀, show (b₀.less j).place = b₀.place from rfl, hcolumn₀]
        rfl
      refine runs_find_end hb.started hseek ?_
      rw [hunroll, ← Scan.less_push (s := ((b₀.unroll 0).unroll (-1)).allow false) hj₂]
      have hend := runs_foundEnd (s := (b₀.unroll 0).less j) (t := []) (n := 4)
      rw [Scan.less_unroll hj₁] at hend
      exact (hend (by rw [← hcolumn, Scan.unroll_place]; rfl) hopen₂.settled).forget (Nat.zero_le 4)
    · rw [hb.hold_eq, hlast.hold_eq, List.append_assoc, List.length_append]
      exact Nat.le_add_right _ _
    · rw [hb.hold_eq, hb.queue, hlast.queue, List.append_assoc, List.take_left, List.take_length]
  have hidle := idle_of_open hlast rfl hcolumn (by omega)
  have hyields := Yields.idle 0 0 hidle
  rw [hlast.queue, Scan.ended_zero] at hyields
  exact .step (Nat.succ_pos _) hstep hyields

/-! ## All lines -/

/-- Behind the colon of a key in a column, the text reads as these tokens. The end of its line is a
part of it. -/
def Reads (column : Nat) (text : List Char) (ts : List Token) : Prop :=
  ∀ (b : Scan) (columns : List Nat) (tokens : List Token) (limit k : Nat) (rest : List Char),
    b.Open columns tokens limit → b.indent = column → b.keys = false → column < b.place.column →
    isStart (rest.headD finish) = true → k ≤ column →
    (' ' :: text ++ (List.replicate k ' ' ++ rest)).length + 4 ≤ limit →
    Leads b (' ' :: text ++ (List.replicate k ' ' ++ rest)) fun b' t' =>
      b'.Open columns (tokens ++ ts) limit ∧ Before b' t' k rest

end Reading

structure Line where
  column : Nat
  key : List Char
  /-- The value, up to the end of the line, and its tokens. -/
  value : Option (List Char × List Token)

namespace Line

open Reading

def text (l : Line) : List Char := l.value.elim ['\n'] fun v => ' ' :: v.1

def tokens (l : Line) : List Token :=
  .key :: .scalar .plain (Utf8.ofChars l.key) :: .value :: l.value.elim [] Prod.snd

def chars : List Line → List Char
  | [] => []
  | l :: ls => List.replicate l.column ' ' ++ (l.key ++ ':' :: (l.text ++ chars ls))

/-- The tokens of lines inside mappings in these columns, up to the end of the document. -/
def allTokens : (columns : List Nat) → List Line → List Token
  | columns, [] => List.replicate columns.length .blockEnd ++ [.streamEnd]
  | columns, l :: ls =>
    let around := Scan.around l.column columns
    Scan.ends l.column columns ++ (Scan.opening l.column around ++
      (l.tokens ++ allTokens (Scan.enter l.column around) ls))

def first : List Line → Nat × List Char
  | [] => (0, [])
  | l :: ls => (l.column, l.key ++ ':' :: (l.text ++ chars ls))

structure Sound (l : Line) : Prop where
  key_ne_nil : l.key ≠ []
  key_isLetter : ∀ c ∈ l.key, isLetter c = true
  key_length : l.key.length ≤ keyLimit
  value_start : ∀ v ∈ l.value, ∃ c u, v.1 = c :: u ∧ isStart c = true
  value_reads : ∀ v ∈ l.value, Reads l.column v.1 v.2

/-- Behind a value, no line is further to the right. -/
def AllSound : List Line → Prop
  | [] => True
  | l :: ls => l.Sound ∧ (l.value.isSome = true → (first ls).1 ≤ l.column) ∧ AllSound ls

theorem chars_eq (ls : List Line) : chars ls = List.replicate (first ls).1 ' ' ++ (first ls).2 := by
  cases ls <;> rfl

theorem isStart_first {ls : List Line} (h : AllSound ls) :
    isStart ((first ls).2.headD finish) = true := by
  cases ls with
  | nil => rfl
  | cons l ls =>
      obtain ⟨c, u, hkey⟩ := List.exists_cons_of_ne_nil h.1.key_ne_nil
      have hc : isLetter c = true := h.1.key_isLetter c (hkey ▸ List.mem_cons_self)
      rw [first, hkey]
      exact forall_letter (p := isStart) (by decide) hc

theorem Sound.quiet {l : Line} (h : l.Sound) (t : List Char) : Reading.Quiet (l.text ++ t) := by
  unfold text
  cases hvalue : l.value with
  | none => exact quiet_of_head rfl (show '\n' ≠ '#' by decide)
  | some v =>
      obtain ⟨c, u, hv, hc⟩ := h.value_start v hvalue
      obtain ⟨hgap, -, hmark⟩ := isStart_iff.mp hc
      rw [Option.elim_some, hv]
      exact Quiet.space (quiet_of_head hgap hmark)

theorem endsWord_text (l : Line) (t : List Char) : endsWord ((l.text ++ t).headD finish) = true := by
  unfold text
  cases l.value <;> rfl

end Line

namespace Reading

theorem Before.le_length {b : Scan} {t rest : List Char} {k : Nat} (h : Before b t k rest) :
    t.length ≤ (List.replicate k ' ' ++ rest).length + 1 := by
  rcases h with rfl | ⟨rfl, -⟩
  · exact Nat.le_refl _
  · rw [List.length_append]
    omega

variable {b : Scan} {t rest : List Char} {columns : List Nat} {tokens : List Token} {limit k : Nat}

/-- A whole line is passed. -/
theorem leads_line {l : Line} (hl : l.Sound) (hb : b.Open columns tokens limit)
    (ht : Before b t l.column (l.key ++ ':' :: (l.text ++ (List.replicate k ' ' ++ rest))))
    (hrest : isStart (rest.headD finish) = true) (hk : l.value.isSome = true → k ≤ l.column)
    (hlimit : t.length + 4 ≤ limit) (hdepth : columns.length < depthLimit) :
    Leads b t fun b' t' =>
      b'.Open (Scan.enter l.column (Scan.around l.column columns))
          (tokens ++ (Scan.ends l.column columns ++
            (Scan.opening l.column (Scan.around l.column columns) ++ l.tokens))) limit ∧
        Before b' t' k rest := by
  have hle := ht.length_le
  have hpos := List.length_pos_of_ne_nil hl.key_ne_nil
  rw [List.length_append, List.length_cons] at hle
  have haround := Scan.length_around l.column columns
  obtain ⟨b₁, hstep₁, hpending⟩ := step_key hb ht hl.key_ne_nil hl.key_isLetter hl.key_length
    (l.endsWord_text _) hlimit
  obtain ⟨b₂, hstep₂, hopen, hkeys, hcolumn⟩ := step_colon hpending
    (Scan.indent_le hpending.toLevel) (l.endsWord_text _) (hl.quiet _) (by omega) (by omega)
  refine hstep₁.leads ?_ (hstep₂.leads (Nat.lt_succ_self _) ?_)
  · rw [List.length_cons]
    omega
  · have hindent : b₂.indent = l.column := hopen.head_iff.mp (Scan.head_enter _ _)
    have htokens : tokens ++ Scan.ends l.column columns ++
        (Scan.opening l.column (Scan.around l.column columns) ++
          [.key, .scalar .plain (Utf8.ofChars l.key)]) ++ [.value] ++ l.value.elim [] Prod.snd =
        tokens ++ (Scan.ends l.column columns ++
          (Scan.opening l.column (Scan.around l.column columns) ++ l.tokens)) := by
      simp only [Line.tokens, List.append_assoc, List.cons_append, List.nil_append]
    rw [← htokens]
    unfold Line.text at hle ⊢
    cases hvalue : l.value with
    | none =>
        refine Leads.refl ⟨?_, Or.inl rfl⟩
        rwa [Option.elim_none, List.append_nil]
    | some v =>
        rw [hvalue, Option.elim_some] at hle
        rw [hvalue] at hk
        exact hl.value_reads v hvalue b₂ _ _ limit k rest hopen hindent hkeys hcolumn hrest (hk rfl)
          (by omega)

theorem yields_lines {ls : List Line} (hls : Line.AllSound ls) (hb : b.Open columns tokens limit)
    (ht : Before b t (Line.first ls).1 (Line.first ls).2) (hlimit : t.length + 4 ≤ limit)
    (hdepth : columns.length + ls.length ≤ depthLimit) :
    Yields (t.length + 1) b t (tokens ++ Line.allTokens columns ls) := by
  induction ls generalizing b t columns tokens with
  | nil =>
      have h := yields_end hb ht hlimit
      rwa [List.append_assoc] at h
  | cons l ls ih =>
      obtain ⟨hl, hright, hls⟩ := hls
      have hline := ht
      rw [Line.first, Line.chars_eq] at hline
      have hle := hline.length_le
      rw [List.length_append, List.length_cons, List.length_append] at hle
      rw [List.length_cons] at hdepth
      refine leads_line hl hb hline (Line.isStart_first hls) hright hlimit ?_ _ ?_
      · omega
      · rintro b' t' ⟨hb', ht'⟩
        have hle' := ht'.le_length
        have hcolumns := Scan.length_enter_around l.column columns
        have h := ih hls hb' ht' (by omega) (by omega)
        simpa only [Line.allTokens, List.append_assoc] using h

end Reading

end Cascade.Yaml
