import Cascade.Proofs.Yaml.Quoted

/-!
# Reading blocks of lines

The lines of a block stand in one column. What is read is the text that was written, up to the
line breaks at its end, which the marks of the block speak about.
-/

namespace Cascade.Yaml.Reading

variable {s : Scan} {t o : List Char} {n f : Nat}

/-! ## Indentation and empty lines -/

/-- Spaces are passed up to the column that is asked for, or else up to what is no blank. -/
theorem runs_skipIndent (indent : Option Nat) {k : Nat}
    (hk : ∀ i ∈ indent, s.place.column + k ≤ i)
    (hstop : indent = some (s.place.column + k) ∨ isGap (t.headD finish) = false)
    (hfuel : k < f) :
    Runs (skipIndent indent f) ⟨s, List.replicate k ' ' ++ t, n⟩ ()
      ⟨s.beyond (List.replicate k ' '), t, 1⟩ := by
  induction k generalizing s n f with
  | zero =>
      obtain ⟨f, rfl⟩ := Nat.exists_eq_succ_of_ne_zero (Nat.zero_lt_of_lt hfuel).ne'
      refine runs_next.bind (runs_get_bind fun src _ => ?_)
      rw [List.replicate_zero, List.nil_append]
      rcases hstop with rfl | hgap
      · have hinside : ((some (s.place.column + 0)).all fun i =>
            decide ((s.on src).place.column < i)) = false := by simp
        dsimp only
        rw [hinside]
        exact runs_pure _ _
      · obtain ⟨hspace, htab⟩ := Bool.or_eq_false_iff.mp hgap
        dsimp only
        rw [hspace, htab, Bool.and_false]
        exact runs_pure _ _
  | succ k ih =>
      obtain ⟨f, rfl⟩ := Nat.exists_eq_succ_of_ne_zero (Nat.zero_lt_of_lt hfuel).ne'
      have hrec := ih (s := s.beyond [' ']) (n := 0) (f := f)
        (fun i hi => by have h := hk i hi; show s.place.column + 1 + k ≤ i; omega)
        (hstop.imp_left fun h => by rw [h]; show _ = some (s.place.column + 1 + k); congr 1; omega)
        (Nat.lt_of_succ_lt_succ hfuel)
      rw [Scan.beyond_beyond] at hrec
      have hinside : (indent.all fun i => decide (s.place.column < i)) = true := by
        cases indent with
        | none => rfl
        | some i =>
            have h := hk i rfl
            exact decide_eq_true (by omega)
      refine runs_next.bind (runs_get_bind fun src _ => runs_if_pos ?_ ?_)
      · rw [Scan.on_place, hinside]
        rfl
      · exact (runs_skip rfl).bind hrec

/-- Empty lines are taken, and the indentation of the line behind them is passed. -/
theorem runs_emptyLines (indent : Option Nat) {e : List Char} {k d : Nat}
    (he : ∀ c ∈ e, isBreak c = true ∧ isPrintable c = true) (hcolumn : s.place.column = 0)
    (hk : ∀ i ∈ indent, k ≤ i) (hstop : indent = some k ∨ isGap (t.headD finish) = false)
    (hbreak : isBreak (t.headD finish) = false) (hfuel : e.length < f) (hlimit : k < s.limit) :
    Runs (emptyLines indent f d o) ⟨s, e ++ (List.replicate k ' ' ++ t), n⟩
      (max d k, e.reverse ++ o) ⟨s.beyond (e ++ List.replicate k ' '), t, 1⟩ := by
  induction e generalizing s n f o with
  | nil =>
      obtain ⟨f, rfl⟩ := Nat.exists_eq_succ_of_ne_zero (Nat.zero_lt_of_lt hfuel).ne'
      have hskip := runs_skipIndent (s := s) (n := n) (f := s.limit) (t := t) indent
        (k := k) (by rwa [hcolumn, Nat.zero_add]) (by rwa [hcolumn, Nat.zero_add]) hlimit
      have hmoved : (s.beyond (List.replicate k ' ')).place.column = k := by
        rw [column_beyond fun c hc => by rw [List.eq_of_mem_replicate hc]; rfl, hcolumn,
          Nat.zero_add, List.length_replicate]
      refine runs_fuel.bind (hskip.bind (runs_get_bind fun src _ => ?_))
      refine (runs_look Nat.zero_lt_one).bind (runs_if_neg (ne_true_of_eq_false hbreak) ?_)
      rw [Scan.on_place, hmoved]
      exact runs_pure _ _
  | cons c e ih =>
      obtain ⟨f, rfl⟩ := Nat.exists_eq_succ_of_ne_zero (Nat.zero_lt_of_lt hfuel).ne'
      obtain ⟨⟨hc, hprint⟩, he⟩ := List.forall_mem_cons.mp he
      have hrec := ih (s := s.beyond [c]) (n := 1) (f := f) (o := c :: o) he
        (column_beyond_break hc []) (Nat.lt_of_succ_lt_succ hfuel) hlimit
      rw [Scan.beyond_beyond] at hrec
      have hskip := runs_skipIndent (s := s) (n := n) (f := s.limit) indent (k := 0)
        (t := c :: e ++ (List.replicate k ' ' ++ t)) (fun i _ => by omega)
        (Or.inr (isGap_of_isBreak hc)) (by omega)
      refine runs_fuel.bind (hskip.bind (runs_get_bind fun src _ => ?_))
      refine (runs_look Nat.zero_lt_one).bind (runs_if_pos hc ?_)
      refine (runs_takeLine hc hprint).bind ?_
      rw [Scan.on_place, show (s.beyond (List.replicate 0 ' ')).place.column = 0 from hcolumn,
        Nat.max_zero, show (c :: e).reverse ++ o = e.reverse ++ c :: o by simp]
      exact hrec

/-! ## Lines -/

def isBlockChar (c : Char) : Bool := isPrintable c || c == '\t'

theorem isPrintable_of_isBlockChar {c : Char} (hc : isBlockChar c = true) (hbreak : isBreak c = true) :
    isPrintable c = true := by
  rcases Bool.or_eq_true_iff.mp hc with h | h
  · exact h
  · obtain rfl := beq_iff_eq.mp h
    exact absurd hbreak (by decide)

/-- A list splits where a predicate first fails. -/
theorem exists_span (p : Char → Bool) (cs : List Char) :
    ∃ u v, cs = u ++ v ∧ (∀ c ∈ u, p c = true) ∧ ∀ c ∈ v.head?, p c = false := by
  refine ⟨cs.takeWhile p, cs.dropWhile p, (List.takeWhile_append_dropWhile).symm,
    fun c hc => List.mem_takeWhile_imp hc, fun c hc => ?_⟩
  have h := List.head?_dropWhile_not p cs
  rw [Option.mem_def.mp hc] at h
  exact h

/-- A line, its break and the empty lines behind it. -/
theorem exists_line {cs : List Char} (hne : cs ≠ []) (hhead : ∀ c ∈ cs.head?, isBreak c = false)
    (hlast : ∀ c ∈ cs.getLast?, isBreak c = true) :
    ∃ line b e cs', cs = line ++ b :: (e ++ cs') ∧ line ≠ [] ∧ (∀ c ∈ line, isBreak c = false) ∧
      isBreak b = true ∧ (∀ c ∈ e, isBreak c = true) ∧ ∀ c ∈ cs'.head?, isBreak c = false := by
  obtain ⟨line, v, rfl, hline, hv⟩ := exists_span (fun c => !isBreak c) cs
  have hline' : ∀ c ∈ line, isBreak c = false := fun c hc => by
    simpa using hline c hc
  cases v with
  | nil =>
      -- The text would end without a line break.
      rw [List.append_nil] at hne hlast
      have hmem := List.getLast_mem hne
      have hbreak := hlast _ (List.getLast?_eq_some_getLast hne)
      rw [hline' _ hmem] at hbreak
      cases hbreak
  | cons b v =>
      obtain ⟨e, cs', rfl, he, hcs'⟩ := exists_span isBreak v
      have hb : isBreak b = true := by simpa using hv b rfl
      refine ⟨line, b, e, cs', rfl, ?_, hline', hb, he, hcs'⟩
      rintro rfl
      rw [hhead b rfl] at hb
      cases hb

structure IsLine (line : List Char) (b : Char) (e : List Char) : Prop where
  ne : line ≠ []
  chars : ∀ c ∈ line, isBlockChar c = true ∧ isBreak c = false
  ending : isBreak b = true ∧ isPrintable b = true
  empties : ∀ c ∈ e, isBreak c = true ∧ isPrintable c = true

theorem IsLine.breaks {line e : List Char} {b : Char} (h : IsLine line b e) :
    ∀ c ∈ b :: e, isBreak c = true :=
  List.forall_mem_cons.mpr ⟨h.ending.1, fun c hc => (h.empties c hc).1⟩

/-- Neither a break nor the end of the text is inside a line. -/
theorem IsLine.goesOn {line e : List Char} {b : Char} (h : IsLine line b e) :
    ∀ c ∈ line, (!endsLine c && c != finish) = true ∧ isBreak c = false := by
  intro c hc
  obtain ⟨hallowed, hnot⟩ := h.chars c hc
  have hfinish : c ≠ finish := by
    rintro rfl
    exact absurd hallowed (by decide)
  refine ⟨?_, hnot⟩
  rw [endsLine, hnot, beq_false_of_ne hfinish]
  simpa using hfinish

theorem IsLine.headD_append {line e : List Char} {b : Char} (h : IsLine line b e)
    (t : List Char) : (line ++ t).headD finish = line.headD finish := by
  obtain ⟨c, u, rfl⟩ := List.exists_cons_of_ne_nil h.ne
  rfl

theorem IsLine.headD_ne_finish {line e : List Char} {b : Char} (h : IsLine line b e) :
    line.headD finish ≠ finish := by
  obtain ⟨c, u, rfl⟩ := List.exists_cons_of_ne_nil h.ne
  have hc := (h.goesOn c List.mem_cons_self).1
  rw [Bool.and_eq_true, bne_iff_ne] at hc
  exact hc.2

inductive BlockText : List Char → Prop
  | last {line e : List Char} {b : Char} : IsLine line b e → BlockText (line ++ b :: e)
  | cons {line e cs : List Char} {b : Char} :
      IsLine line b e → BlockText cs → BlockText (line ++ b :: (e ++ cs))

theorem BlockText.exists_cons {cs : List Char} (h : BlockText cs) :
    ∃ c u, cs = c :: u ∧ isBreak c = false := by
  obtain ⟨line, u, rfl, hne, hline⟩ : ∃ line u, cs = line ++ u ∧ line ≠ [] ∧
      ∀ c ∈ line, isBreak c = false := by
    cases h with
    | last hline => exact ⟨_, _, rfl, hline.ne, fun c hc => (hline.chars c hc).2⟩
    | cons hline _ => exact ⟨_, _, rfl, hline.ne, fun c hc => (hline.chars c hc).2⟩
  obtain ⟨c, line, rfl⟩ := List.exists_cons_of_ne_nil hne
  exact ⟨c, line ++ u, rfl, hline c List.mem_cons_self⟩

theorem blockText_of_ends {cs : List Char} (hne : cs ≠ [])
    (hcs : ∀ c ∈ cs, isBlockChar c = true) (hhead : ∀ c ∈ cs.head?, isBreak c = false)
    (hlast : ∀ c ∈ cs.getLast?, isBreak c = true) : BlockText cs := by
  induction hn : cs.length using Nat.strong_induction_on generalizing cs with
  | _ n ih =>
      obtain ⟨line, b, e, cs', rfl, hlne, hline, hb, he, hhead'⟩ := exists_line hne hhead hlast
      obtain ⟨hcsline, hcsrest⟩ := List.forall_mem_append.mp hcs
      obtain ⟨hcsb, hcsrest⟩ := List.forall_mem_cons.mp hcsrest
      obtain ⟨hcse, hcs'⟩ := List.forall_mem_append.mp hcsrest
      have hfirst : IsLine line b e :=
        ⟨hlne, fun c hc => ⟨hcsline c hc, hline c hc⟩, ⟨hb, isPrintable_of_isBlockChar hcsb hb⟩,
          fun c hc => ⟨he c hc, isPrintable_of_isBlockChar (hcse c hc) (he c hc)⟩⟩
      by_cases hnil : cs' = []
      · rw [hnil, List.append_nil]
        exact .last hfirst
      · refine .cons hfirst (ih cs'.length ?_ hnil hcs' hhead' (fun c hc => hlast c ?_) rfl)
        · simp only [List.length_append, List.length_cons] at hn
          omega
        · rwa [← List.cons_append, ← List.append_assoc, List.getLast?_append_of_ne_nil _ hnil]

/-! ## What is known of a block -/

theorem Block.reverse_join (b : Block) (shifted : Bool) :
    (b.join false shifted).reverse = b.finish .keep := by
  simp [Block.join, Block.finish]

def Block.after (block : Block) (line : List Char) (b : Char) (e : List Char) : Block :=
  ⟨line.reverse ++ block.join false (isGap (line.headD Yaml.finish)), [b], e.reverse,
    isGap (line.headD Yaml.finish)⟩

theorem Block.finish_after (block : Block) (line : List Char) (b : Char) (e : List Char) :
    (block.after line b e).finish .keep = block.finish .keep ++ (line ++ b :: e) := by
  have hjoin := Block.reverse_join block (isGap (line.headD Yaml.finish))
  simp only [Block.after, Block.finish, List.reverse_append, List.reverse_reverse, hjoin,
    List.append_assoc, List.singleton_append]

structure Block.Ends (b : Block) : Prop where
  out : ∃ c, b.out.head? = some c ∧ isBreak c = false
  ending : ∃ c, b.ending = [c] ∧ isBreak c = true
  empties : ∀ c ∈ b.empties, isBreak c = true

theorem Block.ends_after (block : Block) {line e : List Char} {b : Char} (h : IsLine line b e) :
    (block.after line b e).Ends := by
  refine ⟨?_, ⟨b, rfl, h.ending.1⟩, fun c hc => (h.empties c (List.mem_reverse.mp hc)).1⟩
  refine ⟨line.getLast h.ne, ?_, (h.chars _ (List.getLast_mem h.ne)).2⟩
  simp only [Block.after, List.head?_append, List.head?_reverse, List.getLast?_eq_some_getLast h.ne,
    Option.some_or]

/-- Behind line breaks, the column is the number of spaces. -/
theorem column_beyond_breaks {u bs : List Char} {k : Nat} (hne : bs ≠ [])
    (hbs : ∀ c ∈ bs, isBreak c = true) :
    (s.beyond (u ++ (bs ++ List.replicate k ' '))).place.column = k := by
  have hbreak := hbs _ (List.getLast_mem hne)
  have hzero : (s.beyond (u ++ bs)).place.column = 0 := by
    rw [← List.dropLast_concat_getLast hne, ← List.append_assoc]
    exact column_beyond_break hbreak _
  rw [← List.append_assoc, ← Scan.beyond_beyond,
    column_beyond fun c hc => by rw [List.eq_of_mem_replicate hc]; rfl, hzero, Nat.zero_add,
    List.length_replicate]

/-! ## Reading the lines -/

/-- A line of a block, and the empty lines behind it up to the column of the next line. -/
theorem runs_blockLines_line {indent k : Nat} {line e : List Char} {b : Char} {block r : Block}
    {v : View} (hline : IsLine line b e) (hcolumn : s.place.column = indent)
    (hk : k ≤ indent) (hstop : k = indent ∨ isGap (t.headD finish) = false)
    (hbreak : isBreak (t.headD finish) = false)
    (hlimit : line.length + e.length + k < s.limit)
    (h : Runs (blockLines false indent f (block.after line b e))
      ⟨s.beyond (line ++ b :: (e ++ List.replicate k ' ')), t, 1⟩ r v) :
    Runs (blockLines false indent (f + 1) block)
      ⟨s, line ++ b :: (e ++ (List.replicate k ' ' ++ t)), n⟩ r v := by
  have hb := hline.ending
  have hends : (!endsLine b && b != finish) = false := by
    rw [endsLine, hb.1, Bool.or_true]
    rfl
  have htake := runs_takeWhile (s := s) (n := 1) (w := line)
    (t := b :: (e ++ (List.replicate k ' ' ++ t))) hline.goesOn hends (by omega)
  have hempty := runs_emptyLines (s := s.beyond (line ++ [b])) (n := 1) (o := []) (d := 0)
    (f := s.limit) (k := k) (t := t) (some indent) hline.empties (column_beyond_break hb.1 line)
    (fun i hi => by cases hi; exact hk) (hstop.imp_left fun h => by rw [h]) hbreak (by omega)
    (by show k < s.limit; omega)
  rw [Scan.beyond_beyond, List.append_assoc, List.append_nil] at hempty
  refine runs_next.bind (runs_get_bind fun src _ => runs_if_pos ?_ ?_)
  · rw [Scan.on_place, hcolumn, hline.headD_append]
    simpa using hline.headD_ne_finish
  · refine htake.bind ((runs_takeLine hb.1 hb.2).bind (runs_fuel.bind ?_))
    rw [Scan.beyond_beyond, hline.headD_append]
    exact hempty.bind h

/-- A line that stands elsewhere ends the block. -/
theorem runs_blockLines_stop {indent : Nat} (block : Block) (hcolumn : s.place.column ≠ indent)
    (hfuel : 0 < f) : Runs (blockLines false indent f block) ⟨s, t, n⟩ block ⟨s, t, 1⟩ := by
  obtain ⟨f, rfl⟩ := Nat.exists_eq_succ_of_ne_zero hfuel.ne'
  refine runs_next.bind (runs_get_bind fun src _ => runs_if_neg ?_ (runs_pure _ _))
  rw [Scan.on_place, beq_false_of_ne hcolumn]
  exact Bool.false_ne_true

theorem IsLine.indented_append {line e : List Char} {b : Char} (h : IsLine line b e)
    (indent : Nat) (cs : List Char) :
    indented (fun c => [c]) indent false (line ++ b :: (e ++ cs)) =
      line ++ b :: (e ++ indented (fun c => [c]) indent true cs) := by
  rw [Reading.indented_append fun c hc => (h.chars c hc).2, ← List.cons_append,
    indented_breaks (List.cons_ne_nil b e) h.breaks, List.flatMap_singleton']
  rfl

theorem BlockText.indented_start {cs : List Char} (h : BlockText cs) (indent : Nat) :
    indented (fun c => [c]) indent true cs =
      List.replicate indent ' ' ++ indented (fun c => [c]) indent false cs := by
  obtain ⟨c, u, rfl, hc⟩ := h.exists_cons
  exact Reading.indented_start _ indent (List.cons_ne_nil c u) fun _ h => Option.some.inj h ▸ hc

/-- The first line of a text is written as it is. -/
theorem BlockText.headD_indented {cs : List Char} (h : BlockText cs) (indent : Nat)
    (u : List Char) :
    (indented (fun c => [c]) indent false cs ++ u).headD finish = cs.headD finish := by
  obtain ⟨c, v, rfl, hc⟩ := h.exists_cons
  rw [indented, hc]
  rfl

theorem BlockText.isBreak_headD {cs : List Char} (h : BlockText cs) :
    isBreak (cs.headD finish) = false := by
  obtain ⟨c, u, rfl, hc⟩ := h.exists_cons
  exact hc

/-- The lines of a block up to a line that stands further to the left. -/
theorem runs_blockLines {indent m : Nat} {cs rest : List Char} (block : Block)
    (hcs : BlockText cs) (hcolumn : s.place.column = indent)
    (hm : m < indent) (hrest : isStart (rest.headD finish) = true) (hfuel : cs.length < f)
    (hlimit : cs.length + indent < s.limit) :
    ∃ b, Runs (blockLines false indent f block)
        ⟨s, indented (fun c => [c]) indent false cs ++ (List.replicate m ' ' ++ rest), n⟩ b
        ⟨s.beyond (indented (fun c => [c]) indent false cs ++ List.replicate m ' '), rest, 1⟩ ∧
      b.finish .keep = block.finish .keep ++ cs ∧ b.Ends := by
  induction hcs generalizing f s n block with
  | @last line e b hline =>
      obtain ⟨f, rfl⟩ := Nat.exists_eq_succ_of_ne_zero (Nat.zero_lt_of_lt hfuel).ne'
      obtain ⟨hgap, hbreak, -⟩ := isStart_iff.mp hrest
      have htext := hline.indented_append indent []
      simp only [List.length_append, List.length_cons] at hfuel hlimit
      rw [indented, List.append_nil] at htext
      have hplace : (s.beyond (line ++ b :: (e ++ List.replicate m ' '))).place.column = m :=
        column_beyond_breaks (List.cons_ne_nil b e) hline.breaks
      have hstop := runs_blockLines_stop (t := rest) (n := 1) (f := f) (block.after line b e)
        (hplace.trans_ne hm.ne) (by omega)
      have h := runs_blockLines_line (n := n) hline hcolumn hm.le (Or.inr hgap) hbreak (by omega)
        hstop
      refine ⟨_, ?_, block.finish_after line b e, block.ends_after hline⟩
      rw [htext]
      simpa using h
  | @cons line e cs b hline hcs ih =>
      obtain ⟨f, rfl⟩ := Nat.exists_eq_succ_of_ne_zero (Nat.zero_lt_of_lt hfuel).ne'
      simp only [List.length_append, List.length_cons] at hfuel hlimit
      have hplace : (s.beyond (line ++ b :: (e ++ List.replicate indent ' '))).place.column =
          indent := column_beyond_breaks (List.cons_ne_nil b e) hline.breaks
      obtain ⟨r, hrec, hall, hends⟩ := ih
        (s := s.beyond (line ++ b :: (e ++ List.replicate indent ' '))) (n := 1) (f := f)
        (block.after line b e) hplace (by omega) (by show _ < s.limit; omega)
      have h := runs_blockLines_line (n := n) hline hcolumn (Nat.le_refl indent) (Or.inl rfl)
        (by rw [hcs.headD_indented]; exact hcs.isBreak_headD) (by omega) hrec
      refine ⟨r, ?_, ?_, hends⟩
      · rw [Scan.beyond_beyond] at h
        rw [hline.indented_append, hcs.indented_start]
        simpa using h
      · rw [hall, Block.finish_after]
        simp

/-! ## Marks -/

def chompChars : Chomp → List Char
  | .strip => ['-']
  | .clip => []
  | .keep => ['+']

theorem runs_chomp_none (h : t.headD finish ≠ '+' ∧ t.headD finish ≠ '-') :
    Runs chomp ⟨s, t, n⟩ none ⟨s, t, 1⟩ := by
  refine runs_next.bind ?_
  split
  · next heq => exact absurd heq h.1
  · next heq => exact absurd heq h.2
  · exact runs_pure _ _

/-- The mark of a block is read, also if it is empty. -/
theorem runs_chomp (c : Chomp) (h : t.headD finish ≠ '+' ∧ t.headD finish ≠ '-') :
    ∃ r, Runs chomp ⟨s, chompChars c ++ t, n⟩ r ⟨s.beyond (chompChars c), t, 0⟩ ∧
      r.getD .clip = c ∧ (r = none → c = .clip) := by
  cases c with
  | strip => exact ⟨some .strip, runs_next.bind ((runs_skip rfl).bind (runs_pure _ _)), rfl, nofun⟩
  | clip => exact ⟨none, (runs_chomp_none h).forget (Nat.zero_le 1), rfl, fun _ => rfl⟩
  | keep => exact ⟨some .keep, runs_next.bind ((runs_skip rfl).bind (runs_pure _ _)), rfl, nofun⟩

/-- What holds of each line break holds of all characters that are line breaks. -/
theorem forall_break {p : Char → Bool}
    (h : [0x0A, 0x0D, 0x85, 0x2028, 0x2029].all (fun k => p (Char.ofNat k)) = true) {c : Char}
    (hc : isBreak c = true) : p c = true := by
  simp only [isBreak, Bool.or_eq_true, beq_iff_eq] at hc
  have hp := List.all_eq_true.mp h c.toNat (by simp; omega)
  rwa [Char.ofNat_toNat] at hp

theorem runs_increment_none (ht : isBreak (t.headD finish) = true) :
    Runs increment ⟨s, t, n⟩ none ⟨s, t, 1⟩ := by
  have hdigit := forall_break (p := fun c => !('1' ≤ c && c ≤ '9') && !(c == '0')) (by decide) ht
  rw [Bool.and_eq_true, Bool.not_eq_true', Bool.not_eq_true'] at hdigit
  refine runs_next.bind (runs_if_neg (ne_true_of_eq_false hdigit.1) ?_)
  exact runs_if_neg (ne_true_of_eq_false hdigit.2) (runs_pure _ _)

theorem runs_increment {d : Char} (hd : '1' ≤ d ∧ d ≤ '9') :
    Runs increment ⟨s, d :: t, n⟩ (some (d.toNat - 0x30)) ⟨s.beyond [d], t, 0⟩ := by
  have hbreak : isBreak d = false := by
    have hlow : 0x31 ≤ d.toNat := hd.1
    have hhigh : d.toNat ≤ 0x39 := hd.2
    simp only [isBreak, Bool.or_eq_false_iff, beq_eq_false_iff_ne]
    omega
  refine runs_next.bind (runs_if_pos ?_ ((runs_skip hbreak).bind (runs_pure _ _)))
  rw [Bool.and_eq_true, decide_eq_true_eq, decide_eq_true_eq]
  exact hd

/-- The marks of a block: its column, if it is given, and what becomes of its last breaks. -/
theorem runs_blockMarks {indicator : Option Char} (hd : ∀ d ∈ indicator, '1' ≤ d ∧ d ≤ '9')
    (c : Chomp) (ht : isBreak (t.headD finish) = true) :
    Runs blockMarks ⟨s, indicator.toList ++ (chompChars c ++ t), n⟩
      (c, indicator.map fun d => d.toNat - 0x30)
      ⟨s.beyond (indicator.toList ++ chompChars c), t, 0⟩ := by
  have hsign : t.headD finish ≠ '+' ∧ t.headD finish ≠ '-' := by
    have h := forall_break (p := fun c => c != '+' && c != '-') (by decide) ht
    rwa [Bool.and_eq_true, bne_iff_ne, bne_iff_ne] at h
  cases indicator with
  | none =>
      obtain ⟨r, hchomp, hget, hnone⟩ := runs_chomp (s := s) (n := n) c hsign
      refine hchomp.bind ?_
      have hinc := runs_increment_none (s := s.beyond (chompChars c)) (n := 0) ht
      cases r with
      | none =>
          obtain rfl := hnone rfl
          exact hinc.bind ((runs_pure _ _).forget (Nat.zero_le 1))
      | some r =>
          obtain rfl : r = c := hget
          exact hinc.bind ((runs_pure _ _).forget (Nat.zero_le 1))
  | some d =>
      obtain ⟨hlow, hhigh⟩ := hd d rfl
      obtain ⟨r, hchomp, hget, -⟩ := runs_chomp (s := s.beyond [d]) (n := 0) c hsign
      have hplain : d ≠ '+' ∧ d ≠ '-' := by
        constructor <;> rintro rfl <;> exact absurd hlow (by decide)
      rw [Scan.beyond_beyond] at hchomp
      refine (runs_chomp_none (t := d :: (chompChars c ++ t)) hplain).bind ?_
      refine (runs_increment ⟨hlow, hhigh⟩).bind (hchomp.bind ?_)
      rw [hget]
      exact runs_pure _ _

/-! ## Whole blocks -/

/-- The lines `cs` of a block stand for the text `v`. -/
def Chomp.Fits (cs v : List Char) : Chomp → Prop
  | .strip => cs = v ++ ['\n'] ∧ ∃ u a, v = u ++ [a] ∧ isBreak a = false
  | .clip => cs = v ∧ ∃ u a b, v = u ++ [a] ++ [b] ∧ isBreak a = false
  | .keep => cs = v

theorem Block.empties_of_ends {b : Block} (hb : b.Ends) {u : List Char} {a x : Char}
    (h : b.finish .keep = u ++ [a] ++ [x]) (ha : isBreak a = false) : b.empties = [] := by
  obtain ⟨c, hending, hc⟩ := hb.ending
  cases hempty : b.empties with
  | nil => rfl
  | cons e es =>
      have hmem : ∀ d ∈ b.ending ++ es.reverse, isBreak d = true := by
        rw [hending]
        refine List.forall_mem_append.mpr ⟨by simpa using hc, fun d hd => hb.empties d ?_⟩
        rw [hempty]
        exact List.mem_cons_of_mem e (List.mem_reverse.mp hd)
      rw [Block.finish, hempty, List.reverse_cons, ← List.append_assoc] at h
      have hinit := (List.append_inj_left' h rfl)
      rw [List.append_assoc] at hinit
      have hlast := congrArg List.getLast? hinit
      rw [List.getLast?_concat, List.getLast?_append_of_ne_nil _ (by simp [hending])] at hlast
      have hbreak := hmem a (List.mem_of_getLast? hlast)
      rw [ha] at hbreak
      cases hbreak

theorem Block.finish_of_fits {b : Block} (hb : b.Ends) {chomp : Chomp} {cs v : List Char}
    (h : b.finish .keep = cs) (hfits : chomp.Fits cs v) : b.finish chomp = v := by
  obtain ⟨c, hending, -⟩ := hb.ending
  cases chomp with
  | keep => exact h.trans hfits
  | clip =>
      obtain ⟨rfl, u, a, x, hv, ha⟩ := hfits
      have hnil := Block.empties_of_ends hb (h.trans hv) ha
      rw [Block.finish, hnil, List.reverse_nil, List.append_nil] at h
      exact h
  | strip =>
      obtain ⟨rfl, u, a, rfl, ha⟩ := hfits
      have hnil := Block.empties_of_ends hb h ha
      rw [Block.finish, hnil, hending, List.reverse_nil, List.append_nil] at h
      exact List.append_inj_left' h rfl

/-- A text that is more than line breaks ends its last line. -/
theorem Block.finish_of_breaks {b : Block} {chomp : Chomp} {cs v : List Char}
    (hall : ∀ c ∈ cs, isBreak c = true) (h : b.finish .keep = cs) (hfits : chomp.Fits cs v) :
    b.finish chomp = v := by
  have hnot : ∀ {u w : List Char} {a : Char}, cs = u ++ [a] ++ w → isBreak a = false → False := by
    rintro u w a rfl ha
    rw [hall a (by simp)] at ha
    cases ha
  cases chomp with
  | keep => exact h.trans hfits
  | clip =>
      obtain ⟨rfl, u, a, x, hv, ha⟩ := hfits
      exact (hnot hv ha).elim
  | strip =>
      obtain ⟨rfl, u, a, rfl, ha⟩ := hfits
      exact (hnot rfl ha).elim

/-- From their empty lines on, the lines of a block are read up to the view `v`. They stand for
what fits to `cs`. -/
def ReadsLines (given : Option Nat) (indent : Nat) (cs : List Char) (s : Scan) (t : List Char)
    (n : Nat) (v : View) : Prop :=
  ∃ deepest empties b u t' k,
    Runs (emptyLines given s.limit 0 []) ⟨s, t, n⟩ (deepest, empties) ⟨s.beyond u, t', k⟩ ∧
    given.getD deepest = indent ∧
    Runs (blockLines false indent s.limit ⟨[], [], empties, false⟩) ⟨s.beyond u, t', k⟩ b v ∧
    ∀ {chomp : Chomp} {text : List Char}, chomp.Fits cs text → b.finish chomp = text

theorem readsLines_breaks {indent m : Nat} {e rest : List Char}
    (he : ∀ c ∈ e, isBreak c = true ∧ isPrintable c = true)
    (hplace : ∀ k, (s.beyond (e ++ List.replicate k ' ')).place.column = k) (hm : m < indent)
    (hcolumn : s.place.column = 0) (hrest : isStart (rest.headD finish) = true)
    (hlimit : e.length + indent < s.limit) :
    ReadsLines (some indent) indent e s (e ++ (List.replicate m ' ' ++ rest)) n
      ⟨s.beyond (e ++ List.replicate m ' '), rest, 1⟩ := by
  obtain ⟨hgap, hbreak, -⟩ := isStart_iff.mp hrest
  have hempty := runs_emptyLines (s := s) (n := n) (f := s.limit) (o := []) (d := 0)
    (k := m) (t := rest) (some indent) he hcolumn (fun i hi => by cases hi; exact hm.le)
    (Or.inr hgap) hbreak (by omega) (by omega)
  rw [List.append_nil] at hempty
  have hstop := runs_blockLines_stop (s := s.beyond (e ++ List.replicate m ' ')) (t := rest)
    (n := 1) (f := s.limit) ⟨[], [], e.reverse, false⟩ ((hplace m).trans_ne hm.ne) (by omega)
  refine ⟨_, _, _, _, _, _, hempty, rfl, hstop, fun hfits => ?_⟩
  exact Block.finish_of_breaks (fun c hc => (he c hc).1) (List.reverse_reverse e) hfits

theorem readsLines_text {given : Option Nat} {indent m : Nat} {e cs rest : List Char}
    (he : ∀ c ∈ e, isBreak c = true ∧ isPrintable c = true) (hcs : BlockText cs)
    (hplace : ∀ k, (s.beyond (e ++ List.replicate k ' ')).place.column = k)
    (hgiven : given = some indent ∨ given = none ∧ isGap (cs.headD finish) = false)
    (hm : m < indent) (hcolumn : s.place.column = 0)
    (hrest : isStart (rest.headD finish) = true)
    (hlimit : e.length + cs.length + indent < s.limit) :
    ReadsLines given indent (e ++ cs) s
      (e ++ (indented (fun c => [c]) indent true cs ++ (List.replicate m ' ' ++ rest))) n
      ⟨s.beyond (e ++ (indented (fun c => [c]) indent true cs ++ List.replicate m ' ')), rest, 1⟩ := by
  have hempty := runs_emptyLines (s := s) (n := n) (f := s.limit) (o := []) (d := 0)
    (k := indent)
    (t := indented (fun c => [c]) indent false cs ++ (List.replicate m ' ' ++ rest)) given he
    hcolumn (fun i hi => by rcases hgiven with rfl | ⟨rfl, -⟩ <;> cases hi; exact Nat.le_refl _)
    (by rw [hcs.headD_indented]; exact hgiven.imp_right And.right)
    (by rw [hcs.headD_indented]; exact hcs.isBreak_headD) (by omega) (by omega)
  rw [List.append_nil] at hempty
  obtain ⟨b, hlines, hkeep, hends⟩ := runs_blockLines (s := s.beyond (e ++ List.replicate indent ' '))
    (n := 1) (f := s.limit) ⟨[], [], e.reverse, false⟩ hcs (hplace indent) hm
    hrest (by omega) (by show _ < s.limit; omega)
  rw [Scan.beyond_beyond, List.append_assoc] at hlines
  rw [hcs.indented_start, List.append_assoc, List.append_assoc]
  refine ⟨_, _, b, _, _, _, hempty, ?_, hlines, Block.finish_of_fits hends ?_⟩
  · rcases hgiven with rfl | ⟨rfl, -⟩
    · rfl
    · exact Nat.zero_max indent
  · rw [hkeep]
    simp [Block.finish]

/-- The lines of a block behind its first line, from their empty lines on. -/
theorem readsLines {given : Option Nat} {indent m : Nat} {cs rest : List Char}
    (hcs : ∀ c ∈ cs, isBlockChar c = true) (hlast : ∀ c ∈ cs.getLast?, isBreak c = true)
    (hgiven : given = some indent ∨ given = none ∧ ∃ c, cs.head? = some c ∧ endsWord c = false)
    (hcolumn : s.place.column = 0) (hm : m < indent) (hrest : isStart (rest.headD finish) = true)
    (hlimit : cs.length + indent < s.limit) :
    ReadsLines given indent cs s
      (indented (fun c => [c]) indent true cs ++ (List.replicate m ' ' ++ rest)) n
      ⟨s.beyond (indented (fun c => [c]) indent true cs ++ List.replicate m ' '), rest, 1⟩ := by
  obtain ⟨e, cs', rfl, he, hhead⟩ := exists_span isBreak cs
  obtain ⟨hcse, hcs'⟩ := List.forall_mem_append.mp hcs
  have heprint := fun c hc => And.intro (he c hc) (isPrintable_of_isBlockChar (hcse c hc) (he c hc))
  have htext : indented (fun c => [c]) indent true (e ++ cs') =
      e ++ indented (fun c => [c]) indent true cs' := by
    cases e with
    | nil => rfl
    | cons b e => exact indented_breaks (List.cons_ne_nil b e) he
  have hplace : ∀ k, (s.beyond (e ++ List.replicate k ' ')).place.column = k := by
    intro k
    cases e with
    | nil =>
        rw [List.nil_append, column_beyond fun c hc => by rw [List.eq_of_mem_replicate hc]; rfl,
          hcolumn, Nat.zero_add, List.length_replicate]
    | cons b e => exact column_beyond_breaks (u := []) (List.cons_ne_nil b e) he
  -- Without a mark, the text starts with a word.
  have hgiven' : given = some indent ∨
      given = none ∧ e = [] ∧ ∃ c u, cs' = c :: u ∧ endsWord c = false := by
    refine hgiven.imp_right fun ⟨hnone, c, hc, hword⟩ => ⟨hnone, ?_⟩
    cases e with
    | nil =>
        obtain ⟨u, rfl⟩ := List.head?_eq_some_iff.mp hc
        exact ⟨rfl, c, u, rfl, hword⟩
    | cons b e =>
        obtain rfl : b = c := Option.some.inj hc
        have hbreak := he b List.mem_cons_self
        rw [isBreak_of_endsWord hword] at hbreak
        cases hbreak
  rw [List.length_append] at hlimit
  rw [htext, List.append_assoc, List.append_assoc]
  by_cases hnil : cs' = []
  · subst hnil
    obtain rfl : given = some indent := by
      refine hgiven'.resolve_right ?_
      rintro ⟨-, -, c, u, ⟨⟩, -⟩
    have hlines := readsLines_breaks (n := n) heprint hplace hm hcolumn hrest hlimit
    simpa [indented] using hlines
  · have hblock : BlockText cs' := blockText_of_ends hnil hcs' hhead fun c hc =>
      hlast c (by rwa [List.getLast?_append_of_ne_nil _ hnil])
    refine readsLines_text heprint hblock hplace (hgiven'.imp_right ?_) hm hcolumn hrest hlimit
    rintro ⟨hnone, -, c, u, rfl, hword⟩
    exact ⟨hnone, isGap_of_endsWord hword⟩

def blockBody (chomp : Chomp) (increment : Option Nat) : Reading Bytes := do
  let outside := (← get).indent
  let given := increment.map fun n => n + outside.toNat
  let (deepest, empties) ← emptyLines given (← fuel) 0 []
  let indent := given.getD (max deepest (max (outside + 1).toNat 1))
  let b ← blockLines false indent (← fuel) ⟨[], [], empties, false⟩
  return Utf8.ofChars (b.finish chomp)

/-- The first line of a block. -/
theorem runs_block_head {indicator : Option Char} {chomp : Chomp} {b : Char} {r : Bytes} {v : View}
    (hdigit : ∀ d ∈ indicator, '1' ≤ d ∧ d ≤ '9') (hb : isBreak b = true ∧ isPrintable b = true)
    (hlimit : 0 < s.limit)
    (h : Runs (blockBody chomp (indicator.map fun d => d.toNat - 0x30))
      ⟨s.beyond ('|' :: (indicator.toList ++ (chompChars chomp ++ [b]))), t, 1⟩ r v) :
    Runs (block false) ⟨s, '|' :: (indicator.toList ++ (chompChars chomp ++ b :: t)), n + 1⟩ r v := by
  let head := '|' :: (indicator.toList ++ chompChars chomp)
  have hmarks := runs_blockMarks (s := s.beyond ['|']) (n := n) hdigit chomp (t := b :: t) hb.1
  have hgaps : Runs skipGaps ⟨s.beyond head, b :: t, 0⟩ () ⟨s.beyond head, b :: t, 1⟩ :=
    (runs_takeWhile (s := s.beyond head) (w := []) (by simp)
      (by rw [List.headD_cons, isGap_of_isBreak hb.1]; rfl) hlimit).bind (runs_pure _ _)
  have hfirst := forall_break (p := fun c => c != '#' && endsLine c) (by decide) hb.1
  rw [Bool.and_eq_true, bne_iff_ne] at hfirst
  refine (runs_skip rfl).bind (hmarks.bind ?_)
  rw [Scan.beyond_beyond]
  refine hgaps.bind ((runs_look Nat.zero_lt_one).bind (runs_if_neg ?_ ?_))
  · rw [beq_iff_eq]
    exact hfirst.1
  refine (runs_look Nat.zero_lt_one).bind (runs_if_neg ?_ ?_)
  · rw [Bool.not_eq_true, Bool.not_eq_false']
    exact hfirst.2
  refine (runs_skipLine hb.1 ?_).bind ?_
  · rintro rfl
    exact absurd hb.2 (by decide)
  · have hsplit : head ++ [b] = '|' :: (indicator.toList ++ (chompChars chomp ++ [b])) := by
      simp [head]
    rw [Scan.beyond_beyond, hsplit]
    exact h

theorem runs_blockBody {increment : Option Nat} {chomp : Chomp} {p indent : Nat}
    {cs text : List Char} {v : View} (hp : s.indent = p) (hless : p < indent)
    (h : ReadsLines (increment.map fun k => k + p) indent cs s t n v) (hfits : chomp.Fits cs text) :
    Runs (blockBody chomp increment) ⟨s, t, n⟩ (Utf8.ofChars text) v := by
  obtain ⟨deepest, empties, b, u, t', k, hempty, hdeepest, hlines, hfinish⟩ := h
  refine runs_get_bind fun src _ => ?_
  have hindent : (s.on src).indent = p := hp
  have hcolumn : (increment.map fun k => k + p).getD (max deepest (max ((p : Int) + 1).toNat 1)) =
      indent := by
    cases increment with
    | some k => exact hdeepest
    | none =>
        have hdeepest : deepest = indent := hdeepest
        rw [Option.map_none, Option.getD_none]
        omega
  dsimp only
  rw [hindent, Int.toNat_natCast]
  refine runs_fuel.bind (hempty.bind (runs_fuel.bind ?_))
  dsimp only
  rw [hcolumn]
  refine hlines.bind ?_
  rw [hfinish hfits]
  exact runs_pure _ _

/-- A block from its first character on, up to a line that stands further to the left. -/
theorem runs_block {indicator : Option Char} {chomp : Chomp} {b : Char} {p indent m : Nat}
    {cs v rest : List Char} (hcs : ∀ c ∈ cs, isBlockChar c = true)
    (hlast : ∀ c ∈ cs.getLast?, isBreak c = true) (hfits : chomp.Fits cs v)
    (hb : isBreak b = true ∧ isPrintable b = true) (hp : s.indent = p)
    (hindicator : (∃ d, indicator = some d ∧ ('1' ≤ d ∧ d ≤ '9') ∧ indent = d.toNat - 0x30 + p) ∨
      indicator = none ∧ p < indent ∧ ∃ c, cs.head? = some c ∧ endsWord c = false)
    (hm : m ≤ p) (hrest : isStart (rest.headD finish) = true)
    (hlimit : cs.length + indent < s.limit) :
    Runs (block false) ⟨s, '|' :: (indicator.toList ++ (chompChars chomp ++
        b :: (indented (fun c => [c]) indent true cs ++ (List.replicate m ' ' ++ rest)))), n + 1⟩
      (Utf8.ofChars v)
      ⟨s.beyond ('|' :: (indicator.toList ++ (chompChars chomp ++
        b :: (indented (fun c => [c]) indent true cs ++ List.replicate m ' ')))), rest, 1⟩ := by
  have hdigit : ∀ d ∈ indicator, '1' ≤ d ∧ d ≤ '9' := by
    rintro d hd
    rcases hindicator with ⟨d', rfl, hd', -⟩ | ⟨rfl, -⟩
    · cases hd
      exact hd'
    · cases hd
  have hless : p < indent := by
    rcases hindicator with ⟨d, -, ⟨hlow, -⟩, rfl⟩ | ⟨-, h, -⟩
    · have h : 0x31 ≤ d.toNat := hlow
      omega
    · exact h
  -- a digit gives the column, and without one it is the column of the first line
  have hgiven : ((indicator.map fun d => d.toNat - 0x30).map fun k => k + p) = some indent ∨
      ((indicator.map fun d => d.toNat - 0x30).map fun k => k + p) = none ∧
        ∃ c, cs.head? = some c ∧ endsWord c = false := by
    rcases hindicator with ⟨d, rfl, -, rfl⟩ | ⟨rfl, -, h⟩
    · exact Or.inl rfl
    · exact Or.inr ⟨rfl, h⟩
  let head := '|' :: (indicator.toList ++ (chompChars chomp ++ [b]))
  have hplace : (s.beyond head).place.column = 0 := by
    show (s.beyond (('|' :: indicator.toList) ++ (chompChars chomp ++ [b]))).place.column = 0
    rw [← List.append_assoc]
    exact column_beyond_break hb.1 _
  have hlines := readsLines (s := s.beyond head) (n := 1) (m := m) hcs hlast hgiven hplace
    (by omega) hrest hlimit
  rw [Scan.beyond_beyond] at hlines
  refine runs_block_head hdigit hb (by omega) ?_
  have hbody := runs_blockBody (s := s.beyond head) hp hless hlines hfits
  simpa [head] using hbody

end Cascade.Yaml.Reading
