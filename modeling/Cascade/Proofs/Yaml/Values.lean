import Cascade.Proofs.Yaml.Lines

/-!
# Values of keys

Each kind of scalar, behind the colon of its key and up to the end of its line, reads as its token.
-/

namespace Cascade.Yaml.Reading

/-- A scan behind the space before the value of a key in a column, with what follows the value. -/
structure Behind (column : Nat) (b : Scan) (columns : List Nat) (tokens : List Token)
    (limit k : Nat) (rest : List Char) : Prop where
  isOpen : b.Open columns tokens limit
  indent : b.indent = column
  keys : b.keys = false
  past : column < b.place.column
  start : isStart (rest.headD finish) = true
  left : k ≤ column

variable {column : Nat} {b : Scan} {columns : List Nat} {tokens : List Token} {limit k : Nat}
  {rest : List Char}

theorem Behind.quiet (h : Behind column b columns tokens limit k rest) : Quiet rest := by
  obtain ⟨hgap, -, hmark⟩ := isStart_iff.mp h.start
  exact quiet_of_head hgap hmark

/-- A value that is one token. -/
theorem reads_of_found {c : Char} {u : List Char} {tok : Token} (hc : isStart c = true)
    (hfinish : c ≠ finish)
    (h : ∀ b columns tokens limit k rest, Behind column b columns tokens limit k rest →
      (c :: u ++ (List.replicate k ' ' ++ rest)).length + 5 ≤ limit →
      ∃ b' : Scan, ∃ t', b'.Open columns tokens limit ∧ Before b' t' k rest ∧
        ∀ {j}, Runs (foundInside c ((u ++ (List.replicate k ' ' ++ rest)).headD finish))
          ⟨b.less j, c :: u ++ (List.replicate k ' ' ++ rest), 4⟩ () ⟨(b'.less j).push tok, t', 0⟩) :
    Reads column (c :: u) [tok] := by
  intro b columns tokens limit k rest hb hindent hkeys hcolumn hrest hk hlimit
  have hbehind : Behind column (b.beyond [' ']) columns tokens limit k rest :=
    ⟨hb.beyond _, hindent, hkeys, Nat.lt_succ_of_lt hcolumn, hrest, hk⟩
  obtain ⟨b', t', hb', hbefore, hfound⟩ := h _ _ _ _ _ _ hbehind hlimit
  have hstep := step_value hb (by omega) hc hfinish (by omega) hb' hfound
  have hle := hbefore.le_length
  refine hstep.leads ?_ (Leads.refl ⟨hb'.push tok, hbefore⟩)
  simp only [List.length_append, List.length_cons] at hle ⊢
  omega

/-- The place behind the blanks of a new line. -/
theorem column_beyond_line (s : Scan) (u : List Char) {x : Char} (hx : isBreak x = true) (k : Nat) :
    (s.beyond (u ++ x :: List.replicate k ' ')).place.column = k :=
  column_beyond_breaks (List.cons_ne_nil x []) (List.forall_mem_singleton.mpr hx)

theorem reads_plain {c : Char} {u : List Char} (hcs : Words (c :: u))
    (hstart : isStart c = true) (hfinish : c ≠ finish) (hplain : PlainStart c (u.headD '\n')) :
    Reads column (c :: (u ++ ['\n'])) [.scalar .plain (Utf8.ofChars (c :: u))] := by
  refine reads_of_found hstart hfinish fun b columns tokens limit k rest hb hlimit => ?_
  refine ⟨(b.beyond (c :: u ++ '\n' :: List.replicate k ' ')).allow true, rest,
    (hb.isOpen.beyond _).allow true, Or.inr ⟨rfl, rfl, column_beyond_line b _ rfl k⟩, fun {j} => ?_⟩
  have hread : Runs plain ⟨b.less j, c :: u ++ ('\n' :: List.replicate k ' ' ++ rest), 4⟩
      (Utf8.ofChars (c :: u))
      ⟨((b.less j).beyond (c :: u ++ '\n' :: List.replicate k ' ')).allow true, rest, 1⟩ := by
    refine runs_plain hb.isOpen.flow hcs hb.start ?_ ?_ ?_
    · show (k : Int) ≤ b.indent
      rw [hb.indent]
      exact Int.ofNat_le.mpr hb.left
    · show b.indent < b.place.column
      rw [hb.indent]
      exact Int.ofNat_lt.mpr hb.past
    · show _ < b.limit
      rw [hb.isOpen.limit]
      simp only [List.length_append, List.length_cons, List.length_replicate,
        List.length_nil] at hlimit ⊢
      omega
  have hnext : ((u ++ ['\n']) ++ (List.replicate k ' ' ++ rest)).headD finish = u.headD '\n' := by
    cases u <;> rfl
  have htext : c :: (u ++ ['\n']) ++ (List.replicate k ' ' ++ rest) =
      c :: u ++ ('\n' :: List.replicate k ' ' ++ rest) := by simp
  rw [hnext, htext]
  exact runs_foundInside_plain hb.isOpen.flow hb.quiet hplain
    (runs_foundPart hb.keys (hread.bind (runs_pure _ _)))

/-- A scalar between quotes. -/
theorem reads_quoted {single : Bool} {spelling : Char → List Char} {text value : List Char}
    (htext : Segmented single spelling text value) :
    Reads column (mark single :: (text ++ [mark single] ++ ['\n']))
      [.scalar (quoteStyle single) (Utf8.ofChars value)] := by
  refine reads_of_found (by cases single <;> rfl) (by cases single <;> decide)
    fun b columns tokens limit k rest hb hlimit => ?_
  refine ⟨b.beyond (mark single :: (text ++ [mark single])), '\n' :: List.replicate k ' ' ++ rest,
    hb.isOpen.beyond _, Or.inl rfl, fun {j} => ?_⟩
  have hread : Runs (quoted single) ⟨b.less j,
      mark single :: (text ++ mark single :: ('\n' :: List.replicate k ' ' ++ rest)), 4⟩
      (Utf8.ofChars value) ⟨(b.less j).beyond (mark single :: (text ++ [mark single])),
        '\n' :: List.replicate k ' ' ++ rest, 0⟩ := by
    refine runs_quoted htext (show '\n' ≠ '\x27' by decide) ?_
    show _ < b.limit
    rw [hb.isOpen.limit]
    simp only [List.length_append, List.length_cons] at hlimit ⊢
    omega
  have hquiet : Quiet ('\n' :: List.replicate k ' ' ++ rest) :=
    quiet_of_head rfl (show '\n' ≠ '#' by decide)
  have hlist : mark single :: ((text ++ [mark single]) ++ ['\n']) ++ (List.replicate k ' ' ++ rest) =
      mark single :: (text ++ mark single :: ('\n' :: List.replicate k ' ' ++ rest)) := by simp
  rw [hlist]
  exact runs_foundInside_quoted (s := b.less j) hb.isOpen.flow hquiet single
    (runs_foundPart (s := b.less j) hb.keys (hread.bind (runs_pure _ _)))

theorem indented_concat {spelling : Char → List Char} {indent : Nat} {start : Bool} {cs : List Char}
    {x : Char} (hx : isBreak x = true) :
    indented spelling indent start (cs ++ [x]) = indented spelling indent start cs ++ [x] := by
  induction cs generalizing start with
  | nil => simp [indented, hx]
  | cons c cs ih =>
      simp only [List.cons_append, indented, ih]
      split_ifs <;> simp

theorem length_le_indented (indent : Nat) (start : Bool) (cs : List Char) :
    cs.length ≤ (indented (fun c => [c]) indent start cs).length := by
  induction cs generalizing start with
  | nil => exact Nat.le_refl _
  | cons c cs ih =>
      rw [indented]
      split_ifs
      · exact Nat.succ_le_succ (ih true)
      all_goals
        have h := ih false
        simp only [List.length_append, List.length_cons]
        omega

/-- A block of lines, of which the first is not empty. -/
theorem reads_block {indicator : Option Char} {chomp : Chomp} {indent : Nat} {cs v : List Char}
    {x : Char} (hcs : ∀ c ∈ cs ++ [x], isBlockChar c = true) (hx : isBreak x = true)
    (hhead : isBreak ((cs ++ [x]).headD 'x') = false) (hfits : chomp.Fits (cs ++ [x]) v)
    (hindicator : (∃ d, indicator = some d ∧ ('1' ≤ d ∧ d ≤ '9') ∧
        indent = d.toNat - 0x30 + column) ∨
      indicator = none ∧ column < indent ∧ ∃ c, (cs ++ [x]).head? = some c ∧ endsWord c = false) :
    Reads column ('|' :: (indicator.toList ++ (chompChars chomp ++
        '\n' :: indented (fun c => [c]) indent true (cs ++ [x]))))
      [.scalar .literal (Utf8.ofChars v)] := by
  refine reads_of_found rfl (by decide) fun b columns tokens limit k rest hb hlimit => ?_
  have hlength : (cs ++ [x]).length + indent ≤
      (indented (fun c => [c]) indent true (cs ++ [x])).length := by
    obtain ⟨c, u, hcons⟩ := List.exists_cons_of_ne_nil (List.concat_ne_nil x cs)
    rw [hcons] at hhead ⊢
    have h := length_le_indented indent false u
    rw [indented, if_neg (by rw [show isBreak c = false from hhead]; exact Bool.false_ne_true),
      if_pos rfl]
    simp only [List.length_append, List.length_cons, List.length_replicate, List.length_nil]
    omega
  refine ⟨(b.allow true).beyond ('|' :: (indicator.toList ++ (chompChars chomp ++
      '\n' :: (indented (fun c => [c]) indent true (cs ++ [x]) ++ List.replicate k ' ')))), rest,
    (hb.isOpen.allow true).beyond _, Or.inr ⟨rfl, rfl, ?_⟩, fun {j} => ?_⟩
  · have hlist : '|' :: (indicator.toList ++ (chompChars chomp ++
        '\n' :: (indented (fun c => [c]) indent true (cs ++ [x]) ++ List.replicate k ' '))) =
        '|' :: (indicator.toList ++ (chompChars chomp ++
          '\n' :: indented (fun c => [c]) indent true cs)) ++ x :: List.replicate k ' ' := by
      rw [indented_concat hx]
      simp
    rw [hlist]
    exact column_beyond_line _ _ hx k
  · have hread := runs_block (s := (b.allow true).less j) (n := 3) (m := k) (b := '\n') hcs
      (by simpa using hx) hfits ⟨rfl, rfl⟩ hb.indent hindicator hb.left hb.start ?_
    · have hlist : '|' :: (indicator.toList ++ (chompChars chomp ++
          '\n' :: indented (fun c => [c]) indent true (cs ++ [x]))) ++
            (List.replicate k ' ' ++ rest) =
          '|' :: (indicator.toList ++ (chompChars chomp ++
            '\n' :: (indented (fun c => [c]) indent true (cs ++ [x]) ++
              (List.replicate k ' ' ++ rest)))) := by simp
      rw [hlist]
      exact runs_foundInside_block (s := b.less j) hb.isOpen.flow hb.quiet
        (runs_foundBlock hb.isOpen.settled hread)
    · show _ < b.limit
      rw [hb.isOpen.limit]
      simp only [List.length_append, List.length_cons, List.length_nil] at hlimit hlength ⊢
      omega

/-- A value with a tag of this language. -/
theorem reads_tagged {w u : List Char} {c : Char} {ts : List Token} (hne : w ≠ [])
    (hw : ∀ c ∈ w, isLetter c = true) (hc : isStart c = true) (h : Reads column (c :: u) ts) :
    Reads column ('!' :: '!' :: (w ++ ' ' :: c :: u)) (.tag (text "!!") (Utf8.ofChars w) :: ts) := by
  intro b columns tokens limit k rest hb hindent hkeys hcolumn hrest hk hlimit
  obtain ⟨hgap, -, hmark⟩ := isStart_iff.mp hc
  have hquiet : Quiet (' ' :: c :: u ++ (List.replicate k ' ' ++ rest)) :=
    Quiet.space (quiet_of_head hgap hmark)
  simp only [List.length_append, List.length_cons, List.length_replicate] at hlimit
  have hbreak : ∀ x ∈ '!' :: '!' :: w, isBreak x = false := by
    refine List.forall_mem_cons.mpr ⟨rfl, List.forall_mem_cons.mpr ⟨rfl, fun x hx => ?_⟩⟩
    exact isBreak_of_endsWord (endsWord_of_isLetter (hw x hx))
  have hopen := (hb.beyond [' ']).beyond ('!' :: '!' :: w)
  have hfound : ∀ {j}, Runs (foundInside '!' '!')
      ⟨(b.beyond [' ']).less j,
        '!' :: '!' :: (w ++ ' ' :: (c :: u ++ (List.replicate k ' ' ++ rest))), 4⟩ ()
      ⟨(((b.beyond [' ']).beyond ('!' :: '!' :: w)).less j).push (.tag (text "!!") (Utf8.ofChars w)),
        ' ' :: (c :: u ++ (List.replicate k ' ' ++ rest)), 0⟩ := fun {j} =>
    runs_foundInside_tag hb.flow hquiet (runs_foundPart (s := (b.beyond [' ']).less j) hkeys
      (runs_tag hne hw (show w.length < b.limit by rw [hb.limit]; omega)))
  have hstep := step_value hb (by omega) rfl (by decide) (by omega) hopen hfound
  have hcolumn' : column < ((b.beyond [' ']).beyond ('!' :: '!' :: w)).place.column := by
    rw [column_beyond hbreak]
    exact Nat.lt_add_right _ (Nat.lt_succ_of_lt hcolumn)
  have hrest' := h _ columns _ limit k rest (hopen.push (.tag (text "!!") (Utf8.ofChars w))) hindent
    hkeys hcolumn' hrest hk ?_
  · have hlist : ' ' :: '!' :: '!' :: (w ++ ' ' :: c :: u) ++ (List.replicate k ' ' ++ rest) =
        ' ' :: '!' :: '!' :: (w ++ ' ' :: (c :: u ++ (List.replicate k ' ' ++ rest))) := by simp
    rw [hlist]
    refine hstep.leads ?_ (hrest'.trans fun b' t' hb' => Leads.refl ?_)
    · simp only [List.length_append, List.length_cons]
      omega
    · rwa [List.append_assoc] at hb'
  · simp only [List.length_append, List.length_cons, List.length_replicate]
    omega

end Cascade.Yaml.Reading
