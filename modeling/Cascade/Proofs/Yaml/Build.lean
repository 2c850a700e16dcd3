import Cascade.Proofs.Yaml.Outline

/-!
# Putting a document together

From the tokens of an outline, its mappings are built, the innermost first.
-/

namespace Cascade.Yaml

open Reading (Takes Stock takes_pure takes_peek takes_take takes_following)

namespace Reading

variable {limit : Nat} {f : Frame} {tok : Token} {ts : List Token} {sure : Bool}

/-! ## How a mapping goes on -/

def isBlank (tok : Token) : Bool := [Token.key, .value, .blockEnd].contains tok

theorem takes_entryTurn {first : Token} (htok : isBlank tok = false) :
    Takes limit (entryTurn [.key, .value, .blockEnd] true true) ⟨first :: tok :: ts, true⟩
      (.part true true) ⟨tok :: ts, true⟩ := by
  refine takes_following.bind ?_
  rw [partUnless, show [Token.key, .value, .blockEnd].contains tok = false from htok,
    if_neg Bool.false_ne_true]
  exact takes_pure _ _

theorem takes_turn_key (hkind : f.kind = .blockMapping) (hdue : f.due = false)
    (htok : isBlank tok = false) :
    Takes limit (turn f) ⟨.key :: tok :: ts, sure⟩ (.part true true) ⟨tok :: ts, true⟩ := by
  unfold turn
  rw [hkind, hdue]
  exact takes_peek.bind (takes_entryTurn htok)

theorem takes_turn_value (hkind : f.kind = .blockMapping) (hdue : f.due = true)
    (htok : isBlank tok = false) :
    Takes limit (turn f) ⟨.value :: tok :: ts, sure⟩ (.part true true) ⟨tok :: ts, true⟩ := by
  unfold turn
  rw [hkind, hdue]
  exact takes_peek.bind (takes_entryTurn htok)

theorem takes_turn_close (hkind : f.kind = .blockMapping) (hdue : f.due = false) :
    Takes limit (turn f) ⟨.blockEnd :: ts, sure⟩ .close ⟨ts, false⟩ := by
  unfold turn
  rw [hkind, hdue]
  exact takes_peek.bind (takes_take.bind (takes_pure _ _))

end Reading

def Frame.extend (f : Frame) (es : List (Node × Node)) : Frame :=
  es.foldl (fun f p => (f.add p.1).add p.2) f

theorem Frame.extend_eq (f : Frame) (es : List (Node × Node)) :
    f.extend es = { f with content := (es.flatMap fun p => [p.1, p.2]).reverse ++ f.content } := by
  induction es generalizing f with
  | nil => rfl
  | cons p es ih =>
      show ((f.add p.1).add p.2).extend es = _
      rw [ih]
      simp [Frame.add]

theorem Frame.pairs_flatMap (es : List (Node × Node)) :
    Frame.pairs (es.flatMap fun p => [p.1, p.2]) = es := by
  induction es with
  | nil => rfl
  | cons p es ih => exact congrArg (p :: ·) ih

theorem Frame.node_extend (k : Nat) (es : List (Node × Node)) :
    ((Frame.new .blockMapping k).extend es).node = .mapping es := by
  rw [extend_eq, node]
  simp [new, pairs_flatMap]

def Outline.cost : Outline → Nat
  | nil => 0
  | value _ _ _ rest => rest.cost + 2
  | part _ inner rest => inner.cost + rest.cost + 3

namespace Building

open Reading (isBlank takes_turn_key takes_turn_value takes_turn_close)

/-- What is known in a document in which nothing has a name and `k` parts have been begun. -/
def names (k : Nat) : Names := ⟨[], k, standardHandles⟩

/-- With these tokens and `k` parts begun, the step gives `a` and leaves those tokens. -/
def Makes {α : Type} (limit : Nat) (x : Building α) (k : Nat) (stock : Stock) (a : α) (k' : Nat)
    (stock' : Stock) : Prop :=
  Takes limit (x.run (names k)) stock (a, names k') stock'

variable {α β : Type} {limit k k' k'' : Nat} {stock stock' stock'' : Stock} {tok : Token}
  {ts : List Token} {sure lines dashes : Bool}

theorem takes_run_bind {x : Building α} {f : α → Building β} {a : α} {b : β} {N N' N'' : Names}
    (h : Takes limit (x.run N) stock (a, N') stock')
    (hf : Takes limit ((f a).run N') stock' (b, N'') stock'') :
    Takes limit ((x >>= f).run N) stock (b, N'') stock'' :=
  Takes.bind (f := fun p : α × Names => (f p.1).run p.2) h hf

theorem takes_run_lift {x : Reading α} {a : α} {N : Names} (h : Takes limit x stock a stock') :
    Takes limit ((liftM x : Building α).run N) stock (a, N) stock' :=
  Takes.bind (f := fun a => pure (a, N)) h (takes_pure _ _)

theorem makes_pure (a : α) (k : Nat) (stock : Stock) : Makes limit (pure a) k stock a k stock :=
  takes_pure _ _

theorem Makes.bind {x : Building α} {f : α → Building β} {a : α} {b : β}
    (h : Makes limit x k stock a k' stock') (hf : Makes limit (f a) k' stock' b k'' stock'') :
    Makes limit (x >>= f) k stock b k'' stock'' :=
  takes_run_bind h hf

theorem makes_lift {x : Reading α} {a : α} (h : Takes limit x stock a stock') :
    Makes limit (liftM x) k stock a k stock' :=
  takes_run_lift h

theorem makes_get : Makes limit get k stock (names k) k stock := takes_pure _ _

theorem makes_peek : Makes limit peek k ⟨tok :: ts, sure⟩ tok k ⟨tok :: ts, true⟩ :=
  makes_lift takes_peek

theorem makes_take : Makes limit take k ⟨tok :: ts, true⟩ () k ⟨ts, false⟩ := makes_lift takes_take

/-! ## The start of a part -/

theorem makes_anchor?_none (h : ∀ name, tok ≠ .anchor name) :
    Makes limit anchor? k ⟨tok :: ts, sure⟩ none k ⟨tok :: ts, true⟩ := by
  refine makes_peek.bind ?_
  cases tok with
  | anchor name => exact absurd rfl (h name)
  | _ => exact makes_pure _ _ _

theorem makes_marks (h : ∀ name, tok ≠ .anchor name)
    (h' : ∀ handle suffix, tok ≠ .tag handle suffix) :
    Makes limit marks k ⟨tok :: ts, sure⟩ ⟨none, none⟩ k ⟨tok :: ts, true⟩ := by
  have htag : Makes limit tag? k ⟨tok :: ts, true⟩ none k ⟨tok :: ts, true⟩ := by
    refine makes_peek.bind ?_
    cases tok with
    | tag handle suffix => exact absurd rfl (h' handle suffix)
    | _ => exact makes_pure _ _ _
  exact (makes_anchor?_none h).bind (htag.bind (makes_pure _ _ _))

/-- A tag of this language. -/
theorem makes_marks_tag {suffix : Bytes} (h : ∀ name, tok ≠ .anchor name) :
    Makes limit marks k ⟨.tag (text "!!") suffix :: tok :: ts, sure⟩
      ⟨none, some (Tag.space ++ suffix)⟩ k ⟨tok :: ts, true⟩ := by
  have htag : Makes limit tag? k ⟨.tag (text "!!") suffix :: tok :: ts, true⟩
      (some (text "!!", suffix)) k ⟨tok :: ts, false⟩ :=
    makes_peek.bind (makes_take.bind (makes_pure _ _ _))
  have hexpand : Makes limit (expand (text "!!") suffix) k ⟨tok :: ts, true⟩ (Tag.space ++ suffix) k
      ⟨tok :: ts, true⟩ := by
    have hlookup : (names k).handles.lookup (text "!!") = some Tag.space :=
      show standardHandles.lookup (text "!!") = some Tag.space by decide
    have hempty : ¬ (Tag.space ++ suffix).isEmpty = true := by
      rw [List.isEmpty_iff, List.append_eq_nil_iff]
      exact fun h => absurd h.1 (by decide)
    unfold expand
    rw [if_neg (by decide)]
    refine makes_get.bind ?_
    rw [hlookup]
    dsimp only
    rw [if_neg hempty]
    exact makes_pure _ _ _
  have hanchor : Makes limit anchor? k ⟨.tag (text "!!") suffix :: tok :: ts, sure⟩ none k
      ⟨.tag (text "!!") suffix :: tok :: ts, true⟩ := makes_anchor?_none nofun
  exact hanchor.bind (htag.bind ((makes_anchor?_none h).bind (hexpand.bind (makes_pure _ _ _))))

theorem makes_leaf {m : Marks} (hname : m.name = none) (style : Style) (s : Bytes) :
    Makes limit (leaf m style s) k stock (.leaf (.ofScalar (m.tag.getD []) style s)) k stock := by
  unfold leaf bind
  rw [hname]
  exact (makes_pure _ _ _).bind (makes_pure _ _ _)

/-- A scalar. -/
theorem makes_start_leaf (l : Leaf) :
    Makes limit (start lines dashes) k ⟨l.tokens ++ ts, sure⟩ (.leaf l.node) k ⟨ts, false⟩ := by
  obtain ⟨tag, style, s⟩ := l
  cases tag with
  | none =>
      have hmarks : Makes limit marks k ⟨.scalar style s :: ts, true⟩ ⟨none, none⟩ k
          ⟨.scalar style s :: ts, true⟩ := makes_marks nofun nofun
      exact makes_peek.bind (hmarks.bind (makes_peek.bind (makes_take.bind (makes_leaf rfl _ _))))
  | some suffix =>
      have hmarks : Makes limit marks k
          ⟨.tag (text "!!") suffix :: .scalar style s :: ts, true⟩
          ⟨none, some (Tag.space ++ suffix)⟩ k ⟨.scalar style s :: ts, true⟩ :=
        makes_marks_tag nofun
      exact makes_peek.bind (hmarks.bind (makes_peek.bind (makes_take.bind (makes_leaf rfl _ _))))

/-- A mapping. -/
theorem makes_start_mapping :
    Makes limit (start true dashes) k ⟨.blockMapping :: ts, sure⟩ (.inner (.new .blockMapping k))
      (k + 1) ⟨ts, false⟩ := by
  have hmarks : Makes limit marks k ⟨.blockMapping :: ts, true⟩ ⟨none, none⟩ k
      ⟨.blockMapping :: ts, true⟩ := makes_marks nofun nofun
  have hbegin : Makes limit (begin ⟨none, none⟩ .blockMapping) k ⟨ts, false⟩
      (.inner (.new .blockMapping k)) (k + 1) ⟨ts, false⟩ := takes_pure _ _
  exact makes_peek.bind (hmarks.bind (makes_peek.bind (makes_take.bind hbegin)))

/-! ## All parts -/

section Build

variable {f : Frame} {outside : List Frame} {fuel : Nat} {r : Node}

/-- A key is read. -/
theorem makes_build_key (hkind : f.kind = .blockMapping) (hdue : f.due = false) {key : List Char}
    (h : Makes limit (build fuel (f.add (Outline.keyNode key)) outside) k ⟨ts, false⟩ r k' stock') :
    Makes limit (build (fuel + 1) f outside) k
      ⟨.key :: .scalar .plain (Utf8.ofChars key) :: ts, sure⟩ r k' stock' := by
  have hturn : Makes limit (liftM (Reading.turn f)) k
      ⟨.key :: .scalar .plain (Utf8.ofChars key) :: ts, sure⟩ (.part true true) k
      ⟨.scalar .plain (Utf8.ofChars key) :: ts, true⟩ :=
    makes_lift (takes_turn_key hkind hdue rfl)
  exact hturn.bind ((makes_start_leaf ⟨none, .plain, Utf8.ofChars key⟩).bind h)

/-- A scalar is read as the value of a key. -/
theorem makes_build_leaf (hkind : f.kind = .blockMapping) (hdue : f.due = true) {leaf : Leaf}
    (h : Makes limit (build fuel (f.add leaf.node) outside) k ⟨ts, false⟩ r k' stock') :
    Makes limit (build (fuel + 1) f outside) k ⟨.value :: (leaf.tokens ++ ts), sure⟩ r k' stock' := by
  have hturn : Makes limit (liftM (Reading.turn f)) k ⟨.value :: (leaf.tokens ++ ts), sure⟩
      (.part true true) k ⟨leaf.tokens ++ ts, true⟩ := by
    obtain ⟨tag, style, s⟩ := leaf
    cases tag <;> exact makes_lift (takes_turn_value hkind hdue rfl)
  exact hturn.bind ((makes_start_leaf leaf).bind h)

/-- A mapping starts as the value of a key. -/
theorem makes_build_part (hkind : f.kind = .blockMapping) (hdue : f.due = true)
    (h : Makes limit (build fuel (.new .blockMapping k) (f :: outside)) (k + 1) ⟨ts, false⟩ r k'
      stock') :
    Makes limit (build (fuel + 1) f outside) k ⟨.value :: .blockMapping :: ts, sure⟩ r k' stock' := by
  have hturn : Makes limit (liftM (Reading.turn f)) k ⟨.value :: .blockMapping :: ts, sure⟩
      (.part true true) k ⟨.blockMapping :: ts, true⟩ :=
    makes_lift (takes_turn_value hkind hdue rfl)
  exact hturn.bind (makes_start_mapping.bind h)

/-- A mapping ends. -/
theorem makes_build_close (hkind : f.kind = .blockMapping) (hdue : f.due = false)
    (h : Makes limit (match outside with
      | [] => pure f.node
      | g :: outside => build fuel (g.add f.node) outside) k ⟨ts, false⟩ r k' stock') :
    Makes limit (build (fuel + 1) f outside) k ⟨.blockEnd :: ts, sure⟩ r k' stock' := by
  have hturn : Makes limit (liftM (Reading.turn f)) k ⟨.blockEnd :: ts, sure⟩ .close k
      ⟨ts, false⟩ := makes_lift (takes_turn_close hkind hdue)
  have hsettle : Makes limit (settle f.number f.node) k ⟨ts, false⟩ () k ⟨ts, false⟩ :=
    takes_pure _ _
  have hpair : (f.kind != .pair) = true := by
    rw [hkind]
    decide
  refine hturn.bind ?_
  dsimp only
  rw [hpair, if_pos rfl]
  exact hsettle.bind h

/-- All entries of an outline are read. -/
theorem makes_build (o : Outline) (hkind : f.kind = .blockMapping) (hdue : f.due = false)
    (h : ∀ k, ∃ k', Makes limit (build fuel (f.extend o.entries) outside) k ⟨ts, false⟩ r k' stock')
    (k : Nat) :
    ∃ k', Makes limit (build (fuel + o.cost) f outside) k ⟨o.tokens ++ ts, false⟩ r k' stock' := by
  -- Behind a key its value is due, and behind that none is.
  have hvalue : ∀ {f : Frame} (n : Node), f.due = false → (f.add n).due = true := fun n h => by
    rw [Frame.add, h]
    rfl
  have hentry : ∀ {f : Frame} (n m : Node), f.due = false → ((f.add n).add m).due = false :=
    fun n m h => by
      rw [Frame.add, hvalue n h]
      rfl
  induction o generalizing f outside fuel ts k with
  | nil => exact h k
  | value key text leaf rest ih =>
      obtain ⟨k', hrest⟩ := ih (f := (f.add (Outline.keyNode key)).add leaf.node) hkind
        (hentry _ _ hdue) h k
      refine ⟨k', ?_⟩
      simp only [Outline.tokens, List.cons_append, List.append_assoc]
      exact makes_build_key hkind hdue
        (makes_build_leaf (f := f.add (Outline.keyNode key)) hkind (hvalue _ hdue) hrest)
  | part key inner rest ihinner ihrest =>
      have hrest := ihrest (f := (f.add (Outline.keyNode key)).add (.mapping inner.entries)) hkind
        (hentry _ _ hdue) h
      have hclose : ∀ k₀ k, ∃ k', Makes limit (build (fuel + rest.cost + 1)
          ((Frame.new .blockMapping k₀).extend inner.entries)
          (f.add (Outline.keyNode key) :: outside)) k ⟨.blockEnd :: (rest.tokens ++ ts), false⟩ r k'
          stock' := by
        intro k₀ k
        obtain ⟨k', hmakes⟩ := hrest k
        refine ⟨k', makes_build_close ?_ ?_ ?_⟩
        · rw [Frame.extend_eq]
          rfl
        · rw [Frame.extend_eq]
          rfl
        · rwa [Frame.node_extend]
      obtain ⟨k', hinner⟩ := ihinner (f := .new .blockMapping k) rfl rfl (hclose k) (k + 1)
      refine ⟨k', ?_⟩
      rw [Outline.cost, show fuel + (inner.cost + rest.cost + 3) =
        fuel + rest.cost + 1 + inner.cost + 1 + 1 by omega]
      simp only [Outline.tokens, List.cons_append, List.append_assoc]
      exact makes_build_key hkind hdue
        (makes_build_part (f := f.add (Outline.keyNode key)) hkind (hvalue _ hdue) hinner)

/-- A document is one mapping. -/
theorem makes_part {o : Outline} (hcost : o.cost < 8 * limit) :
    ∃ k, Makes limit part 0 ⟨.blockMapping :: (o.tokens ++ [.blockEnd, .streamEnd]), sure⟩
      (.mapping o.entries) k ⟨[.streamEnd], false⟩ := by
  obtain ⟨fuel, hfuel⟩ : ∃ fuel, 8 * limit = fuel + 1 + o.cost :=
    ⟨8 * limit - o.cost - 1, by omega⟩
  have hclose : ∀ k, ∃ k', Makes limit (build (fuel + 1) ((Frame.new .blockMapping 0).extend o.entries)
      []) k ⟨[.blockEnd, .streamEnd], false⟩ (.mapping o.entries) k' ⟨[.streamEnd], false⟩ := by
    intro k
    refine ⟨k, makes_build_close ?_ ?_ ?_⟩
    · rw [Frame.extend_eq]
      rfl
    · rw [Frame.extend_eq]
      rfl
    · rw [Frame.node_extend]
      exact makes_pure _ _ _
  obtain ⟨k, hbuild⟩ := makes_build o rfl rfl hclose 1
  rw [← hfuel] at hbuild
  have hlimit : Makes limit (liftM Reading.fuel) 1 ⟨o.tokens ++ [.blockEnd, .streamEnd], false⟩
      limit 1 ⟨o.tokens ++ [.blockEnd, .streamEnd], false⟩ := makes_lift Reading.takes_fuel
  exact ⟨k, makes_start_mapping.bind (hlimit.bind hbuild)⟩

theorem takes_document {o : Outline} (hcost : o.cost < 8 * limit) :
    ∃ N, Takes limit (document.run ⟨[], 0, []⟩)
      ⟨.streamStart :: .blockMapping :: (o.tokens ++ [.blockEnd, .streamEnd]), true⟩
      (.mapping o.entries, N) ⟨[.streamEnd], false⟩ := by
  obtain ⟨k, hpart⟩ : ∃ k, Makes limit part 0
      ⟨.blockMapping :: (o.tokens ++ [.blockEnd, .streamEnd]), true⟩ (.mapping o.entries) k
      ⟨[.streamEnd], false⟩ := makes_part hcost
  have hhandles : Takes limit
      ((modify fun s => { s with handles := standardHandles } : Building Unit).run ⟨[], 0, []⟩)
      ⟨.blockMapping :: (o.tokens ++ [.blockEnd, .streamEnd]), true⟩ ((), names 0)
      ⟨.blockMapping :: (o.tokens ++ [.blockEnd, .streamEnd]), true⟩ := takes_pure _ _
  exact ⟨names k, takes_run_bind (takes_run_lift takes_take)
    (takes_run_bind (takes_run_lift takes_peek) (takes_run_bind hhandles hpart))⟩

end Build

end Building

/-! ## All of it -/

theorem Line.length_le_chars (ls : List Line) : ls.length ≤ (Line.chars ls).length := by
  induction ls with
  | nil => exact Nat.le_refl _
  | cons l ls ih =>
      simp only [Line.chars, List.length_append, List.length_cons]
      omega

theorem length_le_ofChars (cs : List Char) : cs.length ≤ (Utf8.ofChars cs).length := by
  induction cs with
  | nil => exact Nat.le_refl _
  | cons c cs ih =>
      have hpos := Char.utf8Size_pos c
      rw [Utf8.ofChars, List.flatMap_cons, List.length_append, String.length_utf8EncodeChar,
        List.length_cons, Nat.add_comm]
      exact Nat.add_le_add hpos ih

namespace Outline

open Reading

theorem step_first (s : Bytes) (t : List Char) :
    Step (Scan.ofBytes s) t { (Scan.ofBytes s).push .streamStart with started := true } t := by
  refine ⟨⟨rfl, rfl, nofun⟩, fun {j n} hj => ?_, Nat.zero_le _, rfl, rfl⟩
  obtain rfl := Nat.le_zero.mp hj
  refine (runs_need 1).bind (runs_get_bind fun src _ => runs_if_pos rfl ?_)
  exact (runs_modify fun _ => rfl).forget (Nat.zero_le 1)

theorem cost_le (o : Outline) (step column : Nat) : o.cost ≤ 3 * (o.lines step column).length := by
  induction o generalizing column with
  | nil => exact Nat.le_refl _
  | value key text leaf rest ih =>
      have h := ih column
      rw [cost, lines, List.length_cons]
      omega
  | part key inner rest ihinner ihrest =>
      have hinner := ihinner (column + step)
      have hrest := ihrest column
      rw [cost, lines, List.length_cons, List.length_append]
      omega

variable {o : Outline} {step : Nat}

theorem yields_document (hstep : 0 < step) (ho : o.Sound step 0) (hne : o ≠ nil)
    (hdepth : (o.lines step 0).length ≤ depthLimit) {s : Bytes}
    (hs : (Line.chars (o.lines step 0)).length ≤ s.length) :
    Yields ((Line.chars (o.lines step 0)).length + 2) (Scan.ofBytes s) (Line.chars (o.lines step 0))
      (.streamStart :: .blockMapping :: (o.tokens ++ [.blockEnd, .streamEnd])) := by
  obtain ⟨l, ls, hlines, hcolumn⟩ := exists_lines_eq_cons hne step 0
  have hsound : Line.AllSound (o.lines step 0 ++ []) :=
    (allSound_lines ho (show Line.AllSound [] from trivial) (Nat.le_refl 0)).1
  rw [List.append_nil] at hsound
  have hopen : Scan.Open { (Scan.ofBytes s).push .streamStart with started := true } []
      [.streamStart] (s.length + 4) := ⟨⟨rfl, rfl, rfl, rfl, rfl, rfl⟩, rfl, rfl⟩
  have hbefore : Before { (Scan.ofBytes s).push .streamStart with started := true }
      (Line.chars (o.lines step 0)) (Line.first (o.lines step 0)).1
      (Line.first (o.lines step 0)).2 := by
    have hzero : (Line.first (o.lines step 0)).1 = 0 := by rw [hlines, ← hcolumn]; rfl
    refine Or.inr ⟨?_, rfl, hzero.symm⟩
    rw [Line.chars_eq, hzero]
    rfl
  have hyields := yields_lines hsound hopen hbefore (by omega) (by simpa using hdepth)
  rw [allTokens_document hstep ho hne] at hyields
  exact .step (Nat.lt_succ_self _) (step_first s _) hyields

/-- A document that is written line by line reads as its outline. -/
theorem parse_lines (hstep : 0 < step) (ho : o.Sound step 0) (hne : o ≠ nil)
    (hdepth : (o.lines step 0).length ≤ depthLimit)
    (hallowed : ∀ c ∈ Line.chars (o.lines step 0), isAllowed c = true)
    (hmark : orderMark ∉ Line.chars (o.lines step 0))
    (hdetect : Spelling.detect (Utf8.ofChars (Line.chars (o.lines step 0))) = (.utf8, 0)) :
    Node.parse (Utf8.ofChars (Line.chars (o.lines step 0))) = .ok (.mapping o.entries) := by
  have hbytes := length_le_ofChars (Line.chars (o.lines step 0))
  have hchars := Line.length_le_chars (o.lines step 0)
  have hcost := o.cost_le step 0
  have hyields := yields_document hstep ho hne hdepth hbytes
  have hsource := Source.holds_ofBytes hallowed hmark hdetect
  unfold Node.parse
  generalize Utf8.ofChars (Line.chars (o.lines step 0)) = s at *
  obtain ⟨N, hdocument⟩ := Building.takes_document (show o.cost < 8 * (s.length + 4) by omega)
  have hrun : Takes (s.length + 4)
      ((do
        let _ ← Building.peek
        let n ← Building.document
        let _ ← Building.peek
        return n : Building Node).run ⟨[], 0, []⟩)
      ⟨.streamStart :: .blockMapping :: (o.tokens ++ [.blockEnd, .streamEnd]), false⟩
      (.mapping o.entries, N) ⟨[.streamEnd], true⟩ :=
    Building.takes_run_bind (Building.takes_run_lift takes_peek)
      (Building.takes_run_bind hdocument
        (Building.takes_run_bind (Building.takes_run_lift takes_peek) (takes_pure _ _)))
  have hfeeds : Feeds (s.length + 4) (Scan.ofBytes s) (Line.chars (o.lines step 0))
      ⟨.streamStart :: .blockMapping :: (o.tokens ++ [.blockEnd, .streamEnd]), false⟩ :=
    ⟨_, 0, _, _, rfl, hyields, rfl, Nat.zero_le _, nofun, rfl, by omega⟩
  obtain ⟨s', t', hruns, -⟩ := hrun _ _ 0 hfeeds
  obtain ⟨src, -, heq⟩ := hruns _ hsource
  show StateT.run' (StateT.run' _ _) (Scan.ofBytes s) = _
  rw [StateT.run'_eq, StateT.run'_eq, StateT.run_map]
  exact congrArg (fun r => Prod.fst <$> ((fun p => (p.1.1, p.2)) <$> r)) heq

end Outline

end Cascade.Yaml
