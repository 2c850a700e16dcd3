import Cascade.Proofs.Config.Outline

/-!
# Laying a document over a configuration

A document that refers to no part by a name is laid over a configuration field by field. What has
been written replaces every field, except for those that were left out.
-/

namespace Cascade

open Yaml (Node Value Leaf Outline spell survives)

namespace Laying

variable {α β : Type}

def Direct (v : Visits) : Prop := v.named = 0 ∧ v.depth = 0

/-- As long as no part is reached by a name, the step gives `a`. -/
def Lays (x : Laying α) (a : α) : Prop :=
  ∀ v, Direct v → ∃ v', x.run v = .ok (a, v') ∧ Direct v'

theorem lays_pure (a : α) : Lays (pure a) a := fun v hv => ⟨v, rfl, hv⟩

theorem Lays.bind {x : Laying α} {f : α → Laying β} {a : α} {b : β} (hx : Lays x a)
    (hf : Lays (f a) b) : Lays (x >>= f) b := by
  intro v hv
  obtain ⟨v₁, hrun, hv₁⟩ := hx v hv
  obtain ⟨v₂, hrun', hv₂⟩ := hf v₁ hv₁
  refine ⟨v₂, ?_, hv₂⟩
  rw [StateT.run_bind, hrun]
  exact hrun'

theorem lays_visit : Lays visit () := by
  rintro ⟨total, named, depth⟩ ⟨hnamed, hdepth⟩
  obtain rfl : named = 0 := hnamed
  obtain rfl : depth = 0 := hdepth
  exact ⟨⟨total + 1, 0, 0⟩, rfl, rfl, rfl⟩

theorem lays_scalar {old a : α} {read : Value → Bytes → Laying α} {tag t x : Bytes}
    {style : Yaml.Style} {v : Value} (hv : Value.ofTagged tag t = some (v, x)) (hnull : v ≠ .null)
    (hread : Lays (read v x) a) : Lays (scalar old read (.scalar tag style t)) a := by
  refine lays_visit.bind ?_
  dsimp only
  rw [hv]
  cases v with
  | null => exact absurd rfl hnull
  | _ => exact hread

section Leaves

variable {column : Nat} {p : List Char × Leaf} {x : Bytes}

theorem lays_text (h : Yaml.Written column p .text x) (old : Bytes) : Lays (text old p.2.node) x := by
  obtain ⟨tag, style, t, hnode, hvalue⟩ := h.means
  rw [hnode]
  exact lays_scalar hvalue nofun (lays_pure x)

theorem lays_int {n : Int} (h : Yaml.Written column p (.int n) x) (hn : n < bound) (old : Int) :
    Lays (int old p.2.node) n := by
  obtain ⟨tag, style, t, hnode, hvalue⟩ := h.means
  rw [hnode]
  refine lays_scalar hvalue nofun ?_
  show Lays (if n < bound then return n else misfit) n
  rw [if_pos hn]
  exact lays_pure n

theorem lays_bool {b : Bool} (h : Yaml.Written column p (.bool b) x) (old : Bool) :
    Lays (bool old p.2.node) b := by
  obtain ⟨tag, style, t, hnode, hvalue⟩ := h.means
  rw [hnode]
  exact lays_scalar hvalue nofun (lays_pure b)

end Leaves

/-! ## Sections -/

def isFieldName (name : String) : Bool :=
  Value.ofPlain (Cascade.text name) == .text && Cascade.text name != Cascade.text "<<"

theorem keyNode_eq {name : String} (h : isFieldName name = true) :
    Outline.keyNode name.toList = .scalar Yaml.Tag.text .plain (Cascade.text name) := by
  rw [isFieldName, Bool.and_eq_true, beq_iff_eq, bne_iff_ne] at h
  rw [Outline.keyNode, Utf8.ofChars_toList]
  show (if Cascade.text name == Cascade.text "<<" then _ else _) = _
  rw [if_neg (by simpa using h.2), h.1]
  rfl

/-- These entries are laid over `a` one after the other, where `done` has been laid before. -/
inductive Laid (field : α → Bytes → Node → Laying α) :
    (done : List Bytes) → α → List (Node × Node) → α → Prop
  | nil {done : List Bytes} {a : α} : Laid field done a [] a
  | cons {done : List Bytes} {a b c : α} {name : String} {node : Node} {es : List (Node × Node)} :
      isFieldName name = true → Cascade.text name ∉ done →
      Lays (field a (Cascade.text name) node) b → Laid field (Cascade.text name :: done) b es c →
      Laid field done a ((Outline.keyNode name.toList, node) :: es) c

namespace Laid

variable {field : α → Bytes → Node → Laying α} {done done' : List Bytes} {a b c : α}
  {es : List (Node × Node)}

theorem mono (h : Laid field done a es b) (hsub : done' ⊆ done) : Laid field done' a es b := by
  induction h generalizing done' with
  | nil => exact .nil
  | cons hname hnew hfield _ ih =>
      exact .cons hname (fun hmem => hnew (hsub hmem)) hfield (ih (List.cons_subset_cons _ hsub))

theorem lays_foldlM (h : Laid field done a es b) :
    ∃ done', Lays (es.foldlM (entry field) ⟨a, done, none⟩) ⟨b, done', none⟩ := by
  induction h with
  | @nil done a => exact ⟨done, lays_pure _⟩
  | @cons done a b c name node es hname hnew hfield _ ih =>
      obtain ⟨done', hrest⟩ := ih
      have hkey : Lays (name? (.scalar Yaml.Tag.text .plain (Cascade.text name)))
          (some (Cascade.text name)) :=
        lays_scalar (Yaml.ofTagged_text _) nofun (lays_pure _)
      have hentry : Lays (entry field ⟨a, done, none⟩ (Outline.keyNode name.toList, node))
          ⟨b, Cascade.text name :: done, none⟩ := by
        unfold entry
        rw [keyNode_eq hname]
        have hmerge : isMerge (.scalar Yaml.Tag.text .plain (Cascade.text name)) = false := by
          rw [isMerge, show (Yaml.Tag.text == Yaml.Tag.merge) = false by decide, Bool.and_false]
        have hcontains : ¬ done.contains (Cascade.text name) = true := by
          rwa [List.contains_iff_mem]
        dsimp only
        rw [hmerge, if_neg Bool.false_ne_true]
        refine hkey.bind ?_
        dsimp only
        rw [if_neg hcontains]
        exact hfield.bind (lays_pure _)
      exact ⟨done', hentry.bind hrest⟩

theorem keys (h : Laid field done a es b) :
    ∀ p ∈ es, ∃ s, p.1 = .scalar Yaml.Tag.text .plain s ∧ s ∉ done := by
  induction h with
  | nil => exact nofun
  | @cons done a b c name node es hname hnew hfield _ ih =>
      refine List.forall_mem_cons.mpr ⟨⟨_, keyNode_eq hname, hnew⟩, fun p hp => ?_⟩
      obtain ⟨s, hs, hnot⟩ := ih p hp
      exact ⟨s, hs, fun hmem => hnot (List.mem_cons_of_mem _ hmem)⟩

theorem distinct_keys (h : Laid field done a es b) : distinct (es.map Prod.fst) = true := by
  induction h with
  | nil => rfl
  | @cons done a b c name node es hname hnew hfield hrest ih =>
      have hany : (es.map Prod.fst).any (isSame (Outline.keyNode name.toList)) = false := by
        rw [List.any_map, List.any_eq_false]
        intro p hp
        obtain ⟨s, hs, hnot⟩ := hrest.keys p hp
        rw [Function.comp_apply, keyNode_eq hname, hs]
        show ¬ (Cascade.text name == s) = true
        rw [beq_iff_eq]
        rintro rfl
        exact hnot List.mem_cons_self
      rw [List.map_cons, distinct, hany, ih]
      rfl

theorem lays_entries (h : Laid field [] a es b) (fuel : Nat) :
    Lays (entries field (fuel + 1) none a es) (b, none) := by
  obtain ⟨done', hfold⟩ := h.lays_foldlM
  have hmerge : (es.find? fun p => isMerge p.1) = none := by
    rw [List.find?_eq_none]
    intro p hp
    obtain ⟨s, hs, -⟩ := h.keys p hp
    rw [hs, isMerge, show (Yaml.Tag.text == Yaml.Tag.merge) = false by decide, Bool.and_false]
    exact Bool.false_ne_true
  unfold entries
  rw [h.distinct_keys, Bool.not_true, if_neg Bool.false_ne_true]
  refine hfold.bind ?_
  rw [hmerge]
  exact lays_pure _

theorem lays_overlay (h : Laid field [] a es b) (fuel : Nat) :
    Lays (overlay (fuel + 1) field a (.mapping es)) b :=
  lays_visit.bind ((h.lays_entries fuel).bind (lays_pure _))

end Laid

end Laying

/-! ## A configuration that was written -/

def Channel.atop (c old : Channel) : Channel where
  level := c.level
  destination := if c.destination.isEmpty then old.destination else c.destination
  mode := if c.mode.isEmpty then old.mode else c.mode

namespace Config

open Laying (Lays Laid lays_pure lays_text lays_int lays_bool isFieldName)

def atop (c old : Config) : Config :=
  { c with file := c.file.atop old.file, console := c.console.atop old.console }

/-- A text that was left out if it is empty. -/
theorem laid_optional {α : Type} {field : α → Bytes → Node → Laying α} {done : List Bytes}
    {a b c : α} {depth : Nat} {name : String} {s : Bytes} {rest : Outline}
    (hrest : Laid field (text name :: done) b rest.entries c) (hname : isFieldName name = true)
    (hnew : text name ∉ done) (hskip : s.isEmpty = true → a = b)
    (hgiven : ¬ s.isEmpty = true →
      Lays (field a (text name) (spell step (depth * step) s).2.node) b) :
    Laid field done a (optional depth name s rest).entries c := by
  unfold optional
  split_ifs with hempty
  · rw [hskip hempty]
    exact hrest.mono (List.subset_cons_self _ _)
  · exact .cons hname hnew (hgiven hempty) hrest

theorem laid_channel {c : Channel} (hlevel : survives c.level = true)
    (hdestination : survives c.destination = true) (hmode : survives c.mode = true)
    (old : Channel) : Laid channelField [] old (channelOutline c).entries (c.atop old) := by
  have hfirst : Lays (channelField old (text "level") (spell step (2 * step) c.level).2.node)
      ⟨c.level, old.destination, old.mode⟩ := (lays_text (written_text hlevel) _).bind (lays_pure _)
  have hsecond : ∀ a : Channel, Lays (channelField a (text "destination")
      (spell step (2 * step) c.destination).2.node) ⟨a.level, c.destination, a.mode⟩ := fun _ =>
    (lays_text (written_text hdestination) _).bind (lays_pure _)
  have hthird : ∀ a : Channel, Lays (channelField a (text "mode")
      (spell step (2 * step) c.mode).2.node) ⟨a.level, a.destination, c.mode⟩ := fun _ =>
    (lays_text (written_text hmode) _).bind (lays_pure _)
  have hlast : Laid channelField [text "destination", text "level"]
      ⟨c.level, (c.atop old).destination, old.mode⟩ (optional 2 "mode" c.mode .nil).entries
      (c.atop old) := by
    refine laid_optional .nil rfl (by decide) (fun hempty => ?_) fun hempty => ?_
    · rw [Channel.atop, if_pos hempty]
    · rw [Channel.atop, if_neg hempty]
      exact hthird _
  refine .cons (show isFieldName "level" = true from rfl) nofun hfirst
    (laid_optional hlast rfl (by decide) (fun hempty => ?_) fun hempty => ?_)
  · rw [Channel.atop, if_pos hempty]
  · rw [Channel.atop, if_neg hempty]
    exact hsecond _

/-- A section with one field. -/
theorem lays_section {field : Config → Bytes → Node → Laying Config} {a b : Config}
    {name : String} {p : List Char × Leaf} (h : Lays (field a (text name) p.2.node) b)
    (hname : isFieldName name = true) (fuel : Nat) :
    Lays (Laying.overlay (fuel + 1) field a (.mapping (given name p .nil).entries)) b :=
  Laid.lays_overlay (.cons hname nofun h .nil) fuel

theorem laid_logging {c : Config} (hc : c.Sturdy) (old : Config) (fuel : Nat) :
    Laid (loggingField (fuel + 1)) [] old
      (part "file" (channelOutline c.file) (part "console" (channelOutline c.console) .nil)).entries
      { old with file := c.file.atop old.file, console := c.console.atop old.console } := by
  obtain ⟨-, -, htexts⟩ := hc
  simp only [texts, List.forall_mem_cons] at htexts
  obtain ⟨-, hlevel, hdestination, hmode, hlevel', hdestination', hmode', -⟩ := htexts
  have hfile := (laid_channel hlevel hdestination hmode old.file).lays_overlay fuel
  have hconsole := (laid_channel hlevel' hdestination' hmode' old.console).lays_overlay fuel
  have hfirst : Lays (loggingField (fuel + 1) old (text "file")
      (.mapping (channelOutline c.file).entries)) { old with file := c.file.atop old.file } :=
    hfile.bind (lays_pure _)
  have hsecond : Lays (loggingField (fuel + 1) { old with file := c.file.atop old.file }
      (text "console") (.mapping (channelOutline c.console).entries))
      { old with file := c.file.atop old.file, console := c.console.atop old.console } :=
    hconsole.bind (lays_pure _)
  exact .cons (show isFieldName "file" = true from rfl) List.not_mem_nil hfirst
    (.cons (show isFieldName "console" = true from rfl) (by decide) hsecond .nil)

/-- Section by section, the outline of a configuration is laid over the old one. -/
theorem laid_outline {c : Config} (hc : c.Sturdy) (old : Config) (fuel : Nat) :
    Laid (field (fuel + 1)) [] old (outline c).entries (c.atop old) := by
  have hlogging := fun old => (laid_logging hc old fuel).lays_overlay fuel
  obtain ⟨hversion, htop, htexts⟩ := hc
  simp only [texts, List.forall_mem_cons] at htexts
  obtain ⟨hencoding, -, -, -, -, -, -, hreport, -⟩ := htexts
  have hnumber : Yaml.Written 0 (numeral c.version) _ _ := written_numeral hversion
  have hcount : Yaml.Written 0 (numeral c.top) _ _ := written_numeral htop
  have hflag : Yaml.Written 0 (truth c.backup) _ _ := Yaml.written_bool c.backup
  have hfirst : Lays (field (fuel + 1) old (text "version") (numeral c.version).2.node)
      { old with version := c.version } := (lays_int hnumber hversion.2 _).bind (lays_pure _)
  have hinput : ∀ a : Config, Lays (inputField a (text "encoding")
      (spell step (1 * step) c.encoding).2.node) { a with encoding := c.encoding } := fun _ =>
    (lays_text (written_text hencoding) _).bind (lays_pure _)
  have hanalysis : ∀ a : Config, Lays (analysisField a (text "top") (numeral c.top).2.node)
      { a with top := c.top } := fun _ => (lays_int hcount htop.2 _).bind (lays_pure _)
  have hdedupe : ∀ a : Config, Lays (dedupeField a (text "backup") (truth c.backup).2.node)
      { a with backup := c.backup } := fun _ => (lays_bool hflag _).bind (lays_pure _)
  have hreporting : ∀ a : Config, Lays (reportingField a (text "destination")
      (spell step (1 * step) c.report).2.node) { a with report := c.report } := fun _ =>
    (lays_text (written_text hreport) _).bind (lays_pure _)
  exact .cons (show isFieldName "version" = true from rfl) (by decide) hfirst <|
    .cons (show isFieldName "input" = true from rfl) (by decide)
      (lays_section (hinput _) rfl fuel) <|
    .cons (show isFieldName "analysis" = true from rfl) (by decide)
      (lays_section (hanalysis _) rfl fuel) <|
    .cons (show isFieldName "dedupe" = true from rfl) (by decide)
      (lays_section (hdedupe _) rfl fuel) <|
    .cons (show isFieldName "logging" = true from rfl) (by decide) (hlogging _) <|
    .cons (show isFieldName "reporting" = true from rfl) (by decide)
      (lays_section (hreporting _) rfl fuel) .nil

/-- What was written replaces all but what was left out. -/
theorem decode_dump {c : Config} (hc : c.Sturdy) (old : Config) :
    old.decode c.dump = .ok (c.atop old) := by
  have hlays := (laid_outline hc old (c.dump.length + 1)).lays_overlay (c.dump.length + 1)
  obtain ⟨v, hrun, -⟩ := hlays ⟨1, 0, 0⟩ ⟨rfl, rfl⟩
  unfold decode
  rw [parse_dump hc]
  exact congrArg (Except.map Prod.fst) hrun

end Config

end Cascade
