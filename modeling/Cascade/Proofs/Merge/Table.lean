import Cascade.Proofs.Dict
import Cascade.Proofs.Sheet.RawPrinting
import Cascade.Proofs.Sheet.Declarations
import Mathlib.Data.List.Induction

/-!
# What a table holds

A table is read off the items it was made from: the entry of a selector stands at
the last rule that spells it, and holds the declarations of all such rules, merged.
So the text of a sheet with its rules merged is a list of items, written one a line.
-/

namespace Cascade

open Lexeme Scan

/-! ## Merging declarations -/

namespace Declaration

def place (d : Declaration) : List Declaration → List Declaration
  | [] => [d]
  | e :: es => if d.property = e.property then d :: es else e :: place d es

/-- The declarations with one for each property: a property stays where it first
appeared, and its last value wins. -/
def merge (ds : List Declaration) : List Declaration := ds.foldl (fun es d => place d es) []

@[simp] theorem merge_nil : merge [] = [] := rfl

theorem merge_snoc (ds : List Declaration) (d : Declaration) :
    merge (ds ++ [d]) = place d (merge ds) := by
  unfold merge
  rw [List.foldl_append]
  rfl

theorem mem_of_mem_place {d x : Declaration} {es : List Declaration} (h : x ∈ place d es) :
    x = d ∨ x ∈ es := by
  induction es with
  | nil => simpa [place] using h
  | cons e es ih =>
      rw [place] at h
      split at h
      · rcases List.mem_cons.mp h with rfl | h
        · exact Or.inl rfl
        · exact Or.inr (List.mem_cons_of_mem _ h)
      · rcases List.mem_cons.mp h with rfl | h
        · exact Or.inr List.mem_cons_self
        · exact (ih h).imp id (List.mem_cons_of_mem _)

/-- A dictionary from properties to values takes a declaration in the same way. -/
theorem put_eq_place (d : Declaration) (es : List Declaration) :
    Dict.put d.property d.value (es.map fun e => (e.property, e.value)) =
      (place d es).map fun e => (e.property, e.value) := by
  induction es with
  | nil => rfl
  | cons e es ih =>
      by_cases he : d.property = e.property
      · simp [place, Dict.put, he]
      · simp [place, Dict.put, he, ih]

theorem map_property_place (d : Declaration) (es : List Declaration) :
    (place d es).map property =
      if d.property ∈ es.map property then es.map property else es.map property ++ [d.property] := by
  have hkeys := Dict.map_fst_put d.property d.value (es.map fun e => (e.property, e.value))
  rw [put_eq_place, List.map_map, List.map_map] at hkeys
  exact hkeys

theorem place_of_not_mem {d : Declaration} {es : List Declaration}
    (h : d.property ∉ es.map property) : place d es = es ++ [d] := by
  induction es with
  | nil => rfl
  | cons e es ih =>
      rw [List.map_cons, List.mem_cons, not_or] at h
      rw [place, if_neg h.1, ih h.2, List.cons_append]

theorem count_place_le (c : UInt8) (d : Declaration) (es : List Declaration) :
    ((place d es).flatMap fields).count c ≤ (es.flatMap fields).count c + d.fields.count c := by
  induction es with
  | nil => simp [place]
  | cons e es ih =>
      rw [place]
      split
      · simp only [List.flatMap_cons, List.count_append]
        omega
      · simp only [List.flatMap_cons, List.count_append]
        omega

/-- Merging makes no declaration up. -/
theorem mem_of_mem_merge {ds : List Declaration} {x : Declaration} (h : x ∈ merge ds) :
    x ∈ ds := by
  induction ds using List.reverseRecOn with
  | nil => exact h
  | append_singleton ds d ih =>
      rw [merge_snoc] at h
      rw [List.mem_append]
      rcases mem_of_mem_place h with rfl | h
      · exact Or.inr (List.mem_singleton.mpr rfl)
      · exact Or.inl (ih h)

theorem nodup_merge (ds : List Declaration) : ((merge ds).map property).Nodup := by
  induction ds using List.reverseRecOn with
  | nil => exact List.nodup_nil
  | append_singleton ds d ih =>
      rw [merge_snoc, map_property_place]
      split
      · exact ih
      · next hmem =>
          rw [List.nodup_append]
          exact ⟨ih, by simp, by rintro a ha b hb rfl; exact hmem (by simp_all)⟩

theorem merge_of_nodup {ds : List Declaration} (h : (ds.map property).Nodup) : merge ds = ds := by
  induction ds using List.reverseRecOn with
  | nil => rfl
  | append_singleton ds d ih =>
      rw [List.map_append, List.nodup_append] at h
      rw [merge_snoc, ih h.1]
      exact place_of_not_mem fun hmem => h.2.2 _ hmem _ (by simp) rfl

theorem merge_merge (ds : List Declaration) : merge (merge ds) = merge ds :=
  merge_of_nodup (nodup_merge ds)

theorem count_merge_le (c : UInt8) (ds : List Declaration) :
    ((merge ds).flatMap fields).count c ≤ (ds.flatMap fields).count c := by
  induction ds using List.reverseRecOn with
  | nil => exact Nat.le_refl _
  | append_singleton ds d ih =>
      have hplace := count_place_le c d (merge ds)
      simp only [merge_snoc, List.flatMap_append, List.flatMap_singleton, List.count_append]
      omega

end Declaration

/-! ## Entries -/

namespace Entry

open Declaration

/-- The entry holds the declarations `ds`, merged. -/
structure Holds (e : Entry) (ds : List Declaration) : Prop where
  order_eq : e.order = (merge ds).map property
  values_eq : e.values.items = (merge ds).map fun d => (d.property, d.value)

theorem holds_start (index : Nat) : (start index).Holds [] := ⟨rfl, rfl⟩

theorem Holds.declarations_eq {e : Entry} {ds : List Declaration} (h : e.Holds ds) :
    e.declarations = merge ds := by
  have hkeys : e.values.keys.Nodup := by
    rw [Dict.keys, h.values_eq, List.map_map]
    exact nodup_merge ds
  rw [declarations, h.order_eq, List.map_map]
  conv_rhs => rw [← List.map_id (merge ds)]
  refine List.map_congr_left fun d hd => ?_
  have hmem : (d.property, d.value) ∈ e.values.items := by
    rw [h.values_eq]
    exact List.mem_map_of_mem hd
  simp [Dict.get?_of_mem hkeys hmem]

theorem Holds.contains_iff {e : Entry} {ds : List Declaration} (h : e.Holds ds) (p : Bytes) :
    e.values.contains p = true ↔ p ∈ (merge ds).map property := by
  rw [Dict.contains, Dict.get?, h.values_eq, Option.isSome_map, List.find?_isSome]
  constructor
  · rintro ⟨pair, hpair, hp⟩
    obtain ⟨d, hd, rfl⟩ := List.mem_map.mp hpair
    exact List.mem_map.mpr ⟨d, hd, (eq_of_beq hp).symm⟩
  · intro hp
    obtain ⟨d, hd, rfl⟩ := List.mem_map.mp hp
    exact ⟨_, List.mem_map_of_mem hd, beq_self_eq_true _⟩

theorem Holds.declare {e : Entry} {ds : List Declaration} (h : e.Holds ds) (d : Declaration) :
    (e.declare d).Holds (ds ++ [d]) := by
  refine ⟨?_, ?_⟩
  · rw [merge_snoc, map_property_place, Entry.declare]
    simp only [h.contains_iff, h.order_eq]
  · rw [merge_snoc, ← put_eq_place, ← h.values_eq]
    rfl

theorem foldl_declare_spec (e : Entry) (ds : List Declaration) :
    (ds.foldl Entry.declare e).last = e.last ∧ (ds.foldl Entry.declare e).selector = e.selector ∧
      (ds.foldl Entry.declare e).count = e.count ∧
      ∀ es, e.Holds es → (ds.foldl Entry.declare e).Holds (es ++ ds) := by
  induction ds generalizing e with
  | nil => exact ⟨rfl, rfl, rfl, fun es h => by simpa using h⟩
  | cons d ds ih =>
      obtain ⟨hlast, hselector, hcount, hholds⟩ := ih (e.declare d)
      refine ⟨hlast, hselector, hcount, fun es h => ?_⟩
      simpa using hholds (es ++ [d]) (h.declare d)

theorem count_add (e : Entry) (index : Nat) (rule : Rule) :
    (e.add index rule).count = e.count + 1 :=
  (foldl_declare_spec _ _).2.2.1

end Entry

/-! ## The table of a list of items -/

namespace Item

def key? : Item → Option Bytes
  | .rule selector _ => some (normalize selector)
  | _ => none

def bodies (k : Bytes) (its : List Item) : List Bytes :=
  its.filterMap fun
    | .rule selector body => if normalize selector = k then some body else none
    | _ => none

def declared (its : List Item) (k : Bytes) : List Declaration :=
  Declaration.merge ((bodies k its).flatMap Declaration.parse)

theorem bodies_append (k : Bytes) (its its' : List Item) :
    bodies k (its ++ its') = bodies k its ++ bodies k its' :=
  List.filterMap_append

theorem bodies_rule (selector body : Bytes) :
    bodies (normalize selector) [.rule selector body] = [body] := by
  simp [bodies]

theorem bodies_eq_nil {k : Bytes} {its : List Item} (h : ∀ it ∈ its, it.key? ≠ some k) :
    bodies k its = [] := by
  rw [bodies, List.filterMap_eq_nil_iff]
  intro it hit
  have hkey := h it hit
  cases it with
  | rule selector body =>
      have hne : normalize selector ≠ k := fun heq => hkey (congrArg some heq)
      simp [hne]
  | _ => rfl

theorem mem_bodies {k body : Bytes} {its : List Item} :
    body ∈ bodies k its ↔ ∃ selector, .rule selector body ∈ its ∧ normalize selector = k := by
  rw [bodies, List.mem_filterMap]
  constructor
  · rintro ⟨it, hit, hbody⟩
    cases it with
    | rule selector b =>
        dsimp only at hbody
        split at hbody
        · next hk =>
            cases hbody
            exact ⟨selector, hit, hk⟩
        · cases hbody
    | _ => cases hbody
  · rintro ⟨selector, hit, rfl⟩
    exact ⟨_, hit, by simp⟩

end Item

namespace Table

open Declaration

def ofItems (its : List Item) : Table := its.zipIdx.foldl (fun table p => add table p.2 p.1) ∅

theorem ofTokens_eq (ts : List Token) : ofTokens ts = ofItems (ts.map Token.item) := by
  rw [ofItems, List.zipIdx_map, List.foldl_map]
  rfl

theorem ofItems_snoc (its : List Item) (it : Item) :
    ofItems (its ++ [it]) = (ofItems its).add its.length it := by
  unfold ofItems
  rw [List.zipIdx_append, List.foldl_append]
  simp

/-- What the entry of `k` says about the items: where the last rule for `k` stands and
how it spells its selector, and what all rules for `k` declare. -/
structure Describes (e : Entry) (its : List Item) (k : Bytes) : Prop where
  holds : e.Holds ((Item.bodies k its).flatMap parse)
  last : ∃ pre body post, its = pre ++ .rule e.selector body :: post ∧ e.last = pre.length ∧
    normalize e.selector = k ∧ ∀ it ∈ post, it.key? ≠ some k

theorem Describes.snoc {e : Entry} {its : List Item} {k : Bytes} (h : Describes e its k)
    {it : Item} (hit : it.key? ≠ some k) : Describes e (its ++ [it]) k := by
  obtain ⟨pre, body, post, rfl, hlast, hkey, hpost⟩ := h.last
  refine ⟨?_, pre, body, post ++ [it], by simp, hlast, hkey, ?_⟩
  · have hnone : Item.bodies k [it] = [] := Item.bodies_eq_nil (by simpa using hit)
    rw [Item.bodies_append, hnone, List.append_nil]
    exact h.holds
  · intro x hx
    rcases List.mem_append.mp hx with hx | hx
    · exact hpost x hx
    · rwa [List.mem_singleton.mp hx]

theorem describes_add {its : List Item} {e : Entry} {selector : Bytes} (body : Bytes)
    (h : e.Holds ((Item.bodies (normalize selector) its).flatMap parse)) :
    Describes (e.add its.length ⟨selector, body⟩) (its ++ [.rule selector body])
      (normalize selector) := by
  obtain ⟨hlast, hselector, _, hholds⟩ := Entry.foldl_declare_spec
    { e with last := its.length, selector := selector, count := e.count + 1 } (parse body)
  refine ⟨?_, its, body, [], ?_, hlast, ?_, by simp⟩
  · have hall := hholds _ ⟨h.order_eq, h.values_eq⟩
    rw [Item.bodies_append, Item.bodies_rule, List.flatMap_append, List.flatMap_singleton]
    exact hall
  · rw [show (e.add its.length ⟨selector, body⟩).selector = selector from hselector]
  · rw [show (e.add its.length ⟨selector, body⟩).selector = selector from hselector]

/-- A table has an entry for each normalized selector among the rules, and no other. -/
theorem get?_ofItems (its : List Item) (k : Bytes) :
    (∃ e, (ofItems its).get? k = some e ∧ Describes e its k) ∨
      ((ofItems its).get? k = none ∧ ∀ it ∈ its, it.key? ≠ some k) := by
  -- the table grows item by item, so the induction is on the last one, and it
  -- changes the entry of its own key only
  induction its using List.reverseRecOn with
  | nil => exact Or.inr ⟨rfl, by simp⟩
  | append_singleton its it ih =>
      rw [ofItems_snoc]
      by_cases hit : it.key? = some k
      · cases it with
        | rule selector body =>
            obtain rfl := Option.some.inj hit
            refine Or.inl ⟨_, Dict.get?_insert_self _ _ _, describes_add body ?_⟩
            rcases ih with ⟨e, hget, he⟩ | ⟨hget, hnone⟩
            · rw [hget]
              exact he.holds
            · rw [hget, Item.bodies_eq_nil hnone]
              exact Entry.holds_start _
        | _ => cases hit
      · have hget : ((ofItems its).add its.length it).get? k = (ofItems its).get? k := by
          cases it with
          | rule selector body =>
              exact Dict.get?_insert_of_ne _ _ fun heq => hit (congrArg some heq.symm)
          | _ => rfl
        rw [hget]
        rcases ih with ⟨e, hget, he⟩ | ⟨hget, hnone⟩
        · exact Or.inl ⟨e, hget, he.snoc hit⟩
        · refine Or.inr ⟨hget, fun x hx => ?_⟩
          rcases List.mem_append.mp hx with hx | hx
          · exact hnone x hx
          · rwa [List.mem_singleton.mp hx]

/-- The declarations that a table shows for a selector are those of its rules, merged. -/
theorem declarations_get? (its : List Item) (k : Bytes) :
    ((ofItems its).get? k).map Entry.declarations =
      if ∃ it ∈ its, it.key? = some k then some (Item.declared its k) else none := by
  rcases get?_ofItems its k with ⟨e, hget, he⟩ | ⟨hget, hnone⟩
  · obtain ⟨pre, body, post, hits, _, hkey, _⟩ := he.last
    have hex : ∃ it ∈ its, it.key? = some k :=
      ⟨.rule e.selector body, by rw [hits]; simp, congrArg some hkey⟩
    rw [hget, if_pos hex, Option.map_some, he.holds.declarations_eq]
    rfl
  · rw [hget, if_neg (by simpa using hnone)]
    rfl

end Table

/-! ## The text with its rules merged -/

namespace Item

/-- The items without the rules that a later rule with the same normalized selector follows. -/
def lastRules : List Item → List Item
  | [] => []
  | it :: its =>
    if it.key?.isSome && its.any (fun later => later.key? == it.key?) then lastRules its
    else it :: lastRules its

def reformat (decls : Bytes → List Declaration) : Item → Item
  | .rule selector _ => .rule selector (Declaration.format (decls (normalize selector)))
  | it => it

/-- The items with their rules merged: every rule but the last for its normalized
selector goes, and the last one has the merged declarations as its body. -/
def merged (its : List Item) : List Item := (lastRules its).map (reformat (declared its))

theorem lastRules_sublist (its : List Item) : (lastRules its).Sublist its := by
  induction its with
  | nil => exact .refl _
  | cons it its ih =>
      rw [lastRules]
      split
      · exact ih.cons it
      · exact ih.cons_cons it

theorem key?_reformat (decls : Bytes → List Declaration) (it : Item) :
    (it.reformat decls).key? = it.key? := by
  cases it <;> rfl

theorem lastRules_cons_of_last {it : Item} {its : List Item}
    (h : ∀ k, it.key? = some k → ∀ later ∈ its, later.key? ≠ some k) :
    lastRules (it :: its) = it :: lastRules its := by
  rw [lastRules, if_neg]
  cases hkey : it.key? with
  | none => simp
  | some k => simpa using h k hkey

theorem lastRules_cons_of_later {it : Item} {its : List Item} {k : Bytes} (hkey : it.key? = some k)
    (h : ∃ later ∈ its, later.key? = some k) : lastRules (it :: its) = lastRules its := by
  rw [lastRules, if_pos]
  simpa [hkey] using h

end Item

namespace Output

open Item

/-- The rule at one place is written if it is the last for its selector, and with the
declarations of all of them. -/
theorem piece?_rule (pre post : List Item) (selector body : Bytes) :
    piece? (Table.ofItems (pre ++ .rule selector body :: post)) pre.length (.rule selector body) =
      if ∃ later ∈ post, later.key? = some (normalize selector) then none
      else some (Item.spelling (.rule selector (Declaration.format
        (declared (pre ++ .rule selector body :: post) (normalize selector))))) := by
  rcases Table.get?_ofItems (pre ++ .rule selector body :: post) (normalize selector) with
    ⟨e, hget, he⟩ | ⟨_, hnone⟩
  · obtain ⟨pre', body', post', hsplit, hlast, hkey, hpost'⟩ := he.last
    simp only [piece?, hget, hlast, Int.natCast_inj]
    by_cases hlater : ∃ later ∈ post, later.key? = some (normalize selector)
    · -- the entry stands at a later rule
      rw [if_pos hlater, if_neg]
      intro hlen
      obtain ⟨_, htail⟩ := List.append_inj hsplit hlen.symm
      obtain ⟨later, hmem, hk⟩ := hlater
      exact hpost' later ((List.cons.inj htail).2 ▸ hmem) hk
    · -- no rule behind this one has the key, and the entry stands behind no rule with it
      have hpre : pre' = pre := by
        rcases List.append_eq_append_iff.mp hsplit with ⟨mid, hpre', hrest⟩ | ⟨mid, hpre, hrest⟩
        · rcases mid with _ | ⟨x, mid⟩
          · simpa using hpre'
          · rw [List.cons_append, List.cons.injEq] at hrest
            refine absurd ⟨.rule e.selector body', ?_, congrArg some hkey⟩ hlater
            rw [hrest.2]
            simp
        · rcases mid with _ | ⟨x, mid⟩
          · simpa using hpre.symm
          · rw [List.cons_append, List.cons.injEq] at hrest
            refine absurd rfl (hpost' (.rule selector body) ?_)
            rw [hrest.2]
            simp
      obtain ⟨_, htail⟩ := List.append_inj hsplit (congrArg List.length hpre.symm)
      obtain ⟨hselector, _⟩ := Item.rule.inj (List.cons.inj htail).1
      rw [if_neg hlater, if_pos (congrArg List.length hpre), Entry.format,
        he.holds.declarations_eq, ← hselector]
      simp [spelling, declared]
  · exact absurd rfl (hnone (.rule selector body) (by simp))

/-- Where the table is that of all items, the pieces of the later ones are their last rules, merged,
and all that is no rule. -/
theorem pieces_ofItems (pre its : List Item) :
    (its.zipIdx pre.length).filterMap (fun p => piece? (Table.ofItems (pre ++ its)) p.2 p.1) =
      (((lastRules its).filter (· ≠ .blank)).map (reformat (declared (pre ++ its)))).map
        spelling := by
  induction its generalizing pre with
  | nil => rfl
  | cons it its ih =>
      have hrest := ih (pre ++ [it])
      rw [List.append_assoc, List.singleton_append, List.length_append, List.length_singleton]
        at hrest
      rw [List.zipIdx_cons]
      cases it with
      | rule selector body =>
          have hpiece := piece?_rule pre its selector body
          by_cases hlater : ∃ later ∈ its, later.key? = some (normalize selector)
          · rw [if_pos hlater] at hpiece
            rw [lastRules_cons_of_later rfl hlater, ← hrest]
            exact List.filterMap_cons_none hpiece
          · rw [if_neg hlater] at hpiece
            have hlast : lastRules (.rule selector body :: its) =
                .rule selector body :: lastRules its := by
              refine lastRules_cons_of_last fun k hk later hmem hk' => ?_
              exact hlater ⟨later, hmem, hk'.trans hk.symm⟩
            rw [hlast, List.filter_cons_of_pos (by simp), List.map_cons, List.map_cons, ← hrest]
            exact List.filterMap_cons_some hpiece
      | blank =>
          rw [lastRules_cons_of_last (by rintro k ⟨⟩), List.filter_cons_of_neg (by simp), ← hrest]
          exact List.filterMap_cons_none rfl
      | _ =>
          rw [lastRules_cons_of_last (by rintro k ⟨⟩), List.filter_cons_of_pos (by simp),
            List.map_cons, List.map_cons, ← hrest]
          exact List.filterMap_cons_some (piece?_of_not_rule _ _ rfl (by simp))

end Output

/-- The text of a sheet with its rules merged is its merged items, one a line. -/
theorem Sheet.deduplicated_eq (s : Bytes) :
    (Sheet.scan s).deduplicated = (Item.lines (Item.merged (Sheet.scan s).items)).tail := by
  have hkept : (Item.lastRules (Sheet.scan s).items).filter (· ≠ .blank) =
      Item.lastRules (Sheet.scan s).items := by
    refine List.filter_eq_self.mpr fun it hit => decide_eq_true ?_
    exact scan_ne_blank s it ((Item.lastRules_sublist _).subset hit)
  have hpieces := Output.pieces_ofItems [] (Sheet.scan s).items
  rw [hkept] at hpieces
  rw [← Item.join_spelling, Sheet.deduplicated, Output.render, Output.pieces_eq, Sheet.table,
    Table.ofTokens_eq]
  exact congrArg _ hpieces

end Cascade
