import Cascade.Proofs.Merge.Table

/-!
# Entries, read off the tokens

A table is filled token by token, and every entry changes many times on the way. What an entry
is in the end can be said without that: the rules of its selector have a first and a last one
and a number, and their declarations, one after the other, have properties in an order of first
appearance and a last value for each of them.
-/

namespace Cascade

/-! ## Merged declarations -/

namespace Declaration

theorem eraseDups_snoc (ps : List Bytes) (p : Bytes) :
    (ps ++ [p]).eraseDups = if p ∈ ps then ps.eraseDups else ps.eraseDups ++ [p] := by
  rw [List.eraseDups_append]
  split
  · next hp => simp [List.removeAll, hp]
  · next hp => simp [List.removeAll, hp, List.eraseDups_cons]

/-- Merging keeps the properties in the order in which they first appear. -/
theorem map_property_merge (ds : List Declaration) :
    (merge ds).map property = (ds.map property).eraseDups := by
  induction ds using List.reverseRecOn with
  | nil => rfl
  | append_singleton ds d ih =>
      rw [merge_snoc, map_property_place, ih, List.map_append, List.map_singleton, eraseDups_snoc]
      simp only [List.mem_eraseDups]

def lastValue? (ds : List Declaration) (p : Bytes) : Option Bytes :=
  (ds.filter fun d => d.property = p).getLast?.map value

theorem lastValue?_snoc (ds : List Declaration) (d : Declaration) (p : Bytes) :
    lastValue? (ds ++ [d]) p = if p = d.property then some d.value else lastValue? ds p := by
  unfold lastValue?
  rw [List.filter_append]
  split
  · next hp => simp [hp]
  · next hp => simp [Ne.symm hp]

/-- Merging keeps the last value of every property. -/
theorem get?_merge (ds : List Declaration) (p : Bytes) :
    (Dict.mk ((merge ds).map fun d => (d.property, d.value))).get? p = lastValue? ds p := by
  induction ds using List.reverseRecOn with
  | nil => rfl
  | append_singleton ds d ih =>
      have hinsert : Dict.mk ((merge (ds ++ [d])).map fun d => (d.property, d.value)) =
          (Dict.mk ((merge ds).map fun d => (d.property, d.value))).insert d.property d.value := by
        rw [merge_snoc, ← put_eq_place]
        rfl
      rw [hinsert, lastValue?_snoc]
      split
      · next hp => rw [hp, Dict.get?_insert_self]
      · next hp => rw [Dict.get?_insert_of_ne _ _ hp, ih]

end Declaration

namespace Entry

open Declaration

theorem Holds.order_eraseDups {e : Entry} {ds : List Declaration} (h : e.Holds ds) :
    e.order = (ds.map property).eraseDups :=
  h.order_eq.trans (map_property_merge ds)

theorem Holds.get?_values {e : Entry} {ds : List Declaration} (h : e.Holds ds) (p : Bytes) :
    e.values.get? p = lastValue? ds p := by
  rw [← get?_merge, ← h.values_eq]

theorem first_foldl_declare (e : Entry) (ds : List Declaration) :
    (ds.foldl Entry.declare e).first = e.first := by
  induction ds generalizing e with
  | nil => rfl
  | cons d ds ih => exact ih (e.declare d)

/-- The entry is what rules, each with its index, make of it one after the other. -/
structure Records (e : Entry) (os : List (Nat × Rule)) : Prop where
  first : os.head?.map Prod.fst = some e.first
  last : os.getLast?.map (fun o => ((o.1 : Int), o.2.selector)) = some (e.last, e.selector)
  count : e.count = os.length
  holds : e.Holds (os.flatMap fun o => parse o.2.body)

/-- What one more rule does, whatever it is added to. -/
theorem add_spec (e : Entry) (i : Nat) (r : Rule) :
    (e.add i r).first = e.first ∧ (e.add i r).last = i ∧ (e.add i r).selector = r.selector ∧
      (e.add i r).count = e.count + 1 ∧
      ∀ ds, e.Holds ds → (e.add i r).Holds (ds ++ parse r.body) := by
  obtain ⟨hlast, hselector, hcount, hholds⟩ := foldl_declare_spec
    { e with last := i, selector := r.selector, count := e.count + 1 } (parse r.body)
  exact ⟨first_foldl_declare _ _, hlast, hselector, hcount,
    fun ds h => hholds ds ⟨h.order_eq, h.values_eq⟩⟩

theorem Records.add {e : Entry} {os : List (Nat × Rule)} (h : e.Records os) (i : Nat) (r : Rule) :
    (e.add i r).Records (os ++ [(i, r)]) := by
  obtain ⟨hfirst, hlast, hselector, hcount, hholds⟩ := add_spec e i r
  refine ⟨?_, ?_, ?_, ?_⟩
  · rw [hfirst, List.head?_append, Option.map_or, h.first, Option.some_or]
  · rw [List.getLast?_concat, Option.map_some, hlast, hselector]
  · rw [hcount, h.count, List.length_append, List.length_singleton]
  · rw [List.flatMap_append, List.flatMap_singleton]
    exact hholds _ h.holds

theorem records_start (i : Nat) (r : Rule) : ((start i).add i r).Records [(i, r)] := by
  obtain ⟨hfirst, hlast, hselector, hcount, hholds⟩ := add_spec (start i) i r
  refine ⟨?_, ?_, ?_, ?_⟩
  · rw [hfirst]
    rfl
  · rw [hlast, hselector]
    rfl
  · rw [hcount]
    rfl
  · rw [List.flatMap_singleton]
    exact hholds [] (holds_start i)

end Entry

/-! ## Rules and their indexes -/

def Token.ruleFor? (k : Bytes) (t : Token) : Option Rule :=
  t.item.rule?.filter fun r => normalize r.selector = k

def occurrences (k : Bytes) (ts : List Token) : List (Nat × Rule) :=
  ts.zipIdx.filterMap fun p => (p.1.ruleFor? k).map fun r => (p.2, r)

theorem occurrences_snoc (k : Bytes) (ts : List Token) (t : Token) :
    occurrences k (ts ++ [t]) =
      occurrences k ts ++ ((t.ruleFor? k).map fun r => (ts.length, r)).toList := by
  unfold occurrences
  rw [List.zipIdx_append, List.filterMap_append, Nat.zero_add, List.zipIdx_singleton]
  simp only [List.filterMap_cons, List.filterMap_nil]
  cases t.ruleFor? k <;> rfl

theorem ruleFor?_eq_some {k : Bytes} {t : Token} {r : Rule} :
    t.ruleFor? k = some r ↔ t.item.rule? = some r ∧ normalize r.selector = k := by
  unfold Token.ruleFor?
  rw [Option.filter_eq_some_iff, decide_eq_true_eq]

theorem mem_occurrences {k : Bytes} {ts : List Token} {i : Nat} {r : Rule} :
    (i, r) ∈ occurrences k ts ↔
      ∃ t, ts[i]? = some t ∧ t.item.rule? = some r ∧ normalize r.selector = k := by
  unfold occurrences
  rw [List.mem_filterMap]
  constructor
  · rintro ⟨⟨t, j⟩, hmem, hrule⟩
    obtain ⟨r', hr', heq⟩ := Option.map_eq_some_iff.mp hrule
    cases heq
    exact ⟨t, List.mem_zipIdx_iff_getElem?.mp hmem, ruleFor?_eq_some.mp hr'⟩
  · rintro ⟨t, ht, hrule⟩
    exact ⟨(t, i), List.mem_zipIdx_iff_getElem?.mpr ht, by rw [ruleFor?_eq_some.mpr hrule]; rfl⟩

theorem pairwise_occurrences (k : Bytes) (ts : List Token) :
    (occurrences k ts).Pairwise fun o o' => o.1 < o'.1 := by
  induction ts using List.reverseRecOn with
  | nil => exact List.Pairwise.nil
  | append_singleton ts t ih =>
      rw [occurrences_snoc]
      refine List.pairwise_append.mpr ⟨ih, ?_, ?_⟩
      · cases t.ruleFor? k <;> simp
      · rintro ⟨i, r⟩ hmem o ho
        obtain ⟨_, hi, _⟩ := mem_occurrences.mp hmem
        obtain ⟨r', _, rfl⟩ := Option.map_eq_some_iff.mp (Option.mem_toList.mp ho)
        exact (List.getElem?_eq_some_iff.mp hi).1

namespace Table

theorem ofTokens_snoc (ts : List Token) (t : Token) :
    ofTokens (ts ++ [t]) = (ofTokens ts).add ts.length t.item := by
  rw [ofTokens_eq, ofTokens_eq, List.map_append, List.map_singleton, ofItems_snoc, List.length_map]

/-- The entry of a selector records its rules, and there is one if there is a rule. -/
theorem get?_ofTokens (ts : List Token) (k : Bytes) :
    (∃ e, (ofTokens ts).get? k = some e ∧ e.Records (occurrences k ts)) ∨
      ((ofTokens ts).get? k = none ∧ occurrences k ts = []) := by
  induction ts using List.reverseRecOn with
  | nil => exact Or.inr ⟨rfl, rfl⟩
  | append_singleton ts t ih =>
      rw [ofTokens_snoc, occurrences_snoc]
      cases hrule : t.item.rule? with
      | none =>
          have hnone : t.ruleFor? k = none := by
            unfold Token.ruleFor?
            rw [hrule]
            rfl
          rw [hnone, Option.map_none, Option.toList_none, List.append_nil, add, hrule]
          exact ih
      | some r =>
          rw [add, hrule]
          dsimp only
          by_cases hk : normalize r.selector = k
          · rw [ruleFor?_eq_some.mpr ⟨hrule, hk⟩, hk]
            refine Or.inl ⟨_, Dict.get?_insert_self _ _ _, ?_⟩
            rcases ih with ⟨e, hget, he⟩ | ⟨hget, hempty⟩
            · rw [hget]
              exact he.add ts.length r
            · rw [hget, hempty]
              exact Entry.records_start ts.length r
          · have hnone : t.ruleFor? k = none := by
              rw [Option.eq_none_iff_forall_ne_some]
              intro r' hr'
              obtain ⟨hsame, hkey⟩ := ruleFor?_eq_some.mp hr'
              exact hk (Option.some.inj (hrule.symm.trans hsame) ▸ hkey)
            rw [hnone, Option.map_none, Option.toList_none, List.append_nil,
              Dict.get?_insert_of_ne _ _ (Ne.symm hk)]
            exact ih

theorem nodup_keys_ofTokens (ts : List Token) : (ofTokens ts).keys.Nodup := by
  induction ts using List.reverseRecOn with
  | nil => exact List.nodup_nil
  | append_singleton ts t ih =>
      rw [ofTokens_snoc, add]
      split
      · exact ih
      · exact Dict.nodup_keys_insert ih _ _

end Table

/-- The table of any tokens has one entry for each normalized selector among their rules. With the
rules of that selector in order, and all they declare one after the other: the entry has the
indexes of the first and of the last rule, their number and the last spelling of the selector; it
has the properties in the order of their first appearance, each once, and for these and no others
a value, which is that of the last declaration of the property. -/
theorem Sheet.table_declarative (sheet : Sheet) :
    sheet.table.keys.Nodup ∧
    (∀ k, k ∈ sheet.table.keys ↔
      ∃ t ∈ sheet.tokens, ∃ r, t.item.rule? = some r ∧ normalize r.selector = k) ∧
    ∀ k ∈ sheet.table.keys, ∃ (e : Entry) (os : List (Nat × Rule)) (ds : List Declaration),
      sheet.table.get? k = some e ∧
      (∀ i r, (i, r) ∈ os ↔
        ∃ t, sheet.tokens[i]? = some t ∧ t.item.rule? = some r ∧ normalize r.selector = k) ∧
      (os.Pairwise fun o o' => o.1 < o'.1) ∧
      ds = os.flatMap (fun o => Declaration.parse o.2.body) ∧
      os.head?.map Prod.fst = some e.first ∧
      os.getLast?.map (fun o => ((o.1 : Int), o.2.selector)) = some (e.last, e.selector) ∧
      e.count = os.length ∧
      e.order = (ds.map Declaration.property).eraseDups ∧
      (∀ p, p ∈ e.values.keys ↔ p ∈ e.order) ∧
      (∀ p, e.values.get? p = Declaration.lastValue? ds p) ∧
      e.declarations.map (fun d => (d.property, some d.value)) =
        e.order.map fun p => (p, Declaration.lastValue? ds p) := by
  have hkeys : ∀ k, k ∈ sheet.table.keys ↔ ∃ t ∈ sheet.tokens, ∃ r, t.item.rule? = some r ∧
      normalize r.selector = k := by
    intro k
    rw [Dict.mem_keys_iff]
    rcases Table.get?_ofTokens sheet.tokens k with ⟨e, hget, he⟩ | ⟨hget, hempty⟩
    · refine ⟨fun _ => ?_, fun _ => ⟨e, hget⟩⟩
      obtain ⟨⟨i, r⟩, hhead, _⟩ := Option.map_eq_some_iff.mp he.first
      obtain ⟨t, ht, hrule⟩ := mem_occurrences.mp (List.mem_of_head? hhead)
      exact ⟨t, List.mem_of_getElem? ht, r, hrule⟩
    · refine ⟨fun ⟨e, he⟩ => (Option.some_ne_none e (he.symm.trans hget)).elim, ?_⟩
      rintro ⟨t, ht, r, hrule⟩
      obtain ⟨i, hi⟩ := List.mem_iff_getElem?.mp ht
      have hmem := mem_occurrences.mpr ⟨t, hi, hrule⟩
      rw [hempty] at hmem
      exact absurd hmem List.not_mem_nil
  refine ⟨Table.nodup_keys_ofTokens sheet.tokens, hkeys, ?_⟩
  intro k hk
  obtain ⟨e', he'⟩ := Dict.mem_keys_iff.mp hk
  rcases Table.get?_ofTokens sheet.tokens k with ⟨e, hget, he⟩ | ⟨hget, _⟩
  · have hdomain : ∀ p, p ∈ e.values.keys ↔ p ∈ e.order := by
      intro p
      rw [Dict.keys, he.holds.values_eq, he.holds.order_eq, List.map_map]
      rfl
    refine ⟨e, occurrences k sheet.tokens, _, hget, fun i r => mem_occurrences,
      pairwise_occurrences k sheet.tokens, rfl, he.first, he.last, he.count,
      he.holds.order_eraseDups, hdomain, he.holds.get?_values, ?_⟩
    unfold Entry.declarations
    rw [List.map_map]
    refine List.map_congr_left fun p hp => ?_
    obtain ⟨v, hv⟩ := Dict.mem_keys_iff.mp ((hdomain p).mpr hp)
    simp [← he.holds.get?_values, hv]
  · exact (Option.some_ne_none e' (he'.symm.trans hget)).elim

/-- Two spellings of one selector with another rule between them. -/
theorem Sheet.table_declarative_spellings :
    let sheet : Sheet := ⟨[⟨.comment (text "/**/"), 0⟩, ⟨.rule (text "a b") (text "x:1;y:2"), 4⟩,
      ⟨.rule (text "b") [], 20⟩, ⟨.rule (text "a  b") (text ":q;x:3"), 30⟩], []⟩
    text "a b" ∈ sheet.table.keys ∧ ∃ e, sheet.table.get? (text "a b") = some e ∧
      e.order = [text "x", text "y", []] ∧ ∀ p, p ∈ e.values.keys ↔ p ∈ e.order := by
  intro sheet
  have hkey : text "a b" ∈ sheet.table.keys := by decide +kernel
  obtain ⟨e, os, ds, hget, _, _, _, _, _, _, _, hdomain, _⟩ :=
    (Sheet.table_declarative sheet).2.2 _ hkey
  refine ⟨hkey, e, hget, ?_, hdomain⟩
  have horder : (sheet.table.get? (text "a b")).map Entry.order =
      some [text "x", text "y", []] := by decide +kernel
  rw [hget] at horder
  exact Option.some.inj horder

end Cascade
