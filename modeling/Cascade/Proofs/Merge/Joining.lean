import Cascade.Proofs.Merge.Table

/-!
# Merging rules and joining their bodies

The rules of one selector declare, one after the other, what a single rule declares whose body is
their bodies with semicolons in between. An open comment would take in what follows it, but only
the last item of a source can have one: every other block has been closed behind its comments.
-/

namespace Cascade

open Lexeme Scan

/-! ## Joining bodies -/

namespace Declaration

theorem stripComments_append {a b : Bytes} (ha : ∀ l ∈ ofBytes a, l.isOpen = false)
    (hb : b.head? ≠ some star) : stripComments (a ++ b) = stripComments a ++ stripComments b := by
  rw [stripComments, ofBytes_append ha hb, List.flatMap_append]
  rfl

theorem stripComments_semicolon (b : Bytes) :
    stripComments (semicolon :: b) = semicolon :: stripComments b := by
  have hread : ofBytes (semicolon :: b) = .code semicolon :: ofBytes b :=
    ofBytes_code_append (u := [semicolon]) (by decide) b
  rw [stripComments, hread]
  rfl

/-- Behind a body without an open comment, a semicolon starts anew. -/
theorem parse_append {a : Bytes} (ha : ∀ l ∈ ofBytes a, l.isOpen = false) (b : Bytes) :
    parse (a ++ semicolon :: b) = parse a ++ parse b := by
  rw [parse, stripComments_append ha (by simp; decide), stripComments_semicolon,
    List.splitOn_append_cons_self, List.filterMap_append]
  rfl

theorem parse_join {bs : List Bytes}
    (h : ∀ b ∈ bs.dropLast, ∀ l ∈ ofBytes b, l.isOpen = false) :
    parse (Bytes.join (text ";") bs) = bs.flatMap parse := by
  induction bs with
  | nil => rfl
  | cons b bs ih =>
      cases bs with
      | nil => simp [Bytes.join]
      | cons b' bs =>
          rw [List.dropLast_cons_cons] at h
          have hrest := ih fun x hx => h x (List.mem_cons_of_mem _ hx)
          rw [Bytes.join, List.intercalate_cons_cons, List.append_assoc, ← Bytes.join]
          rw [List.flatMap_cons, ← hrest]
          exact parse_append (h b List.mem_cons_self) _

end Declaration

/-! ## The bodies of a scan -/

theorem Item.bodies_cons (k : Bytes) (it : Item) (its : List Item) :
    Item.bodies k (it :: its) = Item.bodies k [it] ++ Item.bodies k its :=
  Item.bodies_append k [it] its

theorem Item.bodies_singleton (k : Bytes) (it : Item) :
    Item.bodies k [it] = [] ∨ ∃ selector body, it = .rule selector body ∧ Item.bodies k [it] = [body] := by
  cases it with
  | rule selector body =>
      by_cases hk : normalize selector = k
      · exact Or.inr ⟨selector, body, rfl, by simp [bodies, hk]⟩
      · exact Or.inl (by simp [bodies, hk])
  | _ => exact Or.inl rfl

/-- All bodies but the last are those of rules that are not the last item. -/
theorem Lineup.dropLast_bodies {each last : Item → Prop} {its : List Item} (h : Lineup each last its)
    (k : Bytes) : ∀ body ∈ (Item.bodies k its).dropLast, ∃ selector, each (.rule selector body) := by
  induction h with
  | nil => simp [Item.bodies]
  | @last it _ =>
      rcases Item.bodies_singleton k it with hnone | ⟨_, _, _, hone⟩
      · simp [hnone]
      · simp [hone]
  | @cons it its hit _ ih =>
      rw [Item.bodies_cons]
      rcases Item.bodies_singleton k it with hnone | ⟨selector, body, rfl, hone⟩
      · rw [hnone]
        exact ih
      · rw [hone, List.singleton_append]
        intro b hb
        cases hbs : Item.bodies k its with
        | nil => simp [hbs] at hb
        | cons b' bs =>
            rw [hbs] at hb ih
            rcases List.mem_cons.mp hb with rfl | hb
            · exact ⟨selector, hit⟩
            · exact ih b hb

/-- Only the last body of a selector can have an open comment. -/
theorem Sheet.dropLast_bodies (s k : Bytes) :
    ∀ body ∈ (Item.bodies k (Sheet.scan s).items).dropLast, ∀ l ∈ ofBytes body, l.isOpen = false := by
  intro body hbody
  obtain ⟨selector, hclosed⟩ := (lineup_scan s).dropLast_bodies k body hbody
  exact hclosed.2.isOpen_eq_false

/-- Merging rules is joining their bodies. The entry of a selector declares what any single rule
declares whose body is the bodies of its rules with semicolons in between; and of two bodies that
follow each other, with a semicolon in between, the declarations follow each other. -/
theorem Sheet.declarations_joined (s k : Bytes) (e : Entry)
    (h : (Sheet.scan s).table.get? k = some e) :
    (∀ selector offset, ∃ e', (Table.ofTokens [⟨.rule selector
        (Bytes.join (text ";") (Item.bodies k (Sheet.scan s).items)), offset⟩]).get?
        (normalize selector) = some e' ∧ e'.declarations = e.declarations) ∧
    ∀ i b b', (Item.bodies k (Sheet.scan s).items)[i]? = some b →
      (Item.bodies k (Sheet.scan s).items)[i + 1]? = some b' →
      Declaration.parse (b ++ text ";" ++ b') = Declaration.parse b ++ Declaration.parse b' := by
  have hopen := Sheet.dropLast_bodies s k
  constructor
  · intro selector offset
    have hmerged : e.declarations = Item.declared (Sheet.scan s).items k := by
      have hget := Table.declarations_get? (Sheet.scan s).items k
      rw [Sheet.table, Table.ofTokens_eq] at h
      rw [Sheet.items, h, Option.map_some] at hget
      split at hget
      · exact Option.some.inj hget
      · cases hget
    have hsingle := Table.declarations_get?
      [.rule selector (Bytes.join (text ";") (Item.bodies k (Sheet.scan s).items))]
      (normalize selector)
    rw [if_pos ⟨_, List.mem_cons_self, rfl⟩] at hsingle
    obtain ⟨e', hget, hdeclarations⟩ := Option.map_eq_some_iff.mp hsingle
    refine ⟨e', by rw [Table.ofTokens_eq]; exact hget, ?_⟩
    rw [hdeclarations, hmerged, Item.declared, Item.declared, Item.bodies_rule,
      List.flatMap_singleton, Declaration.parse_join hopen]
  · intro i b b' hb hb'
    have hmem : b ∈ (Item.bodies k (Sheet.scan s).items).dropLast := by
      have hlt := (List.getElem?_eq_some_iff.mp hb').1
      refine List.mem_of_getElem? (i := i) ?_
      rw [List.getElem?_dropLast, if_pos (by omega), hb]
    rw [List.append_assoc]
    exact Declaration.parse_append (hopen b hmem) b'

/-- Three spellings of one selector. The first body has a comment with a semicolon and no semicolon
at its end, the second an inner block, and the last one a comment that never closes. -/
theorem Sheet.declarations_joined_open :
    let s := text "a b\x7bp:1/*;*/\x7d@m\x7b\x7d a  b\x7bq\x7br:2\x7d;p:3\x7d a\tb\x7bs:4;t:/*5"
    ∃ e, (Sheet.scan s).table.get? (text "a b") = some e ∧
      Item.bodies (text "a b") (Sheet.scan s).items =
        [text "p:1/*;*/", text "q\x7br:2\x7d;p:3", text "s:4;t:/*5"] ∧
      Declaration.parse (text "p:1/*;*/" ++ text ";" ++ text "q\x7br:2\x7d;p:3") =
        [⟨text "p", text "1"⟩, ⟨text "q\x7br", text "2\x7d"⟩, ⟨text "p", text "3"⟩] ∧
      ∃ e', (Table.ofTokens [⟨.rule (text "c")
        (text "p:1/*;*/;q\x7br:2\x7d;p:3;s:4;t:/*5"), 7⟩]).get? (text "c") = some e' ∧
        e'.declarations = e.declarations := by
  intro s
  have hsome : ((Sheet.scan s).table.get? (text "a b")).isSome = true := by decide +kernel
  obtain ⟨e, he⟩ := Option.isSome_iff_exists.mp hsome
  have hbodies : Item.bodies (text "a b") (Sheet.scan s).items =
      [text "p:1/*;*/", text "q\x7br:2\x7d;p:3", text "s:4;t:/*5"] := by decide +kernel
  obtain ⟨hjoined, hpairs⟩ := Sheet.declarations_joined s (text "a b") e he
  rw [hbodies] at hjoined hpairs
  refine ⟨e, he, hbodies, ?_, ?_⟩
  · rw [hpairs 0 _ _ rfl rfl]
    decide +kernel
  · obtain ⟨e', hget, heq⟩ := hjoined (text "c") 7
    have hkey : normalize (text "c") = text "c" := by decide +kernel
    rw [hkey] at hget
    exact ⟨e', hget, heq⟩

end Cascade
