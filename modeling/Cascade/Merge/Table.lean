import Cascade.Dict
import Cascade.Sheet.Declaration
import Cascade.Sheet.Scan

/-!
# The table of merged rules

All rules with one normalized selector merge into one entry. A property keeps
the place where it first appeared, and its last value wins.
-/

namespace Cascade

/-- The merged state of the rules that share a selector. -/
structure Entry where
  /-- Index of the first such token. -/
  first : Nat
  /-- Index of the token at whose place the merged rule stands. A table edited by
  hand may name an index that no token has. -/
  last : Int
  count : Nat
  /-- The selector as the last rule spells it. -/
  selector : Bytes
  /-- The properties in order of first appearance. -/
  order : List Bytes
  /-- The latest value of each property. -/
  values : Dict Bytes Bytes
deriving DecidableEq

abbrev Table : Type := Dict Bytes Entry

namespace Entry

/-- The merged declarations. A property without a value shows an empty one. -/
def declarations (e : Entry) : List Declaration :=
  e.order.map fun p => ⟨p, (e.values.get? p).getD []⟩

def declare (e : Entry) (d : Declaration) : Entry :=
  { e with
    order := if e.values.contains d.property then e.order else e.order ++ [d.property]
    values := e.values.insert d.property d.value }

/-- An entry before any rule has been merged into it. -/
def start (index : Nat) : Entry := ⟨index, index, 0, [], [], ∅⟩

/-- Takes one more rule in, the token at `index`. -/
def add (e : Entry) (index : Nat) (rule : Rule) : Entry :=
  (Declaration.parse rule.body).foldl declare
    { e with last := index, selector := rule.selector, count := e.count + 1 }

end Entry

namespace Table

/-- Takes the token at `index` into account. Only rules matter. -/
def add (table : Table) (index : Nat) (item : Item) : Table :=
  match item.rule? with
  | none => table
  | some rule =>
    let key := normalize rule.selector
    table.insert key (((table.get? key).getD (.start index)).add index rule)

def ofTokens (tokens : List Token) : Table :=
  tokens.zipIdx.foldl (fun table p => add table p.2 p.1.item) ∅

/-- How many rules go away when every entry is written once. -/
def merged (table : Table) : Nat := (table.values.map fun e => e.count - 1).foldr (· + ·) 0

end Table

def Sheet.table (sheet : Sheet) : Table := Table.ofTokens sheet.tokens

end Cascade
