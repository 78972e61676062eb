import Std.Data.ExtTreeMap

/-!
# Handles

Nodes, terminals, edges and variables refer to one another all the way round, so none of them
holds another. Each lives in a list of its graph, and the others name it by a handle: its
place in that list. A handle of a node or a variable also carries the graph that issued it,
so that a handle of one graph is not taken for a handle of another. The messages and
documents of this library call a terminal an *interface* and a region a *subgraph*.

A place is any natural number here, while documents write and read it as a number of 32 bits. A
program that keeps its places in 32 bits agrees with this library as long as no list grows beyond
`2 ^ 32` things; what it makes of a place beyond that is not said.

## Main definitions

* `GraphId`, `NodeId`, `VariableId`: The identity of a graph and the handles that carry it.
* `TerminalId`, `EdgeId`, `RegionId`, `RuleId`: The handles that are a bare place.
* `TerminalId.text` and its like: How messages spell a handle.

## Theorems

* `TerminalId.eq_of_index_eq`: Terminals in the same place are the same.
* `compare_index_eq`: Handles that compare equal are equal, for each kind that is ordered.
* `TerminalId.isLE_compare`: Terminals are compared by their places.
-/

namespace MessagePlan

/-- The identity of a graph; copies of a graph keep it. -/
structure GraphId where
  number : Nat
deriving DecidableEq, Hashable, Inhabited, Repr

/-- A node, by the graph that issued the handle and its place among the graph's nodes. -/
structure NodeId where
  graph : GraphId
  slot : Nat
deriving DecidableEq, Hashable, Inhabited, Repr

/-- A variable, by the graph that issued the handle and its place among the graph's
    variables. -/
structure VariableId where
  graph : GraphId
  slot : Nat
deriving DecidableEq, Hashable, Inhabited, Repr

/-- A terminal, by its place among the graph's terminals. -/
structure TerminalId where
  index : Nat
deriving DecidableEq, Hashable, Inhabited, Repr

/-- An edge, by its place among the graph's edges. -/
structure EdgeId where
  index : Nat
deriving DecidableEq, Hashable, Inhabited, Repr

/-- A region, by its place in the partition. -/
structure RegionId where
  index : Nat
deriving DecidableEq, Hashable, Inhabited, Repr

/-- A rule, by its place in the catalog. -/
structure RuleId where
  index : Nat
deriving DecidableEq, Hashable, Inhabited, Repr

instance : Ord TerminalId := ⟨compareOn TerminalId.index⟩

instance : Ord EdgeId := ⟨compareOn EdgeId.index⟩

instance : Ord RuleId := ⟨compareOn RuleId.index⟩

instance : Std.TransOrd TerminalId := inferInstanceAs (Std.TransCmp (compareOn TerminalId.index))

instance : Std.TransOrd EdgeId := inferInstanceAs (Std.TransCmp (compareOn EdgeId.index))

instance : Std.TransOrd RuleId := inferInstanceAs (Std.TransCmp (compareOn RuleId.index))

/-- Terminals in the same place are the same. -/
theorem TerminalId.eq_of_index_eq {a b : TerminalId} (h : a.index = b.index) : a = b := by
  cases a; cases b
  exact congrArg TerminalId.mk h

/-- Terminals that compare equal are equal. -/
theorem TerminalId.compare_index_eq {a b : TerminalId} (h : compare a b = .eq) : a = b :=
  TerminalId.eq_of_index_eq (Nat.compare_eq_eq.1 h)

/-- Terminals are compared by their places. -/
theorem TerminalId.isLE_compare {a b : TerminalId} :
    (compare a b).isLE = true ↔ a.index ≤ b.index :=
  Nat.isLE_compare

/-- Edges that compare equal are equal. -/
theorem EdgeId.compare_index_eq {a b : EdgeId} (h : compare a b = .eq) : a = b := by
  cases a; cases b
  exact congrArg EdgeId.mk (Nat.compare_eq_eq.1 h)

/-- Rules that compare equal are equal. -/
theorem RuleId.compare_index_eq {a b : RuleId} (h : compare a b = .eq) : a = b := by
  cases a; cases b
  exact congrArg RuleId.mk (Nat.compare_eq_eq.1 h)

instance : Std.LawfulEqOrd TerminalId := ⟨TerminalId.compare_index_eq⟩

instance : Std.LawfulEqOrd EdgeId := ⟨EdgeId.compare_index_eq⟩

instance : Std.LawfulEqOrd RuleId := ⟨RuleId.compare_index_eq⟩

/-- How messages spell a terminal. -/
def TerminalId.text (p : TerminalId) : String := "InterfaceId(" ++ Nat.repr p.index ++ ")"

/-- How messages spell an edge. -/
def EdgeId.text (e : EdgeId) : String := "EdgeId(" ++ Nat.repr e.index ++ ")"

/-- How messages spell a region. -/
def RegionId.text (r : RegionId) : String := "SubgraphId(" ++ Nat.repr r.index ++ ")"

/-- How messages spell a graph and a place in it, after the name of what is there. -/
def GraphId.textWith (g : GraphId) (name : String) (slot : Nat) : String :=
  name ++ " \x7b graph: GraphId(" ++ Nat.repr g.number ++ "), slot: " ++ Nat.repr slot ++ " \x7d"

/-- How messages spell a node. -/
def NodeId.text (n : NodeId) : String := n.graph.textWith "NodeId" n.slot

/-- How messages spell a variable. -/
def VariableId.text (v : VariableId) : String := v.graph.textWith "VariableId" v.slot

end MessagePlan
