import MessagePlan.Failure
import MessagePlan.Handle
import MessagePlan.Value

/-!
# Factor Graphs

A factor graph has nodes with terminals, and edges that join two terminals each; a variable
is a label that several edges may share. The graph owns all of them in four lists, and they
refer to one another by handles. Beside the lists it keeps, for each kind of node, the roles
of its terminals and the last number used in a generated name, and it keeps an index from
names to nodes and to variables.

The index is not part of a graph's document: a graph read from one knows no name until the
index is built again.

## Main definitions

* `Terminal`, `Node`, `Edge`, `Variable`, `Graph`: What a factor graph is made of.
* `Graph.terminal`, `Graph.node`, `Graph.edge`, `Graph.ownerOf`: What a trusted handle names.
* `Graph.hasNode`, `Graph.hasVariable`, `Graph.hasTerminal`, `Graph.hasEdge`: Whether a handle
  names something here.
* `Graph.label`: How messages name a terminal.
* `Graph.reindexed`: A graph with its index of names built again.

## Theorems

* `terminal_eq_of_hasTerminal`: A terminal that the graph has is found.
-/

namespace MessagePlan

/-- One terminal of a node, with the edge and the terminal at its other end if it is
    connected, and the message it holds if there is one. -/
structure Terminal where
  node : NodeId
  role : String
  edge : Option EdgeId
  partner : Option TerminalId
  message : Option Message
deriving DecidableEq, Inhabited

/-- A node: its terminals in the declared order, its literal if it produces a constant, and
    auxiliary parameters. -/
structure Node where
  name : String
  kind : String
  terminals : List TerminalId
  constant : Option Value
  params : List (String × Value)
deriving DecidableEq, Inhabited

/-- A channel between two terminals, labelled by a variable or not. -/
structure Edge where
  name : String
  a : TerminalId
  b : TerminalId
  label : Option VariableId
deriving DecidableEq, Inhabited

/-- A label that edges share. -/
structure Variable where
  name : String
  edges : Array EdgeId
deriving DecidableEq, Inhabited

/-- A factor graph. -/
structure Graph where
  id : GraphId
  nodes : Array Node
  terminals : Array Terminal
  edges : Array Edge
  vars : Array Variable
  counters : Std.ExtTreeMap String Nat
  kindRoles : Std.ExtTreeMap String (List String)
  nodeNames : Std.ExtTreeMap String NodeId
  variableNames : Std.ExtTreeMap String VariableId
deriving DecidableEq

/-- Whether a node produces a constant. -/
def Node.isConstant (n : Node) : Bool := n.constant.isSome

/-- The parameter of a node with a given key. -/
def Node.param? (n : Node) (key : String) : Option Value := n.params.lookup key

/-- The side of an edge opposite to a terminal, if the terminal is one of its sides. -/
def Edge.opposite? (e : Edge) (p : TerminalId) : Option TerminalId :=
  if e.a = p then some e.b else if e.b = p then some e.a else none

namespace Graph

/-- The graph without nodes. -/
def empty (id : GraphId) : Graph :=
  { id, nodes := #[], terminals := #[], edges := #[], vars := #[], counters := ∅,
    kindRoles := ∅, nodeNames := ∅, variableNames := ∅ }

instance : Inhabited Graph := ⟨empty default⟩

/-- Whether the graph, or a copy of it, issued the handle of a node. -/
def hasNode (g : Graph) (n : NodeId) : Bool := n.graph == g.id && decide (n.slot < g.nodes.size)

/-- Whether the graph, or a copy of it, issued the handle of a variable. -/
def hasVariable (g : Graph) (v : VariableId) : Bool :=
  v.graph == g.id && decide (v.slot < g.vars.size)

/-- Whether the graph has a terminal. -/
def hasTerminal (g : Graph) (p : TerminalId) : Bool := decide (p.index < g.terminals.size)

/-- Whether the graph has an edge. -/
def hasEdge (g : Graph) (e : EdgeId) : Bool := decide (e.index < g.edges.size)

section Trusted

variable {ε : Type}

/-- The node in a handle's place, whichever graph issued the handle. -/
def node (g : Graph) (n : NodeId) : Except (Failure ε) Node := handled g.nodes[n.slot]?

/-- The terminal that a handle names. -/
def terminal (g : Graph) (p : TerminalId) : Except (Failure ε) Terminal :=
  handled g.terminals[p.index]?

/-- The edge that a handle names. -/
def edge (g : Graph) (e : EdgeId) : Except (Failure ε) Edge := handled g.edges[e.index]?

/-- The variable in a handle's place, whichever graph issued the handle. -/
def variableAt (g : Graph) (v : VariableId) : Except (Failure ε) Variable :=
  handled g.vars[v.slot]?

/-- The node that a terminal belongs to. -/
def ownerOf (g : Graph) (p : TerminalId) : Except (Failure ε) Node := do
  g.node (← g.terminal p).node

/-- The literal of the node that a terminal belongs to. -/
def constantAt (g : Graph) (p : TerminalId) : Except (Failure ε) (Option Value) := do
  return (← g.ownerOf p).constant

/-- Whether a terminal holds a message. -/
def hasMessage (g : Graph) (p : TerminalId) : Except (Failure ε) Bool := do
  return (← g.terminal p).message.isSome

/-- How messages name a terminal: by its node and its role. -/
def label (g : Graph) (p : TerminalId) : Except (Failure ε) String :=
  match g.terminals[p.index]? with
  | some terminal => do return (← g.node terminal.node).name ++ "." ++ terminal.role
  | none => .ok ("<unknown interface " ++ Nat.repr p.index ++ ">")

end Trusted

/-- The node of a name. -/
def nodeNamed? (g : Graph) (name : String) : Option NodeId := g.nodeNames[name]?

/-- The variable of a name. -/
def variableNamed? (g : Graph) (name : String) : Option VariableId := g.variableNames[name]?

/-- All the edges. -/
def edgeIds (g : Graph) : List EdgeId := (List.range g.edges.size).map EdgeId.mk

/-- All the terminals. -/
def terminalIds (g : Graph) : List TerminalId := (List.range g.terminals.size).map TerminalId.mk

/-- An index from the names of some items to their places; a repeated name leads to its
    last holder. -/
def indexed {ι : Type} (names : List String) (handle : Nat → ι) : Std.ExtTreeMap String ι :=
  names.zipIdx.foldl (fun index entry => index.insert entry.1 (handle entry.2)) ∅

/-- The graph with its index of names built from the names of its nodes and variables. -/
def reindexed (g : Graph) : Graph :=
  { g with
    nodeNames := indexed (g.nodes.toList.map Node.name) (NodeId.mk g.id)
    variableNames := indexed (g.vars.toList.map Variable.name) (VariableId.mk g.id) }

/-- The terminals of a graph are those in its list. -/
theorem hasTerminal_iff {g : Graph} {p : TerminalId} :
    g.hasTerminal p = true ↔ p.index < g.terminals.size := by
  simp only [hasTerminal, decide_eq_true_eq]

/-- All the terminals are those that the graph has. -/
theorem mem_terminalIds {g : Graph} {p : TerminalId} :
    p ∈ g.terminalIds ↔ g.hasTerminal p = true := by
  rw [hasTerminal_iff, terminalIds, List.mem_map]
  constructor
  · rintro ⟨i, hi, rfl⟩
    exact List.mem_range.1 hi
  · intro hp
    exact ⟨p.index, List.mem_range.2 hp, rfl⟩

/-- A terminal in the list is found. -/
theorem terminal_eq_of_lt {ε : Type} {g : Graph} {p : TerminalId} (h : p.index < g.terminals.size) :
    (g.terminal p : Except (Failure ε) Terminal) = .ok g.terminals[p.index] := by
  simp only [terminal, Array.getElem?_eq_getElem h, handled_some]

/-- A terminal that the graph has is found. -/
theorem terminal_eq_of_hasTerminal {ε : Type} {g : Graph} {p : TerminalId}
    (h : g.hasTerminal p = true) :
    ∃ terminal, (g.terminal p : Except (Failure ε) Terminal) = .ok terminal :=
  ⟨_, terminal_eq_of_lt (hasTerminal_iff.1 h)⟩

end Graph

end MessagePlan
