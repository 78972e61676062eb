import MessagePlan.Distinct
import MessagePlan.Graph.Basic
import Std.Data.ExtTreeSet

/-!
# Regions

A region is a set of edges of a graph, together with the edges outside it that touch its
nodes, and the order in which its messages are computed. A region owns the terminals on its
edges; a terminal without an edge is owned by every region that touches its node.

Regions are read from documents too, and then their edges need not exist in the graph at
hand: asking about such a region can meet a handle that names nothing.

## Main definitions

* `Region`: Inner and outer edges, and a schedule.
* `Region.touches`, `Region.owns`: Which nodes and terminals belong to it.
* `Region.nodes`: Its nodes, in the order in which its edges lead to them.
* `Region.boundary`: Those of its nodes that touch an outer edge.
-/

namespace MessagePlan

/-- A region of a graph. -/
structure Region where
  id : RegionId
  inner : Std.ExtTreeSet EdgeId
  outer : Std.ExtTreeSet EdgeId
  schedule : List TerminalId
deriving DecidableEq

namespace Region

variable {ε : Type}

/-- The region with some inner edges and nothing else. -/
def ofEdges (id : RegionId) (inner : Std.ExtTreeSet EdgeId) : Region :=
  { id, inner, outer := ∅, schedule := [] }

instance : Inhabited Region := ⟨ofEdges default ∅⟩

/-- Whether an edge is one of the region's own. -/
def hasEdge (r : Region) (e : EdgeId) : Bool := r.inner.contains e

/-- Whether a terminal is on an edge of a set. -/
def terminalIsOn (g : Graph) (edges : Std.ExtTreeSet EdgeId) (p : TerminalId) :
    Except (Failure ε) Bool := do
  return (← g.terminal p).edge.any edges.contains

/-- Whether a node has a terminal on an edge of a set. -/
def nodeIsOn (g : Graph) (edges : Std.ExtTreeSet EdgeId) (n : NodeId) :
    Except (Failure ε) Bool := do
  (← g.node n).terminals.anyM (terminalIsOn g edges)

/-- Whether a node has a terminal on an edge of the region. -/
def touches (r : Region) (g : Graph) (n : NodeId) : Except (Failure ε) Bool :=
  nodeIsOn g r.inner n

/-- Whether a terminal belongs to the region: by its edge, or by its node if it has none. -/
def owns (r : Region) (g : Graph) (p : TerminalId) : Except (Failure ε) Bool := do
  let terminal ← g.terminal p
  match terminal.edge with
  | some e => return r.hasEdge e
  | none => r.touches g terminal.node

/-- The nodes at the two ends of an edge. -/
def endpoints (g : Graph) (e : EdgeId) : Except (Failure ε) (List NodeId) := do
  let edge ← g.edge e
  let a ← g.terminal edge.a
  let b ← g.terminal edge.b
  return [a.node, b.node]

/-- The nodes of the region, in the order in which its edges lead to them. -/
def nodes (r : Region) (g : Graph) : Except (Failure ε) (List NodeId) := do
  return distinct (← r.inner.toList.mapM (endpoints g)).flatten

/-- The nodes of the region that touch an outer edge. -/
def boundary (r : Region) (g : Graph) : Except (Failure ε) (List NodeId) := do
  (← r.nodes g).filterM (nodeIsOn g r.outer)

/-- The terminals of a node that are on edges of the region, in the node's order. -/
def terminalsInside (r : Region) (g : Graph) (n : NodeId) :
    Except (Failure ε) (List TerminalId) := do
  (← g.node n).terminals.filterM (terminalIsOn g r.inner)

end Region

end MessagePlan
