import MessagePlan.Partition.Error
import MessagePlan.Partition.Region

/-!
# Partitions

A partition divides the edges of a graph into regions, every edge in exactly one of them.
It also names the messages that are wanted for their own sake: time wraps, where the output
of one time step is the input of the next, and taps, where a message or both messages of an
edge are read out.

## Main definitions

* `TimeWrap`, `Tap`: What is wanted from the regions.
* `Partition`: Regions, wraps and taps.
* `Partition.ofGroups`: The partition of a graph with given groups of edges.
* `Partition.whole`: The partition of a graph with a single region.
* `Partition.regionOf?`, `Partition.regionOfTerminal?`: Where an edge or a terminal belongs.
* `Partition.addTimeWrap`, `Partition.addTap`: A partition of which more is wanted.

## Theorems

* `assign_eq_ok`: An edge that is assigned exists and was free.
-/

namespace MessagePlan

/-- The message out of one terminal is what arrives at another one step later. -/
structure TimeWrap where
  output : TerminalId
  input : TerminalId
deriving DecidableEq, Inhabited, Repr

/-- What is read out: the message out of a terminal, or the marginal of an edge, for which both
    of its messages are needed. -/
inductive Tap where
  | terminal (p : TerminalId)
  | edge (e : EdgeId)
deriving DecidableEq, Inhabited, Repr

namespace Tap

variable {ε : Type}

/-- The terminals whose messages a tap needs. -/
def terminals (g : Graph) : Tap → Except (Failure ε) (List TerminalId)
  | .terminal p => return [p]
  | .edge e => do
    let edge ← g.edge e
    return [edge.a, edge.b]

/-- The edge that a tap is on, if its terminal is connected. -/
def edge? (g : Graph) : Tap → Except (Failure ε) (Option EdgeId)
  | .terminal p => do return (← g.terminal p).edge
  | .edge e => return some e

end Tap

/-- A division of a graph's edges into regions, and what is wanted from them. -/
structure Partition where
  regions : Array Region
  timeWraps : List TimeWrap
  taps : List Tap
  regionOf : Std.ExtTreeMap EdgeId RegionId
deriving DecidableEq

namespace Partition

/-- The partition without regions. -/
def empty : Partition := { regions := #[], timeWraps := [], taps := [], regionOf := ∅ }

instance : Inhabited Partition := ⟨empty⟩

/-- Assign some edges to a region; an edge that is unknown or assigned already is refused. -/
def assign (g : Graph) (id : RegionId) (assigned : Std.ExtTreeMap EdgeId RegionId) :
    List EdgeId → Except (Failure PartitionError) (Std.ExtTreeMap EdgeId RegionId)
  | [] => return assigned
  | e :: es =>
    match g.edges[e.index]? with
    | none => refuse (.unknownEdge e)
    | some edge =>
      if assigned.contains e then refuse (.overlapping e edge.name)
      else assign g id (assigned.insert e id) es

/-- Assign the edges of each group to the region in the group's place. -/
def assignAll (g : Graph) (place : Nat) (assigned : Std.ExtTreeMap EdgeId RegionId) :
    List (List EdgeId) → Except (Failure PartitionError) (Std.ExtTreeMap EdgeId RegionId)
  | [] => return assigned
  | group :: groups => do
    assignAll g (place + 1) (← assign g ⟨place⟩ assigned group) groups

/-- The edges that touch the nodes of a region and are not its own. -/
def outerEdges (g : Graph) (r : Region) :
    Except (Failure PartitionError) (Std.ExtTreeSet EdgeId) := do
  let nodes ← r.nodes g
  let terminals := (← nodes.mapM g.node).flatMap Node.terminals
  let edges := (← terminals.mapM g.terminal).filterMap Terminal.edge
  return (edges.filter fun e => !r.hasEdge e).foldl (·.insert ·) ∅

/-- The region of a group of edges. -/
def regionOfGroup (g : Graph) (group : List EdgeId) (place : Nat) :
    Except (Failure PartitionError) Region := do
  let r := Region.ofEdges ⟨place⟩ (group.foldl (·.insert ·) ∅)
  return { r with outer := ← outerEdges g r }

/-- The partition with the given groups of edges as its regions: every edge of the graph
    has to be in exactly one group, exactly once. -/
def ofGroups (g : Graph) (groups : List (List EdgeId)) :
    Except (Failure PartitionError) Partition := do
  let regionOf ← assignAll g 0 ∅ groups
  match g.edgeIds.find? fun e => !regionOf.contains e with
  | some e => refuse (.uncovered e (← g.edge e).name)
  | none =>
    let regions ← groups.zipIdx.mapM fun entry => regionOfGroup g entry.1 entry.2
    return { empty with regions := regions.toArray, regionOf }

/-- The partition with a single region that holds every edge. -/
def whole (g : Graph) : Except (Failure PartitionError) Partition :=
  match ofGroups g [g.edgeIds] with
  | .error (.cause _) => .ok empty
  | outcome => outcome

/-- The region in a handle's place. -/
def region? (p : Partition) (id : RegionId) : Option Region := p.regions[id.index]?

/-- The region of an edge. -/
def regionOf? (p : Partition) (e : EdgeId) : Option RegionId := p.regionOf[e]?

/-- The first region of the edges of some terminals. -/
def firstRegion {ε : Type} (p : Partition) (g : Graph) :
    List TerminalId → Except (Failure ε) (Option RegionId)
  | [] => return none
  | q :: qs => do
    match (← g.terminal q).edge.bind p.regionOf? with
    | some id => return some id
    | none => p.firstRegion g qs

/-- The region of a terminal: that of its edge, or if it has none the first region of the other
    edges of its node. -/
def regionOfTerminal? {ε : Type} (p : Partition) (g : Graph) (q : TerminalId) :
    Except (Failure ε) (Option RegionId) := do
  match (← g.terminal q).edge with
  | some e => return p.regionOf? e
  | none => p.firstRegion g (← g.ownerOf q).terminals

/-- A partition of which the message around a time step is wanted too. -/
def addTimeWrap (p : Partition) (g : Graph) (output input : TerminalId) :
    Except (Failure PartitionError) Partition :=
  match [output, input].find? fun q => !g.hasTerminal q with
  | some q => refuse (.unknownTerminal q)
  | none => .ok { p with timeWraps := p.timeWraps ++ [⟨output, input⟩] }

/-- Why a tap on a graph is refused, if it is. -/
def tapFault (g : Graph) : Tap → Option PartitionError
  | .terminal q => if g.hasTerminal q then none else some (.unknownTerminal q)
  | .edge e => if g.hasEdge e then none else some (.unknownEdge e)

/-- A partition of which another message or marginal is wanted too. -/
def addTap (p : Partition) (g : Graph) (tap : Tap) : Except (Failure PartitionError) Partition :=
  match tapFault g tap with
  | some fault => refuse fault
  | none => .ok { p with taps := p.taps ++ [tap] }

/-- A partition with the schedule of one of its regions replaced. -/
def withSchedule (p : Partition) (id : RegionId) (schedule : List TerminalId) : Partition :=
  { p with regions := p.regions.modify id.index fun r => { r with schedule } }

/-- An edge that is assigned exists and was free. -/
theorem assign_eq_ok {g : Graph} {id : RegionId} {e : EdgeId} {es : List EdgeId}
    {assigned after : Std.ExtTreeMap EdgeId RegionId}
    (h : assign g id assigned (e :: es) = .ok after) :
    e.index < g.edges.size ∧ e ∉ assigned ∧ assign g id (assigned.insert e id) es = .ok after := by
  simp only [assign] at h
  split at h
  · simp only [refuse, reduceCtorEq] at h
  · rename_i edge he
    split at h
    · simp only [refuse, reduceCtorEq] at h
    · rename_i hc
      exact ⟨(Array.getElem?_eq_some_iff.1 he).1,
        fun hm => hc (Std.ExtTreeMap.contains_iff_mem.2 hm), h⟩

end Partition

end MessagePlan
