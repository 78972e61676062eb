import MessagePlan.Document.Values
import MessagePlan.Partition.Basic

/-!
# Documents of Partitions

How a partition is written and read. The edges of a region are written in ascending order
and read in any order; nothing is checked against a graph.

## Main definitions

* `Partition.toJson`, `Partition.ofJson?`: A partition.
* `Partition.toText`, `Partition.ofText?`: The text of its document.
-/

namespace MessagePlan

/-- A set of edges, as written. -/
def edgesToJson (edges : Std.ExtTreeSet EdgeId) : Json := .ofList EdgeId.toJson edges.toList

/-- A set of edges, as read. -/
def edgesOfJson? (j : Json) : Option (Std.ExtTreeSet EdgeId) := do
  return (← j.list? EdgeId.ofJson?).foldl (fun edges e => edges.insert e) ∅

/-- A region, as written. -/
def Region.toJson (r : Region) : Json :=
  .object [
    ("id", r.id.toJson),
    ("internal_edges", edgesToJson r.inner),
    ("external_edges", edgesToJson r.outer),
    ("internal_schedule", .ofList TerminalId.toJson r.schedule)]

/-- A region, as read. -/
def Region.ofJson? (j : Json) : Option Region := do
  match ← j.fields? ["id", "internal_edges", "external_edges", "internal_schedule"] with
  | [some id, some inner, some outer, some schedule] =>
    return {
      id := ← RegionId.ofJson? id
      inner := ← edgesOfJson? inner
      outer := ← edgesOfJson? outer
      schedule := ← schedule.list? TerminalId.ofJson? }
  | _ => none

/-- A time wrap, as written. -/
def TimeWrap.toJson (w : TimeWrap) : Json :=
  .object [("from", w.output.toJson), ("to", w.input.toJson)]

/-- A time wrap, as read. -/
def TimeWrap.ofJson? (j : Json) : Option TimeWrap := do
  match ← j.fields? ["from", "to"] with
  | [some output, some input] =>
    return { output := ← TerminalId.ofJson? output, input := ← TerminalId.ofJson? input }
  | _ => none

/-- A tap, as written. -/
def Tap.toJson : Tap → Json
  | .terminal p => .object [("Interface", p.toJson)]
  | .edge e => .object [("Edge", e.toJson)]

/-- A tap, as read. -/
def Tap.ofJson? (j : Json) : Option Tap := do
  match ← j.alternative? with
  | ("Interface", some carried) => return .terminal (← TerminalId.ofJson? carried)
  | ("Edge", some carried) => return .edge (← EdgeId.ofJson? carried)
  | _ => none

/-- The table of the regions of edges, as written. -/
def regionOfToJson (table : Std.ExtTreeMap EdgeId RegionId) : Json :=
  .object (table.toList.map fun entry => (Nat.repr entry.1.index, entry.2.toJson))

/-- The table of the regions of edges, as read. -/
def regionOfOfJson? (j : Json) : Option (Std.ExtTreeMap EdgeId RegionId) := do
  return (← j.table? placeKey? RegionId.ofJson?).foldl
    (fun table entry => table.insert ⟨entry.1⟩ entry.2) ∅

namespace Partition

/-- A partition, as written. -/
def toJson (p : Partition) : Json :=
  .object [
    ("subgraphs", .ofList Region.toJson p.regions.toList),
    ("time_wraps", .ofList TimeWrap.toJson p.timeWraps),
    ("write_buffers", .ofList Tap.toJson p.taps),
    ("edge_to_subgraph", regionOfToJson p.regionOf)]

/-- A partition, as read. -/
def ofJson? (j : Json) : Option Partition := do
  match ← j.fields? ["subgraphs", "time_wraps", "write_buffers", "edge_to_subgraph"] with
  | [some regions, some timeWraps, some taps, some regionOf] =>
    return {
      regions := (← regions.list? Region.ofJson?).toArray
      timeWraps := ← timeWraps.list? TimeWrap.ofJson?
      taps := ← taps.list? Tap.ofJson?
      regionOf := ← regionOfOfJson? regionOf }
  | _ => none

/-- The text of a partition's document. -/
def toText (p : Partition) : String := p.toJson.compact

/-- The partition of a document. -/
def ofText? (text : String) : Option Partition := (Json.ofText? text).bind ofJson?

end Partition

end MessagePlan
