import MessagePlan.Config
import MessagePlan.Partition.Basic
import MessagePlan.Schedule.Basic

/-!
# Schedules of Regions

Regions are scheduled one by one, each computing what the others and the outside want from
it. That is, in this order and without repeats:

1. what arrives, from inside the region, at its boundary nodes;
2. what boundary nodes with a single terminal inside the region send into it;
3. the outputs of the time wraps that the region owns;
4. what taps need that the region owns.

All but the second are put behind whatever they need inside the region.

## Main definitions

* `inbound`, `univariate`, `wrapOutputs`, `tapped`: The four parts.
* `Partition.scheduleOf`: The schedule of a region.
* `Partition.Gathering`: How the schedules of several regions are found.
* `Partition.scheduleRegion`, `Partition.scheduleAll`: Storing the schedule of a region, and those
  of all regions.
-/

namespace MessagePlan

namespace Region

/-- Place what arrives at a terminal from its partner. -/
def visitSender (g : Graph) (r : Region) (t : Traversal) (y : TerminalId) :
    Except (Failure ScheduleError) Traversal := do
  match (← g.terminal y).partner with
  | none => refuse (.disconnected y (← g.label y))
  | some p => t.visit g (some r) p

/-- Place what arrives from inside the region at its boundary nodes. -/
def inbound (r : Region) (g : Graph) (boundary : List NodeId) :
    Except (Failure ScheduleError) Schedule := do
  let t ← boundary.foldlM (fun t n => do
    (← r.terminalsInside g n).foldlM (visitSender g r) t) (Traversal.start g)
  return t.order.toList

/-- The terminals that are alone inside the region at their boundary nodes. -/
def univariate (r : Region) (g : Graph) (boundary : List NodeId) :
    Except (Failure ScheduleError) Schedule := do
  let inside ← boundary.mapM (r.terminalsInside g)
  return inside.flatMap fun terminals => if terminals.length = 1 then terminals else []

/-- Place some terminals, of which those that the region does not own are left out. -/
def owned (r : Region) (g : Graph) (t : Traversal) :
    List TerminalId → Except (Failure ScheduleError) Traversal
  | [] => return t
  | p :: ps => do
    if ← r.owns g p then r.owned g (← t.visit g (some r) p) ps else r.owned g t ps

/-- Place the outputs of the time wraps that the region owns. -/
def wrapOutputs (r : Region) (g : Graph) (wraps : List TimeWrap) :
    Except (Failure ScheduleError) Schedule := do
  return (← r.owned g (.start g) (wraps.map TimeWrap.output)).order.toList

/-- Place what taps need that the region owns. -/
def tapped (r : Region) (g : Graph) (taps : List Tap) :
    Except (Failure ScheduleError) Schedule := do
  let t ← taps.foldlM (fun t tap => do r.owned g t (← tap.terminals g)) (Traversal.start g)
  return t.order.toList

end Region

namespace Partition

/-- The schedule of a region. -/
def scheduleOf (p : Partition) (g : Graph) (config : Config) (id : RegionId) :
    Except (Failure ScheduleError) Schedule :=
  match p.region? id with
  | none => refuse (.unknownRegion id)
  | some r => do
    let boundary ← r.boundary g
    let inbound ← r.inbound g boundary
    let univariate ← if config.univariateOutbounds then r.univariate g boundary else pure []
    let wraps ← if config.timeWraps then r.wrapOutputs g p.timeWraps else pure []
    let taps ← if config.taps then r.tapped g p.taps else pure []
    return distinct (inbound ++ univariate ++ wraps ++ taps)

/-- A change of a partition: its outcome, and the partition after it. -/
abbrev Edit (α : Type) := Except (Failure ScheduleError) α × Partition

/-- Store the schedule of a region. -/
def scheduleRegion (p : Partition) (g : Graph) (config : Config) (id : RegionId) : Edit Unit :=
  match p.scheduleOf g config id with
  | .error e => (.error e, p)
  | .ok schedule => (.ok (), p.withSchedule id schedule)

/-- A way to find the schedules of several regions, given how to find that of one. -/
abbrev Gathering :=
  (RegionId → Except (Failure ScheduleError) Schedule) → List RegionId →
    Except (Failure ScheduleError) (List Schedule)

/-- One region after the other, up to the first that has no schedule. -/
def inTurn : Gathering := fun schedule ids => ids.mapM schedule

/-- All regions, in their order. -/
def regionIds (p : Partition) : List RegionId := (List.range p.regions.size).map RegionId.mk

/-- The schedules of all regions, in their order.  Where the configuration asks for it, they are
    found side by side; none of them depends on another. -/
def schedules (p : Partition) (sideBySide : Gathering) (g : Graph) (config : Config) :
    Except (Failure ScheduleError) (List Schedule) :=
  let gather := if config.parallel then sideBySide else inTurn
  gather (p.scheduleOf g config) p.regionIds

/-- A partition with the schedules of its first regions replaced. -/
def withSchedules (p : Partition) (schedules : List Schedule) : Partition :=
  schedules.zipIdx.foldl (fun p entry => p.withSchedule ⟨entry.2⟩ entry.1) p

/-- Store the schedules of all regions, once all of them have been found. -/
def scheduleAll (p : Partition) (sideBySide : Gathering) (g : Graph) (config : Config) :
    Edit Unit :=
  match p.schedules sideBySide g config with
  | .error e => (.error e, p)
  | .ok schedules => (.ok (), p.withSchedules schedules)

end Partition

end MessagePlan
