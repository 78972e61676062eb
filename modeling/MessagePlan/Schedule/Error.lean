import MessagePlan.Handle

/-!
# Refusals of a Schedule

Why the messages of a graph cannot be put in order, and the wording of each cause. Every
cause points at a defect of the graph or of the request.

## Main definitions

* `ScheduleError`: The causes.
* `ScheduleError.message`: Their wording.
-/

namespace MessagePlan

/-- Why there is no schedule. -/
inductive ScheduleError where
  | disconnected (terminal : TerminalId) (label : String)
  | unbrokenLoop (terminal : TerminalId) (label : String)
  | outsideRegion (terminal : TerminalId) (label : String) (region : RegionId)
  | unknownRegion (region : RegionId)
  | unknownTerminal (terminal : TerminalId)
deriving DecidableEq, Repr

/-- The wording of a cause. -/
def ScheduleError.message : ScheduleError → String
  | .disconnected _ label => "Interface '" ++ label ++ "' is not connected to a partner"
  | .unbrokenLoop _ label =>
    "Unbroken loop at interface '" ++ label
      ++ "': prime an initial message on it before scheduling"
  | .outsideRegion _ label region =>
    "Partial schedule entry '" ++ label ++ "' lies outside subgraph " ++ region.text
  | .unknownRegion region =>
    "Subgraph " ++ region.text ++ " is not part of this partitioning scheme"
  | .unknownTerminal terminal => "Interface " ++ terminal.text ++ " does not belong to this graph"

end MessagePlan
