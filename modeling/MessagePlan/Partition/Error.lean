import MessagePlan.Handle

/-!
# Refusals of a Partition

Why a division of a graph's edges into regions is refused, or a tap on it, and the wording
of each cause.

## Main definitions

* `PartitionError`: The causes.
* `PartitionError.message`: Their wording.
-/

namespace MessagePlan

/-- Why a partition is refused. -/
inductive PartitionError where
  | overlapping (edge : EdgeId) (name : String)
  | uncovered (edge : EdgeId) (name : String)
  | unknownEdge (edge : EdgeId)
  | unknownTerminal (terminal : TerminalId)
deriving DecidableEq, Repr

/-- The wording of a cause. -/
def PartitionError.message : PartitionError → String
  | .overlapping _ name => "Edge '" ++ name ++ "' is claimed by more than one subgraph"
  | .uncovered _ name => "Edge '" ++ name ++ "' is not covered by any subgraph"
  | .unknownEdge edge => "Edge " ++ edge.text ++ " does not belong to this graph"
  | .unknownTerminal terminal => "Interface " ++ terminal.text ++ " does not belong to this graph"

end MessagePlan
