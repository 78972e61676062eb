import MessagePlan.Handle
import MessagePlan.Text.Quoted

/-!
# Refusals of a Graph

Why a graph refuses to grow or to be connected in some way, and the wording of each cause.

## Main definitions

* `GraphError`: The causes.
* `GraphError.message`: Their wording.
-/

namespace MessagePlan

/-- Why a graph refuses an operation. -/
inductive GraphError where
  | duplicateName (name : String)
  | alreadyConnected (terminal : TerminalId) (label : String)
  | selfConnection (terminal : TerminalId) (label : String)
  | arityMismatch (kind : String) (expected actual : Nat)
  | unknownTerminal (terminal : TerminalId)
  | roleMismatch (kind : String) (expected actual : List String)
  | unknownNode (node : NodeId)
  | unknownVariable (handle : VariableId)
  | unknownRole (node role : String)
deriving DecidableEq, Repr

/-- The wording of a cause. -/
def GraphError.message : GraphError → String
  | .duplicateName name =>
    "Identifier '" ++ name ++ "' is already registered in this graph"
  | .alreadyConnected _ label => "Interface '" ++ label ++ "' is already connected"
  | .selfConnection _ label => "Interface '" ++ label ++ "' cannot be connected to itself"
  | .arityMismatch kind expected actual =>
    "Kind '" ++ kind ++ "' was registered with " ++ Nat.repr expected ++ " interfaces, got "
      ++ Nat.repr actual
  | .unknownTerminal terminal => "Interface " ++ terminal.text ++ " does not belong to this graph"
  | .roleMismatch kind expected actual =>
    "Kind '" ++ kind ++ "' was registered with roles " ++ Text.quotedList expected ++ ", got "
      ++ Text.quotedList actual
  | .unknownNode node => "Node " ++ node.text ++ " does not belong to this graph"
  | .unknownVariable handle => "Variable " ++ handle.text ++ " does not belong to this graph"
  | .unknownRole node role => "Node '" ++ node ++ "' has no interface with role '" ++ role ++ "'"

end MessagePlan
