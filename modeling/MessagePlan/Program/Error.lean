import MessagePlan.Rule.Error
import MessagePlan.Schedule.Error

/-!
# Refusals of a Program

Why a rule cannot be given its inputs, or a schedule not be compiled, and the wording of
each cause. Where the cause lies with the schedule or with the inputs of a rule, its wording
is theirs.

## Main definitions

* `AssemblyError`, `CompileError`: The causes.
* `AssemblyError.message`, `CompileError.message`: Their wording.
-/

namespace MessagePlan

/-- Why a rule cannot be given its inputs. -/
inductive AssemblyError where
  | missingInbound (terminal : TerminalId) (label : String)
  | unavailable (rule : String) (terminal : TerminalId) (label : String)
  | unknownRole (rule node role : String)
  | arityMismatch (rule node : String) (expected actual : Nat)
deriving DecidableEq, Repr

/-- The wording of a cause. -/
def AssemblyError.message : AssemblyError → String
  | .missingInbound _ label =>
    "No schedule entry produces the inbound '" ++ label
      ++ "' (scheduling must run before assembly)"
  | .unavailable rule _ label =>
    "Rule '" ++ rule ++ "' needs the inbound on '" ++ label
      ++ "' as approximation point, but it is not available yet; "
      ++ "try reordering the schedule to perform a dependency pass first"
  | .unknownRole rule node role =>
    "Node '" ++ node ++ "' has no interface with role '" ++ role ++ "' required by rule '"
      ++ rule ++ "'"
  | .arityMismatch rule node expected actual =>
    "Rule '" ++ rule ++ "' expects " ++ Nat.repr expected ++ " inbounds but node '" ++ node
      ++ "' has " ++ Nat.repr actual

/-- Why a schedule cannot be compiled. -/
inductive CompileError where
  | schedule (e : ScheduleError)
  | dispatch (label : String) (e : RuleError)
  | assembly (e : AssemblyError)
deriving DecidableEq, Repr

/-- The wording of a cause. -/
def CompileError.message : CompileError → String
  | .schedule e => e.message
  | .dispatch label e => "Dispatch failed at '" ++ label ++ "': " ++ e.message
  | .assembly e => e.message

end MessagePlan
