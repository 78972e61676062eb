import MessagePlan.Text.Quoted

/-!
# Refusals of Rules

Why a rule is not registered, a catalog not built, or no rule chosen, and the wording of
each cause.

## Main definitions

* `RuleError`: The causes.
* `RuleError.message`: Their wording.
-/

namespace MessagePlan

/-- Why there is no rule. -/
inductive RuleError where
  | noneApplies (kind role signature : String)
  | ambiguous (kind role : String) (rules : List String)
  | duplicate (name : String)
  | invalid (name reason : String)
deriving DecidableEq, Repr

/-- The wording of a cause. -/
def RuleError.message : RuleError → String
  | .noneApplies kind role signature =>
    "No rule for kind '" ++ kind ++ "' computing '" ++ role ++ "' with inbounds " ++ signature
  | .ambiguous kind role rules =>
    "Ambiguous rules for kind '" ++ kind ++ "' computing '" ++ role ++ "': "
      ++ Text.quotedList rules
  | .duplicate name => "Rule '" ++ name ++ "' duplicates an already registered pattern"
  | .invalid name reason => "Rule '" ++ name ++ "' is invalid: " ++ reason

end MessagePlan
