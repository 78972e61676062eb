import MessagePlan.Partition.Basic
import MessagePlan.Rule.Catalog

/-!
# Programs

A program is a schedule with a rule and arguments for every step. Each step computes the
message out of a terminal; its arguments say, terminal by terminal, where the inputs of the
rule come from. A plan has one program for each region, and says which steps produce what is
wanted for its own sake.

## Main definitions

* `Argument`: Where an input of a rule comes from.
* `Step`, `Program`: Rules bound to terminals and arguments.
* `WrapBinding`, `TapBinding`, `Plan`: Programs for all regions, and what they produce.
* `Program.stepFor`: The step that computes the message out of a terminal.
* `Plan.locate`: The region and the step that compute the message out of a terminal.

## Theorems

* `append_stepOf`, `getElem?_append_stepOf`: A step that is appended is the one for its terminal,
  and for no other.
-/

namespace MessagePlan

/-- Where an input of a rule comes from. -/
inductive Argument where
  /-- Nowhere: the terminal is the one computed, or the rule ignores it. -/
  | absent
  /-- The value of a constant. -/
  | literal (value : Value)
  /-- The message computed by an earlier step of the same program. -/
  | step (index : Nat)
  /-- A message that a terminal holds already. -/
  | stored (terminal : TerminalId)
  /-- The marginal of an edge of another region. -/
  | marginal (edge : EdgeId)
  /-- A parameter of the node. -/
  | param (name : String) (value : Value)
deriving DecidableEq, Inhabited

/-- A terminal with the rule that computes its message, the family of the message, and the
    inputs of the rule. -/
structure Step where
  terminal : TerminalId
  rule : RuleId
  produces : Family
  arguments : List Argument
deriving DecidableEq, Inhabited

/-- The steps for a region, or for a whole graph, and for each terminal the last step that
    computes its message. -/
structure Program where
  region : Option RegionId
  steps : Array Step
  stepOf : Std.ExtTreeMap TerminalId Nat
deriving DecidableEq

namespace Program

/-- The program without steps. -/
def empty : Program := { region := none, steps := #[], stepOf := ∅ }

instance : Inhabited Program := ⟨empty⟩

/-- The step for a terminal.  In a program that was read from a document, the terminal can
    lead to a step that is not there. -/
def stepFor {ε : Type} (p : Program) (q : TerminalId) : Except (Failure ε) (Option Step) :=
  match p.stepOf[q]? with
  | none => .ok none
  | some i => (handled p.steps[i]?).map some

/-- The program with one more step. -/
def append (p : Program) (s : Step) : Program :=
  { p with steps := p.steps.push s, stepOf := p.stepOf.insert s.terminal p.steps.size }

/-- A step that is appended is the one for its terminal. -/
theorem append_stepOf (p : Program) (s : Step) :
    (p.append s).stepOf[s.terminal]? = some p.steps.size := by
  simp only [append, Std.ExtTreeMap.getElem?_insert_self]

/-- After one more step, the step for a terminal is that one, or the one it was. -/
theorem getElem?_append_stepOf (p : Program) (s : Step) (q : TerminalId) :
    (p.append s).stepOf[q]? = if s.terminal = q then some p.steps.size else p.stepOf[q]? := by
  simp only [append, Std.ExtTreeMap.getElem?_insert, Std.LawfulEqCmp.compare_eq_iff_eq]

end Program

/-- A time wrap with the step that computes its output: a region and a place in its
    program. -/
structure WrapBinding where
  wrap : TimeWrap
  source : Option (RegionId × Nat)
deriving DecidableEq, Inhabited

/-- A tap with the steps that compute what it needs. -/
structure TapBinding where
  tap : Tap
  sources : List (RegionId × Nat)
deriving DecidableEq, Inhabited

/-- A program for each region, and what they produce. -/
structure Plan where
  programs : List Program
  wraps : List WrapBinding
  taps : List TapBinding
deriving DecidableEq, Inhabited

namespace Plan

/-- The plan without programs. -/
def empty : Plan := { programs := [], wraps := [], taps := [] }

/-- The first of some programs, counted from a place, with a step for a terminal. -/
def locateFrom (place : Nat) (q : TerminalId) : List Program → Option (RegionId × Nat)
  | [] => none
  | p :: ps =>
    match p.stepOf[q]? with
    | some i => some (⟨place⟩, i)
    | none => locateFrom (place + 1) q ps

/-- The step that computes the message out of a terminal. -/
def locate (programs : List Program) (q : TerminalId) : Option (RegionId × Nat) :=
  locateFrom 0 q programs

end Plan

end MessagePlan
