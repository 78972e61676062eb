import MessagePlan.Program.Basic

/-!
# Reports on Programs

What a program does, in numbers: how often it uses each rule, where the inputs of its rules
come from, and how far apart the steps lie that compute a message and read it. The largest
such distance says how long a message has to be kept.

## Main definitions

* `ArgumentCounts`: How many arguments there are of each sort.
* `Report`: The numbers.
* `Program.report`: The report on a program.

## Theorems

* `total_count`: Counting an argument adds one to the total.
-/

namespace MessagePlan

/-- How many arguments there are of each sort. -/
structure ArgumentCounts where
  steps : Nat := 0
  literals : Nat := 0
  stored : Nat := 0
  marginals : Nat := 0
  params : Nat := 0
  absent : Nat := 0
deriving DecidableEq, Inhabited, Repr

namespace ArgumentCounts

/-- The counts with one argument more. -/
def count (c : ArgumentCounts) : Argument → ArgumentCounts
  | .absent => { c with absent := c.absent + 1 }
  | .literal _ => { c with literals := c.literals + 1 }
  | .step _ => { c with steps := c.steps + 1 }
  | .stored _ => { c with stored := c.stored + 1 }
  | .marginal _ => { c with marginals := c.marginals + 1 }
  | .param _ _ => { c with params := c.params + 1 }

/-- How many arguments there are. -/
def total (c : ArgumentCounts) : Nat :=
  c.steps + c.literals + c.stored + c.marginals + c.params + c.absent

/-- Counting an argument adds one to the total. -/
theorem total_count (c : ArgumentCounts) (a : Argument) : (c.count a).total = c.total + 1 := by
  cases a <;> simp only [count, total] <;> omega

end ArgumentCounts

/-- What a program does, in numbers. -/
structure Report where
  steps : Nat
  ruleCounts : Std.ExtTreeMap RuleId Nat
  arguments : ArgumentCounts
  distances : List Nat

namespace Report

/-- The largest distance between a step and an earlier one that it reads. -/
def largestDistance (r : Report) : Nat := r.distances.foldl max 0

/-- The average distance between a step and an earlier one that it reads, or zero if no step
    reads another. -/
def averageDistance (r : Report) : Float :=
  if r.distances.isEmpty then 0
  else Float.ofNat (r.distances.foldl (· + ·) 0) / Float.ofNat r.distances.length

end Report

namespace Program

/-- The distances from the step in a place to those it reads; one that lies later has none. -/
def distancesAt (place : Nat) (s : Step) : List Nat :=
  s.arguments.filterMap fun
    | .step source => some (place - source)
    | _ => none

/-- The report on a program. -/
def report (p : Program) : Report :=
  let steps := p.steps.toList
  { steps := steps.length
    ruleCounts := steps.foldl (fun m s => m.insert s.rule (m.getD s.rule 0 + 1)) ∅
    arguments := (steps.flatMap Step.arguments).foldl .count {}
    distances := steps.zipIdx.flatMap fun entry => distancesAt entry.2 entry.1 }

end Program

end MessagePlan
