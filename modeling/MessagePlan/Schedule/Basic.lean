import MessagePlan.Schedule.Traversal

/-!
# Schedules

A schedule lists terminals in an order in which their messages can be computed: each after
all that it needs.

## Main definitions

* `Graph.schedule`: The order that ends with a given terminal.
* `Graph.completePartial`: A given order with what it needs put in.

## Theorems

* `schedule_eq_ok`: A schedule is the order in which a traversal has placed the terminals.
-/

namespace MessagePlan

/-- An order of terminals. -/
abbrev Schedule := List TerminalId

namespace Graph

/-- The order in which the message out of a terminal is computed, within a scope if one is
    given. -/
def schedule (g : Graph) (target : TerminalId) (scope : Option Region) :
    Except (Failure ScheduleError) Schedule :=
  match Traversal.visit g scope (.start g) target with
  | .error e => .error e
  | .ok t => .ok t.order.toList

/-- Refuse terminals that do not exist or do not belong to a region. -/
def checkEntries (g : Graph) (scope : Region) :
    List TerminalId → Except (Failure ScheduleError) Unit
  | [] => return ()
  | p :: ps => do
    if !g.hasTerminal p then refuse (.unknownTerminal p)
    if !(← scope.owns g p) then refuse (.outsideRegion p (← g.label p) scope.id)
    g.checkEntries scope ps

/-- An order of some terminals of a region in which each stands behind all that it needs: the
    terminals keep their order, and what is missing is put in right before it is needed. -/
def completePartial (g : Graph) (entries : Schedule) (scope : Region) :
    Except (Failure ScheduleError) Schedule := do
  g.checkEntries scope entries
  let t ← Traversal.visitAll g (some scope) (.start g) entries
  return t.order.toList

/-- A schedule is the order in which a traversal has placed the terminals. -/
theorem schedule_eq_ok {g : Graph} {target : TerminalId} {scope : Option Region} {r : Schedule} :
    g.schedule target scope = .ok r ↔
      ∃ t, Traversal.visit g scope (.start g) target = .ok t ∧ t.order.toList = r := by
  unfold schedule
  cases Traversal.visit g scope (.start g) target <;> simp

end Graph

end MessagePlan
