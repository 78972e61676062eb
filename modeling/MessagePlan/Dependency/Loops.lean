import MessagePlan.Dependency.Components
import MessagePlan.Graph.Basic

/-!
# Loops of Dependencies

The message out of a terminal depends on the messages that arrive at the other terminals of
its node and are not there yet. Terminals that depend on one another in a circle can never
be scheduled, until one of them holds an initial message. This module lists the circles and
proposes terminals to prime.

A loop is a component of the graph of dependencies that some dependency goes around in: one with
several terminals, or with one that depends on itself. So a terminal that is on several circles
has one loop. How the components are found is left open; whatever finds them lists them in some
order, and only the loops are put in order here.

## Main definitions

* `Graph.dependencies`: What depends on what, given which terminals are primed.
* `Graph.loopsWith`, `Graph.unbrokenLoops`: The loops without a message.
* `Graph.loopBreakers`: Terminals to prime so that no loop is left.

## Theorems

* `Graph.unprimed_insert_lt`: Priming a terminal leaves fewer of them unprimed.
-/

namespace MessagePlan

open Dependency (Digraph)

variable {ε : Type}

/-- Whether a component is a loop. One with a single vertex is if the vertex is linked to
    itself, and one without a vertex should not be there. -/
def Dependency.Digraph.isLoop (d : Digraph) : List Nat → Except (Failure ε) Bool
  | [] => .error .noSuchHandle
  | [v] => .ok ((d.next v).contains v)
  | _ :: _ :: _ => .ok true

/-- Some terminals, in ascending order. -/
def TerminalId.ascending (ps : List TerminalId) : List TerminalId :=
  ps.mergeSort fun p q => (compare p q).isLE

namespace Graph

/-- The terminals whose messages the message out of `x` depends on, where `ys` are terminals
    of the same node. -/
def dependenciesOf (g : Graph) (primed : Std.HashSet TerminalId) (x : TerminalId) :
    List TerminalId → Except (Failure ε) (List TerminalId)
  | [] => return []
  | y :: ys => do
    if y = x then g.dependenciesOf primed x ys
    else
      match (← g.terminal y).partner with
      | none => g.dependenciesOf primed x ys
      | some p =>
        let there := (← g.hasMessage p) || primed.contains p
        let rest ← g.dependenciesOf primed x ys
        return if there then rest else p :: rest

/-- All dependencies, each as the terminal depended on and the terminal that depends on it. -/
def dependencies (g : Graph) (primed : Std.HashSet TerminalId) :
    Except (Failure ε) (List (TerminalId × TerminalId)) := do
  let each ← g.terminalIds.mapM fun x => do
    let needed ← g.dependenciesOf primed x (← g.ownerOf x).terminals
    return needed.map fun p => (p, x)
  return each.flatten

/-- The terminal that a vertex of the graph of dependencies stands for. -/
def terminalOf (g : Graph) (v : Nat) : Except (Failure ε) TerminalId :=
  if v < g.terminals.size then .ok ⟨v⟩ else .error .noSuchHandle

/-- The loops that are left when some terminals are primed, each in ascending order, and in the
    order of their least terminals. -/
def loopsWith (g : Graph) (components : Digraph → List (List Nat))
    (primed : Std.HashSet TerminalId) : Except (Failure ε) (List (List TerminalId)) := do
  let links := (← g.dependencies primed).map fun l => (l.1.index, l.2.index)
  let needs := Digraph.ofLinks g.terminals.size links
  let loops ← (components needs).filterM needs.isLoop
  let members ← loops.mapM fun loop => loop.mapM g.terminalOf
  return (members.map TerminalId.ascending).mergeSort fun xs ys => (compare xs ys).isLE

/-- The loops without a message to break them. -/
def unbrokenLoops (g : Graph) (components : Digraph → List (List Nat)) :
    Except (Failure ε) (List (List TerminalId)) := g.loopsWith components ∅

/-- How many terminals are not primed. -/
def unprimed (g : Graph) (primed : Std.HashSet TerminalId) : Nat :=
  g.terminalIds.countP fun p => !primed.contains p

/-- Priming a terminal leaves fewer of them unprimed. -/
theorem unprimed_insert_lt {g : Graph} {primed : Std.HashSet TerminalId} {p : TerminalId}
    (hp : g.hasTerminal p = true) (hnot : primed.contains p = false) :
    g.unprimed (primed.insert p) < g.unprimed primed := by
  refine Dependency.countP_lt_countP (x := p) (fun q hq => ?_) (mem_terminalIds.2 hp) ?_ ?_
  · rw [Std.HashSet.contains_insert, Bool.not_or, Bool.and_eq_true] at hq
    exact hq.2
  · rw [hnot, Bool.not_false]
  · rw [Std.HashSet.contains_insert_self, Bool.not_true]

/-- Prime the least terminal of the first loop until no loop is left.  A terminal that is primed
    already would be found again and again. -/
def breakersFrom (g : Graph) (components : Digraph → List (List Nat))
    (primed : Std.HashSet TerminalId) : Except (Failure ε) (List TerminalId) := do
  match (← g.loopsWith components primed).head? with
  | none => return []
  | some loop =>
    let p ← handled loop.head?
    if _h : g.hasTerminal p = true ∧ primed.contains p = false then
      return p :: (← g.breakersFrom components (primed.insert p))
    else .error .endless
termination_by g.unprimed primed
decreasing_by exact unprimed_insert_lt _h.1 _h.2

/-- Terminals that leave no loop unbroken once they hold messages. -/
def loopBreakers (g : Graph) (components : Digraph → List (List Nat)) :
    Except (Failure ε) (List TerminalId) :=
  g.breakersFrom components ∅

end Graph

end MessagePlan
