import MessagePlan.Partition.Region
import MessagePlan.Schedule.Error

/-!
# The Traversal Behind a Schedule

The message out of a terminal is computed from the messages that arrive at the other
terminals of its node, and those come out of the partners of these terminals. A traversal
starts at a terminal, visits all that it needs first, and places each terminal behind what
it needs. A message that is there already is not needed. Inside a region, terminals on edges
of other regions are left alone; a terminal without an edge belongs everywhere, and since
nothing arrives there it is reported.

The traversal keeps its own stack, so that a long chain of needs is no deep recursion. Each
terminal carries a mark: it has not been met, it lies on the stack, or it has been placed. To
meet a terminal that lies on the stack is to have found a loop.

Every step either takes a terminal off the terminals still to be looked at, or takes a frame
off the stack, or marks a terminal that had not been met. The number of terminals not met
never grows, so the traversal ends, on any graph whatever.

## Main definitions

* `needAt`: What a terminal needs for what arrives at another terminal of its node.
* `Traversal`: The stack, the marks and the terminals placed so far.
* `Traversal.enter`, `Traversal.step`, `Traversal.run`: Its moves.
* `Traversal.visit`: Placing a terminal behind all that it needs.

## Theorems

* `measure_of_step`: Each step comes closer to the end.
* `visitAll_append`: Terminals may be placed in two parts.
-/

namespace MessagePlan

/-- Whether a scope includes what arrives over an edge; where there is no edge, nothing is
    left out. -/
def inScope (scope : Option Region) (edge : Option EdgeId) : Bool :=
  match scope, edge with
  | some r, some e => r.hasEdge e
  | _, _ => true

/-- The terminal whose message is needed at terminal `y` to compute the message out of
    terminal `x` of the same node, if one is. -/
def needAt (g : Graph) (scope : Option Region) (x y : TerminalId) :
    Except (Failure ScheduleError) (Option TerminalId) := do
  if y = x then return none
  let terminal ← g.terminal y
  if !inScope scope terminal.edge then return none
  match terminal.partner with
  | none => refuse (.disconnected y (← g.label y))
  | some p => if ← g.hasMessage p then return none else return some p

/-- How far a traversal has come with a terminal. -/
inductive Mark where
  | unmet
  | active
  | placed
deriving DecidableEq, Inhabited, Repr

/-- A terminal on the stack, with the terminals of its node that are still to be looked at. -/
structure Frame where
  terminal : TerminalId
  rest : List TerminalId
deriving DecidableEq, Inhabited, Repr

/-- A traversal on its way. -/
structure Traversal where
  stack : List Frame
  marks : Array Mark
  order : Array TerminalId
deriving DecidableEq, Inhabited

namespace Traversal

/-- The traversal that has met no terminal of a graph. -/
def start (g : Graph) : Traversal :=
  { stack := [], marks := Array.replicate g.terminals.size .unmet, order := #[] }

/-- Put a terminal on the stack, unless it has been placed. -/
def enter (g : Graph) (p : TerminalId) (t : Traversal) :
    Except (Failure ScheduleError) Traversal :=
  if h : p.index < t.marks.size then
    match t.marks[p.index] with
    | .unmet => do
      let node ← g.ownerOf p
      return { t with
        stack := ⟨p, node.terminals⟩ :: t.stack
        marks := t.marks.set p.index .active h }
    | .active => do refuse (.unbrokenLoop p (← g.label p))
    | .placed => return t
  else .error .noSuchHandle

/-- Look at the next terminal for the topmost frame, or place the frame's terminal when there is
    none. -/
def step (g : Graph) (scope : Option Region) (t : Traversal) :
    Except (Failure ScheduleError) Traversal :=
  match t.stack with
  | [] => .ok t
  | ⟨x, []⟩ :: below =>
    .ok {
      stack := below
      marks := t.marks.setIfInBounds x.index .placed
      order := t.order.push x }
  | ⟨x, y :: rest⟩ :: below =>
    match needAt g scope x y with
    | .error e => .error e
    | .ok none => .ok { t with stack := ⟨x, rest⟩ :: below }
    | .ok (some p) => enter g p { t with stack := ⟨x, rest⟩ :: below }

/-- How many terminals have not been met. -/
def unmet (t : Traversal) : Nat := t.marks.count .unmet

/-- How many moves are left with the frames on the stack. -/
def pending (t : Traversal) : Nat := t.stack.foldr (fun f n => f.rest.length + 1 + n) 0

/-- Setting a mark does not bring back terminals that were met. -/
theorem unmet_setIfInBounds_le (marks : Array Mark) (i : Nat) {m : Mark} (hm : m ≠ .unmet) :
    (marks.setIfInBounds i m).count .unmet ≤ marks.count .unmet := by
  unfold Array.setIfInBounds
  split
  · rw [Array.count_set]
    simp only [beq_iff_eq, hm, if_false]
    omega
  · exact Nat.le_refl _

/-- Marking a terminal that had not been met leaves fewer that have not. -/
theorem unmet_set_lt {marks : Array Mark} {i : Nat} (h : i < marks.size)
    (hi : marks[i] = .unmet) {m : Mark} (hm : m ≠ .unmet) :
    (marks.set i m h).count .unmet < marks.count .unmet := by
  have hpos : 0 < marks.count .unmet :=
    Array.count_pos_iff.2 (hi ▸ Array.getElem_mem h)
  rw [Array.count_set]
  simp only [beq_iff_eq, hi, if_true, hm, if_false]
  omega

/-- To enter a terminal is to meet it for the first time, or to change nothing. -/
theorem enter_eq_ok {g : Graph} {p : TerminalId} {t u : Traversal} (h : enter g p t = .ok u) :
    u.unmet < t.unmet ∨ u = t := by
  unfold enter at h
  split at h
  · rename_i hp
    split at h
    · rename_i hm
      cases ho : (g.ownerOf p : Except (Failure ScheduleError) Node) with
      | error e => rw [ho] at h; exact nomatch h
      | ok node =>
        rw [ho] at h
        obtain rfl := Except.ok.inj h
        exact .inl (unmet_set_lt hp hm (by decide))
    · cases hl : (g.label p : Except (Failure ScheduleError) String) with
      | error e => rw [hl] at h; exact nomatch h
      | ok l => rw [hl] at h; exact nomatch h
    · exact .inr (Except.ok.inj h).symm
  · exact nomatch h

/-- Each step meets a terminal, or has fewer moves left and meets none. -/
theorem measure_of_step {g : Graph} {scope : Option Region} {t u : Traversal}
    (hs : t.stack ≠ []) (h : step g scope t = .ok u) :
    u.unmet < t.unmet ∨ u.unmet ≤ t.unmet ∧ u.pending < t.pending := by
  obtain ⟨stack, marks, order⟩ := t
  match stack, hs with
  -- A frame that is done leaves the stack.
  | ⟨x, []⟩ :: below, _ =>
    obtain rfl := Except.ok.inj h
    exact .inr ⟨unmet_setIfInBounds_le _ _ (by decide), by simp [pending]⟩
  -- A terminal that is looked at leaves its frame, whether it leads to another terminal or not.
  | ⟨x, y :: rest⟩ :: below, _ =>
    simp only [step] at h
    split at h
    · exact nomatch h
    · obtain rfl := Except.ok.inj h
      exact .inr ⟨Nat.le_refl _, by simp [pending]⟩
    · rcases enter_eq_ok h with hu | rfl
      · exact .inl hu
      · exact .inr ⟨Nat.le_refl _, by simp [pending]⟩

/-- Take steps until the stack is empty. -/
def run (g : Graph) (scope : Option Region) (t : Traversal) :
    Except (Failure ScheduleError) Traversal :=
  if _hs : t.stack = [] then .ok t
  else
    match _h : step g scope t with
    | .error e => .error e
    | .ok u => run g scope u
termination_by (t.unmet, t.pending)
decreasing_by
  rcases measure_of_step _hs _h with hu | ⟨hu, hp⟩
  · exact .left _ _ hu
  · rcases Nat.lt_or_eq_of_le hu with hu | hu
    · exact .left _ _ hu
    · rw [hu]; exact .right _ hp

/-- Place a terminal behind all that it needs. -/
def visit (g : Graph) (scope : Option Region) (t : Traversal) (target : TerminalId) :
    Except (Failure ScheduleError) Traversal :=
  if g.hasTerminal target then
    match enter g target t with
    | .error e => .error e
    | .ok u => run g scope u
  else refuse (.unknownTerminal target)

/-- Place some terminals one after the other, each behind all that it needs. -/
def visitAll (g : Graph) (scope : Option Region) (t : Traversal) :
    List TerminalId → Except (Failure ScheduleError) Traversal
  | [] => .ok t
  | target :: targets =>
    match visit g scope t target with
    | .error e => .error e
    | .ok u => visitAll g scope u targets

/-- Terminals may be placed in two parts. -/
theorem visitAll_append (g : Graph) (scope : Option Region) (t : Traversal)
    (before after : List TerminalId) :
    visitAll g scope t (before ++ after) =
      visitAll g scope t before >>= fun u => visitAll g scope u after := by
  induction before generalizing t with
  | nil => rfl
  | cons target before ih =>
    simp only [List.cons_append, visitAll]
    cases visit g scope t target with
    | error e => rfl
    | ok u => exact ih u

end Traversal

end MessagePlan
