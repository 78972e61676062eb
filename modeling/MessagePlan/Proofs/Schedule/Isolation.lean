import MessagePlan.Proofs.Schedule.Shape

/-!
# Regions Do Not See Each Other's Messages

A message on a terminal can spare a schedule the work of computing it. So it has to be said which
messages the schedules of a region depend on. They are those inside the region: a message on a
terminal without an edge, or on an edge of another region, may be set, replaced or taken away, and
no schedule of the region changes, nor does any refusal. Therefore the regions of a partition can be
scheduled while messages of others come and go.

The traversal asks for messages at partners, and looks at the scope on the near side of the edge. A
partner shares its edge with the terminal that leads to it. So where the near side is inside, the
partner is too, and it is not the terminal whose message has changed.

Nothing is assumed about the partition, or about the schedules that it stores.

## Main definitions

* `Operation.OnMessage`: An operation that sets the message of a terminal or takes it away.
* `Graph.withMessage`: The graph with another message on a terminal, or with none.

## Theorems

* `apply_setMessage`, `apply_onMessage`: Such an operation changes the message of the terminal and
  nothing else.
* `sameNeeds_withMessage`: A message outside a region changes no need inside.
* `scheduleOf_isolated`: The schedules of a region do not depend on messages outside.
-/

namespace MessagePlan

/-- An operation that sets the message of a terminal or takes it away. -/
inductive Operation.OnMessage (i : TerminalId) : Operation → Prop
  | set (message : Message) : OnMessage i (.setMessage i message)
  | clear : OnMessage i (.clearMessage i)

/-- The graph with another message on a terminal, or with none. -/
def Graph.withMessage (g : Graph) (i : TerminalId) (message : Option Message) : Graph :=
  { g with terminals := g.terminals.modify i.index fun t => { t with message } }

variable {g : Graph} {r : Region} {i p : TerminalId} {message : Option Message} {op : Operation}

/-- A terminal that is not there gets no message. -/
theorem withMessage_of_not_hasTerminal (hi : g.hasTerminal i = false) :
    g.withMessage i message = g := by
  rw [Graph.hasTerminal, decide_eq_false_iff_not, Nat.not_lt] at hi
  refine congrArg (fun terminals => { g with terminals }) (Array.ext_getElem? fun j => ?_)
  rw [Array.getElem?_modify]
  split
  · rename_i hij
    rw [← hij, Array.getElem?_eq_none hi, Option.map_none]
  · rfl

/-- To set a message changes that message and nothing else; on a terminal that is not there it is
    refused, and there is no message to change. -/
theorem apply_setMessage (g : Graph) (i : TerminalId) (message : Message) :
    g.apply (.setMessage i message) = g.withMessage i (some message) := by
  simp only [Graph.apply, Graph.setMessage]
  cases hi : g.hasTerminal i with
  | true => rfl
  | false => exact (withMessage_of_not_hasTerminal hi).symm

/-- To set or clear a message is refused, or changes that message and nothing else. -/
theorem apply_onMessage (hop : op.OnMessage i) :
    ∃ message, g.apply op = g.withMessage i message := by
  cases hop with
  | set message => exact ⟨some message, apply_setMessage g i message⟩
  | clear =>
    refine ⟨none, ?_⟩
    simp only [Graph.apply, Graph.clearMessage]
    cases hget : g.terminals[i.index]? with
    | some terminal => rfl
    | none =>
      refine (withMessage_of_not_hasTerminal ?_).symm
      exact decide_eq_false (Nat.not_lt.2 (Array.getElem?_eq_none_iff.1 hget))

theorem sameShape_withMessage (g : Graph) (i : TerminalId) (message : Option Message) :
    g.SameShape (g.withMessage i message) where
  terminal j := by
    rw [Graph.withMessage, Array.getElem?_modify]
    split
    · rw [Option.map_map]
      rfl
    · rfl
  node _ := rfl
  edge _ := rfl

theorem message?_withMessage (hp : p ≠ i) :
    (g.withMessage i message).message? p = g.message? p := by
  have hne : i.index ≠ p.index := fun heq => hp (congrArg TerminalId.mk heq.symm)
  rw [Graph.message?, Graph.withMessage, Array.getElem?_modify, if_neg hne, Graph.message?]

theorem message?_withMessage_self (hi : g.hasTerminal i = true) :
    (g.withMessage i message).message? i = message := by
  rw [Graph.message?, Graph.withMessage, Array.getElem?_modify, if_pos rfl,
    Array.getElem?_eq_getElem (Graph.hasTerminal_iff.1 hi)]
  rfl

/-- A message outside a region changes nothing that is needed inside. -/
theorem sameNeeds_withMessage (h : g.WellFormed) (hi : ¬ Inside g (some r) i) :
    SameNeeds g (g.withMessage i message) (some r) (some r) := by
  refine (sameShape_withMessage g i message).sameNeeds fun y p hin hp => ?_
  -- The partner shares the edge that leads to it, so it is not the terminal outside.
  have hne : p ≠ i := by
    rintro rfl
    exact hi (inside_partner h ((inScope_eq_true_iff h hp).1 hin) hp)
  rw [message?_withMessage hne]

/-- To set a message on a terminal outside a region, or to take it away there, changes neither the
    schedule of the region, in whatever partition, nor a schedule for any terminal within it, nor a
    given order when it is completed there; and where one of these was refused, the refusal is the
    same. -/
theorem scheduleOf_isolated (hg : Reachable g) {p : Partition} {id : RegionId}
    (hr : p.region? id = some r) (hi : ¬ Inside g (some r) i) (hop : op.OnMessage i) :
    (∀ config, p.scheduleOf (g.apply op) config id = p.scheduleOf g config id) ∧
      (∀ t, (g.apply op).schedule t (some r) = g.schedule t (some r)) ∧
      ∀ entries, (g.apply op).completePartial entries r = g.completePartial entries r := by
  rcases apply_onMessage (g := g) hop with ⟨message, heq⟩
  have hshape := sameShape_withMessage g i message
  have hneeds : SameNeeds g (g.withMessage i message) (some r) (some r) :=
    sameNeeds_withMessage (Graph.wellFormed_of_reachable hg) hi
  rw [heq]
  refine ⟨fun config => ?_, fun t => schedule_congr hshape hneeds t, fun entries => ?_⟩
  · exact scheduleOf_congr hshape (s := r.schedule) hneeds hr hr rfl rfl config
  · exact completePartial_congr hshape (s := r.schedule) hneeds entries

/-- The half of the source does not ask what the sink is told: its schedule is the same with a
    message on the sink. -/
theorem scheduleOf_isolated_relay :
    Reachable relayGraph ∧ halves.region? ⟨0⟩ = some (halfOfTwo 0 1) ∧
      ¬ Inside relayGraph (some (halfOfTwo 0 1)) ⟨3⟩ ∧
      halves.scheduleOf (relayGraph.apply (.setMessage ⟨3⟩ ⟨.gaussian, .series [0, 1]⟩)) {} ⟨0⟩ =
        .ok [⟨0⟩, ⟨1⟩] := by
  have hi : ¬ Inside relayGraph (some (halfOfTwo 0 1)) ⟨3⟩ := by
    rw [← isOn_inner_iff]
    decide +kernel
  have hr : halves.region? ⟨0⟩ = some (halfOfTwo 0 1) := rfl
  refine ⟨reachable_relayGraph, hr, hi, ?_⟩
  rw [(scheduleOf_isolated reachable_relayGraph hr hi (.set _)).1 {}]
  exact scheduleOf_relayGraph_source

end MessagePlan
