import MessagePlan.Proofs.Schedule.Order
import MessagePlan.Proofs.Schedule.Targets
import MessagePlan.Proofs.Outcomes

/-!
# The Recursion Behind a Traversal

What a traversal does with a stack of its own is easiest to say without one. To place a terminal:
if it has been placed, nothing is left to do; if it is being placed already, there is a loop.
Otherwise it is being placed from now on, what is needed at each other terminal of its node is
placed first, in the node's order, and then the terminal itself. Here the recursion is written down
so, and the traversal is shown to be the same: for any targets it ends with the same list, or with
the same refusal of the same terminal.

This is said of any graph, whatever its partners and nodes refer to. Nothing has to be symmetric and
nothing has to be reachable. Where all handles of a graph lead to something, there is always a list
or a stated cause.

A traversal under way is determined by its stack and the list of what it has placed: the marks say
which terminals are in the list and which on the stack, and no more (`Traversal.state`). What is
below a frame has no influence on what is done above it. So the induction is along the recursion,
for any frames below: to enter a terminal and go on is to place it by the recursion and go on with
the frames as they were.

## Main definitions

* `Graph.place`, `Graph.placeInputs`: The recursion, for a terminal and for what it needs.
* `Graph.placeAll`: The recursion for some targets, one after the other.
* `Graph.InRange`: Every handle that a graph refers to leads to something.
* `Traversal.state`: The traversal with a given stack that has placed a given list.

## Theorems

* `enter_state`, `step_state_nil`, `step_state_cons`: The moves of a traversal, said of its stack
  and its list.
* `run_state`: A run goes on above its stack as the recursion does.
* `visit_state`: A visit is the recursion that starts with nothing being placed.
* `InRange.answers_place`: Where all handles lead to something, the recursion has an answer.
* `listed_eq_placeAll`: The list for some targets is what the recursion places.
-/

namespace MessagePlan

namespace Graph

/-! ### The recursion -/

/-- The terminals that are not being placed. -/
def idle (g : Graph) (active : List TerminalId) : List TerminalId :=
  g.terminalIds.filter (· ∉ active)

variable {g : Graph} {active : List TerminalId} {x y : TerminalId}

/-- Each terminal that is being placed leaves fewer that are not. -/
theorem length_idle_lt (hx : g.hasTerminal x = true) (hnew : x ∉ active) :
    (g.idle (x :: active)).length < (g.idle active).length := by
  have hfilter : g.idle (x :: active) = (g.idle active).filter (· ≠ x) := by
    rw [idle, idle, List.filter_filter]
    refine List.filter_congr fun y _ => ?_
    simp only [List.mem_cons, not_or, Bool.decide_and]
  rw [hfilter, List.length_filter_lt_length_iff_exists]
  refine ⟨x, List.mem_filter.2 ⟨mem_terminalIds.2 hx, decide_eq_true hnew⟩, ?_⟩
  simp only [ne_eq, not_true, decide_false, Bool.false_eq_true, not_false_eq_true]

mutual

/-- What has been placed when a terminal has been, if some are being placed and some have been. -/
def place (g : Graph) (scope : Option Region) (active : List TerminalId) (result : Schedule)
    (x : TerminalId) : Except (Failure ScheduleError) Schedule :=
  if x ∈ result then .ok result
  else if x ∈ active then do refuse (.unbrokenLoop x (← g.label x))
  else if g.hasTerminal x then do
    let node ← g.ownerOf x
    return (← placeInputs g scope (x :: active) result x node.terminals) ++ [x]
  else .error .noSuchHandle
termination_by ((g.idle active).length, 0)
decreasing_by exact .left _ _ (length_idle_lt ‹_› ‹_›)

/-- What has been placed when all has been that is needed for a terminal at some terminals of its
    node. -/
def placeInputs (g : Graph) (scope : Option Region) (active : List TerminalId) (result : Schedule)
    (x : TerminalId) : List TerminalId → Except (Failure ScheduleError) Schedule
  | [] => .ok result
  | y :: ys => do
    if y = x then return ← placeInputs g scope active result x ys
    let terminal ← g.terminal y
    if !inScope scope terminal.edge then return ← placeInputs g scope active result x ys
    match terminal.partner with
    | none => refuse (.disconnected y (← g.label y))
    | some p =>
      if (← g.hasMessage p) || p ∈ result then placeInputs g scope active result x ys
      else placeInputs g scope active (← place g scope active result p) x ys
termination_by ys => ((g.idle active).length, ys.length)
decreasing_by
  -- The rest of the terminals is shorter, and to place one needs no part of the list.
  all_goals first
    | exact .right _ (Nat.lt_succ_self _)
    | exact .right _ (Nat.zero_lt_succ _)

end

/-- What has been placed when some targets have been, one after the other. -/
def placeAll (g : Graph) (scope : Option Region) (result : Schedule) :
    List TerminalId → Except (Failure ScheduleError) Schedule
  | [] => .ok result
  | target :: targets =>
    if g.hasTerminal target then do
      g.placeAll scope (← g.place scope [] result target) targets
    else refuse (.unknownTerminal target)

variable {scope : Option Region} {result : Schedule} {ys : List TerminalId}

theorem place_of_mem (hx : x ∈ result) : g.place scope active result x = .ok result := by
  rw [place, if_pos hx]

/-- What is needed at a terminal is placed, as the traversal finds it, and then the rest. -/
theorem placeInputs_cons : g.placeInputs scope active result x (y :: ys) =
    needAt g scope x y >>= fun need => match need with
      | none => g.placeInputs scope active result x ys
      | some p => g.place scope active result p >>= fun r =>
        g.placeInputs scope active r x ys := by
  rw [placeInputs, needAt]
  by_cases hyx : y = x
  · rw [if_pos hyx, if_pos hyx]
    rfl
  rw [if_neg hyx, if_neg hyx, bind_assoc]
  refine bind_congr fun terminal => ?_
  cases inScope scope terminal.edge with
  | false => rfl
  | true =>
    simp only [Bool.not_true, Bool.false_eq_true, if_false]
    cases terminal.partner with
    | none =>
      simp only [bind_assoc]
      exact bind_congr fun l => rfl
    | some p =>
      simp only [bind_assoc]
      refine bind_congr fun held => ?_
      cases held with
      | true => rfl
      | false =>
        -- The recursion need not ask whether `p` has been placed: to place it again does nothing.
        by_cases hp : p ∈ result
        · simp only [hp, decide_true, Bool.or_true, if_true, Bool.false_eq_true, if_false,
            pure_bind, place_of_mem hp, ok_bind]
        · simp only [hp, decide_false, Bool.or_false, Bool.false_eq_true, if_false, pure_bind]

end Graph

namespace Traversal

variable {g : Graph} {scope : Option Region} {stack below : List Frame} {result : Schedule}
  {active ys : List TerminalId} {x y p : TerminalId}

/-! ### The moves of a traversal, by its stack and its list -/

/-- The marks that say which terminals have been placed and which are being placed. -/
def marksOf (g : Graph) (active : List TerminalId) (result : Schedule) : Array Mark :=
  Array.ofFn (n := g.terminals.size) fun i =>
    if ⟨i⟩ ∈ result then .placed else if ⟨i⟩ ∈ active then .active else .unmet

/-- The traversal with a stack that has placed a list. -/
def state (g : Graph) (stack : List Frame) (result : Schedule) : Traversal :=
  { stack, marks := marksOf g (stack.map Frame.terminal) result, order := result.toArray }

theorem size_marksOf : (marksOf g active result).size = g.terminals.size := Array.size_ofFn

theorem getElem_marksOf {i : Nat} (hi : i < (marksOf g active result).size) :
    (marksOf g active result)[i] =
      if ⟨i⟩ ∈ result then .placed else if ⟨i⟩ ∈ active then .active else .unmet :=
  Array.getElem_ofFn _

theorem marksOf_set_active (hp : p.index < (marksOf g active result).size) (hnew : p ∉ result) :
    (marksOf g active result).set p.index .active hp = marksOf g (p :: active) result := by
  refine Array.ext (by rw [Array.size_set, size_marksOf, size_marksOf]) fun i hi _ => ?_
  rw [Array.getElem_set, getElem_marksOf, getElem_marksOf]
  by_cases hip : p.index = i
  · subst hip
    rw [if_pos rfl, if_neg hnew, if_pos List.mem_cons_self]
  · have hne : (⟨i⟩ : TerminalId) ≠ p := fun heq => hip (heq ▸ rfl)
    simp only [hip, if_false, List.mem_cons, hne, false_or]

theorem marksOf_set_placed : (marksOf g (x :: active) result).setIfInBounds x.index .placed =
    marksOf g active (result ++ [x]) := by
  refine Array.ext (by rw [Array.size_setIfInBounds, size_marksOf, size_marksOf]) fun i hi _ => ?_
  rw [Array.size_setIfInBounds] at hi
  rw [Array.getElem_setIfInBounds hi, getElem_marksOf, getElem_marksOf]
  by_cases hix : x.index = i
  · subst hix
    rw [if_pos rfl, if_pos (List.mem_append_right _ (List.mem_singleton.2 rfl))]
  · have hne : (⟨i⟩ : TerminalId) ≠ x := fun heq => hix (heq ▸ rfl)
    simp only [hix, if_false, List.mem_cons, List.mem_append, List.not_mem_nil, hne, false_or,
      or_false]

theorem start_eq_state : start g = state g [] [] := by
  refine congrArg (Traversal.mk [] · #[]) (Array.ext ?_ fun i _ _ => ?_)
  · rw [Array.size_replicate, size_marksOf]
  · rw [Array.getElem_replicate, getElem_marksOf]
    rfl

/-- A terminal that is entered has been placed, is being placed, or is put on the stack. -/
theorem enter_state (hp : g.hasTerminal p = true) : enter g p (state g stack result) =
    if p ∈ result then .ok (state g stack result)
    else if p ∈ stack.map Frame.terminal then do refuse (.unbrokenLoop p (← g.label p))
    else do return state g (⟨p, (← g.ownerOf p).terminals⟩ :: stack) result := by
  have hsize : p.index < (state g stack result).marks.size :=
    size_marksOf.symm ▸ Graph.hasTerminal_iff.1 hp
  have hmark : (state g stack result).marks[p.index] = if p ∈ result then .placed
      else if p ∈ stack.map Frame.terminal then .active else .unmet := getElem_marksOf hsize
  rw [enter, dif_pos hsize]
  -- The mark tells which of the three cases it is: in the list, on the stack, or neither.
  by_cases hplaced : p ∈ result
  · rw [if_pos hplaced] at hmark ⊢
    simp only [hmark]
    rfl
  rw [if_neg hplaced] at hmark ⊢
  by_cases hactive : p ∈ stack.map Frame.terminal
  · rw [if_pos hactive] at hmark ⊢
    simp only [hmark]
  rw [if_neg hactive] at hmark ⊢
  simp only [hmark]
  refine bind_congr fun node => ?_
  exact congrArg (fun marks => Except.ok (Traversal.mk _ marks _))
    (marksOf_set_active hsize hplaced)

/-- A frame that is done leaves the stack, and its terminal is placed. -/
theorem step_state_nil : step g scope (state g (⟨x, []⟩ :: below) result) =
    .ok (state g below (result ++ [x])) := by
  refine congrArg Except.ok ?_
  simp only [state, List.map_cons, marksOf_set_placed, List.push_toArray]

/-- What is needed at the next terminal of a frame is entered. -/
theorem step_state_cons : step g scope (state g (⟨x, y :: ys⟩ :: below) result) =
    needAt g scope x y >>= fun need => match need with
      | none => .ok (state g (⟨x, ys⟩ :: below) result)
      | some p => enter g p (state g (⟨x, ys⟩ :: below) result) := by
  simp only [step, state]
  cases needAt g scope x y with
  | error e => rfl
  | ok need => cases need <;> rfl

/-! ### A run as the recursion -/

/-- What is needed was asked whether it holds a message, so it is there. -/
theorem hasTerminal_of_needAt (h : needAt g scope x y = .ok (some p)) :
    g.hasTerminal p = true := by
  unfold needAt at h
  split at h
  · cases h
  rcases bind_eq_ok.1 h with ⟨terminal, _, h⟩
  split at h
  · cases h
  split at h
  · rcases bind_eq_ok.1 h with ⟨l, _, h⟩
    cases h
  · rcases bind_eq_ok.1 h with ⟨held, hheld, h⟩
    -- It was looked whether the partner holds a message, and for that it has to be there.
    rcases bind_eq_ok.1 hheld with ⟨there, hthere, _⟩
    split at h
    · cases h
    · rcases Option.some.inj (Except.ok.inj h) with rfl
      exact Graph.hasTerminal_iff.2 (Array.getElem?_eq_some_iff.1 (handled_eq_ok.1 hthere)).1

/-- To enter a terminal and go on is to place it by the recursion, and to go on with the stack as it
    was. -/
def EntersAs (g : Graph) (scope : Option Region) (active : List TerminalId) (result : Schedule)
    (x : TerminalId) : Prop :=
  ∀ stack, stack.map Frame.terminal = active → g.hasTerminal x = true →
    enter g x (state g stack result) >>= run g scope =
      g.place scope active result x >>= fun r => run g scope (state g stack r)

/-- To go on with a frame is to place what is needed at its terminals by the recursion, and to go on
    with the frame gone through. -/
def GoesThrough (g : Graph) (scope : Option Region) (active : List TerminalId) (result : Schedule)
    (x : TerminalId) (ys : List TerminalId) : Prop :=
  ∀ below, x :: below.map Frame.terminal = active →
    run g scope (state g (⟨x, ys⟩ :: below) result) =
      g.placeInputs scope active result x ys >>= fun r =>
        run g scope (state g (⟨x, []⟩ :: below) r)

/-- A run goes on above its stack as the recursion does, whatever is below. -/
theorem run_state (g : Graph) (scope : Option Region) :
    (∀ active result x, EntersAs g scope active result x) ∧
      ∀ active result x ys, GoesThrough g scope active result x ys := by
  apply Graph.place.mutual_induct g (EntersAs g scope) (GoesThrough g scope)
  -- The terminal has been placed.
  · intro active result x hx stack _ hthere
    rw [enter_state hthere, if_pos hx, Graph.place_of_mem hx]
    rfl
  -- The terminal is being placed.
  · rintro active result x hnew hx stack rfl hthere
    rw [enter_state hthere, if_neg hnew, if_pos hx, Graph.place, if_neg hnew, if_pos hx]
    simp only [bind_assoc]
    exact bind_congr fun l => rfl
  -- The terminal is met: its frame is gone through, and is done.
  · rintro active result x hnew hx hthere ih stack rfl _
    rw [enter_state hthere, if_neg hnew, if_neg hx, Graph.place, if_neg hnew, if_neg hx,
      if_pos hthere]
    simp only [bind_assoc]
    refine bind_congr fun node => ?_
    rw [pure_bind, ih node stack rfl]
    refine bind_congr fun r => ?_
    rw [run_eq_step (List.cons_ne_nil _ _), step_state_nil]
    rfl
  -- The terminal is not there.
  · intro active result x _ _ hnot stack _ hthere
    exact absurd hthere hnot
  -- Nothing is left of the frame.
  · intro active result x below _
    rw [Graph.placeInputs]
    rfl
  -- The terminal that was to be looked at is the frame's own.
  · intro active result y ys ih below hbelow
    rw [run_eq_step (List.cons_ne_nil _ _), step_state_cons, Graph.placeInputs_cons, needAt,
      if_pos rfl]
    exact ih below hbelow
  -- Another terminal is looked at, and what is needed there is placed first.
  · intro active result x y ys _ ih ihplace ihrest below hbelow
    rw [run_eq_step (List.cons_ne_nil _ _), step_state_cons, Graph.placeInputs_cons, bind_assoc,
      bind_assoc]
    cases hneed : needAt g scope x y with
    | error e => rfl
    | ok need =>
      cases need with
      | none => exact ih below hbelow
      | some p =>
        simp only [ok_bind, bind_assoc]
        rw [ihplace p (⟨x, ys⟩ :: below) hbelow (hasTerminal_of_needAt hneed)]
        exact bind_congr fun r => ihrest r below hbelow

/-- A visit that finds nothing under way is the recursion. -/
theorem visit_state : visit g scope (state g [] result) x =
    if g.hasTerminal x then do return state g [] (← g.place scope [] result x)
    else refuse (.unknownTerminal x) := by
  rw [visit]
  cases hx : g.hasTerminal x with
  | false => rfl
  | true =>
    -- With the stack empty the machine runs to the end of one descent, and stops.
    have hrun : enter g x (state g [] result) >>= run g scope =
        g.place scope [] result x >>= fun r => .ok (state g [] r) := by
      rw [(run_state g scope).1 [] result x [] rfl hx]
      exact bind_congr fun r => run_of_empty rfl
    simp only [if_true]
    refine Eq.trans ?_ hrun
    cases enter g x (state g [] result) <;> rfl

theorem visitAll_state (targets : List TerminalId) : visitAll g scope (state g [] result) targets =
    g.placeAll scope result targets >>= fun r => .ok (state g [] r) := by
  induction targets generalizing result with
  | nil => rfl
  | cons target targets ih =>
    rw [visitAll, visit_state, Graph.placeAll]
    cases g.hasTerminal target with
    | false => rfl
    | true =>
      simp only [if_true]
      cases g.place scope [] result target with
      | error e => rfl
      | ok r => exact ih

end Traversal

/-! ### Lists and answers -/

/-- Every handle that a graph refers to leads to something. -/
structure Graph.InRange (g : Graph) : Prop where
  owner : ∀ t ∈ g.terminals, t.node.slot < g.nodes.size
  partner : ∀ t ∈ g.terminals, ∀ p ∈ t.partner, g.hasTerminal p = true
  listed : ∀ n ∈ g.nodes, ∀ p ∈ n.terminals, g.hasTerminal p = true

variable {g : Graph} {scope : Option Region} {x y : TerminalId}

/-- No handle leads nowhere in a well-formed graph. -/
theorem Graph.WellFormed.inRange (h : g.WellFormed) : g.InRange where
  owner t ht := by
    rcases Array.getElem?_of_mem ht with ⟨i, hi⟩
    rcases h.owner ⟨i⟩ t.node (by rw [Graph.nodeIdOf?, hi, Option.map_some]) with ⟨_, ps, hps, _⟩
    rcases Option.map_eq_some_iff.1 hps with ⟨node, hnode, _⟩
    exact (Array.getElem?_eq_some_iff.1 hnode).1
  partner t ht p hp := by
    rcases Array.getElem?_of_mem ht with ⟨i, hi⟩
    refine h.hasTerminal_of_partner? (x := ⟨i⟩) ?_
    rw [Graph.partner?, hi, Option.bind_some]
    exact hp
  listed n hn p hp := by
    rcases Array.getElem?_of_mem hn with ⟨i, hi⟩
    refine Graph.hasTerminal_of_nodeIdOf? ((h.listed i n.terminals ?_).2 p hp)
    rw [Graph.portsAt?, hi, Option.map_some]

namespace Graph.InRange

variable {ε : Type} (h : g.InRange)

include h

theorem node_eq_ok (hx : g.hasTerminal x = true) :
    ∃ terminal node, (g.terminal x : Except (Failure ε) Terminal) = .ok terminal ∧
      terminal ∈ g.terminals ∧ (g.node terminal.node : Except (Failure ε) Node) = .ok node ∧
      node ∈ g.nodes := by
  have hlt := Graph.hasTerminal_iff.1 hx
  have hmem : g.terminals[x.index] ∈ g.terminals := Array.getElem_mem hlt
  have hnode := h.owner _ hmem
  refine ⟨_, g.nodes[g.terminals[x.index].node.slot], terminal_eq_of_lt hlt, hmem, ?_,
    Array.getElem_mem hnode⟩
  rw [Graph.node, Array.getElem?_eq_getElem hnode, handled_some]

theorem answers_label (hx : g.hasTerminal x = true) :
    Answers (g.label x : Except (Failure ε) String) fun _ => True := by
  rcases h.node_eq_ok (ε := ε) hx with ⟨terminal, node, hterminal, _, hnode, _⟩
  unfold label
  rw [handled_eq_ok.1 hterminal]
  simp only [hnode]
  trivial

theorem answers_needAt (hy : g.hasTerminal y = true) :
    Answers (needAt g scope x y) fun _ => True := by
  unfold needAt
  split
  · trivial
  rcases h.node_eq_ok (ε := ScheduleError) hy with ⟨terminal, _, hterminal, hmem, _, _⟩
  rw [hterminal, ok_bind]
  split
  · trivial
  split
  · exact (h.answers_label hy).bind fun l _ => answers_refuse _
  · rename_i p hp
    -- A partner is in range, so its message can be looked for.
    have hthere := h.partner terminal hmem p hp
    rw [Graph.hasMessage, terminal_eq_of_lt (Graph.hasTerminal_iff.1 hthere), ok_bind, pure_bind]
    split <;> trivial

/-- Where all handles lead to something, to place a terminal by the recursion has an answer. -/
theorem answers_place (scope : Option Region) :
    (∀ active result x, g.hasTerminal x = true →
      Answers (g.place scope active result x) fun _ => True) ∧
    ∀ active result x ys, (∀ y ∈ ys, g.hasTerminal y = true) →
      Answers (g.placeInputs scope active result x ys) fun _ => True := by
  apply Graph.place.mutual_induct g
    (fun active result x => g.hasTerminal x = true →
      Answers (g.place scope active result x) fun _ => True)
    (fun active result x ys => (∀ y ∈ ys, g.hasTerminal y = true) →
      Answers (g.placeInputs scope active result x ys) fun _ => True)
  -- The terminal has been placed.
  · intro active result x hx _
    rw [Graph.place_of_mem hx]
    trivial
  -- The terminal is being placed.
  · intro active result x hnew hx hthere
    rw [Graph.place, if_neg hnew, if_pos hx]
    exact (h.answers_label hthere).bind fun l _ => answers_refuse _
  -- The terminal is met, and its node lists terminals that are there.
  · intro active result x hnew hx hthere ih _
    rcases h.node_eq_ok (ε := ScheduleError) hthere with ⟨terminal, node, hterminal, _, hnode, hmem⟩
    rw [Graph.place, if_neg hnew, if_neg hx, if_pos hthere, Graph.ownerOf, hterminal, ok_bind,
      hnode, ok_bind]
    exact (ih node (h.listed node hmem)).bind fun r _ => trivial
  -- The terminal is not there.
  · intro active result x _ _ hnot hthere
    exact absurd hthere hnot
  -- Nothing is left to look at.
  · intro active result x _
    rw [Graph.placeInputs]
    trivial
  -- The terminal that was to be looked at is the one that is placed.
  · intro active result y ys ih hthere
    rw [Graph.placeInputs, if_pos rfl]
    exact ih fun z hz => hthere z (List.mem_cons_of_mem y hz)
  -- Another terminal is looked at, and what is needed there is placed first.
  · intro active result x y ys _ ih ihplace ihrest hthere
    have hrest : ∀ z ∈ ys, g.hasTerminal z = true := fun z hz =>
      hthere z (List.mem_cons_of_mem y hz)
    rw [Graph.placeInputs_cons]
    cases hneed : needAt g scope x y with
    | error e =>
      have hanswers : Answers (needAt g scope x y) fun _ => True :=
        h.answers_needAt (hthere y List.mem_cons_self)
      rw [hneed] at hanswers
      cases e <;> exact hanswers
    | ok need =>
      cases need with
      | none => exact ih hrest
      | some p =>
        exact (ihplace p (Traversal.hasTerminal_of_needAt hneed)).bind fun r _ => ihrest r hrest

theorem answers_placeAll (scope : Option Region) (result : Schedule) (targets : List TerminalId) :
    Answers (g.placeAll scope result targets) fun _ => True := by
  induction targets generalizing result with
  | nil => trivial
  | cons target targets ih =>
    unfold Graph.placeAll
    split
    · rename_i hthere
      exact ((h.answers_place scope).1 [] result target hthere).bind fun r _ => ih r
    · exact answers_refuse _

end Graph.InRange

/-- On any graph, in any scope and for any targets, the traversal that places the targets one after
    the other ends with the list that the recursion makes for them, or with its refusal; and where
    all handles of the graph lead to something, it is one of the two. -/
theorem listed_eq_placeAll (g : Graph) (scope : Option Region) (targets : List TerminalId) :
    listed g scope targets = g.placeAll scope [] targets ∧
      (g.InRange → Answers (listed g scope targets) fun _ => True) := by
  have hsame : listed g scope targets = g.placeAll scope [] targets := by
    rw [listed, Traversal.start_eq_state, Traversal.visitAll_state]
    cases g.placeAll scope [] targets <;> rfl
  refine ⟨hsame, fun h => ?_⟩
  rw [hsame]
  exact h.answers_placeAll scope [] targets

/-- A terminal whose partner does not know of it. -/
def oneSided : Graph :=
  { Graph.empty ⟨1⟩ with
    nodes := #[⟨"x", "Link", [⟨0⟩, ⟨1⟩], none, []⟩, ⟨"y", "Source", [⟨2⟩], none, []⟩]
    terminals := #[⟨⟨⟨1⟩, 0⟩, "in1", none, some ⟨2⟩, none⟩, ⟨⟨⟨1⟩, 0⟩, "out", none, none, none⟩,
      ⟨⟨⟨1⟩, 1⟩, "out", none, none, none⟩] }

/-- Partners need not be mutual: what is needed from one side is placed first. -/
theorem listed_eq_placeAll_oneSided :
    oneSided.InRange ∧ oneSided.placeAll none [] [⟨1⟩, ⟨2⟩] = .ok [⟨2⟩, ⟨1⟩] ∧
      Answers (listed oneSided none [⟨1⟩, ⟨0⟩]) fun _ => True := by
  have hrange : oneSided.InRange := ⟨by decide, by decide, by decide⟩
  have hsteps : Traversal.listedWithin oneSided none 8 [⟨1⟩, ⟨2⟩] = some [⟨2⟩, ⟨1⟩] := by
    decide +kernel
  refine ⟨hrange, ?_, (listed_eq_placeAll oneSided none [⟨1⟩, ⟨0⟩]).2 hrange⟩
  rw [← (listed_eq_placeAll oneSided none [⟨1⟩, ⟨2⟩]).1]
  exact Traversal.listed_eq_of_listedWithin hsteps

end MessagePlan
