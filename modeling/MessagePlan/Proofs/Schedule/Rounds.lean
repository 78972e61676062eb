import Mathlib.Algebra.GroupWithZero.Nat
import Mathlib.Data.List.Perm.Subperm
import MessagePlan.Proofs.Schedule.Recursion

/-!
# How Many Rounds a Traversal Takes

A traversal goes around a loop: in each round the frame on top of the stack looks at one more
terminal of its node, or leaves the stack when it has looked at all of them. The stack grows and
shrinks, on a graph that may well have cycles, so neither its height nor the length of a path bounds
the number of rounds. What does is that no terminal gets a second frame. A terminal that is put on
the stack is marked as active, and when it leaves it is marked as placed; no mark is ever taken
back, and only a terminal that has not been met is put on the stack. So a round is told apart from
all others by its terminal and by how far the frame has come, and there are as many rounds at most
as there are terminals to look at, plus one for leaving.

A list says nothing of the rounds that led to it. `Traversal.loop` goes through the same steps as a
run and keeps a log of them, `Traversal.resolve` does so for a target, and `Traversal.life` for some
targets that are asked for one after the other. A refusal is no end here: it leaves the traversal as
it is, with the frames that were on the stack, and the next target is asked for on top of them.

Nothing is assumed of the graph. Where all its handles lead to something, every refusal has a cause.

## Main definitions

* `Round`: A round of the loop.
* `Log`: What has happened to a traversal, and what it has come to.
* `Traversal.loop`, `Traversal.resolve`, `Traversal.life`: The moves of a traversal with their log.
* `Tidy`: The rounds of a log are told apart.

## Theorems

* `outcome_loop`, `outcome_resolve`, `outcome_life`: The log is that of the traversal itself.
* `step_of_looks`, `step_of_done`: What a step does, on any graph.
* `Tidy.look`, `Tidy.place`, `Tidy.enter`: The moves of a traversal keep its log tidy.
* `Tidy.step`, `Tidy.loop`, `Tidy.life`: A log stays tidy for life.
* `Tidy.length_rounds_le`: How many rounds there are.
* `Tidy.stated_life`: Why a target is refused.
* `rounds_bounded`: A traversal comes to an end, whatever it is asked for.
-/

namespace MessagePlan

/-- How many terminals of its node a frame has looked at. -/
def Frame.cursor (g : Graph) (f : Frame) : Nat := (g.ports f.terminal).length - f.rest.length

/-- A round of a traversal: the terminal of the frame on top, how many terminals of its node the
    frame has looked at before, and the one it looks at, if there is one left. -/
structure Round where
  terminal : TerminalId
  cursor : Nat
  port : Option TerminalId
deriving DecidableEq

/-- The terminal of a round, and how far its frame has come. -/
def Round.place (r : Round) : TerminalId × Nat := (r.terminal, r.cursor)

/-- The round that a frame makes when it is on top. -/
def Frame.round (g : Graph) (f : Frame) : Round := ⟨f.terminal, f.cursor g, f.rest.head?⟩

/-- What has happened to a traversal, in order: the terminals that were put on the stack, the rounds
    of the loop and the refusals; and what the traversal has come to. -/
structure Log where
  entered : List TerminalId
  rounds : List Round
  failures : List (Failure ScheduleError)
  after : Traversal

namespace Log

/-- Nothing has happened. -/
def idle (t : Traversal) : Log := ⟨[], [], [], t⟩

/-- What happens first, and then what happens next. -/
def followedBy (first next : Log) : Log :=
  { entered := first.entered ++ next.entered
    rounds := first.rounds ++ next.rounds
    failures := first.failures ++ next.failures
    after := next.after }

/-- The result up to the first refusal. -/
def outcome (l : Log) : Except (Failure ScheduleError) Traversal :=
  match l.failures with
  | [] => .ok l.after
  | e :: _ => .error e

end Log

namespace Traversal

/-- The terminals that have come onto the stack. -/
def pushed (before after : Traversal) : List TerminalId :=
  (after.stack.take (after.stack.length - before.stack.length)).map Frame.terminal

/-- The traversal whose frame on top has looked at its next terminal. -/
def looked (t : Traversal) : Traversal :=
  match t.stack with
  | ⟨x, _ :: rest⟩ :: below => { t with stack := ⟨x, rest⟩ :: below }
  | _ => t

/-- Each step of a traversal comes closer to the end. -/
theorem lex_of_step {g : Graph} {scope : Option Region} {t u : Traversal} (hs : t.stack ≠ [])
    (h : step g scope t = .ok u) :
    Prod.Lex (· < ·) (· < ·) (u.unmet, u.pending) (t.unmet, t.pending) := by
  rcases measure_of_step hs h with hu | ⟨hu, hp⟩
  · exact .left _ _ hu
  · rcases Nat.lt_or_eq_of_le hu with hu | hu
    · exact .left _ _ hu
    · exact hu ▸ .right _ hp

/-- Take steps until the stack is empty or a step fails, which leaves a terminal looked at. -/
def loop (g : Graph) (scope : Option Region) (t : Traversal) : Log :=
  match _hs : t.stack with
  | [] => .idle t
  | f :: _ =>
    match _h : step g scope t with
    | .error e => ⟨[], [f.round g], [e], t.looked⟩
    | .ok u => Log.followedBy ⟨t.pushed u, [f.round g], [], u⟩ (loop g scope u)
termination_by (t.unmet, t.pending)
decreasing_by exact lex_of_step (by rw [_hs]; exact List.cons_ne_nil _ _) _h

/-- Ask for a target: refuse one that is not there, have nothing to do for one that has been placed,
    and else put it on the stack and go around the loop. -/
def resolve (g : Graph) (scope : Option Region) (t : Traversal) (target : TerminalId) : Log :=
  if g.hasTerminal target = false then ⟨[], [], [.cause (.unknownTerminal target)], t⟩
  else if t.marks[target.index]? = some .placed then .idle t
  else
    match enter g target t with
    | .error e => ⟨[], [], [e], t⟩
    | .ok u => Log.followedBy ⟨t.pushed u, [], [], u⟩ (loop g scope u)

/-- Ask for some targets one after the other, whatever becomes of each. -/
def life (g : Graph) (scope : Option Region) (t : Traversal) : List TerminalId → Log
  | [] => .idle t
  | target :: targets =>
    (resolve g scope t target).followedBy (life g scope (resolve g scope t target).after targets)

variable {g : Graph} {scope : Option Region} {t u : Traversal} {target x : TerminalId}

/-! ### The log is that of the traversal -/

theorem outcome_followedBy (first next : Log) : (first.followedBy next).outcome =
    first.outcome >>= fun _ => next.outcome := by
  unfold Log.outcome Log.followedBy
  cases first.failures with
  | nil => rfl
  | cons e rest => rfl

/-- The loop ends as a run does. -/
theorem outcome_loop : (loop g scope t).outcome = run g scope t := by
  fun_induction loop g scope t with
  | case1 t hs =>
    rw [run_of_empty hs]
    rfl
  | case2 t f below hs e he =>
    rw [run_eq_step (by rw [hs]; exact List.cons_ne_nil _ _), he]
    rfl
  | case3 t f below hs u hu ih =>
    rw [run_eq_step (by rw [hs]; exact List.cons_ne_nil _ _), hu, outcome_followedBy, ih]
    rfl

/-- To ask for a target when the stack is empty is to visit it. -/
theorem outcome_resolve (ht : t.stack = []) :
    (resolve g scope t target).outcome = visit g scope t target := by
  unfold resolve visit
  by_cases hthere : g.hasTerminal target = true
  · rw [if_neg (by rw [hthere]; exact Bool.noConfusion), if_pos hthere]
    split
    · -- A visit enters the terminal, which changes nothing, and is over at once.
      rename_i hplaced
      rcases Array.getElem?_eq_some_iff.1 hplaced with ⟨hlt, hmark⟩
      rw [enter, dif_pos hlt, hmark]
      exact (run_of_empty ht).symm
    · cases enter g target t with
      | error e => rfl
      | ok u =>
        simp only [outcome_followedBy, outcome_loop]
        rfl
  · rw [if_pos (Bool.eq_false_iff.2 hthere), if_neg hthere]
    rfl

theorem after_of_outcome {l : Log} (h : l.outcome = .ok u) : l.after = u := by
  unfold Log.outcome at h
  split at h
  · exact Except.ok.inj h
  · exact nomatch h

/-- A visit ends with an empty stack. -/
theorem stack_of_visit (h : visit g scope t target = .ok u) : u.stack = [] := by
  unfold visit at h
  split at h
  · split at h
    · exact nomatch h
    · exact ((run_induction (fun _ => True) (fun _ _ _ _ _ => trivial) trivial).1 u h).2
  · exact nomatch h

/-- Up to the first refusal, to ask for some targets is to place them one after the other. -/
theorem outcome_life {targets : List TerminalId} (ht : t.stack = []) :
    (life g scope t targets).outcome = visitAll g scope t targets := by
  induction targets generalizing t with
  | nil => rfl
  | cons target targets ih =>
    rw [life, outcome_followedBy, outcome_resolve ht, visitAll]
    cases hvisit : visit g scope t target with
    | error e => rfl
    | ok u =>
      have hafter : (resolve g scope t target).after = u :=
        after_of_outcome ((outcome_resolve ht).trans hvisit)
      rw [hafter, ok_bind]
      exact ih (stack_of_visit hvisit)

/-! ### Steps on any graph -/

theorem ports_of_ownerOf {ε : Type} {node : Node}
    (h : (g.ownerOf x : Except (Failure ε) Node) = .ok node) : node.terminals = g.ports x := by
  rcases bind_eq_ok.1 h with ⟨terminal, hterminal, hnode⟩
  rw [Graph.ports, Graph.nodeIdOf?, handled_eq_ok.1 hterminal, Option.map_some, Option.bind_some,
    Graph.portsAt?, handled_eq_ok.1 hnode, Option.map_some, Option.getD_some]

/-- To enter a terminal puts it on the stack if it has not been met, or changes nothing. -/
theorem eq_of_enter (h : enter g x t = .ok u) : u = t ∨ t.marks[x.index]? = some .unmet ∧
    u = { t with
      stack := ⟨x, g.ports x⟩ :: t.stack, marks := t.marks.setIfInBounds x.index .active } := by
  unfold enter at h
  split at h
  · rename_i hlt
    split at h
    · rename_i hmark
      -- Only an unmet terminal is put on the stack; a placed one changes nothing.
      rcases bind_eq_ok.1 h with ⟨node, hnode, h⟩
      rw [← Except.ok.inj h, ports_of_ownerOf hnode, Array.setIfInBounds_def, dif_pos hlt,
        Array.getElem?_eq_getElem hlt, hmark]
      exact Or.inr ⟨rfl, rfl⟩
    · rcases bind_eq_ok.1 h with ⟨label, _, h⟩
      exact nomatch h
    · exact Or.inl (Except.ok.inj h).symm
  · exact nomatch h

theorem looked_of_stack {y : TerminalId} {rest : List TerminalId} {below : List Frame}
    (hstack : t.stack = ⟨x, y :: rest⟩ :: below) :
    t.looked = { t with stack := ⟨x, rest⟩ :: below } := by
  unfold looked
  rw [hstack]

/-- A frame with something left to look at passes it, or what is needed there is entered. -/
theorem step_of_looks {y : TerminalId} {rest : List TerminalId} {below : List Frame}
    (hstack : t.stack = ⟨x, y :: rest⟩ :: below) :
    step g scope t = needAt g scope x y >>= fun need =>
      match need with
      | none => .ok t.looked
      | some p => enter g p t.looked := by
  rw [looked_of_stack hstack]
  unfold step
  rw [hstack]
  simp only
  cases needAt g scope x y with
  | error e => rfl
  | ok need => cases need <;> rfl

theorem step_of_done {below : List Frame} (hstack : t.stack = ⟨x, []⟩ :: below) :
    step g scope t = .ok {
      stack := below
      marks := t.marks.setIfInBounds x.index .placed
      order := t.order.push x } := by
  unfold step
  rw [hstack]

end Traversal

/-- The log of a traversal is tidy. No terminal was put on the stack twice, and what was is not
    marked as unmet, which is where the traversal enters. No round was made twice, each looked at
    the port in its place, and the frames on the stack are ahead of the rounds they have made. -/
structure Tidy (g : Graph) (entered : List TerminalId) (rounds : List Round) (t : Traversal) :
    Prop where
  size : t.marks.size = g.terminals.size
  nodup_entered : entered.Nodup
  met : ∀ x ∈ entered, ∃ m, t.marks[x.index]? = some m ∧ m ≠ .unmet
  nodup_stack : (t.stack.map Frame.terminal).Nodup
  onStack : ∀ f ∈ t.stack, f.terminal ∈ entered ∧ f.rest <:+ g.ports f.terminal
  nodup_rounds : (rounds.map Round.place).Nodup
  made : ∀ r ∈ rounds, r.terminal ∈ entered ∧ r.cursor ≤ (g.ports r.terminal).length ∧
    r.port = (g.ports r.terminal)[r.cursor]?
  ahead : ∀ f ∈ t.stack, ∀ r ∈ rounds, r.terminal = f.terminal → r.cursor < f.cursor g

namespace Tidy

open Traversal

variable {g : Graph} {scope : Option Region} {t u : Traversal} {target x p : TerminalId}
  {entered : List TerminalId} {rounds : List Round} {f : Frame} {below : List Frame}

theorem start (g : Graph) : Tidy g [] [] (Traversal.start g) where
  size := Array.size_replicate
  nodup_entered := List.nodup_nil
  met _ hx := absurd hx List.not_mem_nil
  nodup_stack := List.nodup_nil
  onStack _ hf := absurd hf List.not_mem_nil
  nodup_rounds := List.nodup_nil
  made _ hr := absurd hr List.not_mem_nil
  ahead _ hf := absurd hf List.not_mem_nil

theorem lt_size (ht : Tidy g entered rounds t) (hx : x ∈ entered) : x.index < t.marks.size := by
  rcases ht.met x hx with ⟨m, hm, _⟩
  exact (Array.getElem?_eq_some_iff.1 hm).1

theorem hasTerminal (ht : Tidy g entered rounds t) (hx : x ∈ entered) : g.hasTerminal x = true :=
  Graph.hasTerminal_iff.2 (ht.size ▸ ht.lt_size hx)

/-- To mark a terminal as met does no harm. -/
theorem mark (ht : Tidy g entered rounds t) (hx : x.index < t.marks.size) {m : Mark}
    (hm : m ≠ .unmet) (order : Array TerminalId) : Tidy g entered rounds
      { stack := t.stack, marks := t.marks.setIfInBounds x.index m, order := order } where
  size := by rw [Array.size_setIfInBounds, ht.size]
  nodup_entered := ht.nodup_entered
  met z hz := by
    -- A mark is never taken back, and the new one is no sign of being unmet.
    rw [getElem?_mark hx]
    split
    · exact ⟨m, rfl, hm⟩
    · exact ht.met z hz
  nodup_stack := ht.nodup_stack
  onStack := ht.onStack
  nodup_rounds := ht.nodup_rounds
  made := ht.made
  ahead := ht.ahead

/-- A frame may be put on top if its terminal is on the stack nowhere else and the frame is ahead of
    the rounds made for it. -/
theorem push (ht : Tidy g entered rounds t) (hnew : f.terminal ∉ t.stack.map Frame.terminal)
    (hf : f.terminal ∈ entered) (hrest : f.rest <:+ g.ports f.terminal)
    (hahead : ∀ r ∈ rounds, r.terminal = f.terminal → r.cursor < f.cursor g) :
    Tidy g entered rounds { t with stack := f :: t.stack } where
  size := ht.size
  nodup_entered := ht.nodup_entered
  met := ht.met
  nodup_stack := List.nodup_cons.2 ⟨hnew, ht.nodup_stack⟩
  onStack f' hf' := by
    rcases List.mem_cons.1 hf' with rfl | hf'
    · exact ⟨hf, hrest⟩
    · exact ht.onStack f' hf'
  nodup_rounds := ht.nodup_rounds
  made := ht.made
  ahead f' hf' := by
    rcases List.mem_cons.1 hf' with rfl | hf'
    · exact hahead
    · exact ht.ahead f' hf'

/-- A terminal that has not been met may be added to those that were put on the stack, if it is
    marked. -/
theorem meet (ht : Tidy g entered rounds t) (hp : t.marks[p.index]? = some .unmet) {m : Mark}
    (hm : m ≠ .unmet) : Tidy g (entered ++ [p]) rounds
      { t with marks := t.marks.setIfInBounds p.index m } := by
  have hlt := (Array.getElem?_eq_some_iff.1 hp).1
  have hmarked := ht.mark hlt hm t.order
  refine ⟨hmarked.size, ?_, fun z hz => ?_, ht.nodup_stack, fun f hf => ?_, ht.nodup_rounds,
    fun r hr => ?_, ht.ahead⟩
  · refine List.nodup_append.2 ⟨ht.nodup_entered, List.pairwise_singleton _ p, ?_⟩
    rintro z hz q hq rfl
    rcases List.mem_singleton.1 hq with rfl
    -- What was entered has been met.
    rcases ht.met z hz with ⟨m', hm', hmet⟩
    rw [hp, Option.some.injEq] at hm'
    exact hmet hm'.symm
  · rcases List.mem_append.1 hz with hz | hz
    · exact hmarked.met z hz
    · rw [List.mem_singleton.1 hz, getElem?_mark hlt, if_pos rfl]
      exact ⟨m, rfl, hm⟩
  · exact ⟨List.mem_append_left _ (ht.onStack f hf).1, (ht.onStack f hf).2⟩
  · exact ⟨List.mem_append_left _ (ht.made r hr).1, (ht.made r hr).2⟩

/-- The frame on top has a round that was not made before, after which it may be taken off. -/
theorem round (ht : Tidy g entered rounds t) (hstack : t.stack = f :: below) :
    Tidy g entered (rounds ++ [f.round g]) { t with stack := below } := by
  have htop : f ∈ t.stack := hstack ▸ List.mem_cons_self
  have hbelow : ∀ f' ∈ below, f' ∈ t.stack := fun f' hf' => hstack ▸ List.mem_cons_of_mem f hf'
  have hnodup := ht.nodup_stack
  rw [hstack, List.map_cons, List.nodup_cons] at hnodup
  refine ⟨ht.size, ht.nodup_entered, ht.met, hnodup.2, fun f' hf' => ht.onStack f' (hbelow f' hf'),
    ?_, fun r hr => ?_, fun f' hf' r hr heq => ?_⟩
  · rw [List.map_append, List.map_singleton]
    refine List.nodup_append.2 ⟨ht.nodup_rounds, List.pairwise_singleton _ _, ?_⟩
    rintro place hplace other hother rfl
    rcases List.mem_map.1 hplace with ⟨r, hr, hr'⟩
    rw [List.mem_singleton.1 hother] at hr'
    -- The frame would be ahead of itself.
    rcases Prod.mk.inj hr' with ⟨hterminal, hcursor⟩
    have hlt := ht.ahead f htop r hr hterminal
    exact absurd hcursor (Nat.ne_of_lt hlt)
  · rcases List.mem_append.1 hr with hr | hr
    · exact ht.made r hr
    · rw [List.mem_singleton.1 hr]
      rcases ht.onStack f htop with ⟨hentered, seen, hports⟩
      refine ⟨hentered, Nat.sub_le _ _, ?_⟩
      simp only [Frame.round, Frame.cursor, ← hports, List.length_append, Nat.add_sub_cancel,
        List.getElem?_append_right (Nat.le_refl _), Nat.sub_self, List.head?_eq_getElem?]
  · rcases List.mem_append.1 hr with hr | hr
    · exact ht.ahead f' (hbelow f' hf') r hr heq
    · rw [List.mem_singleton.1 hr] at heq
      -- No other frame has the terminal of the one on top.
      exact absurd (List.mem_map.2 ⟨f', hf', heq.symm⟩) hnodup.1

/-! ### Moves keep a log tidy -/

/-- The frame on top looks at its next terminal. -/
theorem look (ht : Tidy g entered rounds t) {y : TerminalId} {rest : List TerminalId}
    (hstack : t.stack = ⟨x, y :: rest⟩ :: below) :
    Tidy g entered (rounds ++ [(⟨x, y :: rest⟩ : Frame).round g]) t.looked := by
  have hround := ht.round hstack
  have htop : ⟨x, y :: rest⟩ ∈ t.stack := hstack ▸ List.mem_cons_self
  have hnodup := ht.nodup_stack
  rw [hstack, List.map_cons, List.nodup_cons] at hnodup
  rcases ht.onStack _ htop with ⟨hentered, hsuffix⟩
  have hlength : rest.length + 1 ≤ (g.ports x).length := hsuffix.length_le
  rw [looked_of_stack hstack]
  refine hround.push (f := ⟨x, rest⟩) hnodup.1 hentered ((List.suffix_cons y rest).trans hsuffix) ?_
  -- The cursor goes on by one, and the rounds made up to now lie behind it.
  have hcursor : (⟨x, rest⟩ : Frame).cursor g = (⟨x, y :: rest⟩ : Frame).cursor g + 1 := by
    simp only [Frame.cursor, List.length_cons]
    omega
  intro r hr heq
  rw [hcursor]
  rcases List.mem_append.1 hr with hr | hr
  · exact Nat.lt_succ_of_lt (ht.ahead _ htop r hr heq)
  · rw [List.mem_singleton.1 hr]
    exact Nat.lt_succ_self _

/-- The terminal on top is placed when its frame has nothing left to look at. -/
theorem place (ht : Tidy g entered rounds t) (hstack : t.stack = ⟨x, []⟩ :: below)
    (order : Array TerminalId) :
    Tidy g entered (rounds ++ [(⟨x, []⟩ : Frame).round g])
      { stack := below, marks := t.marks.setIfInBounds x.index .placed, order := order } := by
  have htop : ⟨x, []⟩ ∈ t.stack := hstack ▸ List.mem_cons_self
  exact (ht.round hstack).mark (ht.lt_size (ht.onStack _ htop).1) (by decide) order

/-- What is entered is put on the stack, if at all, for the first time. -/
theorem enter (ht : Tidy g entered rounds t) (h : Traversal.enter g p t = .ok u) :
    Tidy g (entered ++ t.pushed u) rounds u := by
  rcases eq_of_enter h with rfl | ⟨hunmet, rfl⟩
  · rw [pushed, Nat.sub_self, List.take_zero, List.map_nil, List.append_nil]
    exact ht
  · have hpushed : t.pushed { t with
        stack := ⟨p, g.ports p⟩ :: t.stack
        marks := t.marks.setIfInBounds p.index .active } = [p] := by
      simp only [pushed, List.length_cons, Nat.add_sub_cancel_left, List.take_succ_cons,
        List.take_zero, List.map_cons, List.map_nil]
    -- There is no frame of the terminal, and no round, since it has not been met.
    have hnew : p ∉ entered := by
      intro hp
      rcases ht.met p hp with ⟨m, hm, hmet⟩
      rw [hunmet, Option.some.injEq] at hm
      exact hmet hm.symm
    rw [hpushed]
    refine (ht.meet hunmet (by decide)).push (f := ⟨p, g.ports p⟩) ?_
      (List.mem_append_right _ List.mem_cons_self) List.suffix_rfl fun r hr heq => ?_
    · intro hp
      rcases List.mem_map.1 hp with ⟨f, hf, rfl⟩
      exact hnew (ht.onStack f hf).1
    · rcases heq with rfl
      exact absurd (ht.made r hr).1 hnew

/-- A step is a round, after which there may be one terminal more on the stack. -/
theorem step (ht : Tidy g entered rounds t) (hstack : t.stack = f :: below)
    (h : Traversal.step g scope t = .ok u) :
    Tidy g (entered ++ t.pushed u) (rounds ++ [f.round g]) u := by
  rcases f with ⟨x, _ | ⟨y, rest⟩⟩
  · rw [step_of_done hstack] at h
    have hpushed : t.pushed u = [] := by
      rw [pushed, ← Except.ok.inj h, hstack, List.length_cons,
        Nat.sub_eq_zero_of_le (Nat.le_succ _), List.take_zero, List.map_nil]
    rw [hpushed, List.append_nil, ← Except.ok.inj h]
    exact ht.place hstack _
  · rw [step_of_looks hstack] at h
    rcases bind_eq_ok.1 h with ⟨need, _, h⟩
    -- To look at a terminal does not change the height of the stack.
    have hheight : t.pushed u = t.looked.pushed u := by
      rw [pushed, pushed, looked_of_stack hstack, hstack, List.length_cons, List.length_cons]
    have hlooked := ht.look hstack
    rw [hheight]
    cases need with
    | none =>
      rw [← Except.ok.inj h, pushed, Nat.sub_self, List.take_zero, List.map_nil, List.append_nil]
      exact hlooked
    | some p => exact hlooked.enter h

/-- A step that fails is a round too. -/
theorem refuse (ht : Tidy g entered rounds t) (hstack : t.stack = f :: below)
    {e : Failure ScheduleError}
    (h : Traversal.step g scope t = .error e) :
    Tidy g entered (rounds ++ [f.round g]) t.looked := by
  rcases f with ⟨x, _ | ⟨y, rest⟩⟩
  · rw [step_of_done hstack] at h
    exact nomatch h
  · exact ht.look hstack

theorem loop (ht : Tidy g entered rounds t) :
    Tidy g (entered ++ (Traversal.loop g scope t).entered)
      (rounds ++ (Traversal.loop g scope t).rounds) (Traversal.loop g scope t).after := by
  fun_induction Traversal.loop g scope t generalizing entered rounds with
  | case1 t hs => simpa only [Log.idle, List.append_nil] using ht
  | case2 t f below hs e he =>
    rw [List.append_nil]
    exact ht.refuse hs he
  | case3 t f below hs u hu ih =>
    simp only [Log.followedBy, ← List.append_assoc]
    exact ih (ht.step hs hu)

theorem resolve (ht : Tidy g entered rounds t) :
    Tidy g (entered ++ (Traversal.resolve g scope t target).entered)
      (rounds ++ (Traversal.resolve g scope t target).rounds)
      (Traversal.resolve g scope t target).after := by
  unfold Traversal.resolve
  split
  · simpa only [List.append_nil] using ht
  · split
    · simpa only [Log.idle, List.append_nil] using ht
    · split
      · simpa only [List.append_nil] using ht
      · rename_i u hu
        simp only [Log.followedBy, List.nil_append, ← List.append_assoc]
        exact (ht.enter hu).loop

/-- The log of a traversal is tidy for life. -/
theorem life (ht : Tidy g entered rounds t) (targets : List TerminalId) :
    Tidy g (entered ++ (Traversal.life g scope t targets).entered)
      (rounds ++ (Traversal.life g scope t targets).rounds)
      (Traversal.life g scope t targets).after := by
  induction targets generalizing entered rounds t with
  | nil => simpa only [Traversal.life, Log.idle, List.append_nil] using ht
  | cons target targets ih =>
    simp only [Traversal.life, Log.followedBy, ← List.append_assoc]
    exact ih ht.resolve

/-! ### How many rounds there are -/

/-- There is one round at most for each terminal and each place at its node, and for the end. -/
theorem length_rounds_le (ht : Tidy g entered rounds t) :
    rounds.length ≤ (g.terminalIds.map fun x => (g.ports x).length + 1).sum := by
  have hsub : rounds.map Round.place ⊆ g.terminalIds.flatMap fun x =>
      (List.range ((g.ports x).length + 1)).map fun k => (x, k) := by
    intro place hplace
    rcases List.mem_map.1 hplace with ⟨r, hr, rfl⟩
    rcases ht.made r hr with ⟨hentered, hcursor, _⟩
    exact List.mem_flatMap.2 ⟨r.terminal, Graph.mem_terminalIds.2 (ht.hasTerminal hentered),
      List.mem_map.2 ⟨r.cursor, List.mem_range.2 (Nat.lt_succ_of_le hcursor), rfl⟩⟩
  have hlength := (List.subperm_of_subset ht.nodup_rounds hsub).length_le
  simpa only [List.length_map, List.length_flatMap, List.length_range] using hlength

end Tidy

/-! ### Refusals -/

/-- There is a cause for each refusal. -/
def Log.Stated (l : Log) : Prop := ∀ e ∈ l.failures, ∃ cause, e = .cause cause

theorem Log.Stated.followedBy {first next : Log} (hfirst : first.Stated) (hnext : next.Stated) :
    (first.followedBy next).Stated := by
  intro e he
  rcases List.mem_append.1 he with he | he
  · exact hfirst e he
  · exact hnext e he

namespace Tidy

open Traversal

variable {g : Graph} {scope : Option Region} {t u : Traversal} {target x p : TerminalId}
  {entered : List TerminalId} {rounds : List Round} {f : Frame} {below : List Frame}

/-- Where all handles lead to something, a terminal that is there is entered, or there is a loop. -/
theorem answers_enter (h : g.InRange) (ht : Tidy g entered rounds t)
    (hp : g.hasTerminal p = true) : Answers (Traversal.enter g p t) fun _ => True := by
  have hlt : p.index < t.marks.size := ht.size ▸ Graph.hasTerminal_iff.1 hp
  rw [Traversal.enter, dif_pos hlt]
  split
  · rcases h.node_eq_ok (ε := ScheduleError) hp with ⟨terminal, node, hterminal, _, hnode, _⟩
    rw [Graph.ownerOf, hterminal, ok_bind, hnode, ok_bind]
    trivial
  · exact (h.answers_label hp).bind fun l _ => answers_refuse _
  · trivial

theorem answers_step (h : g.InRange) (ht : Tidy g entered rounds t)
    (hstack : t.stack = f :: below) : Answers (Traversal.step g scope t) fun _ => True := by
  rcases f with ⟨x, _ | ⟨y, rest⟩⟩
  · rw [step_of_done hstack]
    trivial
  · rw [step_of_looks hstack]
    -- The terminal that is looked at is listed by the node of one that is there.
    have htop : ⟨x, y :: rest⟩ ∈ t.stack := hstack ▸ List.mem_cons_self
    rcases ht.onStack _ htop with ⟨hentered, hsuffix⟩
    have hy : y ∈ g.ports x := hsuffix.subset List.mem_cons_self
    rcases h.node_eq_ok (ε := ScheduleError) (ht.hasTerminal hentered) with
      ⟨terminal, node, hterminal, _, hnode, hmem⟩
    have hports : node.terminals = g.ports x :=
      ports_of_ownerOf (ε := ScheduleError) (by rw [Graph.ownerOf, hterminal, ok_bind, hnode])
    have hthere := h.listed node hmem y (hports ▸ hy)
    cases hneed : needAt g scope x y with
    | error e =>
      have hanswers : Answers (needAt g scope x y) fun _ => True := h.answers_needAt hthere
      rw [hneed] at hanswers
      cases e <;> exact hanswers
    | ok need =>
      cases need with
      | none => trivial
      | some p => exact (ht.look hstack).answers_enter h (hasTerminal_of_needAt hneed)

theorem stated_loop (h : g.InRange) (ht : Tidy g entered rounds t) :
    (Traversal.loop g scope t).Stated := by
  fun_induction Traversal.loop g scope t generalizing entered rounds with
  | case1 t hs => exact fun e he => absurd he List.not_mem_nil
  | case2 t f below hs e he =>
    intro e' he'
    rw [List.mem_singleton.1 he']
    exact (ht.answers_step h hs).exists_cause he
  | case3 t f below hs u hu ih =>
    exact Log.Stated.followedBy (fun e he => absurd he List.not_mem_nil) (ih (ht.step hs hu))

theorem stated_resolve (h : g.InRange) (ht : Tidy g entered rounds t) :
    (Traversal.resolve g scope t target).Stated := by
  unfold Traversal.resolve
  split
  · intro e he
    exact ⟨_, List.mem_singleton.1 he⟩
  · rename_i hthere
    rw [Bool.not_eq_false] at hthere
    split
    · exact fun e he => absurd he List.not_mem_nil
    · split
      · rename_i e he
        intro e' he'
        rw [List.mem_singleton.1 he']
        exact (ht.answers_enter h hthere).exists_cause he
      · rename_i u hu
        -- Entering fails with a cause if at all, and the loop does so in every round.
        exact Log.Stated.followedBy (fun e he => absurd he List.not_mem_nil)
          ((ht.enter hu).stated_loop h)

theorem stated_life (h : g.InRange) (ht : Tidy g entered rounds t) (targets : List TerminalId) :
    (Traversal.life g scope t targets).Stated := by
  induction targets generalizing entered rounds t with
  | nil => exact fun e he => absurd he List.not_mem_nil
  | cons target targets ih => exact (ht.stated_resolve h).followedBy (ih ht.resolve)

end Tidy

/-- On any graph, in any scope and for any targets, whatever becomes of each, a traversal puts no
    terminal on its stack twice, and no frame looks at a place of its node twice; so the loop is
    gone around no more often than there are places to look at for all terminals, and once more for
    each. Up to its first refusal the traversal is the one that places the targets one after the
    other, and where all handles of the graph lead to something, every refusal has a cause. -/
theorem rounds_bounded (g : Graph) (scope : Option Region) (targets : List TerminalId) :
    let log := Traversal.life g scope (Traversal.start g) targets
    log.outcome = Traversal.visitAll g scope (Traversal.start g) targets ∧
    (log.entered.Nodup ∧ ∀ x ∈ log.entered, g.hasTerminal x = true) ∧
    (log.rounds.map fun r => (r.terminal, r.cursor)).Nodup ∧
    (∀ r ∈ log.rounds, r.terminal ∈ log.entered ∧ r.cursor ≤ (g.ports r.terminal).length ∧
      r.port = (g.ports r.terminal)[r.cursor]?) ∧
    log.rounds.length ≤ (g.terminalIds.map fun x => (g.ports x).length + 1).sum ∧
    (g.InRange → ∀ e ∈ log.failures, ∃ cause, e = .cause cause) := by
  -- Each round is told apart by its terminal and its cursor, and a cursor runs over the terminals
  -- of one node.
  have ht : Tidy g _ _ (Traversal.life g scope (Traversal.start g) targets).after :=
    (Tidy.start g).life targets
  rw [List.nil_append, List.nil_append] at ht
  exact ⟨Traversal.outcome_life rfl, ⟨ht.nodup_entered, fun x hx => ht.hasTerminal hx⟩,
    ht.nodup_rounds, ht.made, ht.length_rounds_le,
    fun h => (Tidy.start g).stated_life h targets⟩

/-- Partners need not be mutual. The first target is refused, since a terminal at its node is loose,
    and its frame stays on the stack. It is below those of the second target and leaves the stack
    after them, in the last of eight rounds; there can be no more, whatever is asked for. -/
theorem rounds_bounded_oneSided :
    let log := Traversal.life oneSided none (Traversal.start oneSided) [⟨0⟩, ⟨1⟩, ⟨2⟩]
    oneSided.InRange ∧ log.entered = [⟨0⟩, ⟨1⟩, ⟨2⟩] ∧ log.rounds.length = 8 ∧
      (oneSided.terminalIds.map fun x => (oneSided.ports x).length + 1).sum = 8 ∧
      log.failures.length = 1 ∧ ∀ e ∈ log.failures, ∃ cause, e = .cause cause := by
  have hrange : oneSided.InRange := ⟨by decide, by decide, by decide⟩
  rcases rounds_bounded oneSided none [⟨0⟩, ⟨1⟩, ⟨2⟩] with ⟨_, _, _, _, _, hcauses⟩
  exact ⟨hrange, by cbv, by cbv, by decide +kernel, by cbv, hcauses hrange⟩

end MessagePlan
