import Mathlib.Data.List.Chain
import MessagePlan.Proofs.Schedule.Needs

/-!
# What a Traversal Preserves

A traversal has a stack of frames, a mark for every terminal and a list of the terminals it
has placed, and all three speak of the same thing. `Consistent` says how they hang together:

* the marks tell what lies on the stack and what has been placed;
* each frame on the stack is needed by the one below it, so that the stack is a path along
  needs, and a terminal met again on it closes a loop;
* what a frame has looked at is taken care of: it is placed, or it is the frame right above or
  one still higher, which will have been placed when the frame is looked at next;
* the placed terminals are in order, and none has a loose terminal at its node.

`Move` is what a step can do to such a traversal and when, with the two ways in which it can
stop. It is the only statement here that opens the step; that a step preserves something is
then shown move by move. `Underway` adds what is known of a traversal that was started for a
target: it goes on from what was placed before, everything it meets is something the target
depends on, and the target lies at the bottom of the stack and is placed last.

A run takes steps until the stack is empty, so by `run_induction` it ends with what its steps
preserve, or stops at a step that fails.

## Main definitions

* `Frame.Settled`, `Waiting`: What frames have looked at is taken care of.
* `Traversal.Consistent`: Stack, marks and placed terminals agree.
* `Traversal.Move`: What a step does and when.
* `Traversal.Stuck`: Why a traversal stops at a terminal.
* `Traversal.Underway`: A consistent traversal that was started for a target.
* `Traversal.advance`: A number of steps.

## Theorems

* `move_of_step`: A step of a consistent traversal is a move.
* `Consistent.place`, `Consistent.pass`, `Consistent.push`: Moves keep a traversal consistent.
* `Underway.step`: A step keeps a traversal underway.
* `Underway.stuck`: Where a step fails, the target depends on a terminal that is stuck.
* `run_of_empty`, `run_eq_step`: A run is over, or goes on after its first step.
* `run_induction`: A run preserves what its steps preserve.
* `run_eq_of_advance`: Steps that empty the stack are a run.
-/

namespace MessagePlan

open Relation

/-- Whatever a frame has looked at already has a partner, and what is needed of it is done. -/
def Frame.Settled (g : Graph) (scope : Option Region) (done : TerminalId → Prop) (f : Frame) :
    Prop :=
  ∃ seen, g.ports f.terminal = seen ++ f.rest ∧ ∀ y ∈ seen, y ≠ f.terminal →
    g.partner? y ≠ none ∧ ∀ p, NeededAt g scope y p → done p

/-- Each frame of a stack is settled, if the frames above it count as done. -/
def Waiting (g : Graph) (scope : Option Region) (done : TerminalId → Prop) : List Frame → Prop
  | [] => True
  | f :: below =>
    f.Settled g scope done ∧ Waiting g scope (fun p => done p ∨ p = f.terminal) below

section Frames

variable {g : Graph} {scope : Option Region} {done done' : TerminalId → Prop}

theorem Frame.Settled.mono {f : Frame} (h : f.Settled g scope done)
    (hdone : ∀ p, done p → done' p) : f.Settled g scope done' := by
  rcases h with ⟨seen, hports, hseen⟩
  refine ⟨seen, hports, fun y hy hne => ?_⟩
  exact ⟨(hseen y hy hne).1, fun p hp => hdone p ((hseen y hy hne).2 p hp)⟩

theorem Waiting.mono {stack : List Frame} (h : Waiting g scope done stack)
    (hdone : ∀ p, done p → done' p) : Waiting g scope done' stack := by
  induction stack generalizing done done' with
  | nil => trivial
  | cons f below ih =>
    exact ⟨h.1.mono hdone, ih h.2 (fun p hp => hp.imp_left (hdone p))⟩

/-- A frame that is entered has looked at nothing yet. -/
theorem Frame.settled_of_ports (x : TerminalId) :
    (⟨x, g.ports x⟩ : Frame).Settled g scope done := by
  refine ⟨[], rfl, fun y hy => ?_⟩
  exact absurd hy List.not_mem_nil

/-- A frame stays settled when it passes a terminal that is taken care of. -/
theorem Frame.Settled.pass {x y : TerminalId} {rest : List TerminalId}
    (h : (⟨x, y :: rest⟩ : Frame).Settled g scope done)
    (hy : y = x ∨ g.partner? y ≠ none ∧ ∀ p, NeededAt g scope y p → done p) :
    (⟨x, rest⟩ : Frame).Settled g scope done := by
  rcases h with ⟨seen, hports, hseen⟩
  refine ⟨seen ++ [y], ?_, fun z hz hne => ?_⟩
  · rw [hports, List.append_assoc, List.singleton_append]
  · rcases List.mem_append.1 hz with hz | hz
    · exact hseen z hz hne
    · rcases List.mem_singleton.1 hz with rfl
      exact hy.resolve_left hne

theorem Frame.Settled.mem_ports {x y : TerminalId} {rest : List TerminalId}
    (h : (⟨x, y :: rest⟩ : Frame).Settled g scope done) : y ∈ g.ports x := by
  rcases h with ⟨seen, hports, _⟩
  simp only at hports
  rw [hports]
  exact List.mem_append_right _ List.mem_cons_self

/-- When a settled frame has nothing left to look at, all that its terminal needs is done and
    no terminal of its node is loose. -/
theorem Frame.Settled.done_of_nil {x : TerminalId} (h : (⟨x, []⟩ : Frame).Settled g scope done) :
    (∀ p, Needs g scope x p → done p) ∧ ∀ y, ¬ Loose g x y := by
  rcases h with ⟨seen, hports, hseen⟩
  -- With nothing left, what has been looked at is the whole node.
  simp only [List.append_nil] at hports
  rw [← hports] at hseen
  constructor
  · rintro p ⟨y, hy, hne, hneed⟩
    exact (hseen y hy hne).2 p hneed
  · rintro y ⟨hy, hne, hnone⟩
    exact (hseen y hy hne).1 hnone

end Frames

namespace Traversal

/-- The stack, the marks and the placed terminals of a traversal agree. -/
structure Consistent (g : Graph) (scope : Option Region) (t : Traversal) : Prop where
  size : t.marks.size = g.terminals.size
  placed : ∀ p : TerminalId, t.marks[p.index]? = some .placed ↔ p ∈ t.order
  active : ∀ p : TerminalId, t.marks[p.index]? = some .active ↔ p ∈ t.stack.map Frame.terminal
  nodup_order : t.order.toList.Nodup
  nodup_stack : (t.stack.map Frame.terminal).Nodup
  inOrder : InOrder g scope t.order.toList
  tight : ∀ x ∈ t.order, ∀ y, ¬ Loose g x y
  waiting : Waiting g scope (· ∈ t.order) t.stack
  chain : (t.stack.map Frame.terminal).IsChain fun above below => Needs g scope below above

/-- What has been placed is there: it has a mark, and only terminals of the graph have marks. -/
theorem Consistent.hasTerminal {g : Graph} {scope : Option Region} {t : Traversal}
    (hc : Consistent g scope t) {x : TerminalId} (hx : x ∈ t.order) : g.hasTerminal x = true := by
  have hmark := (hc.placed x).2 hx
  rw [Graph.hasTerminal_iff, ← hc.size]
  exact (Array.getElem?_eq_some_iff.1 hmark).1

/-- What a step does to a traversal, and when: the frame on top is done and its terminal is
    placed; it passes a terminal that is taken care of; what is needed there is entered; or
    the step fails, at a terminal that lies on the stack or at a loose one. -/
inductive Move (g : Graph) (scope : Option Region) (t : Traversal) :
    Except (Failure ScheduleError) Traversal → Prop
  | place (x : TerminalId) (below : List Frame) (hstack : t.stack = ⟨x, []⟩ :: below) :
      Move g scope t (.ok {
        stack := below, marks := t.marks.setIfInBounds x.index .placed, order := t.order.push x })
  | pass (x y : TerminalId) (rest : List TerminalId) (below : List Frame)
      (hstack : t.stack = ⟨x, y :: rest⟩ :: below)
      (hy : y = x ∨ g.partner? y ≠ none ∧ ∀ p, NeededAt g scope y p → p ∈ t.order) :
      Move g scope t (.ok { t with stack := ⟨x, rest⟩ :: below })
  | enter (x y p : TerminalId) (rest : List TerminalId) (below : List Frame)
      (hstack : t.stack = ⟨x, y :: rest⟩ :: below) (hne : y ≠ x) (hp : NeededAt g scope y p)
      (hunmet : t.marks[p.index]? = some .unmet) :
      Move g scope t (.ok {
        stack := ⟨p, g.ports p⟩ :: ⟨x, rest⟩ :: below
        marks := t.marks.setIfInBounds p.index .active
        order := t.order })
  | loop (x y p : TerminalId) (rest : List TerminalId) (below : List Frame) (l : String)
      (hstack : t.stack = ⟨x, y :: rest⟩ :: below) (hne : y ≠ x) (hp : NeededAt g scope y p)
      (hactive : p ∈ t.stack.map Frame.terminal)
      (hl : (g.label p : Except (Failure ScheduleError) String) = .ok l) :
      Move g scope t (.error (.cause (.unbrokenLoop p l)))
  | loose (x y : TerminalId) (rest : List TerminalId) (below : List Frame) (l : String)
      (hstack : t.stack = ⟨x, y :: rest⟩ :: below) (hy : Loose g x y)
      (hl : (g.label y : Except (Failure ScheduleError) String) = .ok l) :
      Move g scope t (.error (.cause (.disconnected y l)))

variable {g : Graph} {scope : Option Region} {t u : Traversal}

/-! ### A step is a move -/

theorem getElem?_mark {marks : Array Mark} {x : TerminalId} (hx : x.index < marks.size) (m : Mark)
    (p : TerminalId) :
    (marks.setIfInBounds x.index m)[p.index]? = if p = x then some m else marks[p.index]? := by
  rw [Array.getElem?_setIfInBounds]
  by_cases hpx : p = x
  · rw [hpx, if_pos rfl, if_pos rfl, if_pos hx]
  · rw [if_neg (fun hi => hpx (TerminalId.eq_of_index_eq hi.symm)), if_neg hpx]

/-- Entering a terminal pushes it, or finds it on the stack, or finds it placed. -/
theorem enter_cases (h : g.WellFormed) {p : TerminalId} (hsize : t.marks.size = g.terminals.size)
    (hp : g.hasTerminal p = true) :
    (t.marks[p.index]? = some .unmet ∧ enter g p t = .ok { t with
      stack := ⟨p, g.ports p⟩ :: t.stack, marks := t.marks.setIfInBounds p.index .active }) ∨
    (t.marks[p.index]? = some .active ∧ ∃ l, enter g p t = .error (.cause (.unbrokenLoop p l)) ∧
      (g.label p : Except (Failure ScheduleError) String) = .ok l) ∨
    (t.marks[p.index]? = some .placed ∧ enter g p t = .ok t) := by
  -- There are as many marks as terminals, so the handle finds one.
  have hlt : p.index < t.marks.size := by
    rw [hsize]
    exact Graph.hasTerminal_iff.1 hp
  unfold enter
  rw [dif_pos hlt, Array.getElem?_eq_getElem hlt]
  cases hmark : t.marks[p.index] with
  | unmet =>
    rcases h.ownerOf_eq_ok (ε := ScheduleError) hp with ⟨node, hnode, hports, _⟩
    refine Or.inl ⟨rfl, ?_⟩
    simp only [hnode, ok_bind, hports, Array.setIfInBounds_def, hlt, dif_pos]
    rfl
  | active =>
    rcases h.label_eq_ok (ε := ScheduleError) p with ⟨l, hl⟩
    refine Or.inr (Or.inl ⟨rfl, l, ?_, hl⟩)
    simp only [hl, ok_bind, refuse]
  | placed => exact Or.inr (Or.inr ⟨rfl, rfl⟩)

/-- A step of a consistent traversal is a move. -/
theorem move_of_step (h : g.WellFormed) (hc : Consistent g scope t) (hne : t.stack ≠ []) :
    Move g scope t (step g scope t) := by
  unfold step
  split
  · rename_i hstack
    exact absurd hstack hne
  · rename_i x below hstack
    exact Move.place x below hstack
  · rename_i x y rest below hstack
    have hwaiting := hc.waiting
    rw [hstack] at hwaiting
    -- That the frame is settled says that its next terminal belongs to the node.
    rcases needAt_cases h hwaiting.1.mem_ports with ⟨hnone, hcare⟩ | ⟨p, hsome, hyx, hneed⟩ |
      ⟨l, herror, hl, hloose⟩
    · rw [hnone]
      refine Move.pass x y rest below hstack (hcare.imp_right ?_)
      rintro ⟨⟨q, hq⟩, hnot⟩
      refine ⟨by rw [hq]; exact Option.some_ne_none q, fun p hp => absurd hp (hnot p)⟩
    · rw [hsome]
      have hp := h.hasTerminal_of_partner? hneed.2.1
      rcases enter_cases h (t := { t with stack := ⟨x, rest⟩ :: below }) hc.size hp with
        ⟨hmark, hresult⟩ | ⟨hmark, l, hresult, hl⟩ | ⟨hmark, hresult⟩
      · simp only [hresult]
        exact Move.enter x y p rest below hstack hyx hneed hmark
      · -- A mark of the stack is a terminal of the stack.
        simp only [hresult]
        exact Move.loop x y p rest below l hstack hyx hneed ((hc.active p).1 hmark) hl
      · -- What is needed has been placed, so the terminal is taken care of.
        simp only [hresult]
        refine Move.pass x y rest below hstack (Or.inr ⟨hneed.partner?_ne_none, fun q hq => ?_⟩)
        rw [hneed.unique hq]
        exact (hc.placed p).1 hmark
    · rw [herror]
      exact Move.loose x y rest below l hstack hloose hl

/-! ### Moves keep a traversal consistent -/

theorem unmet_of_start {m : Mark} {i : Nat} (hm : (start g).marks[i]? = some m) : m = .unmet := by
  simp only [start, Array.getElem?_replicate] at hm
  split at hm
  · exact (Option.some.inj hm).symm
  · exact nomatch hm

theorem consistent_start (g : Graph) (scope : Option Region) : Consistent g scope (start g) := by
  refine ⟨Array.size_replicate, fun p => ?_, fun p => ?_, List.nodup_nil, List.nodup_nil,
    inOrder_nil, fun x hx => ?_, trivial, List.IsChain.nil⟩
  · refine iff_of_false (fun hp => ?_) (Array.not_mem_empty p)
    exact nomatch unmet_of_start hp
  · refine iff_of_false (fun hp => ?_) List.not_mem_nil
    exact nomatch unmet_of_start hp
  · exact absurd hx (Array.not_mem_empty x)

theorem Consistent.lt_of_mem_stack (hc : Consistent g scope t) {x : TerminalId}
    (hx : x ∈ t.stack.map Frame.terminal) : x.index < t.marks.size :=
  (Array.getElem?_eq_some_iff.1 ((hc.active x).2 hx)).1

theorem Consistent.not_mem_order (hc : Consistent g scope t) {x : TerminalId}
    (hx : x ∈ t.stack.map Frame.terminal) : x ∉ t.order := by
  intro hplaced
  have hmark := (hc.active x).2 hx
  rw [(hc.placed x).2 hplaced] at hmark
  exact nomatch hmark

/-- Placing the terminal on top keeps a traversal consistent: all it needs has been placed. -/
theorem Consistent.place (hc : Consistent g scope t) {x : TerminalId} {below : List Frame}
    (hstack : t.stack = ⟨x, []⟩ :: below) :
    Consistent g scope {
      stack := below
      marks := t.marks.setIfInBounds x.index .placed
      order := t.order.push x } := by
  have hx : x ∈ t.stack.map Frame.terminal := by
    rw [hstack]
    exact List.mem_cons_self
  have hlt := hc.lt_of_mem_stack hx
  have hnot := hc.not_mem_order hx
  have hwaiting := hc.waiting
  have hnodup := hc.nodup_stack
  have hchain := hc.chain
  rw [hstack] at hwaiting
  rw [hstack, List.map_cons] at hnodup hchain
  rw [List.nodup_cons] at hnodup
  -- The frame on top has looked at all of its node.
  rcases hwaiting.1.done_of_nil with ⟨hneeds, hloose⟩
  refine ⟨?_, fun p => ?_, fun p => ?_, ?_, hnodup.2, ?_, fun z hz => ?_, ?_, hchain.of_cons⟩
  · rw [Array.size_setIfInBounds]
    exact hc.size
  · rw [getElem?_mark hlt, Array.mem_push]
    by_cases hpx : p = x
    · rw [if_pos hpx]
      exact iff_of_true rfl (Or.inr hpx)
    · rw [if_neg hpx, hc.placed p]
      exact ⟨Or.inl, fun hp => hp.resolve_right hpx⟩
  · rw [getElem?_mark hlt]
    by_cases hpx : p = x
    · rw [if_pos hpx, hpx]
      exact iff_of_false (by decide) hnodup.1
    · rw [if_neg hpx, hc.active p, hstack, List.map_cons, List.mem_cons]
      exact ⟨fun hp => hp.resolve_left hpx, Or.inr⟩
  · rw [Array.toList_push, List.nodup_append]
    refine ⟨hc.nodup_order, List.pairwise_singleton _ x, fun p hp q hq heq => ?_⟩
    rw [List.mem_singleton.1 hq] at heq
    exact hnot (heq ▸ Array.mem_toList_iff.1 hp)
  · rw [Array.toList_push]
    exact inOrder_concat hc.inOrder (fun p hp => Array.mem_toList_iff.2 (hneeds p hp))
  · rcases Array.mem_push.1 hz with hz | rfl
    · exact hc.tight z hz
    · exact hloose
  · -- The frames below waited for the terminal, and now it has been placed.
    exact hwaiting.2.mono (fun p hp => Array.mem_push.2 hp)

/-- Passing a terminal that is taken care of keeps a traversal consistent. -/
theorem Consistent.pass (hc : Consistent g scope t) {x y : TerminalId} {rest : List TerminalId}
    {below : List Frame} (hstack : t.stack = ⟨x, y :: rest⟩ :: below)
    (hy : y = x ∨ g.partner? y ≠ none ∧ ∀ p, NeededAt g scope y p → p ∈ t.order) :
    Consistent g scope { t with stack := ⟨x, rest⟩ :: below } := by
  -- The terminals on the stack are the same as before.
  have hsame : t.stack.map Frame.terminal
      = ((⟨x, rest⟩ : Frame) :: below).map Frame.terminal := by
    rw [hstack]
    rfl
  have hwaiting := hc.waiting
  rw [hstack] at hwaiting
  exact ⟨hc.size, hc.placed, hsame ▸ hc.active, hc.nodup_order, hsame ▸ hc.nodup_stack,
    hc.inOrder, hc.tight, ⟨hwaiting.1.pass hy, hwaiting.2⟩, hsame ▸ hc.chain⟩

/-- Pushing a terminal that had not been met keeps a traversal consistent, whatever the frames
    below have looked at meanwhile, if they are settled once the terminal is done. -/
theorem Consistent.push (hc : Consistent g scope t) {p : TerminalId} {stack : List Frame}
    (hsame : stack.map Frame.terminal = t.stack.map Frame.terminal)
    (hwaiting : Waiting g scope (fun q => q ∈ t.order ∨ q = p) stack)
    (hneeds : ∀ x ∈ (stack.map Frame.terminal).head?, Needs g scope x p)
    (hunmet : t.marks[p.index]? = some .unmet) :
    Consistent g scope {
      stack := ⟨p, g.ports p⟩ :: stack
      marks := t.marks.setIfInBounds p.index .active
      order := t.order } := by
  have hlt := (Array.getElem?_eq_some_iff.1 hunmet).1
  -- A terminal that has not been met is neither placed nor on the stack.
  have hplaced : p ∉ t.order := by
    intro hmem
    rw [(hc.placed p).2 hmem] at hunmet
    exact nomatch hunmet
  have hactive : p ∉ stack.map Frame.terminal := by
    intro hmem
    rw [hsame] at hmem
    rw [(hc.active p).2 hmem] at hunmet
    exact nomatch hunmet
  refine ⟨?_, fun q => ?_, fun q => ?_, hc.nodup_order, ?_, hc.inOrder, hc.tight,
    ⟨Frame.settled_of_ports p, hwaiting⟩, ?_⟩
  · rw [Array.size_setIfInBounds]
    exact hc.size
  · rw [getElem?_mark hlt]
    by_cases hqp : q = p
    · rw [if_pos hqp, hqp]
      exact iff_of_false (by decide) hplaced
    · rw [if_neg hqp]
      exact hc.placed q
  · rw [getElem?_mark hlt, List.map_cons, List.mem_cons, hsame]
    by_cases hqp : q = p
    · rw [if_pos hqp]
      exact iff_of_true rfl (Or.inl hqp)
    · rw [if_neg hqp, hc.active q]
      exact ⟨Or.inr, fun hq => hq.resolve_left hqp⟩
  · rw [List.map_cons, List.nodup_cons]
    exact ⟨hactive, hsame ▸ hc.nodup_stack⟩
  · rw [List.map_cons, List.isChain_cons]
    exact ⟨hneeds, hsame ▸ hc.chain⟩

/-- Entering what is needed at a terminal keeps a traversal consistent: the frame below has
    looked at the terminal, and what is needed there now lies above it. -/
theorem Consistent.enter (hc : Consistent g scope t) {x y p : TerminalId}
    {rest : List TerminalId} {below : List Frame} (hstack : t.stack = ⟨x, y :: rest⟩ :: below)
    (hne : y ≠ x) (hp : NeededAt g scope y p) (hunmet : t.marks[p.index]? = some .unmet) :
    Consistent g scope {
      stack := ⟨p, g.ports p⟩ :: ⟨x, rest⟩ :: below
      marks := t.marks.setIfInBounds p.index .active
      order := t.order } := by
  have hwaiting := hc.waiting
  rw [hstack] at hwaiting
  refine hc.push (by rw [hstack]; rfl) ⟨?_, ?_⟩ (fun z hz => ?_) hunmet
  · -- At the terminal passed only its partner is needed.
    refine (hwaiting.1.mono (fun q hq => Or.inl hq)).pass (Or.inr ?_)
    exact ⟨hp.partner?_ne_none, fun q hq => Or.inr (hp.unique hq)⟩
  · exact hwaiting.2.mono (fun q hq => hq.imp_left Or.inl)
  · rcases Option.some.inj hz with rfl
    exact ⟨y, hwaiting.1.mem_ports, hne, hp⟩

/-! ### A traversal that was started for a target -/

/-- Why a traversal stops at a terminal: another terminal of its node is loose, or what it needs
    lies on a loop. -/
inductive Stuck (g : Graph) (scope : Option Region) (x : TerminalId) :
    Failure ScheduleError → Prop
  | loose (y : TerminalId) (l : String) (hy : Loose g x y)
      (hl : (g.label y : Except (Failure ScheduleError) String) = .ok l) :
      Stuck g scope x (.cause (.disconnected y l))
  | loop (p : TerminalId) (l : String) (hp : Needs g scope x p) (hloop : OnLoop g scope p)
      (hl : (g.label p : Except (Failure ScheduleError) String) = .ok l) :
      Stuck g scope x (.cause (.unbrokenLoop p l))

theorem Stuck.exists_cause {x : TerminalId} {e : Failure ScheduleError} (h : Stuck g scope x e) :
    ∃ e', e = .cause e' := by
  cases h with
  | loose y l _ _ => exact ⟨_, rfl⟩
  | loop p l _ _ _ => exact ⟨_, rfl⟩

/-- A consistent traversal that was started for a target, with some terminals placed before. -/
structure Underway (g : Graph) (scope : Option Region) (before : Array TerminalId)
    (target : TerminalId) (t : Traversal) : Prop extends Consistent g scope t where
  grown : before.toList <+: t.order.toList
  bottom : (t.stack.map Frame.terminal).getLast?.or t.order.back? = some target
  asked : ∀ x ∈ t.stack.map Frame.terminal, DependsOn g scope target x
  due : ∀ x ∈ t.order, x ∈ before ∨ DependsOn g scope target x

variable {before : Array TerminalId} {target : TerminalId}

/-- Along the stack, every terminal depends on those above it. -/
theorem dependsOn_of_chain {x p : TerminalId} {ps : List TerminalId}
    (h : (x :: ps).IsChain fun above below => Needs g scope below above) (hp : p ∈ x :: ps) :
    DependsOn g scope p x := by
  induction ps generalizing x with
  | nil =>
    rw [List.mem_singleton.1 hp]
  | cons y ps ih =>
    rcases List.mem_cons.1 hp with rfl | hp
    · exact ReflTransGen.refl
    · -- From the terminal the needs lead up to the one below the top, and one more to the top.
      exact (ih h.of_cons hp).tail (List.isChain_cons_cons.1 h).1

/-- A step keeps a traversal underway. -/
theorem Underway.step (h : g.WellFormed) (hu : Underway g scope before target t)
    (hne : t.stack ≠ []) (hs : step g scope t = .ok u) : Underway g scope before target u := by
  have hmove := move_of_step h hu.toConsistent hne
  have hbottom := hu.bottom
  have hasked := hu.asked
  rw [hs] at hmove
  cases hmove with
  | place x below hstack =>
    rw [hstack, List.map_cons] at hbottom hasked
    -- Below the top the stack is as it was, and the list has grown by the top.
    refine ⟨hu.place hstack, ?_, ?_, fun z hz => hasked z (List.mem_cons_of_mem x hz),
      fun z hz => ?_⟩
    · rw [Array.toList_push]
      exact hu.grown.trans (List.prefix_append _ _)
    · cases below with
      | nil =>
        -- The last frame is the target's, so what is placed last is the target.
        rw [List.map_nil, List.getLast?_nil, Option.none_or, Array.back?_push]
        exact hbottom
      | cons f below =>
        rw [List.map_cons, List.getLast?_cons_cons] at hbottom
        rw [List.map_cons]
        rw [List.getLast?_eq_some_getLast (List.cons_ne_nil _ _), Option.some_or] at hbottom ⊢
        exact hbottom
    · rcases Array.mem_push.1 hz with hz | rfl
      · exact hu.due z hz
      · exact Or.inr (hasked z List.mem_cons_self)
  | pass x y rest below hstack hy =>
    rw [hstack] at hbottom hasked
    exact ⟨hu.pass hstack hy, hu.grown, hbottom, hasked, hu.due⟩
  | enter x y p rest below hstack hyx hp hunmet =>
    have hwaiting := hu.waiting
    rw [hstack] at hbottom hasked hwaiting
    refine ⟨hu.enter hstack hyx hp hunmet, hu.grown, ?_, fun z hz => ?_, hu.due⟩
    · rw [List.map_cons, List.map_cons, List.getLast?_cons_cons]
      exact hbottom
    · -- The target depends on the terminal below, and that one needs the new one.
      rcases List.mem_cons.1 hz with rfl | hz
      · exact (hasked x List.mem_cons_self).tail ⟨y, hwaiting.1.mem_ports, hyx, hp⟩
      · exact hasked z hz

/-- Where a step fails, the target depends on a terminal that is stuck. -/
theorem Underway.stuck (h : g.WellFormed) (hu : Underway g scope before target t)
    {e : Failure ScheduleError} (hne : t.stack ≠ []) (hs : Traversal.step g scope t = .error e) :
    ∃ x, DependsOn g scope target x ∧ Stuck g scope x e := by
  have hmove := move_of_step h hu.toConsistent hne
  have hasked := hu.asked
  have hchain := hu.chain
  have hwaiting := hu.waiting
  rw [hs] at hmove
  cases hmove with
  | loop x y p rest below l hstack hyx hp hactive hl =>
    rw [hstack] at hasked hchain hactive hwaiting
    have hneed : Needs g scope x p := ⟨y, hwaiting.1.mem_ports, hyx, hp⟩
    -- From the terminal met again the stack leads up to the one that needs it.
    have hloop : OnLoop g scope p := TransGen.tail' (dependsOn_of_chain hchain hactive) hneed
    exact ⟨x, hasked x List.mem_cons_self, Stuck.loop p l hneed hloop hl⟩
  | loose x y rest below l hstack hy hl =>
    rw [hstack] at hasked
    exact ⟨x, hasked x List.mem_cons_self, Stuck.loose y l hy hl⟩

/-! ### Runs -/

theorem run_of_empty (ht : t.stack = []) : run g scope t = .ok t := by
  rw [run, dif_pos ht]

theorem run_eq_step (ht : t.stack ≠ []) : run g scope t = step g scope t >>= run g scope := by
  rw [run, dif_neg ht]
  split
  · rename_i e he
    rw [he]
    rfl
  · rename_i u hu
    rw [hu]
    rfl

/-- A run ends with what its steps preserve and an empty stack, or at a step that fails. -/
theorem run_induction (P : Traversal → Prop)
    (hstep : ∀ t u, P t → t.stack ≠ [] → step g scope t = .ok u → P u) (ht : P t) :
    (∀ u, run g scope t = .ok u → P u ∧ u.stack = []) ∧
    ∀ e, run g scope t = .error e → ∃ v, P v ∧ v.stack ≠ [] ∧ step g scope v = .error e := by
  -- A run is over, or fails at its first step, or goes on as the run after that step.
  induction t using run.induct g scope with
  | case1 t hempty =>
    rw [run_of_empty hempty]
    refine ⟨fun u hu => ?_, fun e he => nomatch he⟩
    rcases Except.ok.inj hu with rfl
    exact ⟨ht, hempty⟩
  | case2 t hne e he =>
    rw [run_eq_step hne, he]
    refine ⟨fun u hu => (nomatch hu), fun e' he' => ?_⟩
    rcases Except.error.inj he' with rfl
    exact ⟨t, ht, hne, he⟩
  | case3 t hne v hv ih =>
    rw [run_eq_step hne, hv]
    exact ih (hstep t v ht hne hv)

/-- The traversal after a number of steps; with an empty stack a step changes nothing. -/
def advance (g : Graph) (scope : Option Region) : Nat → Traversal →
    Except (Failure ScheduleError) Traversal
  | 0, t => .ok t
  | n + 1, t =>
    match step g scope t with
    | .error e => .error e
    | .ok u => advance g scope n u

/-- Steps that empty the stack are a run. -/
theorem run_eq_of_advance {n : Nat} (h : advance g scope n t = .ok u) (hu : u.stack = []) :
    run g scope t = .ok u := by
  induction n generalizing t with
  | zero =>
    rcases Except.ok.inj h with rfl
    exact run_of_empty hu
  | succ n ih =>
    rw [advance] at h
    split at h
    · exact nomatch h
    · rename_i v hv
      by_cases hempty : t.stack = []
      · -- Nothing is left to do, and the steps do nothing.
        have hsame : v = t := by
          rw [step, hempty] at hv
          exact (Except.ok.inj hv).symm
        exact hsame ▸ ih h
      · rw [run_eq_step hempty, hv]
        exact ih h

end Traversal

end MessagePlan
