import MessagePlan.Proofs.Schedule.Invariant

/-!
# Schedules Are Orders of Dependencies

What a schedule is, and when there is one. A traversal that places a terminal ends in a
consistent state with an empty stack, and then its list is in order and holds what the
terminal depends on and nothing else: `Visited` states that for a traversal that may have
placed other terminals before, since schedules of several terminals share one list.

There is a schedule exactly if nothing is wrong with what the target depends on. One direction
reads the schedule, which could not be in order with a loop in it; the other reads the refusal,
which always points at a terminal that is stuck.

## Main definitions

* `Traversal.Visited`: What a traversal has become when it has placed a target.
* `Graph.scheduleWithin`: A schedule found within a number of steps.
* `primedRing`: Three nodes in a ring, and a message that breaks the loop.

## Theorems

* `visited_of_visit`: A target that is placed is placed behind all that it depends on.
* `stuck_of_visit`: A target that is refused does not exist or depends on a stuck terminal.
* `schedule_lists_dependencies`: A schedule lists what its target depends on, in order.
* `schedule_succeeds_iff`: There is a schedule exactly if no dependency is on a loop or loose.
-/

namespace MessagePlan

open Relation

namespace Traversal

variable {g : Graph} {scope : Option Region} {t u : Traversal} {target : TerminalId}

/-- A consistent traversal with an empty stack that has placed a target behind all that it
    depends on, and nothing else since an earlier state. -/
structure Visited (g : Graph) (scope : Option Region) (t : Traversal) (target : TerminalId)
    (u : Traversal) : Prop extends Consistent g scope u where
  empty : u.stack = []
  grown : t.order.toList <+: u.order.toList
  due : ∀ x ∈ u.order, x ∈ t.order ∨ DependsOn g scope target x
  last : target ∈ t.order ∧ u = t ∨ u.order.back? = some target

/-- A target that is entered with nothing on the stack puts a traversal underway. -/
theorem underway_of_unmet (hc : Consistent g scope t) (hempty : t.stack = [])
    (hunmet : t.marks[target.index]? = some .unmet) :
    Underway g scope t.order target { t with
      stack := ⟨target, g.ports target⟩ :: t.stack
      marks := t.marks.setIfInBounds target.index .active } := by
  -- The target is alone on the stack, so no frame below it has to be settled.
  rw [hempty]
  refine ⟨hc.push (by rw [hempty]) trivial (fun x hx => nomatch hx) hunmet, List.prefix_rfl, rfl,
    fun x hx => ?_, fun x hx => Or.inl hx⟩
  rw [List.mem_singleton.1 hx]

theorem visited_of_underway (h : g.WellFormed) (hu : Underway g scope t.order target u)
    {v : Traversal} (hv : run g scope u = .ok v) : Visited g scope t target v := by
  have hrun := run_induction (Underway g scope t.order target)
    (fun _ _ hP hne hs => hP.step h hne hs) hu
  rcases hrun.1 v hv with ⟨hdone, hempty⟩
  -- What lay at the bottom of a stack that is empty now has been placed last.
  refine ⟨hdone.toConsistent, hempty, hdone.grown, hdone.due, Or.inr ?_⟩
  have hbottom := hdone.bottom
  rw [hempty, List.map_nil, List.getLast?_nil, Option.none_or] at hbottom
  exact hbottom

/-- Placing a target in a traversal with nothing on the stack: it does not exist, or it has
    been placed already, or a run is started for it. -/
theorem visit_cases (h : g.WellFormed) (hc : Consistent g scope t) (hempty : t.stack = [])
    (target : TerminalId) :
    (g.hasTerminal target = false ∧
      visit g scope t target = .error (.cause (.unknownTerminal target))) ∨
    (g.hasTerminal target = true ∧ target ∈ t.order ∧ visit g scope t target = .ok t) ∨
    (g.hasTerminal target = true ∧ ∃ u, Underway g scope t.order target u ∧
      visit g scope t target = run g scope u) := by
  unfold visit
  cases hhas : g.hasTerminal target with
  | false => exact Or.inl ⟨rfl, rfl⟩
  | true =>
    rw [if_pos rfl]
    rcases enter_cases h hc.size hhas with ⟨hmark, hresult⟩ | ⟨hmark, _⟩ | ⟨hmark, hresult⟩
    · rw [hresult]
      exact Or.inr (Or.inr ⟨rfl, _, underway_of_unmet hc hempty hmark, rfl⟩)
    · -- With nothing on the stack no terminal has the mark of one that lies there.
      have hmem := (hc.active target).1 hmark
      rw [hempty] at hmem
      exact absurd hmem List.not_mem_nil
    · rw [hresult]
      exact Or.inr (Or.inl ⟨rfl, (hc.placed target).1 hmark, run_of_empty hempty⟩)

/-- A target that is placed is placed behind all that it depends on. -/
theorem visited_of_visit (h : g.WellFormed) (hc : Consistent g scope t) (hempty : t.stack = [])
    (hv : visit g scope t target = .ok u) : Visited g scope t target u := by
  rcases visit_cases h hc hempty target with ⟨_, heq⟩ | ⟨_, hmem, heq⟩ |
    ⟨_, v, hunderway, heq⟩
  · rw [heq] at hv
    exact nomatch hv
  · rw [heq] at hv
    rcases Except.ok.inj hv with rfl
    exact ⟨hc, hempty, List.prefix_rfl, fun x hx => Or.inl hx, Or.inl ⟨hmem, rfl⟩⟩
  · rw [heq] at hv
    exact visited_of_underway h hunderway hv

/-- A target that is refused does not exist, or it depends on a terminal that is stuck. -/
theorem stuck_of_visit (h : g.WellFormed) (hc : Consistent g scope t) (hempty : t.stack = [])
    {e : Failure ScheduleError} (hv : visit g scope t target = .error e) :
    (g.hasTerminal target = false ∧ e = .cause (.unknownTerminal target)) ∨
    (g.hasTerminal target = true ∧ ∃ x, DependsOn g scope target x ∧ Stuck g scope x e) := by
  rcases visit_cases h hc hempty target with ⟨hhas, heq⟩ | ⟨_, _, heq⟩ |
    ⟨hhas, w, hunderway, heq⟩
  · rw [heq] at hv
    exact Or.inl ⟨hhas, (Except.error.inj hv).symm⟩
  · rw [heq] at hv
    exact nomatch hv
  · rw [heq] at hv
    have hrun := run_induction (Underway g scope t.order target)
      (fun _ _ hP hne hs => hP.step h hne hs) hunderway
    -- The run fails at a step, and up to that step the traversal was underway.
    rcases hrun.2 e hv with ⟨v, hdone, hne, hs⟩
    exact Or.inr ⟨hhas, hdone.stuck h hne hs⟩

theorem Visited.mem_order (hv : Visited g scope t target u) : target ∈ u.order := by
  rcases hv.last with ⟨hmem, rfl⟩ | hback
  · exact hmem
  · exact Array.mem_of_back? hback

/-- What was placed is what was placed before and what the target depends on. -/
theorem Visited.mem_order_iff (hv : Visited g scope t target u) (x : TerminalId) :
    x ∈ u.order ↔ x ∈ t.order ∨ DependsOn g scope target x := by
  constructor
  · exact hv.due x
  · rintro (hx | hx)
    · exact Array.mem_toList_iff.1 (hv.grown.subset (Array.mem_toList_iff.2 hx))
    · -- The list is in order, so with the target it holds all that the target depends on.
      exact Array.mem_toList_iff.1
        (hv.inOrder.mem_of_dependsOn (Array.mem_toList_iff.2 hv.mem_order) hx)

end Traversal

variable {g : Graph} {scope : Option Region} {t : TerminalId}

/-- The schedule of a terminal, if a number of steps is enough to find it. -/
def Graph.scheduleWithin (g : Graph) (steps : Nat) (target : TerminalId)
    (scope : Option Region) : Option Schedule := do
  let t ← (Traversal.enter g target (.start g)).toOption
  let u ← (Traversal.advance g scope steps t).toOption
  if g.hasTerminal target && u.stack.isEmpty then some u.order.toList else none

theorem schedule_eq_of_scheduleWithin (steps : Nat) {r : Schedule}
    (h : g.scheduleWithin steps t scope = some r) : g.schedule t scope = .ok r := by
  unfold Graph.scheduleWithin at h
  rcases Option.bind_eq_some_iff.1 h with ⟨v, hv, h⟩
  rcases Option.bind_eq_some_iff.1 h with ⟨u, hu, h⟩
  split at h
  · rename_i hdone
    rw [Bool.and_eq_true, List.isEmpty_iff] at hdone
    refine Graph.schedule_eq_ok.2 ⟨u, ?_, Option.some.inj h⟩
    rw [Traversal.visit, if_pos hdone.1, toOption_eq_some.1 hv]
    exact Traversal.run_eq_of_advance (toOption_eq_some.1 hu) hdone.2
  · exact nomatch h

/-- Three nodes in a ring; the message out of the last one is there and breaks the loop. -/
def primedRing : Graph :=
  (Graph.empty ⟨1⟩).applyAll [
    .addNamedNode "x" "Link" ["in1", "out"], .addNamedNode "y" "Link" ["in1", "out"],
    .addNamedNode "z" "Link" ["in1", "out"], .connect ⟨1⟩ ⟨2⟩ none, .connect ⟨3⟩ ⟨4⟩ none,
    .connect ⟨5⟩ ⟨0⟩ none, .setMessage ⟨5⟩ ⟨.gaussian, .series [0, 1]⟩]

theorem reachable_primedRing : Reachable primedRing := (Reachable.empty _).applyAll _

/-- A schedule is what a traversal has placed that started with nothing. -/
theorem visited_of_schedule (hg : Reachable g) {r : Schedule} (h : g.schedule t scope = .ok r) :
    ∃ u, Traversal.Visited g scope (.start g) t u ∧ u.order.toList = r := by
  rcases Graph.schedule_eq_ok.1 h with ⟨u, hu, hr⟩
  exact ⟨u, Traversal.visited_of_visit (Graph.wellFormed_of_reachable hg)
    (Traversal.consistent_start g scope) rfl hu, hr⟩

/-- A refusal of a schedule says that the target does not exist, or it points at something the
    target depends on. -/
theorem stuck_of_schedule (hg : Reachable g) {e : Failure ScheduleError}
    (h : g.schedule t scope = .error e) :
    (g.hasTerminal t = false ∧ e = .cause (.unknownTerminal t)) ∨
    (g.hasTerminal t = true ∧ ∃ x, DependsOn g scope t x ∧ Traversal.Stuck g scope x e) := by
  refine Traversal.stuck_of_visit (Graph.wellFormed_of_reachable hg)
    (Traversal.consistent_start g scope) rfl ?_
  unfold Graph.schedule at h
  split at h
  · rename_i e' he'
    rcases Except.error.inj h with rfl
    exact he'
  · exact nomatch h

/-- A schedule lists the target and all that it depends on and nothing else, each once, the
    target last and everything behind what it needs; and no node it passes through has another
    terminal that is loose. -/
theorem schedule_lists_dependencies (hg : Reachable g) {r : Schedule}
    (h : g.schedule t scope = .ok r) :
    r.Nodup ∧ r.getLast? = some t ∧ (∀ x, x ∈ r ↔ DependsOn g scope t x) ∧
      (∀ (i : Nat) x, r[i]? = some x → ∀ p, Needs g scope x p → ∃ j, j < i ∧ r[j]? = some p) ∧
      ∀ x ∈ r, ∀ y, ¬ Loose g x y := by
  rcases visited_of_schedule hg h with ⟨u, hu, rfl⟩
  refine ⟨hu.nodup_order, ?_, fun x => ?_, fun i x hx p hp => hu.inOrder.exists_lt hx hp,
    fun x hx => hu.tight x (Array.mem_toList_iff.1 hx)⟩
  · -- Nothing had been placed before, so the target was placed last.
    rcases hu.last with ⟨hmem, _⟩ | hback
    · exact absurd hmem (Array.not_mem_empty t)
    · rw [Array.getLast?_toList]
      exact hback
  · rw [Array.mem_toList_iff, hu.mem_order_iff]
    exact ⟨fun hx => hx.resolve_left (Array.not_mem_empty x), Or.inr⟩

/-- Around a ring that a message breaks, the schedule for the terminal that holds it goes once
    around and ends there. -/
theorem schedule_lists_dependencies_ring :
    primedRing.schedule ⟨5⟩ none = .ok [⟨1⟩, ⟨3⟩, ⟨5⟩] ∧
    ∀ x, x ∈ [(⟨1⟩ : TerminalId), ⟨3⟩, ⟨5⟩] ↔ DependsOn primedRing none ⟨5⟩ x := by
  have h : primedRing.schedule ⟨5⟩ none = .ok [⟨1⟩, ⟨3⟩, ⟨5⟩] :=
    schedule_eq_of_scheduleWithin 12 (by decide +kernel)
  exact ⟨h, (schedule_lists_dependencies reachable_primedRing h).2.2.1⟩

/-- There is a schedule exactly if the target exists and nothing it depends on is on a loop of
    needs or at a node with another terminal that is loose. A refusal that names a loop names a
    terminal on one, and a refusal that names a terminal without a partner names a loose one,
    among what the target depends on; there is no other refusal but of a target that does not
    exist. -/
theorem schedule_succeeds_iff (hg : Reachable g) (scope : Option Region) (t : TerminalId) :
    ((∃ r, g.schedule t scope = .ok r) ↔ g.hasTerminal t = true ∧
      (∀ x, DependsOn g scope t x → ¬ OnLoop g scope x) ∧
      ∀ x, DependsOn g scope t x → ∀ y, ¬ Loose g x y) ∧
    (∀ x l, g.schedule t scope = .error (.cause (.unbrokenLoop x l)) →
      DependsOn g scope t x ∧ OnLoop g scope x) ∧
    (∀ y l, g.schedule t scope = .error (.cause (.disconnected y l)) →
      ∃ x, DependsOn g scope t x ∧ Loose g x y) ∧
    (∀ q, g.schedule t scope = .error (.cause (.unknownTerminal q)) ↔
      q = t ∧ g.hasTerminal t = false) ∧
    ∀ e, g.schedule t scope = .error e → e = .cause (.unknownTerminal t) ∨
      ∃ x l, (g.label x : Except (Failure ScheduleError) String) = .ok l ∧
        (e = .cause (.unbrokenLoop x l) ∨ e = .cause (.disconnected x l)) := by
  refine ⟨⟨?_, ?_⟩, fun x l h => ?_, fun y l h => ?_, fun q => ⟨fun h => ?_, ?_⟩, fun e h => ?_⟩
  · rintro ⟨r, hr⟩
    rcases visited_of_schedule hg hr with ⟨u, hu, _⟩
    have hmem : ∀ x, DependsOn g scope t x → x ∈ u.order :=
      fun x hx => (hu.mem_order_iff x).2 (Or.inr hx)
    refine ⟨hu.hasTerminal hu.mem_order, fun x hx => ?_, fun x hx => hu.tight x (hmem x hx)⟩
    exact hu.inOrder.not_onLoop (Array.mem_toList_iff.2 (hmem x hx))
  · rintro ⟨hhas, hloops, hloose⟩
    cases h : g.schedule t scope with
    | ok r => exact ⟨r, rfl⟩
    | error e =>
      -- Every refusal points at something that was excluded.
      exfalso
      rcases stuck_of_schedule hg h with ⟨hnot, _⟩ | ⟨_, x, hx, hstuck⟩
      · rw [hhas] at hnot
        exact nomatch hnot
      · cases hstuck with
        | loose y l hy _ => exact hloose x hx y hy
        | loop p l hp hloop _ => exact hloops p (hx.tail hp) hloop
  · -- A refusal for a loop comes from a terminal that needs one on it.
    rcases stuck_of_schedule hg h with ⟨_, heq⟩ | ⟨_, z, hz, hstuck⟩
    · exact nomatch heq
    · cases hstuck with
      | loop _ _ hp hloop _ => exact ⟨hz.tail hp, hloop⟩
  · rcases stuck_of_schedule hg h with ⟨_, heq⟩ | ⟨_, z, hz, hstuck⟩
    · exact nomatch heq
    · cases hstuck with
      | loose _ _ hy _ => exact ⟨z, hz, hy⟩
  · rcases stuck_of_schedule hg h with ⟨hnot, heq⟩ | ⟨_, z, _, hstuck⟩
    · injection heq with heq
      injection heq with heq
      exact ⟨heq, hnot⟩
    · exact nomatch hstuck
  · rintro ⟨rfl, hnot⟩
    simp only [Graph.schedule, Traversal.visit, hnot, refuse, Bool.false_eq_true, if_false]
  · rcases stuck_of_schedule hg h with ⟨_, heq⟩ | ⟨_, z, _, hstuck⟩
    · exact Or.inl heq
    · cases hstuck with
      | loose y l _ hl => exact Or.inr ⟨y, l, hl, Or.inr rfl⟩
      | loop p l _ _ hl => exact Or.inr ⟨p, l, hl, Or.inl rfl⟩

/-- Around a ring that a message breaks, nothing that the terminal holding it depends on is on a
    loop or at a node with a loose terminal. -/
theorem schedule_succeeds_iff_ring :
    Reachable primedRing ∧ primedRing.hasTerminal ⟨5⟩ = true ∧
      (∀ x, DependsOn primedRing none ⟨5⟩ x → ¬ OnLoop primedRing none x) ∧
      ∀ x, DependsOn primedRing none ⟨5⟩ x → ∀ y, ¬ Loose primedRing x y := by
  have h : primedRing.schedule ⟨5⟩ none = .ok [⟨1⟩, ⟨3⟩, ⟨5⟩] :=
    schedule_eq_of_scheduleWithin 12 (by decide +kernel)
  exact ⟨reachable_primedRing, (schedule_succeeds_iff reachable_primedRing none ⟨5⟩).1.1 ⟨_, h⟩⟩

end MessagePlan
