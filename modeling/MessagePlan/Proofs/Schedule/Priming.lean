import Mathlib.Data.List.Perm.Subperm
import MessagePlan.Proofs.Schedule.Isolation

/-!
# Priming a Terminal

A terminal is primed by putting a message on it. Its own message need not be computed any more, and
neither what is needed for that alone; so there is less to do, and whatever could be scheduled
before can be scheduled still.

What is left to do need not come in the order it had before. Where the message that is there now
was computed first, it led the traversal to terminals that are needed elsewhere as well; now they
are met later, behind terminals that used to follow them. So the schedules are compared as sets,
by what the target depends on, and a smaller set of needs is all that is asked of the second graph
(`exists_schedule_of_needs`).

They are the same to the letter where nothing that the target depends on needs the primed terminal.
Here the traversal itself has to be followed, but only as far as it goes: it asks what is needed for
the terminals on its stack, and the target depends on these (`Underway.run_congr`). A primed
target is a case of this. If something that it depends on needed it, there would be a loop.

## Main definitions

* `forkGraph`: A node that is reached in two ways.

## Theorems

* `Underway.run_congr`, `schedule_congr_of_dependsOn`: A schedule looks at no more than its target
  depends on.
* `needs_withMessage`: A message takes away the needs of its terminal and no others.
* `exists_schedule_of_needs`: What has a schedule has one where less is needed.
* `schedule_primed`: What priming a terminal does to a schedule.
-/

namespace MessagePlan

open Relation

variable {g g' : Graph} {scope : Option Region} {t i x y p : TerminalId} {r : Schedule}
  {message : Message}

/-! ### What a traversal asks -/

section Asked

variable (hshape : g.SameShape g') (hneeds : ∀ x, DependsOn g scope t x → ∀ y ∈ g.ports x,
  needAt g' scope x y = needAt g scope x y)

include hshape hneeds

namespace Traversal

variable {before : Array TerminalId} {u : Traversal}

/-- A step asks what is needed for the terminal on top of the stack. -/
theorem Underway.step_congr (hu : Underway g scope before t u) :
    Traversal.step g' scope u = Traversal.step g scope u := by
  unfold Traversal.step
  split
  · rfl
  · rfl
  · rename_i x y rest below hstack
    have hwaiting := hu.waiting
    rw [hstack] at hwaiting
    -- Only the terminal on top is gone on with, and it was asked for by the target.
    have hx : DependsOn g scope t x := by
      refine hu.asked x ?_
      rw [hstack]
      exact List.mem_cons_self
    rw [hneeds x hx y hwaiting.1.mem_ports]
    split
    · rfl
    · rfl
    · exact enter_congr hshape _

theorem Underway.run_congr (h : g.WellFormed) (hu : Underway g scope before t u) :
    run g' scope u = run g scope u := by
  induction u using run.induct g scope with
  | case1 u hempty => rw [run_of_empty hempty, run_of_empty hempty]
  | case2 u hne e he =>
    rw [run_eq_step hne, run_eq_step hne, hu.step_congr hshape hneeds, he]
    rfl
  | case3 u hne v hv ih =>
    rw [run_eq_step hne, run_eq_step hne, hu.step_congr hshape hneeds, hv]
    exact ih (hu.step h hne hv)

end Traversal

/-- A schedule is the same where the same is needed for what its target depends on. -/
theorem schedule_congr_of_dependsOn (h : g.WellFormed) :
    g'.schedule t scope = g.schedule t scope := by
  have hc := Traversal.consistent_start g scope
  unfold Graph.schedule Traversal.visit
  rw [Traversal.start_congr hshape, hshape.hasTerminal_eq, Traversal.enter_congr hshape]
  by_cases hhas : g.hasTerminal t = true
  · rw [if_pos hhas, if_pos hhas]
    rcases Traversal.enter_cases h hc.size hhas with ⟨hmark, hresult⟩ | ⟨_, l, hresult, _⟩ |
      ⟨_, hresult⟩
    · rw [hresult]
      simp only [(Traversal.underway_of_unmet hc rfl hmark).run_congr hshape hneeds h]
    · rw [hresult]
    · -- A traversal that has not started has nothing on its stack.
      rw [hresult]
      simp only [Traversal.run_of_empty (t := .start g) rfl]
  · rw [if_neg hhas, if_neg hhas]

end Asked

/-! ### A message more -/

/-- A message takes away the needs of what it is put on, and no others. -/
theorem needs_withMessage (h : g.WellFormed) :
    Needs (g.withMessage i (some message)) scope x p ↔ Needs g scope x p ∧ p ≠ i := by
  have hshape := sameShape_withMessage g i (some message)
  simp only [Needs, NeededAt, hshape.ports_eq, hshape.inside_iff, hshape.partner?_eq]
  constructor
  · rintro ⟨y, hy, hne, hin, hp, hnone⟩
    by_cases hpi : p = i
    · rw [hpi, message?_withMessage_self (hpi ▸ h.hasTerminal_of_partner? hp)] at hnone
      exact absurd hnone (Option.some_ne_none message)
    · rw [message?_withMessage hpi] at hnone
      exact ⟨⟨y, hy, hne, hin, hp, hnone⟩, hpi⟩
  · rintro ⟨⟨y, hy, hne, hin, hp, hnone⟩, hpi⟩
    exact ⟨y, hy, hne, hin, hp, by rw [message?_withMessage hpi, hnone]⟩

/-- At a terminal that does not need what is primed, the same is found. -/
theorem needAt_withMessage (h : g.WellFormed) (hx : ¬ Needs g scope x i) (hy : y ∈ g.ports x) :
    needAt (g.withMessage i (some message)) scope x y = needAt g scope x y := by
  refine (sameShape_withMessage g i (some message)).needAt_eq fun p hne hin hp => ?_
  by_cases hpi : p = i
  · -- The partner is the primed terminal. It is not needed, so it held a message before.
    have hheld : g.message? p ≠ none := fun hnone =>
      hx (hpi ▸ ⟨y, hy, hne, (inScope_eq_true_iff h hp).1 hin, hp, hnone⟩)
    rw [← hpi, message?_withMessage_self (h.hasTerminal_of_partner? hp), Option.isSome_some]
    exact (Option.isSome_iff_ne_none.2 hheld).symm
  · rw [message?_withMessage hpi]

/-- What has a schedule needs neither what is not in it nor the target. -/
theorem not_needs_of_schedule (hg : Reachable g) (hr : g.schedule t scope = .ok r)
    (hi : i ∉ r ∨ i = t) (hx : DependsOn g scope t x) : ¬ Needs g scope x i := by
  rcases visited_of_schedule hg hr with ⟨u, hu, rfl⟩
  intro hneed
  rcases hi with hi | rfl
  · exact hi (Array.mem_toList_iff.2 ((hu.mem_order_iff i).2 (Or.inr (hx.tail hneed))))
  · -- From the target the needs would lead back to it.
    exact hu.inOrder.not_onLoop (Array.mem_toList_iff.2 hu.mem_order) (TransGen.tail' hx hneed)

/-- What has a schedule has one where less is needed, and nothing is in it that was not in the
    schedule before. -/
theorem exists_schedule_of_needs (hg : Reachable g) (hg' : Reachable g') (hshape : g.SameShape g')
    (hle : ∀ x p, Needs g' scope x p → Needs g scope x p) (hr : g.schedule t scope = .ok r) :
    ∃ r', g'.schedule t scope = .ok r' ∧ r'.Nodup ∧ (∀ x ∈ r', DependsOn g' scope t x) ∧
      ∀ x ∈ r', x ∈ r := by
  rcases visited_of_schedule hg hr with ⟨u, hu, rfl⟩
  have hmem : ∀ x, DependsOn g' scope t x → x ∈ u.order := fun x hx =>
    (hu.mem_order_iff x).2 (Or.inr (ReflTransGen.mono hle _ _ hx))
  cases hr' : g'.schedule t scope with
  | ok r' =>
    rcases visited_of_schedule hg' hr' with ⟨u', hu', rfl⟩
    have hdue : ∀ x ∈ u'.order.toList, DependsOn g' scope t x := fun x hx =>
      ((hu'.mem_order_iff x).1 (Array.mem_toList_iff.1 hx)).resolve_left (Array.not_mem_empty x)
    exact ⟨_, rfl, hu'.nodup_order, hdue,
      fun x hx => Array.mem_toList_iff.2 (hmem x (hdue x hx))⟩
  | error e =>
    -- What stops the traversal would have stopped it before.
    exfalso
    rcases stuck_of_schedule hg' hr' with ⟨hnot, _⟩ | ⟨_, x, hx, hstuck⟩
    · rw [hshape.hasTerminal_eq, hu.hasTerminal hu.mem_order] at hnot
      exact nomatch hnot
    · cases hstuck with
      | loose y l hy _ => exact hu.tight x (hmem x hx) y (hshape.loose_iff.1 hy)
      | loop p l hp hloop _ =>
        refine hu.inOrder.not_onLoop (Array.mem_toList_iff.2 (hmem p (hx.tail hp))) ?_
        exact TransGen.mono hle _ _ hloop

/-- To prime a terminal, in a scope or without one, leaves every target its schedule. The schedule
    is the same if the primed terminal is not in it or is the target. Otherwise it lists, in an
    order that may be another one, a part of what it listed before, in which the primed terminal is
    not. And where a loop stands against a schedule after the terminal is primed, that loop was
    there before, and so was a refusal. -/
theorem schedule_primed (hg : Reachable g) (scope : Option Region) (t i : TerminalId)
    (message : Message) :
    (∀ r, g.schedule t scope = .ok r →
      ∃ r', (g.apply (.setMessage i message)).schedule t scope = .ok r' ∧
        (i ∉ r ∨ i = t → r' = r) ∧
        (i ∈ r → i ≠ t → ∃ s, s.Sublist r ∧ s ≠ r ∧ i ∉ s ∧ r'.Perm s)) ∧
    ∀ x l, (g.apply (.setMessage i message)).schedule t scope =
        .error (.cause (.unbrokenLoop x l)) →
      DependsOn g scope t x ∧ OnLoop g scope x ∧ ∃ e, g.schedule t scope = .error (.cause e) := by
  have h := Graph.wellFormed_of_reachable hg
  have hg' := hg.apply (.setMessage i message)
  have hshape := sameShape_withMessage g i (some message)
  rw [apply_setMessage] at hg' ⊢
  have hle : ∀ x p, Needs (g.withMessage i (some message)) scope x p → Needs g scope x p :=
    fun x p hneed => ((needs_withMessage h).1 hneed).1
  refine ⟨fun r hr => ?_, fun x l hloop => ?_⟩
  · rcases exists_schedule_of_needs hg hg' hshape hle hr with ⟨r', hr', hnodup, hdue, hsub⟩
    refine ⟨r', hr', fun hi => ?_, fun hi hit => ?_⟩
    · have hsame : (g.withMessage i (some message)).schedule t scope = g.schedule t scope :=
        schedule_congr_of_dependsOn hshape (fun x hx y hy =>
          needAt_withMessage h (not_needs_of_schedule hg hr hi hx) hy) h
      rw [hsame, hr] at hr'
      exact (Except.ok.inj hr').symm
    · have hnot : i ∉ r' := by
        intro hmem
        rcases ReflTransGen.cases_tail (hdue i hmem) with heq | ⟨x, _, hneed⟩
        · exact hit heq
        · exact ((needs_withMessage h).1 hneed).2 rfl
      rcases List.subperm_of_subset hnodup hsub with ⟨s, hperm, hs⟩
      have his : i ∉ s := fun hmem => hnot (hperm.mem_iff.1 hmem)
      refine ⟨s, hs, ?_, his, hperm.symm⟩
      rintro rfl
      exact his hi
  · rcases stuck_of_schedule hg' hloop with ⟨_, heq⟩ | ⟨_, z, hz, hstuck⟩
    · exact nomatch heq
    · cases hstuck with
      | loop _ _ hp hcycle _ =>
        refine ⟨ReflTransGen.mono hle _ _ (hz.tail hp), TransGen.mono hle _ _ hcycle, ?_⟩
        cases hr : g.schedule t scope with
        | ok r =>
          -- A schedule from before would have been kept.
          rcases exists_schedule_of_needs hg hg' hshape hle hr with ⟨r', hr', _⟩
          rw [hr'] at hloop
          exact nomatch hloop
        | error e =>
          rcases stuck_of_schedule hg hr with ⟨_, rfl⟩ | ⟨_, w, _, hw⟩
          · exact ⟨_, rfl⟩
          · rcases hw.exists_cause with ⟨e', rfl⟩
            exact ⟨e', rfl⟩

/-- A node that feeds another over two edges, with messages against them, and a third node that
    feeds the other one in between. -/
def forkGraph : Graph :=
  (Graph.empty ⟨1⟩).applyAll [
    .addNamedNode "start" "Source" ["out"], .addNamedNode "fork" "Fork" ["in1", "out1", "out2"],
    .addNamedNode "other" "Source" ["out"],
    .addNamedNode "join" "Join" ["in1", "in2", "in3", "out"],
    .connect ⟨0⟩ ⟨1⟩ none, .connect ⟨2⟩ ⟨5⟩ none, .connect ⟨4⟩ ⟨6⟩ none, .connect ⟨3⟩ ⟨7⟩ none,
    .setMessage ⟨5⟩ ⟨.gaussian, .series [0, 1]⟩, .setMessage ⟨7⟩ ⟨.gaussian, .series [0, 1]⟩]

/-- With the first branch of the fork primed, the source before it is still computed for the second
    branch, but behind the other source and no more before it. -/
theorem schedule_primed_fork : Reachable forkGraph ∧
    forkGraph.schedule ⟨8⟩ none = .ok [⟨0⟩, ⟨2⟩, ⟨4⟩, ⟨3⟩, ⟨8⟩] ∧
    (forkGraph.apply (.setMessage ⟨2⟩ ⟨.gaussian, .series [0, 1]⟩)).schedule ⟨8⟩ none =
      .ok [⟨4⟩, ⟨0⟩, ⟨3⟩, ⟨8⟩] ∧
    ∃ s, s.Sublist [(⟨0⟩ : TerminalId), ⟨2⟩, ⟨4⟩, ⟨3⟩, ⟨8⟩] ∧ (⟨2⟩ : TerminalId) ∉ s ∧
      [(⟨4⟩ : TerminalId), ⟨0⟩, ⟨3⟩, ⟨8⟩].Perm s := by
  have hg : Reachable forkGraph := (Reachable.empty _).applyAll _
  have hr : forkGraph.schedule ⟨8⟩ none = .ok [⟨0⟩, ⟨2⟩, ⟨4⟩, ⟨3⟩, ⟨8⟩] :=
    schedule_eq_of_scheduleWithin 20 (by decide +kernel)
  have hr' : (forkGraph.apply (.setMessage ⟨2⟩ ⟨.gaussian, .series [0, 1]⟩)).schedule ⟨8⟩ none =
      .ok [⟨4⟩, ⟨0⟩, ⟨3⟩, ⟨8⟩] := schedule_eq_of_scheduleWithin 20 (by decide +kernel)
  rcases (schedule_primed hg none ⟨8⟩ ⟨2⟩ ⟨.gaussian, .series [0, 1]⟩).1 _ hr with
    ⟨r', hprimed, _, hpart⟩
  -- The source of the fork is placed later, when it is first needed, so that the order changes.
  rcases hpart (by decide) (by decide) with ⟨s, hs, _, hnot, hperm⟩
  rw [hr'] at hprimed
  rcases Except.ok.inj hprimed with rfl
  exact ⟨hg, hr, hr', s, hs, hnot, hperm⟩

end MessagePlan
