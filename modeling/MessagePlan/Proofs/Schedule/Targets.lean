import MessagePlan.Proofs.Schedule.Order
import MessagePlan.Proofs.Steps

/-!
# Traversals for Several Targets

Where several terminals are asked for, one traversal goes from each to the next, and none of them
is placed twice. What has been placed in the end does not depend on where one target stopped and
another began: it is what the targets depend on, each terminal behind what it needs.

Everything that is `listed` this way is `Workable`: it is there, it is in order, and no terminal is
loose at its nodes.

A traversal can also be given a list that is in order already. Then each entry finds all that it
needs in its place, and nothing is put in before it, so the traversal places the list as it is.
The one thing that can stop it there is an entry with a loose terminal at its node: to be in order
says nothing about these.

## Main definitions

* `Workable`: A list in order that nothing at its nodes keeps from being computed.
* `Traversal.VisitedAll`: What a traversal has become when it has placed some targets.
* `listed`: The list that a traversal makes for some targets.
* `Traversal.listedWithin`: The same list, found within a number of steps.

## Theorems

* `visitAll_eq_foldlM`, `foldlM_eq_visitAll`: Targets may be handed over in pieces.
* `visitAll_cases`: Targets are placed with all that they depend on, or one of them is refused.
* `listed_cases`: What is listed is workable, and it is what the targets depend on.
* `listed_cases_of_inOrder`: A list in order is listed as it is, or a terminal is loose.
-/

namespace MessagePlan

open Relation

/-- A list in order whose entries are there, without a loose terminal at their nodes. -/
structure Workable (g : Graph) (scope : Option Region) (r : List TerminalId) : Prop where
  inOrder : InOrder g scope r
  there : ∀ x ∈ r, g.hasTerminal x = true
  tight : ∀ x ∈ r, ∀ y, ¬ Loose g x y

/-- The order in which a traversal places some targets and what they depend on. -/
def listed (g : Graph) (scope : Option Region) (targets : List TerminalId) :
    Except (Failure ScheduleError) Schedule := do
  return (← Traversal.visitAll g scope (.start g) targets).order.toList

/-- A list without repeats that has one thing and nothing else has it once. -/
theorem eq_singleton_of_nodup {α : Type} {x : α} {l : List α} (hnodup : l.Nodup) (hx : x ∈ l)
    (honly : ∀ z ∈ l, z = x) : l = [x] := by
  cases l with
  | nil => exact absurd hx List.not_mem_nil
  | cons z l =>
    have hz : z = x := honly z List.mem_cons_self
    have hrest : l = [] := by
      refine List.eq_nil_iff_forall_not_mem.2 fun w hw => ?_
      have hwz : w = z := (honly w (List.mem_cons_of_mem z hw)).trans hz.symm
      exact (List.nodup_cons.1 hnodup).1 (hwz ▸ hw)
    rw [hz, hrest]

theorem listed_nil (g : Graph) (scope : Option Region) : listed g scope [] = .ok [] := rfl

theorem Workable.of_append {g : Graph} {scope : Option Region} {r r' : List TerminalId}
    (hr : Workable g scope (r ++ r')) : Workable g scope r where
  inOrder := hr.inOrder.of_append
  there x hx := hr.there x (List.mem_append_left r' hx)
  tight x hx := hr.tight x (List.mem_append_left r' hx)

namespace Traversal

/-- A consistent traversal with an empty stack that has placed what some targets depend on, and
    nothing else. -/
structure VisitedAll (g : Graph) (scope : Option Region) (targets : List TerminalId)
    (t : Traversal) : Prop extends Consistent g scope t where
  empty : t.stack = []
  mem_iff : ∀ x, x ∈ t.order ↔ ∃ target ∈ targets, DependsOn g scope target x

variable {g : Graph} {scope : Option Region} {t u : Traversal} {x : TerminalId}
  {r targets : List TerminalId}

theorem visitAll_eq_foldlM (t : Traversal) (targets : List TerminalId) :
    visitAll g scope t targets = targets.foldlM (visit g scope) t := by
  induction targets generalizing t with
  | nil => rfl
  | cons target targets ih =>
    rw [visitAll, List.foldlM_cons]
    cases visit g scope t target with
    | error e => rfl
    | ok u => exact ih u

/-- Steps that each place some targets place all of them, one piece after the other. -/
theorem foldlM_eq_visitAll {α : Type} {f : Traversal → α → Except (Failure ScheduleError) Traversal}
    {k : α → List TerminalId} {l : List α} (hf : ∀ a ∈ l, ∀ t, f t a = visitAll g scope t (k a))
    (t : Traversal) : l.foldlM f t = visitAll g scope t (l.flatMap k) := by
  induction l generalizing t with
  | nil => rfl
  | cons a l ih =>
    rw [List.foldlM_cons, List.flatMap_cons, visitAll_append, hf a List.mem_cons_self]
    refine bind_congr fun u => ?_
    exact ih (fun b hb => hf b (List.mem_cons_of_mem a hb)) u

theorem visitedAll_start (g : Graph) (scope : Option Region) :
    VisitedAll g scope [] (start g) where
  toConsistent := consistent_start g scope
  empty := rfl
  mem_iff x := by
    refine iff_of_false (Array.not_mem_empty x) ?_
    rintro ⟨target, htarget, _⟩
    exact absurd htarget List.not_mem_nil

/-- A target more is placed with what it depends on, as far as this had not been placed. -/
theorem VisitedAll.concat (ht : VisitedAll g scope targets t) {target : TerminalId}
    (hu : Visited g scope t target u) : VisitedAll g scope (targets ++ [target]) u where
  toConsistent := hu.toConsistent
  empty := hu.empty
  mem_iff x := by
    rw [hu.mem_order_iff, ht.mem_iff]
    constructor
    · rintro (⟨target', hmem, hx⟩ | hx)
      · exact ⟨target', List.mem_append_left _ hmem, hx⟩
      · exact ⟨target, List.mem_append_right _ (List.mem_singleton.2 rfl), hx⟩
    · rintro ⟨target', hmem, hx⟩
      rcases List.mem_append.1 hmem with hmem | hmem
      · exact Or.inl ⟨target', hmem, hx⟩
      · rw [List.mem_singleton.1 hmem] at hx
        exact Or.inr hx

/-- Targets are placed with all that they depend on, or one of them is refused for a cause. -/
theorem visitAll_cases (h : g.WellFormed) (scope : Option Region) (targets : List TerminalId) :
    (∃ u, visitAll g scope (start g) targets = .ok u ∧ VisitedAll g scope targets u) ∨
      ∃ e, visitAll g scope (start g) targets = .error (.cause e) := by
  rw [visitAll_eq_foldlM]
  have hcases := foldlM_cases (VisitedAll g scope) (fun _ e => ∃ e', e = .cause e')
    (f := visit g scope) (l := targets) (visitedAll_start g scope) (by
      intro before target after t _ ht
      cases hv : visit g scope t target with
      | ok u => exact Or.inl ⟨u, rfl, ht.concat (visited_of_visit h ht.toConsistent ht.empty hv)⟩
      | error e =>
        refine Or.inr ⟨e, ?_, rfl⟩
        rcases stuck_of_visit h ht.toConsistent ht.empty hv with ⟨_, rfl⟩ | ⟨_, z, _, hstuck⟩
        · exact ⟨_, rfl⟩
        · exact hstuck.exists_cause)
  rcases hcases with hok | ⟨target, _, e, ⟨e', rfl⟩, he⟩
  · exact Or.inl hok
  · exact Or.inr ⟨e', he⟩

/-- What is listed is workable, and it is what the targets depend on. -/
theorem listed_cases (h : g.WellFormed) (scope : Option Region) (targets : List TerminalId) :
    (∃ s, listed g scope targets = .ok s ∧ Workable g scope s ∧
      ∀ x, x ∈ s ↔ ∃ target ∈ targets, DependsOn g scope target x) ∨
    ∃ e, listed g scope targets = .error (.cause e) := by
  unfold listed
  rcases visitAll_cases h scope targets with ⟨u, hu, hall⟩ | ⟨e, he⟩
  · rw [hu, ok_bind]
    refine Or.inl ⟨_, rfl, ⟨hall.inOrder, fun x hx => ?_, fun x hx => ?_⟩, fun x => ?_⟩
    · exact hall.hasTerminal (Array.mem_toList_iff.1 hx)
    · exact hall.tight x (Array.mem_toList_iff.1 hx)
    · rw [Array.mem_toList_iff]
      exact hall.mem_iff x
  · rw [he, error_bind]
    exact Or.inr ⟨e, rfl⟩

/-- A terminal whose needs have all been placed depends on nothing else that has not. -/
theorem eq_or_mem_of_dependsOn {order : List TerminalId} (horder : InOrder g scope order)
    (hneeds : ∀ p, Needs g scope x p → p ∈ order) {z : TerminalId} (hz : DependsOn g scope x z) :
    z = x ∨ z ∈ order := by
  rcases ReflTransGen.cases_head hz with heq | ⟨p, hp, hz⟩
  · exact Or.inl heq.symm
  · exact Or.inr (horder.mem_of_dependsOn (hneeds p hp) hz)

/-- A terminal whose needs have all been placed is placed right behind them, if it has not been
    placed itself and no terminal of its node is loose. -/
theorem visit_cases_of_needs (h : g.WellFormed) (hc : Consistent g scope t) (hempty : t.stack = [])
    (hx : g.hasTerminal x = true) (hnew : x ∉ t.order)
    (hneeds : ∀ p, Needs g scope x p → p ∈ t.order.toList) :
    (∃ u, visit g scope t x = .ok u ∧ Consistent g scope u ∧ u.stack = [] ∧
      u.order.toList = t.order.toList ++ [x]) ∨
    ∃ y l, Loose g x y ∧ visit g scope t x = .error (.cause (.disconnected y l)) := by
  cases hv : visit g scope t x with
  | ok u =>
    have hu := visited_of_visit h hc hempty hv
    refine Or.inl ⟨u, rfl, hu.toConsistent, hu.empty, ?_⟩
    rcases hu.grown with ⟨added, hadded⟩
    -- What was added is the terminal, since it depends on nothing else that is new.
    have hnodup := hu.nodup_order
    rw [← hadded, List.nodup_append] at hnodup
    have honly : ∀ z ∈ added, z = x := by
      intro z hz
      have hmem : z ∈ u.order.toList := hadded ▸ List.mem_append_right _ hz
      rcases hu.due z (Array.mem_toList_iff.1 hmem) with hold | hdue
      · exact absurd rfl (hnodup.2.2 z (Array.mem_toList_iff.2 hold) z hz)
      · rcases eq_or_mem_of_dependsOn hc.inOrder hneeds hdue with heq | hold
        · exact heq
        · exact absurd rfl (hnodup.2.2 z hold z hz)
    have hin : x ∈ added := by
      have hmem : x ∈ u.order.toList := Array.mem_toList_iff.2 hu.mem_order
      rw [← hadded] at hmem
      exact (List.mem_append.1 hmem).resolve_left fun hold => hnew (Array.mem_toList_iff.1 hold)
    rw [← hadded, eq_singleton_of_nodup hnodup.2.1 hin honly]
  | error e =>
    rcases stuck_of_visit h hc hempty hv with ⟨hnot, _⟩ | ⟨_, z, hz, hstuck⟩
    · rw [hx] at hnot
      exact nomatch hnot
    · have hcase := eq_or_mem_of_dependsOn hc.inOrder hneeds hz
      cases hstuck with
      | loose y l hy _ =>
        -- No terminal is loose at the node of one that has been placed.
        rcases hcase with rfl | hplaced
        · exact Or.inr ⟨y, l, hy, rfl⟩
        · exact absurd hy (hc.tight z (Array.mem_toList_iff.1 hplaced) y)
      | loop p l hp hloop _ =>
        -- What is needed has been placed, and nothing that has been placed is on a loop.
        have hplaced : p ∈ t.order.toList := by
          rcases hcase with rfl | hplaced
          · exact hneeds p hp
          · exact hc.inOrder.mem_of_needs hplaced hp
        exact absurd hloop (hc.inOrder.not_onLoop hplaced)

/-- A list in order is listed as it is, or a terminal is loose at the node of an entry. -/
theorem listed_cases_of_inOrder (h : g.WellFormed) (hnodup : r.Nodup)
    (hthere : ∀ x ∈ r, g.hasTerminal x = true) (hr : InOrder g scope r) :
    (listed g scope r = .ok r ∧ ∀ x ∈ r, ∀ y, ¬ Loose g x y) ∨
      ∃ x ∈ r, ∃ y l, Loose g x y ∧ listed g scope r = .error (.cause (.disconnected y l)) := by
  unfold listed
  rw [visitAll_eq_foldlM]
  have hcases := foldlM_cases
    (fun before t => Consistent g scope t ∧ t.stack = [] ∧ t.order.toList = before)
    (fun x e => ∃ y l, Loose g x y ∧ e = .cause (.disconnected y l))
    (f := visit g scope) (l := r) ⟨consistent_start g scope, rfl, rfl⟩ (by
      rintro before x after t rfl ⟨hc, hempty, rfl⟩
      have hx := hthere x (List.mem_append_right _ List.mem_cons_self)
      have hnew : x ∉ t.order := by
        intro hmem
        rw [List.nodup_append] at hnodup
        exact absurd rfl (hnodup.2.2 x (Array.mem_toList_iff.2 hmem) x List.mem_cons_self)
      rcases visit_cases_of_needs h hc hempty hx hnew (hr _ x after rfl) with
        hok | ⟨y, l, hy, he⟩
      · exact Or.inl hok
      · exact Or.inr ⟨_, ⟨y, l, hy, rfl⟩, he⟩)
  rcases hcases with ⟨u, hu, hc, _, rfl⟩ | ⟨x, hx, e, ⟨y, l, hy, rfl⟩, he⟩
  · rw [hu, ok_bind]
    exact Or.inl ⟨rfl, fun x hx => hc.tight x (Array.mem_toList_iff.1 hx)⟩
  · rw [he, error_bind]
    exact Or.inr ⟨x, hx, y, l, hy, rfl⟩

/-- The traversal that has placed a target, if a number of steps is enough for it. -/
def visitWithin (g : Graph) (scope : Option Region) (steps : Nat) (t : Traversal)
    (target : TerminalId) : Option Traversal := do
  let u ← (enter g target t).toOption
  let v ← (advance g scope steps u).toOption
  if g.hasTerminal target && v.stack.isEmpty then some v else none

/-- The list for some targets, if a number of steps is enough for each. -/
def listedWithin (g : Graph) (scope : Option Region) (steps : Nat) (targets : List TerminalId) :
    Option Schedule := do
  return (← targets.foldlM (visitWithin g scope steps) (.start g)).order.toList

theorem visit_eq_of_visitWithin {steps : Nat} {target : TerminalId}
    (h : visitWithin g scope steps t target = some u) : visit g scope t target = .ok u := by
  unfold visitWithin at h
  rcases Option.bind_eq_some_iff.1 h with ⟨v, hv, h⟩
  rcases Option.bind_eq_some_iff.1 h with ⟨w, hw, h⟩
  rcases Option.ite_none_right_eq_some.1 h with ⟨hdone, hu⟩
  rw [Bool.and_eq_true, List.isEmpty_iff] at hdone
  rw [visit, if_pos hdone.1, toOption_eq_some.1 hv, ← Option.some.inj hu]
  exact run_eq_of_advance (toOption_eq_some.1 hw) hdone.2

theorem visitAll_eq_of_visitWithin {steps : Nat}
    (h : targets.foldlM (visitWithin g scope steps) t = some u) :
    visitAll g scope t targets = .ok u := by
  induction targets generalizing t with
  | nil => exact congrArg Except.ok (Option.some.inj h)
  | cons target targets ih =>
    rw [List.foldlM_cons] at h
    rcases Option.bind_eq_some_iff.1 h with ⟨v, hv, h⟩
    rw [visitAll, visit_eq_of_visitWithin hv]
    exact ih h

theorem listed_eq_of_listedWithin {steps : Nat}
    (h : listedWithin g scope steps targets = some r) : listed g scope targets = .ok r := by
  rcases Option.bind_eq_some_iff.1 h with ⟨u, hu, h⟩
  unfold listed
  rw [visitAll_eq_of_visitWithin hu, ok_bind, ← Option.some.inj h]
  rfl

end Traversal

end MessagePlan
