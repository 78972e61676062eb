import MessagePlan.Proofs.Schedule.Regional

/-!
# Completing What is Complete

A list of terminals of a region is completed by placing them one after the other, each behind what
it still needs. A list that is in order needs nothing put in, so completing it changes nothing,
and in particular a schedule of the region should be completed to itself.

It is, unless a terminal is loose at the node of an entry. Completing looks at all of the node and
reports the loose terminal. Three of the four parts of a schedule were made by the same traversal,
which would have reported it too; the terminals that are `Alone` were listed without one. So there
are schedules of a region that completing refuses, and what it refuses then is a terminal that is
alone in the region and has, besides the edge of another region, a loose terminal at its node.

## Main definitions

* `mergeGraph`: A node between two regions with a loose terminal.

## Theorems

* `checkEntries_eq_ok`, `of_checkEntries`: Which entries pass the check.
* `completePartial_eq_ok_iff`: What a list is completed to is listed for its entries.
* `completePartial_cases`: A list in order is completed to itself, or a terminal is loose.
* `completePartial_scheduleOf`: A schedule is completed to itself, or it lists a terminal that is
  alone at a node with a loose one.
-/

namespace MessagePlan

section Completion

variable {g : Graph} {p : Partition} {config : Config} {r : Region} {id : RegionId} {s : Schedule}

theorem checkEntries_eq_ok (h : g.WellFormed) (hthere : ∀ x ∈ s, g.hasTerminal x = true)
    (howned : ∀ x ∈ s, r.holds g x = true) : g.checkEntries r s = .ok () := by
  induction s with
  | nil => rfl
  | cons x s ih =>
    unfold Graph.checkEntries
    have hx := hthere x List.mem_cons_self
    simp only [hx, Bool.not_true, Bool.false_eq_true, if_false, owns_eq_ok h hx,
      howned x List.mem_cons_self, ok_bind]
    exact ih (fun z hz => hthere z (List.mem_cons_of_mem x hz))
      fun z hz => howned z (List.mem_cons_of_mem x hz)

theorem of_checkEntries (h : g.WellFormed) (hs : g.checkEntries r s = .ok ()) :
    ∀ x ∈ s, g.hasTerminal x = true ∧ r.holds g x = true := by
  induction s with
  | nil =>
    intro x hx
    exact absurd hx List.not_mem_nil
  | cons z s ih =>
    intro x hx
    unfold Graph.checkEntries at hs
    -- An entry has to be there, and to be owned by the region.
    cases hz : g.hasTerminal z with
    | false =>
      rw [hz] at hs
      exact nomatch hs
    | true =>
      rcases h.label_eq_ok (ε := ScheduleError) z with ⟨l, hl⟩
      simp only [hz, Bool.not_true, Bool.false_eq_true, if_false, owns_eq_ok h hz, ok_bind,
        hl] at hs
      cases hholds : r.holds g z with
      | false =>
        rw [hholds] at hs
        exact nomatch hs
      | true =>
        rw [hholds] at hs
        rcases List.mem_cons.1 hx with rfl | hx
        · exact ⟨hz, hholds⟩
        · exact ih hs x hx

/-- What a list is completed to is what is listed for its entries, if the region holds them all. -/
theorem completePartial_eq_listed (h : g.WellFormed) (hthere : ∀ x ∈ s, g.hasTerminal x = true)
    (howned : ∀ x ∈ s, r.holds g x = true) : g.completePartial s r = listed g (some r) s := by
  rw [Graph.completePartial, checkEntries_eq_ok h hthere howned]
  rfl

/-- A list is completed only if all its entries are there and the region holds them. -/
theorem completePartial_eq_ok_iff (h : g.WellFormed) {s' : Schedule} :
    g.completePartial s r = .ok s' ↔
      (∀ x ∈ s, g.hasTerminal x = true ∧ r.holds g x = true) ∧ listed g (some r) s = .ok s' := by
  constructor
  · intro hs
    rcases bind_eq_ok.1 hs with ⟨_, hcheck, hlisted⟩
    exact ⟨of_checkEntries h hcheck, hlisted⟩
  · intro hs
    rw [completePartial_eq_listed h (fun x hx => (hs.1 x hx).1) fun x hx => (hs.1 x hx).2]
    exact hs.2

/-- A list of a region's own terminals that is in order and without repeats is completed to
    itself, or a terminal is loose at the node of an entry, and one such is reported. -/
theorem completePartial_cases (h : g.WellFormed) (hnodup : s.Nodup) (hs : InOrder g (some r) s)
    (hthere : ∀ x ∈ s, g.hasTerminal x = true) (howned : ∀ x ∈ s, r.holds g x = true) :
    (g.completePartial s r = .ok s ∧ ∀ x ∈ s, ∀ y, ¬ Loose g x y) ∨
      ∃ x ∈ s, ∃ y l, Loose g x y ∧
        g.completePartial s r = .error (.cause (.disconnected y l)) := by
  rw [completePartial_eq_listed h hthere howned]
  exact Traversal.listed_cases_of_inOrder h hnodup hthere hs

/-- A schedule of a region is completed to itself, and then no terminal is loose at the node of an
    entry; or it lists a terminal, as one that is alone in the region, at whose node another one is
    loose, and completing the schedule reports the loose one. -/
theorem completePartial_scheduleOf (hg : Reachable g) (hp : p.BuiltOn g)
    (hr : p.region? id = some r) (hs : p.scheduleOf g config id = .ok s) :
    (g.completePartial s r = .ok s ∧ ∀ x ∈ s, ∀ y, ¬ Loose g x y) ∨
      ∃ x ∈ s, ∃ y l, config.univariateOutbounds = true ∧ Alone g r x ∧ Loose g x y ∧
        g.completePartial s r = .error (.cause (.disconnected y l)) := by
  have h := Graph.wellFormed_of_reachable hg
  have hscheduled := scheduled_of_scheduleOf h (Partition.divides_of_builtOn h hp) hr hs
  rcases completePartial_cases h hscheduled.nodup hscheduled.inOrder hscheduled.there
    hscheduled.owned with hok | ⟨x, hx, y, l, hloose, he⟩
  · exact Or.inl hok
  · -- A traversal would have reported the loose terminal before.
    rcases hscheduled.tight x hx with ⟨hon, halone⟩ | htight
    · exact Or.inr ⟨x, hx, y, l, hon, halone, hloose, he⟩
    · exact absurd hloose (htight y)

/-- Two regions that meet at a node with a loose terminal. -/
def mergeGraph : Graph :=
  (Graph.empty ⟨1⟩).applyAll [
    .addNamedNode "a" "Source" ["out"], .addNamedNode "b" "Merge" ["in1", "in2", "out"],
    .addNamedNode "c" "Sink" ["in1"], .connect ⟨0⟩ ⟨1⟩ none, .connect ⟨3⟩ ⟨4⟩ none]

/-- The schedule of the first region lists `b.in1`, though `b.in2` is loose, and completing it
    reports `b.in2`. -/
theorem completePartial_scheduleOf_merge :
    Reachable mergeGraph ∧ halves.BuiltOn mergeGraph ∧
      halves.region? ⟨0⟩ = some (halfOfTwo 0 1) ∧
      halves.scheduleOf mergeGraph {} ⟨0⟩ = .ok [⟨0⟩, ⟨1⟩] ∧ Loose mergeGraph ⟨1⟩ ⟨2⟩ ∧
      ∃ l, mergeGraph.completePartial [⟨0⟩, ⟨1⟩] (halfOfTwo 0 1) =
        .error (.cause (.disconnected ⟨2⟩ l)) := by
  have hg : Reachable mergeGraph := (Reachable.empty _).applyAll _
  have hp : halves.BuiltOn mergeGraph := by
    refine Partition.BuiltOn.groups [[⟨0⟩], [⟨1⟩]] halves ?_
    simp only [Partition.ofGroups, Partition.regionOfGroup, Partition.outerEdges, Region.nodes,
      distinct_eq_eraseDups]
    exact toOption_eq_some.1 (by decide +kernel)
  have h := Graph.wellFormed_of_reachable hg
  have hboundary : (halfOfTwo 0 1).boundary mergeGraph =
      (.ok [⟨⟨1⟩, 1⟩] : Except (Failure ScheduleError) _) := by
    simp only [Region.boundary, Region.nodes, distinct_eq_eraseDups]
    exact toOption_eq_some.1 (by decide +kernel)
  have hs : halves.scheduleOf mergeGraph {} ⟨0⟩ = .ok [⟨0⟩, ⟨1⟩] :=
    scheduleOf_eq_of_scheduleWithin h (Partition.divides_of_builtOn h hp) rfl hboundary 4
      (by decide +kernel)
  have hloose : Loose mergeGraph ⟨1⟩ ⟨2⟩ := by
    unfold Loose
    decide +kernel
  -- The only loose terminal next to the schedule is the second input of the merge.
  have honly : ∀ x ∈ [(⟨0⟩ : TerminalId), ⟨1⟩], ∀ y ∈ mergeGraph.ports x, y ≠ x →
      mergeGraph.partner? y = none → y = ⟨2⟩ := by
    decide +kernel
  refine ⟨hg, hp, rfl, hs, hloose, ?_⟩
  rcases completePartial_scheduleOf hg hp rfl hs with
    ⟨_, htight⟩ | ⟨x, hx, y, l, _, _, ⟨hy, hne, hnone⟩, he⟩
  · exact absurd hloose (htight ⟨1⟩ (by decide) ⟨2⟩)
  · rw [honly x hx y hy hne hnone] at he
    exact ⟨l, he⟩

end Completion

end MessagePlan
