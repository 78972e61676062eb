import MessagePlan.Proofs.Program.Supply
import MessagePlan.Proofs.Schedule.Regional

/-!
# Programs that Meet at Nodes

In a plan each region has a program of its own, compiled from a schedule that leaves all other
regions alone. Where a step takes its input from another region, nothing but the edge is written
down. Here it is shown that nothing more is needed: the program of the region with the edge has a
step for what arrives over it.

The two sides know of each other through the graph alone. A step with a marginal belongs to a node
that has terminals in its own region and on an edge of another one. So the terminal on that edge
is at the boundary of the other region, which is therefore asked for what is sent into it, and
lists it. The values of constants are not computed, but nobody asks for their marginals either.

Each schedule is in order within its region. So as on a whole graph, no step is missing an input
from the steps before it, and what can go wrong is a matter of the catalog. The exception are
terminals that are alone: they are listed whatever there is at their node, and if another terminal
is loose there, its input is missing.

## Main definitions

* `Program.Computes`: A program has a step for a terminal.
* `Program.CompiledFor`: A program comes from a list of terminals, or is part of a plan.
* `familiesAfter`: What is known when some programs have been compiled.

## Theorems

* `compileRegions_eq_ok`: Each region has a program that was compiled from its schedule.
* `CompiledFor.exists_compileScoped`: Every program was compiled from a list, within some scope.
* `program_of_compilePartition`: Each program has the steps that what was scheduled leads to.
* `program_of_buildPlan`: Each region of a plan has a program for what was scheduled there.
* `exists_region_of_marginal`: A marginal leads to the boundary of another region.
* `computes_of_atBoundary`: What a program computes at the boundary of its region.
* `buildPlan_computes_marginals`: What a marginal stands for is computed by another program.
* `error_of_buildPlan`: Where no plan is built, a region has no schedule or none that compiles.
* `refusal_of_buildPlan`: There is no plan only where there is no schedule or a step is refused.
-/

namespace MessagePlan

/-- A program has a step for a terminal. -/
def Program.Computes (q : Program) (x : TerminalId) : Prop := ∃ s ∈ q.steps, s.terminal = x

/-- A program is what a list of terminals was compiled to for the whole graph, or it is one of the
    programs of a plan. -/
def Program.CompiledFor (g : Graph) (c : Catalog) (q : Program) : Prop :=
  (∃ list, compile g c list = .ok q) ∨
    ∃ p plan, compilePartition g c p = .ok plan ∧ q ∈ plan.programs

/-- What is known when some programs have been compiled, beside what was known before. -/
def familiesAfter (known : KnownFamilies) (programs : List Program) : KnownFamilies :=
  programs.foldl (fun known q =>
    q.steps.foldl (fun known s => known.insert s.terminal s.produces) known) known

section Scopes

variable {g : Graph} {p : Partition} {config : Config} {r : Region} {x y q : TerminalId}
  {s s' : Schedule}

/-- What is inside a region does not depend on the schedule that is stored there. -/
theorem inside_withSchedule :
    Inside g (some { r with schedule := s' }) y ↔ Inside g (some r) y := by
  rw [inside_iff, inside_iff]

theorem needs_withSchedule :
    Needs g (some { r with schedule := s' }) x q ↔ Needs g (some r) x q := by
  simp only [Needs, NeededAt, inside_withSchedule]

/-- The schedule of a region is workable if no terminal is loose, or none that is alone is
    listed. -/
theorem Scheduled.workable (hs : Scheduled g p config r s) (h : g.WellFormed)
    (hclosed : config.univariateOutbounds = false ∨
      ∀ x, g.hasTerminal x = true → ∃ q, g.partner? x = some q) :
    Workable g (some { r with schedule := s' }) s where
  inOrder before x after heq q hneed := hs.inOrder before x after heq q (needs_withSchedule.1 hneed)
  there := hs.there
  tight x hx y hloose := by
    -- A terminal that is not tight is listed for itself, which is off, or hangs loose, which none
    -- does.
    rcases hclosed with hoff | hpartners
    · rcases hs.tight x hx with ⟨hon, _⟩ | htight
      · rw [hoff] at hon
        exact Bool.false_ne_true hon
      · exact htight y hloose
    · rcases hloose with ⟨hy, _, hnone⟩
      rcases hpartners y (h.hasTerminal_of_mem_ports hy) with ⟨q, hq⟩
      rw [hnone] at hq
      exact nomatch hq

end Scopes

section Regions

variable {g : Graph} {c : Catalog} {known : KnownFamilies} {rs : List Region}

/-- Each region has the program that its schedule was compiled to, with what was known by then. -/
theorem compileRegions_eq_ok {programs : List Program}
    (hq : compileRegions g c known rs = .ok programs) :
    programs.length = rs.length ∧ ∀ (i : Nat) r, rs[i]? = some r → ∃ q, programs[i]? = some q ∧
      compileScoped g c r.schedule (some r) (familiesAfter known (programs.take i)) = .ok q := by
  induction rs generalizing known programs with
  | nil =>
    rw [← Except.ok.inj hq]
    refine ⟨rfl, fun i r hr => ?_⟩
    rw [List.getElem?_nil] at hr
    exact nomatch hr
  | cons r rs ih =>
    unfold compileRegions at hq
    rcases bind_eq_ok.1 hq with ⟨q, hcompiled, hq⟩
    rcases bind_eq_ok.1 hq with ⟨rest, hrest, hq⟩
    rcases ih hrest with ⟨hlength, hplaces⟩
    rw [← Except.ok.inj hq]
    refine ⟨by rw [List.length_cons, List.length_cons, hlength], fun i r' hr => ?_⟩
    -- The first region knows what is known already; the others know its families as well.
    cases i with
    | zero =>
      rw [List.getElem?_cons_zero, Option.some.injEq] at hr
      exact ⟨q, rfl, hr ▸ hcompiled⟩
    | succ i => exact hplaces i r' hr

/-- Regions are compiled up to one that is not, for which is known what the programs before it
    produce. -/
theorem exists_of_compileRegions_eq_error {e : Failure CompileError}
    (he : compileRegions g c known rs = .error e) :
    ∃ before r after programs, rs = before ++ r :: after ∧
      compileRegions g c known before = .ok programs ∧
      compileScoped g c r.schedule (some r) (familiesAfter known programs) = .error e := by
  induction rs generalizing known with
  | nil => exact nomatch he
  | cons r rs ih =>
    unfold compileRegions at he
    rcases bind_eq_error.1 he with he | ⟨q, hq, he⟩
    · exact ⟨[], r, rs, [], rfl, rfl, he⟩
    · -- If the first region is compiled, a later one is refused.
      rcases bind_eq_error.1 he with he | ⟨rest, _, he⟩
      · rcases ih he with ⟨before, r', after, programs, rfl, hbefore, hrefused⟩
        refine ⟨r :: before, r', after, q :: programs, rfl, ?_, hrefused⟩
        simp only [compileRegions, hq, ok_bind, hbefore]
        rfl
      · exact nomatch he

theorem compileRegions_of_compilePartition {p : Partition} {plan : Plan}
    (hplan : compilePartition g c p = .ok plan) :
    compileRegions g c ∅ p.regions.toList = .ok plan.programs := by
  unfold compilePartition at hplan
  rcases bind_eq_ok.1 hplan with ⟨programs, hprograms, hplan⟩
  rcases bind_eq_ok.1 hplan with ⟨taps, _, hplan⟩
  rw [← Except.ok.inj hplan]
  exact hprograms

/-- Every program was compiled from a list, within the whole graph or the scope of a region. -/
theorem Program.CompiledFor.exists_compileScoped {q : Program} (hq : q.CompiledFor g c) :
    ∃ list scope known, compileScoped g c list scope known = .ok q := by
  rcases hq with ⟨list, hq⟩ | ⟨p, plan, hplan, hmem⟩
  · exact ⟨list, none, ∅, hq⟩
  · rcases compileRegions_eq_ok (compileRegions_of_compilePartition hplan) with ⟨hlength, hplaces⟩
    rcases List.getElem?_of_mem hmem with ⟨i, hi⟩
    have hlt : i < p.regions.toList.length := hlength ▸ (List.getElem?_eq_some_iff.1 hi).1
    rcases hplaces i _ (List.getElem?_eq_getElem hlt) with ⟨q', hq', hcompiled⟩
    rw [hi, Option.some.injEq] at hq'
    exact ⟨_, _, _, hq' ▸ hcompiled⟩

/-- To find what computes the targets of taps that are there is never refused. -/
theorem compileRegions_of_compilePartition_eq_error (h : g.WellFormed) {p : Partition}
    (htaps : ∀ tap ∈ p.taps, Partition.tapFault g tap = none) {e : Failure CompileError}
    (he : compilePartition g c p = .error e) :
    compileRegions g c ∅ p.regions.toList = .error e := by
  unfold compilePartition at he
  rcases bind_eq_error.1 he with he | ⟨programs, _, he⟩
  · exact he
  · rcases bind_eq_error.1 he with he | ⟨taps, _, he⟩
    · rcases exists_of_mapM_eq_error he with ⟨tap, htap, he⟩
      rw [(terminals_eq_ok h (htaps tap htap)).1] at he
      exact nomatch he
    · exact nomatch he

end Regions

section Plans

variable {g : Graph} {c : Catalog} {p : Partition} {config : Config} {plan : Plan} {q : Program}
  {i : Nat} {sideBySide : Partition.Gathering}

/-- There is a plan only if all regions were scheduled and the schedules compiled. -/
theorem scheduled_of_buildPlan (hplan : (buildPlan sideBySide g c p config).1 = .ok plan) :
    ∃ p', p.scheduleAll sideBySide g config = (.ok (), p') ∧
      compilePartition g c p' = .ok plan := by
  unfold buildPlan at hplan
  split at hplan
  · exact nomatch hplan
  · rename_i p' hp'
    exact ⟨p', hp', hplan⟩

section Gathered

variable (hgathers : Partition.Gathers sideBySide)

include hgathers

/-- Each region of a plan has a program with the steps that what was scheduled there leads to, when
    the families of the programs before it are known. -/
theorem program_of_compilePartition {p' : Partition} (h : g.WellFormed) (hp : p.Divides g)
    (hp' : p.scheduleAll sideBySide g config = (.ok (), p'))
    (hplan : compilePartition g c p' = .ok plan) {r : Region} (hr : p.regions[i]? = some r) :
    ∃ s q, Scheduled g p config r s ∧ p'.regions[i]? = some { r with schedule := s } ∧
      plan.programs[i]? = some q ∧ q.Recorded g c (some { r with schedule := s })
        (familiesAfter ∅ (plan.programs.take i)) s := by
  rcases (regions_of_scheduleAll hgathers hp').2.2 i r hr with ⟨s, hs, hget⟩
  have hscheduled := scheduled_of_scheduleOf h hp hr hs
  have hget' := hget
  rw [← Array.getElem?_toList] at hget'
  rcases (compileRegions_eq_ok (compileRegions_of_compilePartition hplan)).2 i _ hget' with
    ⟨q, hq, hcompiled⟩
  exact ⟨s, q, hscheduled, hget, hq, recorded_of_compileScoped h hscheduled.there hcompiled⟩

theorem region_of_compilePartition {p' : Partition}
    (hp' : p.scheduleAll sideBySide g config = (.ok (), p'))
    (hplan : compilePartition g c p' = .ok plan) (hq : plan.programs[i]? = some q) :
    ∃ r, p.regions[i]? = some r := by
  have hlength := (compileRegions_eq_ok (compileRegions_of_compilePartition hplan)).1
  have hi : i < plan.programs.length := (List.getElem?_eq_some_iff.1 hq).1
  rw [hlength, Array.length_toList, (regions_of_scheduleAll hgathers hp').2.1] at hi
  exact ⟨p.regions[i], Array.getElem?_eq_getElem hi⟩

/-- Each region of a plan has a program with the steps that what was scheduled there leads to. -/
theorem program_of_buildPlan (h : g.WellFormed) (hp : p.Divides g)
    (hplan : (buildPlan sideBySide g c p config).1 = .ok plan) {r : Region}
    (hr : p.regions[i]? = some r) :
    ∃ s q known, Scheduled g p config r s ∧ plan.programs[i]? = some q ∧
      q.Recorded g c (some { r with schedule := s }) known s := by
  rcases scheduled_of_buildPlan hplan with ⟨p', hp', hcompiled⟩
  rcases program_of_compilePartition hgathers h hp hp' hcompiled hr with
    ⟨s, q, hs, _, hq, hrecorded⟩
  exact ⟨s, q, _, hs, hq, hrecorded⟩

theorem region_of_buildPlan (hplan : (buildPlan sideBySide g c p config).1 = .ok plan)
    (hq : plan.programs[i]? = some q) : ∃ r, p.regions[i]? = some r := by
  rcases scheduled_of_buildPlan hplan with ⟨p', hp', hcompiled⟩
  exact region_of_compilePartition hgathers hp' hcompiled hq

/-- Where a step takes a marginal, its node has a terminal in its own region. So the terminal on the
    edge is at the boundary of the one region that has the edge, and this is another one. -/
theorem exists_region_of_marginal (h : g.WellFormed) (hp : p.Divides g)
    (hplan : (buildPlan sideBySide g c p config).1 = .ok plan) (hq : plan.programs[i]? = some q)
    {s : Step} (hs : s ∈ q.steps) {k : Nat} {e : EdgeId}
    (hk : s.arguments[k]? = some (.marginal e)) :
    g.constant? s.terminal = none ∧ ∃ y partner, (g.ports s.terminal)[k]? = some y ∧
      g.edge? y = some e ∧ g.partner? y = some partner ∧ g.constant? partner = none ∧
      ∃ (j : Nat) (r : Region), p.regions[j]? = some r ∧ j ≠ i ∧ e ∈ r.inner ∧
        AtBoundary g r y ∧ ∀ (j' : Nat) r', p.regions[j']? = some r' → e ∈ r'.inner → j' = j := by
  rcases region_of_buildPlan hgathers hplan hq with ⟨r, hr⟩
  rcases program_of_buildPlan hgathers h hp hplan hr with
    ⟨entries, q', known, hscheduled, hq', hrecorded⟩
  rw [hq, Option.some.injEq] at hq'
  rw [← hq'] at hrecorded
  rcases hrecorded.exists_chosen hs with ⟨sofar, rule, hstep⟩
  rcases marginal_of_assemble h hstep.there hstep.given hk with
    ⟨y, partner, hy, he, hpartner, hnone, hout⟩
  -- The region owns what it computes, so a terminal of the same node lies inside it.
  have howned := hscheduled.owned s.terminal (hrecorded.mem_iff.1 ⟨s, hs, rfl⟩).1
  rcases exists_inside_of_holds h hstep.there howned with ⟨w, hw, hin⟩
  have hports := (h.same_of_mem_ports hw).1
  have hnot : ¬ Inside g (some { r with schedule := entries }) y := by
    rw [← inScope_eq_true_iff h hpartner, he, hout]
    exact Bool.false_ne_true
  -- The argument is a marginal, and so its edge is none of the region.
  have houter : e ∉ r.inner := (not_inside_iff he).1 fun hin => hnot (inside_withSchedule.2 hin)
  exact ⟨hstep.computed, y, partner, hy, he, hpartner, hnone,
    exists_region_of_outside h hp hr hin (hports ▸ List.mem_of_getElem? hy) he houter⟩

/-- At the boundary of a region its program computes what arrives from inside, unless that is a
    constant, and what a terminal that is alone sends back, if this is wanted. -/
theorem computes_of_atBoundary (h : g.WellFormed) (hp : p.Divides g)
    (hplan : (buildPlan sideBySide g c p config).1 = .ok plan) {r : Region}
    (hr : p.regions[i]? = some r)
    {y partner : TerminalId} (hy : AtBoundary g r y) (hpartner : g.partner? y = some partner) :
    ∃ q, plan.programs[i]? = some q ∧ q.region = some r.id ∧
      (g.constant? partner = none → q.Computes partner) ∧
      (config.univariateOutbounds = true → Alone g r y → g.constant? y = none → q.Computes y) := by
  rcases program_of_buildPlan hgathers h hp hplan hr with
    ⟨entries, q, known, hscheduled, hq, hrecorded⟩
  refine ⟨q, hq, hrecorded.region, fun hnone => ?_, fun hon halone hnone => ?_⟩
  · -- The partner sends into the boundary, and so its message is requested.
    have hlisted : partner ∈ entries := (hscheduled.mem_iff partner).2
      (Or.inl ⟨partner, .sender y partner hy hpartner, Relation.ReflTransGen.refl⟩)
    exact hrecorded.mem_iff.2 ⟨hlisted, hnone⟩
  · have hlisted : y ∈ entries := (hscheduled.mem_iff y).2 (Or.inr ⟨hon, halone⟩)
    exact hrecorded.mem_iff.2 ⟨hlisted, hnone⟩

/-- Wherever a step of a plan takes a marginal, the edge lies inside exactly one region, which is
    another one. The program there computes what arrives over the edge from inside the region; and
    if terminals that are alone are wanted, it computes what is sent back over the edge too, unless
    the node has more terminals inside that region. -/
theorem buildPlan_computes_marginals (hg : Reachable g) (hp : p.BuiltOn g)
    (hplan : (buildPlan sideBySide g c p config).1 = .ok plan) (hq : plan.programs[i]? = some q)
    {s : Step} (hs : s ∈ q.steps) {k : Nat} {e : EdgeId}
    (hk : s.arguments[k]? = some (.marginal e)) :
    ∃ y partner, (g.ports s.terminal)[k]? = some y ∧ g.edge? y = some e ∧
      g.partner? y = some partner ∧
      ∃ (j : Nat) (r : Region), p.regions[j]? = some r ∧ j ≠ i ∧ e ∈ r.inner ∧
        (∀ (j' : Nat) r', p.regions[j']? = some r' → e ∈ r'.inner → j' = j) ∧
        ∃ q', plan.programs[j]? = some q' ∧ q'.region = some r.id ∧ q'.Computes partner ∧
          (config.univariateOutbounds = true →
            (∀ z ∈ g.ports s.terminal, Inside g (some r) z → z = y) → q'.Computes y) := by
  have h := Graph.wellFormed_of_reachable hg
  have hdivides := Partition.divides_of_builtOn h hp
  rcases exists_region_of_marginal hgathers h hdivides hplan hq hs hk with
    ⟨hstep, y, partner, hy, he, hpartner, hnone, j, r, hr, hne, hinner, hboundary, honly⟩
  rcases computes_of_atBoundary hgathers h hdivides hplan hr hboundary hpartner with
    ⟨q', hq', hregion, hcomputes, hback⟩
  refine ⟨y, partner, hy, he, hpartner, j, r, hr, hne, hinner, honly, q', hq', hregion,
    hcomputes hnone, fun hon halone => ?_⟩
  -- The node has a step, so it is not that of a constant.
  rcases h.same_of_mem_ports (List.mem_of_getElem? hy) with ⟨hports, hconstant⟩
  have hlone : Alone g r y := by
    refine ⟨hboundary, ?_⟩
    rw [hports]
    exact halone
  refine hback hon hlone ?_
  rw [hconstant, hstep]

end Gathered

/-- The half of the sink sends into the relay, and the relay, alone there, sends back. -/
theorem scheduleOf_relayGraph_sink : halves.scheduleOf relayGraph {} ⟨1⟩ = .ok [⟨3⟩, ⟨2⟩] := by
  have h := Graph.wellFormed_of_reachable reachable_relayGraph
  have hp := Partition.divides_of_builtOn h builtOn_relayGraph
  exact scheduleOf_eq_of_scheduleWithin h hp rfl (boundary_relayGraph (Or.inr rfl)) 4
    (by decide +kernel)

/-- Both halves with what is scheduled there. -/
def scheduledHalves : Partition :=
  { halves with
    regions := #[{ halfOfTwo 0 1 with schedule := [⟨0⟩, ⟨1⟩] },
      { halfOfTwo 1 0 with schedule := [⟨3⟩, ⟨2⟩] }] }

theorem schedules_relayGraph :
    halves.schedules Partition.inTurn relayGraph {} = .ok [[⟨0⟩, ⟨1⟩], [⟨3⟩, ⟨2⟩]] := by
  have hplaces : halves.regionIds = [⟨0⟩, ⟨1⟩] := rfl
  rw [Partition.gathers_inTurn.schedules_eq_ok, hplaces]
  simp only [List.mapM_cons, List.mapM_nil, scheduleOf_relayGraph_source,
    scheduleOf_relayGraph_sink, ok_bind]
  rfl

theorem scheduleAll_relayGraph :
    halves.scheduleAll Partition.inTurn relayGraph {} = (.ok (), scheduledHalves) :=
  Partition.scheduleAll_eq_ok.2 ⟨_, schedules_relayGraph, rfl⟩

theorem buildPlan_relayGraph (c : Catalog) :
    (buildPlan Partition.inTurn relayGraph c halves {}).1 =
      compilePartition relayGraph c scheduledHalves := by
  rw [buildPlan, scheduleAll_relayGraph]

/-- A rule for each of the terminals in a row. -/
def relayCatalog : Catalog :=
  ⟨#[⟨"source", "Source", "out", [], .gaussian, none⟩,
    ⟨"back", "Relay", "in1", [.any], .gaussian, none⟩,
    ⟨"forth", "Relay", "out", [.any], .gaussian, none⟩,
    ⟨"sink", "Sink", "in1", [], .gaussian, none⟩]⟩

/-- The last step for the half of the source is for what the relay sends back, and it takes the
    marginal of the edge to the sink. -/
theorem exists_step_relayGraph :
    ∃ plan q s, compilePartition relayGraph relayCatalog scheduledHalves = .ok plan ∧
      plan.programs[0]? = some q ∧ q.steps[1]? = some s ∧ s.terminal = ⟨1⟩ ∧
      s.arguments[1]? = some (.marginal ⟨1⟩) := by
  have hfound :
      ((compilePartition relayGraph relayCatalog scheduledHalves).toOption.bind fun plan =>
        plan.programs[0]?.bind fun q => q.steps[1]?.map fun s => (s.terminal, s.arguments[1]?)) =
        some (⟨1⟩, some (.marginal ⟨1⟩)) := by
    decide +kernel
  rcases Option.bind_eq_some_iff.1 hfound with ⟨plan, hplan, hfound⟩
  rcases Option.bind_eq_some_iff.1 hfound with ⟨q, hq, hfound⟩
  rcases Option.map_eq_some_iff.1 hfound with ⟨s, hs, hfound⟩
  rcases Prod.mk.inj hfound with ⟨hterminal, hk⟩
  exact ⟨plan, q, s, toOption_eq_some.1 hplan, hq, hs, hterminal, hk⟩

/-- What the relay sends back takes the marginal of the edge to the sink, and the program of the
    other half computes both directions of it. -/
theorem buildPlan_computes_marginals_relay :
    Reachable relayGraph ∧ halves.BuiltOn relayGraph ∧
      ∃ plan q s, (buildPlan Partition.inTurn relayGraph relayCatalog halves {}).1 = .ok plan ∧
        plan.programs[0]? = some q ∧ s ∈ q.steps ∧ s.terminal = ⟨1⟩ ∧
        s.arguments[1]? = some (.marginal ⟨1⟩) ∧
        ∃ q', plan.programs[1]? = some q' ∧ q'.Computes ⟨3⟩ ∧ q'.Computes ⟨2⟩ := by
  rcases exists_step_relayGraph with ⟨plan, q, s, hplan, hq, hs, hterminal, hk⟩
  rw [← buildPlan_relayGraph] at hplan
  have hs := Array.mem_of_getElem? hs
  refine ⟨reachable_relayGraph, builtOn_relayGraph, plan, q, s, hplan, hq, hs, hterminal, hk, ?_⟩
  rcases buildPlan_computes_marginals Partition.gathers_inTurn reachable_relayGraph
    builtOn_relayGraph hplan hq hs hk with
    ⟨y, partner, hy, _, hpartner, j, r, hr, _, _, honly, q', hq', _, hcomputes, hback⟩
  -- The edge lies inside the other half, where it belongs to the relay's second terminal.
  rcases honly 1 (halfOfTwo 1 0) rfl (by decide +kernel) with rfl
  rcases Option.some.inj hr with rfl
  rw [hterminal] at hy hback
  rcases Option.some.inj hy with rfl
  rcases Option.some.inj hpartner with rfl
  refine ⟨q', hq', hcomputes, hback rfl ?_⟩
  simp only [← isOn_inner_iff]
  decide +kernel

section Refused

variable (hgathers : Partition.Gathers sideBySide)

include hgathers

/-- There is no plan only where a region has no schedule or its schedule is not compiled, when it is
    known what the programs of the regions before it produce. -/
theorem error_of_buildPlan (h : g.WellFormed) (hp : p.Divides g) {e : Failure CompileError}
    (he : (buildPlan sideBySide g c p config).1 = .error e) :
    (∃ (i : Nat) (e' : ScheduleError), i < p.regions.size ∧
      p.scheduleOf g config ⟨i⟩ = .error (.cause e') ∧ e = .cause (.schedule e')) ∨
    ∃ p' before r after programs, p.scheduleAll sideBySide g config = (.ok (), p') ∧
      p'.regions.toList = before ++ r :: after ∧
      compileRegions g c ∅ before = .ok programs ∧
      compileScoped g c r.schedule (some r) (familiesAfter ∅ programs) = .error e := by
  unfold buildPlan at he
  split at he
  · rename_i failure q hfailure
    rcases exists_of_scheduleAll_eq_error hgathers hfailure with ⟨_, i, hi, hrefused⟩
    -- Scheduling a region of a partition that was built fails for a cause only.
    rcases scheduleOf_cases h hp (Array.getElem?_eq_getElem hi) config with ⟨s, hs, _⟩ | ⟨e', he'⟩
    · rw [hs] at hrefused
      exact nomatch hrefused
    · rw [he', Except.error.injEq] at hrefused
      rw [← Except.error.inj he, ← hrefused]
      exact Or.inl ⟨i, e', hi, he', rfl⟩
  · rename_i p' hp'
    have htaps : ∀ tap ∈ p'.taps, Partition.tapFault g tap = none := by
      rw [(regions_of_scheduleAll hgathers hp').1]
      exact hp.taps
    have hregions := compileRegions_of_compilePartition_eq_error h htaps he
    rcases exists_of_compileRegions_eq_error hregions with
      ⟨before, r, after, programs, hsplit, hbefore, hrefused⟩
    exact Or.inr ⟨p', before, r, after, programs, hp', hsplit, hbefore, hrefused⟩

/-- The schedule that a region of a partition stores after scheduling all of them is workable
    there, if no terminal is loose or none that is alone is wanted. -/
theorem workable_of_scheduleAll (h : g.WellFormed) (hp : p.Divides g)
    (hclosed : config.univariateOutbounds = false ∨
      ∀ x, g.hasTerminal x = true → ∃ q, g.partner? x = some q) {p' : Partition}
    (hp' : p.scheduleAll sideBySide g config = (.ok (), p')) {r : Region}
    (hr : p'.regions[i]? = some r) : Workable g (some r) r.schedule := by
  rcases region_of_scheduleAll hgathers hp' hr with ⟨r', s, hr', hs, rfl⟩
  exact (scheduled_of_scheduleOf h hp hr' hs).workable h hclosed

/-- Whatever calls built the catalog, and if no terminal is loose or none that is alone is wanted,
    then building a plan fails only if a region has no schedule, or at an entry of the schedule of
    one, behind the programs of the regions before it and the program for the entries before it,
    where no rule applies to what arrives there, or the fallback of the rule that is chosen there
    asks for a role that the node has not got or requires what arrives at the very terminal
    computed. -/
theorem refusal_of_buildPlan (hg : Reachable g) (hp : p.BuiltOn g) {calls : List Rule}
    (hc : (Registry.ofCalls calls).build = .ok c)
    (hclosed : config.univariateOutbounds = false ∨
      ∀ x, g.hasTerminal x = true → ∃ q, g.partner? x = some q)
    {e : Failure CompileError} (he : (buildPlan sideBySide g c p config).1 = .error e) :
    (∃ (i : Nat) (e' : ScheduleError), i < p.regions.size ∧
      p.scheduleOf g config ⟨i⟩ = .error (.cause e') ∧ e = .cause (.schedule e')) ∨
    ∃ p' before r after programs x, p.scheduleAll sideBySide g config = (.ok (), p') ∧
      p'.regions.toList = before ++ r :: after ∧
      p.scheduleOf g config ⟨before.length⟩ = .ok r.schedule ∧
      compileRegions g c ∅ before = .ok programs ∧
      RefusedAt g c (some r) (familiesAfter ∅ programs) r.schedule x e := by
  have h := Graph.wellFormed_of_reachable hg
  have hdivides := Partition.divides_of_builtOn h hp
  rcases error_of_buildPlan hgathers h hdivides he with
    hschedule | ⟨p', before, r, after, programs, hp', hsplit, hbefore, hrefused⟩
  · exact Or.inl hschedule
  · have hr : p'.regions[before.length]? = some r := by
      rw [← Array.getElem?_toList, hsplit, List.getElem?_append_right (Nat.le_refl _), Nat.sub_self,
        List.getElem?_cons_zero]
    -- The schedule that is stored in the region is its own, and workable there.
    have hwork := workable_of_scheduleAll hgathers h hdivides hclosed hp' hr
    rcases refusedAt_of_compileScoped h (Catalog.decisive_of_build hc) hwork hrefused with
      ⟨x, _, hat⟩
    rcases region_of_scheduleAll hgathers hp' hr with ⟨r', s, _, hs, rfl⟩
    exact Or.inr ⟨p', before, _, after, programs, x, hp', hsplit, hs, hbefore, hat⟩

end Refused

/-- A rule for sources that, without a parameter, requires what arrives where it sends. -/
def guessCalls : List Rule := [⟨"guess", "Source", "out", [], .gaussian, some ⟨"guess", "out"⟩⟩]

/-- What a fallback requires and is not available is what arrives at the terminal computed, for
    which the rule was chosen. -/
theorem StepRefusal.requires {scope : Option Region} {known : KnownFamilies} {x y : TerminalId}
    {name l : String} (hrefusal : StepRefusal g c scope known q x
      (.cause (.assembly (.unavailable name y l)))) :
    ∃ r, ChosenAt g c scope known q x r ∧ r.name = name ∧ Requires g r x x ∧
      g.input? q.stepOf scope x = none ∧ y = (g.partner? x).getD x := by
  generalize he : Failure.cause (CompileError.assembly (.unavailable name y l)) = e at hrefusal
  cases hrefusal with
  | noRule => exact nomatch he
  | unknownRole => exact nomatch he
  | unavailable hchosen hself hnone _ =>
    simp only [Failure.cause.injEq, CompileError.assembly.injEq,
      AssemblyError.unavailable.injEq] at he
    exact ⟨_, hchosen, he.1.symm, hself, hnone, he.2.1⟩

/-- The source has no parameter and nothing arrives where it sends, so its half is not compiled. It
    is refused at the source itself, for the rule that was chosen there. -/
theorem refusal_of_buildPlan_relay :
    Reachable relayGraph ∧ halves.BuiltOn relayGraph ∧
      (∀ x, relayGraph.hasTerminal x = true → ∃ q, relayGraph.partner? x = some q) ∧
      ∃ c, (Registry.ofCalls guessCalls).build = .ok c ∧
        (buildPlan Partition.inTurn relayGraph c halves {}).1 =
          .error (.cause (.assembly (.unavailable "guess" ⟨1⟩ "relay.in1"))) ∧
        ∃ r known q x rule, ChosenAt relayGraph c (some r) known q x rule ∧
          rule.name = "guess" ∧ Requires relayGraph rule x x ∧
          (relayGraph.partner? x).getD x = ⟨1⟩ := by
  have hc : (Registry.ofCalls guessCalls).build = .ok ⟨guessCalls.toArray⟩ :=
    toOption_eq_some.1 (by decide +kernel)
  have hclosed : ∀ x, relayGraph.hasTerminal x = true → ∃ q, relayGraph.partner? x = some q := by
    intro x hx
    have hall : ∀ i < relayGraph.terminals.size, (relayGraph.partner? ⟨i⟩).isSome = true := by
      decide +kernel
    exact Option.isSome_iff_exists.1 (hall x.index (Graph.hasTerminal_iff.1 hx))
  have he : (buildPlan Partition.inTurn relayGraph ⟨guessCalls.toArray⟩ halves {}).1 =
      .error (.cause (.assembly (.unavailable "guess" ⟨1⟩ "relay.in1"))) := by
    rw [buildPlan_relayGraph]
    decide +kernel
  refine ⟨reachable_relayGraph, builtOn_relayGraph, hclosed, _, hc, he, ?_⟩
  rcases refusal_of_buildPlan Partition.gathers_inTurn reachable_relayGraph builtOn_relayGraph hc
    (Or.inr hclosed) he with
    ⟨_, _, _, _, heq⟩ | ⟨_, _, r, _, programs, x, _, _, _, _, _, _, q, _, _, _, hrefusal⟩
  · exact nomatch heq
  · rcases hrefusal.requires with ⟨rule, hchosen, hname, hself, _, hat⟩
    exact ⟨r, _, q, x, rule, hchosen, hname, hself, hat.symm⟩

end Plans

end MessagePlan
