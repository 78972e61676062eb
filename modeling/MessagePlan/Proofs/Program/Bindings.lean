import MessagePlan.Proofs.Program.Regions

/-!
# What Time Wraps and Taps Are Bound To

A plan says for every time wrap and every tap which steps compute what they want. These steps are
looked up in all programs, and a terminal that is found in none is left out without a word. So it
has to be shown that nothing is left out that could be computed.

What is wanted from a region is what the region owns, so the lookup succeeds if some region owns
the terminal and lists it, and if it has a step there, which it has unless it is a constant. There
is a region that owns a terminal as soon as anything is connected to its node: the region of its own
edge, or if it has none, that of any other edge of the node. `Graph.Computable` puts the two
together, and `locate_of_wanted` says that nothing else is found.

The places that are found count the steps of a program and not the entries of its schedule, which
differ where constants are listed. That is why the place leads to a step and not to an entry in
what is said of it.

## Main definitions

* `Graph.Computable`: A terminal of no constant, at a node where something is connected.
* `Plan.ComputedAt`: A step of a region's program computes a terminal that the region owns.
* `Wanted`: A terminal that every region which owns it is asked for.

## Theorems

* `locate_cases`: The program found is one with a step for the terminal.
* `exists_region_of_computable`: Some region owns a terminal that can be computed.
* `locate_of_wanted`: A wanted terminal is found exactly if it can be computed.
* `buildPlan_binds`: The time wraps and taps of a plan are bound to all they want.
-/

namespace MessagePlan

/-- A terminal belongs to no constant, and it has a partner or another one of its node has. -/
def Graph.Computable (g : Graph) (x : TerminalId) : Prop :=
  (g.constant? x).isNone = true ∧ (g.partner? x ≠ none ∨ ∃ y ∈ g.ports x, g.partner? y ≠ none)

instance (g : Graph) (x : TerminalId) : Decidable (g.Computable x) :=
  inferInstanceAs (Decidable (_ ∧ (_ ∨ ∃ y ∈ g.ports x, g.partner? y ≠ none)))

/-- The step in a place of the program of a region computes a terminal, and the region owns it. -/
structure Plan.ComputedAt (g : Graph) (p : Partition) (plan : Plan) (x : TerminalId)
    (place : RegionId × Nat) : Prop where
  owned : ∃ r, p.region? place.1 = some r ∧
    (r.owns g x : Except (Failure ScheduleError) Bool) = .ok true
  step : ∃ q s, plan.programs[place.1.index]? = some q ∧ q.steps[place.2]? = some s ∧
    s.terminal = x

/-- A terminal is there, and every region that owns it is asked for it. -/
structure Wanted (g : Graph) (p : Partition) (config : Config) (x : TerminalId) : Prop where
  there : g.hasTerminal x = true
  requested : ∀ (i : Nat) (r : Region), p.regions[i]? = some r → r.holds g x = true →
    Requested g p config r x

/-! ### Looking a terminal up -/

section Lookup

theorem locateFrom_cases (programs : List Program) (x : TerminalId) (place : Nat) :
    (Plan.locateFrom place x programs = none ∧ ∀ q ∈ programs, q.stepOf[x]? = none) ∨
      ∃ (k : Nat) (q : Program) (i : Nat), programs[k]? = some q ∧ q.stepOf[x]? = some i ∧
        Plan.locateFrom place x programs = some (⟨place + k⟩, i) := by
  induction programs generalizing place with
  | nil => exact Or.inl ⟨rfl, fun q hq => absurd hq List.not_mem_nil⟩
  | cons q programs ih =>
    rw [Plan.locateFrom]
    cases hi : q.stepOf[x]? with
    | some i => exact Or.inr ⟨0, q, i, rfl, hi, rfl⟩
    | none =>
      rcases ih (place + 1) with ⟨hnone, hall⟩ | ⟨k, q', i, hk, hstep, heq⟩
      · refine Or.inl ⟨hnone, fun q' hq' => ?_⟩
        rcases List.mem_cons.1 hq' with rfl | hq'
        · exact hi
        · exact hall q' hq'
      · refine Or.inr ⟨k + 1, q', i, hk, hstep, ?_⟩
        -- The place counts the programs gone by.
        rw [heq, Nat.add_assoc, Nat.add_comm 1 k]

/-- A terminal is not found if no program has a step for it, and the place found leads to a program
    that has. -/
theorem locate_cases (programs : List Program) (x : TerminalId) :
    (Plan.locate programs x = none ∧ ∀ q ∈ programs, q.stepOf[x]? = none) ∨
      ∃ (k : Nat) (q : Program) (i : Nat), programs[k]? = some q ∧ q.stepOf[x]? = some i ∧
        Plan.locate programs x = some (⟨k⟩, i) := by
  have hcases := locateFrom_cases programs x 0
  simp only [Nat.zero_add] at hcases
  exact hcases

end Lookup

section Plans

variable {g : Graph} {c : Catalog} {p : Partition} {config : Config} {plan : Plan}
  {x : TerminalId} {sideBySide : Partition.Gathering}

/-! ### What regions own -/

/-- Some region owns a terminal if anything is connected to its node. -/
theorem exists_region_of_computable (h : g.WellFormed) (hp : p.Divides g)
    (hx : g.Computable x) : ∃ (i : Nat) (r : Region), p.regions[i]? = some r ∧
      r.holds g x = true := by
  have hcovered : ∀ y, g.partner? y ≠ none → ∃ (i : Nat) (r : Region) (e : EdgeId),
      p.regions[i]? = some r ∧ g.edge? y = some e ∧ e ∈ r.inner := by
    intro y hy
    rcases Option.ne_none_iff_exists'.1 hy with ⟨q, hq⟩
    rcases h.edge?_isSome_of_partner? hq with ⟨e, he⟩
    rcases hp.covered e (h.hasEdge_of_edge? he) with ⟨i, r, hr, hmem⟩
    exact ⟨i, r, e, hr, he, hmem⟩
  by_cases hpartner : g.partner? x = none
  · -- Without an edge the terminal belongs wherever another edge of its node does.
    rcases hx.2.resolve_left fun hne => hne hpartner with ⟨y, hy, hne⟩
    rcases hcovered y hne with ⟨i, r, e, hr, he, hmem⟩
    have hnone : g.edge? x = none := (h.joined x).2 hpartner
    exact ⟨i, r, hr, (holds_iff_of_dangling hnone).2 ⟨y, hy, inside_iff.2 ⟨e, he, hmem⟩⟩⟩
  · rcases hcovered x hpartner with ⟨i, r, e, hr, he, hmem⟩
    exact ⟨i, r, hr, holds_of_inside (inside_iff.2 ⟨e, he, hmem⟩)⟩

theorem partner?_of_holds (h : g.WellFormed) (hx : g.hasTerminal x = true) {r : Region}
    (hholds : r.holds g x = true) : ∃ y ∈ g.ports x, g.partner? y ≠ none := by
  rcases exists_inside_of_holds h hx hholds with ⟨y, hy, hin⟩
  rcases inside_iff.1 hin with ⟨e, he, _⟩
  rcases h.partner?_isSome_of_edge? he with ⟨q, hq⟩
  exact ⟨y, hy, by rw [hq]; exact Option.some_ne_none q⟩

/-! ### What is wanted -/

theorem wanted_of_wrap (h : g.WellFormed) (hp : p.Divides g) (hon : config.timeWraps = true)
    {w : TimeWrap} (hw : w ∈ p.timeWraps) : Wanted g p config w.output := by
  have hthere := hp.wraps w hw
  refine ⟨hthere, fun i r hr hholds => .wrap w hon hw ?_⟩
  rw [owns_eq_ok h hthere, hholds]

theorem wanted_of_tap (h : g.WellFormed) (hp : p.Divides g) (hon : config.taps = true)
    {tap : Tap} (htap : tap ∈ p.taps) (hx : x ∈ tap.sides g) : Wanted g p config x := by
  rcases terminals_eq_ok (ε := ScheduleError) h (hp.taps tap htap) with ⟨hts, hall⟩
  have hthere := hall x hx
  refine ⟨hthere, fun i r hr hholds => .tap tap _ x hon htap hts hx ?_⟩
  rw [owns_eq_ok h hthere, hholds]

/-! ### What the programs have steps for -/

variable (hgathers : Partition.Gathers sideBySide)

include hgathers

/-- The place found for a terminal is a step for it, in the program of a region that owns it. -/
theorem computed_of_locate (h : g.WellFormed) (hp : p.Divides g)
    (hplan : (buildPlan sideBySide g c p config).1 = .ok plan) {place : RegionId × Nat}
    (hplace : Plan.locate plan.programs x = some place) :
    plan.ComputedAt g p x place ∧ g.Computable x := by
  rcases locate_cases plan.programs x with ⟨hnone, _⟩ | ⟨k, q, i, hk, hi, heq⟩
  · rw [hnone] at hplace
    exact nomatch hplace
  rw [heq, Option.some.injEq] at hplace
  subst hplace
  rcases region_of_buildPlan hgathers hplan hk with ⟨r, hr⟩
  rcases program_of_buildPlan hgathers h hp hplan hr with
    ⟨list, q', known, hscheduled, hq', hrecorded⟩
  rw [hk, Option.some.injEq] at hq'
  subst hq'
  rcases (hrecorded.last x i hi).step with ⟨s, hs, hterminal⟩
  -- The step was made for an entry of the schedule, which lists what the region owns.
  rcases hrecorded.mem_iff.1 ⟨s, Array.mem_of_getElem? hs, hterminal⟩ with ⟨hmem, hconstant⟩
  have hthere := hscheduled.there x hmem
  have hholds := hscheduled.owned x hmem
  refine ⟨⟨⟨r, hr, ?_⟩, q, s, hk, hs, hterminal⟩, ?_, Or.inr (partner?_of_holds h hthere hholds)⟩
  · rw [owns_eq_ok h hthere, hholds]
  · rw [hconstant]
    rfl

/-- A wanted terminal is found exactly if it can be computed. -/
theorem locate_of_wanted (h : g.WellFormed) (hp : p.Divides g)
    (hplan : (buildPlan sideBySide g c p config).1 = .ok plan) (hx : Wanted g p config x) :
    (∃ place, Plan.locate plan.programs x = some place) ↔ g.Computable x := by
  constructor
  · rintro ⟨place, hplace⟩
    exact (computed_of_locate hgathers h hp hplan hplace).2
  · intro hcomputable
    rcases exists_region_of_computable h hp hcomputable with ⟨i, r, hr, hholds⟩
    rcases program_of_buildPlan hgathers h hp hplan hr with
      ⟨list, q, known, hscheduled, hq, hrecorded⟩
    have hmem : x ∈ list := (hscheduled.mem_iff x).2
      (Or.inl ⟨x, hx.requested i r hr hholds, Relation.ReflTransGen.refl⟩)
    rcases hrecorded.mem_iff.2 ⟨hmem, Option.isNone_iff_eq_none.1 hcomputable.1⟩ with
      ⟨s, hs, hterminal⟩
    rcases hrecorded.exists_index hs with ⟨k, hk⟩
    rw [hterminal] at hk
    -- That region has a step for it, so the lookup ends there at the latest.
    rcases locate_cases plan.programs x with ⟨_, hall⟩ | ⟨_, _, _, _, _, heq⟩
    · rw [hall q (List.mem_of_getElem? hq)] at hk
      exact nomatch hk
    · exact ⟨_, heq⟩

/-- For a list of wanted terminals, what is found are places for those that can be computed, in
    order. -/
theorem forall₂_locate (h : g.WellFormed) (hp : p.Divides g)
    (hplan : (buildPlan sideBySide g c p config).1 = .ok plan) {xs : List TerminalId}
    (hxs : ∀ x ∈ xs, Wanted g p config x) :
    List.Forall₂ (plan.ComputedAt g p) (xs.filter fun x => decide (g.Computable x))
      (xs.filterMap (Plan.locate plan.programs)) := by
  induction xs with
  | nil => exact List.Forall₂.nil
  | cons x xs ih =>
    have hrest := ih fun y hy => hxs y (List.mem_cons_of_mem x hy)
    have hfound := locate_of_wanted hgathers h hp hplan (hxs x List.mem_cons_self)
    -- Both sides leave the first terminal out, or both have it in front.
    cases hplace : Plan.locate plan.programs x with
    | none =>
      have hnot : ¬ g.Computable x := by
        intro hcomputable
        rcases hfound.2 hcomputable with ⟨place, hsome⟩
        rw [hplace] at hsome
        exact nomatch hsome
      rw [List.filter_cons_of_neg (by rw [decide_eq_true_eq]; exact hnot),
        List.filterMap_cons_none hplace]
      exact hrest
    | some place =>
      rcases computed_of_locate hgathers h hp hplan hplace with ⟨hcomputed, hcomputable⟩
      rw [List.filter_cons_of_pos (by rw [decide_eq_true_eq]; exact hcomputable),
        List.filterMap_cons_some hplace]
      exact List.Forall₂.cons hcomputed hrest

/-! ### Time wraps and taps -/

/-- Time wraps and taps of a plan are those of the partition, each with what was looked up. -/
theorem bindings_of_buildPlan (h : g.WellFormed) (hp : p.Divides g)
    (hplan : (buildPlan sideBySide g c p config).1 = .ok plan) :
    plan.wraps = p.timeWraps.map (fun w => ⟨w, Plan.locate plan.programs w.output⟩) ∧
      plan.taps = p.taps.map fun tap =>
        ⟨tap, (tap.sides g).filterMap (Plan.locate plan.programs)⟩ := by
  rcases scheduled_of_buildPlan hplan with ⟨p', hp', hcompiled⟩
  -- Storing schedules leaves the wraps and the taps alone.
  have hframe := (regions_of_scheduleAll hgathers hp').1
  have hwraps : p'.timeWraps = p.timeWraps := by rw [hframe]
  have htaps : p'.taps = p.taps := by rw [hframe]
  unfold compilePartition at hcompiled
  rcases bind_eq_ok.1 hcompiled with ⟨programs, _, hcompiled⟩
  rw [hwraps, htaps] at hcompiled
  rw [mapM_eq_ok_map (k := fun tap =>
    (⟨tap, (tap.sides g).filterMap (Plan.locate programs)⟩ : TapBinding)) fun tap htap => by
      rw [(terminals_eq_ok h (hp.taps tap htap)).1]
      rfl, ok_bind] at hcompiled
  rw [← Except.ok.inj hcompiled]
  exact ⟨rfl, rfl⟩

/-- In a plan for which time wraps and taps are wanted, each of these is bound to all that it wants
    and that can be computed. A time wrap has a step exactly if its output can be computed; and the
    steps of a tap compute, in this order, what it needs and can be computed. All of them are in
    the program of a region that owns the terminal computed. -/
theorem buildPlan_binds (hg : Reachable g) (hp : p.BuiltOn g) (hwraps : config.timeWraps = true)
    (htaps : config.taps = true) (hplan : (buildPlan sideBySide g c p config).1 = .ok plan) :
    plan.wraps.map WrapBinding.wrap = p.timeWraps ∧ plan.taps.map TapBinding.tap = p.taps ∧
      (∀ b ∈ plan.wraps, (b.source ≠ none ↔ g.Computable b.wrap.output) ∧
        ∀ place, b.source = some place → plan.ComputedAt g p b.wrap.output place) ∧
      ∀ b ∈ plan.taps, ∃ xs,
        (b.tap.terminals g : Except (Failure CompileError) (List TerminalId)) = .ok xs ∧
        List.Forall₂ (plan.ComputedAt g p) (xs.filter fun x => decide (g.Computable x))
          b.sources := by
  have h := Graph.wellFormed_of_reachable hg
  have hdivides := Partition.divides_of_builtOn h hp
  rcases bindings_of_buildPlan hgathers h hdivides hplan with ⟨hwrapsEq, htapsEq⟩
  refine ⟨?_, ?_, fun b hb => ?_, fun b hb => ?_⟩
  · rw [hwrapsEq, List.map_map]
    exact List.map_id p.timeWraps
  · rw [htapsEq, List.map_map]
    exact List.map_id p.taps
  · rw [hwrapsEq] at hb
    rcases List.mem_map.1 hb with ⟨w, hw, rfl⟩
    -- Wraps are among what is wanted, so that what is located is what can be computed.
    have hfound := locate_of_wanted hgathers h hdivides hplan (wanted_of_wrap h hdivides hwraps hw)
    refine ⟨Option.ne_none_iff_exists'.trans hfound, fun place hplace => ?_⟩
    exact (computed_of_locate hgathers h hdivides hplan hplace).1
  · rw [htapsEq] at hb
    rcases List.mem_map.1 hb with ⟨tap, htap, rfl⟩
    refine ⟨tap.sides g, (terminals_eq_ok h (hdivides.taps tap htap)).1, ?_⟩
    exact forall₂_locate hgathers h hdivides hplan fun x hx =>
      wanted_of_tap h hdivides htaps htap hx

end Plans

/-- Both halves, where what the sink sends is wanted at the source in the next time step, and the
    marginal of the edge at the source is wanted too. -/
def tappedHalves : Partition :=
  { halves with timeWraps := [⟨⟨3⟩, ⟨0⟩⟩], taps := [.edge ⟨0⟩] }

theorem builtOn_tappedHalves : tappedHalves.BuiltOn relayGraph := by
  refine .tap { halves with timeWraps := [⟨⟨3⟩, ⟨0⟩⟩] } _ ?_ (.edge ⟨0⟩) ?_
  · refine .timeWrap halves _ builtOn_relayGraph ⟨3⟩ ⟨0⟩ ?_
    exact toOption_eq_some.1 (by decide +kernel)
  · exact toOption_eq_some.1 (by decide +kernel)

/-- What is wanted in addition is in the schedules of the halves already. -/
theorem scheduleAll_tappedHalves : tappedHalves.scheduleAll Partition.inTurn relayGraph {} =
    (.ok (), { tappedHalves with regions := scheduledHalves.regions }) := by
  have h := Graph.wellFormed_of_reachable reachable_relayGraph
  have hp := Partition.divides_of_builtOn h builtOn_tappedHalves
  have hsource : tappedHalves.scheduleOf relayGraph {} ⟨0⟩ = .ok [⟨0⟩, ⟨1⟩] :=
    scheduleOf_eq_of_scheduleWithin h hp rfl (boundary_relayGraph (Or.inl rfl)) 4
      (by decide +kernel)
  have hsink : tappedHalves.scheduleOf relayGraph {} ⟨1⟩ = .ok [⟨3⟩, ⟨2⟩] :=
    scheduleOf_eq_of_scheduleWithin h hp rfl (boundary_relayGraph (Or.inr rfl)) 4
      (by decide +kernel)
  have hplaces : tappedHalves.regionIds = [⟨0⟩, ⟨1⟩] := rfl
  -- Each region is scheduled by fuel, which the kernel can evaluate.
  refine Partition.scheduleAll_eq_ok.2 ⟨[[⟨0⟩, ⟨1⟩], [⟨3⟩, ⟨2⟩]], ?_, rfl⟩
  rw [Partition.gathers_inTurn.schedules_eq_ok, hplaces]
  simp only [List.mapM_cons, List.mapM_nil, hsource, hsink, ok_bind]
  rfl

/-- What the time wrap wants is the first step of one half, and both directions of the tapped edge
    are steps of the other. -/
theorem buildPlan_binds_relay :
    Reachable relayGraph ∧ tappedHalves.BuiltOn relayGraph ∧
      ∃ plan, (buildPlan Partition.inTurn relayGraph relayCatalog tappedHalves {}).1 = .ok plan ∧
        plan.wraps.map WrapBinding.source = [some (⟨1⟩, 0)] ∧
        plan.taps.map TapBinding.sources = [[(⟨0⟩, 0), (⟨0⟩, 1)]] ∧
        (∀ b ∈ plan.wraps, relayGraph.Computable b.wrap.output) ∧
        ∀ b ∈ plan.taps, ∃ xs, (b.tap.terminals relayGraph :
          Except (Failure CompileError) (List TerminalId)) = .ok xs ∧
          List.Forall₂ (plan.ComputedAt relayGraph tappedHalves)
            (xs.filter fun x => decide (relayGraph.Computable x)) b.sources := by
  have hfound : ((compilePartition relayGraph relayCatalog
      { tappedHalves with regions := scheduledHalves.regions }).toOption.map fun plan =>
        (plan.wraps.map WrapBinding.source, plan.taps.map TapBinding.sources)) =
      some ([some (⟨1⟩, 0)], [[(⟨0⟩, 0), (⟨0⟩, 1)]]) := by
    decide +kernel
  rcases Option.map_eq_some_iff.1 hfound with ⟨plan, hcompiled, hfound⟩
  rcases Prod.mk.inj hfound with ⟨hwraps, htaps⟩
  have hplan : (buildPlan Partition.inTurn relayGraph relayCatalog tappedHalves {}).1 =
      .ok plan := by
    rw [buildPlan, scheduleAll_tappedHalves]
    exact toOption_eq_some.1 hcompiled
  rcases buildPlan_binds Partition.gathers_inTurn reachable_relayGraph builtOn_tappedHalves rfl rfl
    hplan with ⟨_, _, hbound, hsources⟩
  refine ⟨reachable_relayGraph, builtOn_tappedHalves, plan, hplan, hwraps, htaps,
    fun b hb => ?_, hsources⟩
  -- The one wrap has a source, and so its output is computable.
  have hsource : b.source ∈ plan.wraps.map WrapBinding.source := List.mem_map_of_mem hb
  rw [hwraps, List.mem_singleton] at hsource
  exact (hbound b hb).1.1 (by rw [hsource]; exact Option.some_ne_none _)

end MessagePlan
