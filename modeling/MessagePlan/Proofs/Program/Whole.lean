import MessagePlan.Program.Compile
import MessagePlan.Proofs.Partition.Groups
import MessagePlan.Proofs.Program.Regions
import MessagePlan.Proofs.Schedule.Shape

/-!
# The Graph as One Region

A graph that is not divided can be seen as a partition with a single region, which holds every edge.
Then a scope is asked for in three places: where a schedule looks for what is needed, where what
arrives at a terminal is typed, and where it becomes an argument. In each of them the answer is that
of a graph without a scope. A terminal with an edge lies inside the region, since there is no edge
but those that the graph has, and one without an edge is left out of no scope.

So a schedule within the region is the schedule without it, and a program for the region has the
steps and the index of the program for the graph; it differs in the name of its region. This holds
of refusals too, and of any list that is compiled.

What is shown is a little more: whatever two scopes say the same of the edges of a graph, they make
the same programs (`compileScoped_congr`).

## Theorems

* `inboundAt_congr`, `arrivalAt_congr`: What a terminal gets, in scopes that say the same.
* `compileScoped_congr`: Programs in scopes that say the same.
* `whole_eq_ok`: Every graph has a partition with one region, and all its edges are there.
* `whole_compiles_alike`: With that partition everything is as it is without a partition.
-/

namespace MessagePlan

variable {g : Graph} {c : Catalog} {scope scope' : Option Region} {known : KnownFamilies}

/-! ### Scopes that say the same -/

section Scopes

variable (hscope : ∀ y, inScope scope' (g.edge? y) = inScope scope (g.edge? y))

include hscope

theorem inboundAt_congr (r : Rule) (earlier : StepIndex) (required : Bool) (y : TerminalId) :
    inboundAt g r earlier scope' required y = inboundAt g r earlier scope required y := by
  unfold inboundAt
  cases hget : (g.terminal y : Except (Failure AssemblyError) Terminal) with
  | error e => rfl
  | ok terminal => rw [ok_bind, ok_bind, inScope_of_terminal hscope hget]

theorem argumentsFor_congr (r : Rule) (earlier : StepIndex) (required : Option TerminalId)
    (x : TerminalId) (ys : List TerminalId) (patterns : List Pattern) :
    argumentsFor g r earlier scope' required x ys patterns =
      argumentsFor g r earlier scope required x ys patterns := by
  induction ys generalizing patterns with
  | nil => rfl
  | cons y ys ih =>
    have hargument : argumentAt g r earlier scope' required x y patterns.head? =
        argumentAt g r earlier scope required x y patterns.head? := by
      unfold argumentAt
      rw [inboundAt_congr hscope]
    unfold argumentsFor
    rw [hargument, ih]

theorem assemble_congr (x : TerminalId) (r : Rule) (earlier : StepIndex) :
    assemble g x r earlier scope' = assemble g x r earlier scope := by
  unfold assemble
  simp only [argumentsFor_congr hscope]

theorem arrivalAt_congr {ε : Type} (q : Program) (y : TerminalId) :
    (arrivalAt g q scope' known y : Except (Failure ε) Arrival) = arrivalAt g q scope known y := by
  unfold arrivalAt
  cases hget : (g.terminal y : Except (Failure ε) Terminal) with
  | error e => rfl
  | ok terminal => rw [ok_bind, ok_bind, inScope_of_terminal hscope hget]

/-- A step is the same, whatever region the program is for. -/
theorem compileStep_congr (q : Program) (region : Option RegionId) (x : TerminalId) :
    compileStep g c scope' known { q with region } x =
      compileStep g c scope known q x >>= fun q' => .ok { q' with region } := by
  -- The region of a program is not looked at, only the scope is.
  have hsignature : ∀ ys, (signatureFor g { q with region } scope' known x ys :
      Except (Failure CompileError) Signature) = signatureFor g q scope known x ys := by
    intro ys
    unfold signatureFor
    refine congrArg (List.mapM · _) (funext fun y => ?_)
    exact arrivalAt_congr hscope q y
  unfold compileStep
  simp only [hsignature, assemble_congr hscope, bind_assoc]
  refine bind_congr fun terminal => bind_congr fun node => ?_
  cases node.isConstant with
  | true => rfl
  | false =>
    simp only [Bool.false_eq_true, if_false, bind_assoc]
    refine bind_congr fun signature => ?_
    cases c.resolve node.kind terminal.role signature with
    | error e =>
      simp only [bind_assoc]
      exact bind_congr fun l => rfl
    | ok found =>
      simp only [bind_assoc]
      exact bind_congr fun arguments => rfl

/-- In scopes that say the same of the edges of a graph, a list is compiled to the same program, but
    for the region that the program is for. -/
theorem compileScoped_congr (s : Schedule) :
    compileScoped g c s scope' known = compileScoped g c s scope known >>= fun q =>
      .ok { q with region := scope'.map Region.id } := by
  -- The induction is for any program to begin with, and the two differ in their regions throughout.
  have hfold : ∀ (q : Program), s.foldlM (compileStep g c scope' known)
      { q with region := scope'.map Region.id } =
        s.foldlM (compileStep g c scope known) q >>= fun q =>
          .ok { q with region := scope'.map Region.id } := by
    induction s with
    | nil => exact fun q => rfl
    | cons x s ih =>
      intro q
      rw [List.foldlM_cons, List.foldlM_cons, compileStep_congr hscope, bind_assoc, bind_assoc]
      exact bind_congr fun q' => ih q'
  exact hfold { Program.empty with region := scope.map Region.id }

end Scopes

/-! ### The region with every edge -/

/-- Every graph has a partition with one region, in which all its edges are. -/
theorem whole_eq_ok (h : g.WellFormed) : ∃ p r, Partition.whole g = .ok p ∧
    p.regions = #[r] ∧ p.timeWraps = [] ∧ p.taps = [] ∧ r.id = ⟨0⟩ ∧
      ∀ e, e ∈ r.inner ↔ g.hasEdge e = true := by
  have hclean : g.Clean [g.edgeIds].flatten ∧ ∀ e, g.hasEdge e = true → e ∈ [g.edgeIds].flatten :=
    Graph.clean_and_covers_iff.2 (by rw [List.flatten_singleton])
  rcases Partition.ofGroups_cases h [g.edgeIds] with ⟨_, _, p, hp⟩ | ⟨c, _, hfault⟩
  · rcases Partition.regions_of_groups hp with ⟨hsize, hregions⟩
    rcases Partition.regions_of_ofGroups hp with ⟨hwraps, htaps, _⟩
    rcases Array.size_eq_one_iff.1 hsize with ⟨r, hr⟩
    rcases hregions 0 r (by rw [hr]; rfl) with ⟨hid, group, hgroup, hinner⟩
    rcases Option.some.inj hgroup with rfl
    refine ⟨p, r, by rw [Partition.whole, hp], hr, hwraps, htaps, hid, fun e => ?_⟩
    rw [hinner, Graph.mem_edgeIds]
  · -- The edges of a graph have no fault.
    rcases hfault with hstops | ⟨_, hlacks⟩
    · exact absurd hclean.1 hstops.not_clean
    · exact absurd hclean.2 hlacks.not_covers

/-- A region with every edge leaves out nothing that is there. -/
theorem inScope_of_all (h : g.WellFormed) {r : Region} (hr : ∀ e, g.hasEdge e = true → e ∈ r.inner)
    (y : TerminalId) : inScope (some r) (g.edge? y) = inScope none (g.edge? y) := by
  cases hy : g.edge? y with
  | none => rfl
  | some e => exact Std.ExtTreeSet.contains_iff_mem.2 (hr e (h.hasEdge_of_edge? hy))

/-- The partition of a graph with a single region says the same as no partition. Within the region
    every terminal has the schedule that it has without one, or the same refusal; and any list,
    stored as the schedule of the region, is compiled to the one program that it is compiled to
    without a partition, with the same steps and the same index, or with the same refusal. -/
theorem whole_compiles_alike (hg : Reachable g) : ∃ p r, Partition.whole g = .ok p ∧
    p.regions = #[r] ∧ (∀ t, g.schedule t (some r) = g.schedule t none) ∧
      ∀ (c : Catalog) (s : Schedule), compilePartition g c (p.withSchedule ⟨0⟩ s) =
        compile g c s >>= fun q =>
          .ok { programs := [{ q with region := some ⟨0⟩ }], wraps := [], taps := [] } := by
  have h := Graph.wellFormed_of_reachable hg
  rcases whole_eq_ok h with ⟨p, r, hp, hregions, hwraps, htaps, hid, hinner⟩
  have hall : ∀ e, g.hasEdge e = true → e ∈ r.inner := fun e he => (hinner e).2 he
  refine ⟨p, r, hp, hregions, fun t => ?_, fun c s => ?_⟩
  · exact schedule_congr (.refl g) (sameNeeds_of_inScope fun y => (inScope_of_all h hall y)) t
  · -- Storing a list replaces the schedule of the one region, and nothing else is compiled.
    have hstored : (p.withSchedule ⟨0⟩ s).regions.toList = [{ r with schedule := s }] := by
      rw [Partition.withSchedule, hregions]
      rfl
    have hscope := inScope_of_all h (r := { r with schedule := s }) hall
    have hwanted : (p.withSchedule ⟨0⟩ s).timeWraps = [] ∧ (p.withSchedule ⟨0⟩ s).taps = [] :=
      ⟨hwraps, htaps⟩
    unfold compilePartition compile
    rw [hstored, compileRegions, compileScoped_congr hscope, hwanted.1, hwanted.2, bind_assoc,
      bind_assoc]
    refine bind_congr fun q => ?_
    rw [Option.map_some, hid]
    rfl

/-- A row of three nodes as one region. The schedule for its end goes over both edges and is
    compiled to the program without a partition; and without the source, the relay is refused either
    way. -/
theorem whole_compiles_alike_relay : Reachable relayGraph ∧ ∃ p r,
    Partition.whole relayGraph = .ok p ∧ p.regions = #[r] ∧
      relayGraph.schedule ⟨2⟩ (some r) = .ok [⟨0⟩, ⟨2⟩] ∧
      (∃ q, compile relayGraph relayCatalog [⟨0⟩, ⟨2⟩] = .ok q ∧
        q.steps.toList.map Step.arguments = [[.absent], [.step 0, .absent]] ∧
        compilePartition relayGraph relayCatalog (p.withSchedule ⟨0⟩ [⟨0⟩, ⟨2⟩]) =
          .ok { programs := [{ q with region := some ⟨0⟩ }], wraps := [], taps := [] }) ∧
      compilePartition relayGraph relayCatalog (p.withSchedule ⟨0⟩ [⟨2⟩]) =
        .error (.cause (.assembly (.missingInbound ⟨0⟩ "source.out"))) := by
  rcases whole_compiles_alike reachable_relayGraph with ⟨p, r, hp, hregions, hschedule, hcompiled⟩
  have hfound : ((compile relayGraph relayCatalog [⟨0⟩, ⟨2⟩]).toOption.map fun q =>
      q.steps.toList.map Step.arguments) = some [[.absent], [.step 0, .absent]] := by
    decide +kernel
  have hrefused : compile relayGraph relayCatalog [⟨2⟩] =
      .error (.cause (.assembly (.missingInbound ⟨0⟩ "source.out"))) := by
    decide +kernel
  rcases Option.map_eq_some_iff.1 hfound with ⟨q, hq, harguments⟩
  rw [toOption_eq_some] at hq
  refine ⟨reachable_relayGraph, p, r, hp, hregions, (hschedule ⟨2⟩).trans ?_,
    ⟨q, hq, harguments, ?_⟩, ?_⟩
  · exact schedule_eq_of_scheduleWithin 8 (by decide +kernel)
  · rw [hcompiled, hq, ok_bind]
  · rw [hcompiled, hrefused, error_bind]

end MessagePlan
