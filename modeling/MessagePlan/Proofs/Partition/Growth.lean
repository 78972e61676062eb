import MessagePlan.Proofs.Schedule.Regional

/-!
# Partitions of Graphs That Grow

A partition is built for a graph, and then the graph may go on growing. The partition does not
follow: new edges are in no region, and an outer edge that has come in since is not known. So it no
longer divides the edges. But graphs only grow. Whatever handles the partition has taken from the
graph still lead to something, and `Fits` says no more than that.

A partition can be asked for more at any time, and be scheduled at any time, and each of this is
done with the graph of that moment. `BuiltAlong` lets all of it happen in any order, and growth
between any two steps.

## Main definitions

* `Graph.HasAll`: All terminals of a list are there.
* `Graph.Grows`: No fewer terminals and edges.
* `Partition.BuiltAlong`: A partition built while its graph was growing.

## Theorems

* `grows_apply`: No operation takes anything away.
* `Fits.mono`: What fits a graph fits it when it has grown.
* `fits_of_builtAlong`: Every partition fits the graph that it was built along with.
-/

namespace MessagePlan

namespace Graph

/-- All terminals of a list are there. -/
def HasAll (g : Graph) (s : List TerminalId) : Prop := ∀ x ∈ s, g.hasTerminal x = true

/-- A graph has at least as many terminals and edges as another one. -/
structure Grows (g g' : Graph) : Prop where
  terminals : g.terminals.size ≤ g'.terminals.size
  edges : g.edges.size ≤ g'.edges.size

variable {g g' : Graph}

/-- No change takes terminals or edges away. -/
theorem grows_of_change (hchange : Change g g') : g.Grows g' := by
  cases hchange with
  | numbers counters => exact ⟨Nat.le_refl _, Nat.le_refl _⟩
  | index => exact ⟨Nat.le_refl _, Nat.le_refl _⟩
  | node name kind roles constant _ _ =>
    refine ⟨?_, Nat.le_refl _⟩
    -- The new terminals come behind the old ones.
    simp only [withNode, ← Array.length_toList, Array.toList_appendList, List.length_append,
      Nat.le_add_right]
  | label name => exact ⟨Nat.le_refl _, Nat.le_refl _⟩
  | edge name a b label _ _ _ _ =>
    refine ⟨?_, ?_⟩
    · simp only [joinTerminals, Array.size_modify, Nat.le_refl]
    · simp only [joinTerminals, Array.size_push, Nat.le_add_right]
  | param n key value _ => exact ⟨Nat.le_refl _, Nat.le_refl _⟩
  | message p message =>
    refine ⟨?_, Nat.le_refl _⟩
    simp only [Array.size_modify, Nat.le_refl]

/-- No operation takes terminals or edges away. -/
theorem grows_apply (g : Graph) (op : Operation) : g.Grows (g.apply op) := by
  refine preserved_of_changes (P := g.Grows) (fun g₁ g₂ hgrows hchange => ?_)
    (apply_changes g op) ⟨Nat.le_refl _, Nat.le_refl _⟩
  have hstep := grows_of_change hchange
  exact ⟨Nat.le_trans hgrows.terminals hstep.terminals, Nat.le_trans hgrows.edges hstep.edges⟩

theorem Grows.hasTerminal (hgrows : g.Grows g') {x : TerminalId} (hx : g.hasTerminal x = true) :
    g'.hasTerminal x = true :=
  hasTerminal_iff.2 (Nat.lt_of_lt_of_le (hasTerminal_iff.1 hx) hgrows.terminals)

theorem Grows.hasEdge (hgrows : g.Grows g') {e : EdgeId} (he : g.hasEdge e = true) :
    g'.hasEdge e = true :=
  decide_eq_true (Nat.lt_of_lt_of_le (of_decide_eq_true he) hgrows.edges)

end Graph

namespace Partition

/-- A partition was built from groups of edges, or as a whole, when the graph was reachable; then
    time wraps and taps were added, regions were scheduled, or it was tried to, and the graph grew,
    in any order. -/
inductive BuiltAlong : Graph → Partition → Prop
  | groups {g : Graph} (hg : Reachable g) (groups : List (List EdgeId)) {p : Partition}
      (h : ofGroups g groups = .ok p) : BuiltAlong g p
  | whole {g : Graph} (hg : Reachable g) {p : Partition} (h : whole g = .ok p) : BuiltAlong g p
  | timeWrap {g : Graph} {p q : Partition} (hp : BuiltAlong g p) (output input : TerminalId)
      (h : p.addTimeWrap g output input = .ok q) : BuiltAlong g q
  | tap {g : Graph} {p q : Partition} (hp : BuiltAlong g p) (tap : Tap)
      (h : p.addTap g tap = .ok q) : BuiltAlong g q
  | region {g : Graph} {p : Partition} (hp : BuiltAlong g p) (config : Config) (id : RegionId) :
      BuiltAlong g (p.scheduleRegion g config id).2
  | all {g : Graph} {p : Partition} (hp : BuiltAlong g p) {sideBySide : Gathering}
      (hgathers : Gathers sideBySide) (config : Config) :
      BuiltAlong g (p.scheduleAll sideBySide g config).2
  | grown {g : Graph} {p : Partition} (hp : BuiltAlong g p) (op : Operation) :
      BuiltAlong (g.apply op) p

section Fits

variable {g g' : Graph} {p q : Partition}

/-- A tap that is accepted is accepted when the graph has grown. -/
theorem tapFault_mono (hgrows : g.Grows g') {tap : Tap} (htap : tapFault g tap = none) :
    tapFault g' tap = none := by
  cases tap with
  | terminal x => exact tapFault_terminal.2 (hgrows.hasTerminal (tapFault_terminal.1 htap))
  | edge e => exact tapFault_edge.2 (hgrows.hasEdge (tapFault_edge.1 htap))

/-- What fits a graph fits it when it has grown. -/
theorem Fits.mono (hp : p.Fits g) (hgrows : g.Grows g') : p.Fits g' where
  there i r hr e he := hgrows.hasEdge (hp.there i r hr e he)
  wraps w hw := hgrows.hasTerminal (hp.wraps w hw)
  taps tap htap := tapFault_mono hgrows (hp.taps tap htap)

/-- The partition of a graph with a single region fits, and so does the empty one in its place. -/
theorem fits_of_whole (h : g.WellFormed) (hp : whole g = .ok p) : p.Fits g := by
  unfold whole at hp
  split at hp
  · -- Without edges there is no region, and nothing is wrapped or tapped.
    rw [← Except.ok.inj hp]
    refine ⟨fun i r hr => ?_, fun w hw => absurd hw List.not_mem_nil,
      fun tap htap => absurd htap List.not_mem_nil⟩
    exact nomatch hr
  · exact (divides_of_ofGroups h hp).fits

/-- A schedule is stored beside the edges of a region. -/
theorem Fits.withSchedule (hp : p.Fits g) (id : RegionId) (s : Schedule) :
    (p.withSchedule id s).Fits g where
  there i r hr e he := by
    rw [Partition.withSchedule, Array.getElem?_modify] at hr
    split at hr
    · -- The region has the edges it had.
      rcases Option.map_eq_some_iff.1 hr with ⟨r', hr', rfl⟩
      exact hp.there i r' hr' e he
    · exact hp.there i r hr e he
  wraps := hp.wraps
  taps := hp.taps

/-- Whether or not a region is scheduled, the partition after it fits. -/
theorem Fits.scheduleRegion (hp : p.Fits g) (config : Config) (id : RegionId) :
    (p.scheduleRegion g config id).2.Fits g := by
  unfold Partition.scheduleRegion
  split
  · exact hp
  · exact hp.withSchedule id _

/-- Whether or not all regions are scheduled, the partition after it fits. -/
theorem Fits.scheduleAll (hp : p.Fits g) {sideBySide : Gathering}
    (hgathers : Gathers sideBySide) (config : Config) :
    (p.scheduleAll sideBySide g config).2.Fits g := by
  rcases hq : p.scheduleAll sideBySide g config with ⟨e | ⟨⟩, q⟩
  · -- Where no schedules are stored, the partition is as it was.
    rw [(exists_of_scheduleAll_eq_error hgathers hq).1]
    exact hp
  · -- Else regions keep their edges, and wraps and taps stay.
    have hframe := (regions_of_scheduleAll hgathers hq).1
    refine ⟨fun i r hr e he => ?_, ?_, ?_⟩
    · rcases region_of_scheduleAll hgathers hq hr with ⟨r', s, hr', _, rfl⟩
      exact hp.there i r' hr' e he
    · rw [hframe]
      exact hp.wraps
    · rw [hframe]
      exact hp.taps

theorem BuiltAlong.applyAll (hp : BuiltAlong g p) (ops : List Operation) :
    BuiltAlong (g.applyAll ops) p := by
  induction ops generalizing g with
  | nil => exact hp
  | cons op ops ih => exact ih (hp.grown op)

/-- A partition of a graph that does not grow is one of those. -/
theorem builtAlong_of_builtOn (hg : Reachable g) (hp : p.BuiltOn g) : BuiltAlong g p := by
  induction hp with
  | groups groups p h => exact .groups hg groups h
  | timeWrap p q _ output input h ih => exact ih.timeWrap output input h
  | tap p q _ tap h ih => exact ih.tap tap h

/-- Whatever was done to a partition, and however the graph has grown meanwhile, what the partition
    refers to is there, and the graph is reachable. -/
theorem fits_of_builtAlong (hp : p.BuiltAlong g) : Reachable g ∧ p.Fits g := by
  induction hp with
  | groups hg groups hp =>
    exact ⟨hg, (divides_of_ofGroups (Graph.wellFormed_of_reachable hg) hp).fits⟩
  | whole hg hp => exact ⟨hg, fits_of_whole (Graph.wellFormed_of_reachable hg) hp⟩
  | timeWrap _ output input hq ih => exact ⟨ih.1, ih.2.addTimeWrap hq⟩
  | tap _ tap hq ih => exact ⟨ih.1, ih.2.addTap hq⟩
  | region _ config id ih => exact ⟨ih.1, ih.2.scheduleRegion config id⟩
  | all _ hgathers config ih => exact ⟨ih.1, ih.2.scheduleAll hgathers config⟩
  | grown _ op ih => exact ⟨ih.1.apply op, ih.2.mono (Graph.grows_apply _ op)⟩

end Fits

end Partition

end MessagePlan
