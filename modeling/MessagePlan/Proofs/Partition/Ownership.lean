import MessagePlan.Proofs.Partition.Commits
import MessagePlan.Proofs.Partition.Groups
import MessagePlan.Proofs.Schedule.Completion

/-!
# Regions Compute Apart

To which region a terminal belongs is decided in two ways. A region can be asked whether it owns the
terminal, and the partition can be asked for the region of the terminal. The first looks into the
inner edges of the region, the second into the table of regions. Since a partition divides the
edges, both agree: a terminal on an edge has one owner, and the table leads to it. A terminal
without an edge may have several owners, as many as its node touches, and then the table leads to
one of them; it leads nowhere if there is none.

What is computed in a region is owned there. So two regions can have an entry in common only if it
has no edge. Nothing needs such a terminal, and it is not inside any region, so it was neither put
in for another entry nor sent from the boundary. What is left is that it was asked for by name, by a
time wrap or a tap.

## Main definitions

* `AskedFor`: A terminal that a time wrap or a tap asks for by name.
* `wrappedHalves`: Two regions and a time wrap out of a terminal that both own.

## Theorems

* `BuiltOn.regionOf?_iff`: The table leads from an edge to its region, whatever was added.
* `BuiltOn.owner_of_edge?`, `BuiltOn.owners_of_dangling`: Partition and regions agree.
* `regionOfTerminal?_of_edge?`, `regionOfTerminal?_of_dangling`: What the partition answers.
* `Requested.askedFor`: Without an edge, a terminal is requested by name only.
* `Scheduled.askedFor`: The same for what is scheduled.
* `regions_compute_apart`: Who owns a terminal, and what two regions can both compute.
-/

namespace MessagePlan

open Relation

section Owners

variable {ε : Type} {g : Graph} {p : Partition} {r : Region} {x : TerminalId} {e : EdgeId}

/-! ### What the partition answers -/

namespace Partition

/-- The table of regions leads from an edge to the region that has it, whatever was added to the
    partition. -/
theorem BuiltOn.regionOf?_iff (hp : p.BuiltOn g) (e : EdgeId) (id : RegionId) :
    p.regionOf? e = some id ↔ ∃ r, p.region? id = some r ∧ e ∈ r.inner := by
  induction hp with
  | groups groups p hp => exact regionOf?_eq_some_iff hp e id
  | timeWrap p q _ output input hq ih =>
    rcases addTimeWrap_eq_ok hq with ⟨rfl, _⟩
    exact ih
  | tap p q _ tap hq ih =>
    rcases addTap_eq_ok hq with ⟨rfl, _⟩
    exact ih

/-- The table leads from the edge of a terminal to the region that the terminal is inside. -/
theorem BuiltOn.bind_regionOf?_iff (hp : p.BuiltOn g) (y : TerminalId) (id : RegionId) :
    (g.edge? y).bind p.regionOf? = some id ↔ ∃ r, p.region? id = some r ∧ Inside g (some r) y := by
  simp only [Option.bind_eq_some_iff, hp.regionOf?_iff, inside_iff]
  constructor
  · rintro ⟨e, he, r, hr, hmem⟩
    exact ⟨r, hr, e, he, hmem⟩
  · rintro ⟨r, hr, e, he, hmem⟩
    exact ⟨e, he, r, hr, hmem⟩

theorem firstRegion_eq_ok {qs : List TerminalId} (hqs : ∀ q ∈ qs, g.hasTerminal q = true) :
    (p.firstRegion g qs : Except (Failure ε) _) =
      .ok (qs.findSome? fun q => (g.edge? q).bind p.regionOf?) := by
  induction qs with
  | nil => rfl
  | cons q qs ih =>
    rcases Graph.terminal_eq_ok (ε := ε) (hqs q List.mem_cons_self) with ⟨_, hget, _, _, hedge, _⟩
    rw [firstRegion, hget, ok_bind, List.findSome?_cons, hedge]
    -- The first terminal with a region decides; one without leaves it to the others.
    split
    · rename_i id hid
      rw [hid]
      rfl
    · rename_i hnone
      rw [hnone]
      exact ih fun z hz => hqs z (List.mem_cons_of_mem q hz)

theorem regionOfTerminal?_of_edge? (he : g.edge? x = some e) :
    (p.regionOfTerminal? g x : Except (Failure ε) _) = .ok (p.regionOf? e) := by
  rcases Graph.terminal_eq_ok (ε := ε) (Graph.hasTerminal_of_edge? he) with
    ⟨_, hget, _, _, hedge, _⟩
  rw [regionOfTerminal?, hget, ok_bind, ← hedge, he]
  rfl

theorem regionOfTerminal?_of_dangling (h : g.WellFormed) (hx : g.hasTerminal x = true)
    (hnone : g.edge? x = none) : (p.regionOfTerminal? g x : Except (Failure ε) _) =
      .ok ((g.ports x).findSome? fun y => (g.edge? y).bind p.regionOf?) := by
  rcases Graph.terminal_eq_ok (ε := ε) hx with ⟨_, hget, _, _, hedge, _⟩
  rcases h.ownerOf_eq_ok (ε := ε) hx with ⟨node, hnode, hports, _⟩
  rw [regionOfTerminal?, hget, ok_bind, ← hedge, hnone]
  simp only [hnode, ok_bind, hports]
  exact firstRegion_eq_ok fun y hy => h.hasTerminal_of_mem_ports hy

/-! ### Both answers agree -/

/-- A terminal on an edge has one owner, and the partition names it. -/
theorem BuiltOn.owner_of_edge? (h : g.WellFormed) (hp : p.BuiltOn g) (he : g.edge? x = some e) :
    ∃ id r, (p.regionOfTerminal? g x : Except (Failure ε) _) = .ok (some id) ∧
      p.region? id = some r ∧ ∀ id' s, p.region? id' = some s →
        (s.owns g x : Except (Failure ε) Bool) = .ok (decide (id' = id)) := by
  have hdivides := divides_of_builtOn h hp
  rcases hdivides.covered e (h.hasEdge_of_edge? he) with ⟨i, r, hr, hmem⟩
  refine ⟨⟨i⟩, r, ?_, hr, fun id' s hs => ?_⟩
  · rw [regionOfTerminal?_of_edge? he, (hp.regionOf?_iff e ⟨i⟩).2 ⟨r, hr, hmem⟩]
  · rw [owns_eq_ok h (Graph.hasTerminal_of_edge? he), holds_of_edge? he]
    -- An edge in two regions would make them one.
    refine congrArg Except.ok (Bool.eq_iff_iff.2 ?_)
    rw [decide_eq_true_iff, Region.hasEdge, Std.ExtTreeSet.contains_iff_mem]
    constructor
    · intro hmem'
      exact congrArg RegionId.mk (hdivides.apart id'.index i s r hs hr e hmem' hmem)
    · rintro rfl
      rw [region?, hr, Option.some.injEq] at hs
      exact hs ▸ hmem

/-- A terminal without an edge has the owner that the partition names, or none if it names none. -/
theorem BuiltOn.owners_of_dangling (h : g.WellFormed) (hp : p.BuiltOn g)
    (hx : g.hasTerminal x = true) (hnone : g.edge? x = none) :
    ∃ o, (p.regionOfTerminal? g x : Except (Failure ε) _) = .ok o ∧
      (∀ id, o = some id → ∃ r, p.region? id = some r ∧
        (r.owns g x : Except (Failure ε) Bool) = .ok true) ∧
      (o = none ↔ ∀ id r, p.region? id = some r →
        (r.owns g x : Except (Failure ε) Bool) = .ok false) := by
  refine ⟨_, regionOfTerminal?_of_dangling h hx hnone, fun id hid => ?_, ?_⟩
  · rcases List.exists_of_findSome?_eq_some hid with ⟨y, hy, hid⟩
    rcases (hp.bind_regionOf?_iff y id).1 hid with ⟨r, hr, hin⟩
    exact ⟨r, hr, by rw [owns_eq_ok h hx, (holds_iff_of_dangling hnone).2 ⟨y, hy, hin⟩]⟩
  · simp only [List.findSome?_eq_none_iff, owns_eq_ok h hx, Except.ok.injEq]
    constructor
    · intro hall id r hr
      refine Bool.eq_false_iff.2 fun hholds => ?_
      rcases (holds_iff_of_dangling hnone).1 hholds with ⟨y, hy, hin⟩
      -- The table would lead from the edge of that terminal to the region.
      have hid := (hp.bind_regionOf?_iff y id).2 ⟨r, hr, hin⟩
      rw [hall y hy] at hid
      exact nomatch hid
    · intro hall y hy
      refine Option.eq_none_iff_forall_ne_some.2 fun id hid => ?_
      rcases (hp.bind_regionOf?_iff y id).1 hid with ⟨r, hr, hin⟩
      have hholds : r.holds g x = true := (holds_iff_of_dangling hnone).2 ⟨y, hy, hin⟩
      rw [hall id r hr] at hholds
      exact nomatch hholds

/-- Two regions own a terminal only if it has no edge. -/
theorem Divides.dangling_of_holds (hp : p.Divides g) {id id' : RegionId} {s : Region}
    (hr : p.region? id = some r) (hs : p.region? id' = some s) (hne : id ≠ id')
    (hx : r.holds g x = true) (hx' : s.holds g x = true) : g.edge? x = none := by
  cases he : g.edge? x with
  | none => rfl
  | some e =>
    rw [holds_of_edge? he, Region.hasEdge, Std.ExtTreeSet.contains_iff_mem] at hx hx'
    exact absurd (congrArg RegionId.mk (hp.apart id.index id'.index r s hr hs e hx hx')) hne

end Partition

end Owners

section Requests

variable {g : Graph} {p q : Partition} {config : Config} {r : Region} {s : Schedule}
  {t x : TerminalId}

/-- A time wrap or a tap that is taken into account asks for a terminal by name. -/
def AskedFor (p : Partition) (config : Config) (x : TerminalId) : Prop :=
  (config.timeWraps = true ∧ ∃ w ∈ p.timeWraps, w.output = x) ∨
    (config.taps = true ∧ Tap.terminal x ∈ p.taps)

theorem not_inside_of_dangling (hnone : g.edge? x = none) : ¬ Inside g (some r) x := by
  intro hin
  rcases inside_iff.1 hin with ⟨e, he, _⟩
  rw [hnone] at he
  exact nomatch he

/-- A terminal without an edge is needed by nothing. -/
theorem eq_of_dependsOn_of_dangling (h : g.WellFormed) (hdep : DependsOn g (some r) t x)
    (hnone : g.edge? x = none) : t = x := by
  cases hdep with
  | refl => rfl
  | tail _ hneed =>
    rcases hneed with ⟨y, _, _, hin, hpartner, _⟩
    exact absurd (inside_partner h hin hpartner) (not_inside_of_dangling hnone)

/-- Without an edge, a terminal is requested from a region by name only. -/
theorem Requested.askedFor (h : g.WellFormed) (hp : p.Divides g) (hx : Requested g p config r x)
    (hnone : g.edge? x = none) : AskedFor p config x := by
  cases hx with
  | sender y _ hy hpartner =>
    exact absurd (inside_partner h hy.1 hpartner) (not_inside_of_dangling hnone)
  | wrap w hon hw _ => exact Or.inl ⟨hon, w, hw, rfl⟩
  | tap tap ts _ hon htap hts hmem _ =>
    rw [(terminals_eq_ok h (hp.taps tap htap)).1, Except.ok.injEq] at hts
    rw [← hts] at hmem
    cases tap with
    | terminal y =>
      rw [List.mem_singleton.1 hmem]
      exact Or.inr ⟨hon, htap⟩
    | edge e =>
      -- The two sides of an edge are on that edge.
      rw [(mem_sidesOf h).1 hmem] at hnone
      exact nomatch hnone

/-- Without an edge, a terminal is scheduled in a region only if it is asked for by name. -/
theorem Scheduled.askedFor (h : g.WellFormed) (hp : p.Divides g) (hs : Scheduled g p config r s)
    (hx : x ∈ s) (hnone : g.edge? x = none) : AskedFor p config x := by
  rcases (hs.mem_iff x).1 hx with ⟨t, ht, hdep⟩ | ⟨_, halone⟩
  · rw [eq_of_dependsOn_of_dangling h hdep hnone] at ht
    exact ht.askedFor h hp hnone
  · exact absurd halone.1.1 (not_inside_of_dangling hnone)

/-- When all regions of a partition have been scheduled, what a region stores is its schedule,
    whatever was stored there before. -/
theorem scheduled_of_scheduleAll (h : g.WellFormed) (hp : p.Divides g)
    {sideBySide : Partition.Gathering} (hgathers : Partition.Gathers sideBySide) {p' : Partition}
    (hsame : p.Rescheduled p') (hq : p'.scheduleAll sideBySide g config = (.ok (), q))
    {id : RegionId} (hr : q.region? id = some r) :
    ∃ r₀, p.region? id = some r₀ ∧ Scheduled g p config r₀ r.schedule := by
  have hstores := (Partition.scheduleAll_eq_ok_iff hgathers).1 hq
  have hi : id.index < p.regions.size := by
    rw [← hsame.size, ← hstores.size]
    exact (Array.getElem?_eq_some_iff.1 hr).1
  have hr₀ : p.region? id = some p.regions[id.index] := Array.getElem?_eq_getElem hi
  -- The region is followed back: from the stored schedules to the rescheduled partition, and from
  -- there to the first one.
  rcases hsame.region id.index _ hr₀ with ⟨_, hr'⟩
  rcases hstores.region id.index _ hr' with ⟨s, hs, hget⟩
  rw [Partition.region?, hget, Option.some.injEq] at hr
  rw [← hr]
  rw [hsame.scheduleOf_eq] at hs
  exact ⟨_, hr₀, scheduled_of_scheduleOf h hp hr₀ hs⟩

end Requests

/-- A terminal on an edge is owned by one region of a partition, and this is the region that the
    partition names for it. A terminal without an edge is owned by the region that the partition
    names for it, and if none is named, by none. When all regions have been scheduled, whatever was
    scheduled before, two of them list the same terminal only if it has no edge and a time wrap or a
    tap asks for it by name. -/
theorem regions_compute_apart {ε : Type} {g : Graph} {p : Partition}
    {sideBySide : Partition.Gathering} (hgathers : Partition.Gathers sideBySide) (hg : Reachable g)
    (hp : p.BuiltOn g) :
    (∀ x e, g.edge? x = some e → ∃ id r,
      (p.regionOfTerminal? g x : Except (Failure ε) _) = .ok (some id) ∧ p.region? id = some r ∧
        ∀ id' s, p.region? id' = some s →
          (s.owns g x : Except (Failure ε) Bool) = .ok (decide (id' = id))) ∧
    (∀ x, g.hasTerminal x = true → g.edge? x = none → ∃ o,
      (p.regionOfTerminal? g x : Except (Failure ε) _) = .ok o ∧
        (∀ id, o = some id → ∃ r, p.region? id = some r ∧
          (r.owns g x : Except (Failure ε) Bool) = .ok true) ∧
        (o = none ↔ ∀ id r, p.region? id = some r →
          (r.owns g x : Except (Failure ε) Bool) = .ok false)) ∧
    ∀ config p' q, p.Rescheduled p' → p'.scheduleAll sideBySide g config = (.ok (), q) →
      ∀ id id' r s x, q.region? id = some r → q.region? id' = some s → id ≠ id' →
        x ∈ r.schedule → x ∈ s.schedule → g.edge? x = none ∧ AskedFor p config x := by
  have h := Graph.wellFormed_of_reachable hg
  have hdivides := Partition.divides_of_builtOn h hp
  refine ⟨fun x e he => hp.owner_of_edge? h he, fun x hx hnone => hp.owners_of_dangling h hx hnone,
    fun config p' q hsame hq id id' r s x hr hs hne hx hx' => ?_⟩
  rcases scheduled_of_scheduleAll h hdivides hgathers hsame hq hr with ⟨r₀, hr₀, hscheduled⟩
  rcases scheduled_of_scheduleAll h hdivides hgathers hsame hq hs with ⟨s₀, hs₀, hscheduled'⟩
  -- Two regions that both compute a terminal both own it, which an edge would forbid.
  have hnone : g.edge? x = none := hdivides.dangling_of_holds hr₀ hs₀ hne
    (hscheduled.owned x hx) (hscheduled'.owned x hx')
  exact ⟨hnone, hscheduled.askedFor h hdivides hx hnone⟩

/-- Two regions that meet at a node with a loose terminal, which is the output of a time wrap. -/
def wrappedHalves : Partition := { halves with timeWraps := [⟨⟨2⟩, ⟨0⟩⟩] }

theorem builtOn_wrappedHalves : wrappedHalves.BuiltOn mergeGraph := by
  refine Partition.BuiltOn.timeWrap halves _ (.groups [[⟨0⟩], [⟨1⟩]] halves ?_) ⟨2⟩ ⟨0⟩ rfl
  simp only [Partition.ofGroups, Partition.regionOfGroup, Partition.outerEdges, Region.nodes,
    distinct_eq_eraseDups]
  exact toOption_eq_some.1 (by decide +kernel)

/-- Both regions meet at the merging node. -/
theorem boundary_mergeGraph {r : Region} (hr : r = halfOfTwo 0 1 ∨ r = halfOfTwo 1 0) :
    r.boundary mergeGraph = (.ok [⟨⟨1⟩, 1⟩] : Except (Failure ScheduleError) _) := by
  rcases hr with rfl | rfl
  · simp only [Region.boundary, Region.nodes, distinct_eq_eraseDups]
    exact toOption_eq_some.1 (by decide +kernel)
  · simp only [Region.boundary, Region.nodes, distinct_eq_eraseDups]
    exact toOption_eq_some.1 (by decide +kernel)

/-- The loose terminal of the merging node is scheduled in both regions, since it is the output of a
    time wrap. -/
theorem regions_compute_apart_merge :
    Reachable mergeGraph ∧ wrappedHalves.BuiltOn mergeGraph ∧
      ∃ q r s, wrappedHalves.scheduleAll Partition.inTurn mergeGraph {} = (.ok (), q) ∧
        q.region? ⟨0⟩ = some r ∧
        q.region? ⟨1⟩ = some s ∧ r.schedule = [⟨0⟩, ⟨1⟩, ⟨2⟩] ∧ s.schedule = [⟨4⟩, ⟨3⟩, ⟨2⟩] ∧
        mergeGraph.edge? ⟨2⟩ = none ∧ AskedFor wrappedHalves {} ⟨2⟩ := by
  have hg : Reachable mergeGraph := (Reachable.empty _).applyAll _
  have h := Graph.wellFormed_of_reachable hg
  have hdivides := Partition.divides_of_builtOn h builtOn_wrappedHalves
  have hfirst : wrappedHalves.scheduleOf mergeGraph {} ⟨0⟩ = .ok [⟨0⟩, ⟨1⟩, ⟨2⟩] :=
    scheduleOf_eq_of_scheduleWithin h hdivides rfl (boundary_mergeGraph (Or.inl rfl)) 6
      (by decide +kernel)
  have hsecond : wrappedHalves.scheduleOf mergeGraph {} ⟨1⟩ = .ok [⟨4⟩, ⟨3⟩, ⟨2⟩] :=
    scheduleOf_eq_of_scheduleWithin h hdivides rfl (boundary_mergeGraph (Or.inr rfl)) 6
      (by decide +kernel)
  have hq : wrappedHalves.scheduleAll Partition.inTurn mergeGraph {} = (.ok (),
      { wrappedHalves with
        regions := #[{ halfOfTwo 0 1 with schedule := [⟨0⟩, ⟨1⟩, ⟨2⟩] },
          { halfOfTwo 1 0 with schedule := [⟨4⟩, ⟨3⟩, ⟨2⟩] }] }) := by
    have hplaces : wrappedHalves.regionIds = [⟨0⟩, ⟨1⟩] := rfl
    refine Partition.scheduleAll_eq_ok.2 ⟨[[⟨0⟩, ⟨1⟩, ⟨2⟩], [⟨4⟩, ⟨3⟩, ⟨2⟩]], ?_, rfl⟩
    rw [Partition.gathers_inTurn.schedules_eq_ok, hplaces]
    simp only [List.mapM_cons, List.mapM_nil, hfirst, hsecond, ok_bind]
    rfl
  refine ⟨hg, builtOn_wrappedHalves, _, _, _, hq, rfl, rfl, rfl, rfl, ?_⟩
  exact (regions_compute_apart (ε := ScheduleError) Partition.gathers_inTurn hg
    builtOn_wrappedHalves).2.2 {} _ _ (.refl _) hq ⟨0⟩ ⟨1⟩ _ _ ⟨2⟩ rfl rfl (by decide) (by decide)
    (by decide)

end MessagePlan
