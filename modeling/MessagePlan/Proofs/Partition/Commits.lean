import MessagePlan.Proofs.Program.Regions
import MessagePlan.Proofs.Schedule.Shape

/-!
# Schedules Stored One by One

All regions can be scheduled together, or one after the other, each storing its schedule in the
partition before the next is scheduled. The result is the same, in whatever order the regions come
and however often, and whether or not the schedules were found side by side. For this it matters
that no schedule looks at those that are stored: the schedule of a region is that of the region in
the partition there was before.

So there is one partition that stores all schedules, and `Stores` describes it place by place.
Scheduling all regions leads to it, storing schedules one by one leads to it, and scheduling all
regions of it leads back to it. If a region has no schedule, there is no such partition. Then
scheduling all regions is refused and the partition is left as it was, and storing one by one is
refused when the turn comes to that region, if it was not refused before.

Nothing is assumed about the graph and the partition, which may store any schedules.

## Main definitions

* `Partition.Rescheduled`: Two partitions that differ in the stored schedules at most.
* `Partition.Stores`: A partition in which every region stores its schedule.
* `Partition.scheduleEach`: Scheduling some regions one after the other.

## Theorems

* `Rescheduled.scheduleOf_eq`: The schedule of a region does not depend on those that are stored.
* `Stores.unique`: There is one partition in which every region stores its schedule.
* `scheduleAll_eq_ok_iff`: Scheduling all regions leads to that partition.
* `stores_of_scheduleEach`: So does storing the schedules one by one.
* `exists_of_scheduleEach_eq_error`: If that is refused, there is a first region that is.
* `scheduleAll_commits`: Scheduling all regions, against scheduling them one by one.
-/

namespace MessagePlan

namespace Partition

/-- Two partitions that differ in the stored schedules at most. -/
structure Rescheduled (p q : Partition) : Prop where
  frame : q = { p with regions := q.regions }
  size : q.regions.size = p.regions.size
  region : ∀ (i : Nat) r, p.regions[i]? = some r →
    ∃ s, q.regions[i]? = some { r with schedule := s }

/-- A partition like another one in which every region stores its schedule. -/
structure Stores (g : Graph) (config : Config) (p q : Partition) : Prop where
  frame : q = { p with regions := q.regions }
  size : q.regions.size = p.regions.size
  region : ∀ (i : Nat) r, p.regions[i]? = some r →
    ∃ s, p.scheduleOf g config ⟨i⟩ = .ok s ∧ q.regions[i]? = some { r with schedule := s }

/-- Schedule some regions one after the other, each storing its schedule at once, up to the first
    that has no schedule. -/
def scheduleEach (p : Partition) (g : Graph) (config : Config) : List RegionId → Edit Unit
  | [] => (.ok (), p)
  | id :: ids =>
    match p.scheduleRegion g config id with
    | (.error e, p) => (.error e, p)
    | (.ok (), p) => p.scheduleEach g config ids

variable {g : Graph} {config : Config} {p q q' : Partition} {id : RegionId} {ids : List RegionId}
  {sideBySide : Gathering}

theorem Rescheduled.refl (p : Partition) : p.Rescheduled p :=
  ⟨rfl, rfl, fun _ r hr => ⟨r.schedule, hr⟩⟩

theorem Rescheduled.trans (h : p.Rescheduled q) (h' : q.Rescheduled q') : p.Rescheduled q' where
  frame := by rw [h'.frame, h.frame]
  size := h'.size.trans h.size
  region i r hr := by
    rcases h.region i r hr with ⟨s, hs⟩
    rcases h'.region i _ hs with ⟨s', hs'⟩
    exact ⟨s', hs'⟩

/-- Storing a schedule changes that of one region. -/
theorem rescheduled_withSchedule (p : Partition) (id : RegionId) (s : Schedule) :
    p.Rescheduled (p.withSchedule id s) where
  frame := rfl
  size := Array.size_modify
  region i r hr := by
    rw [withSchedule, Array.getElem?_modify]
    split
    · exact ⟨s, by rw [hr, Option.map_some]⟩
    · exact ⟨r.schedule, hr⟩

theorem Stores.rescheduled (h : p.Stores g config q) : p.Rescheduled q :=
  ⟨h.frame, h.size, fun i r hr => by
    rcases h.region i r hr with ⟨s, _, hs⟩
    exact ⟨s, hs⟩⟩

/-- The schedule of a region does not depend on those that are stored. -/
theorem Rescheduled.scheduleOf_eq (h : p.Rescheduled q) (id : RegionId) :
    q.scheduleOf g config id = p.scheduleOf g config id := by
  cases hr : p.region? id with
  | some r =>
    rcases h.region id.index r hr with ⟨s, hs⟩
    refine scheduleOf_congr (.refl g) (sameNeeds_withSchedule g r s) hr hs ?_ ?_ config
    · rw [h.frame]
    · rw [h.frame]
  | none =>
    -- A region that is not there is in neither partition.
    have hnone : q.region? id = none := by
      rw [region?, Array.getElem?_eq_none_iff] at hr ⊢
      exact h.size ▸ hr
    rw [scheduleOf, scheduleOf, hr, hnone]

/-- There is one partition in which every region stores its schedule. -/
theorem Stores.unique (h : p.Stores g config q) (h' : p.Stores g config q') : q = q' := by
  have hregions : q.regions = q'.regions := by
    -- The two are compared place by place, and the schedule of a region is one.
    refine Array.ext_getElem? fun i => ?_
    cases hr : p.regions[i]? with
    | some r =>
      rcases h.region i r hr with ⟨s, hs, hget⟩
      rcases h'.region i r hr with ⟨s', hs', hget'⟩
      rw [hs, Except.ok.injEq] at hs'
      rw [hget, hget', hs']
    | none =>
      rw [Array.getElem?_eq_none_iff] at hr
      rw [Array.getElem?_eq_none (h.size ▸ hr), Array.getElem?_eq_none (h'.size ▸ hr)]
  rw [h.frame, h'.frame, hregions]

/-- Scheduling all regions leads to the partition in which each stores its schedule, if there is
    one. -/
theorem scheduleAll_eq_ok_iff (hgathers : Gathers sideBySide) :
    p.scheduleAll sideBySide g config = (.ok (), q) ↔ p.Stores g config q := by
  have hstores : ∀ q', p.scheduleAll sideBySide g config = (.ok (), q') →
      p.Stores g config q' := fun q' hq' => by
    rcases regions_of_scheduleAll hgathers hq' with ⟨hframe, hsize, hplaces⟩
    exact ⟨hframe, hsize, hplaces⟩
  refine ⟨hstores q, fun h => ?_⟩
  rcases hq' : p.scheduleAll sideBySide g config with ⟨e | ⟨⟩, q'⟩
  · -- A region without a schedule could not store one.
    rcases exists_of_scheduleAll_eq_error hgathers hq' with ⟨_, i, hi, he⟩
    rcases h.region i _ (Array.getElem?_eq_getElem hi) with ⟨s, hs, _⟩
    rw [he] at hs
    exact nomatch hs
  · rw [h.unique (hstores q' hq')]

/-- Where every region stores its schedule already, scheduling all regions changes nothing. -/
theorem Stores.again (h : p.Stores g config q) : q.Stores g config q where
  frame := rfl
  size := rfl
  region i r hr := by
    have hlt : i < p.regions.size := h.size ▸ (Array.getElem?_eq_some_iff.1 hr).1
    -- What the region stores is its schedule, and that is found again.
    rcases h.region i _ (Array.getElem?_eq_getElem hlt) with ⟨s, hs, hget⟩
    refine ⟨s, (h.rescheduled.scheduleOf_eq ⟨i⟩).trans hs, ?_⟩
    rw [hr, Option.some.injEq] at hget
    rw [hr, hget]

theorem scheduleRegion_eq_ok : p.scheduleRegion g config id = (.ok (), q) ↔
    ∃ s, p.scheduleOf g config id = .ok s ∧ p.withSchedule id s = q := by
  unfold scheduleRegion
  cases p.scheduleOf g config id <;> simp

/-- A region that has no schedule leaves the partition as it is. -/
theorem scheduleRegion_eq_error {e : Failure ScheduleError} :
    p.scheduleRegion g config id = (.error e, q) ↔ p.scheduleOf g config id = .error e ∧ p = q := by
  unfold scheduleRegion
  cases p.scheduleOf g config id <;> simp

theorem scheduleEach_cons_eq_ok : p.scheduleEach g config (id :: ids) = (.ok (), q) ↔
    ∃ p', p.scheduleRegion g config id = (.ok (), p') ∧
      p'.scheduleEach g config ids = (.ok (), q) := by
  rw [scheduleEach]
  rcases p.scheduleRegion g config id with ⟨e | ⟨⟩, p'⟩ <;> simp

/-- When some regions have been scheduled one after the other, these store their schedules, and the
    others what they stored before. -/
theorem region_of_scheduleEach (hq : p.scheduleEach g config ids = (.ok (), q)) :
    p.Rescheduled q ∧ ∀ (i : Nat) r, p.regions[i]? = some r →
      if ⟨i⟩ ∈ ids then
        ∃ s, p.scheduleOf g config ⟨i⟩ = .ok s ∧ q.regions[i]? = some { r with schedule := s }
      else q.regions[i]? = some r := by
  -- The induction is on the regions still to come, with any partition to begin with.
  induction ids generalizing p with
  | nil =>
    rcases congrArg Prod.snd hq with rfl
    refine ⟨.refl p, fun i r hr => ?_⟩
    rw [if_neg List.not_mem_nil]
    exact hr
  | cons id ids ih =>
    rcases scheduleEach_cons_eq_ok.1 hq with ⟨p', hp', hq⟩
    rcases scheduleRegion_eq_ok.1 hp' with ⟨s, hs, rfl⟩
    have hsame := rescheduled_withSchedule p id s
    rcases ih hq with ⟨hrest, hplaces⟩
    refine ⟨hsame.trans hrest, fun i r hr => ?_⟩
    by_cases hi : id.index = i
    · -- The region stores its schedule now, and its own again if it comes once more.
      subst hi
      have hnow : (p.withSchedule id s).regions[id.index]? = some { r with schedule := s } := by
        rw [withSchedule, Array.getElem?_modify, if_pos rfl, hr, Option.map_some]
      have hplace := hplaces id.index _ hnow
      rw [if_pos List.mem_cons_self]
      split at hplace
      · rcases hplace with ⟨s', hs', hget⟩
        exact ⟨s', (hsame.scheduleOf_eq _).symm.trans hs', hget⟩
      · exact ⟨s, hs, hplace⟩
    · have hnow : (p.withSchedule id s).regions[i]? = some r := by
        rw [withSchedule, Array.getElem?_modify, if_neg hi]
        exact hr
      have hplace := hplaces i r hnow
      have hne : (⟨i⟩ : RegionId) ≠ id := fun heq => hi (heq ▸ rfl)
      rw [hsame.scheduleOf_eq] at hplace
      simpa only [List.mem_cons, hne, false_or] using hplace

/-- Where scheduling regions one after the other is refused, there is a first region that is, and
    the partition is left with what was stored before. -/
theorem exists_of_scheduleEach_eq_error {e : Failure ScheduleError}
    (he : p.scheduleEach g config ids = (.error e, q)) :
    ∃ before id after, ids = before ++ id :: after ∧
      p.scheduleEach g config before = (.ok (), q) ∧
      q.scheduleRegion g config id = (.error e, q) := by
  -- The first that is refused is the one at hand, or one behind it.
  induction ids generalizing p with
  | nil => exact nomatch congrArg Prod.fst he
  | cons id ids ih =>
    rw [scheduleEach] at he
    rcases hid : p.scheduleRegion g config id with ⟨e' | ⟨⟩, p'⟩
    · rw [hid] at he
      rcases Prod.mk.inj he with ⟨heq, rfl⟩
      rcases Except.error.inj heq with rfl
      -- A region that is refused leaves the partition as it finds it.
      rcases scheduleRegion_eq_error.1 hid with ⟨_, rfl⟩
      exact ⟨[], id, ids, rfl, rfl, hid⟩
    · rw [hid] at he
      rcases ih he with ⟨before, id', after, rfl, hbefore, hrefused⟩
      exact ⟨id :: before, id', after, rfl, scheduleEach_cons_eq_ok.2 ⟨p', hid, hbefore⟩, hrefused⟩

/-- Scheduling all regions one after the other, in any order and some of them again, leads to the
    partition in which every region stores its schedule. -/
theorem stores_of_scheduleEach (hall : ∀ i, i < p.regions.size → ⟨i⟩ ∈ ids)
    (hq : p.scheduleEach g config ids = (.ok (), q)) : p.Stores g config q := by
  rcases region_of_scheduleEach hq with ⟨hsame, hplaces⟩
  refine ⟨hsame.frame, hsame.size, fun i r hr => ?_⟩
  have hplace := hplaces i r hr
  rwa [if_pos (hall i (Array.getElem?_eq_some_iff.1 hr).1)] at hplace

/-- Regions that have schedules can be scheduled one after the other. -/
theorem exists_scheduleEach (hids : ∀ id ∈ ids, ∃ s, p.scheduleOf g config id = .ok s) :
    ∃ q, p.scheduleEach g config ids = (.ok (), q) := by
  rcases hq : p.scheduleEach g config ids with ⟨e | ⟨⟩, q⟩
  · rcases exists_of_scheduleEach_eq_error hq with ⟨before, id, after, rfl, hbefore, he⟩
    rcases hids id (List.mem_append_right _ List.mem_cons_self) with ⟨s, hs⟩
    have hrefused := (scheduleRegion_eq_error.1 he).1
    -- What was stored before has no influence on what is refused.
    rw [(region_of_scheduleEach hbefore).1.scheduleOf_eq, hs] at hrefused
    exact nomatch hrefused
  · exact ⟨q, rfl⟩

end Partition

/-- Where all regions can be scheduled, side by side or in turn, the partition differs in the stored
    schedules at most, to schedule all again changes nothing, and scheduling them one by one, in any
    order and some of them again, leads to the same partition. Where they cannot, the partition is
    left as it was, and scheduling them one by one, in any order, is refused at one of them. -/
theorem scheduleAll_commits {sideBySide : Partition.Gathering}
    (hgathers : Partition.Gathers sideBySide) (g : Graph) (p : Partition) (config : Config) :
    (∀ q, p.scheduleAll sideBySide g config = (.ok (), q) →
      p.Stores g config q ∧ q.scheduleAll sideBySide g config = (.ok (), q) ∧
        ∀ ids, (∀ id, id ∈ ids ↔ id.index < p.regions.size) →
          p.scheduleEach g config ids = (.ok (), q)) ∧
    ∀ e q, p.scheduleAll sideBySide g config = (.error e, q) → q = p ∧
      ∀ ids, (∀ i, i < p.regions.size → ⟨i⟩ ∈ ids) → ∃ before id after p' e',
        ids = before ++ id :: after ∧ p.scheduleEach g config before = (.ok (), p') ∧
          p'.scheduleRegion g config id = (.error e', p') := by
  refine ⟨fun q hq => ?_, fun e q he => ?_⟩
  · have hstores := (Partition.scheduleAll_eq_ok_iff hgathers).1 hq
    refine ⟨hstores, (Partition.scheduleAll_eq_ok_iff hgathers).2 hstores.again, fun ids hids => ?_⟩
    -- Every region that is named is one of the partition, and has a schedule.
    have hscheduled : ∀ id ∈ ids, ∃ s, p.scheduleOf g config id = .ok s := fun id hid => by
      rcases hstores.region id.index _ (Array.getElem?_eq_getElem ((hids id).1 hid)) with ⟨s, hs, _⟩
      exact ⟨s, hs⟩
    rcases Partition.exists_scheduleEach hscheduled with ⟨q', hq'⟩
    have hall : ∀ i, i < p.regions.size → ⟨i⟩ ∈ ids := fun i hi => (hids ⟨i⟩).2 hi
    rw [hq', hstores.unique (Partition.stores_of_scheduleEach hall hq')]
  · refine ⟨(exists_of_scheduleAll_eq_error hgathers he).1, fun ids hall => ?_⟩
    rcases hq' : p.scheduleEach g config ids with ⟨e' | ⟨⟩, q'⟩
    · rcases Partition.exists_of_scheduleEach_eq_error hq' with
        ⟨before, id, after, hids, hbefore, hrefused⟩
      exact ⟨before, id, after, q', e', hids, hbefore, hrefused⟩
    · -- All would have been scheduled.
      have hstores := Partition.stores_of_scheduleEach hall hq'
      rw [(Partition.scheduleAll_eq_ok_iff hgathers).2 hstores] at he
      exact nomatch congrArg Prod.fst he

/-- The ring of three nodes as one region. -/
def wholeRing : Region :=
  { id := ⟨0⟩, inner := (((∅ : Std.ExtTreeSet EdgeId).insert ⟨0⟩).insert ⟨1⟩).insert ⟨2⟩
    outer := ∅, schedule := [] }

/-- The ring as one region, where a tap wants a terminal on the loop that no message breaks. -/
def tappedRing : Partition :=
  { Partition.empty with
    regions := #[wholeRing]
    taps := [.terminal ⟨0⟩]
    regionOf := (((∅ : Std.ExtTreeMap EdgeId RegionId).insert ⟨0⟩ ⟨0⟩).insert ⟨1⟩ ⟨0⟩).insert ⟨2⟩
      ⟨0⟩ }

theorem builtOn_tappedRing : tappedRing.BuiltOn primedRing := by
  refine .tap { tappedRing with taps := [] } _ (.groups [[⟨0⟩, ⟨1⟩, ⟨2⟩]] _ ?_) (.terminal ⟨0⟩) ?_
  · simp only [Partition.ofGroups, Partition.regionOfGroup, Partition.outerEdges, Region.nodes,
      distinct_eq_eraseDups]
    exact toOption_eq_some.1 (by decide +kernel)
  · exact toOption_eq_some.1 (by decide +kernel)

/-- The loop is inside the region. -/
theorem onLoop_wholeRing : OnLoop primedRing (some wholeRing) ⟨0⟩ := by
  have hinside : ∀ i < 6, Inside primedRing (some wholeRing) ⟨i⟩ := by
    simp only [← isOn_inner_iff]
    decide +kernel
  have h02 : Needs primedRing (some wholeRing) ⟨0⟩ ⟨2⟩ :=
    ⟨⟨1⟩, by decide +kernel, by decide, hinside 1 (by decide), by decide +kernel⟩
  have h24 : Needs primedRing (some wholeRing) ⟨2⟩ ⟨4⟩ :=
    ⟨⟨3⟩, by decide +kernel, by decide, hinside 3 (by decide), by decide +kernel⟩
  have h40 : Needs primedRing (some wholeRing) ⟨4⟩ ⟨0⟩ :=
    ⟨⟨5⟩, by decide +kernel, by decide, hinside 5 (by decide), by decide +kernel⟩
  exact .tail (.tail (.single h02) h24) h40

/-- Where taps are wanted, the ring has no schedule: it would list the terminal on the loop and
    still be in order. -/
theorem scheduleOf_tappedRing_ne_ok (htaps : config.taps = true) (s : Schedule) :
    tappedRing.scheduleOf primedRing config ⟨0⟩ ≠ .ok s := by
  intro hs
  have h := Graph.wellFormed_of_reachable reachable_primedRing
  have hdivides := Partition.divides_of_builtOn h builtOn_tappedRing
  have hscheduled := scheduled_of_scheduleOf h hdivides rfl hs
  have howns : (wholeRing.owns primedRing ⟨0⟩ : Except (Failure ScheduleError) Bool) = .ok true :=
    toOption_eq_some.1 (by decide +kernel)
  have hrequested : Requested primedRing tappedRing config wholeRing ⟨0⟩ :=
    .tap (.terminal ⟨0⟩) [⟨0⟩] ⟨0⟩ htaps List.mem_cons_self rfl List.mem_cons_self howns
  have hlisted : ⟨0⟩ ∈ s := (hscheduled.mem_iff ⟨0⟩).2 (Or.inl ⟨⟨0⟩, hrequested, .refl⟩)
  exact absurd onLoop_wholeRing (hscheduled.inOrder.not_onLoop hlisted)

/-- Side by side, too, the half of the sink may be scheduled before that of the source, and once
    more after it. The ring, where a terminal is wanted that is on a loop, is left as it was, and
    scheduling its region is refused. -/
theorem scheduleAll_commits_relay :
    (halves.scheduleAll Partition.inTurn relayGraph { parallel := true } =
        (.ok (), scheduledHalves) ∧
      halves.scheduleEach relayGraph { parallel := true } [⟨1⟩, ⟨0⟩, ⟨1⟩] =
        (.ok (), scheduledHalves)) ∧
      ∃ e e', tappedRing.scheduleAll Partition.inTurn primedRing { parallel := true } =
          (.error e, tappedRing) ∧
        tappedRing.scheduleRegion primedRing { parallel := true } ⟨0⟩ =
          (.error e', tappedRing) := by
  constructor
  · have hall : halves.scheduleAll Partition.inTurn relayGraph { parallel := true } =
        (.ok (), scheduledHalves) := by
      refine Partition.scheduleAll_eq_ok.2 ⟨[[⟨0⟩, ⟨1⟩], [⟨3⟩, ⟨2⟩]], ?_, rfl⟩
      exact schedules_relayGraph
    refine ⟨hall, ?_⟩
    rcases (scheduleAll_commits Partition.gathers_inTurn relayGraph halves
      { parallel := true }).1 _ hall with ⟨_, _, heach⟩
    refine heach _ fun id => ?_
    rcases id with ⟨i⟩
    simp only [List.mem_cons, List.not_mem_nil, or_false, RegionId.mk.injEq]
    have hsize : halves.regions.size = 2 := rfl
    omega
  · rcases hq : tappedRing.scheduleAll Partition.inTurn primedRing { parallel := true } with
      ⟨e | ⟨⟩, q⟩
    · rcases (scheduleAll_commits Partition.gathers_inTurn primedRing tappedRing
        { parallel := true }).2 e q hq with ⟨rfl, heach⟩
      -- The only region of the ring is refused, and it is the first.
      rcases heach [⟨0⟩] (fun i hi => by
        rw [Nat.lt_one_iff.1 hi]
        exact List.mem_cons_self) with ⟨before, id, after, p', e', hids, hp', he'⟩
      cases before with
      | nil =>
        rcases (List.cons.inj hids).1 with rfl
        rcases congrArg Prod.snd hp' with rfl
        exact ⟨e, e', rfl, he'⟩
      | cons id' before =>
        have hnil := (List.cons.inj hids).2
        exact nomatch (List.append_eq_nil_iff.1 hnil.symm).2
    · rcases (regions_of_scheduleAll Partition.gathers_inTurn hq).2.2 0 wholeRing rfl with
        ⟨s, hs, _⟩
      exact absurd hs (scheduleOf_tappedRing_ne_ok rfl s)

end MessagePlan
