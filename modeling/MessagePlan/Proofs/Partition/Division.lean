import MessagePlan.Partition.Basic
import MessagePlan.Proofs.Partition.Membership

/-!
# Partitions Divide the Edges

A partition is built from groups of edges, and then time wraps and taps are added to it. What
was checked on the way is what makes the regions fit together: every edge is inside exactly one of
them, and the outer edges of a region are the edges of others that touch its nodes. `Divides` says
this of a partition and a graph, and `divides_of_builtOn` that it holds of every partition that was
built.

It follows that two regions that meet at a node see each other there. If a node has a terminal
inside a region and another one on an edge elsewhere, then the first is `AtBoundary` of its region
and the second of its own: `exists_region_of_outside` finds the region on the other side.

## Main definitions

* `Partition.BuiltOn`: A partition built from groups, with time wraps and taps.
* `Partition.Divides`: Every edge is inside one region, and outer edges are derived.
* `Partition.Fits`: What a partition refers to is there.
* `AtBoundary`: A terminal inside a region at a node that touches another region.
* `Alone`: Such a terminal that is the only one of its node inside the region.

## Theorems

* `assign_cases`, `assignAll_cases`: Where edges are assigned to.
* `mem_outerEdges`: The outer edges of a region.
* `regions_of_ofGroups`: The regions of a partition made from groups.
* `addTimeWrap_eq_ok`, `addTap_eq_ok`: What is accepted, and what is done with it.
* `divides_of_builtOn`: Every partition that was built divides the edges.
* `mem_boundary_iff`: The boundary nodes are those with terminals at the boundary.
* `exists_region_of_outside`: The region on the other side of a boundary.
-/

namespace MessagePlan

namespace Partition

/-- A partition that was built from groups of edges of a graph, with some time wraps and taps. -/
inductive BuiltOn (g : Graph) : Partition → Prop
  | groups (groups : List (List EdgeId)) (p : Partition) (h : ofGroups g groups = .ok p) :
    BuiltOn g p
  | timeWrap (p q : Partition) (hp : BuiltOn g p) (output input : TerminalId)
      (h : p.addTimeWrap g output input = .ok q) : BuiltOn g q
  | tap (p q : Partition) (hp : BuiltOn g p) (tap : Tap) (h : p.addTap g tap = .ok q) : BuiltOn g q

/-- The regions of a partition divide the edges of a graph, their outer edges are those that touch
    their nodes from outside, and what is wanted from them is there. -/
structure Divides (g : Graph) (p : Partition) : Prop where
  there : ∀ (i : Nat) r, p.regions[i]? = some r → ∀ e ∈ r.inner, g.hasEdge e = true
  covered : ∀ e, g.hasEdge e = true → ∃ (i : Nat) (r : Region), p.regions[i]? = some r ∧ e ∈ r.inner
  apart : ∀ (i j : Nat) r s, p.regions[i]? = some r → p.regions[j]? = some s →
    ∀ e ∈ r.inner, e ∈ s.inner → i = j
  derived : ∀ (i : Nat) r, p.regions[i]? = some r → ∀ e, e ∈ r.outer ↔
    e ∉ r.inner ∧ ∃ y, Inside g (some r) y ∧ ∃ z ∈ g.ports y, g.edge? z = some e
  wraps : ∀ w ∈ p.timeWraps, g.hasTerminal w.output = true
  taps : ∀ tap ∈ p.taps, tapFault g tap = none

/-- The inner edges of the regions are there, and so is what is wanted from them. -/
structure Fits (g : Graph) (p : Partition) : Prop where
  there : ∀ (i : Nat) r, p.regions[i]? = some r → ∀ e ∈ r.inner, g.hasEdge e = true
  wraps : ∀ w ∈ p.timeWraps, g.hasTerminal w.output = true
  taps : ∀ tap ∈ p.taps, tapFault g tap = none

section Assignment

variable {g : Graph} {assigned after : Std.ExtTreeMap EdgeId RegionId}

/-- The edges assigned to a region are there and were free, and the others are as they were. -/
theorem assign_cases {id : RegionId} {es : List EdgeId} (h : assign g id assigned es = .ok after) :
    (∀ e, after[e]? = if e ∈ es then some id else assigned[e]?) ∧
      ∀ e ∈ es, g.hasEdge e = true ∧ e ∉ assigned := by
  induction es generalizing assigned with
  | nil =>
    rcases Except.ok.inj h with rfl
    exact ⟨fun e => (if_neg List.not_mem_nil).symm, fun e he => absurd he List.not_mem_nil⟩
  | cons e es ih =>
    rcases assign_eq_ok h with ⟨hlt, hfree, hrest⟩
    rcases ih hrest with ⟨hafter, hes⟩
    refine ⟨fun e' => ?_, fun e' he' => ?_⟩
    · simp only [hafter, Std.ExtTreeMap.getElem?_insert, Std.LawfulEqCmp.compare_eq_iff_eq]
      -- A later edge of the group has the last word, but it says the same.
      by_cases hin : e' ∈ es
      · rw [if_pos hin, if_pos (List.mem_cons_of_mem e hin)]
      · rw [if_neg hin]
        by_cases heq : e = e'
        · rw [if_pos heq, if_pos (heq ▸ List.mem_cons_self)]
        · rw [if_neg heq, if_neg]
          intro hmem
          rcases List.mem_cons.1 hmem with hmem | hmem
          · exact heq hmem.symm
          · exact hin hmem
    · rcases List.mem_cons.1 he' with rfl | he'
      · exact ⟨decide_eq_true hlt, hfree⟩
      · rcases hes e' he' with ⟨hthere, hnot⟩
        exact ⟨hthere, fun hmem => hnot (Std.ExtTreeMap.mem_insert.2 (Or.inr hmem))⟩

/-- Each group is assigned to the region in its place, and nothing else is assigned. -/
theorem assignAll_cases {place : Nat} {groups : List (List EdgeId)}
    (h : assignAll g place assigned groups = .ok after) :
    (∀ e ∈ assigned, after[e]? = assigned[e]?) ∧
      (∀ (i : Nat) group, groups[i]? = some group → ∀ e ∈ group,
        g.hasEdge e = true ∧ after[e]? = some ⟨place + i⟩) ∧
      ∀ e ∈ after, e ∈ assigned ∨ ∃ group ∈ groups, e ∈ group := by
  induction groups generalizing place assigned with
  | nil =>
    rcases Except.ok.inj h with rfl
    refine ⟨fun e _ => rfl, fun i group hi => ?_, fun e he => Or.inl he⟩
    rw [List.getElem?_nil] at hi
    exact nomatch hi
  | cons group groups ih =>
    rcases bind_eq_ok.1 h with ⟨mid, hmid, hrest⟩
    rcases assign_cases hmid with ⟨hassign, hgroup⟩
    rcases ih hrest with ⟨hkept, hplaces, hall⟩
    -- What is assigned once is not assigned again, so it keeps its region to the end.
    have hmem : ∀ (e : EdgeId) (id : RegionId), mid[e]? = some id → after[e]? = some id := by
      intro e id hid
      have he : e ∈ mid := by rw [Std.ExtTreeMap.mem_iff_isSome_getElem?, hid]; rfl
      rw [hkept e he, hid]
    refine ⟨fun e he => ?_, fun i group' hi e he => ?_, fun e he => ?_⟩
    · have hnot : e ∉ group := fun hin => (hgroup e hin).2 he
      have hold : mid[e]? = assigned[e]? := by rw [hassign, if_neg hnot]
      have he' : e ∈ mid := by
        rw [Std.ExtTreeMap.mem_iff_isSome_getElem?, hold,
          ← Std.ExtTreeMap.mem_iff_isSome_getElem?]
        exact he
      rw [hkept e he', hold]
    · cases i with
      | zero =>
        rw [List.getElem?_cons_zero, Option.some.injEq] at hi
        rw [← hi] at he
        exact ⟨(hgroup e he).1, hmem e _ (by rw [hassign, if_pos he]; rfl)⟩
      | succ i =>
        rcases hplaces i group' hi e he with ⟨hthere, hid⟩
        refine ⟨hthere, ?_⟩
        rw [hid, Nat.add_assoc, Nat.add_comm 1 i]
    · rcases hall e he with he | ⟨group', hg, he⟩
      · by_cases hin : e ∈ group
        · exact Or.inr ⟨group, List.mem_cons_self, hin⟩
        · rw [Std.ExtTreeMap.mem_iff_isSome_getElem?, hassign, if_neg hin,
            ← Std.ExtTreeMap.mem_iff_isSome_getElem?] at he
          exact Or.inl he
      · exact Or.inr ⟨group', List.mem_cons_of_mem group hg, he⟩

end Assignment

theorem mem_foldl_insert {es : List EdgeId} {s : Std.ExtTreeSet EdgeId} {e : EdgeId} :
    e ∈ es.foldl (·.insert ·) s ↔ e ∈ s ∨ e ∈ es := by
  induction es generalizing s with
  | nil => rw [List.foldl_nil, List.mem_nil_iff, or_false]
  | cons e' es ih =>
    rw [List.foldl_cons, ih, Std.ExtTreeSet.mem_insert, Std.LawfulEqCmp.compare_eq_iff_eq,
      List.mem_cons, eq_comm, or_assoc, or_left_comm]

section Regions

variable {g : Graph} {r : Region}

/-- The outer edges of a region are those edges of its nodes that are not its own. -/
theorem mem_outerEdges (h : g.WellFormed) (hr : ∀ e ∈ r.inner, g.hasEdge e = true)
    {outer : Std.ExtTreeSet EdgeId} (houter : outerEdges g r = .ok outer) (e : EdgeId) :
    e ∈ outer ↔
      e ∉ r.inner ∧ ∃ y, Inside g (some r) y ∧ ∃ z ∈ g.ports y, g.edge? z = some e := by
  rcases nodes_eq_ok (ε := PartitionError) h hr with ⟨ns, hns, _, hmem⟩
  unfold outerEdges at houter
  rw [hns, ok_bind] at houter
  rcases bind_eq_ok.1 houter with ⟨nodes, hnodes, houter⟩
  rcases bind_eq_ok.1 houter with ⟨terminals, hterminals, houter⟩
  rcases Except.ok.inj houter with rfl
  -- From the edge back to the terminal it was read from, to its node, and to a terminal inside.
  have hread : (∃ t ∈ terminals, t.edge = some e) ↔
      ∃ y, Inside g (some r) y ∧ ∃ z ∈ g.ports y, g.edge? z = some e := by
    simp only [mem_of_mapM hterminals, List.mem_flatMap, mem_of_mapM hnodes]
    constructor
    · rintro ⟨t, ⟨z, ⟨node, ⟨n, hn, hnode⟩, hz⟩, ht⟩, he⟩
      rcases (hmem n).1 hn with ⟨y, hid, hin⟩
      rcases h.node_eq_ok (ε := PartitionError) hid with ⟨node', hnode', hports, _⟩
      rw [hnode, Except.ok.injEq] at hnode'
      rw [hnode', hports] at hz
      have hthere := h.hasTerminal_of_mem_ports hz
      rcases Graph.terminal_eq_ok (ε := PartitionError) hthere with ⟨t', ht', _, _, hedge, _⟩
      rw [ht, Except.ok.injEq] at ht'
      exact ⟨y, hin, z, hz, by rw [hedge, ← ht', he]⟩
    · rintro ⟨y, hin, z, hz, he⟩
      rcases inside_iff.1 hin with ⟨e', he', _⟩
      rcases Graph.nodeIdOf?_of_hasTerminal (Graph.hasTerminal_of_edge? he') with ⟨n, hid⟩
      rcases h.node_eq_ok (ε := PartitionError) hid with ⟨node, hnode, hports, _⟩
      have hthere := h.hasTerminal_of_mem_ports hz
      rcases Graph.terminal_eq_ok (ε := PartitionError) hthere with ⟨t, ht, _, _, hedge, _⟩
      refine ⟨t, ⟨z, ⟨node, ⟨n, (hmem n).2 ⟨y, hid, hin⟩, hnode⟩, ?_⟩, ht⟩, ?_⟩
      · rw [hports]
        exact hz
      · rw [← hedge, he]
  rw [mem_foldl_insert, List.mem_filter, List.mem_filterMap, hread, and_comm]
  simp only [Std.ExtTreeSet.not_mem_empty, false_or, Region.hasEdge, Bool.not_eq_true',
    ← Bool.not_eq_true, Std.ExtTreeSet.contains_iff_mem]

theorem regionOfGroup_eq_ok {group : List EdgeId} {i : Nat}
    (hr : regionOfGroup g group i = .ok r) :
    (∀ e, e ∈ r.inner ↔ e ∈ group) ∧ outerEdges g (.ofEdges ⟨i⟩ r.inner) = .ok r.outer := by
  rcases bind_eq_ok.1 hr with ⟨outer, houter, hr⟩
  rcases Except.ok.inj hr with rfl
  refine ⟨fun e => ?_, houter⟩
  simp only [Region.ofEdges, mem_foldl_insert, Std.ExtTreeSet.not_mem_empty, false_or]

/-- A partition made from groups has the region of each group in the group's place, with the edges
    of the group, which are assigned to it alone; and no edge is left over. -/
theorem regions_of_ofGroups {groups : List (List EdgeId)} {p : Partition}
    (hp : ofGroups g groups = .ok p) :
    p.timeWraps = [] ∧ p.taps = [] ∧
      (∀ e, g.hasEdge e = true → ∃ (i : Nat) (r : Region), p.regions[i]? = some r ∧ e ∈ r.inner) ∧
      ∀ (i : Nat) r, p.regions[i]? = some r →
        (∀ e ∈ r.inner, g.hasEdge e = true ∧ p.regionOf[e]? = some ⟨i⟩) ∧
        outerEdges g (.ofEdges ⟨i⟩ r.inner) = .ok r.outer := by
  unfold ofGroups at hp
  rcases bind_eq_ok.1 hp with ⟨regionOf, hassign, hp⟩
  rcases assignAll_cases hassign with ⟨_, hplaces, hall⟩
  split at hp
  · -- An edge that no group covers is refused.
    rcases bind_eq_ok.1 hp with ⟨edge, _, hp⟩
    exact nomatch hp
  · rename_i hcovered
    rcases bind_eq_ok.1 hp with ⟨regions, hregions, hp⟩
    rcases Except.ok.inj hp with rfl
    simp only [List.getElem?_toArray]
    refine ⟨rfl, rfl, fun e he => ?_, fun i r hi => ?_⟩
    · -- No edge of the graph was found that is not assigned.
      have hnone := List.find?_eq_none.1 hcovered e (List.mem_map.2
        ⟨e.index, List.mem_range.2 (of_decide_eq_true he), rfl⟩)
      rw [Bool.not_eq_true', Bool.not_eq_false, Std.ExtTreeMap.contains_iff_mem] at hnone
      rcases hall e hnone with hempty | ⟨group, hg, hmem⟩
      · exact absurd hempty Std.ExtTreeMap.not_mem_empty
      · rcases List.getElem?_of_mem hg with ⟨i, hi⟩
        have hentry : groups.zipIdx[i]? = some (group, i) := by
          rw [List.getElem?_zipIdx, hi, Option.map_some, Nat.zero_add]
        rcases (mapM_eq_ok_iff.1 hregions).2 i _ hentry with ⟨r, hr, hmade⟩
        exact ⟨i, r, hr, ((regionOfGroup_eq_ok hmade).1 e).2 hmem⟩
    · rcases getElem?_of_mapM hregions hi with ⟨⟨group, place⟩, hentry, hr⟩
      rw [List.getElem?_zipIdx, Option.map_eq_some_iff] at hentry
      rcases hentry with ⟨group', hget, heq⟩
      rcases Prod.mk.inj heq with ⟨rfl, rfl⟩
      rw [Nat.zero_add] at hr
      rcases regionOfGroup_eq_ok hr with ⟨hinner, houter⟩
      refine ⟨fun e he => ?_, houter⟩
      rcases hplaces i group' hget e ((hinner e).1 he) with ⟨hthere, hid⟩
      rw [Nat.zero_add] at hid
      exact ⟨hthere, hid⟩

theorem divides_of_ofGroups (h : g.WellFormed) {groups : List (List EdgeId)} {p : Partition}
    (hp : ofGroups g groups = .ok p) : p.Divides g := by
  rcases regions_of_ofGroups hp with ⟨hwraps, htaps, hcovered, hregions⟩
  refine ⟨fun i r hi e he => ((hregions i r hi).1 e he).1, hcovered,
    fun i j r s hi hj e he he' => ?_, fun i r hi e => ?_, fun w hw => ?_, fun tap htap => ?_⟩
  · -- An edge is assigned to one region only.
    have hid := ((hregions i r hi).1 e he).2
    rw [((hregions j s hj).1 e he').2, Option.some.injEq, RegionId.mk.injEq] at hid
    exact hid.symm
  · rcases hregions i r hi with ⟨hinner, houter⟩
    have hmem := mem_outerEdges h (fun e he => (hinner e he).1) houter e
    -- What is inside a region depends on its inner edges only.
    simp only [inside_iff] at hmem ⊢
    exact hmem
  · rw [hwraps] at hw
    exact absurd hw List.not_mem_nil
  · rw [htaps] at htap
    exact absurd htap List.not_mem_nil

/-- A time wrap that is accepted is put behind those there are, and its output is there. -/
theorem addTimeWrap_eq_ok {p q : Partition} {output input : TerminalId}
    (hq : p.addTimeWrap g output input = .ok q) :
    q = { p with timeWraps := p.timeWraps ++ [⟨output, input⟩] } ∧
      g.hasTerminal output = true := by
  unfold addTimeWrap at hq
  split at hq
  · exact nomatch hq
  · rename_i hfound
    have houtput := List.find?_eq_none.1 hfound output List.mem_cons_self
    rw [Bool.not_eq_true', Bool.not_eq_false] at houtput
    exact ⟨(Except.ok.inj hq).symm, houtput⟩

theorem tapFault_terminal {x : TerminalId} :
    tapFault g (.terminal x) = none ↔ g.hasTerminal x = true := by
  simp only [tapFault, ite_eq_left_iff, reduceCtorEq, imp_false, Decidable.not_not]

theorem tapFault_edge {e : EdgeId} : tapFault g (.edge e) = none ↔ g.hasEdge e = true := by
  simp only [tapFault, ite_eq_left_iff, reduceCtorEq, imp_false, Decidable.not_not]

/-- A tap that is accepted is put behind those there are. -/
theorem addTap_eq_ok {p q : Partition} {tap : Tap} (hq : p.addTap g tap = .ok q) :
    q = { p with taps := p.taps ++ [tap] } ∧ tapFault g tap = none := by
  unfold addTap at hq
  split at hq
  · exact nomatch hq
  · rename_i hfault
    exact ⟨(Except.ok.inj hq).symm, hfault⟩

theorem Divides.fits {p : Partition} (hp : p.Divides g) : p.Fits g := ⟨hp.there, hp.wraps, hp.taps⟩

theorem Fits.addTimeWrap {p q : Partition} (hp : p.Fits g) {output input : TerminalId}
    (hq : p.addTimeWrap g output input = .ok q) : q.Fits g := by
  rcases addTimeWrap_eq_ok hq with ⟨rfl, houtput⟩
  refine ⟨hp.there, fun w hw => ?_, hp.taps⟩
  rcases List.mem_append.1 hw with hw | hw
  · exact hp.wraps w hw
  · rw [List.mem_singleton.1 hw]
    exact houtput

theorem Fits.addTap {p q : Partition} (hp : p.Fits g) {tap : Tap} (hq : p.addTap g tap = .ok q) :
    q.Fits g := by
  rcases addTap_eq_ok hq with ⟨rfl, hfault⟩
  refine ⟨hp.there, hp.wraps, fun tap' htap => ?_⟩
  rcases List.mem_append.1 htap with htap | htap
  · exact hp.taps tap' htap
  · rw [List.mem_singleton.1 htap]
    exact hfault

/-- Every partition that was built divides the edges. -/
theorem divides_of_builtOn (h : g.WellFormed) {p : Partition} (hp : p.BuiltOn g) :
    p.Divides g := by
  induction hp with
  | groups groups p hp => exact divides_of_ofGroups h hp
  | timeWrap p q _ output input hq ih =>
    have hfits := ih.fits.addTimeWrap hq
    rcases addTimeWrap_eq_ok hq with ⟨rfl, _⟩
    exact ⟨ih.there, ih.covered, ih.apart, ih.derived, hfits.wraps, hfits.taps⟩
  | tap p q _ tap hq ih =>
    have hfits := ih.fits.addTap hq
    rcases addTap_eq_ok hq with ⟨rfl, _⟩
    exact ⟨ih.there, ih.covered, ih.apart, ih.derived, hfits.wraps, hfits.taps⟩

end Regions

end Partition

/-- A terminal inside a region, at a node with another terminal on an edge that is not the
    region's own. -/
def AtBoundary (g : Graph) (r : Region) (y : TerminalId) : Prop :=
  Inside g (some r) y ∧ ∃ z ∈ g.ports y, ∃ e, g.edge? z = some e ∧ e ∉ r.inner

/-- A terminal at the boundary that is the only one of its node inside the region. -/
def Alone (g : Graph) (r : Region) (x : TerminalId) : Prop :=
  AtBoundary g r x ∧ ∀ z ∈ g.ports x, Inside g (some r) z → z = x

section Boundary

variable {g : Graph} {p : Partition} {i : Nat} {r : Region} {x y : TerminalId}

/-- The boundary nodes of a region are the nodes of the terminals at its boundary. -/
theorem mem_boundary_iff {ε : Type} (h : g.WellFormed) (hp : p.Divides g)
    (hr : p.regions[i]? = some r) :
    ∃ ns, (r.boundary g : Except (Failure ε) (List NodeId)) = .ok ns ∧ ns.Nodup ∧
      ∀ n, n ∈ ns ↔ ∃ y, g.nodeIdOf? y = some n ∧ AtBoundary g r y := by
  rcases boundary_eq_ok (ε := ε) h (hp.there i r hr) with ⟨ns, hns, hnodup, hmem⟩
  refine ⟨ns, hns, hnodup, fun n => (hmem n).trans (exists_congr fun y => ?_)⟩
  refine and_congr_right fun _ => and_congr_right fun hin => exists_congr fun z => ?_
  refine and_congr_right fun hz => ?_
  rw [isOn_iff]
  refine exists_congr fun e => and_congr_right fun he => ?_
  -- The edge touches a node of the region, so it is an outer edge if it is not an inner one.
  rw [hp.derived i r hr e]
  constructor
  · intro houter
    exact houter.1
  · intro hout
    exact ⟨hout, y, hin, z, hz, he⟩

/-- Where a node has a terminal inside a region and another one on an edge elsewhere, that one is
    at the boundary of exactly one region, and this is another region. -/
theorem exists_region_of_outside (h : g.WellFormed) (hp : p.Divides g)
    (hr : p.regions[i]? = some r) (hx : Inside g (some r) x) (hy : y ∈ g.ports x) {e : EdgeId}
    (he : g.edge? y = some e) (hout : e ∉ r.inner) :
    ∃ (j : Nat) (s : Region), p.regions[j]? = some s ∧ j ≠ i ∧ e ∈ s.inner ∧ AtBoundary g s y ∧
      ∀ (j' : Nat) s', p.regions[j']? = some s' → e ∈ s'.inner → j' = j := by
  rcases hp.covered e (h.hasEdge_of_edge? he) with ⟨j, s, hs, hmem⟩
  have hne : j ≠ i := by
    intro heq
    rw [heq, hr, Option.some.injEq] at hs
    exact hout (hs ▸ hmem)
  refine ⟨j, s, hs, hne, hmem, ⟨inside_iff.2 ⟨e, he, hmem⟩, ?_⟩, fun j' s' hs' hmem' => ?_⟩
  · -- The terminal inside the first region lies outside the second.
    rcases inside_iff.1 hx with ⟨e', he', hin⟩
    refine ⟨x, ?_, e', he', fun hin' => hne (hp.apart j i s r hs hr e' hin' hin)⟩
    rw [(h.same_of_mem_ports hy).1]
    exact h.mem_ports_self (Graph.hasTerminal_of_edge? he')
  · exact hp.apart j' j s' s hs' hs e hmem' hmem

end Boundary

end MessagePlan
