import MessagePlan.Proofs.Dependency.Components
import MessagePlan.Proofs.Schedule.Order
import MessagePlan.Proofs.Steps

/-!
# The Loops Listed Are the Loops Met

A schedule is refused at the first loop that its traversal runs into. The list of loops is made in
another way, from the components of a table of all dependencies, and no scope is asked for. Both are
about `Needs` all the same: the table has a link exactly where a message is needed that is there
neither as a message nor because the terminal counts as primed. `NeedsUnprimed` is that relation,
and the loops of the table are its loops, turned round because a link leads from what is needed.

Nothing is asked of what finds the components but that it does, and the loops listed do not depend
on it: each is the list of the terminals together with one of its own, in ascending order, and the
lists are in the order of their first terminals, which are different since no terminal is in two.

So a terminal that a refusal names is in one of the lists. A scope leaves needs out and adds none,
and a loop in a region is a loop without one. And a schedule for a member of a list is refused, for
it would be in order and hold the loop. Only the loops are compared in this way; a terminal without
a partner keeps schedules from being found as well, and lists of loops say nothing about it.

## Main definitions

* `NeedsUnprimed`: What a terminal needs while some terminals count as primed.
* `Graph.needed`, `Graph.needGraph`: The needs of a terminal as a list, and of all as a graph.
* `LoopAt`: The ascending list of the terminals that depend on one and that it depends on.
* `Ascending`: Lists are ascending, and in the order of their least terminals.

## Theorems

* `dependencies_eq_ok`, `mem_dependencies`: The table of dependencies has exactly the needs.
* `ascending_mergeSort`: Lists without a common terminal are sorted by their least terminals.
* `linked_needGraph`, `loopAt_of_component`: Links are needs, and a component with a terminal on a
  loop is its loop.
* `loopsWith_eq`, `loopsWith_eq_ok`: The loops listed are those of needs.
* `unbrokenLoops_eq_ok`: With nothing primed they are those of the terminals on loops.
* `OnLoop.schedule_eq_error`: A terminal on a loop has no schedule.
* `exists_schedule_of_not_onLoop`: Without loops and loose terminals there are schedules.
* `loops_agree_with_schedule`: The loops listed are those that schedules are refused for.
-/

namespace MessagePlan

open Relation Dependency

/-- The message out of `p` is needed for `x`, and `p` does not count as primed. -/
def NeedsUnprimed (g : Graph) (primed : Std.HashSet TerminalId) (x p : TerminalId) : Prop :=
  Needs g none x p ∧ p ∉ primed

/-- The ascending list of the terminals that one depends on and that depend on it, while some
    terminals count as primed. -/
structure LoopAt (g : Graph) (primed : Std.HashSet TerminalId) (x : TerminalId)
    (xs : List TerminalId) : Prop where
  sorted : xs.Pairwise fun y z => y.index < z.index
  mem_iff : ∀ y, y ∈ xs ↔
    TransGen (NeedsUnprimed g primed) x y ∧ TransGen (NeedsUnprimed g primed) y x

/-- Each of some lists of terminals is ascending, and they are in the order of their least
    terminals. -/
structure Ascending (ls : List (List TerminalId)) : Prop where
  members : ∀ xs ∈ ls, xs.Pairwise fun y z => y.index < z.index
  lists : ls.Pairwise fun xs ys => ∃ x ∈ xs, ∀ y ∈ ys, x.index < y.index

variable {ε : Type} {g : Graph} {primed : Std.HashSet TerminalId} {x y p : TerminalId}
  {components : Digraph → List (List Nat)}

/-! ### The table of dependencies -/

theorem neededAt_none : NeededAt g none y p ↔ g.partner? y = some p ∧ g.message? p = none :=
  ⟨fun h => h.2, fun h => ⟨fun _ hr => absurd hr.symm (Option.some_ne_none _), h⟩⟩

theorem Needs.hasTerminal_self {scope : Option Region} (h : g.WellFormed)
    (hneed : Needs g scope x p) : g.hasTerminal x = true := by
  rcases hneed with ⟨y, hy, _⟩
  rcases h.mem_ports hy with ⟨n, hn, _⟩
  exact Graph.hasTerminal_of_nodeIdOf? hn

/-- The partner of a terminal, if its message is not there and it does not count as primed. -/
def Graph.unprimedAt? (g : Graph) (primed : Std.HashSet TerminalId) (y : TerminalId) :
    Option TerminalId :=
  (g.partner? y).filter fun p => (g.message? p).isNone && !primed.contains p

theorem unprimedAt?_eq_some : g.unprimedAt? primed y = some p ↔
    NeededAt g none y p ∧ p ∉ primed := by
  rw [Graph.unprimedAt?, Option.filter_eq_some_iff, neededAt_none, Bool.and_eq_true,
    Option.isNone_iff_eq_none, Bool.not_eq_true', ← Bool.not_eq_true, Std.HashSet.contains_iff_mem,
    and_assoc]

/-- What is needed at the other terminals of a node. -/
def Graph.needed (g : Graph) (primed : Std.HashSet TerminalId) (x : TerminalId) :
    List TerminalId :=
  ((g.ports x).filter fun y => decide (y ≠ x)).filterMap (g.unprimedAt? primed)

theorem mem_needed : p ∈ g.needed primed x ↔ NeedsUnprimed g primed x p := by
  simp only [Graph.needed, List.mem_filterMap, List.mem_filter, decide_eq_true_eq,
    unprimedAt?_eq_some]
  constructor
  · rintro ⟨y, ⟨hy, hne⟩, hat, hnot⟩
    exact ⟨⟨y, hy, hne, hat⟩, hnot⟩
  · rintro ⟨⟨y, hy, hne, hat⟩, hnot⟩
    exact ⟨y, ⟨hy, hne⟩, hat, hnot⟩

/-- Going through the terminals of a node finds what is needed at each of the others. -/
theorem dependenciesOf_eq_ok (h : g.WellFormed) (primed : Std.HashSet TerminalId)
    (x : TerminalId) {ys : List TerminalId} (hys : ∀ y ∈ ys, g.hasTerminal y = true) :
    (g.dependenciesOf primed x ys : Except (Failure ε) (List TerminalId)) =
      .ok ((ys.filter fun y => decide (y ≠ x)).filterMap (g.unprimedAt? primed)) := by
  induction ys with
  | nil => rfl
  | cons y ys ih =>
    have hrest := ih fun z hz => hys z (List.mem_cons_of_mem y hz)
    rw [Graph.dependenciesOf]
    by_cases hyx : y = x
    · rw [if_pos hyx, hrest, List.filter_cons_of_neg (by simpa using hyx)]
    rw [if_neg hyx, List.filter_cons_of_pos (by simpa using hyx)]
    rcases Graph.terminal_eq_ok (ε := ε) (hys y List.mem_cons_self) with
      ⟨terminal, hget, _, hpartner, _⟩
    rw [hget, ok_bind, ← hpartner, List.filterMap_cons, Graph.unprimedAt?]
    cases hq : g.partner? y with
    | none => exact hrest
    | some q =>
      simp only [hasMessage_eq_ok (ε := ε) (h.hasTerminal_of_partner? hq), hrest, ok_bind,
        Option.filter_some]
      -- The message is there, or counts as there, or is needed.
      cases g.message? q <;> cases primed.contains q <;> rfl

/-- The table of dependencies has a link for everything that is needed at a terminal. -/
theorem dependencies_eq_ok (h : g.WellFormed) (primed : Std.HashSet TerminalId) :
    (g.dependencies primed : Except (Failure ε) (List (TerminalId × TerminalId))) =
      .ok (g.terminalIds.flatMap fun x => (g.needed primed x).map fun p => (p, x)) := by
  rw [Graph.dependencies, mapM_eq_ok_map (k := fun x => (g.needed primed x).map fun p => (p, x))]
  · rfl
  intro x hx
  rcases List.mem_map.1 hx with ⟨i, hi, rfl⟩
  rcases h.ownerOf_eq_ok (ε := ε) (Graph.hasTerminal_iff.2 (List.mem_range.1 hi)) with
    ⟨node, hnode, hports, _⟩
  rw [hnode, ok_bind, hports,
    dependenciesOf_eq_ok h primed _ fun y hy => h.hasTerminal_of_mem_ports hy, ok_bind]
  rfl

/-- The table of dependencies has exactly the needs. -/
theorem mem_dependencies (h : g.WellFormed) :
    (p, x) ∈ (g.terminalIds.flatMap fun x => (g.needed primed x).map fun p => (p, x)) ↔
      NeedsUnprimed g primed x p := by
  rw [List.mem_flatMap]
  constructor
  · rintro ⟨z, _, hp⟩
    rcases List.mem_map.1 hp with ⟨q, hq, heq⟩
    rcases Prod.mk.inj heq with ⟨rfl, rfl⟩
    exact mem_needed.1 hq
  · intro hneed
    -- What needs something is a terminal of the graph, so that its needs are in the table.
    have hthere := hneed.1.hasTerminal_self h
    refine ⟨x, List.mem_map.2 ⟨x.index, List.mem_range.2 (Graph.hasTerminal_iff.1 hthere), rfl⟩, ?_⟩
    exact List.mem_map.2 ⟨p, mem_needed.2 hneed, rfl⟩

/-! ### Ascending lists of terminals -/

/-- What is sorted by comparing is in order. -/
theorem pairwise_mergeSort_compare {α : Type} [Ord α] [Std.TransOrd α] (xs : List α) :
    (xs.mergeSort fun a b => (compare a b).isLE).Pairwise fun a b => (compare a b).isLE = true := by
  refine List.pairwise_mergeSort (fun a b c => Std.TransCmp.isLE_trans) (fun a b => ?_) xs
  have hswap : compare b a = (compare a b).swap := Std.OrientedCmp.eq_swap
  rw [hswap]
  cases compare a b <;> rfl

theorem mem_ascending {xs : List TerminalId} : x ∈ TerminalId.ascending xs ↔ x ∈ xs :=
  List.mem_mergeSort

/-- Different terminals are sorted into an ascending list. -/
theorem pairwise_ascending {xs : List TerminalId} (hxs : xs.Nodup) :
    (TerminalId.ascending xs).Pairwise fun y z => y.index < z.index := by
  have hle : (TerminalId.ascending xs).Pairwise fun y z => (compare y z).isLE = true :=
    pairwise_mergeSort_compare xs
  have hne : (TerminalId.ascending xs).Nodup := (List.mergeSort_perm _ _).nodup_iff.2 hxs
  refine (hle.and hne).imp fun {y z} hyz => ?_
  have hindex : y.index ≠ z.index := fun heq => hyz.2 (TerminalId.eq_of_index_eq heq)
  exact Nat.lt_of_le_of_ne (TerminalId.isLE_compare.1 hyz.1) hindex

/-- Of two lists in order, neither begins with a terminal behind the first one of the other. -/
theorem index_le_of_isLE_compare {ys zs : List TerminalId}
    (h : (compare (y :: ys) (p :: zs)).isLE = true) : y.index ≤ p.index := by
  rw [List.compare_cons_cons, Ordering.isLE_then_iff_and] at h
  exact TerminalId.isLE_compare.1 h.1

/-- Ascending lists without a terminal in common are sorted by their least terminals. -/
theorem ascending_mergeSort {ls : List (List TerminalId)}
    (hls : ∀ xs ∈ ls, (xs.Pairwise fun y z => y.index < z.index) ∧ xs ≠ [])
    (hdisjoint : ls.Pairwise List.Disjoint) :
    Ascending (ls.mergeSort fun xs ys => (compare xs ys).isLE) := by
  have hle := pairwise_mergeSort_compare ls
  have hapart : (ls.mergeSort fun xs ys => (compare xs ys).isLE).Pairwise List.Disjoint :=
    (List.mergeSort_perm _ _).symm.pairwise hdisjoint List.disjoint_symm
  refine ⟨fun xs hxs => (hls xs (List.mem_mergeSort.1 hxs)).1, ?_⟩
  refine (hle.and hapart).imp_of_mem fun {xs ys} hxs hys hboth => ?_
  rcases hls xs (List.mem_mergeSort.1 hxs) with ⟨_, hxs⟩
  rcases hls ys (List.mem_mergeSort.1 hys) with ⟨hsorted, hys⟩
  match xs, ys, hxs, hys with
  | y :: xs, z :: ys, _, _ =>
    -- Both are ascending, so the first terminals are the least, and they are not the same.
    have hyz := index_le_of_isLE_compare hboth.1
    have hne : y.index ≠ z.index := fun heq =>
      hboth.2 List.mem_cons_self (TerminalId.eq_of_index_eq heq ▸ List.mem_cons_self)
    refine ⟨y, List.mem_cons_self, fun w hw => ?_⟩
    rcases List.mem_cons.1 hw with rfl | hw
    · omega
    · have := (List.pairwise_cons.1 hsorted).1 w hw
      omega

/-! ### The loops of the table -/

/-- The graph that loops are looked for in, with a link from what is needed to each terminal that
    needs it. -/
def Graph.needGraph (g : Graph) (primed : Std.HashSet TerminalId) : Digraph :=
  Digraph.ofLinks g.terminals.size
    ((g.terminalIds.flatMap fun x => (g.needed primed x).map fun p => (p, x)).map
      fun l => (l.1.index, l.2.index))

theorem mirrored_needGraph (h : g.WellFormed) (primed : Std.HashSet TerminalId) :
    (g.needGraph primed).Mirrored := by
  refine Digraph.mirrored_ofLinks fun l hl => ?_
  rcases List.mem_map.1 hl with ⟨⟨p, x⟩, hpx, rfl⟩
  have hneed := ((mem_dependencies h).1 hpx).1
  exact ⟨Graph.hasTerminal_iff.1 (hneed.hasTerminal h),
    Graph.hasTerminal_iff.1 (hneed.hasTerminal_self h)⟩

/-- A link leads from what is needed to the terminal that needs it. -/
theorem linked_needGraph (h : g.WellFormed) :
    (g.needGraph primed).Linked p.index x.index ↔ NeedsUnprimed g primed x p := by
  rw [← mem_dependencies h, Digraph.Linked, Graph.needGraph, Digraph.mem_next_ofLinks,
    List.mem_map]
  constructor
  · rintro ⟨_, ⟨q, z⟩, hqz, heq⟩
    rcases Prod.mk.inj heq with ⟨hp, hx⟩
    have hend : ∀ {a b : TerminalId}, a.index = b.index → a = b := congrArg TerminalId.mk
    exact hend hp ▸ hend hx ▸ hqz
  · intro hpx
    have hneed := ((mem_dependencies h).1 hpx).1
    exact ⟨Graph.hasTerminal_iff.1 (hneed.hasTerminal h), _, hpx, rfl⟩

theorem transGen_needGraph (h : g.WellFormed) :
    TransGen (g.needGraph primed).Linked x.index y.index ↔
      TransGen (NeedsUnprimed g primed) y x := by
  rw [← transGen_swap]
  constructor
  · intro hto
    refine hto.lift TerminalId.mk fun u v hlink => ?_
    exact (linked_needGraph (p := ⟨v⟩) (x := ⟨u⟩) h).1 hlink
  · intro hto
    refine hto.lift TerminalId.index fun u v hneed => ?_
    exact (linked_needGraph (p := v) (x := u) h).2 hneed

/-- A component of that graph with a terminal on a loop is the loop of the terminal. -/
theorem loopAt_of_component (h : g.WellFormed) {components : List (List Nat)}
    (hcomponents : (g.needGraph primed).AreComponents components) {c : List Nat}
    (hc : c ∈ components) (hx : x.index ∈ c) (hcycle : (g.needGraph primed).OnCycle x.index) :
    LoopAt g primed x (TerminalId.ascending (c.map TerminalId.mk)) := by
  have hnodup := (List.nodup_flatten.1 hcomponents.nodup).1 c hc
  refine ⟨pairwise_ascending (hnodup.map fun a b => congrArg TerminalId.index), fun y => ?_⟩
  rw [← transGen_needGraph h, ← transGen_needGraph h, and_comm, ← Digraph.Together,
    ← hcomponents.mem_iff_together hc hx hcycle, mem_ascending, List.mem_map]
  constructor
  · rintro ⟨u, hu, rfl⟩
    exact hu
  · exact fun hy => ⟨y.index, hy, rfl⟩

/-- What is listed, whatever finds the components: of those whose vertices are on loops, the
    terminals that they stand for, both sorted. -/
theorem loopsWith_eq (hcomponents : FindsComponents components) (h : g.WellFormed)
    (primed : Std.HashSet TerminalId) :
    ∃ cs : List (List Nat),
      (g.loopsWith components primed : Except (Failure ε) (List (List TerminalId))) =
        .ok ((cs.map fun c => TerminalId.ascending (c.map TerminalId.mk)).mergeSort
          fun xs ys => (compare xs ys).isLE) ∧
      cs.Sublist (components (g.needGraph primed)) ∧
      ∀ c, c ∈ cs ↔ c ∈ components (g.needGraph primed) ∧
        ∀ v ∈ c, (g.needGraph primed).OnCycle v := by
  have hall := hcomponents _ (mirrored_needGraph h primed)
  obtain ⟨k, hk⟩ : ∃ k : List Nat → Bool,
      ∀ c, k c = true ↔ ∀ v ∈ c, (g.needGraph primed).OnCycle v := by
    classical exact ⟨fun c => decide _, fun c => decide_eq_true_iff⟩
  have hloops : (components (g.needGraph primed)).filterM (g.needGraph primed).isLoop =
      (.ok ((components (g.needGraph primed)).filter k) : Except (Failure ε) _) := by
    refine filterM_eq_ok_filter fun c hc => ?_
    rcases hall.isLoop_eq_ok (ε := ε) hc with ⟨b, hb, hiff⟩
    rw [hb, Bool.eq_iff_iff.2 (hiff.trans (hk c).symm)]
  -- The vertices of components are terminals.
  have hmembers : ((components (g.needGraph primed)).filter k).mapM (·.mapM g.terminalOf) =
      (.ok (((components (g.needGraph primed)).filter k).map (·.map TerminalId.mk)) :
        Except (Failure ε) _) :=
    mapM_eq_ok_map fun c hc => mapM_eq_ok_map fun v hv =>
      if_pos (hall.lt_size c (List.mem_of_mem_filter hc) v hv)
  refine ⟨(components (g.needGraph primed)).filter k, ?_, List.filter_sublist, fun c => ?_⟩
  · rw [Graph.loopsWith, dependencies_eq_ok h primed, ok_bind]
    change ((components (g.needGraph primed)).filterM (g.needGraph primed).isLoop >>= fun loops =>
      loops.mapM (·.mapM g.terminalOf) >>= fun members => .ok _) = _
    rw [hloops, ok_bind, hmembers, ok_bind, List.map_map]
    rfl
  · rw [List.mem_filter, hk]

/-- Every list of loops is the loop of a terminal on one, and each of these has its list, while
    some terminals count as primed. The lists are in the order of their least terminals. -/
theorem loopsWith_eq_ok (hcomponents : FindsComponents components) (h : g.WellFormed)
    (primed : Std.HashSet TerminalId) :
    ∃ ls, (g.loopsWith components primed : Except (Failure ε) (List (List TerminalId))) = .ok ls ∧
      Ascending ls ∧
      (∀ xs ∈ ls, ∃ x, TransGen (NeedsUnprimed g primed) x x ∧ LoopAt g primed x xs) ∧
      ∀ x, TransGen (NeedsUnprimed g primed) x x → ∃ xs ∈ ls, LoopAt g primed x xs := by
  have hd := mirrored_needGraph h primed
  have hall := hcomponents _ hd
  rcases loopsWith_eq (ε := ε) hcomponents h primed with ⟨cs, hls, hsub, hcs⟩
  have hlists : ∀ xs, xs ∈ (cs.map fun c => TerminalId.ascending (c.map TerminalId.mk)).mergeSort
      (fun xs ys => (compare xs ys).isLE) ↔
      ∃ c ∈ cs, TerminalId.ascending (c.map TerminalId.mk) = xs := by
    intro xs
    rw [List.mem_mergeSort, List.mem_map]
  have hloop : ∀ xs, (∃ c ∈ cs, TerminalId.ascending (c.map TerminalId.mk) = xs) →
      ∃ x, TransGen (NeedsUnprimed g primed) x x ∧ LoopAt g primed x xs := by
    rintro xs ⟨c, hc, rfl⟩
    rcases (hcs c).1 hc with ⟨hmem, hcycle⟩
    rcases List.exists_mem_of_ne_nil c (hall.nonempty c hmem) with ⟨v, hv⟩
    exact ⟨⟨v⟩, (transGen_needGraph h).1 (hcycle v hv),
      loopAt_of_component (x := ⟨v⟩) h hall hmem hv (hcycle v hv)⟩
  refine ⟨_, hls, ?_, fun xs hxs => hloop xs ((hlists xs).1 hxs), fun x hx => ?_⟩
  · refine ascending_mergeSort (fun xs hxs => ?_) ?_
    · rcases hloop xs (List.mem_map.1 hxs) with ⟨x, hx, hat⟩
      exact ⟨hat.sorted, List.ne_nil_of_mem ((hat.mem_iff x).2 ⟨hx, hx⟩)⟩
    · -- Components have no vertex in common, so their terminals are different ones.
      have hdisjoint := ((List.nodup_flatten.1 hall.nodup).2.sublist hsub)
      refine List.pairwise_map.2 (hdisjoint.imp fun {c c'} hcc' y hy hy' => ?_)
      rcases List.mem_map.1 (mem_ascending.1 hy) with ⟨u, hu, rfl⟩
      rcases List.mem_map.1 (mem_ascending.1 hy') with ⟨u', hu', heq⟩
      rcases TerminalId.mk.inj heq with rfl
      exact hcc' hu hu'
  · have hcycle : (g.needGraph primed).OnCycle x.index := (transGen_needGraph h).2 hx
    rcases hall.covers x.index (hcycle.lt_size hd) with ⟨c, hc, hxc⟩
    refine ⟨_, (hlists _).2 ⟨c, (hcs c).2 ⟨hc, fun v hv => ?_⟩, rfl⟩,
      loopAt_of_component h hall hc hxc hcycle⟩
    exact ((hall.mem_iff_together hc hxc hcycle).1 hv).symm.onCycle

theorem needsUnprimed_empty : NeedsUnprimed g ∅ = Needs g none := by
  funext x p
  exact propext ⟨fun h => h.1, fun h => ⟨h, Std.HashSet.not_mem_empty⟩⟩

/-- The members of the lists of unbroken loops are the terminals on loops. -/
theorem unbrokenLoops_eq_ok (hcomponents : FindsComponents components) (h : g.WellFormed) :
    ∃ ls, (g.unbrokenLoops components : Except (Failure ε) (List (List TerminalId))) = .ok ls ∧
      Ascending ls ∧
      (∀ xs ∈ ls, ∃ x, LoopAt g ∅ x xs ∧ x ∈ xs) ∧
      ∀ x, OnLoop g none x ↔ ∃ xs ∈ ls, x ∈ xs := by
  rcases loopsWith_eq_ok (ε := ε) hcomponents h ∅ with ⟨ls, hls, hsorted, hlists, hloops⟩
  refine ⟨ls, hls, hsorted, fun xs hxs => ?_, fun x => ⟨fun hx => ?_, ?_⟩⟩
  · -- Whatever lies on a loop with itself is listed in it.
    rcases hlists xs hxs with ⟨x, hcycle, hat⟩
    exact ⟨x, hat, (hat.mem_iff x).2 ⟨hcycle, hcycle⟩⟩
  · rw [OnLoop, ← needsUnprimed_empty] at hx
    rcases hloops x hx with ⟨xs, hxs, hat⟩
    exact ⟨xs, hxs, (hat.mem_iff x).2 ⟨hx, hx⟩⟩
  · rintro ⟨xs, hxs, hx⟩
    rcases hlists xs hxs with ⟨y, _, hat⟩
    -- Around the loop, back to where it began, is a way to `x` itself.
    rcases (hat.mem_iff x).1 hx with ⟨hto, hback⟩
    rw [OnLoop, ← needsUnprimed_empty]
    exact hback.trans hto

theorem unbrokenLoops_eq_nil (hcomponents : FindsComponents components) (h : g.WellFormed)
    (hnone : ∀ x, ¬ OnLoop g none x) :
    (g.unbrokenLoops components : Except (Failure ε) (List (List TerminalId))) = .ok [] := by
  rcases unbrokenLoops_eq_ok (ε := ε) hcomponents h with ⟨ls, hls, _, hlists, hmem⟩
  have hnil : ls = [] := by
    refine List.eq_nil_iff_forall_not_mem.2 fun xs hxs => ?_
    rcases hlists xs hxs with ⟨x, _, hx⟩
    exact hnone x ((hmem x).2 ⟨xs, hxs, hx⟩)
  rw [hls, hnil]

/-! ### Loops and schedules -/

/-- A region leaves needs out and adds none, so that a loop in it is a loop without one. -/
theorem OnLoop.of_scope {scope : Option Region} (hx : OnLoop g scope x) : OnLoop g none x := by
  refine TransGen.mono (fun y p hneed => ?_) _ _ hx
  rcases hneed with ⟨z, hz, hne, hat⟩
  exact ⟨z, hz, hne, neededAt_none.2 hat.2⟩

/-- No schedule can be found for a terminal on a loop, and the refusal has a cause. -/
theorem OnLoop.schedule_eq_error {scope : Option Region} (hg : Reachable g)
    (hx : OnLoop g scope x) : ∃ e, g.schedule x scope = .error (.cause e) := by
  cases hr : g.schedule x scope with
  | ok r =>
    rcases visited_of_schedule hg hr with ⟨u, hu, _⟩
    exact absurd hx (hu.inOrder.not_onLoop (Array.mem_toList_iff.2 hu.mem_order))
  | error e =>
    rcases stuck_of_schedule hg hr with ⟨_, rfl⟩ | ⟨_, y, _, hstuck⟩
    · exact ⟨_, rfl⟩
    · cases hstuck with
      | loose z l _ _ => exact ⟨_, rfl⟩
      | loop p l _ _ _ => exact ⟨_, rfl⟩

/-- Where every terminal has a partner, only loops keep schedules from being found. -/
theorem exists_schedule_of_not_onLoop (hg : Reachable g)
    (hjoined : ∀ y, g.hasTerminal y = true → g.partner? y ≠ none) {scope : Option Region}
    (hnone : ∀ x, ¬ OnLoop g scope x) (hx : g.hasTerminal x = true) :
    ∃ r, g.schedule x scope = .ok r := by
  cases hr : g.schedule x scope with
  | ok r => exact ⟨r, rfl⟩
  | error e =>
    -- A refusal would name an unknown target, a loose terminal or a loop, and there are none.
    rcases stuck_of_schedule hg hr with ⟨hnot, _⟩ | ⟨_, y, _, hstuck⟩
    · exact absurd (hx.symm.trans hnot) (by decide)
    · cases hstuck with
      | loose z l hz _ =>
        have hthere := (Graph.wellFormed_of_reachable hg).hasTerminal_of_mem_ports hz.1
        exact absurd hz.2.2 (hjoined z hthere)
      | loop p l _ hloop _ => exact absurd hloop (hnone p)

/-- The loops listed, with whatever finds components, are those that schedules are refused for: a
    refusal that names a loop names a member of one of the lists, whatever its scope, and members of
    the lists have no schedule. The lists are ascending, in the order of their least terminals.
    Where every terminal has a partner, there is no list exactly if all terminals have a
    schedule. -/
theorem loops_agree_with_schedule (hcomponents : FindsComponents components)
    (hg : Reachable g) :
    ∃ ls, (g.unbrokenLoops components : Except (Failure ε) (List (List TerminalId))) = .ok ls ∧
      Ascending ls ∧
      (∀ t scope x l, g.schedule t scope = .error (.cause (.unbrokenLoop x l)) →
        ∃ xs ∈ ls, x ∈ xs) ∧
      (∀ xs ∈ ls, ∀ t ∈ xs, ∃ e, g.schedule t none = .error (.cause e)) ∧
      ((∀ x, g.hasTerminal x = true → g.partner? x ≠ none) →
        (ls = [] ↔ ∀ t, g.hasTerminal t = true → ∃ r, g.schedule t none = .ok r)) := by
  have h := Graph.wellFormed_of_reachable hg
  rcases unbrokenLoops_eq_ok (ε := ε) hcomponents h with ⟨ls, hls, hsorted, hlists, hmem⟩
  have hfail : ∀ xs ∈ ls, ∀ t ∈ xs, ∃ e, g.schedule t none = .error (.cause e) :=
    fun xs hxs t ht => ((hmem t).2 ⟨xs, hxs, ht⟩).schedule_eq_error hg
  refine ⟨ls, hls, hsorted, fun t scope x l hx => ?_, hfail,
    fun hjoined => ⟨fun hnil t ht => ?_, ?_⟩⟩
  · -- A refusal for a loop names a terminal on one in the scope it was given.
    rcases stuck_of_schedule hg hx with ⟨_, heq⟩ | ⟨_, y, _, hstuck⟩
    · exact nomatch heq
    · cases hstuck with
      | loop _ _ _ hloop _ => exact (hmem x).1 hloop.of_scope
  · refine exists_schedule_of_not_onLoop hg hjoined (fun p hp => ?_) ht
    rcases (hmem p).1 hp with ⟨xs, hxs, _⟩
    rw [hnil] at hxs
    exact absurd hxs List.not_mem_nil
  · intro hall
    refine List.eq_nil_iff_forall_not_mem.2 fun xs hxs => ?_
    -- A list has a member, which exists and has no schedule.
    rcases hlists xs hxs with ⟨x, _, hx⟩
    have hthere : g.hasTerminal x = true := by
      rcases TransGen.tail'_iff.1 ((hmem x).2 ⟨xs, hxs, hx⟩) with ⟨y, _, hneed⟩
      exact hneed.hasTerminal h
    rcases hall x hthere with ⟨r, hr⟩
    rcases hfail xs hxs x hx with ⟨e, he⟩
    rw [hr] at he
    exact nomatch he

/-- Every terminal of the ring of three nodes has a partner. -/
theorem partner?_primedRing (x : TerminalId) (hx : primedRing.hasTerminal x = true) :
    primedRing.partner? x ≠ none := by
  have hsize : primedRing.terminals.size = 6 := by decide +kernel
  have hall : ∀ i < 6, primedRing.partner? ⟨i⟩ ≠ none := by decide +kernel
  exact hall x.index (hsize ▸ Graph.hasTerminal_iff.1 hx)

/-- The message in the ring breaks its loop in one direction, and in the other there is one. -/
theorem onLoop_primedRing : OnLoop primedRing none ⟨0⟩ := by
  have h02 : Needs primedRing none ⟨0⟩ ⟨2⟩ :=
    ⟨⟨1⟩, by decide +kernel, by decide, neededAt_none.2 (by decide +kernel)⟩
  have h24 : Needs primedRing none ⟨2⟩ ⟨4⟩ :=
    ⟨⟨3⟩, by decide +kernel, by decide, neededAt_none.2 (by decide +kernel)⟩
  have h40 : Needs primedRing none ⟨4⟩ ⟨0⟩ :=
    ⟨⟨5⟩, by decide +kernel, by decide, neededAt_none.2 (by decide +kernel)⟩
  exact .tail (.tail (.single h02) h24) h40

/-- In the ring there is an unbroken loop, and the terminal that holds the message is on none. -/
theorem loops_agree_with_schedule_ring :
    ∃ ls, (primedRing.unbrokenLoops Digraph.components : Except (Failure ScheduleError) _) =
        .ok ls ∧ ls ≠ [] ∧ ∀ xs ∈ ls, ⟨5⟩ ∉ xs := by
  rcases loops_agree_with_schedule (ε := ScheduleError) findsComponents reachable_primedRing with
    ⟨ls, hls, _, _, hfail, hnone⟩
  refine ⟨ls, hls, fun hnil => ?_, fun xs hxs hmem => ?_⟩
  · -- Without a loop the first terminal would have a schedule.
    rcases (hnone partner?_primedRing).1 hnil ⟨0⟩ (by decide +kernel) with ⟨r, hr⟩
    rcases onLoop_primedRing.schedule_eq_error reachable_primedRing with ⟨e, he⟩
    rw [hr] at he
    exact nomatch he
  · have hr : primedRing.schedule ⟨5⟩ none = .ok [⟨1⟩, ⟨3⟩, ⟨5⟩] :=
      schedule_eq_of_scheduleWithin 12 (by decide +kernel)
    rcases hfail xs hxs ⟨5⟩ hmem with ⟨e, he⟩
    rw [hr] at he
    exact nomatch he

end MessagePlan
