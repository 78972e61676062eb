import Mathlib.Logic.ExistsUnique
import MessagePlan.Proofs.Partition.Division
import MessagePlan.Proofs.Schedule.Regional

/-!
# Groups That Make a Partition

Groups of edges make a partition if they list every edge of the graph once. Nothing else is asked
of them: a group may be empty, and how the edges are shared out is free. So whether a partition is
made depends only on the edges in the order in which the groups are read, one behind the other, and
so does what is refused.

Reading stops at the first edge that is not there or was read before; `Stops` names it, with what is
said of it. A list read to its end is `Clean`, and it may still lack an edge, of which the least is
named by `Lacks`. A list has at most one of these faults, and a list without one is a permutation of
the edges of the graph.

In the partition that is made, the region in a place has the edges of the group in that place, and
the table of regions leads from each edge back to it. An outer edge of a region is one of another
region that meets it at a node. Two regions that meet see each other there: the node is at the
boundary of both.

## Main definitions

* `Graph.Clean`: A list of edges that are there, none of them twice.
* `Graph.Stops`, `Graph.Lacks`: What is wrong with a list, and what is said of it.
* `Graph.Touches`: An edge has a side at a node.

## Theorems

* `Stops.unique`, `Lacks.unique`: A list has one fault.
* `clean_and_covers_iff`: A list without a fault is a permutation of the edges.
* `assign_cases_read`, `assignAll_cases_read`: Edges are assigned up to the first fault.
* `exists_outerEdges`: Outer edges can always be found.
* `ofGroups_cases`: A partition is made, or its fault is named.
* `regions_of_groups`, `regionOf?_eq_some_iff`: The regions are the groups, and the table has them.
* `meets_iff`, `exists_boundary_of_touches`: Where an edge touches a region from outside.
* `ofGroups_divides_edges`: What is accepted, what is refused, and what is made.
-/

namespace MessagePlan

namespace Graph

/-- A list of edges that are there, none of them listed twice. -/
def Clean (g : Graph) (es : List EdgeId) : Prop := es.Nodup ∧ ∀ e ∈ es, g.hasEdge e = true

/-- What stops the reading of a list of edges: the first that is not there or was listed before. -/
inductive Stops (g : Graph) (es : List EdgeId) : PartitionError → Prop
  | unknown (before : List EdgeId) (e : EdgeId) (after : List EdgeId)
      (hsplit : es = before ++ e :: after) (hbefore : g.Clean before) (he : g.hasEdge e = false) :
      Stops g es (.unknownEdge e)
  | repeated (before : List EdgeId) (e : EdgeId) (after : List EdgeId) (edge : Edge)
      (hsplit : es = before ++ e :: after) (hbefore : g.Clean before) (he : e ∈ before)
      (hedge : g.edges[e.index]? = some edge) : Stops g es (.overlapping e edge.name)

/-- What a list of edges lacks: the least edge that is not in it. -/
inductive Lacks (g : Graph) (es : List EdgeId) : PartitionError → Prop
  | uncovered (e : EdgeId) (edge : Edge) (hedge : g.edges[e.index]? = some edge) (he : e ∉ es)
      (hleast : ∀ f, g.hasEdge f = true → f ∉ es → e.index ≤ f.index) :
      Lacks g es (.uncovered e edge.name)

/-- An edge has a side at a node. -/
def Touches (g : Graph) (e : EdgeId) (n : NodeId) : Prop :=
  ∃ y, g.edge? y = some e ∧ g.nodeIdOf? y = some n

end Graph

variable {g : Graph} {es before after : List EdgeId} {e : EdgeId} {c : PartitionError}

/-! ### Faults of a list -/

theorem Graph.clean_nil : g.Clean [] :=
  ⟨List.nodup_nil, fun _ he => absurd he List.not_mem_nil⟩

theorem Graph.Clean.of_append (h : g.Clean (before ++ after)) : g.Clean before :=
  ⟨(List.nodup_append.1 h.1).1, fun e he => h.2 e (List.mem_append_left after he)⟩

theorem Graph.Clean.concat (h : g.Clean es) (hthere : g.hasEdge e = true) (he : e ∉ es) :
    g.Clean (es ++ [e]) := by
  constructor
  · refine List.nodup_append.2 ⟨h.1, List.nodup_cons.2 ⟨List.not_mem_nil, List.nodup_nil⟩, ?_⟩
    intro f hf f' hf' heq
    rw [heq, List.mem_singleton.1 hf'] at hf
    exact he hf
  · intro f hf
    rcases List.mem_append.1 hf with hf | hf
    · exact h.2 f hf
    · rw [List.mem_singleton.1 hf]
      exact hthere

/-- What stops the reading of a list stops it whatever follows. -/
theorem Graph.Stops.append (h : g.Stops es c) (more : List EdgeId) : g.Stops (es ++ more) c := by
  cases h with
  | unknown before e after hsplit hbefore he =>
    refine .unknown before e (after ++ more) ?_ hbefore he
    rw [hsplit, List.append_assoc, List.cons_append]
  | repeated before e after edge hsplit hbefore he hedge =>
    refine .repeated before e (after ++ more) edge ?_ hbefore he hedge
    rw [hsplit, List.append_assoc, List.cons_append]

theorem Graph.not_clean_of_unknown (he : g.hasEdge e = false) : ¬ g.Clean (before ++ [e]) := by
  intro hclean
  rw [hclean.2 e (List.mem_append_right before List.mem_cons_self)] at he
  exact nomatch he

theorem Graph.not_clean_of_mem (he : e ∈ before) : ¬ g.Clean (before ++ [e]) := by
  intro hclean
  exact (List.nodup_append.1 hclean.1).2.2 e he e List.mem_cons_self rfl

theorem Graph.hasEdge_of_getElem? {edge : Edge} (hedge : g.edges[e.index]? = some edge) :
    g.hasEdge e = true :=
  decide_eq_true (Array.getElem?_eq_some_iff.1 hedge).1

theorem Graph.getElem?_of_hasEdge (he : g.hasEdge e = true) :
    ∃ edge, g.edges[e.index]? = some edge :=
  ⟨_, Array.getElem?_eq_getElem (of_decide_eq_true he)⟩

/-- Reading stops behind a clean list, at an edge that does not leave it clean. -/
theorem Graph.Stops.exists_split (h : g.Stops es c) :
    ∃ before e after, es = before ++ e :: after ∧ g.Clean before ∧ ¬ g.Clean (before ++ [e]) := by
  cases h with
  | unknown before e after hsplit hbefore he =>
    exact ⟨before, e, after, hsplit, hbefore, not_clean_of_unknown he⟩
  | repeated before e after edge hsplit hbefore he _ =>
    exact ⟨before, e, after, hsplit, hbefore, not_clean_of_mem he⟩

theorem Graph.Stops.not_clean (h : g.Stops es c) : ¬ g.Clean es := by
  intro hclean
  rcases h.exists_split with ⟨before, e, after, rfl, _, hnot⟩
  rw [← List.singleton_append, ← List.append_assoc] at hclean
  exact hnot hclean.of_append

/-- A list is split only once into a clean beginning and an edge that does not leave it clean. -/
theorem Graph.Clean.split_unique {before' after' : List EdgeId} {e' : EdgeId}
    (hsplit : before ++ e :: after = before' ++ e' :: after') (hbefore : g.Clean before)
    (hbefore' : g.Clean before') (he : ¬ g.Clean (before ++ [e]))
    (he' : ¬ g.Clean (before' ++ [e'])) : before = before' ∧ e = e' := by
  rcases List.append_eq_append_iff.1 hsplit with ⟨mid, hmid, hrest⟩ | ⟨mid, hmid, hrest⟩
  · cases mid with
    | nil =>
      rw [List.append_nil] at hmid
      exact ⟨hmid.symm, (List.cons.inj hrest).1⟩
    | cons z mid =>
      -- The longer of the two beginnings would contain the edge at which the shorter one ends.
      rcases List.cons.inj hrest with ⟨rfl, _⟩
      rw [hmid, ← List.singleton_append, ← List.append_assoc] at hbefore'
      exact absurd hbefore'.of_append he
  · cases mid with
    | nil =>
      rw [List.append_nil] at hmid
      exact ⟨hmid, (List.cons.inj hrest).1.symm⟩
    | cons z mid =>
      rcases List.cons.inj hrest with ⟨rfl, _⟩
      rw [hmid, ← List.singleton_append, ← List.append_assoc] at hbefore
      exact absurd hbefore.of_append he'

theorem Graph.Stops.unique {d : PartitionError} (h : g.Stops es c) (h' : g.Stops es d) :
    c = d := by
  -- Both name the entry at which the list ceases to be clean, which is there or not.
  cases h with
  | unknown before e after hsplit hbefore he =>
    cases h' with
    | unknown before' e' after' hsplit' hbefore' he' =>
      rcases Graph.Clean.split_unique (hsplit.symm.trans hsplit') hbefore hbefore'
        (Graph.not_clean_of_unknown he) (Graph.not_clean_of_unknown he') with ⟨_, rfl⟩
      rfl
    | repeated before' e' after' edge hsplit' hbefore' he' _ =>
      rcases Graph.Clean.split_unique (hsplit.symm.trans hsplit') hbefore hbefore'
        (Graph.not_clean_of_unknown he) (Graph.not_clean_of_mem he') with ⟨rfl, rfl⟩
      rw [hbefore.2 e he'] at he
      exact nomatch he
  | repeated before e after edge hsplit hbefore he hedge =>
    cases h' with
    | unknown before' e' after' hsplit' hbefore' he' =>
      rcases Graph.Clean.split_unique (hsplit.symm.trans hsplit') hbefore hbefore'
        (Graph.not_clean_of_mem he) (Graph.not_clean_of_unknown he') with ⟨rfl, rfl⟩
      rw [hbefore.2 e he] at he'
      exact nomatch he'
    | repeated before' e' after' edge' hsplit' hbefore' he' hedge' =>
      rcases Graph.Clean.split_unique (hsplit.symm.trans hsplit') hbefore hbefore'
        (Graph.not_clean_of_mem he) (Graph.not_clean_of_mem he') with ⟨_, rfl⟩
      rw [hedge] at hedge'
      rw [Option.some.inj hedge']

theorem Graph.Lacks.not_covers (h : g.Lacks es c) : ¬ ∀ e, g.hasEdge e = true → e ∈ es := by
  intro hcovers
  cases h with
  | uncovered e edge hedge he _ => exact he (hcovers e (Graph.hasEdge_of_getElem? hedge))

theorem Graph.Lacks.unique {d : PartitionError} (h : g.Lacks es c) (h' : g.Lacks es d) :
    c = d := by
  cases h with
  | uncovered e edge hedge he hleast =>
    cases h' with
    | uncovered e' edge' hedge' he' hleast' =>
      have hle := hleast e' (Graph.hasEdge_of_getElem? hedge') he'
      have hge := hleast' e (Graph.hasEdge_of_getElem? hedge) he
      have heq : e = e' := congrArg EdgeId.mk (Nat.le_antisymm hle hge)
      rcases heq with rfl
      rw [hedge] at hedge'
      rw [Option.some.inj hedge']

theorem Graph.mem_edgeIds : e ∈ g.edgeIds ↔ g.hasEdge e = true := by
  rw [edgeIds, List.mem_map, hasEdge, decide_eq_true_iff]
  constructor
  · rintro ⟨i, hi, rfl⟩
    exact List.mem_range.1 hi
  · intro hlt
    exact ⟨e.index, List.mem_range.2 hlt, rfl⟩

/-- The edges of a graph are listed in their order. -/
theorem Graph.sorted_edgeIds (g : Graph) : g.edgeIds.Pairwise fun e f => e.index < f.index :=
  List.pairwise_map.2 List.pairwise_lt_range

theorem Graph.nodup_edgeIds (g : Graph) : g.edgeIds.Nodup := by
  refine g.sorted_edgeIds.imp fun hlt heq => ?_
  rw [heq] at hlt
  exact Nat.lt_irrefl _ hlt

/-- A list has no fault exactly if it is a permutation of the edges of the graph. -/
theorem Graph.clean_and_covers_iff :
    (g.Clean es ∧ ∀ e, g.hasEdge e = true → e ∈ es) ↔ es.Perm g.edgeIds := by
  constructor
  · rintro ⟨hclean, hcovers⟩
    refine (List.perm_ext_iff_of_nodup hclean.1 g.nodup_edgeIds).2 fun e => ?_
    rw [mem_edgeIds]
    exact ⟨hclean.2 e, hcovers e⟩
  · intro hperm
    refine ⟨⟨hperm.nodup_iff.2 g.nodup_edgeIds, fun e he => ?_⟩, fun e he => ?_⟩
    · exact mem_edgeIds.1 (hperm.mem_iff.1 he)
    · exact hperm.mem_iff.2 (mem_edgeIds.2 he)

namespace Partition

/-! ### Reading the groups -/

section Reading

variable {seen : List EdgeId} {assigned : Std.ExtTreeMap EdgeId RegionId}

/-- Behind edges that were read, those of a group are assigned, or reading stops among them. -/
theorem assign_cases_read (id : RegionId) (es : List EdgeId) (hseen : ∀ e, e ∈ assigned ↔ e ∈ seen)
    (hclean : g.Clean seen) :
    (∃ next, assign g id assigned es = .ok next ∧ (∀ e, e ∈ next ↔ e ∈ seen ++ es) ∧
      g.Clean (seen ++ es)) ∨
    ∃ c, assign g id assigned es = .error (.cause c) ∧ g.Stops (seen ++ es) c := by
  induction es generalizing seen assigned with
  | nil =>
    rw [List.append_nil]
    exact Or.inl ⟨assigned, rfl, hseen, hclean⟩
  | cons e es ih =>
    unfold assign
    cases hedge : g.edges[e.index]? with
    | none =>
      have hnot : g.hasEdge e = false :=
        decide_eq_false (Nat.not_lt.2 (Array.getElem?_eq_none_iff.1 hedge))
      exact Or.inr ⟨_, rfl, .unknown seen e es rfl hclean hnot⟩
    | some edge =>
      by_cases hmem : e ∈ seen
      · refine Or.inr ⟨_, ?_, .repeated seen e es edge rfl hclean hmem hedge⟩
        simp only [Std.ExtTreeMap.contains_iff_mem.2 ((hseen e).2 hmem), if_true, refuse]
      · -- The edge is new, and reading goes on behind it.
        have hfree : assigned.contains e = false := by
          rw [← Bool.not_eq_true, Std.ExtTreeMap.contains_iff_mem, hseen]
          exact hmem
        have hnext : ∀ f, f ∈ assigned.insert e id ↔ f ∈ seen ++ [e] := by
          intro f
          rw [Std.ExtTreeMap.mem_insert, Std.LawfulEqCmp.compare_eq_iff_eq, hseen,
            List.mem_append, List.mem_singleton, or_comm, eq_comm]
        have hthere := Graph.hasEdge_of_getElem? hedge
        have hrest := ih hnext (hclean.concat hthere hmem)
        rw [List.append_assoc, List.singleton_append] at hrest
        simp only [hfree, Bool.false_eq_true, if_false]
        exact hrest

/-- The groups are read one behind the other, to the end or up to the first fault. -/
theorem assignAll_cases_read (groups : List (List EdgeId)) (place : Nat)
    (hseen : ∀ e, e ∈ assigned ↔ e ∈ seen) (hclean : g.Clean seen) :
    (∃ next, assignAll g place assigned groups = .ok next ∧
      (∀ e, e ∈ next ↔ e ∈ seen ++ groups.flatten) ∧ g.Clean (seen ++ groups.flatten)) ∨
    ∃ c, assignAll g place assigned groups = .error (.cause c) ∧
      g.Stops (seen ++ groups.flatten) c := by
  induction groups generalizing seen assigned place with
  | nil =>
    rw [List.flatten_nil, List.append_nil]
    exact Or.inl ⟨assigned, rfl, hseen, hclean⟩
  | cons group groups ih =>
    unfold assignAll
    rw [List.flatten_cons, ← List.append_assoc]
    -- One group is assigned behind what was seen; a fault in it is a fault of the whole list.
    rcases assign_cases_read ⟨place⟩ group hseen hclean with
      ⟨next, hnext, hseen', hclean'⟩ | ⟨c, hc, hstops⟩
    · rw [hnext, ok_bind]
      exact ih _ hseen' hclean'
    · rw [hc, error_bind]
      exact Or.inr ⟨c, rfl, hstops.append groups.flatten⟩

end Reading

/-- The outer edges of a region whose edges are there can always be found. -/
theorem exists_outerEdges (h : g.WellFormed) {r : Region}
    (hr : ∀ e ∈ r.inner, g.hasEdge e = true) : ∃ outer, outerEdges g r = .ok outer := by
  rcases nodes_eq_ok (ε := PartitionError) h hr with ⟨ns, hns, _, hmem⟩
  -- The nodes of the region are those of its terminals, and so are there.
  have hnodes : ∀ n ∈ ns, ∃ node, (g.node n : Except (Failure PartitionError) Node) = .ok node := by
    intro n hn
    rcases (hmem n).1 hn with ⟨y, hid, _⟩
    rcases h.node_eq_ok (ε := PartitionError) hid with ⟨node, hnode, _⟩
    exact ⟨node, hnode⟩
  rcases exists_mapM_eq_ok hnodes with ⟨nodes, hnodes⟩
  have hterminals : ∀ z ∈ nodes.flatMap Node.terminals,
      ∃ t, (g.terminal z : Except (Failure PartitionError) Terminal) = .ok t := by
    intro z hz
    rcases List.mem_flatMap.1 hz with ⟨node, hnode, hz⟩
    rcases (mem_of_mapM hnodes).1 hnode with ⟨n, hn, hget⟩
    rcases (hmem n).1 hn with ⟨y, hid, _⟩
    rcases h.node_eq_ok (ε := PartitionError) hid with ⟨node', hget', hports, _⟩
    rw [hget, Except.ok.injEq] at hget'
    rw [hget', hports] at hz
    rcases Graph.terminal_eq_ok (ε := PartitionError) (h.hasTerminal_of_mem_ports hz) with
      ⟨t, ht, _⟩
    exact ⟨t, ht⟩
  rcases exists_mapM_eq_ok hterminals with ⟨ts, hts⟩
  unfold outerEdges
  simp only [hns, hnodes, hts, ok_bind]
  exact ⟨_, rfl⟩

theorem exists_regionOfGroup (h : g.WellFormed) {group : List EdgeId} (i : Nat)
    (hgroup : ∀ e ∈ group, g.hasEdge e = true) : ∃ r, regionOfGroup g group i = .ok r := by
  have hinner : ∀ e ∈ (Region.ofEdges ⟨i⟩ (group.foldl (·.insert ·) ∅)).inner,
      g.hasEdge e = true := by
    intro e he
    rcases mem_foldl_insert.1 he with hempty | he
    · exact absurd hempty Std.ExtTreeSet.not_mem_empty
    · exact hgroup e he
  rcases exists_outerEdges h hinner with ⟨outer, houter⟩
  unfold regionOfGroup
  simp only [houter, ok_bind]
  exact ⟨_, rfl⟩

/-- A partition is made of groups whose edges, read one behind the other, have no fault; otherwise
    the fault is named. -/
theorem ofGroups_cases (h : g.WellFormed) (groups : List (List EdgeId)) :
    (g.Clean groups.flatten ∧ (∀ e, g.hasEdge e = true → e ∈ groups.flatten) ∧
      ∃ p, ofGroups g groups = .ok p) ∨
    ∃ c, ofGroups g groups = .error (.cause c) ∧
      (g.Stops groups.flatten c ∨ g.Clean groups.flatten ∧ g.Lacks groups.flatten c) := by
  have hempty : ∀ e, e ∈ (∅ : Std.ExtTreeMap EdgeId RegionId) ↔ e ∈ ([] : List EdgeId) :=
    fun e => iff_of_false Std.ExtTreeMap.not_mem_empty List.not_mem_nil
  have hread := assignAll_cases_read groups 0 hempty g.clean_nil
  rw [List.nil_append] at hread
  unfold ofGroups
  rcases hread with ⟨regionOf, hassign, hmem, hclean⟩ | ⟨c, hc, hstops⟩
  · rw [hassign, ok_bind]
    cases hfind : g.edgeIds.find? fun e => !regionOf.contains e with
    | none =>
      refine Or.inl ⟨hclean, fun e he => ?_, ?_⟩
      · have hcovered := List.find?_eq_none.1 hfind e (Graph.mem_edgeIds.2 he)
        rw [Bool.not_eq_true', Bool.not_eq_false, Std.ExtTreeMap.contains_iff_mem] at hcovered
        exact (hmem e).1 hcovered
      · -- Every group has a region, since its edges are there.
        have hregions : ∀ entry ∈ groups.zipIdx, ∃ r, regionOfGroup g entry.1 entry.2 = .ok r := by
          intro entry hentry
          refine exists_regionOfGroup h entry.2 fun e he => hclean.2 e ?_
          exact List.mem_flatten.2 ⟨entry.1, List.fst_mem_of_mem_zipIdx hentry, he⟩
        rcases exists_mapM_eq_ok hregions with ⟨regions, hregions⟩
        simp only [hregions, ok_bind]
        exact ⟨_, rfl⟩
    | some e =>
      rcases List.find?_eq_some_iff_append.1 hfind with ⟨hout, as, bs, hsplit, hbefore⟩
      have he : g.hasEdge e = true :=
        Graph.mem_edgeIds.1 (hsplit ▸ List.mem_append_right as List.mem_cons_self)
      rcases Graph.getElem?_of_hasEdge he with ⟨edge, hedge⟩
      rw [Bool.not_eq_true', ← Bool.not_eq_true, Std.ExtTreeMap.contains_iff_mem, hmem] at hout
      refine Or.inr ⟨.uncovered e edge.name, ?_, Or.inr ⟨hclean, ?_⟩⟩
      · simp only [Graph.edge, hedge, handled_some, ok_bind, refuse]
      refine .uncovered e edge hedge hout fun f hf hfree => ?_
      -- The edges before the one that was found are all covered.
      have hsorted := g.sorted_edgeIds
      have hf := Graph.mem_edgeIds.2 hf
      rw [hsplit] at hf hsorted
      rcases List.mem_append.1 hf with hf | hf
      · have hcovered := hbefore f hf
        rw [Bool.not_not, Std.ExtTreeMap.contains_iff_mem, hmem] at hcovered
        exact absurd hcovered hfree
      · rcases List.mem_cons.1 hf with rfl | hf
        · exact Nat.le_refl _
        · exact Nat.le_of_lt ((List.pairwise_cons.1 (List.pairwise_append.1 hsorted).2.1).1 f hf)
  · rw [hc, error_bind]
    exact Or.inr ⟨c, rfl, Or.inl hstops⟩

/-! ### The partition that is made -/

section Made

variable {groups : List (List EdgeId)} {p : Partition}

/-- The region in a place has that place as its handle and the edges of the group there. -/
theorem regions_of_groups (hp : ofGroups g groups = .ok p) :
    p.regions.size = groups.length ∧ ∀ (i : Nat) r, p.regions[i]? = some r →
      r.id = ⟨i⟩ ∧ ∃ group, groups[i]? = some group ∧ ∀ e, e ∈ r.inner ↔ e ∈ group := by
  unfold ofGroups at hp
  rcases bind_eq_ok.1 hp with ⟨_, _, hp⟩
  split at hp
  · rcases bind_eq_ok.1 hp with ⟨edge, _, hp⟩
    exact nomatch hp
  · rcases bind_eq_ok.1 hp with ⟨regions, hregions, hp⟩
    rcases Except.ok.inj hp with rfl
    constructor
    · rw [List.size_toArray, (mapM_eq_ok_iff.1 hregions).1, List.length_zipIdx]
    · intro i r hi
      rw [List.getElem?_toArray] at hi
      -- A region is made from the group in its place.
      rcases getElem?_of_mapM hregions hi with ⟨⟨group, place⟩, hentry, hr⟩
      rw [List.getElem?_zipIdx, Option.map_eq_some_iff] at hentry
      rcases hentry with ⟨group', hget, heq⟩
      rcases Prod.mk.inj heq with ⟨rfl, rfl⟩
      rw [Nat.zero_add] at hr
      refine ⟨?_, group', hget, (regionOfGroup_eq_ok hr).1⟩
      rcases bind_eq_ok.1 hr with ⟨outer, _, hr⟩
      rcases Except.ok.inj hr with rfl
      rfl

/-- Only edges that are there are in the table of regions. -/
theorem hasEdge_of_regionOf? (hp : ofGroups g groups = .ok p) {id : RegionId}
    (he : p.regionOf? e = some id) : g.hasEdge e = true := by
  unfold ofGroups at hp
  rcases bind_eq_ok.1 hp with ⟨regionOf, hassign, hp⟩
  rcases assignAll_cases hassign with ⟨_, hplaces, hall⟩
  -- The table of the partition is the one that the groups were assigned in.
  have hmem : e ∈ regionOf := by
    split at hp
    · rcases bind_eq_ok.1 hp with ⟨edge, _, hp⟩
      exact nomatch hp
    · rcases bind_eq_ok.1 hp with ⟨regions, _, hp⟩
      rcases Except.ok.inj hp with rfl
      rw [Std.ExtTreeMap.mem_iff_isSome_getElem?]
      exact Option.isSome_of_eq_some he
  rcases hall e hmem with hempty | ⟨group, hgroup, hin⟩
  · exact absurd hempty Std.ExtTreeMap.not_mem_empty
  · rcases List.getElem?_of_mem hgroup with ⟨i, hi⟩
    exact (hplaces i group hi e hin).1

/-- The table of regions leads from an edge to the region that has it. -/
theorem regionOf?_eq_some_iff (hp : ofGroups g groups = .ok p) (e : EdgeId) (id : RegionId) :
    p.regionOf? e = some id ↔ ∃ r, p.region? id = some r ∧ e ∈ r.inner := by
  rcases regions_of_ofGroups hp with ⟨_, _, hcovered, hregions⟩
  constructor
  · intro hid
    rcases hcovered e (hasEdge_of_regionOf? hp hid) with ⟨i, r, hi, he⟩
    have hplace : p.regionOf? e = some ⟨i⟩ := ((hregions i r hi).1 e he).2
    rw [hid] at hplace
    rcases Option.some.inj hplace with rfl
    exact ⟨r, hi, he⟩
  · rintro ⟨r, hr, he⟩
    exact ((hregions id.index r hr).1 e he).2

end Made

/-- An edge touches a node of a region if an edge of the region touches the same node. -/
theorem meets_iff (h : g.WellFormed) {r : Region} :
    (∃ y, Inside g (some r) y ∧ ∃ z ∈ g.ports y, g.edge? z = some e) ↔
      ∃ n, (∃ f ∈ r.inner, g.Touches f n) ∧ g.Touches e n := by
  constructor
  · rintro ⟨y, hin, z, hz, he⟩
    rcases inside_iff.1 hin with ⟨f, hf, hmem⟩
    rcases h.mem_ports hz with ⟨n, hy, hzn⟩
    exact ⟨n, ⟨f, hmem, y, hf, hy⟩, z, he, hzn⟩
  · rintro ⟨n, ⟨f, hmem, y, hf, hy⟩, z, he, hz⟩
    exact ⟨y, inside_iff.2 ⟨f, hf, hmem⟩, z, h.mem_ports_of_nodeIdOf? hy hz, he⟩

/-- A node with an edge of a region and an edge outside it is at the boundary of the region. -/
theorem exists_boundary_of_touches {ε : Type} (h : g.WellFormed) {p : Partition}
    (hp : p.Divides g) {id : RegionId} {r : Region} (hr : p.region? id = some r) {n : NodeId}
    {f : EdgeId} (he : e ∈ r.inner) (hen : g.Touches e n) (hf : f ∉ r.inner)
    (hfn : g.Touches f n) :
    ∃ ns, (r.boundary g : Except (Failure ε) (List NodeId)) = .ok ns ∧ n ∈ ns := by
  rcases mem_boundary_iff (ε := ε) h hp hr with ⟨ns, hns, _, hmem⟩
  rcases hen with ⟨y, hey, hy⟩
  rcases hfn with ⟨z, hfz, hz⟩
  have hat : AtBoundary g r y :=
    ⟨inside_iff.2 ⟨e, hey, he⟩, z, h.mem_ports_of_nodeIdOf? hy hz, f, hfz, hf⟩
  exact ⟨ns, hns, (hmem n).2 ⟨y, hy, hat⟩⟩

/-- Groups of edges make a partition exactly if they list every edge of the graph once. Otherwise
    the refusal names the first edge, as the groups are read, that is unknown or was read before,
    or else the least edge that is left out. In the partition every region has the edges of the
    group in its place and its place as its handle, every edge is in one region only, to which the
    table of regions leads, and the outer edges of a region are those that touch its nodes from
    outside, so that a node with edges of two regions is at the boundary of both. -/
theorem ofGroups_divides_edges {ε : Type} (hg : Reachable g) (groups : List (List EdgeId)) :
    ((∃ p, ofGroups g groups = .ok p) ↔ groups.flatten.Perm g.edgeIds) ∧
    (∀ f, ofGroups g groups = .error f ↔ ∃ c, f = .cause c ∧
      (g.Stops groups.flatten c ∨ g.Clean groups.flatten ∧ g.Lacks groups.flatten c)) ∧
    ∀ p, ofGroups g groups = .ok p →
      p.regions.size = groups.length ∧
      (∀ id r, p.region? id = some r → r.id = id ∧
        ∃ group, groups[id.index]? = some group ∧ ∀ e, e ∈ r.inner ↔ e ∈ group) ∧
      (∀ e, g.hasEdge e = true → ∃! id, ∃ r, p.region? id = some r ∧ e ∈ r.inner) ∧
      (∀ e id, p.regionOf? e = some id ↔ ∃ r, p.region? id = some r ∧ e ∈ r.inner) ∧
      (∀ id r, p.region? id = some r → ∀ e, e ∈ r.outer ↔
        e ∉ r.inner ∧ ∃ n, (∃ f ∈ r.inner, g.Touches f n) ∧ g.Touches e n) ∧
      ∀ id r id' s n, p.region? id = some r → p.region? id' = some s → id ≠ id' →
        (∃ e ∈ r.inner, g.Touches e n) → (∃ f ∈ s.inner, g.Touches f n) →
        (∃ ns, (r.boundary g : Except (Failure ε) (List NodeId)) = .ok ns ∧ n ∈ ns) ∧
          ∃ ns, (s.boundary g : Except (Failure ε) (List NodeId)) = .ok ns ∧ n ∈ ns := by
  have h := Graph.wellFormed_of_reachable hg
  refine ⟨⟨?_, fun hperm => ?_⟩, fun f => ⟨fun hf => ?_, ?_⟩, fun p hp => ?_⟩
  · rintro ⟨p, hp⟩
    rcases ofGroups_cases h groups with ⟨hclean, hcovers, _⟩ | ⟨c, hc, _⟩
    · exact Graph.clean_and_covers_iff.1 ⟨hclean, hcovers⟩
    · rw [hp] at hc
      exact nomatch hc
  · rcases Graph.clean_and_covers_iff.2 hperm with ⟨hclean, hcovers⟩
    rcases ofGroups_cases h groups with ⟨_, _, hp⟩ | ⟨c, _, hstops | ⟨_, hlacks⟩⟩
    · exact hp
    · exact absurd hclean hstops.not_clean
    · exact absurd hcovers hlacks.not_covers
  · rcases ofGroups_cases h groups with ⟨_, _, p, hp⟩ | ⟨c, hc, hfault⟩
    · rw [hp] at hf
      exact nomatch hf
    · rw [hf] at hc
      exact ⟨c, Except.error.inj hc, hfault⟩
  · rintro ⟨c, rfl, hfault⟩
    rcases ofGroups_cases h groups with ⟨hclean, hcovers, _⟩ | ⟨d, hd, hfault'⟩
    · rcases hfault with hstops | ⟨_, hlacks⟩
      · exact absurd hclean hstops.not_clean
      · exact absurd hcovers hlacks.not_covers
    · -- A list has only one fault.
      rw [hd]
      rcases hfault with hstops | ⟨hclean, hlacks⟩
      · rcases hfault' with hstops' | ⟨hclean, _⟩
        · rw [hstops'.unique hstops]
        · exact absurd hclean hstops.not_clean
      · rcases hfault' with hstops' | ⟨_, hlacks'⟩
        · exact absurd hclean hstops'.not_clean
        · rw [hlacks'.unique hlacks]
  · have hdivides := divides_of_ofGroups h hp
    rcases regions_of_groups hp with ⟨hsize, hregions⟩
    refine ⟨hsize, fun id r hr => hregions id.index r hr, fun e he => ?_,
      regionOf?_eq_some_iff hp, fun id r hr e => ?_, ?_⟩
    · rcases hdivides.covered e he with ⟨i, r, hi, hmem⟩
      refine ⟨⟨i⟩, ⟨r, hi, hmem⟩, ?_⟩
      rintro id ⟨s, hs, hmem'⟩
      exact congrArg RegionId.mk (hdivides.apart id.index i s r hs hi e hmem' hmem)
    · rw [hdivides.derived id.index r hr e, meets_iff h]
    · rintro id r id' s n hr hs hne ⟨e, he, hen⟩ ⟨f, hf, hfn⟩
      -- An edge of the one region is not an edge of the other.
      have hout : f ∉ r.inner := fun hmem =>
        hne (congrArg RegionId.mk (hdivides.apart id.index id'.index r s hr hs f hmem hf))
      have hout' : e ∉ s.inner := fun hmem =>
        hne (congrArg RegionId.mk (hdivides.apart id.index id'.index r s hr hs e he hmem))
      exact ⟨exists_boundary_of_touches h hdivides hr he hen hout hfn,
        exists_boundary_of_touches h hdivides hs hf hfn hout' hen⟩

/-- The edges of a line of three nodes may be listed in any order, with groups that are empty; but
    an edge may not be listed twice, even in one group. -/
theorem ofGroups_divides_edges_line :
    (∃ p, ofGroups relayGraph [[⟨1⟩], [], [⟨0⟩]] = .ok p ∧ p.regions.size = 3 ∧
      p.regionOf? ⟨0⟩ = some ⟨2⟩) ∧
    ofGroups relayGraph [[⟨0⟩], [⟨1⟩, ⟨1⟩]] = .error (.cause (.overlapping ⟨1⟩ "edge_2")) ∧
    ofGroups relayGraph [[⟨1⟩]] = .error (.cause (.uncovered ⟨0⟩ "edge_1")) := by
  constructor
  · rcases ofGroups_divides_edges (ε := ScheduleError) reachable_relayGraph
      [[⟨1⟩], [], [⟨0⟩]] with ⟨haccepts, _, hmade⟩
    rcases haccepts.2 (by decide +kernel) with ⟨p, hp⟩
    rcases hmade p hp with ⟨hsize, hregions, _, htable, _⟩
    refine ⟨p, hp, hsize, (htable ⟨0⟩ ⟨2⟩).2 ?_⟩
    have hlt : 2 < p.regions.size := hsize ▸ Nat.lt_succ_self 2
    have hr : p.region? ⟨2⟩ = some p.regions[2] := Array.getElem?_eq_getElem hlt
    rcases hregions ⟨2⟩ _ hr with ⟨_, group, hgroup, hmem⟩
    rcases Option.some.inj hgroup with rfl
    exact ⟨_, hr, (hmem ⟨0⟩).2 List.mem_cons_self⟩
  constructor
  · have hfault : relayGraph.Stops [⟨0⟩, ⟨1⟩, ⟨1⟩] (.overlapping ⟨1⟩ "edge_2") :=
      .repeated [⟨0⟩, ⟨1⟩] ⟨1⟩ [] ⟨"edge_2", ⟨2⟩, ⟨3⟩, none⟩ rfl
        ⟨by decide, by decide +kernel⟩ (by decide) (by decide +kernel)
    exact ((ofGroups_divides_edges (ε := ScheduleError) reachable_relayGraph _).2.1 _).2
      ⟨_, rfl, Or.inl hfault⟩
  · have hclean : relayGraph.Clean [⟨1⟩] := ⟨by decide, by decide +kernel⟩
    have hfault : relayGraph.Lacks [⟨1⟩] (.uncovered ⟨0⟩ "edge_1") :=
      .uncovered ⟨0⟩ ⟨"edge_1", ⟨0⟩, ⟨1⟩, none⟩ (by decide +kernel) (by decide)
        fun f _ _ => Nat.zero_le f.index
    exact ((ofGroups_divides_edges (ε := ScheduleError) reachable_relayGraph _).2.1 _).2
      ⟨_, rfl, Or.inr ⟨hclean, hfault⟩⟩

end Partition

end MessagePlan
