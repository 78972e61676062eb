import Mathlib.Combinatorics.SimpleGraph.Acyclic
import MessagePlan.Proofs.Dependency.Loops
import MessagePlan.Proofs.Schedule.Regional

/-!
# Loops of Needs Are Cycles of Nodes

Loops are about messages, and a message knows a direction: it leaves one node and arrives at
another. Whether a graph can have loops at all is a question about its undirected shape, the nodes
with an edge between two of them for each edge of the graph. As long as no terminal holds a message,
there are none exactly if that shape is a forest: no edge from a node to itself, no two edges
between the same nodes, and no cycle that is longer.

A need turns round at a node, from one of its terminals to another one, and never back over the edge
it came from. So needs that follow one another are a walk over nodes in which no edge is repeated at
once. In a forest such a walk never returns to a node. The other way round, a cycle of nodes is a
walk of that kind, and going once around it comes back to the terminal that it started from, since
the last edge of the cycle is not the first one.

The shape is a simple graph, in which parallel edges and edges from a node to itself cannot be seen.
They are spoken of beside it, and each makes a loop of its own, of two needs or of one.

## Main definitions

* `Graph.Joins`: The nodes at the two sides of an edge.
* `Graph.nodeGraph`: The nodes, neighbours where an edge joins them.
* `Graph.IsForest`: No edge to the same node, no parallel edges and no cycle.
* `Graph.Leads`: The nodes that a message leaves and arrives at.
* `Turns`: A walk that does not turn back, to begin with not at a terminal.

## Theorems

* `joins_iff`: The sides of an edge are a terminal and its partner.
* `needs_of_partner?`: A need turns round at a node.
* `exists_dependsOn_of_walk`: A walk that does not turn back is followed by needs.
* `onLoop_of_joins_self`, `onLoop_of_parallel`, `onLoop_of_isCycle`: What keeps a graph from being
  a forest makes a loop.
* `turns_of_needs`: In a forest, needs are followed by a walk that does not turn back.
* `not_onLoop_of_isForest`: In a forest there are no loops.
* `no_loops_iff_isForest`: No loops are listed exactly for forests.
-/

namespace MessagePlan

open Relation SimpleGraph Dependency

namespace Graph

/-- The owners of the two sides of an edge, in one order or the other. -/
def Joins (g : Graph) (e : EdgeId) (m n : NodeId) : Prop :=
  ∃ edge, g.edges[e.index]? = some edge ∧
    (g.nodeIdOf? edge.a = some m ∧ g.nodeIdOf? edge.b = some n ∨
      g.nodeIdOf? edge.a = some n ∧ g.nodeIdOf? edge.b = some m)

/-- The edges of a graph join the same nodes in both orders. -/
theorem Joins.symm {g : Graph} {e : EdgeId} {m n : NodeId} (h : g.Joins e m n) :
    g.Joins e n m := by
  rcases h with ⟨edge, hget, hsides⟩
  exact ⟨edge, hget, hsides.symm⟩

/-- The nodes of a graph, with two of them neighbours if an edge joins them. A handle that no node
    has is there as well, and has no neighbours. -/
def nodeGraph (g : Graph) : SimpleGraph NodeId where
  Adj m n := m ≠ n ∧ ∃ e, g.Joins e m n
  symm := ⟨fun _ _ h => ⟨h.1.symm, h.2.imp fun _ => Joins.symm⟩⟩
  loopless := ⟨fun _ h => h.1 rfl⟩

/-- The nodes and edges of a graph are a forest: no edge joins a node to itself, no two join the
    same nodes, and there is no longer cycle. -/
structure IsForest (g : Graph) : Prop where
  loopless : ∀ e n, ¬ g.Joins e n n
  simple : ∀ e f m n, g.Joins e m n → g.Joins f m n → e = f
  acyclic : g.nodeGraph.IsAcyclic

/-- The message out of a terminal leads from its own node to that of its partner. -/
def Leads (g : Graph) (y : TerminalId) (m n : NodeId) : Prop :=
  g.nodeIdOf? y = some m ∧ ∃ p, g.partner? y = some p ∧ g.nodeIdOf? p = some n

end Graph

variable {ε : Type} {g : Graph} {e f : EdgeId} {m n : NodeId} {x y p : TerminalId}

/-! ### Terminals at nodes and at edges -/

/-- The two sides of an edge are a terminal and its partner. -/
theorem joins_iff (h : g.WellFormed) :
    g.Joins e m n ↔ ∃ y, g.edge? y = some e ∧ g.Leads y m n := by
  constructor
  · rintro ⟨edge, hget, hsides⟩
    have hends := h.ends e.index edge hget
    rcases hsides with ⟨ha, hb⟩ | ⟨ha, hb⟩
    · exact ⟨edge.a, (h.sides edge.a e).2 ⟨edge, hget, Or.inl rfl⟩, ha, edge.b, hends, hb⟩
    · exact ⟨edge.b, (h.sides edge.b e).2 ⟨edge, hget, Or.inr rfl⟩, hb, edge.a,
        h.partner_symm hends, ha⟩
  · rintro ⟨y, he, hy, p, hp, hn⟩
    rcases (h.sides y e).1 he with ⟨edge, hget, hside⟩
    -- The terminal is one side, and its partner is the other.
    have hends := h.ends e.index edge hget
    refine ⟨edge, hget, ?_⟩
    rcases hside with rfl | rfl
    · rw [hp] at hends
      rcases Option.some.inj hends with rfl
      exact Or.inl ⟨hy, hn⟩
    · rw [h.partner_symm hends] at hp
      rcases Option.some.inj hp with rfl
      exact Or.inr ⟨hn, hy⟩

/-- What leads over an edge from one node to another leads back as well, out of the partner. -/
theorem Graph.Leads.symm (h : g.WellFormed) (hy : g.Leads y m n) :
    ∃ p, g.partner? y = some p ∧ g.edge? p = g.edge? y ∧ g.Leads p n m := by
  rcases hy with ⟨hm, p, hp, hn⟩
  rcases h.partners y p hp with ⟨_, hback, hedge⟩
  exact ⟨p, hp, hedge, hn, y, hback, hm⟩

/-- A terminal leads to one node only. -/
theorem Graph.Leads.unique {k l : NodeId} (hm : g.Leads y m n) (hk : g.Leads y k l) : n = l := by
  rcases hm.2 with ⟨p, hp, hn⟩
  rcases hk.2 with ⟨q, hq, hk⟩
  rw [hp] at hq
  rcases Option.some.inj hq with rfl
  exact Option.some.inj (hn.symm.trans hk)

/-- Terminals of one edge are the same or partners. -/
theorem eq_or_partner_of_edge? (h : g.WellFormed) (hx : g.edge? x = some e)
    (hy : g.edge? y = some e) : y = x ∨ g.partner? y = some x := by
  rcases (h.sides x e).1 hx with ⟨edge, hget, hsidex⟩
  rcases (h.sides y e).1 hy with ⟨edge', hget', hsidey⟩
  rw [hget] at hget'
  rcases Option.some.inj hget' with rfl
  have hends := h.ends e.index edge hget
  rcases hsidex with rfl | rfl <;> rcases hsidey with rfl | rfl
  · exact Or.inl rfl
  · exact Or.inr (h.partner_symm hends)
  · exact Or.inr hends
  · exact Or.inl rfl

/-! ### Needs turn round at nodes -/

section Unprimed

variable (h : g.WellFormed) (hnone : ∀ p, g.message? p = none)

include h hnone

/-- Where there are no messages, a terminal needs what arrives at each other terminal of its
    node. -/
theorem needs_of_partner? (hx : g.nodeIdOf? x = some m) (hy : g.nodeIdOf? y = some m)
    (hne : y ≠ x) (hp : g.partner? y = some p) : Needs g none x p :=
  ⟨y, h.mem_ports_of_nodeIdOf? hx hy, hne, neededAt_none.2 ⟨hp, hnone p⟩⟩

/-- A walk over nodes that never repeats an edge at once is followed by needs. They begin at a
    terminal that would lead back from the start of the walk, and end at one that leads back over
    its last edge. -/
theorem exists_dependsOn_of_walk {u v : NodeId} (w : g.nodeGraph.Walk u v) (t : NodeId)
    (hx : g.Leads x u t) (hchain : (s(t, u) :: w.edges).IsChain (· ≠ ·)) :
    ∃ z s, DependsOn g none x z ∧ g.Leads z v s ∧ (s(t, u) :: w.edges).getLast? = some s(s, v) := by
  induction w generalizing x t with
  | nil => exact ⟨x, t, .refl, hx, rfl⟩
  | @cons u k v hadj w ih =>
    rw [Walk.edges_cons, List.isChain_cons_cons] at hchain
    rcases hadj.2 with ⟨e, he⟩
    rcases (joins_iff h).1 he with ⟨y, _, hy⟩
    -- The next edge is another one, and so the terminal that it leaves from is another one too.
    have hne : y ≠ x := by
      rintro rfl
      exact hchain.1 (by rw [hx.unique hy, Sym2.eq_swap])
    rcases hy.symm h with ⟨p, hp, _, hback⟩
    rcases ih u hback hchain.2 with ⟨z, s, hz, hleads, hlast⟩
    refine ⟨z, s, .head (needs_of_partner? h hnone hx.1 hy.1 hne hp) hz, hleads, ?_⟩
    rw [Walk.edges_cons, List.getLast?_cons_cons]
    exact hlast

/-- An edge from a node to itself is a loop of one need. -/
theorem onLoop_of_joins_self (he : g.Joins e n n) : ∃ x, OnLoop g none x := by
  rcases (joins_iff h).1 he with ⟨y, _, hy, p, hp, hn⟩
  have hne : y ≠ p := fun hc => (h.partners y p hp).1 hc.symm
  exact ⟨p, .single (needs_of_partner? h hnone hn hy hne hp)⟩

/-- Two edges that join the same nodes are a loop of two needs, over one and back over the
    other. -/
theorem onLoop_of_parallel (he : g.Joins e m n) (hf : g.Joins f m n) (hne : e ≠ f) :
    ∃ x, OnLoop g none x := by
  rcases (joins_iff h).1 he with ⟨y, hey, hy, p, hp, hpn⟩
  rcases (joins_iff h).1 hf.symm with ⟨z, hfz, hz, q, hq, hqm⟩
  have hep : g.edge? p = some e := by rw [(h.partners y p hp).2.2, hey]
  have hfq : g.edge? q = some f := by rw [(h.partners z q hq).2.2, hfz]
  have hzp : z ≠ p := fun hc => hne (Option.some.inj (by rw [← hep, ← hc, hfz]))
  have hyq : y ≠ q := fun hc => hne (Option.some.inj (by rw [← hey, hc, hfq]))
  have hout : Needs g none p q := needs_of_partner? h hnone hpn hz hzp hq
  have hback : Needs g none q p := needs_of_partner? h hnone hqm hy hyq hp
  exact ⟨p, .tail (.single hout) hback⟩

/-- Going once around a cycle of nodes leads back to the terminal at which it was begun. -/
theorem onLoop_of_isCycle {c : g.nodeGraph.Walk n n} (hc : c.IsCycle) : ∃ x, OnLoop g none x := by
  have hnodup := hc.edges_nodup
  cases c with
  | nil => exact absurd rfl hc.ne_nil
  | @cons _ k _ hadj w =>
    rw [Walk.edges_cons] at hnodup
    rcases hadj.2 with ⟨e, he⟩
    rcases (joins_iff h).1 he with ⟨y, _, hy⟩
    rcases hy.symm h with ⟨p, hp, _, hback⟩
    rcases exists_dependsOn_of_walk h hnone w n hback hnodup.isChain with ⟨z, s, hz, hleads, hlast⟩
    -- The last edge is another one than the first, and so the walk can be begun again.
    have hne : y ≠ z := by
      rintro rfl
      rw [hleads.unique hy] at hlast
      cases hw : w.edges with
      | nil => exact hadj.1 (Walk.eq_of_length_eq_zero (by rw [← Walk.length_edges, hw]; rfl)).symm
      | cons a l =>
        rw [hw, List.getLast?_cons_cons] at hlast
        have hmem : s(k, n) ∈ w.edges := hw ▸ List.mem_of_getLast? hlast
        rw [Sym2.eq_swap] at hmem
        exact (List.nodup_cons.1 hnodup).1 hmem
    exact ⟨p, TransGen.tail' hz (needs_of_partner? h hnone hleads.1 hy.1 hne hp)⟩

/-- A graph without loops is a forest. -/
theorem isForest_of_not_onLoop (hloops : ∀ x, ¬ OnLoop g none x) : g.IsForest where
  loopless e n he := by
    rcases onLoop_of_joins_self h hnone he with ⟨x, hx⟩
    exact hloops x hx
  simple e f m n he hf := by
    by_contra hne
    rcases onLoop_of_parallel h hnone he hf hne with ⟨x, hx⟩
    exact hloops x hx
  acyclic n c hc := by
    rcases onLoop_of_isCycle h hnone hc with ⟨x, hx⟩
    exact hloops x hx

end Unprimed

/-! ### Forests have no loops -/

/-- A walk over nodes that never repeats an edge at once leads from the node of a terminal, not
    over its own edge, to a node. -/
def Turns (g : Graph) (x : TerminalId) (v : NodeId) : Prop :=
  ∃ m k e, ∃ (hadj : g.nodeGraph.Adj m k) (w : g.nodeGraph.Walk k v),
    g.nodeIdOf? x = some m ∧ g.Joins e m k ∧ g.edge? x ≠ some e ∧
      (Walk.cons hadj w).edges.IsChain (· ≠ ·)

/-- In a forest, a need leads to another node over another edge than that of the terminal. -/
theorem exists_joins_of_needs (h : g.WellFormed) (hforest : g.IsForest)
    (hneed : Needs g none x p) :
    ∃ m k e, g.nodeIdOf? x = some m ∧ g.nodeIdOf? p = some k ∧ m ≠ k ∧ g.Joins e m k ∧
      g.edge? x ≠ some e ∧ g.edge? p = some e := by
  rcases hneed with ⟨y, hy, hne, hat⟩
  have hp := hat.2.1
  rcases h.mem_ports hy with ⟨m, hxm, hym⟩
  rcases Graph.nodeIdOf?_of_hasTerminal (h.hasTerminal_of_partner? hp) with ⟨k, hpk⟩
  rcases h.edge?_isSome_of_partner? hp with ⟨e, he⟩
  have hjoins : g.Joins e m k := (joins_iff h).2 ⟨y, he, hym, p, hp, hpk⟩
  have hmk : m ≠ k := by
    rintro rfl
    exact hforest.loopless e m hjoins
  refine ⟨m, k, e, hxm, hpk, hmk, hjoins, fun hxe => ?_, by rw [(h.partners y p hp).2.2, he]⟩
  -- Two terminals of one node with one edge would be the sides of an edge to the same node.
  rcases eq_or_partner_of_edge? h hxe he with hyx | hback
  · exact hne hyx
  · rw [hp] at hback
    rcases Option.some.inj hback with rfl
    exact hmk (Option.some.inj (hxm.symm.trans hpk))

/-- In a forest, needs that follow one another are followed by a walk over nodes that never repeats
    an edge at once. -/
theorem turns_of_needs (h : g.WellFormed) (hforest : g.IsForest) (hx : TransGen (Needs g none) x y)
    (hy : g.nodeIdOf? y = some n) : Turns g x n := by
  induction hx using TransGen.head_induction_on with
  | single hneed =>
    rcases exists_joins_of_needs h hforest hneed with ⟨m, k, e, hxm, hyk, hmk, hjoins, hxe, _⟩
    rw [hy] at hyk
    rcases Option.some.inj hyk with rfl
    exact ⟨m, n, e, ⟨hmk, e, hjoins⟩, .nil, hxm, hjoins, hxe, List.isChain_singleton _⟩
  | head hneed _ ih =>
    rcases exists_joins_of_needs h hforest hneed with ⟨m, k, e, hxm, hpk, hmk, hjoins, hxe, hpe⟩
    rcases ih with ⟨k', l, f, hadj, w, hpk', hnext, hpf, hchain⟩
    rw [hpk] at hpk'
    rcases Option.some.inj hpk' with rfl
    have hstep : g.nodeGraph.Adj m k := ⟨hmk, e, hjoins⟩
    refine ⟨m, k, e, hstep, .cons hadj w, hxm, hjoins, hxe, ?_⟩
    rw [Walk.edges_cons, Walk.edges_cons, List.isChain_cons_cons]
    refine ⟨fun hsame => ?_, hchain⟩
    -- Walking back to the node before would be over a second edge between the two.
    rcases Sym2.eq_iff.1 hsame with ⟨hc, _⟩ | ⟨rfl, _⟩
    · exact hmk hc
    · have hef := hforest.simple e f m k hjoins hnext.symm
      exact hpf (hef ▸ hpe)

/-- In a forest no terminal lies on a loop, since no such walk leads back to where it began. -/
theorem not_onLoop_of_isForest (h : g.WellFormed) (hforest : g.IsForest) (x : TerminalId) :
    ¬ OnLoop g none x := by
  intro hx
  rcases TransGen.head'_iff.1 hx with ⟨p, hneed, _⟩
  rcases exists_joins_of_needs h hforest hneed with ⟨n, _, _, hn, _⟩
  rcases turns_of_needs h hforest hx hn with ⟨m, k, e, hadj, w, hm, _, _, hchain⟩
  rw [hn] at hm
  rcases Option.some.inj hm with rfl
  -- Without repeating an edge at once it would be a path, and a path that returns is empty.
  have hpath := (hforest.acyclic.isPath_iff_isChain _).2 hchain
  exact Walk.not_nil_cons (Walk.isPath_iff_nil.1 hpath)

/-- Where no terminal holds a message, no loops are listed exactly if the nodes and edges are a
    forest, and then no schedule is refused for a loop. -/
theorem no_loops_iff_isForest {components : Digraph → List (List Nat)}
    (hcomponents : FindsComponents components) (hg : Reachable g)
    (hnone : ∀ p, g.message? p = none) :
    ∃ ls, (g.unbrokenLoops components : Except (Failure ε) (List (List TerminalId))) = .ok ls ∧
      (ls = [] ↔ g.IsForest) ∧
      (g.IsForest → ∀ t x l, g.schedule t none ≠ .error (.cause (.unbrokenLoop x l))) := by
  have h := Graph.wellFormed_of_reachable hg
  rcases unbrokenLoops_eq_ok (ε := ε) hcomponents h with ⟨ls, hls, _, hlists, hmem⟩
  refine ⟨ls, hls, ⟨fun hnil => ?_, fun hforest => ?_⟩, fun hforest t x l hr => ?_⟩
  · refine isForest_of_not_onLoop h hnone fun x hx => ?_
    rcases (hmem x).1 hx with ⟨xs, hxs, _⟩
    rw [hnil] at hxs
    exact absurd hxs List.not_mem_nil
  · refine List.eq_nil_iff_forall_not_mem.2 fun xs hxs => ?_
    rcases hlists xs hxs with ⟨x, _, hx⟩
    exact not_onLoop_of_isForest h hforest x ((hmem x).2 ⟨xs, hxs, hx⟩)
  · -- A refusal for a loop names a terminal on one.
    rcases stuck_of_schedule hg hr with ⟨_, heq⟩ | ⟨_, y, _, hstuck⟩
    · exact nomatch heq
    · cases hstuck with
      | loop _ _ _ hloop _ => exact not_onLoop_of_isForest h hforest x hloop

/-- Three nodes in a ring, without messages. -/
def bareRing : Graph := primedRing.apply (.clearMessage ⟨5⟩)

theorem reachable_bareRing : Reachable bareRing := reachable_primedRing.apply _

/-- No terminal holds a message if none of those that are there does. -/
theorem message?_eq_none_of_lt (hall : ∀ i < g.terminals.size, g.message? ⟨i⟩ = none)
    (p : TerminalId) : g.message? p = none := by
  by_cases hp : p.index < g.terminals.size
  · exact hall p.index hp
  · rw [Graph.message?, Array.getElem?_eq_none (by omega), Option.bind_none]

/-- In a line of three nodes every terminal has a schedule, and so none is on a loop. -/
theorem not_onLoop_relayGraph (x : TerminalId) : ¬ OnLoop relayGraph none x := by
  intro hx
  rcases TransGen.tail'_iff.1 hx with ⟨_, _, hneed⟩
  have hthere := hneed.hasTerminal (Graph.wellFormed_of_reachable reachable_relayGraph)
  have hall : ∀ i < relayGraph.terminals.size,
      (relayGraph.scheduleWithin 8 ⟨i⟩ none).isSome = true := by decide +kernel
  rcases Option.isSome_iff_exists.1 (hall x.index (Graph.hasTerminal_iff.1 hthere)) with ⟨r, hr⟩
  rcases hx.schedule_eq_error reachable_relayGraph with ⟨e, he⟩
  rw [schedule_eq_of_scheduleWithin 8 hr] at he
  exact nomatch he

theorem onLoop_bareRing : OnLoop bareRing none ⟨0⟩ := by
  have h02 : Needs bareRing none ⟨0⟩ ⟨2⟩ :=
    ⟨⟨1⟩, by decide +kernel, by decide, neededAt_none.2 (by decide +kernel)⟩
  have h24 : Needs bareRing none ⟨2⟩ ⟨4⟩ :=
    ⟨⟨3⟩, by decide +kernel, by decide, neededAt_none.2 (by decide +kernel)⟩
  have h40 : Needs bareRing none ⟨4⟩ ⟨0⟩ :=
    ⟨⟨5⟩, by decide +kernel, by decide, neededAt_none.2 (by decide +kernel)⟩
  exact .tail (.tail (.single h02) h24) h40

/-- Three nodes in a line are a forest, and three nodes in a ring are not. -/
theorem no_loops_iff_isForest_line_ring : relayGraph.IsForest ∧ ¬ bareRing.IsForest := by
  constructor
  · rcases no_loops_iff_isForest (ε := ScheduleError) findsComponents reachable_relayGraph
      (message?_eq_none_of_lt (by decide +kernel)) with ⟨ls, hls, hforest, _⟩
    have hnil := unbrokenLoops_eq_nil (ε := ScheduleError) findsComponents
      (Graph.wellFormed_of_reachable reachable_relayGraph) not_onLoop_relayGraph
    rw [hls] at hnil
    exact hforest.1 (Except.ok.inj hnil)
  · rcases no_loops_iff_isForest (ε := ScheduleError) findsComponents reachable_bareRing
      (message?_eq_none_of_lt (by decide +kernel)) with ⟨ls, hls, hforest, _⟩
    rcases unbrokenLoops_eq_ok (ε := ScheduleError) findsComponents
      (Graph.wellFormed_of_reachable reachable_bareRing) with ⟨ls', hls', _, _, hmem⟩
    rw [hls] at hls'
    rcases Except.ok.inj hls' with rfl
    -- A forest would list no loops, and the terminal that the ring begins with is on one.
    intro hring
    rcases (hmem ⟨0⟩).1 onLoop_bareRing with ⟨xs, hxs, _⟩
    rw [hforest.2 hring] at hxs
    exact absurd hxs List.not_mem_nil

end MessagePlan
