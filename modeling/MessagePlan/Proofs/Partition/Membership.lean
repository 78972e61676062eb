import MessagePlan.Proofs.Schedule.Needs
import MessagePlan.Proofs.Steps

/-!
# What Belongs to a Region

A region is asked which nodes and terminals are its own, and each answer is found by following
handles: from an edge to its two sides, from a terminal to its node, from a node to its terminals.
On a well-formed graph none of these handles leads nowhere, if the edges of the region are there,
and the answers can be read off the views: `Graph.isOn` for a terminal on an edge of a set,
`Region.holds` for a terminal that belongs to a region, `Graph.sidesOf` for the ends of an edge.

The nodes of a region are answered in the order in which its edges lead to them. What is shown
here is which nodes these are, in words that name no node: a node of the region is the node of a
terminal `Inside` it.

## Main definitions

* `Graph.isOn`, `Graph.sidesOf`, `Region.holds`: The answers, read off the views.

## Theorems

* `inside_iff`: A terminal is inside a region if its edge is one of the region's own.
* `holds_of_edge?`, `holds_iff_of_dangling`: Which terminals belong to a region.
* `terminalIsOn_eq_ok`, `nodeIsOn_eq_ok`, `owns_eq_ok`, `terminalsInside_eq_ok`: Nothing fails.
* `nodes_eq_ok`, `boundary_eq_ok`: Which nodes the region has, and which of them touch an outer
  edge.
-/

namespace MessagePlan

namespace Graph

/-- Whether a terminal is on an edge of a set. -/
def isOn (g : Graph) (edges : Std.ExtTreeSet EdgeId) (y : TerminalId) : Bool :=
  (g.edge? y).any edges.contains

/-- The two sides of an edge that is there. -/
def sidesOf (g : Graph) (e : EdgeId) : List TerminalId :=
  g.edges[e.index]?.elim [] fun edge => [edge.a, edge.b]

end Graph

/-- Whether a terminal belongs to a region. -/
def Region.holds (r : Region) (g : Graph) (p : TerminalId) : Bool :=
  match g.edge? p with
  | some e => r.hasEdge e
  | none => (g.ports p).any (g.isOn r.inner)

section Terminals

variable {g : Graph} {edges : Std.ExtTreeSet EdgeId} {r : Region} {e : EdgeId} {x y : TerminalId}

theorem isOn_iff : g.isOn edges y = true ↔ ∃ e, g.edge? y = some e ∧ e ∈ edges := by
  unfold Graph.isOn
  cases he : g.edge? y with
  | none =>
    refine iff_of_false Bool.false_ne_true ?_
    rintro ⟨e, hnone, _⟩
    exact nomatch hnone
  | some e =>
    -- The only edge that can be meant is the one at the terminal.
    rw [Option.any_some, Std.ExtTreeSet.contains_iff_mem]
    constructor
    · intro hmem
      exact ⟨e, rfl, hmem⟩
    · rintro ⟨e', heq, hmem⟩
      rw [Option.some.inj heq]
      exact hmem

/-- A terminal is inside a region if its edge is one of the region's own. -/
theorem inside_iff : Inside g (some r) y ↔ ∃ e, g.edge? y = some e ∧ e ∈ r.inner := by
  constructor
  · intro hin
    exact hin r rfl
  · intro hin r' hr
    rw [← Option.some.inj hr]
    exact hin

theorem isOn_inner_iff : g.isOn r.inner y = true ↔ Inside g (some r) y := by
  rw [isOn_iff, inside_iff]

theorem not_inside_iff (he : g.edge? y = some e) : ¬ Inside g (some r) y ↔ e ∉ r.inner := by
  rw [inside_iff]
  constructor
  · intro hout hmem
    exact hout ⟨e, he, hmem⟩
  · rintro hout ⟨e', he', hmem⟩
    rw [he, Option.some.injEq] at he'
    exact hout (he' ▸ hmem)

/-- A terminal on an edge belongs to a region if the edge does. -/
theorem holds_of_edge? (he : g.edge? x = some e) : r.holds g x = r.hasEdge e := by
  unfold Region.holds
  rw [he]

/-- A terminal without an edge belongs to a region if another terminal of its node is inside. -/
theorem holds_iff_of_dangling (hx : g.edge? x = none) :
    r.holds g x = true ↔ ∃ y ∈ g.ports x, Inside g (some r) y := by
  unfold Region.holds
  rw [hx, List.any_eq_true]
  simp only [isOn_inner_iff]

/-- What is inside a region belongs to it. -/
theorem holds_of_inside (hy : Inside g (some r) y) : r.holds g y = true := by
  rcases inside_iff.1 hy with ⟨e, he, hmem⟩
  rw [holds_of_edge? he]
  exact Std.ExtTreeSet.contains_iff_mem.2 hmem

/-- A terminal that belongs to a region is at a node with a terminal inside it. -/
theorem exists_inside_of_holds (h : g.WellFormed) (hx : g.hasTerminal x = true)
    (hholds : r.holds g x = true) : ∃ w ∈ g.ports x, Inside g (some r) w := by
  cases he : g.edge? x with
  | some e =>
    rw [holds_of_edge? he] at hholds
    have hmem : e ∈ r.inner := Std.ExtTreeSet.contains_iff_mem.1 hholds
    exact ⟨x, h.mem_ports_self hx, inside_iff.2 ⟨e, he, hmem⟩⟩
  | none => exact (holds_iff_of_dangling he).1 hholds

theorem mem_sidesOf (h : g.WellFormed) : y ∈ g.sidesOf e ↔ g.edge? y = some e := by
  rw [h.sides]
  unfold Graph.sidesOf
  cases g.edges[e.index]? with
  | none =>
    refine iff_of_false List.not_mem_nil ?_
    rintro ⟨edge, hnone, _⟩
    exact nomatch hnone
  | some edge =>
    simp only [Option.elim_some, List.mem_cons, List.not_mem_nil, or_false, Option.some.injEq,
      exists_eq_left', eq_comm]

end Terminals

section Trusted

variable {ε : Type} {g : Graph} {edges : Std.ExtTreeSet EdgeId} {r : Region} {x y : TerminalId}
  {n : NodeId}

theorem terminalIsOn_eq_ok (hy : g.hasTerminal y = true) :
    (Region.terminalIsOn g edges y : Except (Failure ε) Bool) = .ok (g.isOn edges y) := by
  rcases Graph.terminal_eq_ok (ε := ε) hy with ⟨terminal, hget, _, _, hedge, _⟩
  rw [Region.terminalIsOn, hget, ok_bind, Graph.isOn, hedge]
  rfl

variable (h : g.WellFormed)

include h

theorem nodeIsOn_eq_ok (hx : g.nodeIdOf? x = some n) :
    (Region.nodeIsOn g edges n : Except (Failure ε) Bool) =
      .ok ((g.ports x).any (g.isOn edges)) := by
  rcases h.node_eq_ok (ε := ε) hx with ⟨node, hnode, hports, _⟩
  rw [Region.nodeIsOn, hnode, ok_bind, hports]
  exact anyM_eq_ok_any fun y hy => terminalIsOn_eq_ok (h.hasTerminal_of_mem_ports hy)

theorem owns_eq_ok (hx : g.hasTerminal x = true) :
    (r.owns g x : Except (Failure ε) Bool) = .ok (r.holds g x) := by
  rcases Graph.terminal_eq_ok (ε := ε) hx with ⟨terminal, hget, hid, _, hedge, _⟩
  rw [Region.owns, hget, ok_bind, Region.holds, hedge]
  cases terminal.edge with
  | some e => rfl
  | none => exact nodeIsOn_eq_ok h hid

theorem terminalsInside_eq_ok (hx : g.nodeIdOf? x = some n) :
    (r.terminalsInside g n : Except (Failure ε) (List TerminalId)) =
      .ok ((g.ports x).filter (g.isOn r.inner)) := by
  rcases h.node_eq_ok (ε := ε) hx with ⟨node, hnode, hports, _⟩
  rw [Region.terminalsInside, hnode, ok_bind, hports]
  exact filterM_eq_ok_filter fun y hy => terminalIsOn_eq_ok (h.hasTerminal_of_mem_ports hy)

theorem endpoints_eq_ok {e : EdgeId} (he : g.hasEdge e = true) :
    (Region.endpoints g e : Except (Failure ε) (List NodeId)) =
      .ok ((g.sidesOf e).filterMap g.nodeIdOf?) := by
  have hlt : e.index < g.edges.size := of_decide_eq_true he
  have hedge := Array.getElem?_eq_getElem hlt
  -- Both sides of the edge are terminals that are there.
  have hside : ∀ p, g.edges[e.index].a = p ∨ g.edges[e.index].b = p → g.hasTerminal p = true := by
    intro p hp
    exact Graph.hasTerminal_of_edge? ((h.sides p e).2 ⟨_, hedge, hp⟩)
  rcases Graph.terminal_eq_ok (ε := ε) (hside _ (Or.inl rfl)) with ⟨a, ha, hida, _⟩
  rcases Graph.terminal_eq_ok (ε := ε) (hside _ (Or.inr rfl)) with ⟨b, hb, hidb, _⟩
  rw [Region.endpoints, Graph.edge, hedge, handled_some, ok_bind, ha, ok_bind, hb, ok_bind,
    Graph.sidesOf, hedge, Option.elim_some, List.filterMap_cons_some hida,
    List.filterMap_cons_some hidb]
  rfl

variable (hr : ∀ e ∈ r.inner, g.hasEdge e = true)

include hr

/-- The nodes of a region are those of the terminals inside it, each once. -/
theorem nodes_eq_ok : ∃ ns, (r.nodes g : Except (Failure ε) (List NodeId)) = .ok ns ∧ ns.Nodup ∧
    ∀ n, n ∈ ns ↔ ∃ y, g.nodeIdOf? y = some n ∧ Inside g (some r) y := by
  have hends : r.inner.toList.mapM (Region.endpoints g) =
      (.ok (r.inner.toList.map fun e => (g.sidesOf e).filterMap g.nodeIdOf?) :
        Except (Failure ε) (List (List NodeId))) :=
    mapM_eq_ok_map fun e he => endpoints_eq_ok h (hr e (Std.ExtTreeSet.mem_toList.1 he))
  -- Nodes are those at the ends of inner edges, listed once.
  refine ⟨_, by rw [Region.nodes, hends, ok_bind]; rfl, nodup_distinct _, fun n => ?_⟩
  simp only [mem_distinct, List.mem_flatten, List.mem_map]
  constructor
  · rintro ⟨_, ⟨e, he, rfl⟩, hn⟩
    rcases List.mem_filterMap.1 hn with ⟨y, hy, hid⟩
    have hedge := (mem_sidesOf h).1 hy
    exact ⟨y, hid, inside_iff.2 ⟨e, hedge, Std.ExtTreeSet.mem_toList.1 he⟩⟩
  · rintro ⟨y, hid, hin⟩
    rcases inside_iff.1 hin with ⟨e, hedge, he⟩
    refine ⟨_, ⟨e, Std.ExtTreeSet.mem_toList.2 he, rfl⟩, ?_⟩
    exact List.mem_filterMap.2 ⟨y, (mem_sidesOf h).2 hedge, hid⟩

/-- The boundary of a region has the nodes of the terminals inside it that have, among the other
    terminals of the node, one on an outer edge. -/
theorem boundary_eq_ok : ∃ ns, (r.boundary g : Except (Failure ε) (List NodeId)) = .ok ns ∧
    ns.Nodup ∧ ∀ n, n ∈ ns ↔ ∃ y, g.nodeIdOf? y = some n ∧ Inside g (some r) y ∧
      ∃ z ∈ g.ports y, g.isOn r.outer z = true := by
  rcases nodes_eq_ok (ε := ε) h hr with ⟨ns, hns, hnodup, hmem⟩
  -- The terminals of a node do not depend on the terminal that leads to it.
  have hon : ∀ n ∈ ns, (Region.nodeIsOn g r.outer n : Except (Failure ε) Bool) =
      .ok (((g.portsAt? n.slot).getD []).any (g.isOn r.outer)) := by
    intro n hn
    rcases (hmem n).1 hn with ⟨y, hid, _⟩
    rw [nodeIsOn_eq_ok h hid, Graph.ports, hid, Option.bind_some]
  refine ⟨_, by rw [Region.boundary, hns, ok_bind]; exact filterM_eq_ok_filter hon,
    hnodup.filter _, fun n => ?_⟩
  rw [List.mem_filter, hmem]
  constructor
  · rintro ⟨⟨y, hid, hin⟩, hany⟩
    refine ⟨y, hid, hin, List.any_eq_true.1 ?_⟩
    rw [Graph.ports, hid, Option.bind_some]
    exact hany
  · rintro ⟨y, hid, hin, hany⟩
    refine ⟨⟨y, hid, hin⟩, ?_⟩
    have hany := List.any_eq_true.2 hany
    rw [Graph.ports, hid, Option.bind_some] at hany
    exact hany

end Trusted

end MessagePlan
