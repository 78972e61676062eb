import MessagePlan.Proofs.Graph.Reachable

/-!
# Well-Formed Graphs

The lists of a graph refer to one another by handles, and nothing in their types keeps a
handle from leading nowhere or a terminal from being listed by two nodes. What does is the
way graphs are built. `WellFormed` says it: nodes list exactly the terminals that point to
them, each once, and partners and edges are two accounts of the same connections.

It is stated over *views*, the parts of a graph that answer for a handle: which terminals a
node in some place lists, and which node, partner, edge and message a terminal has. A view
answers for any handle, with nothing where the handle leads nowhere, so that the statement
has no side conditions; and most changes leave most views alone, so that a change is
described by one equation for each view.

The operations that trust their handles fail where a handle leads nowhere. On a well-formed
graph they do not, for the handles found in it, and then they answer what the views say.

## Main definitions

* `Graph.portsAt?`, `Graph.nodeIdOf?`, `Graph.partner?`, `Graph.edge?`, `Graph.message?`,
  `Graph.constant?`, `Graph.kind?`, `Graph.role?`: The views.
* `Graph.ports`: The terminals of the node of a terminal.
* `Graph.WellFormed`: Terminals and nodes, partners and edges agree.

## Theorems

* `WellFormed.congr`: Graphs with the same views are well formed together.
* `wellFormed_withNode`, `wellFormed_joinTerminals`: A node more, or an edge more, keeps a
  graph well formed.
* `wellFormed_of_reachable`: Every reachable graph is well formed.
* `terminal_eq_ok`, `ownerOf_eq_ok`, `label_eq_ok`: Trusted handles lead somewhere.
* `mem_ports`, `mem_ports_of_nodeIdOf?`, `mem_ports_self`, `nodup_ports`: A terminal and the other
  terminals of its node.
* `same_of_mem_ports`: The terminals of a node have the node in common.
* `partner_symm`, `hasTerminal_of_partner?`: Partners are mutual, and there.
-/

namespace MessagePlan

namespace Graph

/-- The terminals that the node in a place lists. -/
def portsAt? (g : Graph) (i : Nat) : Option (List TerminalId) := g.nodes[i]?.map Node.terminals

/-- The node that a terminal points to. -/
def nodeIdOf? (g : Graph) (p : TerminalId) : Option NodeId :=
  g.terminals[p.index]?.map Terminal.node

/-- The partner of a terminal. -/
def partner? (g : Graph) (p : TerminalId) : Option TerminalId :=
  g.terminals[p.index]?.bind Terminal.partner

/-- The edge of a terminal. -/
def edge? (g : Graph) (p : TerminalId) : Option EdgeId := g.terminals[p.index]?.bind Terminal.edge

/-- The message that a terminal holds. -/
def message? (g : Graph) (p : TerminalId) : Option Message :=
  g.terminals[p.index]?.bind Terminal.message

/-- The literal of the node that a terminal points to, if that node produces a constant. -/
def constant? (g : Graph) (p : TerminalId) : Option Value :=
  (g.nodeIdOf? p).bind fun n => g.nodes[n.slot]?.bind Node.constant

/-- The kind of the node that a terminal points to. -/
def kind? (g : Graph) (p : TerminalId) : Option String :=
  (g.nodeIdOf? p).bind fun n => g.nodes[n.slot]?.map Node.kind

/-- The role of a terminal. -/
def role? (g : Graph) (p : TerminalId) : Option String := g.terminals[p.index]?.map Terminal.role

/-- The terminals of the node that a terminal points to, itself among them. -/
def ports (g : Graph) (x : TerminalId) : List TerminalId :=
  ((g.nodeIdOf? x).bind fun n => g.portsAt? n.slot).getD []

/-- Nodes list exactly the terminals that point to them, each once, and partners and edges
    tell of the same connections. -/
structure WellFormed (g : Graph) : Prop where
  owner : ∀ p n, g.nodeIdOf? p = some n →
    n.graph = g.id ∧ ∃ ps, g.portsAt? n.slot = some ps ∧ p ∈ ps
  listed : ∀ i ps, g.portsAt? i = some ps → ps.Nodup ∧ ∀ p ∈ ps, g.nodeIdOf? p = some ⟨g.id, i⟩
  joined : ∀ p, g.edge? p = none ↔ g.partner? p = none
  partners : ∀ p q, g.partner? p = some q →
    q ≠ p ∧ g.partner? q = some p ∧ g.edge? q = g.edge? p
  sides : ∀ p e, g.edge? p = some e ↔
    ∃ edge : Edge, g.edges[e.index]? = some edge ∧ (edge.a = p ∨ edge.b = p)
  ends : ∀ (i : Nat) (edge : Edge), g.edges[i]? = some edge → g.partner? edge.a = some edge.b

/-- Graphs with the same identity, views and edges are well formed together. -/
theorem WellFormed.congr {g g' : Graph} (h : g.WellFormed) (hid : g'.id = g.id)
    (hports : ∀ i, g'.portsAt? i = g.portsAt? i) (hnode : ∀ p, g'.nodeIdOf? p = g.nodeIdOf? p)
    (hpartner : ∀ p, g'.partner? p = g.partner? p) (hedge : ∀ p, g'.edge? p = g.edge? p)
    (hedges : g'.edges = g.edges) : g'.WellFormed where
  owner p n hp := by
    rw [hid, hports]
    exact h.owner p n (hnode p ▸ hp)
  listed i ps hi := by
    simp only [hid, hnode]
    exact h.listed i ps (hports i ▸ hi)
  joined p := by
    rw [hedge, hpartner]
    exact h.joined p
  partners p q hp := by
    rw [hpartner, hedge, hedge]
    exact h.partners p q (hpartner p ▸ hp)
  sides p e := by
    rw [hedge, hedges]
    exact h.sides p e
  ends i edge hi := by
    rw [hpartner]
    exact h.ends i edge (hedges ▸ hi)

section Changes

/-! ### The views after a change -/

/-- The terminals added next are those behind the ones there are. -/
theorem mem_nextTerminals {g : Graph} {n : Nat} {p : TerminalId} :
    p ∈ g.nextTerminals n ↔ g.terminals.size ≤ p.index ∧ p.index < g.terminals.size + n := by
  simp only [nextTerminals, List.mem_map, List.mem_range'_1]
  constructor
  · rintro ⟨i, hi, rfl⟩
    exact hi
  · intro hp
    exact ⟨p.index, hp, rfl⟩

theorem nodup_nextTerminals (g : Graph) (n : Nat) : (g.nextTerminals n).Nodup := by
  refine List.Pairwise.map TerminalId.mk (fun i j hij heq => ?_) List.nodup_range'
  exact hij (TerminalId.mk.inj heq)

variable (g : Graph) (name kind : String) (roles : List String) (constant : Option Value)

/-- A terminal of the graph with a node more is one that there was, or a new one of that node,
    or none at all. -/
theorem getElem?_withNode (i : Nat) : (g.withNode name kind roles constant).terminals[i]? =
    if i < g.terminals.size then g.terminals[i]?
    else (roles[i - g.terminals.size]?).map (danglingTerminal g.nextNode) := by
  rw [withNode, ← Array.getElem?_toList, Array.toList_appendList, List.getElem?_append,
    Array.length_toList, Array.getElem?_toList, List.getElem?_map]

theorem portsAt?_withNode (i : Nat) : (g.withNode name kind roles constant).portsAt? i =
    if i = g.nodes.size then some (g.nextTerminals roles.length) else g.portsAt? i := by
  simp only [portsAt?, withNode, Array.getElem?_push]
  split
  · rfl
  · rfl

theorem nodeIdOf?_withNode (p : TerminalId) : (g.withNode name kind roles constant).nodeIdOf? p =
    if p ∈ g.nextTerminals roles.length then some g.nextNode else g.nodeIdOf? p := by
  simp only [nodeIdOf?, getElem?_withNode, mem_nextTerminals]
  by_cases hp : p.index < g.terminals.size
  · rw [if_pos hp, if_neg (by omega)]
  · -- Behind the old terminals there are as many new ones as the node has roles.
    rw [if_neg hp, Array.getElem?_eq_none (by omega : g.terminals.size ≤ p.index)]
    by_cases hr : p.index - g.terminals.size < roles.length
    · rw [if_pos (by omega), List.getElem?_eq_getElem hr]
      rfl
    · rw [if_neg (by omega), List.getElem?_eq_none (by omega)]
      rfl

theorem partner?_withNode (p : TerminalId) :
    (g.withNode name kind roles constant).partner? p = g.partner? p := by
  simp only [partner?, getElem?_withNode]
  split
  · rfl
  · -- A new terminal is dangling, and before there was none.
    rename_i hp
    rw [Array.getElem?_eq_none (by omega)]
    cases roles[p.index - g.terminals.size]? with
    | none => rfl
    | some role => rfl

theorem edge?_withNode (p : TerminalId) :
    (g.withNode name kind roles constant).edge? p = g.edge? p := by
  simp only [edge?, getElem?_withNode]
  split
  · rfl
  · -- A new terminal has no edge, and before there was none.
    rename_i hp
    rw [Array.getElem?_eq_none (by omega)]
    cases roles[p.index - g.terminals.size]? with
    | none => rfl
    | some role => rfl

variable {g} {a b : TerminalId} (label : Option VariableId)

/-- Both ends are written, and if they were one, the last of the two counts. -/
theorem getElem?_joinTerminals (i : Nat) : (g.joinTerminals name a b label).2.terminals[i]? =
    if b.index = i then (if a.index = i then (g.terminals[i]?).map
        (Terminal.joined ⟨g.edges.size⟩ b) else g.terminals[i]?).map
      (Terminal.joined ⟨g.edges.size⟩ a)
    else if a.index = i then (g.terminals[i]?).map (Terminal.joined ⟨g.edges.size⟩ b)
    else g.terminals[i]? := by
  simp only [joinTerminals, Array.getElem?_modify]

theorem nodeIdOf?_joinTerminals (p : TerminalId) :
    (g.joinTerminals name a b label).2.nodeIdOf? p = g.nodeIdOf? p := by
  simp only [nodeIdOf?, getElem?_joinTerminals]
  split
  · split
    · simp only [Option.map_map]; rfl
    · simp only [Option.map_map]; rfl
  · split
    · simp only [Option.map_map]; rfl
    · rfl

/-- The two that are joined are partners of one another. -/
theorem partner?_joinTerminals (ha : g.IsFree a) (hb : g.IsFree b) (p : TerminalId) :
    (g.joinTerminals name a b label).2.partner? p =
      if p = b then some a else if p = a then some b else g.partner? p := by
  rcases ha with ⟨ta, hta, _⟩
  rcases hb with ⟨tb, htb, _⟩
  simp only [partner?, getElem?_joinTerminals]
  by_cases hpb : p = b
  · -- The second side is written first, and the first side leaves it as it is.
    rw [hpb, if_pos rfl, if_pos rfl, htb]
    split
    · rfl
    · rfl
  · have hib : b.index ≠ p.index := fun hi => hpb (TerminalId.eq_of_index_eq hi.symm)
    rw [if_neg hib, if_neg hpb]
    by_cases hpa : p = a
    · rw [hpa, if_pos rfl, if_pos rfl, hta]
      rfl
    · have hia : a.index ≠ p.index := fun hi => hpa (TerminalId.eq_of_index_eq hi.symm)
      rw [if_neg hia, if_neg hpa]

/-- The two that are joined are on the new edge. -/
theorem edge?_joinTerminals (ha : g.IsFree a) (hb : g.IsFree b) (p : TerminalId) :
    (g.joinTerminals name a b label).2.edge? p =
      if p = b ∨ p = a then some ⟨g.edges.size⟩ else g.edge? p := by
  rcases ha with ⟨ta, hta, _⟩
  rcases hb with ⟨tb, htb, _⟩
  simp only [edge?, getElem?_joinTerminals]
  by_cases hpb : p = b
  · -- Whichever end is written last, it is on the new edge.
    rw [hpb, if_pos rfl, if_pos (Or.inl rfl), htb]
    split
    · rfl
    · rfl
  · -- Terminals that are not the same are in different places.
    have hib : b.index ≠ p.index := fun hi => hpb (TerminalId.eq_of_index_eq hi.symm)
    rw [if_neg hib]
    by_cases hpa : p = a
    · rw [hpa, if_pos rfl, if_pos (Or.inr rfl), hta]
      rfl
    · have hia : a.index ≠ p.index := fun hi => hpa (TerminalId.eq_of_index_eq hi.symm)
      rw [if_neg hia, if_neg (by simp only [hpb, hpa, or_self, not_false_eq_true])]

end Changes

/-! ### Well-formed graphs stay so -/

theorem lt_of_portsAt? {g : Graph} {i : Nat} {ps : List TerminalId} (h : g.portsAt? i = some ps) :
    i < g.nodes.size := by
  rcases Option.map_eq_some_iff.1 h with ⟨node, hnode, _⟩
  exact (Array.getElem?_eq_some_iff.1 hnode).1

theorem lt_of_nodeIdOf? {g : Graph} {p : TerminalId} {n : NodeId} (h : g.nodeIdOf? p = some n) :
    p.index < g.terminals.size := by
  rcases Option.map_eq_some_iff.1 h with ⟨terminal, hterminal, _⟩
  exact (Array.getElem?_eq_some_iff.1 hterminal).1

theorem IsFree.partner?_eq_none {g : Graph} {p : TerminalId} (h : g.IsFree p) :
    g.partner? p = none := by
  rcases h with ⟨terminal, hget, hpartner⟩
  rw [partner?, hget, Option.bind_some, hpartner]

/-- The graph without nodes is well formed: its views answer nothing. -/
theorem wellFormed_empty (id : GraphId) : (Graph.empty id).WellFormed where
  owner p n hp := nomatch hp
  listed i ps hi := nomatch hi
  joined p := iff_of_true rfl rfl
  partners p q hp := nomatch hp
  sides p e := by
    constructor
    · intro hp
      exact nomatch hp
    · rintro ⟨edge, he, _⟩
      exact nomatch he
  ends i edge hi := nomatch hi

/-- A node more keeps a graph well formed: it lists the new terminals, which are dangling. -/
theorem wellFormed_withNode {g : Graph} (h : g.WellFormed) (name kind : String)
    (roles : List String) (constant : Option Value) :
    (g.withNode name kind roles constant).WellFormed where
  owner p n hp := by
    rw [nodeIdOf?_withNode] at hp
    rw [portsAt?_withNode]
    split at hp
    · rename_i hnew
      rcases Option.some.inj hp with rfl
      exact ⟨rfl, _, if_pos rfl, hnew⟩
    · -- An old node is not in the place of the new one.
      rcases h.owner p n hp with ⟨hid, ps, hps, hmem⟩
      have hlt := lt_of_portsAt? hps
      exact ⟨hid, ps, by rw [if_neg (by omega), hps], hmem⟩
  listed i ps hi := by
    rw [portsAt?_withNode] at hi
    split at hi
    · rename_i hnew
      rcases Option.some.inj hi with rfl
      refine ⟨nodup_nextTerminals g _, fun p hp => ?_⟩
      rw [nodeIdOf?_withNode, if_pos hp, hnew]
      rfl
    · -- What an old node lists is there, and so it is not new.
      rcases h.listed i ps hi with ⟨hnodup, hnode⟩
      refine ⟨hnodup, fun p hp => ?_⟩
      have hlt := lt_of_nodeIdOf? (hnode p hp)
      rw [nodeIdOf?_withNode, if_neg (fun hnew => by
        have := (mem_nextTerminals.1 hnew).1
        omega)]
      exact hnode p hp
  joined p := by
    rw [edge?_withNode, partner?_withNode]
    exact h.joined p
  partners p q hp := by
    rw [partner?_withNode] at hp ⊢
    rw [edge?_withNode, edge?_withNode]
    exact h.partners p q hp
  sides p e := by
    rw [edge?_withNode]
    exact h.sides p e
  ends i edge hi := by
    rw [partner?_withNode]
    exact h.ends i edge hi

section Join

variable {g : Graph} {a b : TerminalId}

/-- The last edge is the new one, and those before it are as they were. -/
theorem getElem?_edges_joinTerminals (name : String) (label : Option VariableId) (i : Nat) :
    (g.joinTerminals name a b label).2.edges[i]? =
      if i = g.edges.size then some { name, a, b, label } else g.edges[i]? := by
  simp only [joinTerminals, Array.getElem?_push]

/-- A free terminal has neither a partner nor an edge. -/
theorem WellFormed.views_of_isFree (h : g.WellFormed) {p : TerminalId} (hp : g.IsFree p) :
    g.partner? p = none ∧ g.edge? p = none :=
  ⟨hp.partner?_eq_none, (h.joined p).2 hp.partner?_eq_none⟩

variable (h : g.WellFormed) (name : String) (label : Option VariableId) (ha : g.IsFree a)
  (hb : g.IsFree b) (hab : a ≠ b)

include h ha hb

/-- The two terminals that are joined are free. -/
theorem views_of_joined {p : TerminalId} (hp : p = b ∨ p = a) :
    g.partner? p = none ∧ g.edge? p = none := by
  rcases hp with rfl | rfl
  · exact h.views_of_isFree hb
  · exact h.views_of_isFree ha

/-- An edge is one of those before, or the new one between two terminals that had none. -/
theorem sides_joinTerminals (p : TerminalId) (e : EdgeId) :
    (g.joinTerminals name a b label).2.edge? p = some e ↔
      ∃ edge : Edge, (g.joinTerminals name a b label).2.edges[e.index]? = some edge ∧
        (edge.a = p ∨ edge.b = p) := by
  rw [edge?_joinTerminals name label ha hb, getElem?_edges_joinTerminals]
  by_cases hnew : p = b ∨ p = a
  · rw [if_pos hnew]
    constructor
    · intro he
      rcases Option.some.inj he with rfl
      exact ⟨_, if_pos rfl, hnew.symm.imp Eq.symm Eq.symm⟩
    · rintro ⟨edge, hget, hside⟩
      split at hget
      · rename_i he
        rw [← he]
      · -- An edge that was there before would be the edge of a free terminal.
        have hold := (h.sides p e).2 ⟨edge, hget, hside⟩
        rw [(views_of_joined h ha hb hnew).2] at hold
        exact nomatch hold
  · rw [if_neg hnew, h.sides]
    constructor
    · rintro ⟨edge, hget, hside⟩
      have hlt := (Array.getElem?_eq_some_iff.1 hget).1
      exact ⟨edge, by rw [if_neg (by omega), hget], hside⟩
    · rintro ⟨edge, hget, hside⟩
      split at hget
      · rcases Option.some.inj hget with rfl
        exact absurd (hside.symm.imp Eq.symm Eq.symm) hnew
      · exact ⟨edge, hget, hside⟩

include hab

/-- Partners are the two terminals that are joined, or were partners before. -/
theorem partners_joinTerminals (p q : TerminalId)
    (hp : (g.joinTerminals name a b label).2.partner? p = some q) :
    q ≠ p ∧ (g.joinTerminals name a b label).2.partner? q = some p ∧
      (g.joinTerminals name a b label).2.edge? q =
        (g.joinTerminals name a b label).2.edge? p := by
  have hpartner := partner?_joinTerminals name label ha hb
  have hedge := edge?_joinTerminals name label ha hb
  rw [hpartner] at hp
  by_cases hpb : p = b
  · rw [if_pos hpb] at hp
    -- The partner of the second is the first, which is another terminal.
    rcases Option.some.inj hp with rfl
    rw [hpb, hpartner, if_neg hab, if_pos rfl, hedge, hedge, if_pos (Or.inr rfl),
      if_pos (Or.inl rfl)]
    exact ⟨hab, rfl, rfl⟩
  rw [if_neg hpb] at hp
  by_cases hpa : p = a
  · rw [if_pos hpa] at hp
    rcases Option.some.inj hp with rfl
    rw [hpa, hpartner, if_pos rfl, hedge, hedge, if_pos (Or.inl rfl), if_pos (Or.inr rfl)]
    exact ⟨fun hc => hab hc.symm, rfl, rfl⟩
  · rw [if_neg hpa] at hp
    rcases h.partners p q hp with ⟨hne, hback, hsame⟩
    -- The partner of another terminal is not free, so it is neither of the two.
    have hq : ¬ (q = b ∨ q = a) := by
      intro hq
      rw [(views_of_joined h ha hb hq).1] at hback
      exact nomatch hback
    rw [hpartner, if_neg (fun hc => hq (Or.inl hc)), if_neg (fun hc => hq (Or.inr hc)), hedge,
      hedge, if_neg hq, if_neg (by simp only [hpa, hpb, or_self, not_false_eq_true])]
    exact ⟨hne, hback, hsame⟩

/-- The sides of an edge are partners. -/
theorem ends_joinTerminals (i : Nat) (edge : Edge)
    (hi : (g.joinTerminals name a b label).2.edges[i]? = some edge) :
    (g.joinTerminals name a b label).2.partner? edge.a = some edge.b := by
  rw [getElem?_edges_joinTerminals] at hi
  rw [partner?_joinTerminals name label ha hb]
  split at hi
  · rcases Option.some.inj hi with rfl
    rw [if_neg hab, if_pos rfl]
  · -- The sides of an old edge are not free.
    have hold := h.ends i edge hi
    have hnew : ¬ (edge.a = b ∨ edge.a = a) := by
      intro hc
      rw [(views_of_joined h ha hb hc).1] at hold
      exact nomatch hold
    rw [if_neg (fun hc => hnew (Or.inl hc)), if_neg (fun hc => hnew (Or.inr hc))]
    exact hold

/-- An edge more keeps a graph well formed: the two terminals it joins were free, so no other
    edge and no other partner is theirs. -/
theorem wellFormed_joinTerminals : (g.joinTerminals name a b label).2.WellFormed where
  owner p n hp := by
    rw [nodeIdOf?_joinTerminals] at hp
    exact h.owner p n hp
  listed i ps hi := by
    simp only [nodeIdOf?_joinTerminals]
    exact h.listed i ps hi
  joined p := by
    rw [edge?_joinTerminals name label ha hb, partner?_joinTerminals name label ha hb]
    -- Both ends get an edge and a partner at once; the others are as they were.
    by_cases hpb : p = b
    · simp only [hpb, true_or, if_true, reduceCtorEq]
    · by_cases hpa : p = a
      · simp only [hpa, or_true, if_true, if_neg hab, reduceCtorEq]
      · simp only [hpa, hpb, or_self, if_false]
        exact h.joined p
  partners := partners_joinTerminals h name label ha hb hab
  sides := sides_joinTerminals h name label ha hb
  ends := ends_joinTerminals h name label ha hb hab

end Join

/-- Every change keeps a graph well formed; five of the seven leave its shape as it is. -/
theorem wellFormed_of_change (g g' : Graph) (h : g.WellFormed) (hchange : Change g g') :
    g'.WellFormed := by
  cases hchange with
  | numbers counters =>
    exact h.congr rfl (fun _ => rfl) (fun _ => rfl) (fun _ => rfl) (fun _ => rfl) rfl
  | index =>
    exact h.congr rfl (fun _ => rfl) (fun _ => rfl) (fun _ => rfl) (fun _ => rfl) rfl
  | node name kind roles constant _ _ => exact wellFormed_withNode h name kind roles constant
  | label name =>
    exact h.congr rfl (fun _ => rfl) (fun _ => rfl) (fun _ => rfl) (fun _ => rfl) rfl
  | edge name a b label ha hb hab _ => exact wellFormed_joinTerminals h name label ha hb hab
  | param n key value _ =>
    -- No view looks at parameters, but the node is written anew.
    refine h.congr rfl (fun i => ?_) (fun _ => rfl) (fun _ => rfl) (fun _ => rfl) rfl
    simp only [portsAt?, Array.getElem?_modify]
    split
    · rw [Option.map_map]
      rfl
    · rfl
  | message p message =>
    -- A message is written to a terminal, whose node, partner and edge stay.
    refine h.congr rfl (fun _ => rfl) (fun q => ?_) (fun q => ?_) (fun q => ?_) rfl
    · simp only [nodeIdOf?, Array.getElem?_modify]
      split
      · rw [Option.map_map]
        rfl
      · rfl
    · simp only [partner?, Array.getElem?_modify]
      split
      · rw [Option.bind_map]
        rfl
      · rfl
    · simp only [edge?, Array.getElem?_modify]
      split
      · rw [Option.bind_map]
        rfl
      · rfl

theorem wellFormed_of_reachable {g : Graph} (h : Reachable g) : g.WellFormed :=
  Reachable.of_changes wellFormed_empty wellFormed_of_change h

/-! ### Trusted handles on well-formed graphs -/

section Trusted

variable {ε : Type} {g : Graph} {p x y : TerminalId}

theorem nodeIdOf?_of_hasTerminal (hp : g.hasTerminal p = true) : ∃ n, g.nodeIdOf? p = some n := by
  rw [hasTerminal_iff] at hp
  exact ⟨_, by rw [nodeIdOf?, Array.getElem?_eq_getElem hp, Option.map_some]⟩

theorem hasTerminal_of_nodeIdOf? {n : NodeId} (h : g.nodeIdOf? p = some n) :
    g.hasTerminal p = true :=
  hasTerminal_iff.2 (lt_of_nodeIdOf? h)

theorem hasTerminal_of_edge? {e : EdgeId} (he : g.edge? p = some e) : g.hasTerminal p = true := by
  rcases Option.bind_eq_some_iff.1 he with ⟨terminal, hget, _⟩
  exact hasTerminal_iff.2 (Array.getElem?_eq_some_iff.1 hget).1

/-- A terminal that is there is found, and it is what the views say of it. -/
theorem terminal_eq_ok (hp : g.hasTerminal p = true) :
    ∃ terminal, (g.terminal p : Except (Failure ε) Terminal) = .ok terminal ∧
      g.nodeIdOf? p = some terminal.node ∧ g.partner? p = terminal.partner ∧
      g.edge? p = terminal.edge ∧ g.message? p = terminal.message := by
  rw [hasTerminal_iff] at hp
  refine ⟨g.terminals[p.index], terminal_eq_of_lt hp, ?_, ?_, ?_, ?_⟩
  · rw [nodeIdOf?, Array.getElem?_eq_getElem hp, Option.map_some]
  · rw [partner?, Array.getElem?_eq_getElem hp, Option.bind_some]
  · rw [edge?, Array.getElem?_eq_getElem hp, Option.bind_some]
  · rw [message?, Array.getElem?_eq_getElem hp, Option.bind_some]

variable (h : g.WellFormed)

include h

/-- The node of a terminal lists, and produces, what the terminal's views say. -/
theorem WellFormed.node_eq_ok {n : NodeId} (hn : g.nodeIdOf? p = some n) :
    ∃ node, (g.node n : Except (Failure ε) Node) = .ok node ∧ node.terminals = g.ports p ∧
      node.constant = g.constant? p := by
  -- The node that a terminal points to is in its place.
  rcases h.owner p n hn with ⟨_, ps, hps, _⟩
  rcases Option.map_eq_some_iff.1 hps with ⟨node, hnode, hterminals⟩
  refine ⟨node, ?_, ?_, ?_⟩
  · rw [Graph.node, hnode, handled_some]
  · rw [ports, hn, Option.bind_some, hps, Option.getD_some, hterminals]
  · rw [constant?, hn, Option.bind_some, hnode, Option.bind_some]

/-- The node of a terminal that is there is found, and it is what the views say of it. -/
theorem WellFormed.ownerOf_eq_ok (hp : g.hasTerminal p = true) :
    ∃ node, (g.ownerOf p : Except (Failure ε) Node) = .ok node ∧ node.terminals = g.ports p ∧
      node.constant = g.constant? p := by
  rcases terminal_eq_ok (ε := ε) hp with ⟨terminal, hget, hid, _⟩
  rcases h.node_eq_ok (ε := ε) hid with ⟨node, hnode, hviews⟩
  exact ⟨node, by rw [ownerOf, hget, ok_bind, hnode], hviews⟩

/-- The literal at a terminal that is there is what the view says. -/
theorem WellFormed.constantAt_eq_ok (hp : g.hasTerminal p = true) :
    (g.constantAt p : Except (Failure ε) (Option Value)) = .ok (g.constant? p) := by
  rcases h.ownerOf_eq_ok (ε := ε) hp with ⟨node, hnode, _, hconstant⟩
  rw [constantAt, hnode, ok_bind, ← hconstant]
  rfl

/-- Every terminal has a label, one that is not there too. -/
theorem WellFormed.label_eq_ok (p : TerminalId) :
    ∃ label, (g.label p : Except (Failure ε) String) = .ok label := by
  unfold label
  split
  · rename_i terminal hget
    have hid : g.nodeIdOf? p = some terminal.node := by rw [nodeIdOf?, hget, Option.map_some]
    rcases h.node_eq_ok (ε := ε) hid with ⟨node, hnode, _⟩
    exact ⟨_, by rw [hnode, ok_bind]; rfl⟩
  · exact ⟨_, rfl⟩

/-- The terminals of a node point to it, each listed once. -/
theorem WellFormed.mem_ports (hy : y ∈ g.ports x) :
    ∃ n, g.nodeIdOf? x = some n ∧ g.nodeIdOf? y = some n := by
  unfold ports at hy
  cases hx : g.nodeIdOf? x with
  | none => rw [hx] at hy; exact absurd hy List.not_mem_nil
  | some n =>
    -- What the node lists points to the node.
    rcases h.owner x n hx with ⟨hid, ps, hps, _⟩
    rw [hx, Option.bind_some, hps, Option.getD_some] at hy
    refine ⟨n, rfl, ?_⟩
    rw [(h.listed n.slot ps hps).2 y hy, ← hid]

/-- A node lists every terminal that points to it. -/
theorem WellFormed.mem_ports_of_nodeIdOf? {n : NodeId} (hx : g.nodeIdOf? x = some n)
    (hy : g.nodeIdOf? y = some n) : y ∈ g.ports x := by
  rcases h.owner y n hy with ⟨_, ps, hps, hmem⟩
  rw [ports, hx, Option.bind_some, hps, Option.getD_some]
  exact hmem

theorem WellFormed.mem_ports_self (hx : g.hasTerminal x = true) : x ∈ g.ports x := by
  rcases nodeIdOf?_of_hasTerminal hx with ⟨n, hn⟩
  exact h.mem_ports_of_nodeIdOf? hn hn

theorem WellFormed.hasTerminal_of_mem_ports (hy : y ∈ g.ports x) : g.hasTerminal y = true := by
  rcases h.mem_ports hy with ⟨n, _, hn⟩
  exact hasTerminal_of_nodeIdOf? hn

theorem WellFormed.nodup_ports (x : TerminalId) : (g.ports x).Nodup := by
  unfold ports
  cases hx : g.nodeIdOf? x with
  | none => exact List.nodup_nil
  | some n =>
    rcases h.owner x n hx with ⟨_, ps, hps, _⟩
    rw [Option.bind_some, hps, Option.getD_some]
    exact (h.listed n.slot ps hps).1

/-- A terminal is one of the terminals of its node, and the others are one less. -/
theorem WellFormed.length_others (hx : g.hasTerminal x = true) :
    ((g.ports x).filter (· ≠ x)).length + 1 = (g.ports x).length := by
  have hmem := h.mem_ports_self hx
  -- In a list without repetitions, to leave out an entry is to erase it.
  have hfilter : (g.ports x).filter (· ≠ x) = (g.ports x).erase x := by
    rw [(h.nodup_ports x).erase_eq_filter]
    refine List.filter_congr fun y _ => ?_
    rw [Bool.eq_iff_iff, bne_iff_ne, decide_eq_true_eq]
  have hpos := List.length_pos_of_mem hmem
  rw [hfilter, List.length_erase_of_mem hmem]
  omega

theorem WellFormed.partner_symm (hp : g.partner? x = some y) : g.partner? y = some x :=
  (h.partners x y hp).2.1

theorem WellFormed.hasTerminal_of_partner? (hp : g.partner? x = some y) :
    g.hasTerminal y = true := by
  rcases Option.bind_eq_some_iff.1 (h.partner_symm hp) with ⟨terminal, hget, _⟩
  exact hasTerminal_iff.2 (Array.getElem?_eq_some_iff.1 hget).1

theorem WellFormed.edge?_isSome_of_partner? (hp : g.partner? x = some y) :
    ∃ e, g.edge? x = some e := by
  cases he : g.edge? x with
  | none =>
    rw [(h.joined x).1 he] at hp
    exact nomatch hp
  | some e => exact ⟨e, rfl⟩

theorem WellFormed.partner?_isSome_of_edge? {e : EdgeId} (he : g.edge? x = some e) :
    ∃ q, g.partner? x = some q := by
  cases hq : g.partner? x with
  | none =>
    rw [(h.joined x).2 hq] at he
    exact nomatch he
  | some q => exact ⟨q, rfl⟩

theorem WellFormed.hasEdge_of_edge? {e : EdgeId} (he : g.edge? x = some e) :
    g.hasEdge e = true := by
  rcases (h.sides x e).1 he with ⟨edge, hget, _⟩
  exact decide_eq_true (Array.getElem?_eq_some_iff.1 hget).1

/-- Terminals of one node have the same terminals at their node, and the same literal there. -/
theorem WellFormed.same_of_mem_ports (hy : y ∈ g.ports x) :
    g.ports y = g.ports x ∧ g.constant? y = g.constant? x := by
  rcases h.mem_ports hy with ⟨n, hx, hn⟩
  unfold ports constant?
  rw [hx, hn]
  exact ⟨rfl, rfl⟩

end Trusted

end Graph

end MessagePlan
