import MessagePlan.Proofs.Graph.WellFormed

/-!
# Coherent Graphs

Beside terminals and connections a graph records other things more than once. The roles of a
node's terminals are those of its kind; the label of an edge is also an entry in a variable's
list; the name of a node or a variable is also an entry in an index. Nothing but the operations
keeps such accounts in agreement, and here it is shown that they do.

Each account has a structure of its own, with one lemma that every change preserves it: `Typed`
for nodes and their kinds, `Labelled` for edges and variables, `Indexed` for names. New terminals
get the roles they were asked for, and a kind that has roles already refuses others; so roles are
looked up where terminals are added, by `role?_withNode`. An edge that is added is behind all
edges there are, so no variable lists it yet.

`Closed` says that every handle a graph stores leads to something in it, and carries its identity
where it carries any. It needs no induction of its own: handles that are stored twice lead back.

## Main definitions

* `Graph.labelOf?`: The variable that labels an edge.
* `Graph.Typed`: Nodes are as their kinds ask.
* `Graph.Labelled`: Variables list the edges they label.
* `Graph.Indexed`: Names lead to nodes and variables of the graph.
* `Graph.Closed`: Every handle that is stored leads to something.
* `Graph.Coherent`: All that a graph records more than once agrees.
* `Graph.sharedLabel`: A graph in which a variable labels two edges.

## Theorems

* `typed_of_change`, `labelled_of_change`, `indexed_of_change`: What each change preserves.
* `closed_of_accounts`: Where all accounts agree, no handle leads out of the graph.
* `closed_of_reachable`: No handle leads out of a reachable graph.
* `coherent_of_reachable`: Every reachable graph is coherent.
-/

namespace MessagePlan

namespace Graph

/-- The variable that labels an edge. -/
def labelOf? (g : Graph) (e : EdgeId) : Option VariableId := g.edges[e.index]?.bind Edge.label

/-- Nodes have the roles that are recorded for their kind, literals are at constants with their
    one terminal only, and no parameter is there twice. -/
structure Typed (g : Graph) : Prop where
  roles : ∀ (i : Nat) node, g.nodes[i]? = some node →
    ∃ roles, g.kindRoles[node.kind]? = some roles ∧ node.terminals.map g.role? = roles.map some
  constants : ∀ (i : Nat) node, g.nodes[i]? = some node → node.constant ≠ none →
    node.kind = constantKind ∧ node.terminals.map g.role? = constantRoles.map some
  keys : ∀ (i : Nat) node, g.nodes[i]? = some node → (node.params.map Prod.fst).Nodup

/-- A variable lists the edges that it labels, each once, and the labels of edges are variables of
    the graph. -/
structure Labelled (g : Graph) : Prop where
  lists : ∀ (i : Nat) w, g.vars[i]? = some w →
    w.edges.toList.Nodup ∧ ∀ e, e ∈ w.edges.toList ↔ g.labelOf? e = some ⟨g.id, i⟩
  known : ∀ e v, g.labelOf? e = some v → g.hasVariable v = true

/-- The names in the index lead to nodes and variables of the graph. -/
structure Indexed (g : Graph) : Prop where
  nodes : ∀ (name : String) n, g.nodeNames[name]? = some n → g.hasNode n = true
  vars : ∀ (name : String) v, g.variableNames[name]? = some v → g.hasVariable v = true

/-- Every handle that the graph stores was issued by it and leads to something. -/
structure Closed (g : Graph) : Prop extends g.Indexed where
  ofTerminal : ∀ (i : Nat) terminal, g.terminals[i]? = some terminal →
    g.hasNode terminal.node = true ∧ (∀ e, terminal.edge = some e → g.hasEdge e = true) ∧
      ∀ q, terminal.partner = some q → g.hasTerminal q = true
  ofNode : ∀ (i : Nat) node, g.nodes[i]? = some node →
    ∀ p ∈ node.terminals, g.hasTerminal p = true
  ofEdge : ∀ (i : Nat) edge, g.edges[i]? = some edge → g.hasTerminal edge.a = true ∧
    g.hasTerminal edge.b = true ∧ ∀ v, edge.label = some v → g.hasVariable v = true
  ofVariable : ∀ (i : Nat) w, g.vars[i]? = some w → ∀ e ∈ w.edges.toList, g.hasEdge e = true

/-- What the graph records more than once agrees, and every handle leads to something. -/
structure Coherent (g : Graph) : Prop extends g.WellFormed, g.Typed, g.Labelled, g.Closed

/-! ### Nodes and their kinds -/

section Typed

variable {g : Graph} {name kind : String} {roles : List String} {constant : Option Value}

theorem role?_withNode (p : TerminalId) : (g.withNode name kind roles constant).role? p =
    if p.index < g.terminals.size then g.role? p else roles[p.index - g.terminals.size]? := by
  simp only [role?, getElem?_withNode]
  split
  · rfl
  · rw [Option.map_map]
    exact Option.map_id'

/-- The new terminals have the roles that they were asked for, in order. -/
theorem map_role?_nextTerminals :
    (g.nextTerminals roles.length).map (g.withNode name kind roles constant).role? =
      roles.map some := by
  refine List.ext_getElem? fun k => ?_
  simp only [nextTerminals, List.getElem?_map]
  by_cases hk : k < roles.length
  · have hnew : ¬ g.terminals.size + 1 * k < g.terminals.size := by omega
    have hplace : g.terminals.size + 1 * k - g.terminals.size = k := by omega
    rw [List.getElem?_range' hk, Option.map_some, Option.map_some, role?_withNode, if_neg hnew,
      hplace, List.getElem?_eq_getElem hk, Option.map_some]
  · rw [List.getElem?_eq_none (by rw [List.length_range']; omega),
      List.getElem?_eq_none (by omega)]
    rfl

/-- The terminals of an old node keep their roles. -/
theorem WellFormed.map_role?_withNode (h : g.WellFormed) {i : Nat} {node : Node}
    (hnode : g.nodes[i]? = some node) :
    node.terminals.map (g.withNode name kind roles constant).role? =
      node.terminals.map g.role? := by
  refine List.map_congr_left fun p hp => ?_
  have hps : g.portsAt? i = some node.terminals := by rw [portsAt?, hnode, Option.map_some]
  rw [role?_withNode, if_pos (lt_of_nodeIdOf? ((h.listed i _ hps).2 p hp))]

/-- A kind that refuses no roles has these, or none yet. -/
theorem kindRoles_of_roleConflict (hroles : g.roleConflict kind roles = none) :
    g.kindRoles[kind]? = none ∨ g.kindRoles[kind]? = some roles := by
  unfold roleConflict at hroles
  -- The checks come one after the other; only two ways through them find no conflict.
  split at hroles
  · rename_i hnone
    exact Or.inl hnone
  · rename_i expected hsome
    split at hroles
    · exact nomatch hroles
    · split at hroles
      · exact nomatch hroles
      · rename_i heq
        rw [Decidable.not_not] at heq
        exact Or.inr (heq ▸ hsome)

/-- With a node more, its kind has its roles, and the kinds that had roles keep them. -/
theorem kindRoles_withNode (name : String) (constant : Option Value)
    (hroles : g.roleConflict kind roles = none) :
    (g.withNode name kind roles constant).kindRoles[kind]? = some roles ∧
      ∀ (k : String) rs, g.kindRoles[k]? = some rs →
        (g.withNode name kind roles constant).kindRoles[k]? = some rs := by
  simp only [withNode, Std.ExtTreeMap.getElem?_insertIfNew, Std.LawfulEqCmp.compare_eq_iff_eq,
    Std.ExtTreeMap.mem_iff_isSome_getElem?]
  refine ⟨?_, fun k rs hk => ?_⟩
  · -- The kind has no roles yet and gets them, or it has just these.
    rcases kindRoles_of_roleConflict hroles with hnone | hsome
    · simp only [hnone, Option.isSome_none, Bool.false_eq_true, not_false_eq_true, and_self,
        if_true]
    · simp only [hsome, Option.isSome_some, not_true, and_false, if_false]
  · -- The roles of a kind that has some are never replaced.
    by_cases hkind : kind = k
    · rw [hkind, hk, if_neg (by simp only [Option.isSome_some, not_true, and_false,
        not_false_eq_true])]
    · rw [if_neg (fun hc => hkind hc.1), hk]

theorem typed_empty (id : GraphId) : (Graph.empty id).Typed where
  roles _ _ hnode := nomatch hnode
  constants _ _ hnode := nomatch hnode
  keys _ _ hnode := nomatch hnode

/-- A node more is as its kind asks, and the others stay so. -/
theorem typed_withNode (h : g.WellFormed) (ht : g.Typed)
    (hroles : g.roleConflict kind roles = none)
    (hconstant : constant = none ∨ kind = constantKind ∧ roles = constantRoles) :
    (g.withNode name kind roles constant).Typed := by
  rcases kindRoles_withNode name constant hroles with ⟨hnew, hold⟩
  -- A node is the new one, or it was there and its terminals have the roles they had.
  have hnodes : ∀ (i : Nat) node, (g.withNode name kind roles constant).nodes[i]? = some node →
      node = ⟨name, kind, g.nextTerminals roles.length, constant, []⟩ ∨
        g.nodes[i]? = some node := by
    intro i node hnode
    simp only [withNode, Array.getElem?_push] at hnode
    split at hnode
    · exact Or.inl (Option.some.inj hnode).symm
    · exact Or.inr hnode
  refine ⟨fun i node hnode => ?_, fun i node hnode hliteral => ?_, fun i node hnode => ?_⟩
  · rcases hnodes i node hnode with rfl | hwas
    · exact ⟨roles, hnew, map_role?_nextTerminals⟩
    · rcases ht.roles i node hwas with ⟨rs, hrs, hmap⟩
      exact ⟨rs, hold _ _ hrs, (h.map_role?_withNode hwas).trans hmap⟩
  · rcases hnodes i node hnode with rfl | hwas
    · rcases hconstant.resolve_left hliteral with ⟨hkind, rfl⟩
      exact ⟨hkind, map_role?_nextTerminals⟩
    · rcases ht.constants i node hwas hliteral with ⟨hkind, hmap⟩
      exact ⟨hkind, (h.map_role?_withNode hwas).trans hmap⟩
  · rcases hnodes i node hnode with rfl | hwas
    · exact List.nodup_nil
    · exact ht.keys i node hwas

/-- Graphs with the same nodes, kinds and roles have nodes as their kinds ask together. -/
theorem Typed.congr {g' : Graph} (ht : g.Typed) (hnodes : g'.nodes = g.nodes)
    (hkinds : g'.kindRoles = g.kindRoles) (hrole : ∀ p, g'.role? p = g.role? p) : g'.Typed where
  roles i node hnode := by
    rw [hkinds, funext hrole]
    exact ht.roles i node (hnodes ▸ hnode)
  constants i node hnode := by
    rw [funext hrole]
    exact ht.constants i node (hnodes ▸ hnode)
  keys i node hnode := ht.keys i node (hnodes ▸ hnode)

theorem mem_keys_withParam {key k : String} {value : Value} {params : List (String × Value)} :
    k ∈ (withParam key value params).map Prod.fst ↔ k = key ∨ k ∈ params.map Prod.fst := by
  induction params with
  | nil => simp only [withParam, List.map_cons, List.map_nil, List.mem_singleton, List.not_mem_nil,
      or_false]
  | cons p rest ih =>
    rcases p with ⟨k', v'⟩
    by_cases hk : k' = key
    · simp only [withParam, hk, if_true, List.map_cons, List.mem_cons, or_self_left]
    · simp only [withParam, hk, if_false, List.map_cons, List.mem_cons, ih, or_left_comm]

/-- A parameter that is set takes its old place, or one behind all others if it had none. -/
theorem nodup_keys_withParam {key : String} {value : Value} {params : List (String × Value)}
    (h : (params.map Prod.fst).Nodup) : ((withParam key value params).map Prod.fst).Nodup := by
  induction params with
  | nil => exact List.pairwise_singleton _ key
  | cons p rest ih =>
    rcases p with ⟨k, v⟩
    rw [List.map_cons, List.nodup_cons] at h
    -- The value is replaced where its key is, and else goes to the end.
    by_cases hk : k = key
    · simp only [withParam, hk, if_true, List.map_cons, List.nodup_cons]
      exact ⟨hk ▸ h.1, h.2⟩
    · simp only [withParam, hk, if_false, List.map_cons, List.nodup_cons]
      refine ⟨fun hmem => ?_, ih h.2⟩
      rcases mem_keys_withParam.1 hmem with heq | hrest
      · exact hk heq
      · exact h.1 hrest

/-- Setting a parameter leaves the nodes as their kinds ask. -/
theorem typed_withParam (ht : g.Typed) (n : NodeId) (key : String) (value : Value) :
    Typed { g with nodes := g.nodes.modify n.slot fun m =>
      { m with params := withParam key value m.params } } := by
  -- A node is as it was, or it was one with the parameters as they were.
  have hnodes : ∀ (i : Nat) node, (g.nodes.modify n.slot fun m =>
      { m with params := withParam key value m.params })[i]? = some node →
      ∃ was, g.nodes[i]? = some was ∧
        (node = was ∨ node = { was with params := withParam key value was.params }) := by
    intro i node hnode
    rw [Array.getElem?_modify] at hnode
    split at hnode
    · rcases Option.map_eq_some_iff.1 hnode with ⟨was, hwas, rfl⟩
      exact ⟨was, hwas, Or.inr rfl⟩
    · exact ⟨node, hnode, Or.inl rfl⟩
  refine ⟨fun i node hnode => ?_, fun i node hnode hliteral => ?_, fun i node hnode => ?_⟩
  · rcases hnodes i node hnode with ⟨was, hwas, rfl | rfl⟩
    · exact ht.roles i node hwas
    · exact ht.roles i was hwas
  · rcases hnodes i node hnode with ⟨was, hwas, rfl | rfl⟩
    · exact ht.constants i node hwas hliteral
    · exact ht.constants i was hwas hliteral
  · rcases hnodes i node hnode with ⟨was, hwas, rfl | rfl⟩
    · exact ht.keys i node hwas
    · exact nodup_keys_withParam (ht.keys i was hwas)

/-- Every change leaves the nodes as their kinds ask; terminals keep their roles for good. -/
theorem typed_of_change {g' : Graph} (h : g.WellFormed) (ht : g.Typed) (hchange : Change g g') :
    g'.Typed := by
  cases hchange with
  | numbers counters => exact ht.congr rfl rfl fun _ => rfl
  | index => exact ht.congr rfl rfl fun _ => rfl
  | node name kind roles constant hroles hconstant => exact typed_withNode h ht hroles hconstant
  | label name => exact ht.congr rfl rfl fun _ => rfl
  | edge name a b label _ _ _ _ =>
    -- Joining writes an edge and a partner at two terminals, and their roles stay.
    refine ht.congr rfl rfl fun p => ?_
    simp only [role?, getElem?_joinTerminals]
    split
    · split
      · simp only [Option.map_map]; rfl
      · simp only [Option.map_map]; rfl
    · split
      · simp only [Option.map_map]; rfl
      · rfl
  | param n key value _ => exact typed_withParam ht n key value
  | message p message =>
    refine ht.congr rfl rfl fun q => ?_
    simp only [role?, Array.getElem?_modify]
    split
    · rw [Option.map_map]
      rfl
    · rfl

end Typed

/-! ### Edges and variables -/

section Labelled

variable {g : Graph} {e : EdgeId} {v : VariableId}

theorem labelled_empty (id : GraphId) : (Graph.empty id).Labelled where
  lists _ _ hw := nomatch hw
  known _ _ he := nomatch he

theorem lt_of_labelOf? (he : g.labelOf? e = some v) : e.index < g.edges.size := by
  rcases Option.bind_eq_some_iff.1 he with ⟨edge, hedge, _⟩
  exact (Array.getElem?_eq_some_iff.1 hedge).1

/-- Graphs with the same identity, edges and variables label their edges together. -/
theorem Labelled.congr {g' : Graph} (hl : g.Labelled) (hid : g'.id = g.id)
    (hedges : g'.edges = g.edges) (hvars : g'.vars = g.vars) : g'.Labelled where
  lists i w hw := by
    simp only [labelOf?, hid, hedges]
    exact hl.lists i w (hvars ▸ hw)
  known e v he := by
    rw [labelOf?, hedges] at he
    rw [hasVariable, hid, hvars]
    exact hl.known e v he

/-- A new variable labels no edge: the labels there are belong to the variables before it. -/
theorem labelled_insertVariable (hl : g.Labelled) (name : String) :
    (g.insertVariable name).2.Labelled where
  lists i w hw := by
    simp only [insertVariable, Array.getElem?_push] at hw
    split at hw
    · rename_i hi
      rcases Option.some.inj hw with rfl
      refine ⟨List.nodup_nil, fun e => iff_of_false List.not_mem_nil fun he => ?_⟩
      -- An edge with the new label would have had one that was not there.
      have hknown := hl.known e _ he
      simp only [hasVariable, insertVariable, hi, Nat.lt_irrefl, decide_false, Bool.and_false,
        Bool.false_eq_true] at hknown
    · exact hl.lists i w hw
  known e v he := by
    have hknown := hl.known e v he
    simp only [hasVariable, Bool.and_eq_true, decide_eq_true_eq] at hknown
    simp only [hasVariable, insertVariable, Array.size_push, Bool.and_eq_true, decide_eq_true_eq]
    exact ⟨hknown.1, Nat.lt_succ_of_lt hknown.2⟩

variable {a b : TerminalId} {name : String} {label : Option VariableId}

theorem labelOf?_joinTerminals (e : EdgeId) : (g.joinTerminals name a b label).2.labelOf? e =
    if e.index = g.edges.size then label else g.labelOf? e := by
  rw [labelOf?, getElem?_edges_joinTerminals]
  split
  · rfl
  · rfl

/-- A variable lists the edges it has listed, and the new edge behind them if it is the label. -/
theorem getElem?_vars_joinTerminals (hlabel : ∀ v, label = some v → g.hasVariable v = true)
    {i : Nat} {w : Variable} (hw : (g.joinTerminals name a b label).2.vars[i]? = some w) :
    ∃ was, g.vars[i]? = some was ∧
      (label = some ⟨g.id, i⟩ ∧ w.edges = was.edges.push ⟨g.edges.size⟩ ∨
        label ≠ some ⟨g.id, i⟩ ∧ w.edges = was.edges) := by
  cases label with
  | none => exact ⟨w, hw, Or.inr ⟨(Option.some_ne_none _).symm, rfl⟩⟩
  | some v =>
    have hid := hlabel v rfl
    -- The label is of this graph, so that it is the variable in its place that is extended.
    simp only [hasVariable, Bool.and_eq_true, beq_iff_eq] at hid
    simp only [joinTerminals, Array.getElem?_modify] at hw
    split at hw
    · rename_i hi
      rcases Option.map_eq_some_iff.1 hw with ⟨was, hwas, rfl⟩
      exact ⟨was, hwas, Or.inl ⟨by rw [← hid.1, ← hi], rfl⟩⟩
    · rename_i hi
      refine ⟨w, hw, Or.inr ⟨fun hc => hi ?_, rfl⟩⟩
      rw [Option.some.inj hc]

/-- The variable that labels a new edge lists it too, which is the first time. -/
theorem labelled_joinTerminals (hl : g.Labelled)
    (hlabel : ∀ v, label = some v → g.hasVariable v = true) :
    (g.joinTerminals name a b label).2.Labelled where
  lists i w hw := by
    rcases getElem?_vars_joinTerminals hlabel hw with ⟨was, hwas, hcase⟩
    rcases hl.lists i was hwas with ⟨hnodup, hmem⟩
    -- An edge that is listed already is one of those before the new one.
    have hold : ∀ e ∈ was.edges.toList, e.index ≠ g.edges.size := fun e he =>
      Nat.ne_of_lt (lt_of_labelOf? ((hmem e).1 he))
    rcases hcase with ⟨heq, hedges⟩ | ⟨hne, hedges⟩
    · rw [hedges, Array.toList_push]
      refine ⟨?_, fun e => ?_⟩
      · rw [List.nodup_append]
        refine ⟨hnodup, List.pairwise_singleton _ _, fun e he e' he' hee => ?_⟩
        rw [List.mem_singleton] at he'
        exact hold e he (by rw [hee, he'])
      · rw [List.mem_append, List.mem_singleton, labelOf?_joinTerminals]
        by_cases he : e.index = g.edges.size
        · rw [if_pos he]
          exact iff_of_true (Or.inr (congrArg EdgeId.mk he)) heq
        · rw [if_neg he, hmem e]
          refine or_iff_left fun hc => he ?_
          rw [hc]
    · rw [hedges]
      refine ⟨hnodup, fun e => ?_⟩
      rw [labelOf?_joinTerminals]
      by_cases he : e.index = g.edges.size
      · rw [if_pos he]
        exact iff_of_false (fun hc => hold e hc he) hne
      · rw [if_neg he]
        exact hmem e
  known e v he := by
    rw [labelOf?_joinTerminals] at he
    -- The number of variables is what it was.
    have hsame : (g.joinTerminals name a b label).2.hasVariable v = g.hasVariable v := by
      cases label with
      | none => rfl
      | some v' => simp only [hasVariable, joinTerminals, Array.size_modify]
    rw [hsame]
    split at he
    · exact hlabel v he
    · exact hl.known e v he

/-- Every change leaves the lists of variables and the labels of edges in agreement. -/
theorem labelled_of_change {g' : Graph} (hl : g.Labelled) (hchange : Change g g') :
    g'.Labelled := by
  cases hchange with
  | numbers counters => exact hl.congr rfl rfl rfl
  | index => exact hl.congr rfl rfl rfl
  | node name kind roles constant _ _ => exact hl.congr rfl rfl rfl
  | label name => exact labelled_insertVariable hl name
  | edge name a b label _ _ _ hlabel => exact labelled_joinTerminals hl hlabel
  | param n key value _ => exact hl.congr rfl rfl rfl
  | message p message => exact hl.congr rfl rfl rfl

end Labelled

/-! ### Names -/

section Indexed

variable {g g' : Graph}

theorem indexed_empty (id : GraphId) : (Graph.empty id).Indexed where
  nodes name n hn := by
    rw [Graph.empty, Std.ExtTreeMap.getElem?_empty] at hn
    exact nomatch hn
  vars name v hv := by
    rw [Graph.empty, Std.ExtTreeMap.getElem?_empty] at hv
    exact nomatch hv

/-- What an index leads to is the handle of a place where the name is. -/
theorem getElem?_indexed {ι : Type} {names : List String} {handle : Nat → ι} {name : String} {n : ι}
    (hn : (indexed names handle)[name]? = some n) : ∃ i, names[i]? = some name ∧ n = handle i := by
  unfold indexed at hn
  -- An entry of the index was there at the start or has been put there on the way.
  have hrun : ∀ (entries : List (String × Nat)) (index : Std.ExtTreeMap String ι),
      (entries.foldl (fun index entry => index.insert entry.1 (handle entry.2)) index)[name]? =
        some n →
      index[name]? = some n ∨ ∃ entry ∈ entries, entry.1 = name ∧ n = handle entry.2 := by
    intro entries
    induction entries with
    | nil =>
      intro index hn
      exact Or.inl hn
    | cons entry entries ih =>
      intro index hn
      rcases ih _ hn with hput | ⟨entry', hmem, heq⟩
      · simp only [Std.ExtTreeMap.getElem?_insert, Std.LawfulEqCmp.compare_eq_iff_eq] at hput
        split at hput
        · rename_i hname
          exact Or.inr ⟨entry, List.mem_cons_self, hname, (Option.some.inj hput).symm⟩
        · exact Or.inl hput
      · exact Or.inr ⟨entry', List.mem_cons_of_mem entry hmem, heq⟩
  rcases hrun _ _ hn with hempty | ⟨entry, hmem, rfl, rfl⟩
  · rw [Std.ExtTreeMap.getElem?_empty] at hempty
    exact nomatch hempty
  · exact ⟨entry.2, List.mem_zipIdx_iff_getElem?.1 hmem, rfl⟩

theorem hasNode_mk {i : Nat} : g.hasNode ⟨g.id, i⟩ = true ↔ i < g.nodes.size := by
  simp only [hasNode, beq_self_eq_true, Bool.true_and, decide_eq_true_eq]

theorem hasVariable_mk {i : Nat} : g.hasVariable ⟨g.id, i⟩ = true ↔ i < g.vars.size := by
  simp only [hasVariable, beq_self_eq_true, Bool.true_and, decide_eq_true_eq]

theorem hasNode_mono (hsize : g.nodes.size ≤ g'.nodes.size) (hid : g'.id = g.id) {n : NodeId}
    (hn : g.hasNode n = true) : g'.hasNode n = true := by
  simp only [hasNode, Bool.and_eq_true, decide_eq_true_eq] at hn ⊢
  exact ⟨hid ▸ hn.1, Nat.lt_of_lt_of_le hn.2 hsize⟩

theorem hasVariable_mono (hsize : g.vars.size ≤ g'.vars.size) (hid : g'.id = g.id) {v : VariableId}
    (hv : g.hasVariable v = true) : g'.hasVariable v = true := by
  simp only [hasVariable, Bool.and_eq_true, decide_eq_true_eq] at hv ⊢
  exact ⟨hid ▸ hv.1, Nat.lt_of_lt_of_le hv.2 hsize⟩

/-- A graph that has no fewer nodes and variables has those that the names lead to. -/
theorem Indexed.mono (hi : g.Indexed) (hid : g'.id = g.id)
    (hnodes : g.nodes.size ≤ g'.nodes.size) (hvars : g.vars.size ≤ g'.vars.size)
    (hnodeNames : g'.nodeNames = g.nodeNames)
    (hvariableNames : g'.variableNames = g.variableNames) : g'.Indexed where
  nodes name n hn := hasNode_mono hnodes hid (hi.nodes name n (hnodeNames ▸ hn))
  vars name v hv := hasVariable_mono hvars hid (hi.vars name v (hvariableNames ▸ hv))

theorem indexed_reindexed (g : Graph) : g.reindexed.Indexed where
  nodes name n hn := by
    rcases getElem?_indexed hn with ⟨i, hi, rfl⟩
    have hlt := (List.getElem?_eq_some_iff.1 hi).1
    rw [List.length_map, Array.length_toList] at hlt
    exact hasNode_mk.2 hlt
  vars name v hv := by
    rcases getElem?_indexed hv with ⟨i, hi, rfl⟩
    have hlt := (List.getElem?_eq_some_iff.1 hi).1
    rw [List.length_map, Array.length_toList] at hlt
    exact hasVariable_mk.2 hlt

/-- Every change leaves names leading to nodes and variables of the graph. -/
theorem indexed_of_change (hi : g.Indexed) (hchange : Change g g') : g'.Indexed := by
  cases hchange with
  | numbers counters => exact hi.mono rfl (Nat.le_refl _) (Nat.le_refl _) rfl rfl
  | index => exact indexed_reindexed g
  | node name kind roles constant _ _ =>
    -- The new name leads to the place behind the others, which exists now.
    have hmore : g.nodes.size < (g.withNode name kind roles constant).nodes.size := by
      rw [withNode, Array.size_push]
      exact Nat.lt_succ_self _
    refine ⟨fun name' n hn => ?_, hi.vars⟩
    simp only [withNode, Std.ExtTreeMap.getElem?_insert] at hn
    split at hn
    · rw [← Option.some.inj hn]
      exact hasNode_mk.2 hmore
    · exact hasNode_mono (Nat.le_of_lt hmore) rfl (hi.nodes name' n hn)
  | label name =>
    have hmore : g.vars.size < (g.insertVariable name).2.vars.size := by
      rw [insertVariable, Array.size_push]
      exact Nat.lt_succ_self _
    refine ⟨hi.nodes, fun name' v hv => ?_⟩
    simp only [insertVariable, Std.ExtTreeMap.getElem?_insert] at hv
    split at hv
    · rw [← Option.some.inj hv]
      exact hasVariable_mk.2 hmore
    · exact hasVariable_mono (Nat.le_of_lt hmore) rfl (hi.vars name' v hv)
  | edge name a b label _ _ _ _ =>
    refine hi.mono rfl (Nat.le_refl _) ?_ rfl rfl
    cases label with
    | none => exact Nat.le_refl _
    | some v => exact Nat.le_of_eq Array.size_modify.symm
  | param n key value _ =>
    exact hi.mono rfl (Array.size_modify ▸ Nat.le_refl _) (Nat.le_refl _) rfl rfl
  | message p message => exact hi.mono rfl (Nat.le_refl _) (Nat.le_refl _) rfl rfl

end Indexed

/-! ### All together -/

section Coherent

variable {g : Graph}

/-- Where all accounts agree, no handle leads out of the graph: a terminal is listed by its node and
    is the partner of its partner, and an edge has its sides and its variable. -/
theorem closed_of_accounts (h : g.WellFormed) (hl : g.Labelled) (hi : g.Indexed) : g.Closed where
  toIndexed := hi
  ofTerminal i terminal hterminal := by
    have hnode : g.nodeIdOf? ⟨i⟩ = some terminal.node := by
      rw [nodeIdOf?, hterminal, Option.map_some]
    rcases h.owner ⟨i⟩ terminal.node hnode with ⟨hid, ps, hps, _⟩
    refine ⟨?_, fun e he => ?_, fun q hq => ?_⟩
    · simp only [hasNode, hid, beq_self_eq_true, lt_of_portsAt? hps, decide_true, Bool.and_self]
    · exact h.hasEdge_of_edge? (x := ⟨i⟩) (by rw [edge?, hterminal, Option.bind_some, he])
    · exact h.hasTerminal_of_partner? (x := ⟨i⟩) (by rw [partner?, hterminal, Option.bind_some, hq])
  ofNode i node hnode p hp :=
    hasTerminal_of_nodeIdOf?
      ((h.listed i node.terminals (by rw [portsAt?, hnode, Option.map_some])).2 p hp)
  ofEdge i edge hedge := by
    -- Both ends of an edge are terminals, since each is the partner of the other.
    have hends := h.ends i edge hedge
    refine ⟨h.hasTerminal_of_partner? (h.partner_symm hends), h.hasTerminal_of_partner? hends,
      fun v hv => ?_⟩
    exact hl.known ⟨i⟩ v (by rw [labelOf?, hedge, Option.bind_some, hv])
  ofVariable i w hw e he :=
    decide_eq_true (lt_of_labelOf? (((hl.lists i w hw).2 e).1 he))

/-- No handle leads out of a reachable graph. -/
theorem closed_of_reachable (hg : Reachable g) : g.Closed := by
  refine closed_of_accounts (wellFormed_of_reachable hg) ?_ ?_
  · exact Reachable.of_changes labelled_empty
      (fun _ _ hl hchange => labelled_of_change hl hchange) hg
  · exact Reachable.of_changes indexed_empty
      (fun _ _ hi hchange => indexed_of_change hi hchange) hg

/-- Whatever operations built a graph, carried out or refused, all that it records more than once
    agrees, and every handle that it stores leads to something. -/
theorem coherent_of_reachable (hg : Reachable g) : g.Coherent := by
  have h := wellFormed_of_reachable hg
  have ht : g.WellFormed ∧ g.Typed := by
    refine Reachable.of_changes (P := fun g => g.WellFormed ∧ g.Typed)
      (fun id => ⟨wellFormed_empty id, typed_empty id⟩) ?_ hg
    rintro g g' ⟨h, ht⟩ hchange
    exact ⟨wellFormed_of_change g g' h hchange, typed_of_change h ht hchange⟩
  have hl : g.Labelled :=
    Reachable.of_changes labelled_empty (fun _ _ hl hchange => labelled_of_change hl hchange) hg
  have hi : g.Indexed :=
    Reachable.of_changes indexed_empty (fun _ _ hi hchange => indexed_of_change hi hchange) hg
  exact { h, ht.2, hl, closed_of_accounts h hl hi with }

/-- A constant that an equality node passes on to a sink, with one variable for both edges. Half of
    the calls are refused: a name that is taken, other roles for a kind, a terminal that is
    connected, a variable of another graph. -/
def sharedLabel : Graph :=
  (Graph.empty ⟨7⟩).applyAll [
    .addNamedConstant "c" (.scalar 1), .addNamedNode "c" "Sink" ["in1"], .addNamedVariable "x",
    .addNode "Equality" ["in1", "out"], .addNode "Equality" ["in1"],
    .connect ⟨0⟩ ⟨1⟩ (some ⟨⟨7⟩, 0⟩), .connect ⟨0⟩ ⟨2⟩ none, .addNamedNode "s" "Sink" ["in1"],
    .connect ⟨2⟩ ⟨3⟩ (some ⟨⟨8⟩, 0⟩), .connectRoles ⟨⟨7⟩, 1⟩ "out" ⟨⟨7⟩, 2⟩ "out",
    .connect ⟨2⟩ ⟨3⟩ (some ⟨⟨7⟩, 0⟩), .setParam ⟨⟨7⟩, 1⟩ "k" (.scalar 1),
    .setParam ⟨⟨7⟩, 1⟩ "k" (.scalar 2), .reindex]

/-- The refused calls have left nothing behind, and the variable lists both edges. -/
theorem coherent_of_reachable_sharedLabel :
    Reachable sharedLabel ∧ sharedLabel.Coherent ∧
      (sharedLabel.nodes.size, sharedLabel.terminals.size) = (3, 4) ∧
      sharedLabel.vars.map Variable.edges = #[#[⟨0⟩, ⟨1⟩]] := by
  have hg : Reachable sharedLabel := (Reachable.empty _).applyAll _
  exact ⟨hg, coherent_of_reachable hg, by decide +kernel, by decide +kernel⟩

end Coherent

end Graph

end MessagePlan
