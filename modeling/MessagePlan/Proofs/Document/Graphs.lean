import MessagePlan.Proofs.Document.Values

/-!
# Graphs Survive Their Documents

A graph that is written as a text and read from it is the graph that it was, but for the index of
names, which is not written. It is gone through along its parts: terminals, nodes, edges, variables
and tables are records and lists of what is known to survive.

Whether a graph survives is a matter of its numbers. Handles and counters are read as numbers of 32
bits, so none of them may be larger; and a double must be one that is read from what it is written
as. `Fits` says both, of any kind of double, since other ways of writing graphs may keep others.

## Main definitions

* `Graph.Fits`: A graph with numbers that a document can hold.
* `Graph.unindexed`: What a document tells of a graph.

## Theorems

* `Terminal.survives`, `Node.survives`, `Edge.survives`, `Variable.survives`: The parts of a graph.
* `Fits.ofText?_toText`: A graph is read back without its index.
-/

namespace MessagePlan

open Json

/-! ### The parts of a graph -/

theorem Terminal.survives {t : Terminal} (hnode : Survives NodeId.toJson NodeId.ofJson? t.node)
    (hedge : ∀ e, t.edge = some e → e.index < UInt32.size)
    (hpartner : ∀ q, t.partner = some q → q.index < UInt32.size)
    (hmessage : ∀ m, t.message = some m → ∀ x ∈ m.params.toList, ReadsBack x) :
    Survives (Terminal.toJson ofFloat) Terminal.ofJson? t := by
  -- Each field survives for its own reason; the record is read by the names of the fields.
  have hrole := survives_ofString t.role
  have hedge := Survives.option EdgeId.ofJson? rfl
    fun e he => EdgeId.survives (hedge e he)
  have hpartner := Survives.option TerminalId.ofJson? rfl
    fun q hq => TerminalId.survives (hpartner q hq)
  have hmessage := Survives.option Message.ofJson? rfl
    fun m hm => Message.survives (hmessage m hm)
  have hnames : ∀ n ∈ ["node", "role", "edge", "partner", "message"], encode n = n := by
    decide +kernel
  refine Survives.of_record
    [t.node.toJson, ofString t.role, ofOption EdgeId.toJson t.edge,
      ofOption TerminalId.toJson t.partner, ofOption (Message.toJson ofFloat) t.message]
    hnames (by decide) rfl rfl ?_ fun hfields => ?_
  · simp only [List.forall_mem_cons]
    exact ⟨hnode.readable, hrole.readable, hedge.1, hpartner.1, hmessage.1,
      fun v hv => absurd hv List.not_mem_nil⟩
  · simp only [Terminal.ofJson?, hfields, List.map_cons, List.map_nil, hnode.back,
      hrole.back, hedge.2, hpartner.2, hmessage.2, Option.bind_eq_bind, Option.bind_some,
      Option.pure_def]

theorem Node.survives {n : Node} (hterminals : ∀ p ∈ n.terminals, p.index < UInt32.size)
    (hconstant : ∀ v, n.constant = some v → ∀ x ∈ v.toList, ReadsBack x)
    (hparams : ∀ param ∈ n.params, ∀ x ∈ param.2.toList, ReadsBack x) :
    Survives (Node.toJson ofFloat) Node.ofJson? n := by
  have hname := survives_ofString n.name
  have hkind := survives_ofString n.kind
  have hterminals := Survives.list fun p hp => TerminalId.survives (hterminals p hp)
  have hconstant := Survives.option Value.ofJson? rfl
    fun v hv => Value.survives (hconstant v hv)
  have hparams := Survives.list fun param hparam => survives_param (hparams param hparam)
  have hnames : ∀ n ∈ ["name", "kind", "interfaces", "constant", "params"], encode n = n := by
    decide +kernel
  refine Survives.of_record
    [ofString n.name, ofString n.kind, Json.ofList TerminalId.toJson n.terminals,
      ofOption (Value.toJson ofFloat) n.constant, Json.ofList (paramToJson ofFloat) n.params]
    hnames (by decide) rfl rfl ?_ fun hfields => ?_
  · simp only [List.forall_mem_cons]
    exact ⟨hname.readable, hkind.readable, hterminals.readable, hconstant.1, hparams.readable,
      fun v hv => absurd hv List.not_mem_nil⟩
  · simp only [Node.ofJson?, hfields, List.map_cons, List.map_nil, hname.back, hkind.back,
      hterminals.back, hconstant.2, hparams.back, Option.bind_eq_bind, Option.bind_some,
      Option.pure_def]

theorem Edge.survives {e : Edge} (ha : e.a.index < UInt32.size) (hb : e.b.index < UInt32.size)
    (hlabel : ∀ v, e.label = some v → Survives VariableId.toJson VariableId.ofJson? v) :
    Survives Edge.toJson Edge.ofJson? e := by
  have hname := survives_ofString e.name
  have ha := TerminalId.survives ha
  have hb := TerminalId.survives hb
  have hlabel := Survives.option VariableId.ofJson? rfl hlabel
  have hnames : ∀ n ∈ ["name", "a", "b", "variable"], encode n = n := by decide +kernel
  refine Survives.of_record
    [ofString e.name, e.a.toJson, e.b.toJson, ofOption VariableId.toJson e.label]
    hnames (by decide) rfl rfl ?_ fun hfields => ?_
  · simp only [List.forall_mem_cons]
    exact ⟨hname.readable, ha.readable, hb.readable, hlabel.1,
      fun v hv => absurd hv List.not_mem_nil⟩
  · simp only [Edge.ofJson?, hfields, List.map_cons, List.map_nil, hname.back, ha.back,
      hb.back, hlabel.2, Option.bind_eq_bind, Option.bind_some, Option.pure_def]

theorem Variable.survives {w : Variable} (hedges : ∀ e ∈ w.edges.toList, e.index < UInt32.size) :
    Survives Variable.toJson Variable.ofJson? w := by
  have hname := survives_ofString w.name
  have hedges := Survives.list fun e he => EdgeId.survives (hedges e he)
  have hnames : ∀ n ∈ ["name", "edges"], encode n = n := by decide +kernel
  refine Survives.of_record
    [ofString w.name, Json.ofList EdgeId.toJson w.edges.toList]
    hnames (by decide) rfl rfl ?_ fun hfields => ?_
  · simp only [List.forall_mem_cons]
    exact ⟨hname.readable, hedges.readable, fun v hv => absurd hv List.not_mem_nil⟩
  · simp only [Variable.ofJson?, hfields, List.map_cons, List.map_nil, hname.back,
      hedges.back, Option.bind_eq_bind, Option.bind_some, Option.pure_def]

/-- Both numbers of a node's handle are of 32 bits. -/
def NodeId.Fits (n : NodeId) : Prop := n.graph.number < UInt32.size ∧ n.slot < UInt32.size

/-- Both numbers of a variable's handle are of 32 bits. -/
def VariableId.Fits (v : VariableId) : Prop := v.graph.number < UInt32.size ∧ v.slot < UInt32.size

namespace Graph

/-! ### Graphs -/

/-- The values that a node stores. -/
def nodeValues (n : Node) : List Value := n.constant.toList ++ n.params.map Prod.snd

/-- The values that a graph stores: in its nodes, and in the messages of its terminals. -/
def storedValues (g : Graph) : List Value :=
  g.nodes.toList.flatMap nodeValues ++
    g.terminals.toList.flatMap fun t => t.message.toList.map Message.params

/-- The handles and counters of a graph are numbers of 32 bits, wherever they lead, and its doubles
    are among those that survive. -/
structure Fits (survives : Float → Prop) (g : Graph) : Prop where
  id : g.id.number < UInt32.size
  ofNode : ∀ n ∈ g.nodes.toList, ∀ p ∈ n.terminals, p.index < UInt32.size
  ofTerminal : ∀ t ∈ g.terminals.toList, t.node.Fits ∧
    (∀ e, t.edge = some e → e.index < UInt32.size) ∧ ∀ q, t.partner = some q → q.index < UInt32.size
  ofEdge : ∀ e ∈ g.edges.toList, e.a.index < UInt32.size ∧ e.b.index < UInt32.size ∧
    ∀ v, e.label = some v → v.Fits
  ofVariable : ∀ w ∈ g.vars.toList, ∀ e ∈ w.edges.toList, e.index < UInt32.size
  counters : ∀ (kind : String) k, g.counters[kind]? = some k → k < UInt32.size
  doubles : ∀ v ∈ g.storedValues, ∀ x ∈ v.toList, survives x

/-- The graph as its document tells of it: without the index of names. -/
def unindexed (g : Graph) : Graph := { g with nodeNames := ∅, variableNames := ∅ }

variable {g : Graph} {arrange : EntryOrder}

theorem Fits.nodes_survive (hg : g.Fits ReadsBack) :
    Survives (Json.ofList (Node.toJson ofFloat)) (list? Node.ofJson?) g.nodes.toList := by
  refine Survives.list fun n hn => ?_
  have hvalues : ∀ v ∈ nodeValues n, ∀ x ∈ v.toList, ReadsBack x := fun v hv =>
    hg.doubles v (List.mem_append_left _ (List.mem_flatMap.2 ⟨n, hn, hv⟩))
  refine Node.survives (hg.ofNode n hn) (fun v hv => ?_) fun param hparam => ?_
  · exact hvalues v (List.mem_append_left _ (Option.mem_toList.2 hv))
  · exact hvalues param.2 (List.mem_append_right _ (List.mem_map_of_mem hparam))

theorem Fits.terminals_survive (hg : g.Fits ReadsBack) :
    Survives (Json.ofList (Terminal.toJson ofFloat)) (list? Terminal.ofJson?)
      g.terminals.toList := by
  refine Survives.list fun t ht => ?_
  rcases hg.ofTerminal t ht with ⟨hnode, hedge, hpartner⟩
  refine Terminal.survives (NodeId.survives hnode.1 hnode.2) hedge hpartner fun m hm => ?_
  refine hg.doubles m.params (List.mem_append_right _ (List.mem_flatMap.2 ⟨t, ht, ?_⟩))
  exact List.mem_map_of_mem (Option.mem_toList.2 hm)

theorem Fits.edges_survive (hg : g.Fits ReadsBack) :
    Survives (Json.ofList Edge.toJson) (list? Edge.ofJson?) g.edges.toList := by
  refine Survives.list fun e he => ?_
  rcases hg.ofEdge e he with ⟨ha, hb, hlabel⟩
  exact Edge.survives ha hb fun v hv => VariableId.survives (hlabel v hv).1 (hlabel v hv).2

/-- A graph without its index of names survives, in whatever order its tables are written. -/
theorem Fits.survives (hg : g.Fits ReadsBack)
    (harrange : ∀ α entries, (arrange α entries).Perm entries) :
    Survives (Graph.toJson ofFloat arrange) Graph.ofJson? g.unindexed := by
  have hid := survives_ofNat hg.id
  have hnodes := hg.nodes_survive
  have hterminals := hg.terminals_survive
  have hedges := hg.edges_survive
  have hvars : Survives (Json.ofList Variable.toJson) (list? Variable.ofJson?) g.vars.toList :=
    Survives.list fun w hw => Variable.survives (hg.ofVariable w hw)
  have hcounters : Survives (tableToJson arrange ofNat) (tableOfJson? word32?) g.counters :=
    survives_table (harrange _) fun kind k hk => survives_ofNat (hg.counters kind k hk)
  have hroles : Survives (tableToJson arrange (Json.ofList ofString)) (tableOfJson? (list? text?))
      g.kindRoles :=
    survives_table (harrange _) fun kind roles _ =>
      Survives.list fun role _ => survives_ofString role
  have hnames : ∀ n ∈ ["id", "nodes", "interfaces", "edges", "variables", "counters",
      "kind_roles"], encode n = n := by
    decide +kernel
  -- The index of names has no field, and is empty in what is read.
  refine Survives.of_record
    [ofNat g.id.number, Json.ofList (Node.toJson ofFloat) g.nodes.toList,
      Json.ofList (Terminal.toJson ofFloat) g.terminals.toList,
      Json.ofList Edge.toJson g.edges.toList, Json.ofList Variable.toJson g.vars.toList,
      tableToJson arrange ofNat g.counters,
      tableToJson arrange (Json.ofList ofString) g.kindRoles]
    hnames (by decide) rfl rfl ?_ fun hfields => ?_
  · simp only [List.forall_mem_cons]
    exact ⟨hid.readable, hnodes.readable, hterminals.readable, hedges.readable, hvars.readable,
      hcounters.readable, hroles.readable, fun j hj => absurd hj List.not_mem_nil⟩
  · simp only [Graph.ofJson?, hfields, List.map_cons, List.map_nil, hid.back, hnodes.back,
      hterminals.back, hedges.back, hvars.back, hcounters.back, hroles.back, Option.bind_eq_bind,
      Option.bind_some, Option.pure_def]
    rfl

/-- A graph is read from its text as it is, but for the index of names. -/
theorem Fits.ofText?_toText (hg : g.Fits ReadsBack)
    (harrange : ∀ α entries, (arrange α entries).Perm entries) :
    ofText? (g.toText arrange) = some g.unindexed := by
  have hgraph := hg.survives harrange
  have htext : Json.ofText? (g.toText arrange) = some (g.toJson ofFloat arrange) :=
    Json.ofText?_compact hgraph.readable
  rw [ofText?, htext, Option.bind_some]
  exact hgraph.back

end Graph

end MessagePlan
