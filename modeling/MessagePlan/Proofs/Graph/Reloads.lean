import MessagePlan.Proofs.Document.Graphs
import MessagePlan.Proofs.Graph.Names

/-!
# Graphs Outlive Their Index of Names

What a document leaves out of a graph is the index of names. It can be left out because the names
are distinct, so that the index built from them is the one that there was: a graph that is written
and read, and indexed again, is the graph that it was, in every field.

How graphs are written and read is not fixed here. It is only asked that a graph with numbers of 32
bits, and with doubles that survive, is read from its document as it was but for the index. That its
numbers are small enough is asked of a graph only where it is not known: there must be no more
nodes, terminals, edges and variables than handles of 32 bits can name. Handles that lead out of the
graph, and counters beyond the largest number, there are none.

Written and read graphs are graphs that operations go on with. `Kept` allows for such reloads among
the operations, and leads nowhere that the operations alone do not lead.

## Main definitions

* `Graph.KeepsGraphs`: What is asked of the documents.
* `Graph.Storable`: A graph that a document can hold.
* `Graph.Kept`: A graph that operations lead to, some of them on graphs that were read back.

## Theorems

* `Storable.fits`: No number in a graph that operations lead to is larger than the graph.
* `Kept.reachable`: Reloads lead nowhere else.
* `names_and_documents`: Names are distinct and lead to their holders, and documents keep graphs.
-/

namespace MessagePlan

namespace Graph

/-- Whatever fits is read from its document as it was written there: all of it but the index of
    names. -/
def KeepsGraphs (survives : Float → Prop) (write : Graph → String)
    (read : String → Option Graph) : Prop :=
  ∀ g : Graph, g.Fits survives → read (write g) = some g.unindexed

/-- A document can hold the graph: handles of 32 bits can name all of it, and its doubles
    survive. -/
structure Storable (survives : Float → Prop) (g : Graph) : Prop where
  id : g.id.number < UInt32.size
  nodes : g.nodes.size ≤ UInt32.size
  terminals : g.terminals.size ≤ UInt32.size
  edges : g.edges.size ≤ UInt32.size
  vars : g.vars.size ≤ UInt32.size
  doubles : ∀ v ∈ g.storedValues, ∀ x ∈ v.toList, survives x

variable {survives : Float → Prop} {write : Graph → String} {read : String → Option Graph}
  {g : Graph}

/-! ### Numbers of 32 bits -/

section Sizes

variable (hs : g.Storable survives)

include hs

/-- A handle of a node that is there has two numbers that fit. -/
theorem Storable.node_fits {n : NodeId} (hn : g.hasNode n = true) : n.Fits := by
  rw [hasNode, Bool.and_eq_true, beq_iff_eq, decide_eq_true_eq] at hn
  exact ⟨hn.1 ▸ hs.id, Nat.lt_of_lt_of_le hn.2 hs.nodes⟩

theorem Storable.variable_fits {v : VariableId} (hv : g.hasVariable v = true) : v.Fits := by
  rw [hasVariable, Bool.and_eq_true, beq_iff_eq, decide_eq_true_eq] at hv
  exact ⟨hv.1 ▸ hs.id, Nat.lt_of_lt_of_le hv.2 hs.vars⟩

theorem Storable.terminal_lt {p : TerminalId} (hp : g.hasTerminal p = true) :
    p.index < UInt32.size :=
  Nat.lt_of_lt_of_le (hasTerminal_iff.1 hp) hs.terminals

theorem Storable.edge_lt {e : EdgeId} (he : g.hasEdge e = true) : e.index < UInt32.size :=
  Nat.lt_of_lt_of_le (of_decide_eq_true he) hs.edges

/-- Handles lead nowhere outside the graph, and numbers of names end where 32 bits do, so every
    number fits. -/
theorem Storable.fits (hc : g.Closed) (hn : g.Named) : g.Fits survives where
  id := hs.id
  ofNode n hmem p hp := by
    -- What is stored somewhere is stored in a place, and closed graphs tell of places.
    rcases List.getElem?_of_mem hmem with ⟨i, hi⟩
    rw [Array.getElem?_toList] at hi
    exact hs.terminal_lt (hc.ofNode i n hi p hp)
  ofTerminal t hmem := by
    rcases List.getElem?_of_mem hmem with ⟨i, hi⟩
    rw [Array.getElem?_toList] at hi
    rcases hc.ofTerminal i t hi with ⟨hnode, hedge, hpartner⟩
    exact ⟨hs.node_fits hnode, fun e he => hs.edge_lt (hedge e he),
      fun q hq => hs.terminal_lt (hpartner q hq)⟩
  ofEdge e hmem := by
    rcases List.getElem?_of_mem hmem with ⟨i, hi⟩
    rw [Array.getElem?_toList] at hi
    rcases hc.ofEdge i e hi with ⟨ha, hb, hlabel⟩
    exact ⟨hs.terminal_lt ha, hs.terminal_lt hb, fun v hv => hs.variable_fits (hlabel v hv)⟩
  ofVariable w hmem e he := by
    rcases List.getElem?_of_mem hmem with ⟨i, hi⟩
    rw [Array.getElem?_toList] at hi
    exact hs.edge_lt (hc.ofVariable i w hi e he)
  counters kind k hk := by
    -- No number of a name is greater than the largest one of 32 bits.
    have hle := hn.numbers kind
    rw [lastNumber, Std.ExtTreeMap.getD_eq_getD_getElem?, hk, Option.getD_some] at hle
    exact Nat.lt_of_le_pred (by decide) hle
  doubles := hs.doubles

end Sizes

/-! ### Reloads -/

/-- A graph that operations lead to from a graph without nodes, where some of them went on with what
    was read from the document of the graph and indexed again. -/
inductive Kept (survives : Float → Prop) (write : Graph → String)
    (read : String → Option Graph) : Graph → Prop
  | empty (id : GraphId) : Kept survives write read (Graph.empty id)
  | apply {g : Graph} (h : Kept survives write read g) (op : Operation) :
    Kept survives write read (g.apply op)
  | reload {g r : Graph} (h : Kept survives write read g) (hs : g.Storable survives)
    (hread : read (write g) = some r) : Kept survives write read r.reindexed

/-- Any operations may follow. -/
theorem Kept.applyAll (h : Kept survives write read g) (ops : List Operation) :
    Kept survives write read (g.applyAll ops) := by
  induction ops generalizing g with
  | nil => exact h
  | cons op ops ih => exact ih (h.apply op)

variable (hkeeps : KeepsGraphs survives write read)

include hkeeps

/-- A graph that operations lead to is read back without its index, which is the one built from the
    names again. -/
theorem exists_read (hg : Reachable g) (hs : g.Storable survives) :
    ∃ r, read (write g) = some r ∧ r.reindexed = g := by
  have hnamed := named_of_reachable hg
  exact ⟨g.unindexed, hkeeps g (hs.fits (closed_of_reachable hg) hnamed), hnamed.reindexed⟩

/-- Reloads lead nowhere that operations do not lead. -/
theorem Kept.reachable (hg : Kept survives write read g) : Reachable g := by
  induction hg with
  | empty id => exact .empty id
  | apply _ op ih => exact ih.apply op
  | reload _ hs hread ih =>
    -- What was read is indexed to the graph that was written, and that one was reachable.
    rcases exists_read hkeeps ih hs with ⟨r, hr, hindexed⟩
    rw [← Option.some.inj (hr.symm.trans hread), hindexed]
    exact ih

/-- Whatever operations and reloads built a graph, its nodes have distinct names, and so have its
    variables and its edges; names lead to the nodes and variables that have them; and the graph is
    what is read from its document and indexed again. -/
theorem names_and_documents (hg : Kept survives write read g) :
    (g.nodes.toList.map Node.name).Nodup ∧ (g.vars.toList.map Variable.name).Nodup ∧
      (g.edges.toList.map Edge.name).Nodup ∧
      (∀ name n, g.nodeNamed? name = some n ↔
        n.graph = g.id ∧ ∃ node, g.nodes[n.slot]? = some node ∧ node.name = name) ∧
      (∀ name v, g.variableNamed? name = some v ↔
        v.graph = g.id ∧ ∃ w, g.vars[v.slot]? = some w ∧ w.name = name) ∧
      (g.Storable survives → ∃ r, read (write g) = some r ∧ r.reindexed = g) := by
  -- Reloads add no graphs, so all is known of reachable ones.
  have hreachable := hg.reachable hkeeps
  have hnamed := named_of_reachable hreachable
  exact ⟨hnamed.nodes, hnamed.vars, hnamed.nodup_edges, fun name n => hnamed.nodeNamed?_iff,
    fun name v => hnamed.variableNamed?_iff, exists_read hkeeps hreachable⟩

omit hkeeps

theorem storable_sharedLabel : sharedLabel.Storable Json.ReadsBack where
  id := by decide +kernel
  nodes := by decide +kernel
  terminals := by decide +kernel
  edges := by decide +kernel
  vars := by decide +kernel
  doubles := by decide +kernel

/-- The graph with a shared label, read back, with a node more of an old kind, and a message. -/
def reloadedLabel : Graph :=
  sharedLabel.unindexed.reindexed.applyAll [
    .addNode "Equality" ["in1", "out"], .setMessage ⟨4⟩ ⟨.gaussian, .series [0.1, -2]⟩]

/-- The texts of graphs are such documents.  Read from one, the counter of the kind goes on from a
    number that was given to a node that was refused. -/
theorem names_and_documents_reloadedLabel :
    KeepsGraphs Json.ReadsBack (toText fun _ entries => entries) ofText? ∧
    Kept Json.ReadsBack (toText fun _ entries => entries) ofText? reloadedLabel ∧
    (∃ r, ofText? (reloadedLabel.toText fun _ entries => entries) = some r ∧
      r.reindexed = reloadedLabel) ∧
    reloadedLabel.nodeNamed? "equality_1" = some ⟨⟨7⟩, 1⟩ ∧
    reloadedLabel.nodeNamed? "equality_2" = none ∧
    reloadedLabel.nodeNamed? "equality_3" = some ⟨⟨7⟩, 3⟩ := by
  have hkeeps : KeepsGraphs Json.ReadsBack (toText fun _ entries => entries) ofText? :=
    fun _ hfits => hfits.ofText?_toText fun _ entries => List.Perm.refl entries
  have hkept : Kept Json.ReadsBack (toText fun _ entries => entries) ofText? sharedLabel :=
    (Kept.empty _).applyAll _
  have hreachable := hkept.reachable hkeeps
  -- The graph with a shared label is reachable, and its document is read.
  have hread := hkeeps sharedLabel
    (storable_sharedLabel.fits (closed_of_reachable hreachable) (named_of_reachable hreachable))
  have hg : Kept Json.ReadsBack (toText fun _ entries => entries) ofText? reloadedLabel :=
    (hkept.reload storable_sharedLabel hread).applyAll _
  have hs : reloadedLabel.Storable Json.ReadsBack := by
    constructor <;> decide +kernel
  rcases names_and_documents hkeeps hg with ⟨_, _, _, _, _, hdocument⟩
  exact ⟨hkeeps, hg, hdocument hs, by decide +kernel, by decide +kernel, by decide +kernel⟩

end Graph

end MessagePlan
