import MessagePlan.Graph.Growth
import Mathlib.Logic.Relation

/-!
# Reachable Graphs

A graph is built by operations, and most theorems are about graphs that were built so: the
operations check what they are asked to do, and a graph that was never touched otherwise has
no terminal without a node and no partner without a partner.

`Operation` is one call of such an operation, and `Graph.apply` the graph after it. A refused
call counts too, since it is followed by others; it may have used up a number for a name. A
copy of a graph is the graph itself here and needs no operation of its own.

The thirteen operations come down to seven changes, and several operations make two of them, a
number used up and then the change itself. `Change` lists the seven with what has been checked
before each is made. `apply_changes` is the only place where the operations are taken apart:
a property of all reachable graphs is shown for the graph without nodes and for the seven
changes, by `Reachable.of_changes`.

## Main definitions

* `Operation`: One call of an operation that builds or changes a graph.
* `Graph.apply`, `Graph.applyAll`: The graph after a call, carried out or refused, and after
  several.
* `Reachable`: A graph that operations lead to.
* `Graph.withNode`: The graph with a node more.
* `Graph.insertGenerated`: A node of any sort, under a generated name.
* `Change`: One of the seven changes, with what has been checked before it.

## Theorems

* `freshName_snd`: Generating a name changes the counters only.
* `insertNode_snd`: Adding a node is refused or adds it.
* `addNode_eq`, `addConstant_eq`: Nodes of both sorts get their generated names alike.
* `connect_changes`: Connecting is refused or joins two free terminals.
* `apply_changes`: Every operation is made of changes.
* `preserved_of_changes`: What each change preserves is preserved by all of them.
* `Reachable.of_changes`: What changes preserve holds of every reachable graph.
-/

namespace MessagePlan

/-- One call of an operation that builds or changes a graph. -/
inductive Operation where
  | freshName (kind : String)
  | addNode (kind : String) (roles : List String)
  | addNamedNode (name kind : String) (roles : List String)
  | addConstant (value : Value)
  | addNamedConstant (name : String) (value : Value)
  | addVariable
  | addNamedVariable (name : String)
  | connect (a b : TerminalId) (label : Option VariableId)
  | connectRoles (a : NodeId) (roleA : String) (b : NodeId) (roleB : String)
  | setParam (n : NodeId) (key : String) (value : Value)
  | setMessage (p : TerminalId) (message : Message)
  | clearMessage (p : TerminalId)
  | reindex

namespace Graph

/-- The graph after an operation, whether it was carried out or refused. -/
def apply (g : Graph) : Operation → Graph
  | .freshName kind => (g.freshName kind : Edit GraphError String).2
  | .addNode kind roles => (g.addNode kind roles).2
  | .addNamedNode name kind roles => (g.addNamedNode name kind roles).2
  | .addConstant value => (g.addConstant value).2
  | .addNamedConstant name value => (g.addNamedConstant name value).2
  | .addVariable => g.addVariable.2
  | .addNamedVariable name => (g.addNamedVariable name).2
  | .connect a b label => (g.connect a b label).2
  | .connectRoles a roleA b roleB => (g.connectRoles a roleA b roleB).2
  | .setParam n key value => (g.setParam n key value).2
  | .setMessage p message => (g.setMessage p message).2
  | .clearMessage p => (g.clearMessage p).2
  | .reindex => g.reindexed

end Graph

/-- A graph that operations lead to from a graph without nodes. -/
inductive Reachable : Graph → Prop
  | empty (id : GraphId) : Reachable (Graph.empty id)
  | apply {g : Graph} (h : Reachable g) (op : Operation) : Reachable (g.apply op)

/-- The graph after some operations, one after the other. -/
def Graph.applyAll (g : Graph) (ops : List Operation) : Graph := ops.foldl Graph.apply g

theorem Reachable.applyAll {g : Graph} (h : Reachable g) (ops : List Operation) :
    Reachable (g.applyAll ops) := by
  induction ops generalizing g with
  | nil => exact h
  | cons op ops ih => exact ih (h.apply op)

namespace Graph

/-- The graph with a node more, whatever names and kinds it has already. -/
def withNode (g : Graph) (name kind : String) (roles : List String) (constant : Option Value) :
    Graph :=
  { g with
    nodes := g.nodes.push
      { name, kind, terminals := g.nextTerminals roles.length, constant, params := [] }
    terminals := g.terminals ++ roles.map (danglingTerminal g.nextNode)
    kindRoles := g.kindRoles.insertIfNew kind roles
    nodeNames := g.nodeNames.insert name g.nextNode }

/-- Add a node under a generated name, with a literal if it produces a constant. -/
def insertGenerated (g : Graph) (kind : String) (roles : List String) (constant : Option Value) :
    Edit GraphError NodeId :=
  match g.freshName kind with
  | (.ok name, g) => g.insertNode name kind roles constant
  | (.error e, g) => (.error e, g)

theorem addNode_eq (g : Graph) (kind : String) (roles : List String) :
    g.addNode kind roles = g.insertGenerated kind roles none := rfl

theorem addConstant_eq (g : Graph) (value : Value) :
    g.addConstant value = g.insertGenerated constantKind constantRoles (some value) := rfl

/-- Whether a terminal is there and has no partner. -/
def IsFree (g : Graph) (p : TerminalId) : Prop :=
  ∃ terminal, g.terminals[p.index]? = some terminal ∧ terminal.partner = none

end Graph

/-- A change that an operation makes to a graph, with what it has checked before. -/
inductive Change (g : Graph) : Graph → Prop
  | numbers (counters : Std.ExtTreeMap String Nat) : Change g { g with counters }
  | index : Change g g.reindexed
  | node (name kind : String) (roles : List String) (constant : Option Value)
      (hroles : g.roleConflict kind roles = none)
      (hconstant : constant = none ∨ kind = constantKind ∧ roles = constantRoles) :
      Change g (g.withNode name kind roles constant)
  | label (name : String) : Change g (g.insertVariable name).2
  | edge (name : String) (a b : TerminalId) (label : Option VariableId) (ha : g.IsFree a)
      (hb : g.IsFree b) (hab : a ≠ b) (hlabel : ∀ v, label = some v → g.hasVariable v = true) :
      Change g (g.joinTerminals name a b label).2
  | param (n : NodeId) (key : String) (value : Value) (hn : g.hasNode n = true) :
      Change g { g with nodes := g.nodes.modify n.slot fun m =>
        { m with params := Graph.withParam key value m.params } }
  | message (p : TerminalId) (message : Option Message) :
      Change g { g with terminals := g.terminals.modify p.index fun t => { t with message } }

namespace Graph

/-- Changes that follow one another. -/
abbrev Changes : Graph → Graph → Prop := Relation.ReflTransGen Change

/-- Generating a name changes the counters only. -/
theorem freshName_snd {ε : Type} (g : Graph) (kind : String) :
    ∃ counters, (g.freshName kind : Edit ε String).2 = { g with counters } := by
  unfold freshName
  simp only []
  split
  · exact ⟨_, rfl⟩
  · exact ⟨_, rfl⟩

theorem freshName_change {ε : Type} (g : Graph) (kind : String) :
    Change g (g.freshName kind : Edit ε String).2 := by
  rcases freshName_snd (ε := ε) g kind with ⟨counters, h⟩
  rw [h]
  exact Change.numbers counters

/-- Adding a node is refused and changes nothing, or adds it. -/
theorem insertNode_snd (g : Graph) (name kind : String) (roles : List String)
    (constant : Option Value) :
    (g.insertNode name kind roles constant).2 = g ∨ g.roleConflict kind roles = none ∧
      (g.insertNode name kind roles constant).2 = g.withNode name kind roles constant := by
  -- A name that is taken is refused, and so are roles other than those of the kind.
  unfold insertNode
  split
  · exact Or.inl rfl
  · split
    · exact Or.inl rfl
    · rename_i hroles
      exact Or.inr ⟨hroles, rfl⟩

theorem insertNode_changes (g : Graph) (name kind : String) (roles : List String)
    (constant : Option Value) (h : constant = none ∨ kind = constantKind ∧ roles = constantRoles) :
    Changes g (g.insertNode name kind roles constant).2 := by
  rcases insertNode_snd g name kind roles constant with heq | ⟨hroles, heq⟩
  · rw [heq]
  · rw [heq]
    exact Relation.ReflTransGen.single (Change.node name kind roles constant hroles h)

theorem insertGenerated_changes (g : Graph) (kind : String) (roles : List String)
    (constant : Option Value) (h : constant = none ∨ kind = constantKind ∧ roles = constantRoles) :
    Changes g (g.insertGenerated kind roles constant).2 := by
  -- The counters stay raised even where the node is refused.
  have hnames := Relation.ReflTransGen.single (freshName_change (ε := GraphError) g kind)
  unfold insertGenerated
  split
  · rename_i name g' heq
    rw [heq] at hnames
    exact hnames.trans (insertNode_changes g' name kind roles constant h)
  · rename_i e g' heq
    rw [heq] at hnames
    exact hnames

theorem isFree_of_checkFree {g : Graph} {p : TerminalId} (h : g.checkFree p = .ok ()) :
    g.IsFree p := by
  unfold checkFree at h
  split at h
  · simp only [refuse, reduceCtorEq] at h
  · rename_i terminal hget
    refine ⟨terminal, hget, ?_⟩
    cases hpartner : terminal.partner with
    | none => rfl
    | some q =>
      -- With a partner the check is refused, or the label of the terminal is not found.
      rw [hpartner, Option.isSome_some, if_pos rfl, bind_eq_ok] at h
      rcases h with ⟨l, _, h⟩
      simp only [refuse, reduceCtorEq] at h

/-- What has been checked of two terminals that may be connected. -/
theorem checkConnection_ok {g : Graph} {a b : TerminalId} {label : Option VariableId}
    (h : g.checkConnection a b label = .ok ()) :
    g.IsFree a ∧ g.IsFree b ∧ a ≠ b ∧ ∀ v, label = some v → g.hasVariable v = true := by
  unfold checkConnection at h
  simp only [bind_eq_ok] at h
  rcases h with ⟨_, ha, _, hb, h⟩
  -- Both terminals have passed their own checks; what is left compares them.
  split at h
  · -- Where the terminals are the same the check is refused.
    simp only [bind_eq_ok, refuse, reduceCtorEq, and_false, exists_false, false_and] at h
  · rename_i hab
    refine ⟨isFree_of_checkFree ha, isFree_of_checkFree hb, hab, fun v hv => ?_⟩
    rw [hv] at h
    cases hvar : g.hasVariable v with
    | true => rfl
    | false =>
      simp only [pure, Except.pure, hvar, refuse, reduceCtorEq, if_false] at h

/-- Connecting two terminals is refused, and has changed names at most, or has checked them
    and joins them under a new name. -/
theorem connect_changes (g : Graph) (a b : TerminalId) (label : Option VariableId) :
    Changes g (g.connect a b label).2 := by
  unfold connect
  split
  · exact Relation.ReflTransGen.refl
  · rename_i hcheck
    rcases checkConnection_ok hcheck with ⟨ha, hb, hab, hlabel⟩
    -- The name is generated after the check, so the edge is added to another graph.
    rcases freshName_snd (ε := GraphError) g "Edge" with ⟨counters, hcounters⟩
    have hnames := Relation.ReflTransGen.single (freshName_change (ε := GraphError) g "Edge")
    split
    · rename_i name g' heq
      rw [heq] at hnames hcounters
      refine hnames.tail (Change.edge name a b label ?_ ?_ hab ?_)
      -- The counters are no part of what was checked.
      · rw [hcounters]; exact ha
      · rw [hcounters]; exact hb
      · rw [hcounters]; exact hlabel
    · rename_i e g' heq
      rw [heq] at hnames
      exact hnames

/-- Every operation is made of changes. -/
theorem apply_changes (g : Graph) (op : Operation) : Changes g (g.apply op) := by
  cases op with
  | freshName kind => exact Relation.ReflTransGen.single (freshName_change g kind)
  | addNode kind roles =>
    rw [apply, addNode_eq]
    exact insertGenerated_changes g kind roles none (Or.inl rfl)
  | addNamedNode name kind roles => exact insertNode_changes g name kind roles none (Or.inl rfl)
  | addConstant value =>
    rw [apply, addConstant_eq]
    exact insertGenerated_changes g _ _ _ (Or.inr ⟨rfl, rfl⟩)
  | addNamedConstant name value => exact insertNode_changes g name _ _ _ (Or.inr ⟨rfl, rfl⟩)
  | addVariable =>
    -- The counter of names is moved first, and stays moved if there is no name left.
    have hnames := Relation.ReflTransGen.single (freshName_change (ε := GraphError) g "Variable")
    simp only [apply, addVariable]
    split
    · rename_i name g' heq
      rw [heq] at hnames
      exact hnames.tail (Change.label name)
    · rename_i e g' heq
      rw [heq] at hnames
      exact hnames
  | addNamedVariable name =>
    simp only [apply, addNamedVariable]
    split
    · exact Relation.ReflTransGen.refl
    · exact Relation.ReflTransGen.single (Change.label name)
  | connect a b label => exact connect_changes g a b label
  | connectRoles a roleA b roleB =>
    simp only [apply, connectRoles]
    split
    · exact Relation.ReflTransGen.refl
    · split
      · exact Relation.ReflTransGen.refl
      · exact connect_changes g _ _ none
  | setParam n key value =>
    simp only [apply, setParam]
    split
    · rename_i hn
      -- What a check lets through is one change, and a refusal is none.
      exact Relation.ReflTransGen.single (Change.param n key value hn)
    · exact Relation.ReflTransGen.refl
  | setMessage p message =>
    simp only [apply, setMessage]
    split
    · exact Relation.ReflTransGen.single (Change.message p (some message))
    · exact Relation.ReflTransGen.refl
  | clearMessage p =>
    simp only [apply, clearMessage]
    split
    · exact Relation.ReflTransGen.refl
    · exact Relation.ReflTransGen.single (Change.message p none)
  | reindex => exact Relation.ReflTransGen.single Change.index

end Graph

/-- What each change preserves is preserved by changes that follow one another. -/
theorem Graph.preserved_of_changes {P : Graph → Prop} (hchange : ∀ g g', P g → Change g g' → P g')
    {g g' : Graph} (h : Graph.Changes g g') (hg : P g) : P g' := by
  induction h with
  | refl => exact hg
  | tail _ hstep ih => exact hchange _ _ ih hstep

/-- What holds of the graph without nodes and is preserved by every change holds of every
    reachable graph. -/
theorem Reachable.of_changes {P : Graph → Prop} (hempty : ∀ id, P (Graph.empty id))
    (hchange : ∀ g g', P g → Change g g' → P g') {g : Graph} (h : Reachable g) : P g := by
  induction h with
  | empty id => exact hempty id
  | apply _ op ih =>
    -- A refused operation is made of changes as well, often of none.
    exact Graph.preserved_of_changes hchange (Graph.apply_changes _ op) ih

end MessagePlan
