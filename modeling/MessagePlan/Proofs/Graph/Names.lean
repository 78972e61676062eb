import Mathlib.Data.List.Induction
import Mathlib.Data.List.Nodup
import MessagePlan.Proofs.Graph.Coherent
import Std.Data.String.ToNat

/-!
# Names Are Never Given Twice

A graph names its nodes, its variables and its edges, and it looks names up in an index of the
nodes and one of the variables. No two nodes have one name, whether it was given or generated, and
neither have two variables; so an index can be told from the names alone, and to build it again
changes nothing.

Edges are in no index. Their names are all generated, and what keeps them apart is the number at the
end, which counts up. The counter of edges is shared with whoever asks for a name of that kind, and
some numbers are skipped since a node or a variable has the name already; but it never goes back, so
the numbers of the edges ascend and the last one used is beyond them all. A kind that has used its
last number gets no further name, and its counter stays there.

A change does not say what name it was made with, and so the operations themselves are gone through
here, with `freshName_cases` for what is generated.

## Main definitions

* `Graph.Named`: Names are distinct, and the index and the counters tell of them.

## Theorems

* `numbered_inj`: A name tells its number.
* `indexed_concat`, `getElem?_indexed_iff`: An index leads to the places of distinct names.
* `freshName_cases`: The number of a generated name has not been used.
* `Named.withNode`, `Named.insertVariable`, `Named.joinTerminals`: A node, a variable or an edge
  more.
* `named_apply`: Every operation keeps names distinct.
* `Named.reindexed`: The index built again is the index.
* `Named.nodup_edges`: Edges have distinct names.
-/

namespace MessagePlan

/-- A name with a number tells the number. -/
theorem numbered_inj {stem : String} {j k : Nat} (h : numbered stem j = numbered stem k) :
    j = k := by
  unfold numbered at h
  exact Nat.repr_inj.1 (String.append_right_inj _ |>.1 h)

namespace Graph

/-! ### Indices -/

section Index

variable {ι : Type} {names : List String} {handle : Nat → ι} {name : String}

/-- A name more at the end is put into the index, with its place. -/
theorem indexed_concat (names : List String) (name : String) (handle : Nat → ι) :
    indexed (names ++ [name]) handle =
      (indexed names handle).insert name (handle names.length) := by
  simp only [indexed, List.zipIdx_append, List.foldl_append, Nat.zero_add, List.zipIdx_cons,
    List.zipIdx_nil, List.foldl_cons, List.foldl_nil]

theorem mem_indexed : name ∈ indexed names handle ↔ name ∈ names := by
  induction names using List.reverseRecOn with
  | nil => exact iff_of_false Std.ExtTreeMap.not_mem_empty List.not_mem_nil
  | append_singleton names last ih =>
    rw [indexed_concat, Std.ExtTreeMap.mem_insert, Std.LawfulEqCmp.compare_eq_iff_eq, ih,
      List.mem_append, List.mem_singleton, or_comm, eq_comm]

/-- Where names are distinct, the index leads to the place of each. -/
theorem getElem?_indexed_iff (hnames : names.Nodup) {n : ι} :
    (indexed names handle)[name]? = some n ↔ ∃ i, names[i]? = some name ∧ n = handle i := by
  refine ⟨getElem?_indexed, ?_⟩
  rintro ⟨i, hi, rfl⟩
  induction names using List.reverseRecOn with
  | nil => exact nomatch hi
  | append_singleton names last ih =>
    rcases List.nodup_append.1 hnames with ⟨hnames, _, hlast⟩
    simp only [indexed_concat, Std.ExtTreeMap.getElem?_insert,
      Std.LawfulEqCmp.compare_eq_iff_eq]
    have hlt := (List.getElem?_eq_some_iff.1 hi).1
    rw [List.length_append, List.length_singleton] at hlt
    by_cases hend : i = names.length
    · rw [hend, List.getElem?_append_right (Nat.le_refl _), Nat.sub_self,
        List.getElem?_cons_zero] at hi
      rw [if_pos (Option.some.inj hi), hend]
    · -- A name that stands before the last one is not the last one.
      rw [List.getElem?_append_left (by omega)] at hi
      have hne : last ≠ name :=
        fun heq => hlast name (List.mem_of_getElem? hi) last List.mem_cons_self heq.symm
      rw [if_neg hne]
      exact ih hnames hi

end Index

/-- The names of nodes are distinct, and so are those of variables, and each index is the one that
    is built from them. The numbers of the edges ascend, no further than the last number used for
    their kind, and no counter is beyond the largest number. -/
structure Named (g : Graph) : Prop where
  nodes : (g.nodes.toList.map Node.name).Nodup
  nodeNames : g.nodeNames = indexed (g.nodes.toList.map Node.name) (NodeId.mk g.id)
  vars : (g.vars.toList.map Variable.name).Nodup
  variableNames : g.variableNames = indexed (g.vars.toList.map Variable.name) (VariableId.mk g.id)
  edges : ∃ ks : List Nat, g.edges.toList.map Edge.name = ks.map (numbered "edge") ∧
    ks.Pairwise (· < ·) ∧ ∀ k ∈ ks, k ≤ g.lastNumber "Edge"
  numbers : ∀ kind, g.lastNumber kind ≤ largestNumber

variable {ε : Type} {g g' : Graph} {name kind : String}

/-- What is changed in one entry of a list is not seen where all entries look as before. -/
theorem map_toList_modify {α β : Type} {xs : Array α} {i : Nat} {f : α → α} {k : α → β}
    (hk : ∀ a, k (f a) = k a) : (xs.modify i f).toList.map k = xs.toList.map k := by
  refine List.ext_getElem? fun j => ?_
  simp only [List.getElem?_map, Array.getElem?_toList, Array.getElem?_modify]
  split
  · rw [Option.map_map]
    exact congrArg (Option.map · xs[j]?) (funext hk)
  · rfl

/-! ### Generated names -/

theorem lastNumber_withLastNumber (g : Graph) (kind kind' : String) (k : Nat) :
    (g.withLastNumber kind k).lastNumber kind' =
      if kind = kind' then k else g.lastNumber kind' := by
  simp only [lastNumber, withLastNumber, Std.ExtTreeMap.getD_insert,
    Std.LawfulEqCmp.compare_eq_iff_eq]

/-- A name is generated with a number that was not used for its kind, and that is free among the
    names of nodes and of variables; or the numbers are exhausted. -/
theorem freshName_cases (g : Graph) (kind : String) :
    (∃ k, g.lastNumber kind < k ∧ k ≤ largestNumber ∧
      g.isTaken (numbered (Text.lowercase kind) k) = false ∧
      (g.freshName kind : Edit ε String) =
        (.ok (numbered (Text.lowercase kind) k), g.withLastNumber kind k)) ∨
    (g.freshName kind : Edit ε String) =
      (.error .namesExhausted, g.withLastNumber kind largestNumber) := by
  unfold freshName
  simp only []
  -- The search finds a number or runs out of them; the counter is moved either way.
  split
  · rename_i k hk
    rcases firstFree_eq_some hk with ⟨hlow, _, hhigh, hfree, _⟩
    exact Or.inl ⟨k, hlow, hhigh, hfree, rfl⟩
  · exact Or.inr rfl

/-- A counter may be raised. -/
theorem Named.withLastNumber (h : g.Named) (kind : String) {k : Nat}
    (hlow : g.lastNumber kind ≤ k) (hhigh : k ≤ largestNumber) :
    (g.withLastNumber kind k).Named where
  nodes := h.nodes
  nodeNames := h.nodeNames
  vars := h.vars
  variableNames := h.variableNames
  edges := by
    -- Edges have numbers up to the counter, and the counter only grows.
    rcases h.edges with ⟨ks, hks, hsorted, hle⟩
    refine ⟨ks, hks, hsorted, fun j hj => ?_⟩
    rw [lastNumber_withLastNumber]
    split
    · rename_i hkind
      exact Nat.le_trans (hle j hj) (hkind ▸ hlow)
    · exact hle j hj
  numbers kind' := by
    rw [lastNumber_withLastNumber]
    split
    · exact hhigh
    · exact h.numbers kind'

theorem Named.freshName (h : g.Named) (kind : String) :
    (g.freshName kind : Edit ε String).2.Named := by
  rcases freshName_cases (ε := ε) g kind with ⟨k, hlow, hhigh, _, heq⟩ | heq
  · rw [heq]
    exact h.withLastNumber kind (Nat.le_of_lt hlow) hhigh
  · rw [heq]
    exact h.withLastNumber kind (h.numbers kind) (Nat.le_refl _)

/-! ### A node, a variable or an edge more -/

theorem Named.withNode (h : g.Named) (hname : name ∉ g.nodeNames) (kind : String)
    (roles : List String) (constant : Option Value) :
    (g.withNode name kind roles constant).Named where
  nodes := by
    -- The index has all names, so a name that it does not have is new.
    rw [h.nodeNames, mem_indexed] at hname
    rw [Graph.withNode, Array.toList_push, List.map_append, List.map_singleton,
      ← List.concat_eq_append]
    exact h.nodes.concat hname
  nodeNames := by
    rw [Graph.withNode, Array.toList_push, List.map_append, List.map_singleton, indexed_concat,
      List.length_map, Array.length_toList, ← h.nodeNames]
    rfl
  vars := h.vars
  variableNames := h.variableNames
  edges := h.edges
  numbers := h.numbers

theorem Named.insertVariable (h : g.Named) (hname : name ∉ g.variableNames) :
    (g.insertVariable name).2.Named where
  nodes := h.nodes
  nodeNames := h.nodeNames
  vars := by
    rw [h.variableNames, mem_indexed] at hname
    rw [Graph.insertVariable, Array.toList_push, List.map_append, List.map_singleton,
      ← List.concat_eq_append]
    exact h.vars.concat hname
  variableNames := by
    rw [Graph.insertVariable, Array.toList_push, List.map_append, List.map_singleton,
      indexed_concat, List.length_map, Array.length_toList, ← h.variableNames]
  edges := h.edges
  numbers := h.numbers

/-- An edge is added under the number that its counter has been raised to. -/
theorem Named.joinTerminals (h : g.Named) {k : Nat} (hlow : g.lastNumber "Edge" < k)
    (hhigh : k ≤ largestNumber) (a b : TerminalId) (label : Option VariableId) :
    ((g.withLastNumber "Edge" k).joinTerminals (numbered "edge" k) a b label).2.Named := by
  have hraised := h.withLastNumber "Edge" (Nat.le_of_lt hlow) hhigh
  have hvars : ((g.withLastNumber "Edge" k).joinTerminals (numbered "edge" k) a b
      label).2.vars.toList.map Variable.name = g.vars.toList.map Variable.name := by
    cases label with
    | none => rfl
    | some v => exact map_toList_modify (fun _ => rfl)
  refine ⟨hraised.nodes, hraised.nodeNames, hvars ▸ hraised.vars, hvars ▸ hraised.variableNames,
    ?_, hraised.numbers⟩
  rcases h.edges with ⟨ks, hks, hsorted, hle⟩
  have hlast : (g.withLastNumber "Edge" k).lastNumber "Edge" = k := by
    rw [lastNumber_withLastNumber, if_pos rfl]
  -- The new number is beyond the counter as it was, and so beyond those of all edges.
  refine ⟨ks ++ [k], ?_, ?_, fun j hj => ?_⟩
  · simp only [Graph.joinTerminals, Array.toList_push, List.map_append, List.map_singleton]
    exact congrArg (· ++ [numbered "edge" k]) hks
  · refine List.pairwise_append.2 ⟨hsorted, List.pairwise_singleton _ _, fun i hi j hj => ?_⟩
    rw [List.mem_singleton.1 hj]
    exact Nat.lt_of_le_of_lt (hle i hi) hlow
  · change j ≤ (g.withLastNumber "Edge" k).lastNumber "Edge"
    rw [hlast]
    rcases List.mem_append.1 hj with hj | hj
    · exact Nat.le_of_lt (Nat.lt_of_le_of_lt (hle j hj) hlow)
    · exact Nat.le_of_eq (List.mem_singleton.1 hj)

/-! ### Operations -/

/-- Graphs with the same names and counters have distinct names together. -/
theorem Named.congr (h : g.Named) (hid : g'.id = g.id)
    (hnodes : g'.nodes.toList.map Node.name = g.nodes.toList.map Node.name)
    (hvars : g'.vars = g.vars) (hedges : g'.edges = g.edges) (hcounters : g'.counters = g.counters)
    (hnodeNames : g'.nodeNames = g.nodeNames)
    (hvariableNames : g'.variableNames = g.variableNames) : g'.Named where
  nodes := hnodes ▸ h.nodes
  nodeNames := by rw [hnodeNames, hnodes, hid, h.nodeNames]
  vars := hvars ▸ h.vars
  variableNames := by rw [hvariableNames, hvars, hid, h.variableNames]
  edges := by
    rw [hedges, lastNumber, hcounters]
    exact h.edges
  numbers kind := by
    rw [lastNumber, hcounters]
    exact h.numbers kind

/-- To build the index again changes nothing. -/
theorem Named.reindexed (h : g.Named) : g.reindexed = g := by
  rw [Graph.reindexed, ← h.nodeNames, ← h.variableNames]

theorem named_empty (id : GraphId) : (Graph.empty id).Named where
  nodes := List.nodup_nil
  nodeNames := rfl
  vars := List.nodup_nil
  variableNames := rfl
  edges := ⟨[], rfl, List.Pairwise.nil, fun _ hk => absurd hk List.not_mem_nil⟩
  numbers kind := by
    rw [lastNumber, Graph.empty, Std.ExtTreeMap.getD_empty]
    exact Nat.zero_le _

/-- A node is refused, or added under a name that no node has. -/
theorem Named.insertNode (h : g.Named) (name kind : String) (roles : List String)
    (constant : Option Value) : (g.insertNode name kind roles constant).2.Named := by
  unfold Graph.insertNode
  split
  · exact h
  · rename_i hname
    rw [Std.ExtTreeMap.contains_iff_mem] at hname
    split
    · exact h
    · exact h.withNode hname kind roles constant

theorem Named.insertGenerated (h : g.Named) (kind : String) (roles : List String)
    (constant : Option Value) : (g.insertGenerated kind roles constant).2.Named := by
  have hnext := h.freshName (ε := GraphError) kind
  unfold Graph.insertGenerated
  split
  · rename_i name g' heq
    rw [heq] at hnext
    exact hnext.insertNode name kind roles constant
  · rename_i e g' heq
    rw [heq] at hnext
    exact hnext

theorem Named.connect (h : g.Named) (a b : TerminalId) (label : Option VariableId) :
    (g.connect a b label).2.Named := by
  unfold Graph.connect
  split
  · exact h
  · have hstem : Text.lowercase "Edge" = "edge" := by decide +kernel
    rcases freshName_cases (ε := GraphError) g "Edge" with ⟨k, hlow, hhigh, _, heq⟩ | heq
    · rw [heq, hstem]
      exact h.joinTerminals hlow hhigh a b label
    · rw [heq]
      exact h.withLastNumber "Edge" (h.numbers "Edge") (Nat.le_refl _)

/-- Every operation keeps names distinct. -/
theorem named_apply (h : g.Named) (op : Operation) : (g.apply op).Named := by
  cases op with
  | freshName kind => exact h.freshName kind
  | addNode kind roles =>
    rw [apply, addNode_eq]
    exact h.insertGenerated kind roles none
  | addNamedNode name kind roles => exact h.insertNode name kind roles none
  | addConstant value =>
    rw [apply, addConstant_eq]
    exact h.insertGenerated constantKind constantRoles (some value)
  | addNamedConstant name value =>
    exact h.insertNode name constantKind constantRoles (some value)
  | addVariable =>
    simp only [apply, addVariable]
    rcases freshName_cases (ε := GraphError) g "Variable" with ⟨k, hlow, hhigh, hfree, heq⟩ | heq
    · rw [heq]
      -- A name that was generated is free among those of variables.
      rw [isTaken, Bool.or_eq_false_iff] at hfree
      have hraised := h.withLastNumber "Variable" (Nat.le_of_lt hlow) hhigh
      refine hraised.insertVariable fun hmem => ?_
      rw [← Std.ExtTreeMap.contains_iff_mem] at hmem
      exact Bool.false_ne_true (hfree.2.symm.trans hmem)
    · rw [heq]
      exact h.withLastNumber "Variable" (h.numbers "Variable") (Nat.le_refl _)
  | addNamedVariable name =>
    simp only [apply, addNamedVariable]
    split
    · exact h
    · rename_i hname
      rw [Std.ExtTreeMap.contains_iff_mem] at hname
      exact h.insertVariable hname
  | connect a b label => exact h.connect a b label
  | connectRoles a roleA b roleB =>
    simp only [apply, connectRoles]
    split
    · exact h
    · split
      · exact h
      · exact h.connect _ _ none
  | setParam n key value =>
    simp only [apply, setParam]
    split
    · exact h.congr rfl (map_toList_modify (fun _ => rfl)) rfl rfl rfl rfl rfl
    · exact h
  | setMessage p message =>
    simp only [apply, setMessage]
    split
    · exact h.congr rfl rfl rfl rfl rfl rfl rfl
    · exact h
  | clearMessage p =>
    simp only [apply, clearMessage]
    split
    · exact h
    · exact h.congr rfl rfl rfl rfl rfl rfl rfl
  | reindex =>
    change g.reindexed.Named
    rw [h.reindexed]
    exact h

theorem named_of_reachable (hg : Reachable g) : g.Named := by
  induction hg with
  | empty id => exact named_empty id
  | apply _ op ih => exact named_apply ih op

/-! ### What names lead to -/

theorem Named.nodup_edges (h : g.Named) : (g.edges.toList.map Edge.name).Nodup := by
  rcases h.edges with ⟨ks, hks, hsorted, _⟩
  rw [hks]
  -- Numbers that ascend are distinct, and so are the names with them.
  refine List.pairwise_map.2 (hsorted.imp fun hlt heq => ?_)
  rw [numbered_inj heq] at hlt
  exact Nat.lt_irrefl _ hlt

/-- A name leads to a node exactly if it is the name of that node. -/
theorem Named.nodeNamed?_iff (h : g.Named) {n : NodeId} : g.nodeNamed? name = some n ↔
    n.graph = g.id ∧ ∃ node, g.nodes[n.slot]? = some node ∧ node.name = name := by
  rw [nodeNamed?, h.nodeNames, getElem?_indexed_iff h.nodes]
  simp only [List.getElem?_map, Array.getElem?_toList, Option.map_eq_some_iff]
  constructor
  · rintro ⟨i, hi, rfl⟩
    exact ⟨rfl, hi⟩
  · rintro ⟨hid, hslot⟩
    exact ⟨n.slot, hslot, by rw [← hid]⟩

/-- A name leads to a variable exactly if it is the name of that variable. -/
theorem Named.variableNamed?_iff (h : g.Named) {v : VariableId} : g.variableNamed? name = some v ↔
    v.graph = g.id ∧ ∃ w, g.vars[v.slot]? = some w ∧ w.name = name := by
  rw [variableNamed?, h.variableNames, getElem?_indexed_iff h.vars]
  simp only [List.getElem?_map, Array.getElem?_toList, Option.map_eq_some_iff]
  constructor
  · rintro ⟨i, hi, rfl⟩
    exact ⟨rfl, hi⟩
  · rintro ⟨hid, hslot⟩
    exact ⟨v.slot, hslot, by rw [← hid]⟩

end Graph

end MessagePlan
