import Mathlib.Data.List.Perm.Subperm
import Mathlib.Data.Nat.Find
import MessagePlan.Proofs.Graph.Names

/-!
# Generated Names Are the Next Free Ones

A name is generated by counting up from the last number used for its kind until the name with the
number belongs to no node and no variable. Nothing in the search says that it ends. It does, since
a name tells its number: numbers that follow one another make as many different names, and a graph
with `n` nodes and `m` variables has no more than `n + m` names for them to meet. So one of the
next `n + m + 1` numbers is free, however the names were chosen, and the search stops at the first.

Of all operations only six ask for a generated name, and none asks twice. An operation leaves the
counters as the name it asked for left them, and other operations leave them alone; so the numbers
of a kind ascend along every run, and no name is generated twice for one kind. Two kinds that
differ only in case can get the same name.

## Main definitions

* `Graph.Unclaimed`: A name that no node and no variable has.
* `Graph.NextNumber`: The first number whose name is free, after the last one used.
* `Graph.asked?`, `Graph.generated?`: The kind that an operation asks a name for, and the name.
* `Graph.generatedAlong`: The names that are generated along some operations.

## Theorems

* `firstFree_eq_ite`: The search ends with the first free number, once it has tried that far.
* `exists_numbered_not_mem`: Among enough numbers one has a free name.
* `exists_nextNumber`: There is a next number, and it is near.
* `NextNumber.freshName_eq`: It is the number of the generated name.
* `counters_apply`: Operations count as the names they ask for.
* `above_of_mem_generatedAlong`: Names generated later have greater numbers.
* `generated_names_are_next_free`: Which name is generated, and that it is generated once.
-/

namespace MessagePlan

/-- Where all numbers before `n` are taken and `n` is not, the search finds `n` exactly if it may
    try that far. -/
theorem firstFree_eq_ite {taken : String → Bool} {stem : String} {k n : Nat} (hlow : k ≤ n)
    (hhigh : n ≤ largestNumber) (hfree : taken (numbered stem n) = false)
    (htaken : ∀ i, k ≤ i → i < n → taken (numbered stem i) = true) (tries : Nat) :
    firstFree taken stem tries k = if n < k + tries then some n else none := by
  induction tries generalizing k with
  | zero => rw [firstFree, if_neg (by omega)]
  | succ tries ih =>
    rw [firstFree, if_neg (by omega)]
    by_cases hkn : k = n
    · rw [hkn, hfree, if_neg Bool.false_ne_true, if_pos (by omega)]
    · -- The first number is taken, and so the search goes on after it.
      rw [htaken k (Nat.le_refl k) (by omega), if_pos rfl,
        ih (by omega) fun i hi => htaken i (by omega), Nat.add_right_comm, Nat.add_assoc]

/-- Names with different numbers are different, so among more numbers than there are names one
    makes a name that is not there. -/
theorem exists_numbered_not_mem (stem : String) (names : List String) (k : Nat) :
    ∃ n, k ≤ n ∧ n ≤ k + names.length ∧ numbered stem n ∉ names := by
  by_contra! hall
  have hnodup : ((List.range' k (names.length + 1)).map (numbered stem)).Nodup :=
    List.Nodup.map (fun _ _ => numbered_inj) List.nodup_range'
  have hsub : (List.range' k (names.length + 1)).map (numbered stem) ⊆ names := by
    intro name hname
    rcases List.mem_map.1 hname with ⟨n, hn, rfl⟩
    rw [List.mem_range'_1] at hn
    exact hall n hn.1 (by omega)
  have hlength := (List.subperm_of_subset hnodup hsub).length_le
  rw [List.length_map, List.length_range'] at hlength
  omega

namespace Graph

variable {g : Graph} {kind name : String} {k : Nat}

/-! ### The next number -/

/-- Whether a name is that of no node and of no variable. -/
def Unclaimed (g : Graph) (name : String) : Prop :=
  (∀ node ∈ g.nodes, node.name ≠ name) ∧ ∀ v ∈ g.vars, v.name ≠ name

/-- The first number after the last one used for a kind that makes a name which is free. -/
structure NextNumber (g : Graph) (kind : String) (k : Nat) : Prop where
  above : g.lastNumber kind < k
  unclaimed : g.Unclaimed (numbered (Text.lowercase kind) k)
  least : ∀ i, g.lastNumber kind < i → i < k →
    ¬ g.Unclaimed (numbered (Text.lowercase kind) i)

theorem unclaimed_iff : g.Unclaimed name ↔
    name ∉ g.nodes.toList.map Node.name ++ g.vars.toList.map Variable.name := by
  simp only [Unclaimed, List.mem_append, List.mem_map, Array.mem_toList_iff, not_or, not_exists,
    not_and]

/-- The indices tell what is taken. -/
theorem Named.isTaken_eq_false (h : g.Named) : g.isTaken name = false ↔ g.Unclaimed name := by
  rw [unclaimed_iff, isTaken, Bool.or_eq_false_iff, List.mem_append, not_or, h.nodeNames,
    h.variableNames, ← Bool.not_eq_true, ← Bool.not_eq_true, Std.ExtTreeMap.contains_iff_mem,
    Std.ExtTreeMap.contains_iff_mem, mem_indexed, mem_indexed]

/-- An index has as many entries as there are names, if these are distinct. -/
theorem size_indexed {ι : Type} {names : List String} (hnames : names.Nodup) (handle : Nat → ι) :
    (indexed names handle).size = names.length := by
  induction names using List.reverseRecOn with
  | nil => exact Std.ExtTreeMap.size_empty
  | append_singleton names last ih =>
    rcases List.nodup_append.1 hnames with ⟨hnames, _, hlast⟩
    have hnew : ¬ (indexed names handle).contains last = true := fun hmem =>
      hlast last (mem_indexed.1 (Std.ExtTreeMap.contains_iff_mem.1 hmem)) last
        List.mem_cons_self rfl
    rw [indexed_concat, Std.ExtTreeMap.size_insert, if_neg hnew, ih hnames, List.length_append,
      List.length_singleton]

/-- The next number is there, and there are no more numbers before it than there are nodes and
    variables. -/
theorem exists_nextNumber (g : Graph) (kind : String) :
    ∃ k, g.NextNumber kind k ∧ k ≤ g.lastNumber kind + (g.nodes.size + g.vars.size + 1) := by
  classical
  rcases exists_numbered_not_mem (Text.lowercase kind)
    (g.nodes.toList.map Node.name ++ g.vars.toList.map Variable.name) (g.lastNumber kind + 1)
    with ⟨n, hlow, hhigh, hn⟩
  have hex : ∃ n, g.lastNumber kind < n ∧ g.Unclaimed (numbered (Text.lowercase kind) n) :=
    ⟨n, hlow, unclaimed_iff.2 hn⟩
  -- Some number is free, and so there is a first one, which is no further away.
  have hle : Nat.find hex ≤ n := Nat.find_min' hex ⟨hlow, unclaimed_iff.2 hn⟩
  have hfirst := Nat.find_spec hex
  refine ⟨Nat.find hex, ⟨hfirst.1, hfirst.2, fun i hi hlt hfree => ?_⟩, ?_⟩
  · exact Nat.find_min hex hlt ⟨hi, hfree⟩
  · simp only [List.length_append, List.length_map, Array.length_toList] at hhigh
    omega

/-- The search for a name tries the numbers up to the next one, and no more. -/
theorem NextNumber.firstFree_eq (hk : g.NextNumber kind k) (h : g.Named)
    (hsmall : k < UInt32.size) (tries : Nat) :
    firstFree g.isTaken (Text.lowercase kind) tries (g.lastNumber kind + 1) =
      if k ≤ g.lastNumber kind + tries then some k else none := by
  have hcount : k ≤ g.lastNumber kind + tries ↔ k < g.lastNumber kind + 1 + tries := by omega
  simp only [hcount]
  refine firstFree_eq_ite hk.above ?_ (h.isTaken_eq_false.2 hk.unclaimed) ?_ tries
  · unfold largestNumber
    omega
  · intro i hi hlt
    by_contra htaken
    rw [Bool.not_eq_true, h.isTaken_eq_false] at htaken
    exact hk.least i hi hlt htaken

/-- A name is generated with the next number, and its counter is all that changes. -/
theorem NextNumber.freshName_eq {ε : Type} (hk : g.NextNumber kind k) (h : g.Named)
    (hsmall : k < UInt32.size)
    (hnear : k ≤ g.lastNumber kind + (g.nodes.size + g.vars.size + 1)) :
    (g.freshName kind : Edit ε String) =
      (.ok (numbered (Text.lowercase kind) k), g.withLastNumber kind k) := by
  -- The indices allow as many tries as there are nodes and variables, and one more.
  have htries : g.nodeNames.size + g.variableNames.size + 1 =
      g.nodes.size + g.vars.size + 1 := by
    rw [h.nodeNames, h.variableNames, size_indexed h.nodes, size_indexed h.vars, List.length_map,
      List.length_map, Array.length_toList, Array.length_toList]
  rw [freshName]
  simp only [htries, hk.firstFree_eq h hsmall, if_pos hnear]

/-! ### Runs -/

/-- The kind that an operation asks a name for, if it gets that far. -/
def asked? (g : Graph) : Operation → Option String
  | .freshName kind => some kind
  | .addNode kind _ => some kind
  | .addConstant _ => some constantKind
  | .addVariable => some "Variable"
  | .connect a b label => (g.checkConnection a b label).toOption.map fun _ => "Edge"
  | .connectRoles a roleA b roleB =>
    match g.terminalWithRole a roleA, g.terminalWithRole b roleB with
    | .ok p, .ok q => (g.checkConnection p q none).toOption.map fun _ => "Edge"
    | _, _ => none
  | _ => none

/-- The name that an operation generates, with its kind. -/
def generated? (g : Graph) (op : Operation) : Option (String × String) :=
  (g.asked? op).bind fun kind =>
    (g.freshName kind : Edit GraphError String).1.toOption.map fun name => (kind, name)

/-- The names that operations generate one after the other, each with its kind. -/
def generatedAlong (g : Graph) : List Operation → List (String × String)
  | [] => []
  | op :: ops => (g.generated? op).toList ++ (g.apply op).generatedAlong ops

/-- The graph after generating the name that an operation asks for, if it asks for one. -/
def countedUp (g : Graph) (op : Operation) : Graph :=
  match g.asked? op with
  | some kind => (g.freshName kind : Edit GraphError String).2
  | none => g

theorem counters_insertNode (g : Graph) (name kind : String) (roles : List String)
    (constant : Option Value) :
    (g.insertNode name kind roles constant).2.counters = g.counters := by
  rcases insertNode_snd g name kind roles constant with heq | ⟨_, heq⟩
  · rw [heq]
  · rw [heq]
    rfl

theorem counters_insertGenerated (g : Graph) (kind : String) (roles : List String)
    (constant : Option Value) : (g.insertGenerated kind roles constant).2.counters =
      (g.freshName kind : Edit GraphError String).2.counters := by
  unfold insertGenerated
  split
  · rename_i name g' heq
    rw [heq, counters_insertNode]
  · rename_i e g' heq
    rw [heq]

theorem counters_connect (g : Graph) (a b : TerminalId) (label : Option VariableId) :
    (g.connect a b label).2.counters =
      (g.countedUp (.connect a b label)).counters := by
  simp only [connect, countedUp, asked?]
  -- A connection that is refused asks for no name.
  cases g.checkConnection a b label with
  | error e => rfl
  | ok _ =>
    simp only [Except.toOption, Option.map_some]
    split
    · rename_i name g' heq
      rw [heq]
      rfl
    · rename_i e g' heq
      rw [heq]

/-- An operation leaves the counters as the name it asks for leaves them, or as they were. -/
theorem counters_apply (g : Graph) (op : Operation) :
    (g.apply op).counters = (g.countedUp op).counters := by
  cases op with
  | freshName kind => rfl
  | addNode kind roles =>
    rw [apply, addNode_eq, counters_insertGenerated]
    rfl
  | addNamedNode name kind roles => exact counters_insertNode g name kind roles none
  | addConstant value =>
    rw [apply, addConstant_eq, counters_insertGenerated]
    rfl
  | addNamedConstant name value =>
    exact counters_insertNode g name constantKind constantRoles (some value)
  | addVariable =>
    simp only [apply, addVariable, countedUp, asked?]
    split
    · rename_i name g' heq
      rw [heq]
      rfl
    · rename_i e g' heq
      rw [heq]
  | addNamedVariable name =>
    simp only [apply, addNamedVariable, countedUp, asked?]
    split
    · rfl
    · rfl
  | connect a b label => exact counters_connect g a b label
  | connectRoles a roleA b roleB =>
    simp only [apply, connectRoles, countedUp, asked?]
    -- Both terminals have to be found before a name is asked for.
    cases g.terminalWithRole a roleA with
    | error e => rfl
    | ok p =>
      cases g.terminalWithRole b roleB with
      | error e => rfl
      | ok q => exact counters_connect g p q none
  | setParam n key value =>
    simp only [apply, setParam, countedUp, asked?]
    split
    · rfl
    · rfl
  | setMessage p message =>
    simp only [apply, setMessage, countedUp, asked?]
    split
    · rfl
    · rfl
  | clearMessage p =>
    simp only [apply, clearMessage, countedUp, asked?]
    split
    · rfl
    · rfl
  | reindex => rfl

theorem lastNumber_apply (g : Graph) (op : Operation) (kind : String) :
    (g.apply op).lastNumber kind = (g.countedUp op).lastNumber kind := by
  rw [lastNumber, counters_apply, lastNumber]

/-- No counter goes back. -/
theorem Named.lastNumber_le_apply (h : g.Named) (op : Operation) (kind : String) :
    g.lastNumber kind ≤ (g.apply op).lastNumber kind := by
  rw [lastNumber_apply, countedUp]
  split
  · rename_i asked _
    rcases freshName_cases (ε := GraphError) g asked with ⟨k, hlow, _, _, heq⟩ | heq
    · rw [heq, lastNumber_withLastNumber]
      split
      · rename_i hkind
        exact hkind ▸ Nat.le_of_lt hlow
      · exact Nat.le_refl _
    · -- Where the numbers are exhausted the counter is at its end.
      rw [heq, lastNumber_withLastNumber]
      split
      · exact h.numbers kind
      · exact Nat.le_refl _
  · exact Nat.le_refl _

/-- A name that an operation generates has a number beyond the last one used for its kind, and
    that number is the last one used afterwards. -/
theorem number_of_generated {op : Operation} (hop : g.generated? op = some (kind, name)) :
    ∃ k, g.lastNumber kind < k ∧ name = numbered (Text.lowercase kind) k ∧
      (g.apply op).lastNumber kind = k := by
  rcases Option.bind_eq_some_iff.1 hop with ⟨asked, hasked, hname⟩
  rcases Option.map_eq_some_iff.1 hname with ⟨name', hname', hpair⟩
  rcases Prod.mk.inj hpair with ⟨rfl, rfl⟩
  rcases freshName_cases (ε := GraphError) g asked with ⟨k, hlow, _, _, heq⟩ | heq
  · rw [heq] at hname'
    refine ⟨k, hlow, (Option.some.inj hname').symm, ?_⟩
    rw [lastNumber_apply, countedUp, hasked]
    simp only [heq, lastNumber_withLastNumber, if_pos]
  · rw [heq] at hname'
    exact nomatch hname'

/-- Names that are generated along a run have numbers beyond the last ones used at its start. -/
theorem above_of_mem_generatedAlong (h : g.Named) {ops : List Operation}
    (hmem : (kind, name) ∈ g.generatedAlong ops) :
    ∃ k, g.lastNumber kind < k ∧ name = numbered (Text.lowercase kind) k := by
  induction ops generalizing g with
  | nil => exact absurd hmem List.not_mem_nil
  | cons op ops ih =>
    rcases List.mem_append.1 hmem with hmem | hmem
    · rcases number_of_generated (Option.mem_toList.1 hmem) with ⟨k, hk, hname, _⟩
      exact ⟨k, hk, hname⟩
    · rcases ih (named_apply h op) hmem with ⟨k, hk, hname⟩
      exact ⟨k, Nat.lt_of_le_of_lt (h.lastNumber_le_apply op kind) hk, hname⟩

/-- No name is generated twice for one kind along a run. -/
theorem Named.nodup_generatedAlong (h : g.Named) (ops : List Operation) :
    (g.generatedAlong ops).Nodup := by
  induction ops generalizing g with
  | nil => exact List.nodup_nil
  | cons op ops ih =>
    refine List.nodup_append.2 ⟨?_, ih (named_apply h op), ?_⟩
    · cases g.generated? op with
      | none => exact List.nodup_nil
      | some pair => exact List.nodup_singleton pair
    · -- What is generated later has a number beyond that of the first name.
      rintro ⟨kind, name⟩ hfirst _ hlater rfl
      rcases number_of_generated (Option.mem_toList.1 hfirst) with ⟨j, _, hj, hlast⟩
      rcases above_of_mem_generatedAlong (named_apply h op) hlater with ⟨k, hk, hname⟩
      rw [hj] at hname
      have hjk := numbered_inj hname
      omega

end Graph

/-- The name generated for a kind is the kind in lower case with the next number, the first one
    beyond the last used for that kind whose name no node and no variable has. There is such a
    number, no further away than there are nodes and variables, and one more. Where it is within
    32 bits, the search finds it once it has tried exactly as many numbers, the name is returned,
    and the counter of the kind is all that changes. Along no run is a name generated twice for
    one kind. -/
theorem generated_names_are_next_free {g : Graph} (hg : Reachable g) :
    (∀ kind, ∃ k, g.NextNumber kind k ∧
      k ≤ g.lastNumber kind + (g.nodes.size + g.vars.size + 1) ∧
      (k < UInt32.size →
        (∀ tries, firstFree g.isTaken (Text.lowercase kind) tries (g.lastNumber kind + 1) =
          if k ≤ g.lastNumber kind + tries then some k else none) ∧
        (g.freshName kind : Graph.Edit GraphError String) =
          (.ok (Text.lowercase kind ++ "_" ++ Nat.repr k),
            { g with counters := g.counters.insert kind k }))) ∧
    ∀ ops, (g.generatedAlong ops).Nodup := by
  have hnamed := Graph.named_of_reachable hg
  refine ⟨fun kind => ?_, hnamed.nodup_generatedAlong⟩
  rcases g.exists_nextNumber kind with ⟨k, hk, hnear⟩
  -- The search and the generated name both come to the least free number, if it is small enough.
  exact ⟨k, hk, hnear, fun hsmall =>
    ⟨hk.firstFree_eq hnamed hsmall, hk.freshName_eq hnamed hsmall hnear⟩⟩

/-- A graph with names that look generated: two kinds share a stem, a node and a variable have
    names of that stem already, and one number of the first kind has been used. -/
def crowded : Graph :=
  (Graph.empty ⟨3⟩).applyAll [
    .addNamedNode "gaussian_2" "Gaussian" ["out"], .addNode "Gaussian" ["out"],
    .addNamedVariable "gaussian_3"]

/-- The numbers that are taken are skipped, and a second kind counts on its own. -/
theorem generated_names_are_next_free_crowded : Reachable crowded ∧
    (∃ k, crowded.NextNumber "Gaussian" k ∧ k ≤ crowded.lastNumber "Gaussian" + 4) ∧
    crowded.generatedAlong [.freshName "Gaussian", .addNode "gaussian" ["out"],
      .addNode "Gaussian" ["out"]] = [("Gaussian", "gaussian_4"), ("gaussian", "gaussian_4"),
        ("Gaussian", "gaussian_5")] ∧
    (crowded.generatedAlong [.freshName "Gaussian", .addNode "gaussian" ["out"],
      .addNode "Gaussian" ["out"]]).Nodup := by
  have hg : Reachable crowded := (Reachable.empty ⟨3⟩).applyAll _
  rcases generated_names_are_next_free hg with ⟨hnext, hnodup⟩
  rcases hnext "Gaussian" with ⟨k, hk, hnear, _⟩
  refine ⟨hg, ⟨k, hk, ?_⟩, by decide +kernel, hnodup _⟩
  have hsize : crowded.nodes.size + crowded.vars.size = 3 := by decide +kernel
  omega

end MessagePlan
