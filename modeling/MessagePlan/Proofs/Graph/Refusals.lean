import MessagePlan.Proofs.Graph.Names
import MessagePlan.Proofs.Graph.WellFormed
import MessagePlan.Proofs.Outcomes

/-!
# Refused Operations

An operation that is refused has checked everything before it changes anything: the name of a node
before the roles of its kind, both terminals of an edge before a name is generated for it. So there
is nothing to be undone, and the graph is what it was.

There is one exception. A node that is not given a name gets one before its roles are compared with
those of its kind, and the number in that name stays used up. Such a name is free among the names of
nodes, so at least the node is not refused for its name.

`Leaves` says of an edit what its refusals are and what graph they leave. Handles that name nothing
are among the causes here, since operations are given handles from anywhere and look at them; what
is trusted are the handles inside the graph, and a well-formed graph justifies that.

## Main definitions

* `Operation.generates?`: The kind of the name that an operation generates before any check.
* `Graph.refusal?`: Why an operation was not carried out.
* `Graph.Leaves`: What holds of the cause of a refusal and of the graph after it.

## Theorems

* `answers_checkConnection`, `answers_terminalWithRole`: The checks before an edge is added.
* `leaves_insertNode`, `leaves_insertGenerated`, `leaves_connect`: What the refusals of an operation
  leave.
* `refusal_leaves_no_trace`: A refused operation leaves the graph as it was, but for the number in a
  name that was generated first.
-/

namespace MessagePlan

/-- The kind of the name that an operation generates before it checks anything. -/
def Operation.generates? : Operation → Option String
  | .freshName kind => some kind
  | .addNode kind _ => some kind
  | .addConstant _ => some constantKind
  | .addVariable => some "Variable"
  | _ => none

namespace Graph

/-- Why an edit was not carried out, if it was not. -/
def Edit.failure? {ε α : Type} (edit : Edit ε α) : Option (Failure ε) :=
  match edit.1 with
  | .ok _ => none
  | .error e => some e

/-- Why an operation was not carried out, if it was not. -/
def refusal? (g : Graph) : Operation → Option (Failure GraphError)
  | .freshName kind => (g.freshName kind).failure?
  | .addNode kind roles => (g.addNode kind roles).failure?
  | .addNamedNode name kind roles => (g.addNamedNode name kind roles).failure?
  | .addConstant value => (g.addConstant value).failure?
  | .addNamedConstant name value => (g.addNamedConstant name value).failure?
  | .addVariable => g.addVariable.failure?
  | .addNamedVariable name => (g.addNamedVariable name).failure?
  | .connect a b label => (g.connect a b label).failure?
  | .connectRoles a roleA b roleB => (g.connectRoles a roleA b roleB).failure?
  | .setParam n key value => (g.setParam n key value).failure?
  | .setMessage p message => (g.setMessage p message).failure?
  | .clearMessage p => (g.clearMessage p).failure?
  | .reindex => none

/-- An edit is carried out, or the numbers of names have run out, or it is refused for a cause and
    leaves a graph of which `P` holds. -/
def Leaves {α : Type} (edit : Edit GraphError α) (P : GraphError → Graph → Prop) : Prop :=
  match edit with
  | (.ok _, _) => True
  | (.error (.cause c), g) => P c g
  | (.error .noSuchHandle, _) => False
  | (.error .endless, _) => False
  | (.error .namesExhausted, _) => True

variable {α : Type} {g : Graph} {edit : Edit GraphError α} {P Q : GraphError → Graph → Prop}

theorem Leaves.mono (h : Leaves edit P) (hPQ : ∀ c g', P c g' → Q c g') : Leaves edit Q := by
  unfold Leaves at h ⊢
  split
  · trivial
  · exact hPQ _ _ h
  · exact h
  · exact h
  · trivial

/-- A refusal for a cause is the refusal of whatever comes after it. -/
theorem leaves_of_answers {β : Type} {x : Except (Failure GraphError) β} {R : β → Prop}
    {e : Failure GraphError} (h : Answers x R) (hx : x = .error e) (hP : ∀ c, P c g) :
    Leaves ((.error e, g) : Edit GraphError α) P := by
  rw [hx] at h
  cases e with
  | cause c => exact hP c
  | noSuchHandle => exact h
  | endless => exact h
  | namesExhausted => trivial

theorem Leaves.of_failure? (h : Leaves edit P) {e : Failure GraphError}
    (he : edit.failure? = some e) :
    e = .namesExhausted ∨ ∃ c, e = .cause c ∧ P c edit.2 := by
  unfold Leaves at h
  split at h
  · exact nomatch he
  · rcases Option.some.inj he with rfl
    exact Or.inr ⟨_, rfl, h⟩
  · exact h.elim
  · exact h.elim
  · exact Or.inl (Option.some.inj he).symm

/-! ### Adding -/

/-- Roles are never refused because of a name. -/
theorem roleConflict_ne_duplicateName {kind : String} {roles : List String} {c : GraphError}
    (h : g.roleConflict kind roles = some c) (name : String) : c ≠ .duplicateName name := by
  rintro rfl
  unfold roleConflict at h
  split at h
  · exact nomatch h
  · split at h
    · exact nomatch h
    · split at h
      · exact nomatch h
      · exact nomatch h

/-- A node is refused before anything of it is added, and for its name only if a node has it. -/
theorem leaves_insertNode (g : Graph) (name kind : String) (roles : List String)
    (constant : Option Value) : Leaves (g.insertNode name kind roles constant) fun c g' =>
      g' = g ∧ ∀ taken, c = .duplicateName taken → g.nodeNames.contains name = true := by
  unfold insertNode
  split
  · rename_i hname
    exact ⟨rfl, fun _ _ => hname⟩
  · split
    · rename_i conflict hconflict
      exact ⟨rfl, fun taken h => absurd h (roleConflict_ne_duplicateName hconflict taken)⟩
    · trivial

/-- A node whose name was generated is not refused for its name, and where it is refused the number
    in that name is used up. -/
theorem leaves_insertGenerated (g : Graph) (kind : String) (roles : List String)
    (constant : Option Value) : Leaves (g.insertGenerated kind roles constant) fun c g' =>
      (∃ k, g.lastNumber kind < k ∧ k ≤ largestNumber ∧ g' = g.withLastNumber kind k) ∧
        ∀ name, c ≠ .duplicateName name := by
  unfold insertGenerated
  rcases freshName_cases (ε := GraphError) g kind with ⟨k, hlow, hhigh, hfree, heq⟩ | heq
  · rw [heq]
    rw [isTaken, Bool.or_eq_false_iff] at hfree
    refine (leaves_insertNode (g.withLastNumber kind k) _ kind roles constant).mono ?_
    rintro c g' ⟨hg', htaken⟩
    refine ⟨⟨k, hlow, hhigh, hg'⟩, fun name hc => ?_⟩
    -- The names of nodes are those that the generated name was compared with.
    exact Bool.false_ne_true (hfree.1.symm.trans (htaken name hc))
  · rw [heq]
    trivial

/-- A name is not refused for any cause, and neither is a variable without a name. -/
theorem leaves_freshName (g : Graph) (kind : String) :
    Leaves (g.freshName kind) fun _ _ => False := by
  rcases freshName_cases (ε := GraphError) g kind with ⟨k, _, _, _, heq⟩ | heq
  · rw [heq]
    trivial
  · rw [heq]
    trivial

theorem leaves_addVariable (g : Graph) : Leaves g.addVariable fun _ _ => False := by
  unfold addVariable
  rcases freshName_cases (ε := GraphError) g "Variable" with ⟨k, _, _, _, heq⟩ | heq
  · rw [heq]
    trivial
  · rw [heq]
    trivial

theorem leaves_addNamedVariable (g : Graph) (name : String) :
    Leaves (g.addNamedVariable name) fun _ g' => g' = g := by
  unfold addNamedVariable
  split
  · rfl
  · trivial

/-! ### Connecting -/

section Checks

variable (h : g.WellFormed)

include h

theorem WellFormed.answers_checkFree (p : TerminalId) :
    Answers (g.checkFree p) fun _ => True := by
  unfold checkFree
  split
  · trivial
  · split
    · rcases h.label_eq_ok (ε := GraphError) p with ⟨l, hl⟩
      rw [hl, ok_bind]
      trivial
    · trivial

/-- Two terminals and a label from anywhere may make an edge, or there is a cause why not. -/
theorem WellFormed.answers_checkConnection (a b : TerminalId) (label : Option VariableId) :
    Answers (g.checkConnection a b label) fun _ => True := by
  unfold checkConnection
  refine (h.answers_checkFree a).bind fun _ _ => (h.answers_checkFree b).bind fun _ _ => ?_
  -- With both terminals there, labels for messages can be found.
  by_cases hab : a = b
  · rcases h.label_eq_ok (ε := GraphError) a with ⟨l, hl⟩
    simp only [if_pos hab, hl, ok_bind]
    trivial
  · simp only [if_neg hab]
    split
    · trivial
    · split
      · trivial
      · trivial

/-- A node from anywhere has a terminal with a role, or there is a cause why not. -/
theorem WellFormed.answers_terminalWithRole (n : NodeId) (role : String) :
    Answers (g.terminalWithRole n role) fun _ => True := by
  have hfirst : ∀ ps, (∀ p ∈ ps, g.hasTerminal p = true) →
      Answers (g.firstWithRole role ps) fun _ => True := by
    intro ps hps
    induction ps with
    | nil => trivial
    | cons p ps ih =>
      rcases terminal_eq_ok (ε := GraphError) (hps p List.mem_cons_self) with ⟨t, ht, _⟩
      unfold firstWithRole
      rw [ht, ok_bind]
      split
      · trivial
      · exact ih fun q hq => hps q (List.mem_cons_of_mem p hq)
  unfold terminalWithRole
  split
  · rename_i hn
    simp only [hasNode, Bool.and_eq_true, decide_eq_true_eq] at hn
    have hget := Array.getElem?_eq_getElem hn.2
    rw [node, hget, handled_some, ok_bind]
    -- The node lists terminals that point back to it, and so they are there.
    have hlisted := (h.listed n.slot _ (by rw [portsAt?, hget, Option.map_some])).2
    refine (hfirst _ fun p hp => hasTerminal_of_nodeIdOf? (hlisted p hp)).bind fun found _ => ?_
    split
    · trivial
    · trivial
  · trivial

/-- Two terminals are checked before a name is generated for their edge. -/
theorem WellFormed.leaves_connect (a b : TerminalId) (label : Option VariableId) :
    Leaves (g.connect a b label) fun _ g' => g' = g := by
  unfold connect
  split
  · rename_i e he
    exact leaves_of_answers (h.answers_checkConnection a b label) he fun _ => rfl
  · rcases freshName_cases (ε := GraphError) g "Edge" with ⟨k, _, _, _, heq⟩ | heq
    · rw [heq]
      trivial
    · rw [heq]
      trivial

theorem WellFormed.leaves_connectRoles (a : NodeId) (roleA : String) (b : NodeId)
    (roleB : String) : Leaves (g.connectRoles a roleA b roleB) fun _ g' => g' = g := by
  unfold connectRoles
  split
  · rename_i e he
    exact leaves_of_answers (h.answers_terminalWithRole a roleA) he fun _ => rfl
  · split
    · rename_i e he
      exact leaves_of_answers (h.answers_terminalWithRole b roleB) he fun _ => rfl
    · exact h.leaves_connect _ _ none

end Checks

/-! ### Parameters and messages -/

theorem leaves_setParam (g : Graph) (n : NodeId) (key : String) (value : Value) :
    Leaves (g.setParam n key value) fun _ g' => g' = g := by
  unfold setParam
  split
  · trivial
  · rfl

theorem leaves_setMessage (g : Graph) (p : TerminalId) (message : Message) :
    Leaves (g.setMessage p message) fun _ g' => g' = g := by
  unfold setMessage
  split
  · trivial
  · rfl

theorem leaves_clearMessage (g : Graph) (p : TerminalId) :
    Leaves (g.clearMessage p) fun _ g' => g' = g := by
  unfold clearMessage
  split
  · rfl
  · trivial

/-! ### All operations -/

/-- In a graph that was built, an operation that is not carried out is refused for a cause, unless
    the numbers of names have run out. A refused operation leaves the graph as it was; one that
    generates a name first leaves it as it was but for the number in that name, and is not refused
    because of a name. -/
theorem refusal_leaves_no_trace (hg : Reachable g) {op : Operation} {e : Failure GraphError}
    (he : g.refusal? op = some e) :
    e = .namesExhausted ∨ ∃ c, e = .cause c ∧
      match op.generates? with
      | none => g.apply op = g
      | some kind =>
        (∃ k, g.lastNumber kind < k ∧ k ≤ largestNumber ∧ g.apply op = g.withLastNumber kind k) ∧
          ∀ name, c ≠ .duplicateName name := by
  have h := wellFormed_of_reachable hg
  -- An operation is refused by one of its own checks, before anything is written but a number.
  cases op with
  | freshName kind =>
    exact ((leaves_freshName g kind).of_failure? he).imp_right fun ⟨_, _, hno⟩ => hno.elim
  | addNode kind roles => exact (leaves_insertGenerated g kind roles none).of_failure? he
  | addNamedNode name kind roles =>
    exact ((leaves_insertNode g name kind roles none).mono fun _ _ => And.left).of_failure? he
  | addConstant value =>
    exact (leaves_insertGenerated g constantKind constantRoles (some value)).of_failure? he
  | addNamedConstant name value =>
    exact ((leaves_insertNode g name _ _ _).mono fun _ _ => And.left).of_failure? he
  | addVariable =>
    exact ((leaves_addVariable g).of_failure? he).imp_right fun ⟨_, _, hno⟩ => hno.elim
  | addNamedVariable name => exact (leaves_addNamedVariable g name).of_failure? he
  | connect a b label => exact (h.leaves_connect a b label).of_failure? he
  | connectRoles a roleA b roleB => exact (h.leaves_connectRoles a roleA b roleB).of_failure? he
  | setParam n key value => exact (leaves_setParam g n key value).of_failure? he
  | setMessage p message => exact (leaves_setMessage g p message).of_failure? he
  | clearMessage p => exact (leaves_clearMessage g p).of_failure? he
  | reindex => exact nomatch he

/-- A node with two terminals. -/
def pairGraph : Graph :=
  (Graph.empty ⟨1⟩).applyAll [.addNamedNode "first" "Pair" ["left", "right"]]

/-- To join a terminal to itself leaves nothing behind, and a pair with one terminal leaves a number
    used up. -/
theorem refusal_leaves_no_trace_pair :
    Reachable pairGraph ∧
      pairGraph.refusal? (.connect ⟨0⟩ ⟨0⟩ none) =
        some (.cause (.selfConnection ⟨0⟩ "first.left")) ∧
      pairGraph.apply (.connect ⟨0⟩ ⟨0⟩ none) = pairGraph ∧
      pairGraph.refusal? (.addNode "Pair" ["left"]) =
        some (.cause (.arityMismatch "Pair" 2 1)) ∧
      ∃ k, 0 < k ∧
        pairGraph.apply (.addNode "Pair" ["left"]) = pairGraph.withLastNumber "Pair" k := by
  have hg : Reachable pairGraph := (Reachable.empty _).applyAll _
  have hconnect : pairGraph.refusal? (.connect ⟨0⟩ ⟨0⟩ none) =
      some (.cause (.selfConnection ⟨0⟩ "first.left")) := by
    decide +kernel
  have hadd : pairGraph.refusal? (.addNode "Pair" ["left"]) =
      some (.cause (.arityMismatch "Pair" 2 1)) := by
    decide +kernel
  refine ⟨hg, hconnect, ?_, hadd, ?_⟩
  · rcases refusal_leaves_no_trace hg hconnect with hnames | ⟨_, _, hsame⟩
    · exact nomatch hnames
    · exact hsame
  · -- A number was given to the node before its roles were counted.
    rcases refusal_leaves_no_trace hg hadd with hnames | ⟨_, _, ⟨k, hlow, _, hraised⟩, _⟩
    · exact nomatch hnames
    · exact ⟨k, Nat.zero_lt_of_lt hlow, hraised⟩

end Graph

end MessagePlan
