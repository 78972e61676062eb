import MessagePlan.Program.Compile
import MessagePlan.Proofs.Schedule.Outline
import MessagePlan.Proofs.Steps

/-!
# Programs Without Their Numbers

The compiler copies numbers: those of a constant become an argument of whatever reads the constant,
and those of a parameter become the last argument of a rule that asks for it. Nothing else in a
program comes from them. The outline of a program is the program with these numbers taken out, and
the compiler makes the outline of a program out of the outline of a graph.

Each function of the compiler is taken through this once, in the order in which they call one
another. What it answers for the outline of a graph is what it answers for the graph, with the
numbers taken out of it, and with the same refusals: the texts in a refusal name terminals and
families, and no numbers.

## Main definitions

* `Argument.outline`, `Step.outline`, `Program.outline`, `Plan.outline`: What is left without the
  numbers.

## Theorems

* `assemble_outline`: The arguments of a rule.
* `signatureFor_outline`: What arrives at a node, where no numbers are looked at.
* `compileStep_outline`, `compileScoped_outline`, `compilePartition_outline`: Programs and plans.
* `determined_by_outline`: Graphs with one outline have the same schedules and loops, and programs
  and plans that differ in their numbers only.
-/

namespace MessagePlan

/-- An argument without the numbers of a literal or of a parameter. -/
def Argument.outline : Argument → Argument
  | .literal v => .literal v.outline
  | .param name v => .param name v.outline
  | .absent => .absent
  | .step i => .step i
  | .stored p => .stored p
  | .marginal e => .marginal e

/-- A step without the numbers in its arguments. -/
def Step.outline (s : Step) : Step := { s with arguments := s.arguments.map Argument.outline }

/-- A program without the numbers in its arguments. -/
def Program.outline (q : Program) : Program := { q with steps := q.steps.map Step.outline }

/-- A plan without the numbers in the arguments of its programs. -/
def Plan.outline (p : Plan) : Plan := { p with programs := p.programs.map Program.outline }

/-- Where the messages of earlier steps are found is not a matter of numbers. -/
@[simp] theorem Program.outline_stepOf (q : Program) : q.outline.stepOf = q.stepOf := rfl

/-- What a fallback comes to, without the numbers of a parameter. -/
def Requirement.outline (r : Requirement) : Requirement :=
  { r with last := r.last.map Argument.outline }

variable {ε : Type} {g : Graph} {c : Catalog} {scope : Option Region} {known : KnownFamilies}
  {q : Program} {r : Rule} {x y p : TerminalId} {earlier : StepIndex}

/-- A failure is no matter of what is done with a success. -/
theorem asPart_map {ε δ α β : Type} (f : ε → δ) (k : α → β) (z : Except (Failure ε) α) :
    asPart f (k <$> z) = k <$> asPart f z := by
  cases z with
  | ok a => rfl
  | error e => rfl

/-! ### The inputs of a rule -/

/-- The refusal of an input names a terminal and a rule. -/
theorem missing_outline {α β : Type} {required : Bool} (k : α → β) :
    (missing g.outline r required p : Except (Failure AssemblyError) β) =
      k <$> missing g r required p := by
  unfold missing
  rw [(sameShape_outline g).label_eq, map_bind]
  rfl

/-- An input of a rule is the same but for the numbers of a literal. -/
theorem inboundAt_outline {required : Bool} : inboundAt g.outline r earlier scope required y =
    Argument.outline <$> inboundAt g r earlier scope required y := by
  unfold inboundAt
  rw [terminal_outline, bind_map_left, map_bind]
  refine bind_congr fun t => ?_
  rw [Terminal.outline_partner, Terminal.outline_edge]
  cases t.partner with
  | none => exact missing_outline _
  | some p =>
    simp only [constantAt_outline, bind_map_left, map_bind]
    refine bind_congr fun constant => ?_
    cases constant with
    | some v => rfl
    | none =>
      -- From here on nothing that is looked at has numbers in it.
      simp only [Option.map_none]
      split
      · rfl
      · split
        · rfl
        · rw [hasMessage_outline, map_bind]
          refine bind_congr fun held => ?_
          cases held with
          | true => rfl
          | false => exact missing_outline _

/-- The terminal of a node with a role is the same, and a role missing in one is missing in
    both. -/
theorem terminalWithRole_outline {n : NodeId} {role : String} :
    g.outline.terminalWithRole n role = g.terminalWithRole n role := by
  -- Roles are compared, and they are no numbers.
  have hfirst : ∀ ps, g.outline.firstWithRole role ps = g.firstWithRole role ps := by
    intro ps
    induction ps with
    | nil => rfl
    | cons p ps ih =>
      unfold Graph.firstWithRole
      rw [ih]
      exact (sameShape_outline g).bind_terminal fun t => rfl
  have hnode : g.outline.hasNode n = g.hasNode n := by
    unfold Graph.hasNode Graph.outline
    rw [Array.size_map]
  unfold Graph.terminalWithRole
  rw [hnode]
  split
  · rw [node_outline, bind_map_left]
    exact bind_congr fun node => by rw [hfirst]; rfl
  · rfl

/-- A fallback requires the same terminal, or adds the parameter without its numbers. -/
theorem requirementOf_outline {id : NodeId} {node : Node} :
    requirementOf g.outline r id node.outline =
      Requirement.outline <$> requirementOf g r id node := by
  unfold requirementOf
  cases r.fallback with
  | none => rfl
  | some fallback =>
    simp only [Node.param?_outline]
    cases node.param? fallback.param with
    | some v => rfl
    | none =>
      -- Every refusal of the terminal becomes one refusal of the fallback.
      simp only [Option.map_none, terminalWithRole_outline, Node.outline_name]
      cases g.terminalWithRole id fallback.requiredRole with
      | ok p => rfl
      | error e =>
        cases e with
        | cause e => rfl
        | noSuchHandle => rfl
        | namesExhausted => rfl
        | endless => rfl

theorem argumentAt_outline {required : Option TerminalId} {pattern : Option Pattern} :
    argumentAt g.outline r earlier scope required x y pattern =
      Argument.outline <$> argumentAt g r earlier scope required x y pattern := by
  unfold argumentAt
  split
  · rfl
  · exact inboundAt_outline

theorem argumentsFor_outline {required : Option TerminalId} {ys : List TerminalId}
    {patterns : List Pattern} : argumentsFor g.outline r earlier scope required x ys patterns =
      List.map Argument.outline <$> argumentsFor g r earlier scope required x ys patterns := by
  induction ys generalizing patterns with
  | nil => rfl
  | cons y ys ih =>
    unfold argumentsFor
    simp only [argumentAt_outline, ih, bind_map_left, map_bind]
    rfl

/-- The arguments of a rule are the same but for the numbers of literals and of a parameter. -/
theorem assemble_outline : assemble g.outline x r earlier scope =
    List.map Argument.outline <$> assemble g x r earlier scope := by
  unfold assemble
  simp only [terminal_outline, node_outline, bind_map_left, map_bind]
  refine bind_congr fun t => bind_congr fun node => ?_
  simp only [Terminal.outline_node]
  -- The guard is read off the node, which is the outline of one.
  have hlength : node.outline.terminals.length = node.terminals.length := rfl
  by_cases harity : r.inbounds.length + 1 ≠ node.terminals.length
  · rw [if_pos harity, if_pos (hlength ▸ harity)]
    rfl
  · rw [if_neg harity, if_neg (hlength ▸ harity)]
    simp only [requirementOf_outline, bind_map_left, map_bind, Node.outline_terminals]
    refine bind_congr fun requirement => ?_
    simp only [Requirement.outline, argumentsFor_outline, bind_map_left]
    refine bind_congr fun arguments => ?_
    exact congrArg Except.ok List.map_append.symm

/-! ### The signature of a step -/

/-- The family of a message is no matter of its numbers. -/
theorem preset_outline : (preset g.outline p : Except (Failure ε) (Option Arrival)) =
    preset g p := by
  unfold preset
  rw [terminal_outline, bind_map_left]
  refine bind_congr fun t => ?_
  unfold Terminal.outline
  rw [Option.map_map]
  rfl

theorem stepFor_outline : (q.outline.stepFor p : Except (Failure ε) (Option Step)) =
    Option.map Step.outline <$> q.stepFor p := by
  unfold Program.stepFor
  rw [Program.outline_stepOf]
  cases q.stepOf[p]? with
  | none => rfl
  | some i =>
    simp only [Program.outline, Array.getElem?_map]
    cases q.steps[i]? with
    | none => rfl
    | some s => rfl

/-- The families that arrive at a terminal are the same. -/
theorem arrivalAt_outline : (arrivalAt g.outline q.outline scope known y :
    Except (Failure ε) Arrival) = arrivalAt g q scope known y := by
  unfold arrivalAt
  rw [terminal_outline, bind_map_left]
  refine bind_congr fun t => ?_
  rw [Terminal.outline_partner, Terminal.outline_edge]
  cases t.partner with
  | none => rfl
  | some p =>
    have houtside : (arrivalFromOutside g.outline known p y : Except (Failure ε) Arrival) =
        arrivalFromOutside g known p y := by
      unfold arrivalFromOutside
      simp only [preset_outline]
    simp only [constantAt_outline, bind_map_left, Option.isSome_map, houtside, stepFor_outline,
      preset_outline]
    -- It is asked whether there is a constant, and of which family a step or a message is.
    refine bind_congr fun constant => ?_
    split
    · rfl
    · split
      · rfl
      · refine bind_congr fun step => ?_
        cases step with
        | none => rfl
        | some s => rfl

theorem signatureFor_outline {ys : List TerminalId} :
    (signatureFor g.outline q.outline scope known x ys : Except (Failure ε) Signature) =
      signatureFor g q scope known x ys := by
  unfold signatureFor
  exact congrArg (List.mapM · _) (funext fun y => arrivalAt_outline)

/-! ### Programs and plans -/

theorem outline_append (q : Program) (s : Step) :
    (q.append s).outline = q.outline.append s.outline := by
  simp only [Program.append, Program.outline, Array.map_push, Array.size_map]
  rfl

/-- A step of compiling does with the outlines what it does with the graph and the program. -/
theorem compileStep_outline : compileStep g.outline c scope known q.outline x =
    Program.outline <$> compileStep g c scope known q x := by
  unfold compileStep
  simp only [terminal_outline, bind_map_left, map_bind, Terminal.outline_node,
    Terminal.outline_role, node_outline, Node.outline_isConstant, Node.outline_kind,
    Node.outline_terminals]
  refine bind_congr fun t => bind_congr fun node => ?_
  cases node.isConstant with
  | true => rfl
  | false =>
    simp only [Bool.false_eq_true, if_false, signatureFor_outline, map_bind]
    refine bind_congr fun signature => ?_
    -- The catalog is asked about the same signature, and so it chooses the same rule.
    cases c.resolve node.kind t.role signature with
    | error e =>
      simp only [(sameShape_outline g).label_eq, map_bind]
      rfl
    | ok found =>
      simp only [Program.outline_stepOf, assemble_outline, asPart_map, bind_map_left, map_bind]
      exact bind_congr fun arguments =>
        congrArg Except.ok (outline_append q ⟨x, found.2, found.1.produces, arguments⟩).symm

/-- A program for the outline is the outline of the program. -/
theorem compileScoped_outline (s : Schedule) : compileScoped g.outline c s scope known =
    Program.outline <$> compileScoped g c s scope known := by
  -- A program without steps has no numbers in it.
  have hstart : ∀ region, Program.outline { Program.empty with region } =
      { Program.empty with region } := by
    intro region
    simp only [Program.outline, Program.empty, Array.map_empty]
  unfold compileScoped
  rw [← foldlM_map_state (k := Program.outline) fun _ _ => compileStep_outline, hstart]

/-- The families that the steps of a region produce are known after it, and they are no numbers. -/
theorem known_outline (q : Program) (known : KnownFamilies) :
    q.outline.steps.foldl (fun known s => known.insert s.terminal s.produces) known =
      q.steps.foldl (fun known s => known.insert s.terminal s.produces) known :=
  Array.foldl_map

/-- One region after the other is compiled to the outline of its program. -/
theorem compileRegions_outline (rs : List Region) : compileRegions g.outline c known rs =
    List.map Program.outline <$> compileRegions g c known rs := by
  induction rs generalizing known with
  | nil => rfl
  | cons region rs ih =>
    unfold compileRegions
    simp only [compileScoped_outline, bind_map_left, map_bind, known_outline, ih]
    rfl

/-- A message is found in the same step of the same program. -/
theorem locate_outline (programs : List Program) (p : TerminalId) :
    Plan.locate (programs.map Program.outline) p = Plan.locate programs p := by
  have hfrom : ∀ place, Plan.locateFrom place p (programs.map Program.outline) =
      Plan.locateFrom place p programs := by
    induction programs with
    | nil => exact fun _ => rfl
    | cons q programs ih =>
      intro place
      rw [List.map_cons, Plan.locateFrom, Plan.locateFrom, Program.outline_stepOf, ih]
  exact hfrom 0

/-- A plan for the outline is the outline of the plan. -/
theorem compilePartition_outline (p : Partition) : compilePartition g.outline c p =
    Plan.outline <$> compilePartition g c p := by
  have htaps : (Tap.terminals g.outline : Tap → Except (Failure CompileError) _) =
      Tap.terminals g := tapTerminals_congr (sameShape_outline g)
  have hlocate : ∀ programs, Plan.locate (programs.map Program.outline) = Plan.locate programs :=
    fun programs => funext (locate_outline programs)
  unfold compilePartition
  simp only [compileRegions_outline, bind_map_left, map_bind, htaps, hlocate]
  rfl

/-! ### Graphs that differ in their numbers only -/

/-- Graphs that are equal but for the numbers of their messages, of their constants and of the
    parameters of their nodes have the same schedules, or refuse them alike, and the same loops,
    whatever finds the components. What either of them compiles to is refused alike, or differs in
    the numbers of literals and of parameters only. -/
theorem determined_by_outline {g g' : Graph} (h : g.outline = g'.outline) :
    (∀ target scope, g.schedule target scope = g'.schedule target scope) ∧
    (∀ entries r, g.completePartial entries r = g'.completePartial entries r) ∧
    (∀ (p : Partition) config id, p.scheduleOf g config id = p.scheduleOf g' config id) ∧
    (∀ components, (g.unbrokenLoops components : Except (Failure ε) (List (List TerminalId))) =
      g'.unbrokenLoops components) ∧
    (∀ components, (g.loopBreakers components : Except (Failure ε) (List TerminalId)) =
      g'.loopBreakers components) ∧
    (∀ c r, Program.outline <$> compile g c r = Program.outline <$> compile g' c r) ∧
    ∀ c p, Plan.outline <$> compilePartition g c p = Plan.outline <$> compilePartition g' c p := by
  refine ⟨fun target scope => ?_, fun entries r => ?_, fun p config id => ?_,
    fun components => ?_, fun components => ?_, fun c r => ?_, fun c p => ?_⟩
  · -- Either graph is compared with the outline that they share.
    rw [← schedule_outline, h, schedule_outline]
  · rw [← completePartial_outline, h, completePartial_outline]
  · rw [← scheduleOf_outline, h, scheduleOf_outline]
  · unfold Graph.unbrokenLoops
    rw [← loopsWith_outline, h, loopsWith_outline]
  · rw [← loopBreakers_outline, h, loopBreakers_outline]
  · unfold compile
    rw [← compileScoped_outline, h, compileScoped_outline]
  · rw [← compilePartition_outline, h, compilePartition_outline]

/-- A weighted sum of a constant and a message that is there already. -/
def weightedSum (one prior weight : Value) : Graph :=
  (Graph.empty ⟨1⟩).applyAll [
    .addNamedConstant "one" one, .addNamedNode "prior" "Source" ["out"],
    .addNamedNode "sum" "Addition" ["out", "in1", "in2"], .connect ⟨0⟩ ⟨3⟩ none,
    .connect ⟨1⟩ ⟨4⟩ none, .setMessage ⟨1⟩ ⟨.gaussian, prior⟩,
    .setParam ⟨⟨1⟩, 2⟩ "weight" weight]

/-- A rule for sums that asks for the weight. -/
def weightedCatalog : Catalog :=
  ⟨#[⟨"add", "Addition", "out", [.constant, .anyMessage], .gamma, some ⟨"weight", "in1"⟩⟩]⟩

/-- The sum of a number. -/
def scalarSum : Graph := weightedSum (.scalar 1) (.series [0, 1]) (.scalar 3)

/-- The sum of a series, with another message and without a number for its weight. -/
def seriesSum : Graph := weightedSum (.series [1, 2]) (.series [3, 4]) (.series [])

/-- The two sums are compiled to one step each, with the numbers of the sum in it. -/
theorem determined_by_outline_sum : scalarSum.outline = seriesSum.outline ∧
    ∃ q q', compile scalarSum weightedCatalog [⟨2⟩] = .ok q ∧
      compile seriesSum weightedCatalog [⟨2⟩] = .ok q' ∧
        q.outline = q'.outline ∧
        q.steps[0]? = some ⟨⟨2⟩, ⟨0⟩, .gamma,
          [.absent, .literal (.scalar 1), .stored ⟨1⟩, .param "weight" (.scalar 3)]⟩ ∧
        q'.steps[0]? = some ⟨⟨2⟩, ⟨0⟩, .gamma,
          [.absent, .literal (.series [1, 2]), .stored ⟨1⟩, .param "weight" (.series [])]⟩ := by
  have hnodes : scalarSum.nodes.map Node.outline = seriesSum.nodes.map Node.outline := by
    decide +kernel
  have hterminals : scalarSum.terminals.map Terminal.outline =
      seriesSum.terminals.map Terminal.outline := by
    decide +kernel
  have h : scalarSum.outline = seriesSum.outline := by
    rw [Graph.outline, hnodes, hterminals]
    rfl
  have hsteps : ((compile scalarSum weightedCatalog [⟨2⟩]).toOption.bind fun q => q.steps[0]?) =
      some ⟨⟨2⟩, ⟨0⟩, .gamma,
        [.absent, .literal (.scalar 1), .stored ⟨1⟩, .param "weight" (.scalar 3)]⟩ := by
    rfl
  have hsteps' : ((compile seriesSum weightedCatalog [⟨2⟩]).toOption.bind fun q => q.steps[0]?) =
      some ⟨⟨2⟩, ⟨0⟩, .gamma,
        [.absent, .literal (.series [1, 2]), .stored ⟨1⟩, .param "weight" (.series [])]⟩ := by
    rfl
  rcases Option.bind_eq_some_iff.1 hsteps with ⟨q, hq, hfirst⟩
  rcases Option.bind_eq_some_iff.1 hsteps' with ⟨q', hq', hfirst'⟩
  have hq := toOption_eq_some.1 hq
  have hq' := toOption_eq_some.1 hq'
  rcases determined_by_outline (ε := GraphError) h with ⟨_, _, _, _, _, hcompile, _⟩
  have houtline := hcompile weightedCatalog [⟨2⟩]
  rw [hq, hq'] at houtline
  exact ⟨h, q, q', hq, hq', Except.ok.inj houtline, hfirst, hfirst'⟩

end MessagePlan
