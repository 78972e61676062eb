import MessagePlan.Proofs.Program.History

/-!
# Where Arguments Come From

A program refers to its own steps by number, to messages by the terminals that hold them, and to
constants not at all, since it contains their values. Whoever runs it trusts that a number leads to
an earlier step, the last one for the partner of the terminal in question, and that a message is
one that no step has replaced by then. Nothing checks this: the numbers are those that the index
had while the program was growing.

Here it is shown for whole graphs and for lists in any order, also for such as no schedule would
be. What is missing when a step is made is refused, so whatever is there has been computed before.

To choose a rule, what arrives was typed before the arguments were made, by another cascade of
questions. `Program.typing?` types the arguments that came out instead. Both are the same, and so
a step has the rule that the catalog would choose for what the step is really given.

## Main definitions

* `Program.NoneBefore`: No step before a place is for a terminal.
* `Program.Sourced`: Where an argument of a step comes from.
* `Program.typing?`: The types of what a step is given.

## Theorems

* `Program.MadeAt.sourced`: Where the arguments of a step come from.
* `Program.MadeAt.typeOf?`: An argument stands for what arrived when the step was made.
* `compile_traces_arguments`: The steps of a program, its index, and where all arguments come from.
* `compile_types_arguments`: A step has the rule for what it is given.
-/

namespace MessagePlan

/-- No step before the one in place `i` is for the terminal `p`. -/
def Program.NoneBefore (q : Program) (i : Nat) (p : TerminalId) : Prop :=
  ∀ (m : Nat) s, m < i → q.steps[m]? = some s → s.terminal ≠ p

/-- Where the argument that the step in place `i`, for `x`, has for the terminal `y` comes from:
    it is the value of a constant, or the message of the last earlier step for the partner, or a
    message that the partner has and that no earlier step computes.  It is left out for `x`
    itself, and where there is none of these. -/
inductive Program.Sourced (g : Graph) (q : Program) (i : Nat) (x y : TerminalId) : Argument → Prop
  | own (hy : y = x) : Sourced g q i x y .absent
  | absent (hnone : ∀ p, g.partner? y = some p →
      g.constant? p = none ∧ g.message? p = none ∧ q.NoneBefore i p) : Sourced g q i x y .absent
  | literal (p : TerminalId) (v : Value) (hp : g.partner? y = some p)
      (hv : g.constant? p = some v) : Sourced g q i x y (.literal v)
  | step (p : TerminalId) (j : Nat) (hp : g.partner? y = some p) (hlt : j < i)
      (hs : ∃ s, q.steps[j]? = some s ∧ s.terminal = p)
      (hlast : ∀ (m : Nat) s, j < m → m < i → q.steps[m]? = some s → s.terminal ≠ p) :
    Sourced g q i x y (.step j)
  | stored (p : TerminalId) (hp : g.partner? y = some p) (hm : ∃ m, g.message? p = some m)
      (hnone : q.NoneBefore i p) : Sourced g q i x y (.stored p)

/-- The types of what a step is given at the terminals of its node other than its own. -/
def Program.typing? (q : Program) (g : Graph) (s : Step) : Option Signature :=
  (((g.ports s.terminal).zip s.arguments).filter fun slot => slot.1 ≠ s.terminal).mapM
    fun slot => q.typeOf? g slot.2

section Slots

variable {g : Graph} {c : Catalog} {known : KnownFamilies} {list : Schedule} {q sofar : Program}
  {i k : Nat} {s : Step} {r : Rule} {y : TerminalId}

theorem Program.MadeAt.noneBefore {p : TerminalId}
    (hmade : q.MadeAt g c none known list i s sofar r) (hp : sofar.stepOf[p]? = none) :
    q.NoneBefore i p := by
  intro m s' hmi hget
  rw [← hmade.before m hmi] at hget
  exact hmade.index.missing p hp s' (Array.mem_of_getElem? hget)

/-- An input on a whole graph comes from a constant, an earlier step or a message. -/
theorem Program.MadeAt.sourced_of_input? {a : Argument}
    (hmade : q.MadeAt g c none known list i s sofar r)
    (hinput : g.input? sofar.stepOf none y = some a) : q.Sourced g i s.terminal y a := by
  rcases input?_eq_some hinput with
    ⟨p, hp, ⟨v, hv, rfl⟩ | ⟨_, ⟨_, j, hj, rfl⟩ | ⟨_, hj, hm, rfl⟩ | ⟨hscope, _⟩⟩⟩
  · exact .literal p v hp hv
  · -- The step was there when this one was made, and it was the last one by then.
    have hlast := hmade.index.last p j hj
    rcases hlast.step with ⟨s', hs', hterminal⟩
    have hlt : j < i := hmade.size ▸ (Array.getElem?_eq_some_iff.1 hs').1
    refine .step p j hp hlt ⟨s', ?_, hterminal⟩ fun m s'' hjm hmi hget => ?_
    · rw [← hmade.before j hlt, hs']
    · rw [← hmade.before m hmi] at hget
      exact hlast.last m s'' hjm hget
  · exact .stored p hp hm (hmade.noneBefore hj)
  · exact nomatch hscope

/-- On a whole graph each argument comes from a constant, an earlier step or a message, or there is
    none of these. -/
theorem Program.MadeAt.sourced (h : g.WellFormed) (hmade : q.MadeAt g c none known list i s sofar r)
    (hy : (g.ports s.terminal)[k]? = some y) :
    ∃ a, s.arguments[k]? = some a ∧ q.Sourced g i s.terminal y a := by
  by_cases hne : y = s.terminal
  · -- The fallback may require what arrives at the terminal computed.
    rcases assemble_getElem? h hmade.chosen.there hmade.chosen.given hy with
      ⟨a, ha, ⟨_, rfl⟩ | ⟨_, hinput⟩⟩
    · exact ⟨.absent, ha, .own hne⟩
    · exact ⟨a, ha, hmade.sourced_of_input? hinput⟩
  · rcases hmade.chosen.argument h hy hne with ⟨a, ha, ⟨_, rfl, habsent⟩ | ⟨_, hinput⟩⟩
    · refine ⟨.absent, ha, .absent fun p hp => ?_⟩
      rcases eq_none_of_arrival_eq_absent hmade.index.indexed rfl habsent hp with
        ⟨hconstant, hi, hmessage⟩
      exact ⟨hconstant, hmessage, hmade.noneBefore hi⟩
    · exact ⟨a, ha, hmade.sourced_of_input? hinput⟩

/-- What an argument stands for does not change when the program goes on. -/
theorem typeOf?_mono {a : Argument} {t : Arrival} (hsize : sofar.steps.size = i)
    (hbefore : ∀ j < i, sofar.steps[j]? = q.steps[j]?) (ha : sofar.typeOf? g a = some t) :
    q.typeOf? g a = some t := by
  cases a with
  | step j =>
    rcases Option.map_eq_some_iff.1 ha with ⟨s, hs, ht⟩
    have hlt : j < i := hsize ▸ (Array.getElem?_eq_some_iff.1 hs).1
    rw [Program.typeOf?, ← hbefore j hlt, hs, Option.map_some, ht]
  | absent => exact ha
  | literal v => exact ha
  | stored p => exact ha
  | marginal e => simp only [Program.typeOf?, reduceCtorEq] at ha
  | param name value => simp only [Program.typeOf?, reduceCtorEq] at ha

/-- On a whole graph the argument for a terminal other than the one computed stands for what
    arrived there when the step was made. -/
theorem Program.MadeAt.typeOf? (h : g.WellFormed)
    (hmade : q.MadeAt g c none known list i s sofar r) (hy : (g.ports s.terminal)[k]? = some y)
    (hne : y ≠ s.terminal) :
    ∃ a, s.arguments[k]? = some a ∧ q.typeOf? g a = some (g.arrival sofar none known y) := by
  rcases hmade.chosen.argument h hy hne with ⟨a, ha, ⟨_, rfl, habsent⟩ | ⟨_, hinput⟩⟩
  · exact ⟨.absent, ha, by rw [Program.typeOf?, habsent]⟩
  · exact ⟨a, ha, typeOf?_mono hmade.size hmade.before
      (typeOf?_of_input? hmade.index.indexed hinput (input?_ne_marginal rfl hinput))⟩

/-- The arguments in the places of the terminals other than `x` have types as these have. -/
theorem mapM_zip_eq_some {x : TerminalId} {type : Argument → Option Arrival}
    {arrival : TerminalId → Arrival} {ys : List TerminalId} {arguments : List Argument}
    (hslots : ∀ (k : Nat) y, ys[k]? = some y → ∃ a, arguments[k]? = some a ∧
      (y ≠ x → type a = some (arrival y))) :
    ((ys.zip arguments).filter fun slot => slot.1 ≠ x).mapM (fun slot => type slot.2) =
      some ((ys.filter (· ≠ x)).map arrival) := by
  induction ys generalizing arguments with
  | nil => rfl
  | cons y ys ih =>
    rcases hslots 0 y rfl with ⟨a, ha, htype⟩
    cases arguments with
    | nil => exact nomatch ha
    | cons a' arguments =>
      rcases Option.some.inj ha with rfl
      have hrest := ih fun k z hz => hslots (k + 1) z hz
      -- The slot of the terminal itself is left out of both lists.
      by_cases hyx : y = x
      · simp only [List.zip_cons_cons, List.filter_cons, hyx, ne_eq, not_true, decide_false,
          Bool.false_eq_true, if_false]
        exact hrest
      · simp only [List.zip_cons_cons, List.filter_cons, hyx, ne_eq, not_false_eq_true,
          decide_true, if_true, List.mapM_cons, htype hyx, List.map_cons]
        simp only [ne_eq] at hrest
        rw [hrest]
        rfl

/-- On a whole graph the arguments of a step are typed by what arrived when it was made. -/
theorem Program.MadeAt.typing? (h : g.WellFormed)
    (hmade : q.MadeAt g c none known list i s sofar r) :
    q.typing? g s = some (g.signature sofar none known s.terminal) := by
  refine mapM_zip_eq_some fun k y hy => ?_
  by_cases hne : y = s.terminal
  · rcases hmade.sourced h hy with ⟨a, ha, _⟩
    exact ⟨a, ha, fun hne' => absurd hne hne'⟩
  · rcases hmade.typeOf? h hy hne with ⟨a, ha, htype⟩
    exact ⟨a, ha, fun _ => htype⟩

end Slots

section Programs

variable {g : Graph} {c : Catalog} {r : Schedule} {p : Program}

/-- Whatever the order of a list of terminals of a reachable graph, and however often one is in it,
    the program that it is compiled to has the steps of the list but for constants, in order; its
    index has exactly the terminals of these, each with the last step for it; and every terminal of
    a node has an argument that comes from a constant, the last earlier step for the partner, or a
    message that no earlier step computes, and that is left out only for the terminal computed and
    where there is none of these. -/
theorem compile_traces_arguments (hg : Reachable g) (hr : ∀ x ∈ r, g.hasTerminal x = true)
    (hp : compile g c r = .ok p) :
    p.steps.toList.map Step.terminal = (r.filter fun x => (g.constant? x).isNone) ∧
    (∀ x : TerminalId, (∃ i : Nat, p.stepOf[x]? = some i) ↔ x ∈ r ∧ g.constant? x = none) ∧
    (∀ (x : TerminalId) (i : Nat), p.stepOf[x]? = some i → p.LastFor x i) ∧
    ∀ (i : Nat) s, p.steps[i]? = some s → ∀ (k : Nat) y, (g.ports s.terminal)[k]? = some y →
      ∃ a, s.arguments[k]? = some a ∧ p.Sourced g i s.terminal y a := by
  have h := Graph.wellFormed_of_reachable hg
  have hrecorded := recorded_of_compileScoped h hr hp
  refine ⟨hrecorded.terminals, fun x => ?_, hrecorded.last, fun i s hs k y hy => ?_⟩
  · -- The index is about the steps there are, and those are for what is listed and no constant.
    rw [← hrecorded.mem_iff]
    constructor
    · rintro ⟨i, hi⟩
      rcases (hrecorded.last x i hi).step with ⟨s, hs, hterminal⟩
      exact ⟨s, Array.mem_of_getElem? hs, hterminal⟩
    · rintro ⟨s, hs, rfl⟩
      exact hrecorded.exists_index hs
  · rcases hrecorded.made i s hs with ⟨sofar, rule, hmade⟩
    exact hmade.sourced h hy

/-- The sum of a constant and a message that is there already, and a node behind it. -/
def chainGraph : Graph :=
  (Graph.empty ⟨1⟩).applyAll [
    .addNamedConstant "one" (.scalar 1), .addNamedNode "prior" "Source" ["out"],
    .addNamedNode "sum" "Addition" ["out", "in1", "in2"],
    .addNamedNode "double" "Doubling" ["out", "in1"], .connect ⟨0⟩ ⟨3⟩ none,
    .connect ⟨1⟩ ⟨4⟩ none, .connect ⟨2⟩ ⟨6⟩ none,
    .setMessage ⟨1⟩ ⟨.gaussian, .series [0, 1]⟩]

/-- A rule for sums and one for what is behind them. -/
def chainCatalog : Catalog :=
  ⟨#[⟨"add", "Addition", "out", [.constant, .anyMessage], .gamma, none⟩,
    ⟨"double", "Doubling", "out", [.family .gamma], .gaussian, none⟩]⟩

/-- The constant, and twice the sum and what is behind it. -/
def chainList : Schedule := [⟨0⟩, ⟨2⟩, ⟨5⟩, ⟨2⟩, ⟨5⟩]

theorem exists_program_chain : ∃ p, compile chainGraph chainCatalog chainList = .ok p ∧
    p.steps[0]? = some ⟨⟨2⟩, ⟨0⟩, .gamma, [.absent, .literal (.scalar 1), .stored ⟨1⟩]⟩ ∧
    p.steps[3]? = some ⟨⟨5⟩, ⟨1⟩, .gaussian, [.absent, .step 2]⟩ := by
  have hsteps : ((compile chainGraph chainCatalog chainList).toOption.map fun p =>
      (p.steps[0]?, p.steps[3]?)) =
        some (some ⟨⟨2⟩, ⟨0⟩, .gamma, [.absent, .literal (.scalar 1), .stored ⟨1⟩]⟩,
          some ⟨⟨5⟩, ⟨1⟩, .gaussian, [.absent, .step 2]⟩) := by
    decide +kernel
  rcases Option.map_eq_some_iff.1 hsteps with ⟨p, hp, hsteps⟩
  rcases Prod.mk.inj hsteps with ⟨hfirst, hlast⟩
  exact ⟨p, toOption_eq_some.1 hp, hfirst, hlast⟩

theorem hasTerminal_chain : ∀ x ∈ chainList, chainGraph.hasTerminal x = true := by
  decide +kernel

/-- The last step of the chain takes the second sum, not the first one. -/
theorem compile_traces_arguments_chain :
    Reachable chainGraph ∧ (∀ x ∈ chainList, chainGraph.hasTerminal x = true) ∧
      ∃ p, compile chainGraph chainCatalog chainList = .ok p ∧
        p.steps.toList.map Step.terminal = [⟨2⟩, ⟨5⟩, ⟨2⟩, ⟨5⟩] ∧
        p.Sourced chainGraph 3 ⟨5⟩ ⟨6⟩ (.step 2) := by
  have hg : Reachable chainGraph := (Reachable.empty _).applyAll _
  rcases exists_program_chain with ⟨p, hp, _, hlast⟩
  rcases compile_traces_arguments hg hasTerminal_chain hp with ⟨hterminals, _, _, hsourced⟩
  refine ⟨hg, hasTerminal_chain, p, hp, ?_, ?_⟩
  · rw [hterminals]
    decide +kernel
  · have hy : (chainGraph.ports ⟨5⟩)[1]? = some ⟨6⟩ := by decide +kernel
    rcases hsourced 3 _ hlast 1 ⟨6⟩ hy with ⟨a, ha, ha'⟩
    rcases Option.some.inj ha with rfl
    exact ha'

/-- Whatever the order of a list of terminals of a reachable graph, in the program that it is
    compiled to every step has an argument for each terminal of its node, the rule that the catalog
    chooses for the types of these arguments, and the family that this rule produces. -/
theorem compile_types_arguments (hg : Reachable g) (hr : ∀ x ∈ r, g.hasTerminal x = true)
    (hp : compile g c r = .ok p) {s : Step} (hs : s ∈ p.steps) :
    (g.ports s.terminal).length ≤ s.arguments.length ∧
    ∃ kind role signature rule, g.kind? s.terminal = some kind ∧ g.role? s.terminal = some role ∧
      p.typing? g s = some signature ∧ c.resolve kind role signature = .ok (rule, s.rule) ∧
      c.rule? s.rule = some rule ∧ s.produces = rule.produces := by
  have h := Graph.wellFormed_of_reachable hg
  have hrecorded := recorded_of_compileScoped h hr hp
  rcases Array.getElem?_of_mem hs with ⟨i, hi⟩
  rcases hrecorded.made i s hi with ⟨sofar, rule, hmade⟩
  -- What the step was compiled with is still to be seen in its arguments.
  rcases hmade.chosen.resolved with ⟨kind, role, hkind, hrole, hres⟩
  refine ⟨?_, kind, role, _, rule, hkind, hrole, hmade.typing? h, hres, ?_, hmade.chosen.produces⟩
  · rcases assemble_eq_ok h hmade.chosen.there hmade.chosen.given with
      ⟨_, first, last, hargs, _, _, hfirst⟩
    rw [hargs, List.length_append, ← argumentsFor_length hfirst]
    exact Nat.le_add_right _ _
  · exact (Catalog.mem_candidates.1 (Catalog.mem_candidates_of_resolve hres)).1

/-- The sum is given a constant and a message of the family that is there already. -/
theorem compile_types_arguments_chain :
    Reachable chainGraph ∧ (∀ x ∈ chainList, chainGraph.hasTerminal x = true) ∧
      ∃ p, compile chainGraph chainCatalog chainList = .ok p ∧ ∃ s ∈ p.steps, s.terminal = ⟨2⟩ ∧
        p.typing? chainGraph s = some [.constant, .message .gaussian] ∧
        ∃ rule, chainCatalog.resolve "Addition" "out" [.constant, .message .gaussian] =
          .ok (rule, s.rule) ∧ s.produces = rule.produces := by
  have hg : Reachable chainGraph := (Reachable.empty _).applyAll _
  rcases exists_program_chain with ⟨p, hp, hfirst, _⟩
  have hs := Array.mem_of_getElem? hfirst
  rcases compile_types_arguments hg hasTerminal_chain hp hs with
    ⟨_, kind, role, signature, rule, hkind, hrole, htyping, hres, _, hproduces⟩
  refine ⟨hg, hasTerminal_chain, p, hp, _, hs, rfl, ?_⟩
  -- Nothing of the program but the arguments is asked for.
  have hsignature : p.typing? chainGraph
      ⟨⟨2⟩, ⟨0⟩, .gamma, [.absent, .literal (.scalar 1), .stored ⟨1⟩]⟩ =
        some [.constant, .message .gaussian] := by
    have hports : chainGraph.ports ⟨2⟩ = [⟨2⟩, ⟨3⟩, ⟨4⟩] := by decide +kernel
    have hmessage : (chainGraph.message? ⟨1⟩).map Message.family = some .gaussian := by
      decide +kernel
    rcases Option.map_eq_some_iff.1 hmessage with ⟨m, hm, hfamily⟩
    simp only [Program.typing?, hports, List.zip_cons_cons, List.zip_nil_right, List.filter_cons,
      List.filter_nil, ne_eq, TerminalId.mk.injEq, Nat.reduceEqDiff, not_true, not_false_eq_true,
      decide_true, decide_false, Bool.false_eq_true, if_true, if_false, List.mapM_cons,
      List.mapM_nil, Program.typeOf?, hm, Option.map_some, hfamily]
    rfl
  have hkind' : chainGraph.kind? ⟨2⟩ = some "Addition" := by decide +kernel
  have hrole' : chainGraph.role? ⟨2⟩ = some "out" := by decide +kernel
  rcases Option.some.inj (hkind.symm.trans hkind') with rfl
  rcases Option.some.inj (hrole.symm.trans hrole') with rfl
  rcases Option.some.inj (htyping.symm.trans hsignature) with rfl
  exact ⟨hsignature, rule, hres, hproduces⟩

end Programs

end MessagePlan
