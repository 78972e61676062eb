import Mathlib.Tactic.ByContra
import MessagePlan.Program.Compile
import MessagePlan.Proofs.Rule.Inclusion
import MessagePlan.Proofs.Schedule.Needs
import MessagePlan.Proofs.Steps

/-!
# What Arrives and What is Handed Over

At each terminal but the one computed, a step looks twice. First it asks what kind of thing
arrives there, to choose a rule, and then where to take it from, to give the rule its inputs.
Both questions go through operations that trust their handles. On a well-formed graph, and with
a program whose index leads only to steps that are there, they have answers that can be read off
the views: `Graph.arrival`, with `Graph.signature` for a whole node, and `Graph.input?`.

Inside the scope both look for the same things in the same order: a constant, a step of the program,
a message that is there already. So where one of these is there, both find it, and by
`typeOf?_of_input?` what is handed over stands for what arrives. Over an edge of another region the
one asks what is known and the other takes the marginal. `argumentsFor_cases` speaks of all the
terminals of a node: where each has an input, the only one that can be missing is one that the
fallback requires at the terminal computed.

Arguments are made terminal by terminal, and each terminal but the one computed takes up a pattern.
`patternAt?` counts which one it is, so that what is said of an argument can be said of its place
alone: `assemble_getElem?` tells whether the argument in a place is left out or what it is.

## Main definitions

* `Program.Indexed`: The index of a program leads to steps that are there.
* `Program.family?`: The family of the message that a step for a terminal computes.
* `Graph.arrival`, `Graph.input?`: What arrives at a terminal, and where it is taken from.
* `Graph.signature`: What arrives at the other terminals of a node.
* `Program.typeOf?`: What an argument stands for.
* `Requires`: The fallback of a rule requires what arrives at a terminal.
* `AsksInVain`: The fallback of a rule asks for a role that no terminal of the node has.
* `patternAt?`: The pattern of a rule for the terminal in a place.
* `Skips`: A rule is given nothing for what arrives at the terminal in a place.

## Theorems

* `arrivalAt_eq_ok`, `signatureFor_eq_ok`: What arrives is found.
* `inboundAt_eq`: An input is found, or missing where there is none.
* `typeOf?_of_input?`: An input that is not a marginal stands for what arrives.
* `argumentsFor_cases`: Inputs that are there are handed over.
* `accepts_patternAt?`: Where a rule fits, each pattern accepts what arrives in its place.
* `terminalWithRole_eq`: A role leads to the first terminal that has it.
* `requirementOf_cases`: What a fallback comes to.
* `assemble_cases`: A rule is given its inputs where they are there.
* `assemble_getElem?`: The argument for a terminal is left out, or its input.
* `marginal_of_assemble`: Marginals are handed over for edges outside the scope.
-/

namespace MessagePlan

/-- Where the program has a step for a terminal, the step is there. -/
def Program.Indexed (q : Program) : Prop :=
  ∀ (p : TerminalId) (i : Nat), q.stepOf[p]? = some i → ∃ s, q.steps[i]? = some s

/-- The family of the message that the last step for a terminal computes. -/
def Program.family? (q : Program) (p : TerminalId) : Option Family :=
  q.stepOf[p]?.bind fun i => q.steps[i]?.map Step.produces

namespace Graph

/-- What arrives at a terminal, read off the views. -/
def arrival (g : Graph) (q : Program) (scope : Option Region) (known : KnownFamilies)
    (y : TerminalId) : Arrival :=
  match g.partner? y with
  | none => .absent
  | some p =>
    if (g.constant? p).isSome then .constant
    else if inScope scope (g.edge? y) then
      ((q.family? p).or ((g.message? p).map Message.family)).elim .absent .message
    else
      ((known[p]?.or known[y]?).or
        (((g.message? p).or (g.message? y)).map Message.family)).elim .absent .message

/-- What arrives at the terminals of a node other than `x`, read off the views. -/
def signature (g : Graph) (q : Program) (scope : Option Region) (known : KnownFamilies)
    (x : TerminalId) : Signature :=
  ((g.ports x).filter (· ≠ x)).map (g.arrival q scope known)

/-- Where what arrives at a terminal is taken from, read off the views. -/
def input? (g : Graph) (earlier : StepIndex) (scope : Option Region) (y : TerminalId) :
    Option Argument :=
  (g.partner? y).bind fun p =>
    match g.constant? p with
    | some value => some (.literal value)
    | none =>
      if inScope scope (g.edge? y) then
        match earlier[p]? with
        | some i => some (.step i)
        | none => if (g.message? p).isSome then some (.stored p) else none
      else (g.edge? y).map .marginal

end Graph

/-- What an argument stands for, as the catalog sees it.  Marginals are typed by other regions,
    and parameters are not inputs. -/
def Program.typeOf? (q : Program) (g : Graph) : Argument → Option Arrival
  | .absent => some .absent
  | .literal _ => some .constant
  | .step i => q.steps[i]?.map fun s => .message s.produces
  | .stored p => (g.message? p).map fun m => .message m.family
  | .marginal _ => none
  | .param _ _ => none

/-- The fallback of a rule requires what arrives at `y` when the message out of `x` is computed:
    the node of `x` has not got the parameter, and `y` has the role that is asked for instead. -/
def Requires (g : Graph) (r : Rule) (x y : TerminalId) : Prop :=
  ∃ n node fallback, g.nodeIdOf? x = some n ∧ g.nodes[n.slot]? = some node ∧
    r.fallback = some fallback ∧ node.param? fallback.param = none ∧
    g.terminalWithRole n fallback.requiredRole = .ok y

/-- The fallback of a rule asks in vain for what arrives at a terminal with a role: the node of `x`
    has not got the parameter, and none of its terminals has the role. -/
def AsksInVain (g : Graph) (r : Rule) (x : TerminalId) (node : Node) (role : String) : Prop :=
  ∃ n fallback, g.nodeIdOf? x = some n ∧ g.nodes[n.slot]? = some node ∧
    r.fallback = some fallback ∧ node.param? fallback.param = none ∧
    fallback.requiredRole = role ∧ ∀ y ∈ g.ports x, g.role? y ≠ some role

/-- The pattern for the terminal in place `k` of a node, where each terminal but `x` takes up
    one. -/
def patternAt? (patterns : List Pattern) (x : TerminalId) (ports : List TerminalId) (k : Nat) :
    Option Pattern :=
  patterns[((ports.take k).filter (· ≠ x)).length]?

/-- A rule for the message out of `x` is given nothing for `y` in place `k` of the node: `y` is `x`
    or its pattern is *absent*, and the fallback does not require what arrives there. -/
def Skips (g : Graph) (r : Rule) (x y : TerminalId) (k : Nat) : Prop :=
  (y = x ∨ patternAt? r.inbounds x (g.ports x) k = some .absent) ∧ ¬ Requires g r x y

section Answers

variable {ε : Type} {g : Graph} {q : Program} {scope : Option Region} {known : KnownFamilies}
  {x y p : TerminalId} {r : Rule} {earlier : StepIndex}

theorem preset_eq_ok (hp : g.hasTerminal p = true) :
    (preset g p : Except (Failure ε) (Option Arrival)) =
      .ok ((g.message? p).map fun m => .message m.family) := by
  rcases Graph.terminal_eq_ok (ε := ε) hp with ⟨terminal, hget, _, _, _, hmessage⟩
  rw [preset, hget, ok_bind, hmessage]
  rfl

theorem stepFor_eq_ok (hq : q.Indexed) (p : TerminalId) :
    ∃ s, (q.stepFor p : Except (Failure ε) (Option Step)) = .ok s ∧
      s.map Step.produces = q.family? p := by
  unfold Program.stepFor Program.family?
  cases hi : q.stepOf[p]? with
  | none => exact ⟨none, rfl, rfl⟩
  | some i =>
    rcases hq p i hi with ⟨s, hs⟩
    refine ⟨some s, ?_, ?_⟩
    · simp only [hs, handled_some, Except.map]
    · rw [Option.bind_some, hs]

theorem arrivalFromOutside_eq_ok (hp : g.hasTerminal p = true) (hy : g.hasTerminal y = true) :
    (arrivalFromOutside g known p y : Except (Failure ε) Arrival) =
      .ok (((known[p]?.or known[y]?).or
        (((g.message? p).or (g.message? y)).map Message.family)).elim .absent .message) := by
  unfold arrivalFromOutside
  rw [preset_eq_ok hp, preset_eq_ok hy]
  -- What is known comes before messages, and the far side of the edge before the near one.
  cases known[p]?.or known[y]? with
  | some family => rfl
  | none =>
    rw [ok_bind]
    cases g.message? p with
    | some m => rfl
    | none =>
      rw [Option.none_or, Option.map_none, ok_bind]
      cases g.message? y with
      | some m => rfl
      | none => rfl

/-- What arrives at a terminal that is there is found. -/
theorem arrivalAt_eq_ok (h : g.WellFormed) (hq : q.Indexed) (hy : g.hasTerminal y = true) :
    (arrivalAt g q scope known y : Except (Failure ε) Arrival) =
      .ok (g.arrival q scope known y) := by
  unfold arrivalAt Graph.arrival
  rcases Graph.terminal_eq_ok (ε := ε) hy with ⟨terminal, hget, _, hpartner, hedge, _⟩
  rw [hget, ok_bind, ← hpartner, ← hedge]
  cases hp : g.partner? y with
  | none => rfl
  | some p =>
    -- A partner is there, so nothing that is asked of it fails.
    have hthere := h.hasTerminal_of_partner? hp
    simp only [h.constantAt_eq_ok hthere, ok_bind]
    by_cases hconstant : (g.constant? p).isSome = true
    · rw [if_pos hconstant, if_pos hconstant]
      rfl
    rw [if_neg hconstant, if_neg hconstant]
    by_cases hscope : inScope scope (g.edge? y) = true
    · -- A step of the program comes before a message that is there already.
      rcases stepFor_eq_ok (ε := ε) hq p with ⟨s, hs, hfamily⟩
      simp only [hscope, Bool.not_true, Bool.false_eq_true, if_false, if_true, hs, ok_bind,
        ← hfamily]
      cases s with
      | some s => rfl
      | none =>
        simp only [preset_eq_ok hthere, ok_bind, Option.map_none, Option.none_or]
        cases g.message? p with
        | some m => rfl
        | none => rfl
    · simp only [Bool.eq_false_iff.2 hscope, Bool.not_false, if_true, Bool.false_eq_true, if_false]
      exact arrivalFromOutside_eq_ok hthere hy

/-- What arrives at the other terminals of a node is found. -/
theorem signatureFor_eq_ok (h : g.WellFormed) (hq : q.Indexed) (x : TerminalId) :
    (signatureFor g q scope known x (g.ports x) : Except (Failure ε) Signature) =
      .ok (g.signature q scope known x) := by
  unfold signatureFor
  refine mapM_eq_ok_map fun y hy => ?_
  exact arrivalAt_eq_ok h hq (h.hasTerminal_of_mem_ports (List.mem_filter.1 hy).1)

/-- An input that is missing is refused at the terminal it should come from. -/
theorem missing_eq_error {α : Type} (h : g.WellFormed) (required : Bool) (p : TerminalId) :
    ∃ l, g.label p = (.ok l : Except (Failure AssemblyError) String) ∧
      (missing g r required p : Except (Failure AssemblyError) α) =
        .error (.cause (if required then .unavailable r.name p l else .missingInbound p l)) := by
  rcases h.label_eq_ok (ε := AssemblyError) p with ⟨l, hl⟩
  refine ⟨l, hl, ?_⟩
  rw [missing, hl, ok_bind]
  rfl

/-- An input is found where the views say there is one, and else it is missing, at the partner
    where there is a partner. -/
theorem inboundAt_eq (h : g.WellFormed) (required : Bool) (hy : g.hasTerminal y = true) :
    inboundAt g r earlier scope required y =
      match g.input? earlier scope y with
      | some a => .ok a
      | none => missing g r required ((g.partner? y).getD y) := by
  unfold inboundAt Graph.input?
  rcases Graph.terminal_eq_ok (ε := AssemblyError) hy with ⟨terminal, hget, _, hpartner, hedge, _⟩
  rw [hget, ok_bind, ← hpartner, ← hedge]
  cases hp : g.partner? y with
  | none => rfl
  | some p =>
    have hthere := h.hasTerminal_of_partner? hp
    simp only [h.constantAt_eq_ok hthere, ok_bind, Option.bind_some]
    cases g.constant? p with
    | some value => rfl
    | none =>
      rcases h.edge?_isSome_of_partner? hp with ⟨e, he⟩
      -- There is an edge, and if it is outside, its marginal is the input.
      rw [he]
      by_cases hscope : inScope scope (some e) = true
      · simp only [hscope, if_true, hasMessage_eq_ok hthere, ok_bind]
        cases earlier[p]? with
        | some i => rfl
        | none =>
          by_cases hm : (g.message? p).isSome = true
          · simp only [hm, if_true]
            rfl
          · simp only [hm, Bool.false_eq_true, if_false]
            rfl
      · simp only [Bool.eq_false_iff.2 hscope, Bool.false_eq_true, if_false]
        rfl

theorem input?_of_inboundAt (h : g.WellFormed) {required : Bool} (hy : g.hasTerminal y = true)
    {a : Argument} (ha : inboundAt g r earlier scope required y = .ok a) :
    g.input? earlier scope y = some a := by
  rw [inboundAt_eq h required hy] at ha
  cases hinput : g.input? earlier scope y with
  | some a' =>
    rw [hinput] at ha
    exact congrArg some (Except.ok.inj ha)
  | none =>
    rcases missing_eq_error (α := Argument) (r := r) h required ((g.partner? y).getD y) with
      ⟨l, _, hl⟩
    rw [hinput] at ha
    simp only [hl, reduceCtorEq] at ha

/-- An input comes from a constant, from inside the scope, where a step comes before a message, or
    over an edge outside it. -/
theorem input?_eq_some {a : Argument} (ha : g.input? earlier scope y = some a) :
    ∃ p, g.partner? y = some p ∧
      ((∃ v, g.constant? p = some v ∧ a = .literal v) ∨
      g.constant? p = none ∧
        (inScope scope (g.edge? y) = true ∧ (∃ i, earlier[p]? = some i ∧ a = .step i) ∨
        inScope scope (g.edge? y) = true ∧
          (earlier[p]? = none ∧ (∃ m, g.message? p = some m) ∧ a = .stored p) ∨
        inScope scope (g.edge? y) = false ∧ ∃ e, g.edge? y = some e ∧ a = .marginal e)) := by
  unfold Graph.input? at ha
  rcases Option.bind_eq_some_iff.1 ha with ⟨p, hp, ha⟩
  refine ⟨p, hp, ?_⟩
  -- The looks are made in order: a constant, then an edge within the scope, then a step and a
  -- message.
  split at ha
  · rename_i v hv
    exact Or.inl ⟨v, hv, (Option.some.inj ha).symm⟩
  · rename_i hnone
    refine Or.inr ⟨hnone, ?_⟩
    split at ha
    · rename_i hscope
      split at ha
      · rename_i i hi
        exact Or.inl ⟨hscope, i, hi, (Option.some.inj ha).symm⟩
      · rename_i hi
        split at ha
        · rename_i hm
          exact Or.inr (Or.inl ⟨hscope, hi, Option.isSome_iff_exists.1 hm,
            (Option.some.inj ha).symm⟩)
        · exact nomatch ha
    · rename_i hscope
      rcases Option.map_eq_some_iff.1 ha with ⟨e, he, hmarginal⟩
      exact Or.inr (Or.inr ⟨Bool.eq_false_iff.2 hscope, e, he, hmarginal.symm⟩)

theorem input?_ne_absent : g.input? earlier scope y ≠ some .absent := by
  intro ha
  rcases input?_eq_some ha with
    ⟨p, _, ⟨v, _, hc⟩ | ⟨_, ⟨_, i, _, hc⟩ | ⟨_, _, _, hc⟩ | ⟨_, e, _, hc⟩⟩⟩
  · exact nomatch hc
  · exact nomatch hc
  · exact nomatch hc
  · exact nomatch hc

theorem input?_ne_param (name : String) (value : Value) :
    g.input? earlier scope y ≠ some (.param name value) := by
  intro ha
  rcases input?_eq_some ha with
    ⟨p, _, ⟨v, _, hc⟩ | ⟨_, ⟨_, i, _, hc⟩ | ⟨_, _, _, hc⟩ | ⟨_, e, _, hc⟩⟩⟩
  · exact nomatch hc
  · exact nomatch hc
  · exact nomatch hc
  · exact nomatch hc

/-- Of the places an input can come from, only an edge outside the scope makes a marginal. -/
theorem input?_eq_marginal {e : EdgeId} (ha : g.input? earlier scope y = some (.marginal e)) :
    ∃ p, g.partner? y = some p ∧ g.constant? p = none ∧ g.edge? y = some e ∧
      inScope scope (some e) = false := by
  rcases input?_eq_some ha with
    ⟨p, hp, ⟨v, _, hc⟩ | ⟨hnone, ⟨_, i, _, hc⟩ | ⟨_, _, _, hc⟩ | ⟨hscope, e', he, hc⟩⟩⟩
  · exact nomatch hc
  · exact nomatch hc
  · exact nomatch hc
  · rcases Argument.marginal.inj hc with rfl
    rw [he] at hscope
    exact ⟨p, hp, hnone, he, hscope⟩

/-- An input that is not a marginal stands for what arrives, since both look for a constant first,
    for a step then, and for a message at last. -/
theorem typeOf?_of_input? (hq : q.Indexed) {a : Argument}
    (ha : g.input? q.stepOf scope y = some a) (hmarginal : ∀ e, a ≠ .marginal e) :
    q.typeOf? g a = some (g.arrival q scope known y) := by
  unfold Graph.arrival
  rcases input?_eq_some ha with
    ⟨p, hp, ⟨v, hv, rfl⟩ | ⟨hnone, ⟨hscope, i, hi, rfl⟩ | ⟨hscope, hi, ⟨m, hm⟩, rfl⟩ |
      ⟨_, e, _, rfl⟩⟩⟩
  · simp only [hp, hv, Option.isSome_some, if_true, Program.typeOf?]
  · rcases hq p i hi with ⟨s, hs⟩
    simp only [hp, hnone, Option.isSome_none, Bool.false_eq_true, if_false, hscope, if_true,
      Program.family?, hi, Option.bind_some, hs, Option.map_some, Option.some_or,
      Option.elim_some, Program.typeOf?]
  · simp only [hp, hnone, Option.isSome_none, Bool.false_eq_true, if_false, hscope, if_true,
      Program.family?, hi, Option.bind_none, hm, Option.map_some, Option.none_or,
      Option.elim_some, Program.typeOf?]
  · exact absurd rfl (hmarginal e)

/-- Inside the scope no input is a marginal. -/
theorem input?_ne_marginal (hscope : inScope scope (g.edge? y) = true) {a : Argument}
    (ha : g.input? earlier scope y = some a) (e : EdgeId) : a ≠ .marginal e := by
  rintro rfl
  rcases input?_eq_marginal ha with ⟨_, _, _, he, hout⟩
  rw [he, hout] at hscope
  exact Bool.false_ne_true hscope

/-- What has an input that is not a marginal does not arrive as absent. -/
theorem arrival_ne_absent (hq : q.Indexed) {a : Argument}
    (ha : g.input? q.stepOf scope y = some a) (hmarginal : ∀ e, a ≠ .marginal e) :
    g.arrival q scope known y ≠ .absent := by
  intro habsent
  have htype : q.typeOf? g a = some (g.arrival q scope known y) :=
    typeOf?_of_input? hq ha hmarginal
  rw [habsent] at htype
  -- Only an argument that is left out stands for nothing, and no input is left out.
  cases a with
  | absent => exact input?_ne_absent ha
  | literal v => exact nomatch htype
  | step i =>
    rcases Option.map_eq_some_iff.1 htype with ⟨s, _, heq⟩
    exact nomatch heq
  | stored p =>
    rcases Option.map_eq_some_iff.1 htype with ⟨m, _, heq⟩
    exact nomatch heq
  | marginal e => exact nomatch htype
  | param name value => exact nomatch htype

/-- Where nothing arrives inside the scope, the partner has no constant, no step and no message. -/
theorem eq_none_of_arrival_eq_absent (hq : q.Indexed) (hscope : inScope scope (g.edge? y) = true)
    (habsent : g.arrival q scope known y = .absent) (hp : g.partner? y = some p) :
    g.constant? p = none ∧ q.stepOf[p]? = none ∧ g.message? p = none := by
  simp only [Graph.arrival, hp, hscope, if_true] at habsent
  cases hconstant : g.constant? p with
  | some value => simp only [hconstant, Option.isSome_some, if_true, reduceCtorEq] at habsent
  | none =>
    simp only [hconstant, Option.isSome_none, Bool.false_eq_true, if_false] at habsent
    cases hfound : (q.family? p).or ((g.message? p).map Message.family) with
    | some family => simp only [hfound, Option.elim_some, reduceCtorEq] at habsent
    | none =>
      rcases Option.or_eq_none_iff.1 hfound with ⟨hfamily, hmessage⟩
      refine ⟨rfl, ?_, Option.map_eq_none_iff.1 hmessage⟩
      -- The index leads to steps that are there, so without a family it leads nowhere.
      cases hi : q.stepOf[p]? with
      | none => rfl
      | some i =>
        rcases hq p i hi with ⟨s, hs⟩
        simp only [Program.family?, hi, Option.bind_some, hs, Option.map_some,
          reduceCtorEq] at hfamily

end Answers

section Arguments

variable {g : Graph} {scope : Option Region} {r : Rule} {earlier : StepIndex} {x y : TerminalId}
  {required : Option TerminalId} {patterns : List Pattern}

/-- The argument for a terminal is there, unless it is the one computed, and required, and there is
    no input. -/
theorem argumentAt_cases (h : g.WellFormed) (r : Rule) (required : Option TerminalId)
    (hy : g.hasTerminal y = true) (hin : y ≠ x → ∃ a, g.input? earlier scope y = some a)
    (pattern : Option Pattern) :
    (∃ a, argumentAt g r earlier scope required x y pattern = .ok a) ∨
      y = x ∧ required = some x ∧ g.input? earlier scope x = none ∧
        ∃ l, g.label ((g.partner? x).getD x) = (.ok l : Except (Failure AssemblyError) String) ∧
          argumentAt g r earlier scope required x y pattern =
            .error (.cause (.unavailable r.name ((g.partner? x).getD x) l)) := by
  unfold argumentAt
  by_cases hskip : (y = x ∨ pattern = some .absent) ∧ required ≠ some y
  · rw [if_pos hskip]
    exact Or.inl ⟨_, rfl⟩
  rw [if_neg hskip, inboundAt_eq h _ hy]
  cases ha : g.input? earlier scope y with
  | some a => exact Or.inl ⟨a, rfl⟩
  | none =>
    -- Without an input the terminal is the one computed, and it is looked at since required.
    have hyx : y = x := by
      by_contra hne
      rcases hin hne with ⟨a, ha'⟩
      rw [ha] at ha'
      exact nomatch ha'
    subst hyx
    have hreq : required = some y := by
      by_contra hne
      exact hskip ⟨Or.inl rfl, hne⟩
    rcases missing_eq_error (α := Argument) (r := r) h true ((g.partner? y).getD y) with
      ⟨l, hlabel, hl⟩
    refine Or.inr ⟨rfl, hreq, ha, l, hlabel, ?_⟩
    simp only [hreq, decide_true]
    exact hl

/-- If there are inputs at all terminals but the one computed, all arguments are there, unless
    the input at the one computed is required. -/
theorem argumentsFor_cases (h : g.WellFormed) (r : Rule) (required : Option TerminalId)
    {ys : List TerminalId} (hys : ∀ y ∈ ys, g.hasTerminal y = true)
    (hin : ∀ y ∈ ys, y ≠ x → ∃ a, g.input? earlier scope y = some a) (patterns : List Pattern) :
    (∃ arguments, argumentsFor g r earlier scope required x ys patterns = .ok arguments) ∨
      required = some x ∧ g.input? earlier scope x = none ∧
        ∃ l, g.label ((g.partner? x).getD x) = (.ok l : Except (Failure AssemblyError) String) ∧
          argumentsFor g r earlier scope required x ys patterns =
            .error (.cause (.unavailable r.name ((g.partner? x).getD x) l)) := by
  induction ys generalizing patterns with
  | nil => exact Or.inl ⟨[], rfl⟩
  | cons y ys ih =>
    unfold argumentsFor
    have hy := hys y List.mem_cons_self
    -- Only the terminal itself may lack its input, if the fallback requires it.
    rcases argumentAt_cases h r required hy (hin y List.mem_cons_self) patterns.head? with
      ⟨a, ha⟩ | ⟨_, hreq, hnone, l, hlabel, hl⟩
    · rw [ha, ok_bind]
      rcases ih (fun z hz => hys z (List.mem_cons_of_mem y hz))
        (fun z hz => hin z (List.mem_cons_of_mem y hz))
        (if y = x then patterns else patterns.tail) with
        ⟨rest, hrest⟩ | ⟨hreq, hnone, l, hlabel, hl⟩
      · rw [hrest, ok_bind]
        exact Or.inl ⟨_, rfl⟩
      · rw [hl, error_bind]
        exact Or.inr ⟨hreq, hnone, l, hlabel, rfl⟩
    · rw [hl, error_bind]
      exact Or.inr ⟨hreq, hnone, l, hlabel, rfl⟩

/-- Behind a terminal, the patterns are counted on without the one that it has taken up. -/
theorem patternAt?_cons (x y : TerminalId) (ys : List TerminalId) (k : Nat) :
    patternAt? patterns x (y :: ys) (k + 1) =
      patternAt? (if y = x then patterns else patterns.tail) x ys k := by
  unfold patternAt?
  rw [List.take_succ_cons]
  by_cases hyx : y = x
  · rw [if_pos hyx, List.filter_cons_of_neg (by simp only [hyx, ne_eq, not_true, decide_false,
      Bool.false_eq_true, not_false_eq_true])]
  · rw [if_neg hyx, List.filter_cons_of_pos (by simp only [hyx, ne_eq, not_false_eq_true,
      decide_true]), List.length_cons, List.getElem?_tail]

/-- Each argument is the one for the terminal and the pattern in its place. -/
theorem argumentsFor_getElem? {ys : List TerminalId} {arguments : List Argument}
    (ha : argumentsFor g r earlier scope required x ys patterns = .ok arguments) {k : Nat}
    {a : Argument} (hk : arguments[k]? = some a) : ∃ y, ys[k]? = some y ∧
      argumentAt g r earlier scope required x y (patternAt? patterns x ys k) = .ok a := by
  induction ys generalizing patterns arguments k with
  | nil =>
    rw [← Except.ok.inj ha] at hk
    exact nomatch hk
  | cons y ys ih =>
    unfold argumentsFor at ha
    rcases bind_eq_ok.1 ha with ⟨first, hfirst, ha⟩
    rcases bind_eq_ok.1 ha with ⟨rest, hrest, ha⟩
    rw [← Except.ok.inj ha] at hk
    -- The place decides which pattern belongs to a terminal, as patterns are used up on the way.
    cases k with
    | zero =>
      rw [List.getElem?_cons_zero, Option.some.injEq] at hk
      rw [List.head?_eq_getElem?] at hfirst
      exact ⟨y, rfl, hk ▸ hfirst⟩
    | succ k =>
      rw [patternAt?_cons]
      exact ih hrest hk

/-- An argument that is not left out is the input at its terminal. -/
theorem argumentAt_eq_ok (h : g.WellFormed) (hy : g.hasTerminal y = true)
    {pattern : Option Pattern} {a : Argument}
    (ha : argumentAt g r earlier scope required x y pattern = .ok a) :
    ((y = x ∨ pattern = some .absent) ∧ required ≠ some y) ∧ a = .absent ∨
      ¬ ((y = x ∨ pattern = some .absent) ∧ required ≠ some y) ∧
        g.input? earlier scope y = some a := by
  unfold argumentAt at ha
  split at ha
  · rename_i hskip
    exact Or.inl ⟨hskip, (Except.ok.inj ha).symm⟩
  · rename_i hskip
    exact Or.inr ⟨hskip, input?_of_inboundAt h hy ha⟩

/-- Where patterns accept what arrives at the terminals of a node other than `x`, the pattern for a
    terminal accepts what arrives there. -/
theorem accepts_patternAt? {ys : List TerminalId} {arrival : TerminalId → Arrival}
    (hfits : acceptsAll patterns ((ys.filter (· ≠ x)).map arrival) = true) {k : Nat}
    (hk : ys[k]? = some y) (hyx : y ≠ x) :
    ∃ p, patternAt? patterns x ys k = some p ∧ p.accepts (arrival y) = true := by
  -- Terminals and patterns are gone through together, as they are when the arguments are made.
  induction ys generalizing patterns k with
  | nil => exact nomatch hk
  | cons z ys ih =>
    by_cases hzx : z = x
    · -- The terminal computed takes up no pattern.
      rw [List.filter_cons_of_neg (by simp only [hzx, ne_eq, not_true, decide_false,
        Bool.false_eq_true, not_false_eq_true])] at hfits
      cases k with
      | zero => exact absurd ((Option.some.inj hk).symm.trans hzx) hyx
      | succ k =>
        rw [patternAt?_cons, if_pos hzx]
        exact ih hfits hk
    · rw [List.filter_cons_of_pos (by simp only [hzx, ne_eq, not_false_eq_true, decide_true]),
        List.map_cons] at hfits
      cases patterns with
      | nil => simp only [acceptsAll, Bool.false_eq_true] at hfits
      | cons p patterns =>
        simp only [acceptsAll, Bool.and_eq_true] at hfits
        cases k with
        | zero =>
          rw [List.getElem?_cons_zero, Option.some.injEq] at hk
          exact ⟨p, rfl, hk ▸ hfits.1⟩
        | succ k =>
          rw [patternAt?_cons, if_neg hzx]
          exact ih hfits.2 hk

end Arguments

section Fallback

variable {g : Graph} {x : TerminalId} {r : Rule} {n : NodeId} {node : Node}

/-- The first of some terminals that has a role is found, or there is none. -/
theorem firstWithRole_eq_ok (role : String) {ys : List TerminalId}
    (hys : ∀ y ∈ ys, g.hasTerminal y = true) :
    g.firstWithRole role ys = .ok (ys.find? fun y => g.role? y = some role) := by
  induction ys with
  | nil => rfl
  | cons y ys ih =>
    unfold Graph.firstWithRole
    rcases Graph.terminal_eq_of_hasTerminal (ε := GraphError) (hys y List.mem_cons_self) with
      ⟨terminal, hterminal⟩
    have hrole : g.role? y = some terminal.role := by
      rw [Graph.role?, handled_eq_ok.1 hterminal, Option.map_some]
    rw [hterminal, ok_bind, List.find?_cons, hrole]
    by_cases heq : terminal.role = role
    · simp only [heq, if_true, decide_true]
      rfl
    · simp only [heq, if_false, Option.some.injEq, decide_false]
      exact ih fun z hz => hys z (List.mem_cons_of_mem y hz)

/-- The terminal of a node with a role is the first one that has it, and where none has it the
    role is refused. -/
theorem terminalWithRole_eq (h : g.WellFormed) (hn : g.nodeIdOf? x = some n)
    (hnode : g.nodes[n.slot]? = some node) (role : String) : g.terminalWithRole n role =
      match node.terminals.find? fun y => g.role? y = some role with
      | some y => .ok y
      | none => refuse (.unknownRole node.name role) := by
  rcases h.owner x n hn with ⟨hid, ps, hps, _⟩
  have hlt := Graph.lt_of_portsAt? hps
  -- The node was issued by this graph and is there, so it is not refused.
  have hhas : g.hasNode n = true := by
    simp only [Graph.hasNode, hid, beq_self_eq_true, hlt, decide_true, Bool.and_self]
  have hget : (g.node n : Except (Failure GraphError) Node) = .ok node := by
    rw [Graph.node, hnode, handled_some]
  have hys : ∀ y ∈ node.terminals, g.hasTerminal y = true := by
    intro y hy
    have hports : g.portsAt? n.slot = some node.terminals := by
      rw [Graph.portsAt?, hnode, Option.map_some]
    exact Graph.hasTerminal_of_nodeIdOf? ((h.listed n.slot _ hports).2 y hy)
  simp only [Graph.terminalWithRole, hhas, if_true, hget, ok_bind, firstWithRole_eq_ok role hys]
  cases node.terminals.find? fun y => g.role? y = some role with
  | some y => rfl
  | none => rfl

/-- Whether the fallback of a rule requires a terminal is decided by the node of `x`. -/
theorem requires_iff (hn : g.nodeIdOf? x = some n) (hnode : g.nodes[n.slot]? = some node) (r : Rule)
    (y : TerminalId) : Requires g r x y ↔ ∃ fallback, r.fallback = some fallback ∧
      node.param? fallback.param = none ∧
      g.terminalWithRole n fallback.requiredRole = .ok y := by
  constructor
  · rintro ⟨n', node', fallback, hn', hnode', hfallback, hparam, hy⟩
    rw [hn, Option.some.injEq] at hn'
    rw [← hn', hnode, Option.some.injEq] at hnode'
    exact ⟨fallback, hfallback, hnode' ▸ hparam, hn' ▸ hy⟩
  · rintro ⟨fallback, hfallback, hparam, hy⟩
    exact ⟨n, node, fallback, hn, hnode, hfallback, hparam, hy⟩

/-- What a fallback comes to at the node of `x`: nothing or a parameter, or a terminal that it
    requires, or no terminal of the node has the role that is asked for. -/
theorem requirementOf_cases (h : g.WellFormed) (hn : g.nodeIdOf? x = some n)
    (hnode : g.nodes[n.slot]? = some node) (r : Rule) :
    (∃ requirement, requirementOf g r n node = .ok requirement ∧
      (∀ a ∈ requirement.last, ∃ name value, a = .param name value) ∧
      ∀ y, requirement.terminal = some y ↔ Requires g r x y) ∨
    ∃ role, AsksInVain g r x node role ∧
      requirementOf g r n node = .error (.cause (.unknownRole r.name node.name role)) := by
  have hrequires := requires_iff hn hnode r
  unfold requirementOf
  cases hfallback : r.fallback with
  | none =>
    refine Or.inl ⟨_, rfl, fun a ha => absurd ha List.not_mem_nil, fun y => ?_⟩
    rw [hrequires, hfallback]
    exact iff_of_false (fun hc => nomatch hc) (fun ⟨_, hc, _⟩ => nomatch hc)
  | some fallback =>
    simp only [hrequires, hfallback, Option.some.injEq, exists_eq_left']
    -- A parameter that the node has takes the place of what would be required.
    cases hparam : node.param? fallback.param with
    | some value =>
      refine Or.inl ⟨⟨[.param fallback.param value], none⟩, rfl, ?_, fun y => ?_⟩
      · intro a ha
        exact ⟨fallback.param, value, List.mem_singleton.1 ha⟩
      · exact iff_of_false (fun hc => nomatch hc) (fun ⟨hc, _⟩ => nomatch hc)
    | none =>
      have hrole := terminalWithRole_eq h hn hnode fallback.requiredRole
      cases hfound : node.terminals.find? fun y => g.role? y = some fallback.requiredRole with
      | some y =>
        have hy : g.terminalWithRole n fallback.requiredRole = .ok y := by rw [hrole, hfound]
        refine Or.inl ⟨⟨[], some y⟩, by simp only [hy], ?_, fun z => ?_⟩
        · intro a ha
          exact absurd ha List.not_mem_nil
        · simp only [hy, Option.some.injEq, Except.ok.injEq, true_and]
      | none =>
        have hnone : g.terminalWithRole n fallback.requiredRole =
            refuse (.unknownRole node.name fallback.requiredRole) := by rw [hrole, hfound]
        refine Or.inr ⟨fallback.requiredRole,
          ⟨n, fallback, hn, hnode, hfallback, hparam, rfl, ?_⟩, ?_⟩
        · intro y hy heq
          -- The terminals that have been looked through are those of the node of `x`.
          rw [Graph.ports, hn, Option.bind_some, Graph.portsAt?, hnode, Option.map_some,
            Option.getD_some] at hy
          exact absurd (decide_eq_true heq) (List.find?_eq_none.1 hfound y hy)
        · simp only [hnone]
          rfl

/-- If a rule has a pattern for each other terminal of the node, and there is an input at each of
    them, then the rule is given its inputs, or its fallback asks in vain for a role, or it requires
    the input at the terminal computed and there is none. -/
theorem assemble_cases (h : g.WellFormed) (hx : g.hasTerminal x = true) {earlier : StepIndex}
    {scope : Option Region} (hlength : r.inbounds.length + 1 = (g.ports x).length)
    (hin : ∀ y ∈ g.ports x, y ≠ x → ∃ a, g.input? earlier scope y = some a) :
    (∃ arguments, assemble g x r earlier scope = .ok arguments) ∨
    (∃ node role, AsksInVain g r x node role ∧ assemble g x r earlier scope =
      .error (.cause (.unknownRole r.name node.name role))) ∨
    Requires g r x x ∧ g.input? earlier scope x = none ∧
      ∃ l, g.label ((g.partner? x).getD x) = (.ok l : Except (Failure AssemblyError) String) ∧
        assemble g x r earlier scope =
          .error (.cause (.unavailable r.name ((g.partner? x).getD x) l)) := by
  rcases Graph.terminal_eq_ok (ε := AssemblyError) hx with ⟨terminal, hget, hn, _⟩
  rcases h.node_eq_ok (ε := AssemblyError) hn with ⟨node, hnode, hports, _⟩
  have hplace : g.nodes[terminal.node.slot]? = some node := handled_eq_ok.1 hnode
  -- The check of the arity is passed.
  have harity : ¬ r.inbounds.length + 1 ≠ (g.ports x).length := fun hne => hne hlength
  simp only [assemble, hget, ok_bind, hnode, hports, if_neg harity]
  rcases requirementOf_cases h hn hplace r with
    ⟨requirement, hreq, _, hterminal⟩ | ⟨role, hvain, hrole⟩
  · rw [hreq, ok_bind]
    have hthere : ∀ y ∈ g.ports x, g.hasTerminal y = true :=
      fun y hy => h.hasTerminal_of_mem_ports hy
    rcases argumentsFor_cases h r requirement.terminal hthere hin r.inbounds with
      ⟨arguments, ha⟩ | ⟨hself, hnone, l, hlabel, hl⟩
    · rw [ha, ok_bind]
      exact Or.inl ⟨_, rfl⟩
    · rw [hl, error_bind]
      exact Or.inr (Or.inr ⟨(hterminal x).1 hself, hnone, l, hlabel, rfl⟩)
  · rw [hrole, error_bind]
    exact Or.inr (Or.inl ⟨node, role, hvain, rfl⟩)

/-- The arguments of a rule are those for the terminals of the node, and parameters behind them. -/
theorem assemble_eq_ok (h : g.WellFormed) (hx : g.hasTerminal x = true) {earlier : StepIndex}
    {scope : Option Region} {arguments : List Argument}
    (ha : assemble g x r earlier scope = .ok arguments) :
    ∃ required first last, arguments = first ++ last ∧
      (∀ a ∈ last, ∃ name value, a = .param name value) ∧
      (∀ y, required = some y ↔ Requires g r x y) ∧
      argumentsFor g r earlier scope required x (g.ports x) r.inbounds = .ok first := by
  rcases Graph.terminal_eq_ok (ε := AssemblyError) hx with ⟨terminal, hget, hn, _⟩
  rcases h.node_eq_ok (ε := AssemblyError) hn with ⟨node, hnode, hports, _⟩
  simp only [assemble, hget, ok_bind, hnode, hports] at ha
  split at ha
  · exact nomatch ha
  · rcases bind_eq_ok.1 ha with ⟨requirement, hreq, ha⟩
    rcases bind_eq_ok.1 ha with ⟨first, hfirst, ha⟩
    -- What is required was settled before the inputs, and it did not fail.
    rcases requirementOf_cases h hn (handled_eq_ok.1 hnode) r with
      ⟨requirement', hreq', hlast, hterminal⟩ | ⟨role, _, hrole⟩
    · rw [hreq, Except.ok.injEq] at hreq'
      rw [← hreq'] at hlast hterminal
      exact ⟨requirement.terminal, first, requirement.last, (Except.ok.inj ha).symm, hlast,
        hterminal, hfirst⟩
    · rw [hreq] at hrole
      exact nomatch hrole

/-- Each terminal of the node has an argument, which is left out or the input there. -/
theorem assemble_getElem? (h : g.WellFormed) (hx : g.hasTerminal x = true) {earlier : StepIndex}
    {scope : Option Region} {arguments : List Argument}
    (ha : assemble g x r earlier scope = .ok arguments) {k : Nat} {y : TerminalId}
    (hy : (g.ports x)[k]? = some y) : ∃ a, arguments[k]? = some a ∧
      (Skips g r x y k ∧ a = .absent ∨ ¬ Skips g r x y k ∧ g.input? earlier scope y = some a) := by
  rcases assemble_eq_ok h hx ha with ⟨required, first, last, rfl, _, hrequired, hfirst⟩
  have hk : k < first.length := by
    rw [argumentsFor_length hfirst]
    exact (List.getElem?_eq_some_iff.1 hy).1
  refine ⟨first[k], by rw [List.getElem?_append_left hk, List.getElem?_eq_getElem hk], ?_⟩
  rcases argumentsFor_getElem? hfirst (List.getElem?_eq_getElem hk) with ⟨y', hy', hat⟩
  rcases Option.some.inj (hy.symm.trans hy') with rfl
  -- What is required is what the fallback requires.
  simp only [Skips, ← hrequired]
  exact argumentAt_eq_ok h (h.hasTerminal_of_mem_ports (List.mem_of_getElem? hy)) hat

/-- An argument that is not a parameter is that for a terminal of the node. -/
theorem exists_port_of_ne_param (h : g.WellFormed) (hx : g.hasTerminal x = true)
    {earlier : StepIndex} {scope : Option Region} {arguments : List Argument}
    (ha : assemble g x r earlier scope = .ok arguments) {k : Nat} {a : Argument}
    (hk : arguments[k]? = some a) (hparam : ∀ name value, a ≠ .param name value) :
    ∃ y, (g.ports x)[k]? = some y := by
  rcases assemble_eq_ok h hx ha with ⟨required, first, last, rfl, hlast, _, hfirst⟩
  rw [List.getElem?_append] at hk
  split at hk
  · rename_i hlt
    rw [argumentsFor_length hfirst] at hlt
    exact ⟨_, List.getElem?_eq_getElem hlt⟩
  · rcases hlast _ (List.mem_of_getElem? hk) with ⟨name, value, heq⟩
    exact absurd heq (hparam name value)

/-- A marginal is handed over for a terminal on an edge that lies outside the scope, where the
    partner belongs to no constant. -/
theorem marginal_of_assemble (h : g.WellFormed) (hx : g.hasTerminal x = true)
    {earlier : StepIndex} {scope : Option Region} {arguments : List Argument}
    (ha : assemble g x r earlier scope = .ok arguments) {k : Nat} {e : EdgeId}
    (hk : arguments[k]? = some (.marginal e)) :
    ∃ y q, (g.ports x)[k]? = some y ∧ g.edge? y = some e ∧ g.partner? y = some q ∧
      g.constant? q = none ∧ inScope scope (some e) = false := by
  rcases exists_port_of_ne_param h hx ha hk (fun _ _ heq => nomatch heq) with ⟨y, hy⟩
  rcases assemble_getElem? h hx ha hy with ⟨a, hk', hcase⟩
  rcases Option.some.inj (hk.symm.trans hk') with rfl
  rcases hcase with ⟨_, hc⟩ | ⟨_, hinput⟩
  · exact nomatch hc
  · rcases input?_eq_marginal hinput with ⟨q, hq, hnone, he, hout⟩
    exact ⟨y, q, hy, he, hq, hnone, hout⟩

end Fallback

end MessagePlan
