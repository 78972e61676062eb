import MessagePlan.Proofs.Program.Inputs

/-!
# What a Rule Is Given

The terminals of a node are gone through once, in their order, and a pattern of the rule is taken
up at each but the one computed. What that loop comes to is said here place by place. With the
terminal computed in place `i`, the pattern for place `k` is the `k`-th before `i` and the one
before the `k`-th behind it. An input is looked for where the terminal is the one that the rule
requires, or where it is another than the one computed and its pattern is not *absent*. Where one
is looked for it has to be there, and in all other places nothing is handed over.

A rule fails for one of three reasons, in this order: it has not a pattern for each other terminal
of the node; it requires a role that no terminal has; an input is not there. In the last case the
first place without its input is the one that is named, and the failure tells whether it is the
place that the rule requires.

## Main definitions

* `Rule.requiredRole?`, `Graph.required?`: The role that a rule requires at a node, and the
  terminal that has it.
* `Rule.parameter?`: The parameter that a rule is given at a node.
* `Graph.supply?`: Where an input is taken from, without a scope.
* `Rule.ownPattern?`: The pattern for a place, with the terminal computed in another.
* `Graph.Consults`: An input is looked for in a place.
* `Graph.Given`: What a rule is given.
* `Graph.FirstMissing`: The first place in which an input is looked for and is not there.

## Theorems

* `patternAt?_eq_getElem?`: The pattern that the loop takes up in a place.
* `argumentsFor_eq_ok_iff`, `argumentsFor_eq_error_iff`: The loop, place by place.
* `requirementOf_eq`, `requirementOf_eq_unknownRole`: What a fallback comes to.
* `argumentAt_eq_absent`, `argumentAt_of_consults`: The argument in a place.
* `assemble_eq_ok_iff`, `assemble_eq_error_iff`: What a rule is given, and what it lacks.
* `assemble_hands_over`: When a rule is given its inputs, which they are, and what is named where
  one is not there.
-/

namespace MessagePlan

/-- The role that a rule requires at a node: its fallback asks for one where the node has not got
    the parameter. -/
def Rule.requiredRole? (r : Rule) (node : Node) : Option String :=
  r.fallback.bind fun fallback =>
    if (node.param? fallback.param).isSome then none else some fallback.requiredRole

/-- The argument with the parameter that the fallback of a rule asks for, if the node has it. -/
def Rule.parameter? (r : Rule) (node : Node) : Option Argument :=
  r.fallback.bind fun fallback => (node.param? fallback.param).map (.param fallback.param)

/-- The pattern for the terminal in place `k`, where the one in place `i` is computed. -/
def Rule.ownPattern? (r : Rule) (i k : Nat) : Option Pattern :=
  r.inbounds[if k < i then k else k - 1]?

namespace Graph

/-- The first terminal of a node that has a role. -/
def portWithRole? (g : Graph) (node : Node) (role : String) : Option TerminalId :=
  node.terminals.find? fun y => g.role? y = some role

/-- The terminal of a node whose input a rule requires. -/
def required? (g : Graph) (r : Rule) (node : Node) : Option TerminalId :=
  (r.requiredRole? node).bind (g.portWithRole? node)

/-- Where the input at a terminal is taken from: a constant comes first, then an earlier step,
    and a message that is there already comes last. -/
def supply? (g : Graph) (earlier : StepIndex) (y : TerminalId) : Option Argument :=
  (g.partner? y).bind fun p =>
    ((g.constant? p).map .literal).or
      ((earlier[p]?.map .step).or ((g.message? p).map fun _ => .stored p))

/-- Whether an input is looked for at the terminal `y` in place `k` of a node, where the terminal
    in place `i` is computed. -/
def Consults (g : Graph) (r : Rule) (node : Node) (i k : Nat) (y : TerminalId) : Prop :=
  g.required? r node = some y ∨ k ≠ i ∧ r.ownPattern? i k ≠ some .absent

/-- What a rule says of a terminal `y` whose input is not there: it names the terminal that the
    input should come from, with its label `l`, or `y` itself where no other terminal is connected
    to it. -/
def lackAt (g : Graph) (r : Rule) (node : Node) (y : TerminalId) (l : String) : AssemblyError :=
  if g.required? r node = some y then .unavailable r.name ((g.partner? y).getD y) l
  else .missingInbound ((g.partner? y).getD y) l

/-- What a rule is given for the message out of the terminal in place `i` of a node: an argument
    for each terminal and the parameter behind them, nothing where no input is looked for, and the
    input where one is. -/
structure Given (g : Graph) (r : Rule) (earlier : StepIndex) (node : Node) (i : Nat)
    (arguments : List Argument) : Prop where
  length : arguments.length = node.terminals.length + (r.parameter? node).toList.length
  last : arguments[node.terminals.length]? = r.parameter? node
  absent : ∀ k y, node.terminals[k]? = some y →
    (arguments[k]? = some .absent ↔ ¬ g.Consults r node i k y)
  supplied : ∀ k y, node.terminals[k]? = some y → g.Consults r node i k y →
    arguments[k]? = g.supply? earlier y

/-- The terminal `y` in place `k` of a node is the first at which an input is looked for that is
    not there. -/
structure FirstMissing (g : Graph) (r : Rule) (earlier : StepIndex) (node : Node) (i k : Nat)
    (y : TerminalId) : Prop where
  place : node.terminals[k]? = some y
  consulted : g.Consults r node i k y
  missing : g.supply? earlier y = none
  first : ∀ j z, j < k → node.terminals[j]? = some z → g.Consults r node i j z →
    ∃ a, g.supply? earlier z = some a

theorem lackAt_ne_unknownRole (g : Graph) (r : Rule) (node : Node) (y : TerminalId)
    (l rule name role : String) : g.lackAt r node y l ≠ .unknownRole rule name role := by
  unfold lackAt
  split
  · exact nofun
  · exact nofun

theorem lackAt_ne_arityMismatch (g : Graph) (r : Rule) (node : Node) (y : TerminalId)
    (l rule name : String) (expected actual : Nat) :
    g.lackAt r node y l ≠ .arityMismatch rule name expected actual := by
  unfold lackAt
  split
  · exact nofun
  · exact nofun

end Graph

section Loop

variable {g : Graph} {r : Rule} {earlier : StepIndex} {scope : Option Region}
  {required : Option TerminalId} {x : TerminalId} {ys : List TerminalId} {patterns : List Pattern}

/-- Where `x` is not among the terminals, each takes up a pattern. -/
theorem patternAt?_of_not_mem (hx : x ∉ ys) {k : Nat} (hk : k < ys.length) :
    patternAt? patterns x ys k = patterns[k]? := by
  have hfilter : (ys.take k).filter (· ≠ x) = ys.take k := by
    refine List.filter_eq_self.2 fun y hy => decide_eq_true ?_
    rintro rfl
    exact hx (List.mem_of_mem_take hy)
  rw [patternAt?, hfilter, List.length_take, Nat.min_eq_left (Nat.le_of_lt hk)]

/-- Before the place of `x` the patterns are counted as the terminals are, and behind it they are
    one behind. -/
theorem patternAt?_eq_getElem? (hnodup : ys.Nodup) {i k : Nat} (hi : ys[i]? = some x)
    (hk : k < ys.length) (hki : k ≠ i) :
    patternAt? patterns x ys k = patterns[if k < i then k else k - 1]? := by
  induction ys generalizing patterns i k with
  | nil => exact nomatch hi
  | cons y ys ih =>
    rcases List.nodup_cons.1 hnodup with ⟨hy, hnodup⟩
    cases k with
    | zero =>
      rw [if_pos (by omega)]
      rfl
    | succ k =>
      have hk : k < ys.length := Nat.lt_of_succ_lt_succ hk
      rw [patternAt?_cons]
      cases i with
      | zero =>
        -- The first terminal is `x`, and it has taken up none.
        rcases Option.some.inj hi with rfl
        rw [if_pos rfl, if_neg (by omega), patternAt?_of_not_mem hy hk, Nat.add_sub_cancel]
      | succ i =>
        have hyx : y ≠ x := by
          rintro rfl
          exact hy (List.mem_of_getElem? hi)
        rw [if_neg hyx, ih hnodup hi hk (by omega), List.getElem?_tail]
        by_cases hlt : k < i
        · rw [if_pos hlt, if_pos (by omega)]
        · rw [if_neg hlt, if_neg (by omega)]
          congr 1
          omega

/-- The arguments are those for the terminals and the patterns in their places. -/
theorem argumentsFor_eq_ok_iff {arguments : List Argument} :
    argumentsFor g r earlier scope required x ys patterns = .ok arguments ↔
      arguments.length = ys.length ∧ ∀ (k : Nat) y, ys[k]? = some y → ∃ a,
        arguments[k]? = some a ∧
        argumentAt g r earlier scope required x y (patternAt? patterns x ys k) = .ok a := by
  constructor
  · intro h
    refine ⟨argumentsFor_length h, fun k y hy => ?_⟩
    have hk : k < arguments.length := by
      rw [argumentsFor_length h]
      exact (List.getElem?_eq_some_iff.1 hy).1
    rcases argumentsFor_getElem? h (List.getElem?_eq_getElem hk) with ⟨y', hy', hat⟩
    rcases Option.some.inj (hy.symm.trans hy') with rfl
    exact ⟨_, List.getElem?_eq_getElem hk, hat⟩
  · -- The other way round the places are filled one by one, with fewer patterns after each terminal
    -- but `x`.
    rintro ⟨hlength, hplaces⟩
    induction ys generalizing patterns arguments with
    | nil =>
      rw [List.length_eq_zero_iff.1 hlength]
      rfl
    | cons y ys ih =>
      cases arguments with
      | nil => exact nomatch hlength
      | cons a rest =>
        rcases hplaces 0 y rfl with ⟨a', ha', hat⟩
        rcases Option.some.inj ha' with rfl
        have hrest : argumentsFor g r earlier scope required x ys
            (if y = x then patterns else patterns.tail) = .ok rest := by
          refine ih (Nat.succ.inj hlength) fun k z hz => ?_
          rw [← patternAt?_cons]
          exact hplaces (k + 1) z hz
        rw [argumentsFor, List.head?_eq_getElem?, show argumentAt g r earlier scope required x y
          patterns[0]? = .ok a from hat, ok_bind, hrest, ok_bind]
        rfl

/-- The arguments fail as the first one does that fails. -/
theorem argumentsFor_eq_error_iff {e : Failure AssemblyError} :
    argumentsFor g r earlier scope required x ys patterns = .error e ↔
      ∃ k y, ys[k]? = some y ∧
        argumentAt g r earlier scope required x y (patternAt? patterns x ys k) = .error e ∧
        ∀ j z, j < k → ys[j]? = some z → ∃ a,
          argumentAt g r earlier scope required x z (patternAt? patterns x ys j) = .ok a := by
  induction ys generalizing patterns with
  | nil =>
    constructor
    · intro h
      cases h
    · rintro ⟨k, y, hy, _⟩
      cases hy
  | cons y ys ih =>
    have hhead : patternAt? patterns x (y :: ys) 0 = patterns.head? := by
      rw [List.head?_eq_getElem?]
      rfl
    rw [argumentsFor, ← hhead]
    cases hat : argumentAt g r earlier scope required x y (patternAt? patterns x (y :: ys) 0) with
    | error e' =>
      rw [error_bind, Except.error.injEq]
      constructor
      · rintro rfl
        exact ⟨0, y, rfl, hat, fun j z hj => absurd hj (Nat.not_lt_zero j)⟩
      · rintro ⟨k, z, hz, hfail, hbefore⟩
        cases k with
        | zero =>
          rcases Option.some.inj hz with rfl
          exact Except.error.inj (hat.symm.trans hfail)
        | succ k =>
          -- A later place is not reached.
          rcases hbefore 0 y (Nat.succ_pos k) rfl with ⟨a, ha⟩
          cases ha.symm.trans hat
    | ok a =>
      have hrest : (argumentsFor g r earlier scope required x ys
          (if y = x then patterns else patterns.tail) >>= fun rest => .ok (a :: rest)) = .error e ↔
          argumentsFor g r earlier scope required x ys
            (if y = x then patterns else patterns.tail) = .error e := by
        rw [bind_eq_error]
        simp only [reduceCtorEq, and_false, exists_false, or_false]
      rw [ok_bind]
      refine hrest.trans (ih.trans ?_)
      simp only [← patternAt?_cons]
      constructor
      · rintro ⟨k, z, hz, hfail, hbefore⟩
        refine ⟨k + 1, z, hz, hfail, fun j w hj hw => ?_⟩
        cases j with
        | zero =>
          rcases Option.some.inj hw with rfl
          exact ⟨a, hat⟩
        | succ j => exact hbefore j w (Nat.lt_of_succ_lt_succ hj) hw
      · rintro ⟨k, z, hz, hfail, hbefore⟩
        cases k with
        | zero =>
          rcases Option.some.inj hz with rfl
          cases hat.symm.trans hfail
        | succ k => exact ⟨k, z, hz, hfail, fun j w hj => hbefore (j + 1) w (Nat.succ_lt_succ hj)⟩

end Loop

section Places

variable {g : Graph} {r : Rule} {earlier : StepIndex} {n : NodeId} {node : Node}
  {x y : TerminalId} {i k : Nat}

/-- Without a scope an input is taken from a constant, a step or a message. -/
theorem input?_eq_supply? : g.input? earlier none y = g.supply? earlier y := by
  unfold Graph.input? Graph.supply?
  cases g.partner? y with
  | none => rfl
  | some p =>
    -- Without a region no marginal is taken, and the looks are in the same order.
    simp only [Option.bind_some, inScope]
    cases g.constant? p with
    | some value => rfl
    | none =>
      cases earlier[p]? with
      | some i => rfl
      | none =>
        cases g.message? p with
        | some m => rfl
        | none => rfl

/-- What a fallback comes to at a node: a parameter, or nothing, or the first terminal with the
    role that is required; and a role that no terminal has is refused. -/
theorem requirementOf_eq (h : g.WellFormed) (hn : g.nodeIdOf? x = some n)
    (hnode : g.nodes[n.slot]? = some node) (r : Rule)
    (hport : ∀ role, r.requiredRole? node = some role → ∃ y, g.portWithRole? node role = some y) :
    requirementOf g r n node = .ok ⟨(r.parameter? node).toList, g.required? r node⟩ := by
  unfold requirementOf Rule.parameter? Graph.required?
  unfold Rule.requiredRole? at hport ⊢
  cases hfallback : r.fallback with
  | none => rfl
  | some fallback =>
    simp only [hfallback, Option.bind_some] at hport ⊢
    -- A parameter makes the fallback give a value; without one it asks for a terminal.
    cases hparam : node.param? fallback.param with
    | some value => rfl
    | none =>
      rcases hport fallback.requiredRole (by rw [hparam]; rfl) with ⟨y, hy⟩
      have hrole := terminalWithRole_eq h hn hnode fallback.requiredRole
      rw [Graph.portWithRole?] at hy
      rw [hy] at hrole
      simp only [hrole, Option.isSome_none, Bool.false_eq_true, if_false, Option.bind_some,
        Graph.portWithRole?, hy, Option.map_none, Option.toList_none]

/-- A role that no terminal of the node has is refused. -/
theorem requirementOf_eq_unknownRole (h : g.WellFormed) (hn : g.nodeIdOf? x = some n)
    (hnode : g.nodes[n.slot]? = some node) {role : String}
    (hrole : r.requiredRole? node = some role) (hport : g.portWithRole? node role = none) :
    requirementOf g r n node = .error (.cause (.unknownRole r.name node.name role)) := by
  unfold Rule.requiredRole? at hrole
  rcases Option.bind_eq_some_iff.1 hrole with ⟨fallback, hfallback, hrole⟩
  -- A terminal is asked for only where the parameter is missing.
  split at hrole
  · exact nomatch hrole
  · rename_i hparam
    rcases Option.some.inj hrole with rfl
    have hfound := terminalWithRole_eq h hn hnode fallback.requiredRole
    rw [Graph.portWithRole?] at hport
    rw [hport] at hfound
    rw [Option.not_isSome_iff_eq_none] at hparam
    simp only [requirementOf, hfallback, hparam, hfound, refuse]

variable (h : g.WellFormed) (hnodup : node.terminals.Nodup) (hi : node.terminals[i]? = some x)
  (hy : g.hasTerminal y = true) (hk : node.terminals[k]? = some y)

include hnodup hi hk

/-- What is left out is not looked for. -/
theorem skips_iff_not_consults :
    (y = x ∨ patternAt? r.inbounds x node.terminals k = some .absent) ∧
      g.required? r node ≠ some y ↔ ¬ g.Consults r node i k y := by
  have hlt := (List.getElem?_eq_some_iff.1 hk).1
  -- The terminals are distinct, so `x` is in its own place only.
  have hplace : y = x ↔ k = i := by
    constructor
    · rintro rfl
      exact (List.getElem?_inj hlt hnodup).1 (hk.trans hi.symm)
    · rintro rfl
      exact Option.some.inj (hk.symm.trans hi)
  unfold Graph.Consults
  by_cases hki : k = i
  · simp only [hplace, hki, true_or, true_and, ne_eq, not_true, false_and, or_false]
  · rw [patternAt?_eq_getElem? hnodup hi hlt hki]
    simp only [hplace, hki, false_or, ne_eq, not_false_eq_true, true_and, not_or, not_not,
      Rule.ownPattern?, and_comm]

/-- In a place where no input is looked for nothing is handed over. -/
theorem argumentAt_eq_absent (hconsults : ¬ g.Consults r node i k y) :
    argumentAt g r earlier none (g.required? r node) x y
      (patternAt? r.inbounds x node.terminals k) = .ok .absent := by
  rw [argumentAt, if_pos ((skips_iff_not_consults hnodup hi hk).2 hconsults)]

include h hy

/-- In a place where an input is looked for it is handed over, or missing. -/
theorem argumentAt_of_consults (hconsults : g.Consults r node i k y) :
    argumentAt g r earlier none (g.required? r node) x y
        (patternAt? r.inbounds x node.terminals k) =
      match g.supply? earlier y with
      | some a => .ok a
      | none => missing g r (g.required? r node = some y) ((g.partner? y).getD y) := by
  have hskip := skips_iff_not_consults (r := r) (g := g) hnodup hi hk
  have hinbound : inboundAt g r earlier none (g.required? r node = some y) y = _ :=
    inboundAt_eq h _ hy
  rw [input?_eq_supply?] at hinbound
  rw [argumentAt, if_neg fun hc => hskip.1 hc hconsults]
  exact hinbound

/-- There is an argument in a place unless an input is looked for that is not there. -/
theorem exists_argumentAt_iff :
    (∃ a, argumentAt g r earlier none (g.required? r node) x y
      (patternAt? r.inbounds x node.terminals k) = .ok a) ↔
      (g.Consults r node i k y → ∃ a, g.supply? earlier y = some a) := by
  -- Where no input is looked for the argument is absent, and cannot fail.
  by_cases hconsults : g.Consults r node i k y
  · rw [argumentAt_of_consults h hnodup hi hy hk hconsults]
    cases g.supply? earlier y with
    | some a => simp only [Except.ok.injEq, exists_eq', Option.some.injEq, implies_true]
    | none =>
      rcases missing_eq_error (α := Argument) (r := r) h (g.required? r node = some y)
        ((g.partner? y).getD y) with ⟨l, _, hl⟩
      simp only [hl, reduceCtorEq, exists_false, hconsults, imp_false, not_true]
  · rw [argumentAt_eq_absent hnodup hi hk hconsults]
    exact iff_of_true ⟨_, rfl⟩ fun hc => absurd hc hconsults

/-- The argument in a place fails if an input is looked for that is not there, with what the
    failure names. -/
theorem argumentAt_eq_error_iff {e : Failure AssemblyError} :
    argumentAt g r earlier none (g.required? r node) x y
        (patternAt? r.inbounds x node.terminals k) = .error e ↔
      g.Consults r node i k y ∧ g.supply? earlier y = none ∧
        ∃ l, (g.label ((g.partner? y).getD y) : Except (Failure AssemblyError) String) = .ok l ∧
          e = .cause (g.lackAt r node y l) := by
  -- Only an input that is looked for can be missing.
  by_cases hconsults : g.Consults r node i k y
  · rw [argumentAt_of_consults h hnodup hi hy hk hconsults]
    cases g.supply? earlier y with
    | some a => simp only [reduceCtorEq, false_and, and_false]
    | none =>
      rcases h.label_eq_ok (ε := AssemblyError) ((g.partner? y).getD y) with ⟨l, hl⟩
      simp only [missing, hl, ok_bind, refuse, Except.error.injEq, hconsults, true_and,
        Except.ok.injEq, exists_eq_left', decide_eq_true_eq, Graph.lackAt]
      exact eq_comm
  · rw [argumentAt_eq_absent hnodup hi hk hconsults]
    simp only [reduceCtorEq, hconsults, false_and]

end Places

section Node

variable {g : Graph} {r : Rule} {earlier : StepIndex} {n : NodeId} {node : Node} {x : TerminalId}
  {i : Nat} (hnode : g.nodes[n.slot]? = some node)

include hnode

/-- The terminals of a node are there, each once. -/
theorem terminals_of_node (h : g.WellFormed) :
    node.terminals.Nodup ∧ ∀ y ∈ node.terminals, g.hasTerminal y = true := by
  have hports : g.portsAt? n.slot = some node.terminals := by
    rw [Graph.portsAt?, hnode, Option.map_some]
  rcases h.listed n.slot _ hports with ⟨hnodup, hthere⟩
  exact ⟨hnodup, fun y hy => Graph.hasTerminal_of_nodeIdOf? (hthere y hy)⟩

variable (h : g.WellFormed) (hi : node.terminals[i]? = some x)

include h hi

/-- What a rule is given starts with the arguments for the terminals. -/
theorem argumentsFor_of_given {arguments : List Argument}
    (hgiven : g.Given r earlier node i arguments) :
    argumentsFor g r earlier none (g.required? r node) x node.terminals r.inbounds =
      .ok (arguments.take node.terminals.length) := by
  rcases terminals_of_node hnode h with ⟨hnodup, hthere⟩
  have hlength := hgiven.length
  refine argumentsFor_eq_ok_iff.2 ⟨by rw [List.length_take]; omega, fun k y hk => ?_⟩
  have hlt := (List.getElem?_eq_some_iff.1 hk).1
  rw [List.getElem?_take_of_lt hlt]
  -- Each place holds the supply or is absent, as the argument in it has to be.
  by_cases hconsults : g.Consults r node i k y
  · have hsupply := hgiven.supplied k y hk hconsults
    rw [List.getElem?_eq_getElem (by omega)] at hsupply ⊢
    refine ⟨_, rfl, ?_⟩
    rw [argumentAt_of_consults h hnodup hi (hthere y (List.mem_of_getElem? hk)) hk hconsults,
      ← hsupply]
  · exact ⟨_, (hgiven.absent k y hk).2 hconsults, argumentAt_eq_absent hnodup hi hk hconsults⟩

omit hnode h hi in
/-- What a rule is given ends with the parameter, if there is one. -/
theorem drop_of_given {arguments : List Argument} (hgiven : g.Given r earlier node i arguments) :
    arguments.drop node.terminals.length = (r.parameter? node).toList := by
  have hlength := hgiven.length
  refine List.ext_getElem? fun j => ?_
  rw [List.getElem?_drop]
  cases j with
  | zero =>
    rw [Nat.add_zero, hgiven.last]
    cases r.parameter? node with
    | none => rfl
    | some a => rfl
  | succ j =>
    -- A fallback adds one argument at most.
    have hshort : (r.parameter? node).toList.length ≤ 1 := by
      cases r.parameter? node with
      | none => exact Nat.zero_le 1
      | some a => exact Nat.le_refl 1
    rw [List.getElem?_eq_none (by omega), List.getElem?_eq_none (by omega)]

/-- The arguments for the terminals and the parameter behind them are what a rule is given. -/
theorem given_of_argumentsFor {first : List Argument}
    (hfirst : argumentsFor g r earlier none (g.required? r node) x node.terminals r.inbounds =
      .ok first) : g.Given r earlier node i (first ++ (r.parameter? node).toList) := by
  rcases terminals_of_node hnode h with ⟨hnodup, hthere⟩
  rcases argumentsFor_eq_ok_iff.1 hfirst with ⟨hlength, hplaces⟩
  have hat : ∀ k y, node.terminals[k]? = some y → ∃ a,
      (first ++ (r.parameter? node).toList)[k]? = some a ∧
      argumentAt g r earlier none (g.required? r node) x y
        (patternAt? r.inbounds x node.terminals k) = .ok a := by
    intro k y hk
    have hlt := (List.getElem?_eq_some_iff.1 hk).1
    rw [List.getElem?_append_left (by omega)]
    exact hplaces k y hk
  have hsupplied : ∀ k y, node.terminals[k]? = some y → g.Consults r node i k y →
      (first ++ (r.parameter? node).toList)[k]? = g.supply? earlier y := by
    intro k y hk hconsults
    have hy := hthere y (List.mem_of_getElem? hk)
    rcases hat k y hk with ⟨a, ha, hat⟩
    -- The argument is there, and so is the input.
    rcases (exists_argumentAt_iff h hnodup hi hy hk).1 ⟨a, hat⟩ hconsults with ⟨a', ha'⟩
    rw [argumentAt_of_consults h hnodup hi hy hk hconsults, ha', Except.ok.injEq] at hat
    rw [ha, ha', hat]
  refine ⟨by rw [List.length_append, hlength], ?_, fun k y hk => ⟨?_, ?_⟩, hsupplied⟩
  · rw [List.getElem?_append_right (by omega), hlength, Nat.sub_self]
    cases r.parameter? node with
    | none => rfl
    | some a => rfl
  · intro habsent hconsults
    rw [hsupplied k y hk hconsults, ← input?_eq_supply?] at habsent
    exact input?_ne_absent habsent
  · intro hconsults
    rcases hat k y hk with ⟨a, ha, hat⟩
    rw [argumentAt_eq_absent hnodup hi hk hconsults] at hat
    rw [ha, Except.ok.inj hat]

/-- There are arguments for all terminals if every input that is looked for is there. -/
theorem exists_argumentsFor_iff :
    (∃ first, argumentsFor g r earlier none (g.required? r node) x node.terminals r.inbounds =
      .ok first) ↔
    ∀ k y, node.terminals[k]? = some y → g.Consults r node i k y →
      ∃ a, g.supply? earlier y = some a := by
  rcases terminals_of_node hnode h with ⟨hnodup, hthere⟩
  have hiff : ∀ k y, node.terminals[k]? = some y →
      ((∃ a, argumentAt g r earlier none (g.required? r node) x y
        (patternAt? r.inbounds x node.terminals k) = .ok a) ↔
        (g.Consults r node i k y → ∃ a, g.supply? earlier y = some a)) :=
    fun k y hk => exists_argumentAt_iff h hnodup hi (hthere y (List.mem_of_getElem? hk)) hk
  constructor
  · rintro ⟨first, hfirst⟩ k y hk
    rcases (argumentsFor_eq_ok_iff.1 hfirst).2 k y hk with ⟨a, _, hat⟩
    exact (hiff k y hk).1 ⟨a, hat⟩
  · intro hall
    cases hrun : argumentsFor g r earlier none (g.required? r node) x node.terminals r.inbounds with
    | ok first => exact ⟨first, rfl⟩
    | error e =>
      -- A failure is that of a place, and there the argument would be missing.
      rcases argumentsFor_eq_error_iff.1 hrun with ⟨k, y, hk, hfail, _⟩
      rcases (hiff k y hk).2 (hall k y hk) with ⟨a, ha⟩
      exact nomatch ha.symm.trans hfail

/-- The arguments for the terminals fail at the first place whose input is not there. -/
theorem argumentsFor_eq_lackAt_iff {e : Failure AssemblyError} :
    argumentsFor g r earlier none (g.required? r node) x node.terminals r.inbounds = .error e ↔
      ∃ k y l, g.FirstMissing r earlier node i k y ∧
        (g.label ((g.partner? y).getD y) : Except (Failure AssemblyError) String) = .ok l ∧
        e = .cause (g.lackAt r node y l) := by
  rcases terminals_of_node hnode h with ⟨hnodup, hthere⟩
  -- The first place that fails is the first one with a missing input.
  rw [argumentsFor_eq_error_iff]
  constructor
  · rintro ⟨k, y, hk, hfail, hbefore⟩
    rw [argumentAt_eq_error_iff h hnodup hi (hthere y (List.mem_of_getElem? hk)) hk] at hfail
    rcases hfail with ⟨hconsults, hnone, l, hl, he⟩
    refine ⟨k, y, l, ⟨hk, hconsults, hnone, fun j z hj hz => ?_⟩, hl, he⟩
    exact (exists_argumentAt_iff h hnodup hi (hthere z (List.mem_of_getElem? hz)) hz).1
      (hbefore j z hj hz)
  · rintro ⟨k, y, l, hfirst, hl, he⟩
    have hk := hfirst.place
    refine ⟨k, y, hk, ?_, fun j z hj hz => ?_⟩
    · rw [argumentAt_eq_error_iff h hnodup hi (hthere y (List.mem_of_getElem? hk)) hk]
      exact ⟨hfirst.consulted, hfirst.missing, l, hl, he⟩
    · rw [exists_argumentAt_iff h hnodup hi (hthere z (List.mem_of_getElem? hz)) hz]
      exact hfirst.first j z hj hz

end Node

section Run

variable {g : Graph} {r : Rule} {earlier : StepIndex} {n : NodeId} {node : Node} {x : TerminalId}
  {i : Nat} (hn : g.nodeIdOf? x = some n) (hnode : g.nodes[n.slot]? = some node)

include hn hnode

/-- A rule without a pattern for each other terminal is refused. -/
theorem assemble_eq_arityMismatch (harity : r.inbounds.length + 1 ≠ node.terminals.length) :
    assemble g x r earlier none = .error (.cause
      (.arityMismatch r.name node.name r.inbounds.length (node.terminals.length - 1))) := by
  rcases Graph.terminal_eq_ok (ε := AssemblyError) (Graph.hasTerminal_of_nodeIdOf? hn) with
    ⟨terminal, hget, hid, _⟩
  rw [hn, Option.some.injEq] at hid
  have hplace : (g.node n : Except (Failure AssemblyError) Node) = .ok node := by
    rw [Graph.node, hnode, handled_some]
  simp only [assemble, hget, ok_bind, ← hid, hplace, if_pos harity]
  rfl

/-- A rule with a pattern for each other terminal is given what its fallback comes to behind the
    arguments for the terminals. -/
theorem assemble_eq (harity : r.inbounds.length + 1 = node.terminals.length) :
    assemble g x r earlier none = (do
      let requirement ← requirementOf g r n node
      let first ← argumentsFor g r earlier none requirement.terminal x node.terminals r.inbounds
      return first ++ requirement.last) := by
  rcases Graph.terminal_eq_ok (ε := AssemblyError) (Graph.hasTerminal_of_nodeIdOf? hn) with
    ⟨terminal, hget, hid, _⟩
  rw [hn, Option.some.injEq] at hid
  have hplace : (g.node n : Except (Failure AssemblyError) Node) = .ok node := by
    rw [Graph.node, hnode, handled_some]
  have hfits : ¬ r.inbounds.length + 1 ≠ node.terminals.length := fun hne => hne harity
  simp only [assemble, hget, ok_bind, ← hid, hplace, if_neg hfits]

variable (h : g.WellFormed) (harity : r.inbounds.length + 1 = node.terminals.length)

include h harity

/-- A rule that requires a role which no terminal has is refused. -/
theorem assemble_eq_unknownRole {role : String} (hrole : r.requiredRole? node = some role)
    (hport : g.portWithRole? node role = none) :
    assemble g x r earlier none = .error (.cause (.unknownRole r.name node.name role)) := by
  rw [assemble_eq hn hnode harity, requirementOf_eq_unknownRole h hn hnode hrole hport, error_bind]

variable (hports : ∀ role, r.requiredRole? node = some role →
  ∃ y, g.portWithRole? node role = some y)

include hports

/-- Where the required terminal is there, the arguments for the terminals decide. -/
theorem assemble_eq_map :
    assemble g x r earlier none = (do
      let first ← argumentsFor g r earlier none (g.required? r node) x node.terminals r.inbounds
      return first ++ (r.parameter? node).toList) := by
  rw [assemble_eq hn hnode harity, requirementOf_eq h hn hnode r hports, ok_bind]

variable (hi : node.terminals[i]? = some x)

include hi

theorem assemble_eq_ok_iff {arguments : List Argument} :
    assemble g x r earlier none = .ok arguments ↔ g.Given r earlier node i arguments := by
  rw [assemble_eq_map hn hnode h harity hports, bind_eq_ok]
  constructor
  · rintro ⟨first, hfirst, heq⟩
    rw [← Except.ok.inj heq]
    exact given_of_argumentsFor hnode h hi hfirst
  · intro hgiven
    refine ⟨_, argumentsFor_of_given hnode h hi hgiven, ?_⟩
    rw [← drop_of_given hgiven, List.take_append_drop]
    rfl

theorem exists_assemble_iff :
    (∃ arguments, assemble g x r earlier none = .ok arguments) ↔
    ∀ k y, node.terminals[k]? = some y → g.Consults r node i k y →
      ∃ a, g.supply? earlier y = some a := by
  rw [assemble_eq_map hn hnode h harity hports, ← exists_argumentsFor_iff hnode h hi]
  constructor
  · rintro ⟨arguments, harguments⟩
    rcases bind_eq_ok.1 harguments with ⟨first, hfirst, _⟩
    exact ⟨first, hfirst⟩
  · rintro ⟨first, hfirst⟩
    exact ⟨_, bind_eq_ok.2 ⟨first, hfirst, rfl⟩⟩

theorem assemble_eq_error_iff {e : Failure AssemblyError} :
    assemble g x r earlier none = .error e ↔
      ∃ k y l, g.FirstMissing r earlier node i k y ∧
        (g.label ((g.partner? y).getD y) : Except (Failure AssemblyError) String) = .ok l ∧
        e = .cause (g.lackAt r node y l) := by
  rw [assemble_eq_map hn hnode h harity hports, bind_eq_error,
    ← argumentsFor_eq_lackAt_iff hnode h hi]
  constructor
  · rintro (hfail | ⟨first, _, hc⟩)
    · exact hfail
    · exact nomatch hc
  · intro hfail
    exact Or.inl hfail

omit hports

/-- A role is refused if it is required and no terminal has it, and for no other reason. -/
theorem unknownRole_iff (rule name role : String) :
    assemble g x r earlier none = .error (.cause (.unknownRole rule name role)) ↔
      r.requiredRole? node = some role ∧ g.portWithRole? node role = none ∧
        rule = r.name ∧ name = node.name := by
  by_cases hports : ∀ role, r.requiredRole? node = some role →
      ∃ y, g.portWithRole? node role = some y
  · -- With the terminal found, other failures are of inputs.
    rw [assemble_eq_error_iff hn hnode h harity hports hi]
    refine iff_of_false ?_ ?_
    · rintro ⟨k, y, l, _, _, he⟩
      exact g.lackAt_ne_unknownRole r node y l _ _ _ (Failure.cause.inj he).symm
    · rintro ⟨hrole, hnone, _⟩
      rcases hports role hrole with ⟨y, hy⟩
      exact nomatch hnone.symm.trans hy
  · push Not at hports
    -- Else the fallback refuses before any input is looked at.
    rcases hports with ⟨role', hrole', hnone⟩
    rw [← Option.eq_none_iff_forall_ne_some] at hnone
    rw [assemble_eq_unknownRole hn hnode h harity hrole' hnone]
    constructor
    · intro heq
      rcases AssemblyError.unknownRole.inj (Failure.cause.inj (Except.error.inj heq)) with
        ⟨rfl, rfl, rfl⟩
      exact ⟨hrole', hnone, rfl, rfl⟩
    · rintro ⟨hrole, _, rfl, rfl⟩
      rw [Option.some.inj (hrole'.symm.trans hrole)]

omit harity

/-- The number of patterns is refused if there is not one for each other terminal, and for no
    other reason. -/
theorem arityMismatch_iff (rule name : String) (expected actual : Nat) :
    assemble g x r earlier none = .error (.cause (.arityMismatch rule name expected actual)) ↔
      r.inbounds.length ≠ node.terminals.length - 1 ∧ rule = r.name ∧ name = node.name ∧
        expected = r.inbounds.length ∧ actual = node.terminals.length - 1 := by
  have hpos : 0 < node.terminals.length := Nat.zero_lt_of_lt (List.getElem?_eq_some_iff.1 hi).1
  by_cases harity : r.inbounds.length + 1 = node.terminals.length
  · refine iff_of_false ?_ fun hc => hc.1 (by omega)
    -- With the right number of patterns the failure is another one.
    by_cases hports : ∀ role, r.requiredRole? node = some role →
        ∃ y, g.portWithRole? node role = some y
    · rw [assemble_eq_error_iff hn hnode h harity hports hi]
      rintro ⟨k, y, l, _, _, he⟩
      exact g.lackAt_ne_arityMismatch r node y l _ _ _ _ (Failure.cause.inj he).symm
    · push Not at hports
      rcases hports with ⟨role, hrole, hnone⟩
      rw [← Option.eq_none_iff_forall_ne_some] at hnone
      rw [assemble_eq_unknownRole hn hnode h harity hrole hnone]
      exact fun hc => nomatch hc
  · rw [assemble_eq_arityMismatch hn hnode harity]
    constructor
    · intro heq
      rcases AssemblyError.arityMismatch.inj (Failure.cause.inj (Except.error.inj heq)) with
        ⟨rfl, rfl, rfl, rfl⟩
      exact ⟨by omega, rfl, rfl, rfl, rfl⟩
    · rintro ⟨_, rfl, rfl, rfl, rfl⟩
      rfl

end Run

/-- A rule with as many patterns as there are other terminals, of which one has the role that is
    required, is given its arguments exactly if every input that is looked for is there: an
    argument for each terminal, nothing where no input is looked for and the input where one is,
    and the parameter of the fallback behind them if the node has it. Otherwise the failure is that
    of the first terminal whose input is looked for and is not there. A rule with another number of
    patterns, and one that requires a role no terminal has, is refused for that. -/
theorem assemble_hands_over {g : Graph} (hg : Reachable g) {n : NodeId} {node : Node}
    {x : TerminalId} {i : Nat} (hn : g.nodeIdOf? x = some n)
    (hnode : g.nodes[n.slot]? = some node) (hi : node.terminals[i]? = some x) (r : Rule)
    (earlier : StepIndex) :
    (∀ rule name expected actual, assemble g x r earlier none =
        .error (.cause (.arityMismatch rule name expected actual)) ↔
      r.inbounds.length ≠ node.terminals.length - 1 ∧ rule = r.name ∧ name = node.name ∧
        expected = r.inbounds.length ∧ actual = node.terminals.length - 1) ∧
    (r.inbounds.length = node.terminals.length - 1 →
      (∀ rule name role, assemble g x r earlier none =
          .error (.cause (.unknownRole rule name role)) ↔
        r.requiredRole? node = some role ∧ g.portWithRole? node role = none ∧
          rule = r.name ∧ name = node.name) ∧
      ((∀ role, r.requiredRole? node = some role → ∃ y, g.portWithRole? node role = some y) →
        (∀ arguments, assemble g x r earlier none = .ok arguments ↔
          g.Given r earlier node i arguments) ∧
        ((∃ arguments, assemble g x r earlier none = .ok arguments) ↔
          ∀ k y, node.terminals[k]? = some y → g.Consults r node i k y →
            ∃ a, g.supply? earlier y = some a) ∧
        ∀ e, assemble g x r earlier none = .error e ↔
          ∃ k y l, g.FirstMissing r earlier node i k y ∧
            (g.label ((g.partner? y).getD y) : Except (Failure AssemblyError) String) = .ok l ∧
            e = .cause (g.lackAt r node y l))) := by
  have h := Graph.wellFormed_of_reachable hg
  have hpos : 0 < node.terminals.length := Nat.zero_lt_of_lt (List.getElem?_eq_some_iff.1 hi).1
  -- The checks are made in this order: arity, role, inputs.
  refine ⟨arityMismatch_iff hn hnode h hi, fun hlength => ?_⟩
  have harity : r.inbounds.length + 1 = node.terminals.length := by omega
  refine ⟨unknownRole_iff hn hnode h harity hi, fun hports => ?_⟩
  exact ⟨fun _ => assemble_eq_ok_iff hn hnode h harity hports hi,
    exists_assemble_iff hn hnode h harity hports hi,
    fun _ => assemble_eq_error_iff hn hnode h harity hports hi⟩

/-- A node with three terminals, where a constant arrives at the first and a message is there
    already for the second. Nothing is connected to the third. -/
def pointGraph : Graph :=
  (Graph.empty ⟨1⟩).applyAll [
    .addNamedNode "f" "Nonlinear" ["in1", "out", "in2"], .addNamedConstant "c" (.scalar 2),
    .addNamedNode "y" "Gaussian" ["out"], .connect ⟨3⟩ ⟨0⟩ none, .connect ⟨1⟩ ⟨4⟩ none,
    .setMessage ⟨4⟩ ⟨.gaussian, .scalar 1⟩]

/-- A rule that needs a point to start from, at the terminal that it computes. -/
def pointRule : Rule :=
  { name := "around", kind := "Nonlinear", role := "out", inbounds := [.constant, .absent],
    produces := .gaussian, fallback := some ⟨"point", "out"⟩ }

/-- The node of that graph whose message is computed. -/
def pointNode : Node :=
  { name := "f", kind := "Nonlinear", terminals := [⟨0⟩, ⟨1⟩, ⟨2⟩], constant := none, params := [] }

/-- The terminal computed is given what arrives there since it is required, and the pattern behind
    it is its own: it is *absent*, and nothing needs to be there. -/
theorem assemble_hands_over_point : Reachable pointGraph ∧
    pointGraph.nodeIdOf? ⟨1⟩ = some ⟨⟨1⟩, 0⟩ ∧ pointGraph.nodes[0]? = some pointNode ∧
    pointGraph.required? pointRule pointNode = some ⟨1⟩ ∧
    assemble pointGraph ⟨1⟩ pointRule ∅ none =
      .ok [.literal (.scalar 2), .stored ⟨4⟩, .absent] ∧
    pointGraph.Given pointRule ∅ pointNode 1 [.literal (.scalar 2), .stored ⟨4⟩, .absent] := by
  have hg : Reachable pointGraph := (Reachable.empty _).applyAll _
  have hn : pointGraph.nodeIdOf? ⟨1⟩ = some ⟨⟨1⟩, 0⟩ := by decide +kernel
  have hnode : pointGraph.nodes[0]? = some pointNode := by decide +kernel
  have hrun : assemble pointGraph ⟨1⟩ pointRule ∅ none =
      .ok [.literal (.scalar 2), .stored ⟨4⟩, .absent] := toOption_eq_some.1 (by decide +kernel)
  -- The fallback asks for the terminal that is computed, which has its role.
  have hports : ∀ role, pointRule.requiredRole? pointNode = some role →
      ∃ y, pointGraph.portWithRole? pointNode role = some y := by
    intro role hrole
    rcases Option.some.inj hrole with rfl
    exact ⟨⟨1⟩, by decide +kernel⟩
  rcases (assemble_hands_over hg (i := 1) hn hnode rfl pointRule ∅).2 rfl with ⟨_, hrest⟩
  exact ⟨hg, hn, hnode, by decide +kernel, hrun, ((hrest hports).1 _).1 hrun⟩

end MessagePlan
