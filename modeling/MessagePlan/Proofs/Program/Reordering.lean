import MessagePlan.Proofs.Program.Regions

/-!
# The Order of a Schedule Does Not Matter

A graph has many schedules, and which of them is found depends on the order in which terminals are
listed at their nodes. What is computed should not. The rule of a step is chosen for what arrives
behind the steps there are, and these were chosen in the same way, so a list in another order
might lead to other rules, or to a refusal where there was none.

It does not if the two lists agree on what comes first wherever it is asked for. A step asks for the
steps of the partners at its node, and whether these are there by then is all that their order
decides. So the lists are taken as they are, in any order and with partners that come too late, and
only have to agree about partners: that is a `Rearrangement`. It does not help to go through both
lists at once. One program is complete, and along the other list each step finds the same arrivals
as the step for its terminal did there, in `exists_compiled`.

Steps refer to one another by place, and places do differ. An `Account` of a terminal has the
terminals of these steps instead, and it is the same for both programs. What the rule of a terminal
takes from the terminal itself is left out of this: a fallback may ask for it, and nothing is said
about whether the partner there comes first. Hence the condition that rules have none.

## Main definitions

* `Rearrangement`: Two lists of the same terminals that agree on what comes before a step.
* `Program.named?`, `Account`, `Program.account?`: What a program says of a terminal, without
  places.
* `Alike`: Two programs tell the same families of what arrives at a node.
* `Program.Retells`: A program along one list gives the accounts of a program along another.

## Theorems

* `signature_congr`: Where programs are alike, the same arrives.
* `assemble_alike`: Where programs are alike, a rule without a fallback is given the same.
* `Program.Retells.alike`: At a terminal both programs are alike, whatever their orders.
* `Program.Retells.step`: What comes next along another list is compiled as it was before.
* `exists_compiled`: What is compiled in one order is compiled in the other, to the same accounts.
* `compile_rearranged`: Two orders that agree are compiled together, and to the same accounts.
-/

namespace MessagePlan

/-- Two lists of the same terminals, without repeats, that agree for each terminal on which partners
    of the other terminals of its node come before it. -/
structure Rearrangement (g : Graph) (r₁ r₂ : Schedule) : Prop where
  nodup : r₁.Nodup
  perm : r₁.Perm r₂
  agree : ∀ x ∈ r₁, ∀ y ∈ g.ports x, y ≠ x → ∀ p, g.partner? y = some p → p ∈ r₁ →
    (r₁.idxOf p < r₁.idxOf x ↔ r₂.idxOf p < r₂.idxOf x)

/-- An argument where a step is named by the terminal it computes. -/
def Program.named? (q : Program) : Argument → Option (TerminalId ⊕ Argument)
  | .step i => q.steps[i]?.map fun s => .inl s.terminal
  | a => some (.inr a)

/-- What a program says of a terminal, with steps named by the terminals they compute. -/
structure Account where
  rule : RuleId
  produces : Family
  arguments : List (TerminalId ⊕ Argument)
deriving DecidableEq

/-- What a program says of a terminal, if it has a step for it and its steps refer to steps. -/
def Program.account? (q : Program) (x : TerminalId) : Option Account :=
  q.stepOf[x]?.bind fun i => q.steps[i]?.bind fun s =>
    (s.arguments.mapM q.named?).map fun arguments => ⟨s.rule, s.produces, arguments⟩

/-- Two programs have steps for the same partners at the other terminals of a node, and tell the
    same families of them. -/
def Alike (g : Graph) (x : TerminalId) (q q' : Program) : Prop :=
  ∀ y ∈ g.ports x, y ≠ x → ∀ p, g.partner? y = some p → q.family? p = q'.family? p

section Rearrangements

variable {g : Graph} {r₁ r₂ : Schedule} {x p : TerminalId}

theorem Rearrangement.symm (hr : Rearrangement g r₁ r₂) : Rearrangement g r₂ r₁ where
  nodup := hr.perm.nodup_iff.1 hr.nodup
  perm := hr.perm.symm
  agree x hx y hy hne p hp hmem :=
    (hr.agree x (hr.perm.mem_iff.2 hx) y hy hne p hp (hr.perm.mem_iff.2 hmem)).symm

/-- Before an entry of a list without repeats stand those with earlier places. -/
theorem mem_before_iff {r before after : Schedule} (hnodup : r.Nodup)
    (heq : r = before ++ x :: after) : p ∈ before ↔ p ∈ r ∧ r.idxOf p < r.idxOf x := by
  subst heq
  have hx : x ∉ before := fun hmem =>
    (List.nodup_append.1 hnodup).2.2 x hmem x List.mem_cons_self rfl
  have hplace : (before ++ x :: after).idxOf x = before.length := by
    rw [List.idxOf_append, if_neg hx, List.idxOf_cons_self, Nat.zero_add]
  rw [hplace, List.idxOf_append]
  constructor
  · intro hp
    rw [if_pos hp]
    exact ⟨List.mem_append_left _ hp, List.idxOf_lt_length_of_mem hp⟩
  · -- What is not before `x` is found at its place or behind.
    rintro ⟨_, hlt⟩
    by_contra hp
    rw [if_neg hp] at hlt
    omega

/-- At an entry of both lists the same partners stand before it. -/
theorem Rearrangement.mem_before (hr : Rearrangement g r₁ r₂)
    {before₁ after₁ before₂ after₂ : Schedule}
    (h₁ : r₁ = before₁ ++ x :: after₁) (h₂ : r₂ = before₂ ++ x :: after₂) {y : TerminalId}
    (hy : y ∈ g.ports x) (hne : y ≠ x) (hp : g.partner? y = some p) :
    p ∈ before₁ ↔ p ∈ before₂ := by
  rw [mem_before_iff hr.nodup h₁, mem_before_iff hr.symm.nodup h₂, ← hr.perm.mem_iff]
  refine and_congr_right fun hmem => ?_
  exact hr.agree x (h₁ ▸ List.mem_append_right _ List.mem_cons_self) y hy hne p hp hmem

end Rearrangements

section Accounts

variable {q q' : Program} {x : TerminalId} {s : Step} {i : Nat}

/-- What arguments name stays as it is when a program goes on. -/
theorem mapM_named?_mono (hsize : q.steps.size = i)
    (hbefore : ∀ j < i, q.steps[j]? = q'.steps[j]?) {arguments : List Argument}
    {names : List (TerminalId ⊕ Argument)} (hnames : arguments.mapM q.named? = some names) :
    arguments.mapM q'.named? = some names := by
  -- Only a step is named through the program, and it is one of those that the programs share.
  have hone : ∀ a n, q.named? a = some n → q'.named? a = some n := by
    intro a n hn
    cases a with
    | step j =>
      rcases Option.map_eq_some_iff.1 hn with ⟨s, hs, hname⟩
      have hlt : j < i := hsize ▸ (Array.getElem?_eq_some_iff.1 hs).1
      rw [Program.named?, ← hbefore j hlt, hs, Option.map_some, hname]
    | absent => exact hn
    | literal v => exact hn
    | stored p => exact hn
    | marginal e => exact hn
    | param name value => exact hn
  induction arguments generalizing names with
  | nil => exact hnames
  | cons a arguments ih =>
    rw [List.mapM_cons] at hnames ⊢
    rcases Option.bind_eq_some_iff.1 hnames with ⟨n, hn, hnames⟩
    rcases Option.bind_eq_some_iff.1 hnames with ⟨rest, hrest, hnames⟩
    rw [hone a n hn, ih hrest]
    exact hnames

theorem account?_eq (hi : q.stepOf[x]? = some i) (hs : q.steps[i]? = some s)
    {names : List (TerminalId ⊕ Argument)} (hnames : s.arguments.mapM q.named? = some names) :
    q.account? x = some ⟨s.rule, s.produces, names⟩ := by
  rw [Program.account?, hi, Option.bind_some, hs, Option.bind_some, hnames, Option.map_some]

theorem exists_of_account? {a : Account} (ha : q.account? x = some a) :
    ∃ i s, q.stepOf[x]? = some i ∧ q.steps[i]? = some s ∧
      s.arguments.mapM q.named? = some a.arguments ∧ s.rule = a.rule ∧ s.produces = a.produces := by
  rcases Option.bind_eq_some_iff.1 ha with ⟨i, hi, ha⟩
  rcases Option.bind_eq_some_iff.1 ha with ⟨s, hs, ha⟩
  rcases Option.map_eq_some_iff.1 ha with ⟨names, hnames, rfl⟩
  exact ⟨i, s, hi, hs, hnames, rfl, rfl⟩

theorem family?_of_account? {a : Account} (ha : q.account? x = some a) :
    q.family? x = some a.produces := by
  rcases exists_of_account? ha with ⟨i, s, hi, hs, _, _, hproduces⟩
  rw [Program.family?, hi, Option.bind_some, hs, Option.map_some, hproduces]

theorem before_append (q : Program) (s : Step) (j : Nat) (hj : j < q.steps.size) :
    q.steps[j]? = (q.append s).steps[j]? := by
  rw [Program.getElem?_append_steps, if_neg (Nat.ne_of_lt hj)]

/-- A step more says nothing new of other terminals. -/
theorem account?_append_of_ne {a : Account} (hx : s.terminal ≠ x) (ha : q.account? x = some a) :
    (q.append s).account? x = some a := by
  rcases exists_of_account? ha with ⟨i, s', hi, hs', hnames, hrule, hproduces⟩
  have hlt : i < q.steps.size := (Array.getElem?_eq_some_iff.1 hs').1
  rw [account?_eq (i := i) (s := s') ?_ ?_ (mapM_named?_mono rfl (before_append q s) hnames), hrule,
    hproduces]
  · rw [Program.getElem?_append_stepOf, if_neg hx, hi]
  · rw [← before_append q s i hlt, hs']

theorem account?_append {names : List (TerminalId ⊕ Argument)}
    (hnames : s.arguments.mapM q.named? = some names) :
    (q.append s).account? s.terminal = some ⟨s.rule, s.produces, names⟩ := by
  refine account?_eq (Program.append_stepOf q s) ?_
    (mapM_named?_mono rfl (before_append q s) hnames)
  rw [Program.getElem?_append_steps, if_pos rfl]

end Accounts

section Nodes

variable {g : Graph} {c : Catalog} {x y p : TerminalId} {q q' : Program} {r : Rule}

/-- Where programs are alike, the same arrives. -/
theorem signature_congr (halike : Alike g x q q') :
    g.signature q none ∅ x = g.signature q' none ∅ x := by
  refine List.map_congr_left fun y hy => ?_
  rcases List.mem_filter.1 hy with ⟨hy, hne⟩
  unfold Graph.arrival
  cases hp : g.partner? y with
  | none => rfl
  | some p =>
    -- On a whole graph all edges are in the scope, and the steps of the partner are asked for.
    simp only [inScope, if_true, halike y hy (of_decide_eq_true hne) p hp]

theorem exists_stepOf_iff_family? (hq : q.Indexed) :
    (∃ i, q.stepOf[p]? = some i) ↔ ∃ f, q.family? p = some f := by
  rw [Program.family?]
  constructor
  · rintro ⟨i, hi⟩
    rcases hq p i hi with ⟨s, hs⟩
    exact ⟨s.produces, by rw [hi, Option.bind_some, hs, Option.map_some]⟩
  · rintro ⟨f, hf⟩
    rcases Option.bind_eq_some_iff.1 hf with ⟨i, hi, _⟩
    exact ⟨i, hi⟩

/-- An input at a terminal whose partner has a step in both programs, or in none, is found in both
    of them and names the same. -/
theorem input?_alike (hq : q.IndexesLast) (hq' : q'.IndexesLast)
    (hfamily : ∀ p, g.partner? y = some p → q.family? p = q'.family? p) {a : Argument}
    (ha : g.input? q.stepOf none y = some a) :
    ∃ a' n, g.input? q'.stepOf none y = some a' ∧ q.named? a = some n ∧ q'.named? a' = some n := by
  rcases input?_eq_some ha with
    ⟨p, hp, ⟨v, hv, rfl⟩ | ⟨hnone, ⟨_, i, hi, rfl⟩ | ⟨_, hi, ⟨m, hm⟩, rfl⟩ | ⟨hscope, _⟩⟩⟩
  · exact ⟨.literal v, .inr (.literal v),
      by simp only [Graph.input?, hp, Option.bind_some, hv], rfl, rfl⟩
  · -- Both steps are for the partner, wherever they stand.
    rcases (exists_stepOf_iff_family? hq.indexed).1 ⟨i, hi⟩ with ⟨f, hf⟩
    rw [hfamily p hp] at hf
    rcases (exists_stepOf_iff_family? hq'.indexed).2 ⟨f, hf⟩ with ⟨j, hj⟩
    rcases (hq.last p i hi).step with ⟨s, hs, hterminal⟩
    rcases (hq'.last p j hj).step with ⟨s', hs', hterminal'⟩
    refine ⟨.step j, .inl p, ?_, ?_, ?_⟩
    · simp only [Graph.input?, hp, Option.bind_some, hnone, inScope, if_true, hj]
    · rw [Program.named?, hs, Option.map_some, hterminal]
    · rw [Program.named?, hs', Option.map_some, hterminal']
  · have hj : q'.stepOf[p]? = none := by
      refine Option.eq_none_iff_forall_ne_some.2 fun j hj => ?_
      rcases (exists_stepOf_iff_family? hq'.indexed).1 ⟨j, hj⟩ with ⟨f, hf⟩
      rw [← hfamily p hp] at hf
      rcases (exists_stepOf_iff_family? hq.indexed).2 ⟨f, hf⟩ with ⟨i, hi'⟩
      exact Option.some_ne_none i (hi'.symm.trans hi)
    refine ⟨.stored p, .inr (.stored p), ?_, rfl, rfl⟩
    simp only [Graph.input?, hp, Option.bind_some, hnone, inScope, if_true, hj, hm,
      Option.isSome_some]
  · exact absurd hscope.symm Bool.false_ne_true

/-- Where programs are alike and nothing is required, a terminal of the node has arguments from
    both, which name the same. -/
theorem argumentAt_alike (h : g.WellFormed) (hq : q.IndexesLast) (hq' : q'.IndexesLast)
    (halike : Alike g x q q') (hy : y ∈ g.ports x) {pattern : Option Pattern} {a : Argument}
    (ha : argumentAt g r q.stepOf none none x y pattern = .ok a) :
    ∃ a' n, argumentAt g r q'.stepOf none none x y pattern = .ok a' ∧ q.named? a = some n ∧
      q'.named? a' = some n := by
  have hthere := h.hasTerminal_of_mem_ports hy
  rcases argumentAt_eq_ok h hthere ha with ⟨hskip, rfl⟩ | ⟨hskip, hinput⟩
  · exact ⟨.absent, .inr .absent, by rw [argumentAt, if_pos hskip], rfl, rfl⟩
  · -- The terminal computed is skipped, so this is another one of its node.
    have hne : y ≠ x := fun heq => hskip ⟨Or.inl heq, fun hc => nomatch hc⟩
    rcases input?_alike hq hq' (halike y hy hne) hinput with ⟨a', n, ha', hn, hn'⟩
    refine ⟨a', n, ?_, hn, hn'⟩
    rw [argumentAt, if_neg hskip, inboundAt_eq h _ hthere, ha']

theorem argumentsFor_alike (h : g.WellFormed) (hq : q.IndexesLast) (hq' : q'.IndexesLast)
    (halike : Alike g x q q') {ys : List TerminalId} (hys : ∀ y ∈ ys, y ∈ g.ports x)
    {patterns : List Pattern} {arguments : List Argument}
    (ha : argumentsFor g r q.stepOf none none x ys patterns = .ok arguments) :
    ∃ arguments' names, argumentsFor g r q'.stepOf none none x ys patterns = .ok arguments' ∧
      arguments.mapM q.named? = some names ∧ arguments'.mapM q'.named? = some names := by
  induction ys generalizing patterns arguments with
  | nil =>
    rw [← Except.ok.inj ha]
    exact ⟨[], [], rfl, rfl, rfl⟩
  | cons y ys ih =>
    rw [argumentsFor] at ha ⊢
    rcases bind_eq_ok.1 ha with ⟨a, hfirst, ha⟩
    rcases bind_eq_ok.1 ha with ⟨rest, hrest, ha⟩
    rw [← Except.ok.inj ha]
    -- The first argument and the others are found alike, and have the same names.
    rcases argumentAt_alike h hq hq' halike (hys y List.mem_cons_self) hfirst with
      ⟨a', n, ha', hn, hn'⟩
    rcases ih (fun z hz => hys z (List.mem_cons_of_mem y hz)) hrest with
      ⟨rest', names, hrest', hnames, hnames'⟩
    refine ⟨a' :: rest', n :: names, ?_, ?_, ?_⟩
    · rw [ha', ok_bind, hrest', ok_bind]
      rfl
    · rw [List.mapM_cons, hn, hnames]
      rfl
    · rw [List.mapM_cons, hn', hnames']
      rfl

/-- Where programs are alike, a rule without a fallback is given the same. -/
theorem assemble_alike (h : g.WellFormed) (hx : g.hasTerminal x = true) (hr : r.fallback = none)
    (hq : q.IndexesLast) (hq' : q'.IndexesLast) (halike : Alike g x q q')
    {arguments : List Argument} (ha : assemble g x r q.stepOf none = .ok arguments) :
    ∃ arguments' names, assemble g x r q'.stepOf none = .ok arguments' ∧
      arguments.mapM q.named? = some names ∧ arguments'.mapM q'.named? = some names := by
  rcases Graph.terminal_eq_ok (ε := AssemblyError) hx with ⟨terminal, hget, hn, _⟩
  rcases h.node_eq_ok (ε := AssemblyError) hn with ⟨node, hnode, hports, _⟩
  simp only [assemble, hget, ok_bind, hnode, hports, requirementOf, hr] at ha ⊢
  split at ha
  · cases ha
  · rename_i harity
    rcases bind_eq_ok.1 ha with ⟨first, hfirst, ha⟩
    -- Without a fallback there is nothing but the inputs.
    rcases argumentsFor_alike h hq hq' halike (fun y hy => hy) hfirst with
      ⟨first', names, hfirst', hnames, hnames'⟩
    refine ⟨first', names, ?_, ?_, hnames'⟩
    · rw [if_neg harity, hfirst', ok_bind, List.append_nil]
      rfl
    · rw [← Except.ok.inj ha, List.append_nil]
      exact hnames

/-- Where programs are alike, a step that was made in one is made in the other, and both name the
    same. -/
theorem compileStep_alike (h : g.WellFormed) (hc : ∀ r ∈ c.rules, r.fallback = none)
    (hq : q.IndexesLast) (hq' : q'.IndexesLast) {s : Step} (halike : Alike g s.terminal q q')
    (hs : s.Chosen g c none ∅ q r) :
    ∃ s' names, compileStep g c none ∅ q' s.terminal = .ok (q'.append s') ∧
      s'.Chosen g c none ∅ q' r ∧ s'.terminal = s.terminal ∧ s'.rule = s.rule ∧
      s'.produces = s.produces ∧ s.arguments.mapM q.named? = some names ∧
      s'.arguments.mapM q'.named? = some names := by
  rcases hs.resolved with ⟨kind, role, hkind, hrole, hres⟩
  -- The same arrives, so the same rule is chosen, and it takes nothing from the terminal itself.
  have hrule : r ∈ c.rules := Catalog.mem_rules_of_rule?
    (Catalog.mem_candidates.1 (Catalog.mem_candidates_of_resolve hres)).1
  rcases assemble_alike h hs.there (hc r hrule) hq hq' halike hs.given with
    ⟨arguments, names, ha, hnames, hnames'⟩
  rw [signature_congr halike] at hres
  refine ⟨⟨s.terminal, s.rule, r.produces, arguments⟩, names, ?_,
    ⟨hs.there, hs.computed, ⟨kind, role, hkind, hrole, hres⟩, rfl, ha⟩, rfl, rfl,
    hs.produces.symm, hnames, hnames'⟩
  rcases compileStep_eq h hq'.indexed hs.there c none ∅ with
    ⟨kind', role', l, hkind', hrole', _, heq⟩
  rcases Option.some.inj (hkind.symm.trans hkind') with rfl
  rcases Option.some.inj (hrole.symm.trans hrole') with rfl
  simp only [heq, hs.computed, hres, ha, asPart, ok_bind]

end Nodes

section Runs

variable {g : Graph} {c : Catalog} {q sofar : Program} {scope : Option Region}
  {known : KnownFamilies} {list r₁ r₂ : Schedule} {x p : TerminalId} {s : Step} {r : Rule} {i : Nat}

/-- Only terminals of the graph are compiled. -/
theorem hasTerminal_of_compileScoped (hq : compileScoped g c list scope known = .ok q) :
    ∀ x ∈ list, g.hasTerminal x = true := by
  refine foldlM_preserves (fun past _ => ∀ x ∈ past, g.hasTerminal x = true)
    (fun x hx => absurd hx List.not_mem_nil) ?_ hq
  intro past x _ q q' _ hpast hstep y hy
  rcases List.mem_append.1 hy with hy | hy
  · exact hpast y hy
  · rcases List.mem_singleton.1 hy with rfl
    rcases bind_eq_ok.1 hstep with ⟨terminal, hget, _⟩
    exact Graph.hasTerminal_iff.2 (Array.getElem?_eq_some_iff.1 (handled_eq_ok.1 hget)).1

/-- A program tells the families of what its list has, constants apart. -/
theorem Program.Recorded.exists_family?_iff (hq : q.Recorded g c scope known list) :
    (∃ f, q.family? p = some f) ↔ p ∈ list ∧ g.constant? p = none := by
  rw [← hq.mem_iff, ← exists_stepOf_iff_family? hq.indexed]
  constructor
  · rintro ⟨i, hi⟩
    rcases (hq.last p i hi).step with ⟨s, hs, hterminal⟩
    exact ⟨s, Array.mem_of_getElem? hs, hterminal⟩
  · rintro ⟨s, hs, rfl⟩
    exact hq.exists_index hs

/-- If nothing is listed twice, the index leads to the only step for a terminal. -/
theorem Program.Recorded.stepOf_eq (hq : q.Recorded g c scope known list) (hnodup : list.Nodup)
    (hs : q.steps[i]? = some s) : q.stepOf[s.terminal]? = some i := by
  rcases hq.exists_index (Array.mem_of_getElem? hs) with ⟨j, hj⟩
  rcases (hq.last s.terminal j hj).step with ⟨s', hs', hterminal⟩
  have hplace : ∀ (k : Nat) t, q.steps[k]? = some t →
      (q.steps.toList.map Step.terminal)[k]? = some t.terminal := by
    intro k t ht
    rw [List.getElem?_map, Array.getElem?_toList, ht, Option.map_some]
  -- The steps are for the terminals of a list without repeats, so their places are determined.
  have hterminals : (q.steps.toList.map Step.terminal).Nodup := hq.terminals ▸ hnodup.filter _
  have hlt : i < (q.steps.toList.map Step.terminal).length :=
    (List.getElem?_eq_some_iff.1 (hplace i s hs)).1
  rw [hj, (List.getElem?_inj hlt hterminals).1
    ((hplace i s hs).trans ((hterminal ▸ hplace j s' hs').symm))]

/-- What was told when a step was made is told in the end, if nothing is listed twice. -/
theorem Program.MadeAt.family? (hmade : q.MadeAt g c scope known list i s sofar r)
    (hq : q.Recorded g c scope known list) (hnodup : list.Nodup) {f : Family}
    (hf : sofar.family? p = some f) : q.family? p = some f := by
  rcases Option.bind_eq_some_iff.1 hf with ⟨j, hj, hproduces⟩
  rcases (hmade.index.last p j hj).step with ⟨s', hs', rfl⟩
  have hlt : j < i := hmade.size ▸ (Array.getElem?_eq_some_iff.1 hs').1
  rw [hmade.before j hlt] at hproduces hs'
  rw [Program.family?, hq.stepOf_eq hnodup hs', Option.bind_some, hproduces]

/-- A program that was compiled from the part gone through of another list, and that gives the same
    accounts of it as a complete program. -/
structure Program.Retells (g : Graph) (c : Catalog) (past : Schedule) (q complete : Program) :
    Prop extends q.Recorded g c none ∅ past where
  compiled : compile g c past = .ok q
  accounts : ∀ x ∈ past, g.constant? x = none →
    ∃ a, complete.account? x = some a ∧ q.account? x = some a

/-- When a step of the complete program was made, and when the one for the same terminal is about to
    be made again, the same families are told at the node. -/
theorem Program.Retells.alike (h : g.WellFormed) (hr : Rearrangement g r₁ r₂) {q₁ : Program}
    (hq₁ : q₁.Recorded g c none ∅ r₁) (hmade : q₁.MadeAt g c none ∅ r₁ i s sofar r)
    {before after : Schedule} (heq : r₂ = before ++ s.terminal :: after)
    (hq : q.Retells g c before q₁) : Alike g s.terminal sofar q := by
  rcases hmade.entry with ⟨past, rest, hlist, hcompiled⟩
  have hsofar := recorded_of_compileScoped h (hasTerminal_of_compileScoped hcompiled) hcompiled
  intro y hy hne p hp
  -- The lists agree on whether the partner was there, and it has a step if it was.
  have hsame : (∃ f, sofar.family? p = some f) ↔ ∃ f, q.family? p = some f := by
    rw [hsofar.exists_family?_iff, hq.exists_family?_iff, hr.mem_before hlist heq hy hne hp]
  cases hf : sofar.family? p with
  | none =>
    refine (Option.eq_none_iff_forall_ne_some.2 fun f hf' => ?_).symm
    rcases hsame.2 ⟨f, hf'⟩ with ⟨f', hf''⟩
    rw [hf] at hf''
    exact nomatch hf''
  | some f =>
    -- That step is in the complete program too, where its account is the one given again.
    rcases hq.exists_family?_iff.1 (hsame.1 ⟨f, hf⟩) with ⟨hbefore, hconstant⟩
    rcases hq.accounts p hbefore hconstant with ⟨a, ha₁, ha⟩
    rw [← hmade.family? hq₁ hr.nodup hf, family?_of_account? ha₁, family?_of_account? ha]

/-- The next entry of the other list is compiled as it was in the complete program. -/
theorem Program.Retells.step (h : g.WellFormed) (hc : ∀ r ∈ c.rules, r.fallback = none)
    (hr : Rearrangement g r₁ r₂) {q₁ : Program} (hq₁ : compile g c r₁ = .ok q₁)
    {before after : Schedule} (heq : r₂ = before ++ x :: after) (hq : q.Retells g c before q₁) :
    ∃ q', compileStep g c none ∅ q x = .ok q' ∧ q'.Retells g c (before ++ [x]) q₁ := by
  have hthere := hasTerminal_of_compileScoped hq₁
  have hrecorded := recorded_of_compileScoped h hthere hq₁
  have hmem : x ∈ r₁ := hr.perm.mem_iff.2 (heq ▸ List.mem_append_right before List.mem_cons_self)
  have hon : ∀ q', compileStep g c none ∅ q x = .ok q' → compile g c (before ++ [x]) = .ok q' := by
    intro q' hstep
    have hcompiled := hq.compiled
    rw [compile] at hcompiled ⊢
    rw [compileScoped_append, hcompiled, ok_bind, List.foldlM_cons, hstep, ok_bind]
    rfl
  cases hconstant : g.constant? x with
  | some value =>
    have hstep : compileStep g c none ∅ q x = .ok q := by
      rcases compileStep_eq h hq.indexed (hthere x hmem) c none ∅ with ⟨_, _, _, _, _, _, hstep⟩
      rw [hstep, hconstant]
    refine ⟨q, hstep, hq.skip hconstant, hon q hstep, fun z hz hcomputed => ?_⟩
    rcases List.mem_append.1 hz with hz | hz
    · exact hq.accounts z hz hcomputed
    · rw [List.mem_singleton.1 hz, hconstant] at hcomputed
      exact nomatch hcomputed
  | none =>
    -- The step for the terminal in the complete program shows what the new one comes to.
    rcases hrecorded.mem_iff.2 ⟨hmem, hconstant⟩ with ⟨s, hs, rfl⟩
    rcases Array.getElem?_of_mem hs with ⟨i, hi⟩
    rcases hrecorded.made i s hi with ⟨sofar, r, hmade⟩
    have halike := hq.alike h hr hrecorded hmade heq
    rcases compileStep_alike h hc hmade.index hq.toIndexesLast halike hmade.chosen with
      ⟨s', names, hstep, hchosen, hterminal, hrule, hproduces, hnames, hnames'⟩
    have happend := hq.toRecorded.append hq.compiled hchosen
    rw [hterminal] at happend
    refine ⟨q.append s', hstep, happend, hon _ hstep, fun z hz hcomputed => ?_⟩
    by_cases hz' : s.terminal = z
    · -- The step that was added, and the step it was read off from, name the same.
      subst hz'
      refine ⟨⟨s.rule, s.produces, names⟩, account?_eq (hrecorded.stepOf_eq hr.nodup hi) hi
        (mapM_named?_mono hmade.size hmade.before hnames), ?_⟩
      rw [← hrule, ← hproduces, ← hterminal]
      exact account?_append hnames'
    · have hold : z ∈ before := (List.mem_append.1 hz).resolve_right fun hz =>
        hz' (List.mem_singleton.1 hz).symm
      rcases hq.accounts z hold hcomputed with ⟨a, ha₁, ha⟩
      exact ⟨a, ha₁, account?_append_of_ne (hterminal ▸ hz') ha⟩

/-- What is compiled in one order is compiled in the other, and both programs say the same of what
    they compute. -/
theorem exists_compiled (h : g.WellFormed) (hc : ∀ r ∈ c.rules, r.fallback = none)
    (hr : Rearrangement g r₁ r₂) {q₁ : Program} (hq₁ : compile g c r₁ = .ok q₁) :
    ∃ q₂, compile g c r₂ = .ok q₂ ∧ q₂.Retells g c r₂ q₁ := by
  -- The first program is complete, and the second one grows along its own list.
  have hrun := foldlM_cases (fun past q => q.Retells g c past q₁) (fun _ _ => False)
    (f := compileStep g c none ∅) (l := r₂) (b := { Program.empty with region := none })
    ⟨recorded_empty g c none ∅, rfl, fun x hx => absurd hx List.not_mem_nil⟩
    fun before x after q heq hq => Or.inl (hq.step h hc hr hq₁ heq)
  rcases hrun with hok | ⟨_, _, _, hfalse, _⟩
  · exact hok
  · exact hfalse.elim

/-- Compilation does not depend on the order of a list, as long as the same partners of a node come
    before what is computed there: where no rule has a fallback, one of two such lists is compiled
    if and only if the other one is, and then every terminal has in both programs the same rule, the
    same family, and the same arguments up to the places of steps. Exactly the terminals listed
    that belong to no constant have them. -/
theorem compile_rearranged (hg : Reachable g) (hc : ∀ r ∈ c.rules, r.fallback = none)
    (hr : Rearrangement g r₁ r₂) :
    ((∃ q, compile g c r₁ = .ok q) ↔ ∃ q, compile g c r₂ = .ok q) ∧
    ∀ q₁ q₂, compile g c r₁ = .ok q₁ → compile g c r₂ = .ok q₂ → ∀ x,
      q₁.account? x = q₂.account? x ∧
        ((∃ a, q₁.account? x = some a) ↔ x ∈ r₁ ∧ g.constant? x = none) := by
  have h := Graph.wellFormed_of_reachable hg
  refine ⟨⟨?_, ?_⟩, fun q₁ q₂ hq₁ hq₂ x => ?_⟩
  · rintro ⟨q₁, hq₁⟩
    rcases exists_compiled h hc hr hq₁ with ⟨q₂, hq₂, _⟩
    exact ⟨q₂, hq₂⟩
  · rintro ⟨q₂, hq₂⟩
    rcases exists_compiled h hc hr.symm hq₂ with ⟨q₁, hq₁, _⟩
    exact ⟨q₁, hq₁⟩
  rcases exists_compiled h hc hr hq₁ with ⟨q₂', hq₂', hretells⟩
  rcases Except.ok.inj (hq₂.symm.trans hq₂') with rfl
  have hrecorded := recorded_of_compileScoped h (hasTerminal_of_compileScoped hq₁) hq₁
  -- An account in either program is of something listed, and the lists have the same members.
  have hlisted₁ : ∀ a, q₁.account? x = some a → x ∈ r₁ ∧ g.constant? x = none := fun a ha =>
    hrecorded.exists_family?_iff.1 ⟨a.produces, family?_of_account? ha⟩
  have hlisted₂ : ∀ a, q₂.account? x = some a → x ∈ r₁ ∧ g.constant? x = none := fun a ha =>
    (hretells.exists_family?_iff.1 ⟨a.produces, family?_of_account? ha⟩).imp_left
      hr.perm.mem_iff.2
  by_cases hx : x ∈ r₁ ∧ g.constant? x = none
  · rcases hretells.accounts x (hr.perm.mem_iff.1 hx.1) hx.2 with ⟨a, ha₁, ha₂⟩
    exact ⟨ha₁.trans ha₂.symm, fun _ => hx, fun _ => ⟨a, ha₁⟩⟩
  · have hnone₁ := Option.eq_none_iff_forall_ne_some.2 fun a ha => hx (hlisted₁ a ha)
    have hnone₂ := Option.eq_none_iff_forall_ne_some.2 fun a ha => hx (hlisted₂ a ha)
    exact ⟨hnone₁.trans hnone₂.symm, fun ⟨a, ha⟩ => hlisted₁ a ha, fun hx' => absurd hx' hx⟩

/-- Both directions of a row, computed side by side. -/
def sideBySide : Schedule := [⟨0⟩, ⟨3⟩, ⟨2⟩, ⟨1⟩]

/-- Both directions of a row, computed one after the other. -/
def oneByOne : Schedule := [⟨3⟩, ⟨1⟩, ⟨0⟩, ⟨2⟩]

/-- The relay sends on the message of the source, which is the first step in one program and the
    third one in the other. -/
theorem compile_rearranged_relay :
    Reachable relayGraph ∧ (∀ r ∈ relayCatalog.rules, r.fallback = none) ∧
      Rearrangement relayGraph sideBySide oneByOne ∧
      ∃ q₁ q₂, compile relayGraph relayCatalog sideBySide = .ok q₁ ∧
        compile relayGraph relayCatalog oneByOne = .ok q₂ ∧
        q₁.steps[2]? = some ⟨⟨2⟩, ⟨2⟩, .gaussian, [.step 0, .absent]⟩ ∧
        q₂.steps[3]? = some ⟨⟨2⟩, ⟨2⟩, .gaussian, [.step 2, .absent]⟩ ∧
        ∃ a, q₁.account? ⟨2⟩ = some a ∧ q₂.account? ⟨2⟩ = some a := by
  have hc : ∀ r ∈ relayCatalog.rules, r.fallback = none := by decide +kernel
  -- There is one partner at most to go through at each terminal.
  have hagree : ∀ x ∈ sideBySide, ∀ y ∈ relayGraph.ports x, y ≠ x →
      ∀ p ∈ relayGraph.partner? y, p ∈ sideBySide →
        (sideBySide.idxOf p < sideBySide.idxOf x ↔ oneByOne.idxOf p < oneByOne.idxOf x) := by
    decide +kernel
  have hr : Rearrangement relayGraph sideBySide oneByOne := ⟨by decide, by decide, hagree⟩
  have hfirst : ((compile relayGraph relayCatalog sideBySide).toOption.map fun q =>
      q.steps[2]?) = some (some ⟨⟨2⟩, ⟨2⟩, .gaussian, [.step 0, .absent]⟩) := by
    decide +kernel
  have hsecond : ((compile relayGraph relayCatalog oneByOne).toOption.map fun q =>
      q.steps[3]?) = some (some ⟨⟨2⟩, ⟨2⟩, .gaussian, [.step 2, .absent]⟩) := by
    decide +kernel
  rcases Option.map_eq_some_iff.1 hfirst with ⟨q₁, hq₁, hs₁⟩
  rcases Option.map_eq_some_iff.1 hsecond with ⟨q₂, hq₂, hs₂⟩
  rw [toOption_eq_some] at hq₁ hq₂
  refine ⟨reachable_relayGraph, hc, hr, q₁, q₂, hq₁, hq₂, hs₁, hs₂, ?_⟩
  have hx : ⟨2⟩ ∈ sideBySide ∧ relayGraph.constant? ⟨2⟩ = none := by decide +kernel
  rcases (compile_rearranged reachable_relayGraph hc hr).2 q₁ q₂ hq₁ hq₂ ⟨2⟩ with ⟨hsame, hlisted⟩
  rcases hlisted.2 hx with ⟨a, ha⟩
  exact ⟨a, ha, hsame ▸ ha⟩

end Runs

end MessagePlan
