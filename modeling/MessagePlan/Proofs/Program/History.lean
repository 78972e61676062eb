import MessagePlan.Proofs.Program.Inputs
import MessagePlan.Proofs.Rule.LeastMatch

/-!
# How Programs Come About

A program is compiled from a list, entry by entry, and says nothing about the way it was
compiled. But it can be read back. An entry that belongs to a constant adds nothing, and every
other one adds the step behind those there are. So the step in a place was made from an entry of
the list when exactly the steps before it were there, and it refers to nothing else.

`Program.MadeAt` is what there was to see when a step was made: what came before it in the list,
the program up to there, and the rule. `Program.Recorded` says of a whole program that it was made
like this, and by `recorded_of_compileScoped` every program was that was compiled from terminals of
the graph, whatever their order and however often they are listed.

## Main definitions

* `Step.Chosen`: A step has the rule that the catalog chooses, and the inputs of the rule.
* `Program.LastFor`: The last step for a terminal.
* `Program.IndexesLast`: The index of a program leads to the last step for each terminal.
* `Program.MadeAt`: What there was when the step in a place was made.
* `Program.Recorded`: A program has the steps that a list leads to.

## Theorems

* `Step.Chosen.argument`: An argument is left out where nothing arrives, or it is the input.
* `compileStep_eq`, `compileStep_eq_ok`: What a step of compiling does.
* `Program.Recorded.append`: With a step more the rest stays as it was.
* `recorded_of_compileScoped`: Whatever is compiled has the steps that its list leads to.
-/

namespace MessagePlan

/-- A step with the rule that the catalog chooses for what arrives behind the steps of `q`, and with
    the inputs of the rule, for a terminal that belongs to no constant. -/
structure Step.Chosen (g : Graph) (c : Catalog) (scope : Option Region) (known : KnownFamilies)
    (q : Program) (s : Step) (r : Rule) : Prop where
  there : g.hasTerminal s.terminal = true
  computed : g.constant? s.terminal = none
  resolved : ∃ kind role, g.kind? s.terminal = some kind ∧ g.role? s.terminal = some role ∧
    c.resolve kind role (g.signature q scope known s.terminal) = .ok (r, s.rule)
  produces : s.produces = r.produces
  given : assemble g s.terminal r q.stepOf scope = .ok s.arguments

/-- The last step for a terminal is the one in place `i`. -/
structure Program.LastFor (q : Program) (x : TerminalId) (i : Nat) : Prop where
  step : ∃ s, q.steps[i]? = some s ∧ s.terminal = x
  last : ∀ (j : Nat) s, i < j → q.steps[j]? = some s → s.terminal ≠ x

/-- The index of a program leads to the last step for each terminal that has steps. -/
structure Program.IndexesLast (q : Program) : Prop where
  last : ∀ (x : TerminalId) (i : Nat), q.stepOf[x]? = some i → q.LastFor x i
  missing : ∀ x : TerminalId, q.stepOf[x]? = none → ∀ s ∈ q.steps, s.terminal ≠ x

/-- The step in place `i` was made from an entry of a list by the rule `r`, when the entries before
    it had led to `sofar`, which has the steps before it. -/
structure Program.MadeAt (g : Graph) (c : Catalog) (scope : Option Region) (known : KnownFamilies)
    (list : Schedule) (q : Program) (i : Nat) (s : Step) (sofar : Program) (r : Rule) : Prop where
  entry : ∃ past rest, list = past ++ s.terminal :: rest ∧
    compileScoped g c past scope known = .ok sofar
  size : sofar.steps.size = i
  before : ∀ j < i, sofar.steps[j]? = q.steps[j]?
  index : sofar.IndexesLast
  chosen : s.Chosen g c scope known sofar r

/-- A program with a step for each entry of a list that belongs to no constant, in order, and with
    an index of the last ones. -/
structure Program.Recorded (g : Graph) (c : Catalog) (scope : Option Region)
    (known : KnownFamilies) (list : Schedule) (q : Program) : Prop extends q.IndexesLast where
  region : q.region = scope.map Region.id
  terminals : q.steps.toList.map Step.terminal = list.filter fun x => (g.constant? x).isNone
  made : ∀ (i : Nat) s, q.steps[i]? = some s → ∃ sofar r, q.MadeAt g c scope known list i s sofar r

section Steps

variable {g : Graph} {c : Catalog} {q q' : Program} {scope : Option Region}
  {known : KnownFamilies} {x y : TerminalId} {s : Step} {r : Rule} {k : Nat}

theorem Step.Chosen.fits (hs : s.Chosen g c scope known q r) :
    r.fits (g.signature q scope known s.terminal) = true := by
  rcases hs.resolved with ⟨kind, role, _, _, hres⟩
  exact (Catalog.mem_candidates.1 (Catalog.mem_candidates_of_resolve hres)).2.2

/-- The argument for a terminal other than the one computed is left out, and then nothing arrives
    there, or it is the input at the terminal. -/
theorem Step.Chosen.argument (h : g.WellFormed) (hs : s.Chosen g c scope known q r)
    (hy : (g.ports s.terminal)[k]? = some y) (hne : y ≠ s.terminal) :
    ∃ a, s.arguments[k]? = some a ∧
      (Skips g r s.terminal y k ∧ a = .absent ∧ g.arrival q scope known y = .absent ∨
        ¬ Skips g r s.terminal y k ∧ g.input? q.stepOf scope y = some a) := by
  rcases assemble_getElem? h hs.there hs.given hy with ⟨a, ha, ⟨hskip, rfl⟩ | hinput⟩
  · -- What is skipped has the pattern *absent*, and the rule fits.
    rcases accepts_patternAt? hs.fits hy hne with ⟨pattern, hpattern, haccepts⟩
    rcases Option.some.inj (hpattern.symm.trans (hskip.1.resolve_left hne)) with rfl
    exact ⟨.absent, ha, Or.inl ⟨hskip, rfl, Pattern.eq_of_absent_accepts haccepts⟩⟩
  · exact ⟨a, ha, Or.inr hinput⟩

/-- A step of compiling leaves a constant alone; else it asks the catalog for a rule that fits what
    arrives at the other terminals of the node, and gives the rule its inputs. -/
theorem compileStep_eq (h : g.WellFormed) (hq : q.Indexed) (hx : g.hasTerminal x = true)
    (c : Catalog) (scope : Option Region) (known : KnownFamilies) :
    ∃ kind role l, g.kind? x = some kind ∧ g.role? x = some role ∧
      g.label x = (.ok l : Except (Failure CompileError) String) ∧
      compileStep g c scope known q x =
        match g.constant? x with
        | some _ => .ok q
        | none =>
          match c.resolve kind role (g.signature q scope known x) with
          | .error e => refuse (.dispatch l e)
          | .ok found =>
            asPart .assembly (assemble g x found.1 q.stepOf scope) >>= fun arguments =>
              .ok (q.append ⟨x, found.2, found.1.produces, arguments⟩) := by
  rcases Graph.terminal_eq_ok (ε := CompileError) hx with ⟨terminal, hget, hn, _⟩
  rcases h.node_eq_ok (ε := CompileError) hn with ⟨node, hnode, hports, hconstant⟩
  rcases h.label_eq_ok (ε := CompileError) x with ⟨l, hl⟩
  refine ⟨node.kind, terminal.role, l, ?_, ?_, hl, ?_⟩
  · rw [Graph.kind?, hn, Option.bind_some, handled_eq_ok.1 hnode, Option.map_some]
  · rw [Graph.role?, handled_eq_ok.1 hget, Option.map_some]
  -- Every look succeeds in a well-formed graph, so that only the catalog and the inputs are left.
  simp only [compileStep, hget, ok_bind, hnode, Node.isConstant, hconstant, hports,
    signatureFor_eq_ok h hq x, hl]
  cases g.constant? x with
  | some value => rfl
  | none =>
    simp only [Option.isSome_none, Bool.false_eq_true, if_false]
    cases c.resolve node.kind terminal.role (g.signature q scope known x) with
    | error e => rfl
    | ok found => rfl

/-- A step that is compiled belongs to a constant and adds nothing, or it adds a step. -/
theorem compileStep_eq_ok (h : g.WellFormed) (hq : q.Indexed) (hx : g.hasTerminal x = true)
    (hstep : compileStep g c scope known q x = .ok q') :
    (∃ value, g.constant? x = some value ∧ q' = q) ∨
      ∃ s r, s.terminal = x ∧ s.Chosen g c scope known q r ∧ q' = q.append s := by
  rcases compileStep_eq h hq hx c scope known with ⟨kind, role, l, hkind, hrole, _, heq⟩
  rw [heq] at hstep
  cases hconstant : g.constant? x with
  | some value =>
    rw [hconstant] at hstep
    exact Or.inl ⟨value, rfl, (Except.ok.inj hstep).symm⟩
  | none =>
    rw [hconstant] at hstep
    rcases hres : c.resolve kind role (g.signature q scope known x) with e | ⟨r, id⟩
    · rw [hres] at hstep
      exact nomatch hstep
    · rw [hres] at hstep
      rcases bind_eq_ok.1 hstep with ⟨arguments, ha, hstep⟩
      -- The step that is added is made of what was looked up.
      have hchosen : Step.Chosen g c scope known q ⟨x, id, r.produces, arguments⟩ r :=
        ⟨hx, hconstant, ⟨kind, role, hkind, hrole, hres⟩, rfl, asPart_eq_ok.1 ha⟩
      exact Or.inr ⟨_, r, rfl, hchosen, (Except.ok.inj hstep).symm⟩

end Steps

namespace Program

variable {q : Program} {x : TerminalId} {i : Nat}

/-- A step that is appended stands behind all steps there are. -/
theorem getElem?_append_steps (q : Program) (s : Step) (j : Nat) :
    (q.append s).steps[j]? = if j = q.steps.size then some s else q.steps[j]? := by
  simp only [append, Array.getElem?_push]

theorem LastFor.append (hlast : q.LastFor x i) {s : Step} (hs : s.terminal ≠ x) :
    (q.append s).LastFor x i := by
  rcases hlast.step with ⟨s', hs', hterminal⟩
  have hlt : i < q.steps.size := (Array.getElem?_eq_some_iff.1 hs').1
  refine ⟨⟨s', ?_, hterminal⟩, fun j s'' hj hget => ?_⟩
  · rw [getElem?_append_steps, if_neg (Nat.ne_of_lt hlt), hs']
  · rw [getElem?_append_steps] at hget
    split at hget
    · rw [← Option.some.inj hget]
      exact hs
    · exact hlast.last j s'' hj hget

/-- The step that was appended is the last one for its terminal. -/
theorem lastFor_append (q : Program) (s : Step) :
    (q.append s).LastFor s.terminal q.steps.size := by
  refine ⟨⟨s, by rw [getElem?_append_steps, if_pos rfl], rfl⟩, fun j s' hj hget => ?_⟩
  rw [getElem?_append_steps, if_neg (Nat.ne_of_gt hj),
    Array.getElem?_eq_none (Nat.le_of_lt hj)] at hget
  exact nomatch hget

namespace IndexesLast

theorem indexed (hq : q.IndexesLast) : q.Indexed := by
  intro p i hi
  rcases (hq.last p i hi).step with ⟨s, hs, _⟩
  exact ⟨s, hs⟩

theorem exists_index (hq : q.IndexesLast) {s : Step} (hs : s ∈ q.steps) :
    ∃ i : Nat, q.stepOf[s.terminal]? = some i := by
  cases hi : q.stepOf[s.terminal]? with
  | none => exact absurd rfl (hq.missing s.terminal hi s hs)
  | some i => exact ⟨i, rfl⟩

theorem append (hq : q.IndexesLast) (s : Step) : (q.append s).IndexesLast where
  last x i hi := by
    rw [getElem?_append_stepOf] at hi
    -- The new step is the last one for its terminal, and the others keep theirs.
    by_cases hx : s.terminal = x
    · rw [if_pos hx] at hi
      rw [← Option.some.inj hi, ← hx]
      exact lastFor_append q s
    · rw [if_neg hx] at hi
      exact (hq.last x i hi).append hx
  missing x hx s' hs' := by
    rw [getElem?_append_stepOf] at hx
    by_cases hterminal : s.terminal = x
    · rw [if_pos hterminal] at hx
      exact nomatch hx
    · rw [if_neg hterminal] at hx
      rcases Array.mem_push.1 hs' with hold | rfl
      · exact hq.missing x hx s' hold
      · exact hterminal

end IndexesLast

end Program

theorem indexesLast_empty (region : Option RegionId) :
    Program.IndexesLast { Program.empty with region := region } where
  last x i hi := by
    rw [Program.empty, Std.ExtTreeMap.getElem?_empty] at hi
    exact nomatch hi
  missing x _ s hs := absurd hs (Array.not_mem_empty s)

section Runs

variable {g : Graph} {c : Catalog} {q q' : Program} {scope : Option Region}
  {known : KnownFamilies} {x : TerminalId} {s : Step} {r : Rule} {past list : Schedule} {i : Nat}

theorem recorded_empty (g : Graph) (c : Catalog) (scope : Option Region) (known : KnownFamilies) :
    Program.Recorded g c scope known [] { Program.empty with region := scope.map Region.id } where
  toIndexesLast := indexesLast_empty _
  region := rfl
  terminals := rfl
  made _ _ hs := nomatch hs

/-- What there was when a step was made does not change when the list and the program go on. -/
theorem Program.MadeAt.mono {sofar : Program} (hmade : q.MadeAt g c scope known list i s sofar r)
    (rest : Schedule) (hsteps : ∀ j < i, q'.steps[j]? = q.steps[j]?) :
    q'.MadeAt g c scope known (list ++ rest) i s sofar r where
  entry := by
    rcases hmade.entry with ⟨past, rest', rfl, hsofar⟩
    exact ⟨past, rest' ++ rest, by rw [List.append_assoc, List.cons_append], hsofar⟩
  size := hmade.size
  before j hj := (hmade.before j hj).trans (hsteps j hj).symm
  index := hmade.index
  chosen := hmade.chosen

namespace Program.Recorded

/-- An entry that belongs to a constant leads to no step. -/
theorem skip (hq : q.Recorded g c scope known past) {value : Value}
    (hconstant : g.constant? x = some value) : q.Recorded g c scope known (past ++ [x]) where
  toIndexesLast := hq.toIndexesLast
  region := hq.region
  terminals := by
    simp only [List.filter_append, List.filter_cons, hconstant, Option.isNone_some,
      Bool.false_eq_true, if_false, List.filter_nil, List.append_nil, hq.terminals]
  made i s hs := by
    rcases hq.made i s hs with ⟨sofar, r, hmade⟩
    exact ⟨sofar, r, hmade.mono [x] fun _ _ => rfl⟩

/-- A step more is made from the program there is, and the steps there are stay as they are. -/
theorem append (hq : q.Recorded g c scope known past)
    (hcompiled : compileScoped g c past scope known = .ok q)
    (hs : s.Chosen g c scope known q r) :
    (q.append s).Recorded g c scope known (past ++ [s.terminal]) where
  toIndexesLast := hq.toIndexesLast.append s
  region := hq.region
  terminals := by
    rw [List.filter_append, ← hq.terminals, Program.append, Array.toList_push, List.map_append]
    simp only [List.filter_cons, hs.computed, Option.isNone_none, if_true, List.filter_nil,
      List.map_cons, List.map_nil]
  made i s' hs' := by
    have hold : ∀ j < q.steps.size, (q.append s).steps[j]? = q.steps[j]? := fun j hj => by
      rw [getElem?_append_steps, if_neg (Nat.ne_of_lt hj)]
    rw [getElem?_append_steps] at hs'
    split at hs'
    · rename_i hi
      rcases Option.some.inj hs' with rfl
      exact ⟨q, r, ⟨past, [], rfl, hcompiled⟩, hi.symm, fun j hj => (hold j (hi ▸ hj)).symm,
        hq.toIndexesLast, hs⟩
    · rcases hq.made i s' hs' with ⟨sofar, r', hmade⟩
      have hi : i < q.steps.size := (Array.getElem?_eq_some_iff.1 hs').1
      exact ⟨sofar, r', hmade.mono [s.terminal] fun j hj => hold j (Nat.lt_trans hj hi)⟩

theorem mem_iff (hq : q.Recorded g c scope known list) :
    (∃ s ∈ q.steps, s.terminal = x) ↔ x ∈ list ∧ g.constant? x = none := by
  have hmem : x ∈ q.steps.toList.map Step.terminal ↔ x ∈ list ∧ g.constant? x = none := by
    rw [hq.terminals, List.mem_filter, Option.isNone_iff_eq_none]
  rw [← hmem, List.mem_map]
  simp only [Array.mem_toList_iff]

theorem exists_chosen (hq : q.Recorded g c scope known list) (hs : s ∈ q.steps) :
    ∃ sofar r, s.Chosen g c scope known sofar r := by
  rcases Array.getElem?_of_mem hs with ⟨i, hi⟩
  rcases hq.made i s hi with ⟨sofar, r, hmade⟩
  exact ⟨sofar, r, hmade.chosen⟩

end Program.Recorded

/-- Whatever the order of a list and however often a terminal is in it, the program that it is
    compiled to has the steps that the list leads to. -/
theorem recorded_of_compileScoped (h : g.WellFormed) (hthere : ∀ x ∈ list, g.hasTerminal x = true)
    (hq : compileScoped g c list scope known = .ok q) : q.Recorded g c scope known list := by
  -- The entries gone through have been compiled to the program there is.
  have hrun : compileScoped g c list scope known = .ok q ∧ q.Recorded g c scope known list := by
    refine foldlM_preserves
      (fun past q => compileScoped g c past scope known = .ok q ∧ q.Recorded g c scope known past)
      ⟨rfl, recorded_empty g c scope known⟩ ?_ hq
    rintro past x rest q q' rfl ⟨hcompiled, hrecorded⟩ hstep
    have hx : x ∈ past ++ x :: rest := List.mem_append_right past List.mem_cons_self
    refine ⟨?_, ?_⟩
    · rw [compileScoped_append, hcompiled, ok_bind, List.foldlM_cons, hstep, ok_bind]
      rfl
    · rcases compileStep_eq_ok h hrecorded.indexed (hthere x hx) hstep with
        ⟨value, hconstant, rfl⟩ | ⟨s, r, rfl, hchosen, rfl⟩
      · exact hrecorded.skip hconstant
      · exact hrecorded.append hcompiled hchosen
  exact hrun.2

end Runs

end MessagePlan
