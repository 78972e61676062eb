import MessagePlan.Proofs.Program.History
import MessagePlan.Proofs.Schedule.Targets

/-!
# What a Part of a Program Supplies

The invariant of compiling is `Program.Supplies`. When a part of a list has been compiled, every
terminal of it has a step, except those of constants, whose value needs none. If the list is in
order, the needs of the next terminal are in that part. So at each of the other terminals of its
node there is a constant, a step, a message or the edge of another region, and the lookup of
inputs finds it.

What is left to go wrong does not depend on the order: the catalog may know no rule for what arrives
at the node, or the fallback of the rule that it chooses may ask for a role that the node has not
got, or for what arrives at the very terminal that is computed, which no schedule provides for.
`StepRefusal` says which, at the step that fails and behind the program compiled so far, together
with all that the message about it says.

## Main definitions

* `Program.Supplies`: A program has a step wherever one may be asked for.
* `ChosenAt`: The rule that the catalog chooses for the message out of a terminal.
* `StepRefusal`: What can go wrong at a step.
* `RefusedAt`: A list is compiled up to an entry, and there the step is refused.

## Theorems

* `exists_input?`: There is an input where all that is needed has been computed.
* `compileStep_cases`: A step whose needs are supplied is compiled, or it is refused.
* `supplies_of_compileScoped`: What a list is compiled to supplies it.
* `refusedAt_of_compileScoped`: A workable list that is not compiled is refused at an entry.
-/

namespace MessagePlan

/-- A program has a step, which its index leads to, for each terminal of a list that does not
    belong to a constant. -/
structure Program.Supplies (g : Graph) (before : List TerminalId) (q : Program) : Prop
    extends q.IndexesLast where
  covers : ∀ p ∈ before, g.constant? p = none → ∃ i, q.stepOf[p]? = some i

/-- The catalog chooses a rule for the message out of a terminal, which belongs to no constant, for
    what arrives at its node behind the steps of `q`. -/
structure ChosenAt (g : Graph) (c : Catalog) (scope : Option Region) (known : KnownFamilies)
    (q : Program) (x : TerminalId) (r : Rule) : Prop where
  computed : g.constant? x = none
  resolved : ∃ kind role id, g.kind? x = some kind ∧ g.role? x = some role ∧
    c.resolve kind role (g.signature q scope known x) = .ok (r, id)

/-- What can go wrong at the step for the message out of `x` behind the steps of `q`: no rule of the
    catalog fits what arrives at its node; or one is chosen, and its fallback asks in vain for a
    role; or one is chosen, its fallback requires what arrives at `x` itself, and nothing does. -/
inductive StepRefusal (g : Graph) (c : Catalog) (scope : Option Region) (known : KnownFamilies)
    (q : Program) (x : TerminalId) : Failure CompileError → Prop
  | noRule {kind role l : String} (hcomputed : g.constant? x = none)
      (hkind : g.kind? x = some kind) (hrole : g.role? x = some role)
      (hnone : c.candidates kind role (g.signature q scope known x) = [])
      (hl : g.label x = (.ok l : Except (Failure CompileError) String)) :
    StepRefusal g c scope known q x
      (.cause (.dispatch l (.noneApplies kind role (g.signature q scope known x).text)))
  | unknownRole {r : Rule} {node : Node} {role : String}
      (hchosen : ChosenAt g c scope known q x r) (hvain : AsksInVain g r x node role) :
    StepRefusal g c scope known q x (.cause (.assembly (.unknownRole r.name node.name role)))
  | unavailable {r : Rule} {l : String} (hchosen : ChosenAt g c scope known q x r)
      (hself : Requires g r x x) (hnone : g.input? q.stepOf scope x = none)
      (hl : g.label ((g.partner? x).getD x) = (.ok l : Except (Failure AssemblyError) String)) :
    StepRefusal g c scope known q x
      (.cause (.assembly (.unavailable r.name ((g.partner? x).getD x) l)))

/-- A list is compiled up to an entry for `x`, and there the step is refused. -/
def RefusedAt (g : Graph) (c : Catalog) (scope : Option Region) (known : KnownFamilies)
    (list : Schedule) (x : TerminalId) (e : Failure CompileError) : Prop :=
  ∃ before after q, list = before ++ x :: after ∧
    compileScoped g c before scope known = .ok q ∧
    compileStep g c scope known q x = .error e ∧ StepRefusal g c scope known q x e

section Inputs

variable {g : Graph} {q : Program} {scope : Option Region} {known : KnownFamilies}
  {earlier : StepIndex} {y p : TerminalId}

/-- There is an input where a terminal has a partner, and what is needed there has been computed
    unless it is a constant. -/
theorem exists_input? (h : g.WellFormed) (hp : g.partner? y = some p)
    (hneed : NeededAt g scope y p → g.constant? p = none → ∃ i, earlier[p]? = some i) :
    ∃ a, g.input? earlier scope y = some a := by
  rcases h.edge?_isSome_of_partner? hp with ⟨e, he⟩
  unfold Graph.input?
  rw [hp, Option.bind_some, he]
  cases hconstant : g.constant? p with
  | some value => exact ⟨_, rfl⟩
  | none =>
    by_cases hscope : inScope scope (some e) = true
    · simp only [hscope, if_true]
      cases hm : g.message? p with
      | none =>
        -- Without a message it is needed, and what is needed has been computed.
        have hin : Inside g scope y := (inScope_eq_true_iff h hp).1 (he ▸ hscope)
        rcases hneed ⟨hin, hp, hm⟩ hconstant with ⟨i, hi⟩
        exact ⟨.step i, by rw [hi]⟩
      | some m =>
        cases earlier[p]? with
        | some i => exact ⟨_, rfl⟩
        | none => exact ⟨_, rfl⟩
    · simp only [Bool.eq_false_iff.2 hscope, Bool.false_eq_true, if_false]
      exact ⟨_, rfl⟩

end Inputs

namespace Program.Supplies

variable {g : Graph} {q : Program} {scope : Option Region} {x y : TerminalId}
  {before : List TerminalId}

/-- A terminal of a constant needs no step. -/
theorem skip (hs : q.Supplies g before) {value : Value} (hconstant : g.constant? x = some value) :
    q.Supplies g (before ++ [x]) where
  toIndexesLast := hs.toIndexesLast
  covers p hp hnone := by
    rcases List.mem_append.1 hp with hp | hp
    · exact hs.covers p hp hnone
    · rw [List.mem_singleton.1 hp, hconstant] at hnone
      exact nomatch hnone

/-- A step more supplies its terminal, and those that were supplied before. -/
theorem append (hs : q.Supplies g before) (s : Step) :
    (q.append s).Supplies g (before ++ [s.terminal]) where
  toIndexesLast := hs.toIndexesLast.append s
  covers p hp hnone := by
    -- The index changes at the terminal of the step alone.
    rw [Program.getElem?_append_stepOf]
    by_cases hps : s.terminal = p
    · exact ⟨_, if_pos hps⟩
    · rw [if_neg hps]
      rcases List.mem_append.1 hp with hp | hp
      · exact hs.covers p hp hnone
      · exact absurd (List.mem_singleton.1 hp).symm hps

/-- There is an input at each terminal of a node but the one computed, if what is needed there is
    supplied and no terminal of the node is loose. -/
theorem input? (h : g.WellFormed) (hs : q.Supplies g before)
    (hneeds : ∀ p, Needs g scope x p → p ∈ before) (htight : ∀ y, ¬ Loose g x y)
    (hy : y ∈ g.ports x) (hyx : y ≠ x) : ∃ a, g.input? q.stepOf scope y = some a := by
  cases hp : g.partner? y with
  | none => exact absurd ⟨hy, hyx, hp⟩ (htight y)
  | some p =>
    -- What is needed is in the list, and so it has a step unless it is a constant.
    refine exists_input? h hp ?_
    intro hneed hnone
    exact hs.covers p (hneeds p ⟨y, hy, hyx, hneed⟩) hnone

end Program.Supplies

theorem supplies_empty (g : Graph) (region : Option RegionId) :
    Program.Supplies g [] { Program.empty with region := region } where
  toIndexesLast := indexesLast_empty region
  covers _ hp := absurd hp List.not_mem_nil

section Steps

variable {g : Graph} {c : Catalog} {q q' : Program} {scope : Option Region} {x : TerminalId}
  {before : List TerminalId}

theorem Program.Supplies.step (h : g.WellFormed) (hs : q.Supplies g before)
    (hx : g.hasTerminal x = true) {known : KnownFamilies}
    (hstep : compileStep g c scope known q x = .ok q') : q'.Supplies g (before ++ [x]) := by
  rcases compileStep_eq_ok h hs.indexed hx hstep with
    ⟨value, hconstant, rfl⟩ | ⟨s, r, rfl, _, rfl⟩
  · exact hs.skip hconstant
  · exact hs.append s

/-- A step whose needs are supplied is compiled, or it is refused. -/
theorem compileStep_cases (h : g.WellFormed) (hc : c.Decisive) (hs : q.Supplies g before)
    (hx : g.hasTerminal x = true) (hneeds : ∀ p, Needs g scope x p → p ∈ before)
    (htight : ∀ y, ¬ Loose g x y) (known : KnownFamilies) :
    (∃ q', compileStep g c scope known q x = .ok q') ∨
      ∃ e, StepRefusal g c scope known q x e ∧ compileStep g c scope known q x = .error e := by
  rcases compileStep_eq h hs.indexed hx c scope known with ⟨kind, role, l, hkind, hrole, hl, heq⟩
  rw [heq]
  cases hcomputed : g.constant? x with
  | some value => exact Or.inl ⟨q, rfl⟩
  | none =>
    rcases hres : c.resolve kind role (g.signature q scope known x) with e | ⟨r, id⟩
    · -- A decisive catalog is never in doubt, so it has no rule at all.
      rcases (Catalog.resolve_eq_error_iff hc).1 hres with ⟨hnone, rfl⟩
      exact Or.inr ⟨_, .noRule hcomputed hkind hrole hnone hl, rfl⟩
    · have hchosen : ChosenAt g c scope known q x r :=
        ⟨hcomputed, kind, role, id, hkind, hrole, hres⟩
      rcases Catalog.mem_candidates.1 (Catalog.mem_candidates_of_resolve hres) with
        ⟨_, _, hfits⟩
      -- A rule that fits has a pattern for each of the other terminals.
      have hlength : r.inbounds.length + 1 = (g.ports x).length := by
        rw [length_of_acceptsAll hfits, Graph.signature, List.length_map, h.length_others hx]
      rcases assemble_cases h hx hlength (fun y => hs.input? h hneeds htight) with
        ⟨arguments, ha⟩ | ⟨node, role', hvain, ha⟩ | ⟨hself, hnone, l', hl', ha⟩
      · simp only [ha, asPart, ok_bind]
        exact Or.inl ⟨_, rfl⟩
      · simp only [ha, asPart, error_bind]
        exact Or.inr ⟨_, .unknownRole hchosen hvain, rfl⟩
      · simp only [ha, asPart, error_bind]
        exact Or.inr ⟨_, .unavailable hchosen hself hnone hl', rfl⟩

/-- The program that a list of terminals is compiled to supplies it. -/
theorem supplies_of_compileScoped (h : g.WellFormed) {list : Schedule} {known : KnownFamilies}
    (hthere : ∀ x ∈ list, g.hasTerminal x = true)
    (hq : compileScoped g c list scope known = .ok q) : q.Supplies g list := by
  refine foldlM_preserves (Program.Supplies g) (supplies_empty g _) ?_ hq
  rintro before x after q q' rfl hs hstep
  exact hs.step h (hthere x (List.mem_append_right before List.mem_cons_self)) hstep

/-- A workable list that is not compiled is refused at one of its entries. -/
theorem refusedAt_of_compileScoped (h : g.WellFormed) (hc : c.Decisive) {list : Schedule}
    (hlist : Workable g scope list) {known : KnownFamilies} {e : Failure CompileError}
    (he : compileScoped g c list scope known = .error e) :
    ∃ x ∈ list, RefusedAt g c scope known list x e := by
  rcases exists_of_foldlM_eq_error he with ⟨before, x, after, q, rfl, hq, hstep⟩
  have hx : x ∈ before ++ x :: after := List.mem_append_right before List.mem_cons_self
  have hs := supplies_of_compileScoped h hlist.of_append.there hq
  -- What an entry needs stands before it, so it is refused for one of the causes.
  rcases compileStep_cases h hc hs (hlist.there x hx) (hlist.inOrder before x after rfl)
    (hlist.tight x hx) known with ⟨q', hstep'⟩ | ⟨e', hrefusal, he'⟩
  · rw [hstep] at hstep'
    exact nomatch hstep'
  · rw [hstep, Except.error.injEq] at he'
    exact ⟨x, hx, before, after, q, rfl, hq, hstep, he' ▸ hrefusal⟩

end Steps

end MessagePlan
