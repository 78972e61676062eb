import MessagePlan.Proofs.Program.Supply

/-!
# Schedules Suffice for Compiling

A schedule is found by following partners without a message; a rule is chosen by what arrives at
the terminals of a node; and the rule is given inputs that are looked up once more. Nothing
passes from one to the next but the list of terminals. What is shown here is that nothing more
is needed: on a whole graph, a terminal that is due is never missing an input.

On a whole graph there are no edges of other regions. So what supplies an input is also what
arrives, the rule that is chosen fits something that has nothing absent in it, and it skips none of
the terminals of the node. `Program.Serves` adds this to what a program supplies.

## Main definitions

* `Program.Serves`: A program has a step wherever one may be asked for, and leaves out nothing.

## Theorems

* `Program.Serves.step`: A step more serves its terminal too.
* `workable_of_schedule`: A schedule is workable.
* `serves_of_compile`: What a workable list is compiled to serves it.
* `compileTarget_suffices`: What compiling a target fails with, and what it leaves out.
-/

namespace MessagePlan

/-- A program supplies the terminals of a list, and each of its steps leaves out no argument but
    that for its own terminal. -/
structure Program.Serves (g : Graph) (before : List TerminalId) (q : Program) : Prop
    extends q.Supplies g before where
  slots : ∀ s ∈ q.steps, ∀ k : Nat, s.arguments[k]? = some .absent →
    (g.ports s.terminal)[k]? = some s.terminal

section Steps

variable {g : Graph} {c : Catalog} {q q' : Program} {x : TerminalId} {before : List TerminalId}
  (h : g.WellFormed) (hs : q.Serves g before) (hneeds : ∀ p, Needs g none x p → p ∈ before)
  (htight : ∀ y, ¬ Loose g x y)

include h hs hneeds htight

/-- Nothing arrives as absent at the terminals of a node but the one computed. -/
theorem Program.Serves.absent_not_mem (known : KnownFamilies) :
    .absent ∉ g.signature q none known x := by
  intro hmem
  rcases List.mem_map.1 hmem with ⟨y, hy, habsent⟩
  rw [List.mem_filter, decide_eq_true_eq] at hy
  rcases hs.input? h hneeds htight hy.1 hy.2 with ⟨a, ha⟩
  exact arrival_ne_absent hs.indexed ha (input?_ne_marginal rfl ha) habsent

/-- A step that is compiled when its needs are served leaves out no argument but its own. -/
theorem Program.Serves.step (hx : g.hasTerminal x = true) {known : KnownFamilies}
    (hstep : compileStep g c none known q x = .ok q') : q'.Serves g (before ++ [x]) := by
  refine ⟨hs.toSupplies.step h hx hstep, ?_⟩
  rcases compileStep_eq_ok h hs.indexed hx hstep with
    ⟨value, _, rfl⟩ | ⟨s', r, rfl, hchosen, rfl⟩
  · exact hs.slots
  · intro s hmem k hk
    rcases Array.mem_push.1 hmem with hold | rfl
    · exact hs.slots s hold k hk
    · rcases exists_port_of_ne_param h hx hchosen.given hk (fun _ _ heq => nomatch heq) with ⟨y, hy⟩
      by_cases hyx : y = s.terminal
      · rw [hy, hyx]
      · -- Nothing is absent at another terminal.
        rcases hchosen.argument h hy hyx with ⟨a, ha, ⟨_, _, habsent⟩ | ⟨_, hinput⟩⟩
        · refine absurd ?_ (hs.absent_not_mem h hneeds htight known)
          have hmem : y ∈ (g.ports s.terminal).filter (· ≠ s.terminal) :=
            List.mem_filter.2 ⟨List.mem_of_getElem? hy, decide_eq_true hyx⟩
          exact List.mem_map.2 ⟨y, hmem, habsent⟩
        · rcases Option.some.inj (hk.symm.trans ha) with rfl
          exact absurd hinput input?_ne_absent

end Steps

section Runs

variable {g : Graph} {c : Catalog} {scope : Option Region} {t x : TerminalId} {r : Schedule}

theorem workable_of_schedule (hg : Reachable g) (hr : g.schedule t scope = .ok r) :
    Workable g scope r := by
  rcases visited_of_schedule hg hr with ⟨u, hu, rfl⟩
  refine ⟨hu.inOrder, ?_, ?_⟩
  · intro x hx
    exact hu.hasTerminal (Array.mem_toList_iff.1 hx)
  · intro x hx
    exact hu.tight x (Array.mem_toList_iff.1 hx)

theorem dependsOn_of_mem_schedule (hg : Reachable g) (hr : g.schedule t scope = .ok r)
    (hx : x ∈ r) : DependsOn g scope t x := by
  rcases visited_of_schedule hg hr with ⟨u, hu, rfl⟩
  rcases hu.due x (Array.mem_toList_iff.1 hx) with hnone | hdue
  · exact absurd hnone (Array.not_mem_empty x)
  · exact hdue

/-- A schedule is only ever refused for a cause. -/
theorem exists_cause_of_schedule (hg : Reachable g) {e : Failure ScheduleError}
    (he : g.schedule t scope = .error e) : ∃ e', e = .cause e' := by
  rcases stuck_of_schedule hg he with ⟨_, rfl⟩ | ⟨_, x, _, hstuck⟩
  · exact ⟨_, rfl⟩
  · exact hstuck.exists_cause

/-- A list that is compiled has its beginning compiled on the way. -/
theorem compile_of_append {before after : Schedule} {p : Program}
    (hp : compile g c (before ++ after) = .ok p) : ∃ q, compile g c before = .ok q := by
  unfold compile at hp
  rw [compileScoped_append] at hp
  rcases bind_eq_ok.1 hp with ⟨q, hq, _⟩
  exact ⟨q, hq⟩

/-- The program that a workable list is compiled to serves it. -/
theorem serves_of_compile (h : g.WellFormed) (hr : Workable g none r) {p : Program}
    (hp : compile g c r = .ok p) : p.Serves g r := by
  refine foldlM_preserves (Program.Serves g)
    ⟨supplies_empty g _, fun s hs => absurd hs (Array.not_mem_empty s)⟩ ?_ hp
  rintro before x after q q' rfl hs hstep
  have hx : x ∈ before ++ x :: after := List.mem_append_right before List.mem_cons_self
  exact hs.step h (hr.inOrder before x after rfl) (hr.tight x hx) (hr.there x hx) hstep

/-- Whatever calls built the catalog, compiling a target of a reachable graph fails only if there
    is no schedule, or at an entry of the schedule, behind the program for those before it, where no
    rule applies to what arrives there, or the fallback of the rule that is chosen there asks for a
    role that the node has not got or requires what arrives at the very terminal computed. If it
    succeeds, then at each entry of the schedule, once those before it had been compiled,
    something arrived at every other terminal of the node, and each step leaves out no argument
    but that for its own terminal. -/
theorem compileTarget_suffices (hg : Reachable g) {calls : List Rule}
    (hc : (Registry.ofCalls calls).build = .ok c) (t : TerminalId) :
    (∀ e, compileTarget g c t = .error e →
      (∃ e', g.schedule t none = .error (.cause e') ∧ e = .cause (.schedule e')) ∨
        ∃ r x, g.schedule t none = .ok r ∧ DependsOn g none t x ∧ RefusedAt g c none ∅ r x e) ∧
    ∀ p, compileTarget g c t = .ok p → ∃ r, g.schedule t none = .ok r ∧ compile g c r = .ok p ∧
      (∀ before x after, r = before ++ x :: after → ∃ q, compile g c before = .ok q ∧
        (g.constant? x = none → ∃ s : Signature,
          (signatureFor g q none ∅ x (g.ports x) : Except (Failure CompileError) Signature) =
            .ok s ∧ .absent ∉ s)) ∧
      ∀ s ∈ p.steps, ∀ k : Nat, s.arguments[k]? = some .absent →
        (g.ports s.terminal)[k]? = some s.terminal := by
  have h := Graph.wellFormed_of_reachable hg
  have hdecisive := Catalog.decisive_of_build hc
  refine ⟨?_, ?_⟩
  · intro e he
    rcases bind_eq_error.1 he with he | ⟨r, hr, he⟩
    · -- Without a schedule nothing is compiled.
      rcases asPart_eq_error.1 he with ⟨e', he', rfl⟩
      rcases exists_cause_of_schedule hg he' with ⟨e'', rfl⟩
      exact Or.inl ⟨e'', he', rfl⟩
    · have hr := asPart_eq_ok.1 hr
      rcases refusedAt_of_compileScoped h hdecisive (workable_of_schedule hg hr) he with
        ⟨x, hx, hrefused⟩
      exact Or.inr ⟨r, x, hr, dependsOn_of_mem_schedule hg hr hx, hrefused⟩
  · intro p hp
    rcases bind_eq_ok.1 hp with ⟨r, hr, hp⟩
    have hr := asPart_eq_ok.1 hr
    have hwork := workable_of_schedule hg hr
    refine ⟨r, hr, hp, ?_, (serves_of_compile h hwork hp).slots⟩
    rintro before x after rfl
    -- What is compiled up to an entry serves all that the entry needs.
    rcases compile_of_append hp with ⟨q, hq⟩
    have hserves := serves_of_compile h hwork.of_append hq
    have hneeds : ∀ p, Needs g none x p → p ∈ before := hwork.inOrder before x after rfl
    have htight := hwork.tight x (List.mem_append_right _ List.mem_cons_self)
    refine ⟨q, hq, fun _ => ⟨_, signatureFor_eq_ok h hserves.indexed x, ?_⟩⟩
    exact hserves.absent_not_mem h hneeds htight ∅

/-- The sum of two constants. -/
def sumGraph : Graph :=
  (Graph.empty ⟨1⟩).applyAll [
    .addNamedConstant "one" (.scalar 1), .addNamedConstant "two" (.scalar 2),
    .addNamedNode "sum" "Addition" ["out", "in1", "in2"], .connect ⟨0⟩ ⟨3⟩ none,
    .connect ⟨1⟩ ⟨4⟩ none]

/-- The sum of two constants is compiled, and only the argument for the sum itself is left out. With
    no rules at all it is refused, behind the two constants. -/
theorem compileTarget_suffices_sum :
    Reachable sumGraph ∧ (∃ c, (Registry.ofCalls Catalog.sumCalls).build = .ok c ∧
      ∃ p, compileTarget sumGraph c ⟨2⟩ = .ok p ∧
        ∀ s ∈ p.steps, ∀ k : Nat, s.arguments[k]? = some .absent →
          (sumGraph.ports s.terminal)[k]? = some s.terminal) ∧
      ∃ c e, (Registry.ofCalls []).build = .ok c ∧ compileTarget sumGraph c ⟨2⟩ = .error e ∧
        ∃ x, RefusedAt sumGraph c none ∅ [⟨0⟩, ⟨1⟩, ⟨2⟩] x e := by
  have hg : Reachable sumGraph := (Reachable.empty _).applyAll _
  have hc : (Registry.ofCalls Catalog.sumCalls).build = .ok ⟨Catalog.sumCalls.toArray.pop⟩ :=
    toOption_eq_some.1 (by decide +kernel)
  have hr : sumGraph.schedule ⟨2⟩ none = .ok [⟨0⟩, ⟨1⟩, ⟨2⟩] :=
    schedule_eq_of_scheduleWithin 12 (by decide +kernel)
  refine ⟨hg, ⟨_, hc, ?_⟩, ?_⟩
  · have hsome : (compile sumGraph ⟨Catalog.sumCalls.toArray.pop⟩
        [⟨0⟩, ⟨1⟩, ⟨2⟩]).toOption.isSome = true := by
      decide +kernel
    rcases Option.isSome_iff_exists.1 hsome with ⟨p, hp⟩
    have htarget : compileTarget sumGraph ⟨Catalog.sumCalls.toArray.pop⟩ ⟨2⟩ = .ok p := by
      rw [compileTarget, hr, asPart, ok_bind]
      exact toOption_eq_some.1 hp
    refine ⟨p, htarget, ?_⟩
    rcases (compileTarget_suffices hg hc ⟨2⟩).2 p htarget with ⟨_, _, _, _, hslots⟩
    exact hslots
  · -- Without any rule the first step is refused.
    have hempty : (Registry.ofCalls []).build = .ok ⟨#[]⟩ := rfl
    have hnone : (compile sumGraph ⟨#[]⟩ [⟨0⟩, ⟨1⟩, ⟨2⟩]).toOption = none := by decide +kernel
    cases he : compile sumGraph ⟨#[]⟩ [⟨0⟩, ⟨1⟩, ⟨2⟩] with
    | ok p =>
      rw [he] at hnone
      cases hnone
    | error e =>
      have htarget : compileTarget sumGraph ⟨#[]⟩ ⟨2⟩ = .error e := by
        rw [compileTarget, hr, asPart, ok_bind]
        exact he
      refine ⟨_, e, hempty, htarget, ?_⟩
      rcases (compileTarget_suffices hg hempty ⟨2⟩).1 e htarget with
        ⟨e', he', _⟩ | ⟨r, x, hr', _, hrefused⟩
      · rw [hr] at he'
        cases he'
      · rw [hr, Except.ok.injEq] at hr'
        exact ⟨x, hr' ▸ hrefused⟩

end Runs

end MessagePlan
