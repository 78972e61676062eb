import MessagePlan.Proofs.Program.Arguments
import MessagePlan.Proofs.Program.Regions

/-!
# What is Typed and What is Handed Over

In a plan the rule for a step is chosen by what is known of other regions by then, and this depends
on the order of the regions. Its arguments do not: over an edge of another region always the
marginal is taken, whether anything is known of it yet or not. So the two can differ. Where nothing
is known of an edge, nothing arrives for the choice of the rule, and a rule that accepts this
without asking for it is given the marginal all the same.

Here it is shown that they differ there and nowhere else. A rule that asks for nothing is given
nothing, and inside the region what is handed over stands for what arrived. A source, a relay and a
sink show that they do differ: the region of the source is compiled first, and what the relay sends
back takes the marginal of the edge to the sink, of which nothing is known.

## Main definitions

* `Agrees`: An argument is left out where nothing arrived, and nowhere else.

## Theorems

* `Step.Chosen.agrees`: What was typed and what is handed over differ at other regions only.
* `compilePartition_agrees`: The same for every step of a plan.
-/

namespace MessagePlan

/-- An argument is left out if nothing arrived when the rule was chosen, and only then. -/
def Agrees (a : Argument) (t : Arrival) : Prop := a = .absent ↔ t = .absent

section Steps

variable {g : Graph} {c : Catalog} {scope : Option Region} {known : KnownFamilies} {q : Program}
  {s : Step} {r : Rule} {k : Nat} {y : TerminalId}

/-- At a terminal other than the one computed, where nothing arrived although the rule does not skip
    it, the argument is the marginal of an edge outside the scope; else it agrees with what
    arrived. -/
theorem Step.Chosen.agrees (h : g.WellFormed) (hq : q.Indexed) (hs : s.Chosen g c scope known q r)
    (hy : (g.ports s.terminal)[k]? = some y) (hne : y ≠ s.terminal) :
    ∃ a, s.arguments[k]? = some a ∧
      (g.arrival q scope known y = .absent → ¬ Skips g r s.terminal y k →
        ∃ e, g.edge? y = some e ∧ inScope scope (some e) = false ∧ a = .marginal e) ∧
      (g.arrival q scope known y ≠ .absent ∨ Skips g r s.terminal y k →
        Agrees a (g.arrival q scope known y)) := by
  rcases hs.argument h hy hne with ⟨a, ha, ⟨hskip, rfl, habsent⟩ | ⟨hskip, hinput⟩⟩
  · exact ⟨.absent, ha, fun _ hnot => absurd hskip hnot, fun _ => iff_of_true rfl habsent⟩
  refine ⟨a, ha, fun habsent _ => ?_, fun hcase => ?_⟩
  · -- Any other input would stand for something that arrives.
    have hmarginal : ∃ e, a = .marginal e := by
      by_contra hno
      exact arrival_ne_absent hq hinput (fun e he => hno ⟨e, he⟩) habsent
    rcases hmarginal with ⟨e, rfl⟩
    rcases input?_eq_marginal hinput with ⟨_, _, _, he, hout⟩
    exact ⟨e, he, hout, rfl⟩
  · have hleft : a ≠ .absent := by
      rintro rfl
      exact input?_ne_absent hinput
    exact iff_of_false hleft (hcase.resolve_right hskip)

end Steps

section Plans

variable {g : Graph} {c : Catalog} {p p' : Partition} {config : Config} {plan : Plan} {q : Program}
  {i j : Nat} {s : Step} {sideBySide : Partition.Gathering}

/-- Every step of a plan was made from an entry of its region's schedule, when the families of the
    programs before were known. At each terminal of its node other than its own, the argument is
    left out exactly where nothing arrived for the choice of its rule. The one exception are
    terminals where nothing arrived and that the rule does not skip: they are on edges of other
    regions, and the rule is given the marginal of the edge. -/
theorem compilePartition_agrees (hgathers : Partition.Gathers sideBySide) (hg : Reachable g)
    (hp : p.BuiltOn g) (hp' : p.scheduleAll sideBySide g config = (.ok (), p'))
    (hplan : compilePartition g c p' = .ok plan)
    (hq : plan.programs[i]? = some q) (hs : q.steps[j]? = some s) :
    ∃ region sofar rule, p'.regions[i]? = some region ∧
      q.MadeAt g c (some region) (familiesAfter ∅ (plan.programs.take i)) region.schedule j s
        sofar rule ∧
      ∀ (k : Nat) y, (g.ports s.terminal)[k]? = some y → y ≠ s.terminal →
        ∃ a t, s.arguments[k]? = some a ∧
          (arrivalAt g sofar (some region) (familiesAfter ∅ (plan.programs.take i)) y :
            Except (Failure CompileError) Arrival) = .ok t ∧
          (t = .absent → ¬ Skips g rule s.terminal y k →
            ∃ e, g.edge? y = some e ∧ e ∉ region.inner ∧ a = .marginal e) ∧
          (t ≠ .absent ∨ Skips g rule s.terminal y k → Agrees a t) := by
  have h := Graph.wellFormed_of_reachable hg
  have hdivides := Partition.divides_of_builtOn h hp
  rcases region_of_compilePartition hgathers hp' hplan hq with ⟨r, hr⟩
  rcases program_of_compilePartition hgathers h hdivides hp' hplan hr with
    ⟨entries, q', _, hregion, hq', hrecorded⟩
  rcases Option.some.inj (hq.symm.trans hq') with rfl
  -- The step was made when the program had fewer steps; what arrived is typed in that one.
  rcases hrecorded.made j s hs with ⟨sofar, rule, hmade⟩
  refine ⟨_, sofar, rule, hregion, hmade, fun k y hy hne => ?_⟩
  have hthere := h.hasTerminal_of_mem_ports (List.mem_of_getElem? hy)
  rcases hmade.chosen.agrees h hmade.index.indexed hy hne with ⟨a, ha, hexcept, hagrees⟩
  refine ⟨a, _, ha, arrivalAt_eq_ok h hmade.index.indexed hthere, fun habsent hskip => ?_, hagrees⟩
  -- An edge that is not in the region makes the argument a marginal.
  rcases hexcept habsent hskip with ⟨e, he, hout, hmarginal⟩
  exact ⟨e, he, fun hmem => Bool.false_ne_true (hout.symm.trans hmem), hmarginal⟩

/-- The half of the source with what is scheduled there. -/
def sourceHalf : Region := { halfOfTwo 0 1 with schedule := [⟨0⟩, ⟨1⟩] }

/-- Before the second of two different terminals there is the first. -/
theorem past_of_pair {x y : TerminalId} {past rest : Schedule} (hlist : [x, y] = past ++ y :: rest)
    (hne : x ≠ y) : past = [x] := by
  cases past with
  | nil => exact absurd (List.cons.inj hlist).1 hne
  | cons z past =>
    rcases List.cons.inj hlist with ⟨rfl, htail⟩
    cases past with
    | nil => rfl
    | cons w past =>
      -- There is no room for a third one.
      have hnil := (List.cons.inj htail).2
      exact nomatch (List.append_eq_nil_iff.1 hnil.symm).2

/-- Nothing arrives over the edge to the sink when the relay's answer to the source is compiled. The
    rule does not skip the terminal there, and so it is given the marginal of that edge. -/
theorem compilePartition_agrees_relay :
    Reachable relayGraph ∧ halves.BuiltOn relayGraph ∧
      halves.scheduleAll Partition.inTurn relayGraph {} = (.ok (), scheduledHalves) ∧
      ∃ plan q s, compilePartition relayGraph relayCatalog scheduledHalves = .ok plan ∧
        plan.programs[0]? = some q ∧ q.steps[1]? = some s ∧ s.terminal = ⟨1⟩ ∧
        ∃ sofar rule, q.MadeAt relayGraph relayCatalog (some sourceHalf) ∅ [⟨0⟩, ⟨1⟩] 1 s
            sofar rule ∧
          (arrivalAt relayGraph sofar (some sourceHalf) ∅ ⟨2⟩ :
            Except (Failure CompileError) Arrival) = .ok .absent ∧
          ¬ Skips relayGraph rule ⟨1⟩ ⟨2⟩ 1 ∧ ⟨1⟩ ∉ sourceHalf.inner ∧
          s.arguments[1]? = some (.marginal ⟨1⟩) := by
  rcases exists_step_relayGraph with ⟨plan, q, s, hplan, hq, hs, hterminal, hk⟩
  rcases compilePartition_agrees Partition.gathers_inTurn reachable_relayGraph builtOn_relayGraph
    scheduleAll_relayGraph hplan hq hs with ⟨region, sofar, rule, hregion, hmade, hslots⟩
  obtain rfl : region = sourceHalf := (Option.some.inj hregion).symm
  refine ⟨reachable_relayGraph, builtOn_relayGraph, scheduleAll_relayGraph, plan, q, s, hplan, hq,
    hs, hterminal, sofar, rule, hmade, ?_⟩
  have hy : (relayGraph.ports s.terminal)[1]? = some ⟨2⟩ := by
    rw [hterminal]
    decide +kernel
  have hne : (⟨2⟩ : TerminalId) ≠ s.terminal := by
    rw [hterminal]
    decide
  rcases hslots 1 ⟨2⟩ hy hne with ⟨a, t, ha, ht, hexcept, hagrees⟩
  rcases Option.some.inj (hk.symm.trans ha) with rfl
  -- The steps before are those of the source alone, for the relay is not listed twice.
  have habsent : t = .absent := by
    rcases hmade.entry with ⟨past, rest, hlist, hsofar⟩
    have hsofar : compileScoped relayGraph relayCatalog past (some sourceHalf) ∅ = .ok sofar :=
      hsofar
    have hpast : past = [⟨0⟩] := past_of_pair (hterminal ▸ hlist) (by decide)
    have htyped : ((compileScoped relayGraph relayCatalog [⟨0⟩] (some sourceHalf) ∅).toOption.bind
        fun sofar => (arrivalAt relayGraph sofar (some sourceHalf) ∅ ⟨2⟩ :
          Except (Failure CompileError) Arrival).toOption) = some .absent := by
      decide +kernel
    rw [← hpast, toOption_eq_some.2 hsofar, Option.bind_some, toOption_eq_some] at htyped
    exact Except.ok.inj (ht.symm.trans htyped)
  subst habsent
  have hskip : ¬ Skips relayGraph rule s.terminal ⟨2⟩ 1 := fun hskip =>
    nomatch (hagrees (Or.inr hskip)).2 rfl
  rcases hexcept rfl hskip with ⟨e, he, hout, heq⟩
  rcases Argument.marginal.inj heq with rfl
  exact ⟨ht, hterminal ▸ hskip, hout, hk⟩

/-- When the relay's answer to the source is compiled, nothing is known of the edge to the sink, and
    the rule is given its marginal. -/
theorem not_agrees_relay :
    Reachable relayGraph ∧ halves.BuiltOn relayGraph ∧
      halves.scheduleAll Partition.inTurn relayGraph {} = (.ok (), scheduledHalves) ∧
      (Registry.ofCalls relayCatalog.rules.toList).build = .ok relayCatalog ∧
      ∃ plan q s, compilePartition relayGraph relayCatalog scheduledHalves = .ok plan ∧
        plan.programs[0]? = some q ∧ q.steps[1]? = some s ∧ s.terminal = ⟨1⟩ ∧
        (relayGraph.ports ⟨1⟩)[1]? = some ⟨2⟩ ∧
        scheduledHalves.regions[0]? = some sourceHalf ∧ sourceHalf.schedule = [⟨0⟩, ⟨1⟩] ∧
        ∃ sofar a t,
          compileScoped relayGraph relayCatalog [⟨0⟩] (some sourceHalf) ∅ = .ok sofar ∧
          compileStep relayGraph relayCatalog (some sourceHalf) ∅ sofar ⟨1⟩ = .ok q ∧
          s.arguments[1]? = some a ∧
          (arrivalAt relayGraph sofar (some sourceHalf) ∅ ⟨2⟩ :
            Except (Failure CompileError) Arrival) = .ok t ∧ ¬ Agrees a t := by
  have hcatalog : (Registry.ofCalls relayCatalog.rules.toList).build = .ok relayCatalog :=
    toOption_eq_some.1 (by decide +kernel)
  have hports : (relayGraph.ports ⟨1⟩)[1]? = some ⟨2⟩ := by decide +kernel
  -- The program of the first region, and what there was before its last step.
  have hfound : ((compilePartition relayGraph relayCatalog
      scheduledHalves).toOption.bind fun plan => plan.programs[0]?.bind fun q =>
        q.steps[1]?.bind fun s =>
          (compileScoped relayGraph relayCatalog [⟨0⟩] (some sourceHalf) ∅).toOption.bind
            fun sofar => (compileStep relayGraph relayCatalog (some sourceHalf) ∅ sofar
              ⟨1⟩).toOption.map fun q' => (s.terminal, decide (q' = q), s.arguments[1]?,
                (arrivalAt relayGraph sofar (some sourceHalf) ∅ ⟨2⟩ :
                  Except (Failure CompileError) Arrival).toOption)) =
        some (⟨1⟩, true, some (.marginal ⟨1⟩), some .absent) := by
    decide +kernel
  rcases Option.bind_eq_some_iff.1 hfound with ⟨plan, hplan, hfound⟩
  rcases Option.bind_eq_some_iff.1 hfound with ⟨q, hq, hfound⟩
  rcases Option.bind_eq_some_iff.1 hfound with ⟨s, hs, hfound⟩
  rcases Option.bind_eq_some_iff.1 hfound with ⟨sofar, hsofar, hfound⟩
  rcases Option.map_eq_some_iff.1 hfound with ⟨q', hq', hfound⟩
  simp only [Prod.mk.injEq, decide_eq_true_eq] at hfound
  rcases hfound with ⟨hterminal, rfl, ha, ht⟩
  refine ⟨reachable_relayGraph, builtOn_relayGraph, scheduleAll_relayGraph, hcatalog, plan, q', s,
    toOption_eq_some.1 hplan, hq, hs, hterminal, hports, rfl, rfl, sofar, .marginal ⟨1⟩, .absent,
    toOption_eq_some.1 hsofar, toOption_eq_some.1 hq', ha, toOption_eq_some.1 ht, ?_⟩
  intro hagrees
  exact nomatch hagrees.2 rfl

end Plans

end MessagePlan
