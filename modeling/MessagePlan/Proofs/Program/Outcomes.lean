import MessagePlan.Program.Listing
import MessagePlan.Proofs.Dependency.Breakers
import MessagePlan.Proofs.Program.Regions
import MessagePlan.Proofs.Schedule.Outcomes

/-!
# No Handle Leads Out of the Graph

Handles are made from numbers, and the operations that plan and compile trust many of them:
terminals on a schedule, edges of regions, steps in an index, rules in a program. That none of these
leads nowhere is seen operation by operation. `Answers` carries from each to the next what the next
one relies on. A schedule has terminals that are there; a program that is compiled from it has an
index that leads to its steps; and each step can be shown.

Nothing is asked of the catalog. A rule is looked up by a handle that the same catalog has answered,
and where rules leave a choice open that is a cause.

Nothing is asked of the schedules that a partition stores either, but that their terminals are
there. So a partition can be scheduled, left behind by a graph that grows, and compiled, and this
fails for a cause or not at all. The components of the graph of dependencies may be found by
anything that finds them, and regions may be scheduled side by side.

## Main definitions

* `Step.Shown`: What a step refers to is there.
* `grownRelay`: A graph that has grown after it was divided.

## Theorems

* `answers_assemble`: Arguments are found, or something is missing.
* `answers_compileScoped`: A list of terminals is compiled, or refused for a cause.
* `exists_listing`: A program whose steps can be shown has a listing.
* `answers_compileTarget`, `answers_compilePartition`, `answers_buildPlan`: Programs and plans.
* `no_handle_leads_out`: No operation meets a handle that names nothing.
-/

namespace MessagePlan

open Dependency

section Compiling

variable {g : Graph} {c : Catalog} {q : Program} {scope : Option Region} {known : KnownFamilies}
  {x y : TerminalId} {r : Rule} {earlier : StepIndex}

theorem answers_missing {α : Type} {P : α → Prop} (h : g.WellFormed) (r : Rule) (required : Bool)
    (p : TerminalId) : Answers (missing g r required p) P := by
  rcases missing_eq_error (α := α) (r := r) h required p with ⟨l, _, hl⟩
  exact answers_of_eq_cause hl

theorem answers_argumentAt (h : g.WellFormed) (hy : g.hasTerminal y = true) (r : Rule)
    (earlier : StepIndex) (scope : Option Region) (required : Option TerminalId) (x : TerminalId)
    (pattern : Option Pattern) :
    Answers (argumentAt g r earlier scope required x y pattern) fun _ => True := by
  unfold argumentAt
  split
  · exact trivial
  · rw [inboundAt_eq h _ hy]
    cases g.input? earlier scope y with
    | some a => exact trivial
    | none => exact answers_missing h r _ _

theorem answers_argumentsFor (h : g.WellFormed) {ys : List TerminalId} (hys : g.HasAll ys)
    (r : Rule) (earlier : StepIndex) (scope : Option Region) (required : Option TerminalId)
    (x : TerminalId) (patterns : List Pattern) :
    Answers (argumentsFor g r earlier scope required x ys patterns) fun _ => True := by
  induction ys generalizing patterns with
  | nil => exact trivial
  | cons y ys ih =>
    refine (answers_argumentAt h (hys y List.mem_cons_self) r _ _ _ _ _).bind fun _ _ => ?_
    exact (ih (fun z hz => hys z (List.mem_cons_of_mem y hz)) _).bind fun _ _ => trivial

/-- The arguments of a rule are found or something is missing, and the marginals among them are of
    edges that are there. -/
theorem answers_assemble (h : g.WellFormed) (hx : g.hasTerminal x = true) (r : Rule)
    (earlier : StepIndex) (scope : Option Region) :
    Answers (assemble g x r earlier scope) fun arguments =>
      ∀ e, .marginal e ∈ arguments → g.hasEdge e = true := by
  have hanswers : Answers (assemble g x r earlier scope) fun _ => True := by
    rcases Graph.terminal_eq_ok (ε := AssemblyError) hx with ⟨terminal, hget, hn, _⟩
    rcases h.node_eq_ok (ε := AssemblyError) hn with ⟨node, hnode, hports, _⟩
    simp only [assemble, hget, ok_bind, hnode, hports]
    split
    · exact trivial
    · rcases requirementOf_cases h hn (handled_eq_ok.1 hnode) r with
        ⟨requirement, hreq, _⟩ | ⟨role, _, hrole⟩
      · rw [hreq, ok_bind]
        have hthere : g.HasAll (g.ports x) := fun y hy => h.hasTerminal_of_mem_ports hy
        exact (answers_argumentsFor h hthere r _ _ _ _ _).bind fun _ _ => trivial
      · rw [hrole]
        exact trivial
  -- It has been shown that no look fails; what is left to show is where marginals come from.
  refine hanswers.mono fun arguments ha _ e he => ?_
  rcases List.getElem?_of_mem he with ⟨k, hk⟩
  rcases marginal_of_assemble h hx ha hk with ⟨y, _, _, hy, _⟩
  exact h.hasEdge_of_edge? hy

/-- A step of compiling leaves an index behind that leads to steps that are there. -/
theorem answers_compileStep (h : g.WellFormed) (hq : q.IndexesLast) (hx : g.hasTerminal x = true)
    (c : Catalog) (scope : Option Region) (known : KnownFamilies) :
    Answers (compileStep g c scope known q x) Program.IndexesLast := by
  rcases compileStep_eq h hq.indexed hx c scope known with ⟨kind, role, l, _, _, _, heq⟩
  rw [heq]
  cases g.constant? x with
  | some value => exact hq
  | none =>
    rcases c.resolve kind role (g.signature q scope known x) with e | ⟨r, id⟩
    · exact trivial
    · refine ((answers_assemble h hx r _ _).asPart _).bind fun arguments _ => ?_
      exact hq.append _

theorem answers_compileScoped (h : g.WellFormed) {list : Schedule} (hlist : g.HasAll list)
    (c : Catalog) (scope : Option Region) (known : KnownFamilies) :
    Answers (compileScoped g c list scope known) (Program.Recorded g c scope known list) := by
  have hanswers : Answers (compileScoped g c list scope known) Program.IndexesLast :=
    Answers.foldlM (indexesLast_empty _)
      fun x hx q hq => answers_compileStep h hq (hlist x hx) c scope known
  exact hanswers.mono fun q hq _ => recorded_of_compileScoped h hlist hq

end Compiling

/-- A step can be shown: its terminal and its rule are there, and so are the edges whose marginals
    it is given. -/
structure Step.Shown (g : Graph) (c : Catalog) (s : Step) : Prop where
  terminal : g.hasTerminal s.terminal = true
  rule : ∃ r, c.rule? s.rule = some r
  marginals : ∀ e, .marginal e ∈ s.arguments → g.hasEdge e = true

section Listing

variable {ε : Type} {g : Graph} {c : Catalog} {q : Program}

/-- Every step that was compiled can be shown, with the graph and the catalog it was compiled
    for. -/
theorem Program.Recorded.shown (h : g.WellFormed) {scope : Option Region} {known : KnownFamilies}
    {list : Schedule} (hq : q.Recorded g c scope known list) {s : Step} (hs : s ∈ q.steps) :
    s.Shown g c := by
  rcases hq.exists_chosen hs with ⟨sofar, r, hchosen⟩
  rcases hchosen.resolved with ⟨kind, role, _, _, hres⟩
  have hrule := Catalog.mem_candidates.1 (Catalog.mem_candidates_of_resolve hres)
  have hmarginals := (answers_assemble h hchosen.there r _ _).of_eq_ok hchosen.given
  exact ⟨hchosen.there, ⟨r, hrule.1⟩, hmarginals⟩

theorem exists_argumentText (h : g.WellFormed) (q : Program) {a : Argument}
    (ha : ∀ e, a = .marginal e → g.hasEdge e = true) :
    ∃ text, (argumentText g q a : Except (Failure ε) String) = .ok text := by
  cases a with
  | absent => exact ⟨_, rfl⟩
  | literal value => exact ⟨_, rfl⟩
  | step i =>
    -- A step that is not there is shown as such.
    rw [argumentText]
    cases q.steps[i]? with
    | none => exact ⟨_, rfl⟩
    | some source =>
      rcases h.label_eq_ok (ε := ε) source.terminal with ⟨l, hl⟩
      simp only [hl, ok_bind]
      exact ⟨_, rfl⟩
  | stored p =>
    rcases h.label_eq_ok (ε := ε) p with ⟨l, hl⟩
    rw [argumentText, hl]
    exact ⟨_, rfl⟩
  | marginal e =>
    have hedge := Array.getElem?_eq_getElem (of_decide_eq_true (ha e rfl))
    rw [argumentText, Graph.edge, hedge]
    exact ⟨_, rfl⟩
  | param name value => exact ⟨_, rfl⟩

theorem exists_argumentLines (h : g.WellFormed) (q : Program) {ys : List TerminalId}
    (hys : g.HasAll ys) {arguments : List Argument}
    (ha : ∀ e, .marginal e ∈ arguments → g.hasEdge e = true) :
    ∃ lines, (argumentLines g q ys arguments : Except (Failure ε) (List String)) = .ok lines := by
  induction arguments generalizing ys with
  | nil => exact ⟨[], by rw [argumentLines]; rfl⟩
  | cons a rest ih =>
    have htail : g.HasAll ys.tail := fun y hy => hys y (List.mem_of_mem_tail hy)
    rcases ih htail fun e he => ha e (List.mem_cons_of_mem a he) with ⟨lines, hlines⟩
    by_cases habsent : a = .absent
    · rw [habsent, argumentLines]
      exact ⟨lines, hlines⟩
    · have hmarginal : ∀ e, a = .marginal e → g.hasEdge e = true :=
        fun e he => ha e (he ▸ List.mem_cons_self)
      rcases exists_argumentText (ε := ε) h q hmarginal with ⟨text, htext⟩
      -- There is a role for the line while there are terminals.
      cases ys with
      | nil =>
        rw [List.tail_nil] at hlines
        simp only [argumentLines, htext, List.tail_nil, hlines, pure_bind, ok_bind]
        exact ⟨_, rfl⟩
      | cons y ys =>
        rcases Graph.terminal_eq_of_hasTerminal (ε := ε) (hys y List.mem_cons_self) with
          ⟨terminal, hterminal⟩
        simp only [argumentLines, hterminal, htext, hlines, pure_bind, ok_bind]
        exact ⟨_, rfl⟩

/-- A program has a listing if each of its steps can be shown. -/
theorem exists_listing (h : g.WellFormed) (hq : ∀ s ∈ q.steps, s.Shown g c) :
    ∃ text, (q.listing g c : Except (Failure ε) String) = .ok text := by
  -- A listing fails only where a step cannot be drawn.
  have hsteps : ∀ entry ∈ q.steps.toList.zipIdx, ∃ lines,
      (stepLines g c q entry.2 entry.1 : Except (Failure ε) (List String)) = .ok lines := by
    rintro ⟨s, i⟩ hentry
    have hs := hq s (Array.mem_toList_iff.1 (List.fst_mem_of_mem_zipIdx hentry))
    rcases hs.rule with ⟨r, hr⟩
    rcases h.label_eq_ok (ε := ε) s.terminal with ⟨l, hl⟩
    rcases h.ownerOf_eq_ok (ε := ε) hs.terminal with ⟨node, hnode, hports, _⟩
    have hthere : g.HasAll node.terminals :=
      fun y hy => h.hasTerminal_of_mem_ports (hports ▸ hy)
    rcases exists_argumentLines (ε := ε) h q hthere hs.marginals with ⟨lines, hlines⟩
    simp only [stepLines, hr, handled_some, ok_bind, hl, hnode, hlines]
    exact ⟨_, rfl⟩
  rcases exists_mapM_eq_ok hsteps with ⟨blocks, hblocks⟩
  rw [Program.listing, hblocks]
  exact ⟨_, rfl⟩

end Listing

section Plans

variable {g : Graph} {c : Catalog} {p : Partition}

/-- The program for a terminal can be shown, step by step. -/
theorem answers_compileTarget (h : g.WellFormed) (c : Catalog) (target : TerminalId) :
    Answers (compileTarget g c target) fun q => ∀ s ∈ q.steps, s.Shown g c := by
  refine ((answers_schedule h target none).asPart _).bind fun list hlist => ?_
  exact (answers_compileScoped h hlist c none ∅).mono fun q _ hq s hs => hq.shown h hs

theorem answers_compileRegions (h : g.WellFormed) (c : Catalog) {rs : List Region}
    (hrs : ∀ r ∈ rs, g.HasAll r.schedule) (known : KnownFamilies) :
    Answers (compileRegions g c known rs) fun programs =>
      ∀ q ∈ programs, ∀ s ∈ q.steps, s.Shown g c := by
  induction rs generalizing known with
  | nil =>
    intro q hq
    exact absurd hq List.not_mem_nil
  | cons r rs ih =>
    refine (answers_compileScoped h (hrs r List.mem_cons_self) c (some r) known).bind
      fun q hq => ?_
    -- The regions behind the first know more families, which is no matter here.
    refine (ih (fun r' hr' => hrs r' (List.mem_cons_of_mem r hr')) _).bind
      fun rest hrest q' hq' => ?_
    rcases List.mem_cons.1 hq' with rfl | hq'
    · exact fun s hs => hq.shown h hs
    · exact hrest q' hq'

/-- The regions of a partition that fits are compiled from whatever schedules they store, as long as
    the terminals of these are there. -/
theorem answers_compilePartition (h : g.WellFormed) (c : Catalog) (hp : p.Fits g)
    (hschedules : ∀ (i : Nat) r, p.regions[i]? = some r → g.HasAll r.schedule) :
    Answers (compilePartition g c p) fun plan =>
      ∀ q ∈ plan.programs, ∀ s ∈ q.steps, s.Shown g c := by
  have hrs : ∀ r ∈ p.regions.toList, g.HasAll r.schedule := by
    intro r hr
    rcases Array.getElem?_of_mem (Array.mem_toList_iff.1 hr) with ⟨i, hi⟩
    exact hschedules i r hi
  refine (answers_compileRegions h c hrs ∅).bind fun programs hprograms => ?_
  refine Answers.bind (P := fun _ => True) ?_ fun _ _ => hprograms
  refine (Answers.mapM (Q := fun _ => True) fun tap htap => ?_).mono fun _ _ _ => trivial
  rw [(terminals_eq_ok h (hp.taps tap htap)).1]
  exact trivial

theorem answers_buildPlan {sideBySide : Partition.Gathering}
    (hgathers : Partition.Gathers sideBySide) (h : g.WellFormed) (c : Catalog) (hp : p.Fits g)
    (config : Config) :
    Answers (buildPlan sideBySide g c p config).1 fun plan =>
      ∀ q ∈ plan.programs, ∀ s ∈ q.steps, s.Shown g c := by
  have hall := answers_scheduleAll h hp hgathers config
  have hfits := hp.scheduleAll hgathers config
  unfold buildPlan
  -- The schedules come first; their refusals have a cause, and where there is none the programs
  -- follow.
  rcases hq : p.scheduleAll sideBySide g config with ⟨e | ⟨⟩, q⟩
  · rw [hq] at hall
    rcases hall.exists_cause rfl with ⟨cause, rfl⟩
    exact trivial
  · rw [hq] at hall hfits
    exact answers_compilePartition h c hfits hall

/-- Whatever terminals, entries and regions are asked for, and however a graph has grown since a
    partition was built for it, no handle that names nothing is met: schedules and programs are
    found or refused for a cause, loops and breakers are always found, with whatever finds
    components, what is found are terminals of the graph, and every program can be listed with the
    graph and the catalog it was compiled for. -/
theorem no_handle_leads_out {ε : Type} {components : Digraph → List (List Nat)}
    (hcomponents : FindsComponents components) {sideBySide : Partition.Gathering}
    (hgathers : Partition.Gathers sideBySide) (hg : Reachable g) (c : Catalog) (config : Config) :
    (∀ target scope, Answers (g.schedule target scope) g.HasAll) ∧
    (∃ ls, (g.unbrokenLoops components : Except (Failure ε) (List (List TerminalId))) = .ok ls ∧
      ∀ xs ∈ ls, g.HasAll xs) ∧
    (∃ bs, (g.loopBreakers components : Except (Failure ε) (List TerminalId)) = .ok bs ∧
      g.HasAll bs) ∧
    (∀ target, Answers (compileTarget g c target) fun q =>
      ∃ text, (q.listing g c : Except (Failure ε) String) = .ok text) ∧
    ∀ p, Partition.BuiltAlong g p →
      (∀ id r entries, p.region? id = some r → Answers (g.completePartial entries r) g.HasAll) ∧
      (∀ id, Answers (p.scheduleOf g config id) g.HasAll) ∧
      (Answers (p.scheduleAll sideBySide g config).1 fun _ =>
        (p.scheduleAll sideBySide g config).2.Fits g) ∧
      Answers (buildPlan sideBySide g c p config).1 fun plan => ∀ q ∈ plan.programs,
        ∃ text, (q.listing g c : Except (Failure ε) String) = .ok text := by
  have h := Graph.wellFormed_of_reachable hg
  refine ⟨answers_schedule h, ?_, ?_, fun target => ?_, fun p hp => ?_⟩
  · -- What is on a loop has needs, and so is there.
    rcases unbrokenLoops_eq_ok (ε := ε) hcomponents h with ⟨ls, hls, _, _, hmem⟩
    refine ⟨ls, hls, fun xs hxs x hx => ?_⟩
    have hloop : OnLoop g none x := (hmem x).2 ⟨xs, hxs, hx⟩
    rw [OnLoop, ← needsUnprimed_empty] at hloop
    exact (unprimed_of_onLoop h hloop).1
  · rcases loopBreakers_eq_ok (ε := ε) hcomponents h with ⟨bs, hbs, hbreaking⟩
    exact ⟨bs, hbs, fun b hb => (unprimed_of_onLoop h (hbreaking.onLoop b hb)).1⟩
  · exact (answers_compileTarget h c target).mono fun q _ hq => exists_listing h hq
  · -- A partition that fits keeps fitting, whatever is stored in it.
    have hfits := (Partition.fits_of_builtAlong hp).2
    refine ⟨fun id r entries _ => answers_completePartial h entries r,
      answers_scheduleOf h hfits config,
      (answers_scheduleAll h hfits hgathers config).mono fun _ _ _ =>
        hfits.scheduleAll hgathers config, ?_⟩
    exact (answers_buildPlan hgathers h c hfits config).mono fun plan _ hplan q hq =>
      exists_listing h (hplan q hq)

/-- The source, the relay and the sink, and another source and sink in a row of their own that have
    come later. -/
def grownRelay : Graph :=
  relayGraph.applyAll [.addNode "Source" ["out"], .addNode "Sink" ["in1"], .connect ⟨4⟩ ⟨5⟩ none]

/-- The halves of the first row leave out the edge of the second one. Still nothing but refusals can
    keep a plan from being built, also after asking for terminals and regions that are not there. -/
theorem no_handle_leads_out_grownRelay :
    Reachable grownRelay ∧ Partition.BuiltAlong grownRelay halves ∧
      grownRelay.hasEdge ⟨2⟩ = true ∧ halves.regionOf? ⟨2⟩ = none ∧
      grownRelay.schedule ⟨99⟩ none = .error (.cause (.unknownTerminal ⟨99⟩)) ∧
      halves.scheduleOf grownRelay {} ⟨7⟩ = .error (.cause (.unknownRegion ⟨7⟩)) ∧
      Answers (buildPlan Partition.inTurn grownRelay relayCatalog halves {}).1 fun plan =>
        ∀ q ∈ plan.programs,
        ∃ text, (q.listing grownRelay relayCatalog : Except (Failure CompileError) String) =
          .ok text := by
  have hg : Reachable grownRelay := reachable_relayGraph.applyAll _
  have hp : Partition.BuiltAlong grownRelay halves :=
    (Partition.builtAlong_of_builtOn reachable_relayGraph builtOn_relayGraph).applyAll _
  rcases no_handle_leads_out (ε := CompileError) findsComponents Partition.gathers_inTurn hg
    relayCatalog {} with ⟨_, _, _, _, hplans⟩
  exact ⟨hg, hp, by decide +kernel, by decide +kernel, rfl, rfl, (hplans halves hp).2.2.2⟩

end Plans

end MessagePlan
