import MessagePlan.Proofs.Program.Arguments
import MessagePlan.Proofs.Program.Outcomes
import MessagePlan.Proofs.Program.Reordering

/-!
# What a Listing Shows

A listing is drawn by position. Under a step it goes through the arguments, leaves out those that
are absent, and takes the name for each of the others from the port in the same slot of the node;
where the ports have come to an end there is a name to fall back on. A reference to another step is
followed, and shown as unknown where it leads nowhere.

None of this looks at how the program was made, and it shows the right thing only because of that.
Arguments are handed over port by port, and what is behind them is a parameter, so the name to fall
back on is that of parameters and of nothing else. A reference is taken from the index, so it leads
to a step that was there, and this step computes what arrives at the port.

What there is to show of an argument can therefore be said from the graph alone, without the rest of
the program: the role of the port, and where a message comes from, the partner of the port.

## Main definitions

* `Graph.label?`: The label of a terminal.
* `Step.slots`: The arguments that are shown, with their slots.
* `Step.name?`, `Step.source?`, `Step.item?`: What is shown of an argument.
* `drawn`: Lines with a branch each, the last one with a corner.

## Theorems

* `branches_eq`: Which connector a line has.
* `argumentLines_eq_ok`: A line for each argument that is not left out, in order.
* `Program.MadeAt.port?_eq_none_iff`: Only parameters lie behind the ports.
* `Program.MadeAt.source_of_step`: A reference leads to the step for the partner of the port.
* `Program.MadeAt.exists_name`, `Program.MadeAt.exists_source`: What is shown of an argument.
* `listing_draws_arguments`: The listing of a program, line by line.
-/

namespace MessagePlan

/-- The label of a terminal. -/
def Graph.label? (g : Graph) (x : TerminalId) : Option String :=
  (g.label x : Except (Failure Empty) String).toOption

namespace Step

/-- The arguments that are not left out, each with its slot. -/
def slots (s : Step) : List (Argument × Nat) :=
  s.arguments.zipIdx.filter fun slot => slot.1 ≠ .absent

/-- The port of the node in a slot. -/
def port? (s : Step) (g : Graph) (k : Nat) : Option TerminalId := (g.ports s.terminal)[k]?

/-- The name for an argument in a slot: the role of the port there, unless it is a parameter. -/
def name? (s : Step) (g : Graph) (k : Nat) : Argument → Option String
  | .param _ _ => some "param"
  | _ => (s.port? g k).bind g.role?

/-- Where the argument in a slot comes from. Messages and marginals are those that arrive at the
    port there, from its partner and over its edge. -/
def source? (s : Step) (g : Graph) (k : Nat) : Argument → Option String
  | .absent => none
  | .literal value => some value.text
  | .step j => (((s.port? g k).bind g.partner?).bind g.label?).map fun l =>
      "#" ++ Nat.repr j ++ " (" ++ l ++ ")"
  | .stored _ => (((s.port? g k).bind g.partner?).bind g.label?).map fun l => "stored " ++ l
  | .marginal _ => ((s.port? g k).bind g.edge?).bind fun e =>
      g.edges[e.index]?.map fun edge => "marginal " ++ edge.name
  | .param name value => some (name ++ ": " ++ value.text)

/-- What is shown of the argument in a slot. -/
def item? (s : Step) (g : Graph) (slot : Argument × Nat) : Option String :=
  (s.name? g slot.2 slot.1).bind fun name =>
    (s.source? g slot.2 slot.1).map fun source => name ++ " = " ++ source

end Step

/-- Lines with a branch each, and the last one with a corner. -/
def drawn (lines : List String) : List String :=
  lines.mapIdx fun n line => (if n + 1 = lines.length then "   `-- " else "   |-- ") ++ line

section Lines

variable {ε : Type} {g : Graph} {q : Program}

/-- Every line but the last has a branch. -/
theorem branches_eq (lines : List String) : branches lines = drawn lines := by
  fun_induction branches lines with
  | case1 => rfl
  | case2 line => rfl
  | case3 line rest hne ih =>
    have hlast : ¬ 0 + 1 = (line :: rest).length := by
      intro hlength
      exact hne (List.length_eq_zero_iff.1 (Nat.succ.inj hlength).symm)
    rw [ih, drawn, drawn, List.mapIdx_cons, if_neg hlast]
    simp only [List.length_cons, Nat.add_right_cancel_iff]

theorem label?_eq_some (h : g.WellFormed) (x : TerminalId) :
    ∃ l, g.label? x = some l ∧ (g.label x : Except (Failure ε) String) = .ok l := by
  unfold Graph.label? Graph.label
  split
  · rename_i terminal hget
    have hn : g.nodeIdOf? x = some terminal.node := by rw [Graph.nodeIdOf?, hget, Option.map_some]
    rcases h.node_eq_ok (ε := ε) hn with ⟨node, hnode, _⟩
    simp only [Graph.node, handled_eq_ok.1 hnode, handled_some, ok_bind]
    exact ⟨_, rfl, rfl⟩
  · exact ⟨_, rfl, rfl⟩

/-- The name for an argument under some ports: the role of the first one, if there is one left. -/
def slotName (g : Graph) : Option TerminalId → Except (Failure ε) String
  | some y => do return (← g.terminal y).role
  | none => return "param"

theorem argumentLines_cons (ys : List TerminalId) {a : Argument} (ha : a ≠ .absent)
    (rest : List Argument) :
    (argumentLines g q ys (a :: rest) : Except (Failure ε) (List String)) =
      slotName g ys.head? >>= fun name => argumentText g q a >>= fun text =>
        argumentLines g q ys.tail rest >>= fun lines =>
          .ok ((name ++ " = " ++ text) :: lines) := by
  cases ys with
  | nil =>
    simp only [argumentLines, slotName, List.head?_nil]
    rfl
  | cons y ys =>
    simp only [argumentLines, slotName, List.head?_cons, bind_assoc, pure_bind]
    rfl

/-- There is a line for each argument that is not left out, in the order of the slots. -/
theorem argumentLines_eq_ok {ys : List TerminalId} {arguments : List Argument}
    {item? : Argument × Nat → Option String} {n : Nat}
    (hshows : ∀ (k : Nat) a, arguments[k]? = some a → a ≠ .absent → ∃ name text,
      (slotName g ys[k]? : Except (Failure ε) String) = .ok name ∧
        (argumentText g q a : Except (Failure ε) String) = .ok text ∧
        item? (a, n + k) = some (name ++ " = " ++ text)) :
    ∃ items, (argumentLines g q ys arguments : Except (Failure ε) (List String)) = .ok items ∧
      ((arguments.zipIdx n).filter fun slot => slot.1 ≠ .absent).map item? = items.map some := by
  -- The ports are taken away with the arguments, and the slots count on from `n`.
  induction arguments generalizing ys n with
  | nil => exact ⟨[], by rw [argumentLines]; rfl, rfl⟩
  | cons a rest ih =>
    have hrest : ∃ items,
        (argumentLines g q ys.tail rest : Except (Failure ε) (List String)) = .ok items ∧
          ((rest.zipIdx (n + 1)).filter fun slot => slot.1 ≠ .absent).map item? =
            items.map some := by
      refine ih fun k a' hk hne => ?_
      rcases hshows (k + 1) a' hk hne with ⟨name, text, hname, htext, hitem⟩
      refine ⟨name, text, ?_, htext, ?_⟩
      · rw [List.getElem?_tail]
        exact hname
      · rw [show n + 1 + k = n + (k + 1) by omega]
        exact hitem
    rcases hrest with ⟨items, hlines, hitems⟩
    rw [List.zipIdx_cons]
    by_cases ha : a = .absent
    · -- There is no line for it, but its port and its slot are gone.
      rw [ha, argumentLines, List.filter_cons_of_neg (by simp only [ne_eq, not_true, decide_false,
        Bool.false_eq_true, not_false_eq_true])]
      exact ⟨items, hlines, hitems⟩
    · rcases hshows 0 a rfl ha with ⟨name, text, hname, htext, hitem⟩
      rw [argumentLines_cons ys ha, List.head?_eq_getElem?, hname, ok_bind, htext, ok_bind, hlines,
        ok_bind, List.filter_cons_of_pos (by simpa only [ne_eq, decide_eq_true_eq] using ha)]
      refine ⟨_, rfl, ?_⟩
      rw [List.map_cons, List.map_cons, hitems]
      exact congrArg (· :: items.map some) hitem

end Lines

section Slots

variable {ε : Type} {g : Graph} {c : Catalog} {scope : Option Region} {known : KnownFamilies}
  {list : Schedule} {q sofar : Program} {i k : Nat} {s : Step} {r : Rule} {a : Argument}

/-- An argument that is neither left out nor a parameter is the input at the port in its slot. -/
theorem Program.MadeAt.exists_input (h : g.WellFormed)
    (hmade : q.MadeAt g c scope known list i s sofar r) (ha : s.arguments[k]? = some a)
    (hne : a ≠ .absent) (hparam : ∀ name value, a ≠ .param name value) :
    ∃ y, s.port? g k = some y ∧ g.input? sofar.stepOf scope y = some a := by
  rcases exists_port_of_ne_param h hmade.chosen.there hmade.chosen.given ha hparam with ⟨y, hy⟩
  rcases assemble_getElem? h hmade.chosen.there hmade.chosen.given hy with ⟨a', ha', hcase⟩
  rcases Option.some.inj (ha.symm.trans ha') with rfl
  rcases hcase with ⟨_, habsent⟩ | ⟨_, hinput⟩
  · exact absurd habsent hne
  · exact ⟨y, hy, hinput⟩

/-- Behind the ports there are only parameters, and they are only there. -/
theorem Program.MadeAt.port?_eq_none_iff (h : g.WellFormed)
    (hmade : q.MadeAt g c scope known list i s sofar r) (ha : s.arguments[k]? = some a) :
    s.port? g k = none ↔ ∃ name value, a = .param name value := by
  constructor
  · intro hnone
    by_contra hparam
    rcases exists_port_of_ne_param h hmade.chosen.there hmade.chosen.given ha
      (fun name value heq => hparam ⟨name, value, heq⟩) with ⟨y, hy⟩
    rw [Step.port?, hy] at hnone
    exact nomatch hnone
  · rintro ⟨name, value, rfl⟩
    rw [Option.eq_none_iff_forall_ne_some]
    intro y hy
    -- What is assembled for a port is left out or comes in through it.
    rcases assemble_getElem? h hmade.chosen.there hmade.chosen.given hy with ⟨a', ha', hcase⟩
    rcases Option.some.inj (ha.symm.trans ha') with rfl
    rcases hcase with ⟨_, habsent⟩ | ⟨_, hinput⟩
    · exact nomatch habsent
    · exact input?_ne_param name value hinput

/-- A reference leads to an earlier step, which computes what arrives at the port in the slot. -/
theorem Program.MadeAt.source_of_step (h : g.WellFormed)
    (hmade : q.MadeAt g c scope known list i s sofar r) {j : Nat}
    (ha : s.arguments[k]? = some (.step j)) :
    ∃ y source, s.port? g k = some y ∧ g.partner? y = some source.terminal ∧
      q.steps[j]? = some source := by
  rcases hmade.exists_input h ha nofun nofun with ⟨y, hy, hinput⟩
  rcases input?_eq_some hinput with
    ⟨p, hp, ⟨v, _, hc⟩ | ⟨_, ⟨_, j', hj', hc⟩ | ⟨_, _, _, hc⟩ | ⟨_, e, _, hc⟩⟩⟩
  · exact nomatch hc
  · -- The index was that of the steps there were, which have kept their places since.
    rcases Argument.step.inj hc with rfl
    rcases (hmade.index.last p j hj').step with ⟨source, hsource, rfl⟩
    have hlt : j < i := hmade.size ▸ (Array.getElem?_eq_some_iff.1 hsource).1
    exact ⟨y, source, hy, hp, hmade.before j hlt ▸ hsource⟩
  · exact nomatch hc
  · exact nomatch hc

theorem name?_of_ne_param (s : Step) (g : Graph) (k : Nat)
    (hparam : ∀ name value, a ≠ .param name value) :
    s.name? g k a = (s.port? g k).bind g.role? := by
  cases a with
  | param name value => exact absurd rfl (hparam name value)
  | _ => rfl

/-- The name for an argument is found where there is one to show. -/
theorem Program.MadeAt.exists_name (h : g.WellFormed)
    (hmade : q.MadeAt g c scope known list i s sofar r) (ha : s.arguments[k]? = some a)
    (hne : a ≠ .absent) :
    ∃ name, (slotName g (s.port? g k) : Except (Failure ε) String) = .ok name ∧
      s.name? g k a = some name := by
  -- A parameter has a name of its own; any other argument goes by the role of its terminal.
  by_cases hparam : ∃ name value, a = .param name value
  · rw [(hmade.port?_eq_none_iff h ha).2 hparam]
    rcases hparam with ⟨name, value, rfl⟩
    exact ⟨"param", rfl, rfl⟩
  · have hport : ∀ name value, a ≠ .param name value :=
      fun name value heq => hparam ⟨name, value, heq⟩
    rcases hmade.exists_input h ha hne hport with ⟨y, hy, _⟩
    have hthere := h.hasTerminal_of_mem_ports (List.mem_of_getElem? hy)
    rcases Graph.terminal_eq_ok (ε := ε) hthere with ⟨terminal, hget, _⟩
    refine ⟨terminal.role, ?_, ?_⟩
    · rw [hy, slotName, hget, ok_bind]
      rfl
    · rw [name?_of_ne_param s g k hport, hy, Option.bind_some, Graph.role?, handled_eq_ok.1 hget,
        Option.map_some]

/-- Where an argument comes from is written as there is to show, from the port in its slot. -/
theorem Program.MadeAt.exists_source (h : g.WellFormed)
    (hmade : q.MadeAt g c scope known list i s sofar r) (ha : s.arguments[k]? = some a)
    (hne : a ≠ .absent) :
    ∃ text, (argumentText g q a : Except (Failure ε) String) = .ok text ∧
      s.source? g k a = some text := by
  by_cases hparam : ∃ name value, a = .param name value
  · rcases hparam with ⟨name, value, rfl⟩
    exact ⟨name ++ ": " ++ value.text, rfl, rfl⟩
  rcases hmade.exists_input h ha hne fun name value heq => hparam ⟨name, value, heq⟩ with
    ⟨y, hy, hinput⟩
  rcases input?_eq_some hinput with ⟨p, hp, hcase⟩
  have hpartner : (s.port? g k).bind g.partner? = some p := by rw [hy, Option.bind_some, hp]
  rcases label?_eq_some (ε := ε) h p with ⟨l, hlabel, hl⟩
  rcases hcase with ⟨v, _, rfl⟩ | ⟨_, ⟨_, j, _, rfl⟩ | ⟨_, _, _, rfl⟩ | ⟨_, e, he, rfl⟩⟩
  · exact ⟨v.text, rfl, rfl⟩
  · rcases hmade.source_of_step h ha with ⟨y', source, hy', hsource, hget⟩
    -- The step that is found is the one for the partner of the port.
    rcases Option.some.inj (hy.symm.trans hy') with rfl
    rcases Option.some.inj (hp.symm.trans hsource) with rfl
    refine ⟨"#" ++ Nat.repr j ++ " (" ++ l ++ ")", ?_, ?_⟩
    · simp only [argumentText, hget, hl, ok_bind]
      rfl
    · simp only [Step.source?, hpartner, Option.bind_some, hlabel, Option.map_some]
  · refine ⟨"stored " ++ l, ?_, ?_⟩
    · simp only [argumentText, hl, ok_bind]
      rfl
    · simp only [Step.source?, hpartner, Option.bind_some, hlabel, Option.map_some]
  · -- A marginal is named after the edge of the port.
    have hthere : e.index < g.edges.size := of_decide_eq_true (h.hasEdge_of_edge? he)
    have hedge := Array.getElem?_eq_getElem hthere
    refine ⟨"marginal " ++ g.edges[e.index].name, ?_, ?_⟩
    · simp only [argumentText, Graph.edge, hedge, handled_some, ok_bind]
      rfl
    · simp only [Step.source?, hy, Option.bind_some, he, hedge, Option.map_some]

/-- The name and the text for an argument make up what there is to show of it. -/
theorem Program.MadeAt.shows (h : g.WellFormed)
    (hmade : q.MadeAt g c scope known list i s sofar r) (ha : s.arguments[k]? = some a)
    (hne : a ≠ .absent) : ∃ name text,
      (slotName g (s.port? g k) : Except (Failure ε) String) = .ok name ∧
        (argumentText g q a : Except (Failure ε) String) = .ok text ∧
        s.item? g (a, k) = some (name ++ " = " ++ text) := by
  rcases hmade.exists_name (ε := ε) h ha hne with ⟨name, hname, hview⟩
  rcases hmade.exists_source (ε := ε) h ha hne with ⟨text, htext, hsource⟩
  refine ⟨name, text, hname, htext, ?_⟩
  rw [Step.item?, hview, hsource, Option.bind_some, Option.map_some]

end Slots

section Programs

variable {ε : Type} {g : Graph} {c : Catalog} {p : Program}

/-- Every program was made step by step from a list of terminals that are there. -/
theorem Program.CompiledFor.exists_recorded (h : g.WellFormed) (hp : p.CompiledFor g c) :
    ∃ list scope known, p.Recorded g c scope known list := by
  rcases hp.exists_compileScoped with ⟨list, scope, known, hcompiled⟩
  exact ⟨list, scope, known,
    recorded_of_compileScoped h (hasTerminal_of_compileScoped hcompiled) hcompiled⟩

/-- The first line for a step. -/
def Step.heading (place : Nat) (s : Step) (label : String) (r : Rule) : String :=
  "[" ++ Nat.repr place ++ "] " ++ label ++ " <- " ++ r.name ++ " : " ++ s.produces.name

/-- The block for a step has its heading and a line for each argument that is not left out. -/
theorem Program.MadeAt.exists_stepLines (h : g.WellFormed) {scope : Option Region}
    {known : KnownFamilies} {list : Schedule} {sofar : Program} {i : Nat} {s : Step} {r : Rule}
    (hmade : p.MadeAt g c scope known list i s sofar r) : ∃ label items,
      g.label? s.terminal = some label ∧ s.slots.map (s.item? g) = items.map some ∧
        (stepLines g c p i s : Except (Failure ε) (List String)) =
          .ok (s.heading i label r :: drawn items) := by
  rcases label?_eq_some (ε := ε) h s.terminal with ⟨label, hlabel, hl⟩
  rcases h.ownerOf_eq_ok (ε := ε) hmade.chosen.there with ⟨node, hnode, hports, _⟩
  have hrule : c.rule? s.rule = some r := by
    rcases hmade.chosen.resolved with ⟨kind, role, _, _, hres⟩
    exact (Catalog.mem_candidates.1 (Catalog.mem_candidates_of_resolve hres)).1
  -- Every argument that is not absent is drawn, since each has a name and a source.
  have hdrawn : ∃ items,
      (argumentLines g p (g.ports s.terminal) s.arguments : Except (Failure ε) (List String)) =
          .ok items ∧
        s.slots.map (s.item? g) = items.map some := by
    refine argumentLines_eq_ok fun k a ha hne => ?_
    rw [Nat.zero_add]
    exact hmade.shows h ha hne
  rcases hdrawn with ⟨items, hlines, hitems⟩
  refine ⟨label, items, hlabel, hitems, ?_⟩
  simp only [stepLines, hrule, handled_some, ok_bind, hl, hnode, hports, hlines, branches_eq]
  rfl

/-- The listing of a program that was compiled for a reachable graph, as a whole or as part of a
    plan, has a block for each step. Under the heading there is one line for each argument that is
    not left out, in the order of the slots, the last of them with a corner and the others with a
    branch. It names the argument by the role of the port in its slot, unless it is a parameter,
    which is so exactly where the ports have come to an end; and a reference to a step is shown with
    the label of the partner of the port, which is the terminal of the step that it leads to. -/
theorem listing_draws_arguments (hg : Reachable g) (hp : p.CompiledFor g c) :
    ∃ blocks : List (List String), (p.listing g c : Except (Failure ε) String) =
        .ok (String.join ((headingLines p ++ blocks.flatten).map (· ++ "\n"))) ∧
      blocks.length = p.steps.size ∧
      ∀ (i : Nat) s, p.steps[i]? = some s →
        (∃ label r items, g.label? s.terminal = some label ∧ c.rule? s.rule = some r ∧
          s.slots.map (s.item? g) = items.map some ∧
          blocks[i]? = some (s.heading i label r :: drawn items)) ∧
        (∀ (k : Nat) a, s.arguments[k]? = some a →
          (s.port? g k = none ↔ ∃ name value, a = .param name value)) ∧
        ∀ k j : Nat, s.arguments[k]? = some (.step j) → ∃ y source, s.port? g k = some y ∧
          g.partner? y = some source.terminal ∧ p.steps[j]? = some source := by
  have h := Graph.wellFormed_of_reachable hg
  rcases hp.exists_recorded h with ⟨list, scope, known, hrecorded⟩
  -- Every step can be drawn, and so the listing is what was drawn, step by step.
  have hsteps : ∀ entry ∈ p.steps.toList.zipIdx, ∃ lines,
      (stepLines g c p entry.2 entry.1 : Except (Failure ε) (List String)) = .ok lines := by
    rintro ⟨s, i⟩ hentry
    have hs := List.mem_zipIdx_iff_getElem?.1 hentry
    rw [Array.getElem?_toList] at hs
    rcases hrecorded.made i s hs with ⟨sofar, r, hmade⟩
    rcases hmade.exists_stepLines (ε := ε) h with ⟨label, items, _, _, hlines⟩
    exact ⟨_, hlines⟩
  rcases exists_mapM_eq_ok hsteps with ⟨blocks, hblocks⟩
  rcases mapM_eq_ok_iff.1 hblocks with ⟨hlength, hplaces⟩
  refine ⟨blocks, by rw [Program.listing, hblocks]; rfl,
    by rw [hlength, List.length_zipIdx, Array.length_toList], fun i s hs => ?_⟩
  rcases hrecorded.made i s hs with ⟨sofar, r, hmade⟩
  refine ⟨?_, fun k a ha => hmade.port?_eq_none_iff h ha, fun k j ha => hmade.source_of_step h ha⟩
  rcases hmade.exists_stepLines (ε := ε) h with ⟨label, items, hlabel, hitems, hlines⟩
  have hentry : p.steps.toList.zipIdx[i]? = some (s, i) := by
    rw [List.getElem?_zipIdx, Array.getElem?_toList, hs, Option.map_some, Nat.zero_add]
  -- The block in the place of a step is the one drawn for it.
  rcases hplaces i (s, i) hentry with ⟨lines, hget, hlines'⟩
  rcases Except.ok.inj (hlines.symm.trans hlines') with rfl
  rcases hmade.chosen.resolved with ⟨kind, role, _, _, hres⟩
  exact ⟨label, r, items, hlabel,
    (Catalog.mem_candidates.1 (Catalog.mem_candidates_of_resolve hres)).1, hitems, hget⟩

/-- The last block of the chain has a single line, since the argument for what is computed is left
    out. What is doubled is the message of the second step for the sum. -/
theorem listing_draws_arguments_chain : Reachable chainGraph ∧
    ∃ p : Program, p.CompiledFor chainGraph chainCatalog ∧ ∃ blocks : List (List String),
      (p.listing chainGraph chainCatalog : Except (Failure CompileError) String) =
        .ok (String.join ((headingLines p ++ blocks.flatten).map (· ++ "\n"))) ∧
      blocks[3]? = some ["[3] double.out <- double : Gaussian", "   `-- in1 = #2 (sum.out)"] := by
  have hg : Reachable chainGraph := (Reachable.empty _).applyAll _
  rcases exists_program_chain with ⟨p, hp, _, hlast⟩
  have hcompiled : p.CompiledFor chainGraph chainCatalog := Or.inl ⟨chainList, hp⟩
  rcases listing_draws_arguments (ε := CompileError) hg hcompiled with
    ⟨blocks, hlisting, _, hblocks⟩
  rcases (hblocks 3 _ hlast).1 with ⟨label, r, items, hlabel, hrule, hitems, hblock⟩
  refine ⟨hg, p, hcompiled, blocks, hlisting, ?_⟩
  have hlabel' : chainGraph.label? ⟨5⟩ = some "double.out" := by decide +kernel
  have hitems' : ((Step.slots ⟨⟨5⟩, ⟨1⟩, .gaussian, [.absent, .step 2]⟩).map
      (Step.item? ⟨⟨5⟩, ⟨1⟩, .gaussian, [.absent, .step 2]⟩ chainGraph)) =
        [some "in1 = #2 (sum.out)"] := by
    decide +kernel
  rcases Option.some.inj (hlabel.symm.trans hlabel') with rfl
  rcases Option.some.inj hrule with rfl
  have heq : items = ["in1 = #2 (sum.out)"] :=
    (List.map_inj_right fun _ _ => Option.some.inj).1 (hitems.symm.trans hitems')
  rw [hblock, heq]
  decide +kernel

end Programs

end MessagePlan
