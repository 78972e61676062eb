import MessagePlan.Proofs.Schedule.Regional

/-!
# What Schedules Look At

A schedule is found by looking at a graph: at the nodes and terminals and how they are connected,
and at whether some terminals hold a message. Two graphs have the `SameShape` if they tell the same
when it is not asked for messages. What is left are the messages, and these are asked for in one
place only, by `needAt`, where a partner is found in the scope. So whatever answers the same there
makes the same schedules, with the same refusals; and this is so for any graphs, well formed or not.

Of a region nothing is looked at but its edges, and its handle where it is named in a refusal. The
schedule that it stores has no influence, so the theorems compare a region with the same region
after another schedule was stored in it.

## Main definitions

* `Graph.SameShape`: Two graphs that differ in messages, literals and parameters at most.
* `SameNeeds`: Two graphs and scopes in which the same is needed everywhere.

## Theorems

* `bind_terminal`, `bind_node`, `bind_edge`: A question that leaves messages alone has the same
  answer.
* `SameShape.partner?_eq`, `SameShape.ports_eq`, `SameShape.inside_iff`: Views are the same.
* `SameShape.needAt_eq`: What is needed at a terminal is the same if the message asked for there is.
* `SameShape.sameNeeds`: It is enough that the partners in the scope agree on their messages.
* `sameNeeds_of_inScope`: It is enough that scopes include the same edges.
* `visit_congr`, `listed_congr`: A traversal goes the same way.
* `schedule_congr`, `completePartial_congr`, `scheduleOf_congr`: Schedules are the same.
-/

namespace MessagePlan

/-- A terminal without its message. -/
def Terminal.bare (t : Terminal) : Terminal := { t with message := none }

/-- Two graphs that tell the same when they are not asked for messages, literals or parameters. -/
structure Graph.SameShape (g g' : Graph) : Prop where
  terminal : ∀ i : Nat, g'.terminals[i]?.map Terminal.bare = g.terminals[i]?.map Terminal.bare
  node : ∀ i : Nat, g'.nodes[i]?.map (fun n => (n.name, n.terminals)) =
    g.nodes[i]?.map fun n => (n.name, n.terminals)
  edge : ∀ i : Nat, g'.edges[i]?.map (fun e => (e.a, e.b)) = g.edges[i]?.map fun e => (e.a, e.b)

/-- Two graphs and scopes in which the same is needed at every terminal. -/
def SameNeeds (g g' : Graph) (scope scope' : Option Region) : Prop :=
  ∀ x y, needAt g' scope' x y = needAt g scope x y

/-! ### Questions with the same answer -/

section Options

variable {ε α β γ : Type} {k : α → γ} {o o' : Option α}

/-- Options that look the same are both empty, or what they hold looks the same. -/
theorem cases_of_map_eq (h : o'.map k = o.map k) :
    o' = none ∧ o = none ∨ ∃ a a', o' = some a' ∧ o = some a ∧ k a' = k a := by
  cases o with
  | none => exact Or.inl ⟨Option.map_eq_none_iff.1 h, rfl⟩
  | some a =>
    rcases Option.map_eq_some_iff.1 h with ⟨a', ha', heq⟩
    exact Or.inr ⟨a, a', ha', rfl, heq⟩

/-- What is done with what a trusted handle names is the same, if it depends on the looks alone. -/
theorem handled_bind_congr {f : α → Except (Failure ε) β} (h : o'.map k = o.map k)
    (hf : ∀ a a', k a' = k a → f a' = f a) : handled o' >>= f = handled o >>= f := by
  rcases cases_of_map_eq h with ⟨rfl, rfl⟩ | ⟨a, a', rfl, rfl, heq⟩
  · rfl
  · exact hf a a' heq

end Options

variable {ε α : Type} {g g' : Graph} {scope scope' : Option Region} {x y p : TerminalId}

namespace Graph.SameShape

/-- A graph has its own shape. -/
theorem refl (g : Graph) : g.SameShape g := ⟨fun _ => rfl, fun _ => rfl, fun _ => rfl⟩

variable (h : g.SameShape g')

include h

/-- There are as many terminals, so the same handles name one. -/
theorem size_terminals : g'.terminals.size = g.terminals.size := by
  -- The first place without a terminal is the same.
  have hnone : ∀ i, g'.terminals[i]? = none ↔ g.terminals[i]? = none := fun i => by
    rw [← Option.map_eq_none_iff (f := Terminal.bare), h.terminal, Option.map_eq_none_iff]
  simp only [Array.getElem?_eq_none_iff] at hnone
  exact Nat.le_antisymm ((hnone _).2 (Nat.le_refl _)) ((hnone _).1 (Nat.le_refl _))

theorem hasTerminal_eq : g'.hasTerminal x = g.hasTerminal x := by
  rw [Graph.hasTerminal, Graph.hasTerminal, h.size_terminals]

/-- What is asked of a terminal has the same answer, if it is not its message. -/
theorem bind_terminal {f : Terminal → Except (Failure ε) α} (hf : ∀ t : Terminal, f t.bare = f t) :
    g'.terminal x >>= f = g.terminal x >>= f :=
  handled_bind_congr (h.terminal x.index) fun t t' hbare => by rw [← hf t', hbare, hf t]

/-- What is asked of a node has the same answer, if it is its name or its terminals. -/
theorem bind_node {f : Node → Except (Failure ε) α} {n : NodeId}
    (hf : ∀ m m' : Node, m'.name = m.name → m'.terminals = m.terminals → f m' = f m) :
    g'.node n >>= f = g.node n >>= f :=
  handled_bind_congr (h.node n.slot) fun m m' heq =>
    hf m m' (congrArg Prod.fst heq) (congrArg Prod.snd heq)

/-- What is asked of an edge has the same answer, if it is its sides. -/
theorem bind_edge {f : Edge → Except (Failure ε) α} {e : EdgeId}
    (hf : ∀ d d' : Edge, d'.a = d.a → d'.b = d.b → f d' = f d) :
    g'.edge e >>= f = g.edge e >>= f :=
  handled_bind_congr (h.edge e.index) fun d d' heq =>
    hf d d' (congrArg Prod.fst heq) (congrArg Prod.snd heq)

/-- What is asked of the node of a terminal has the same answer, if it is its name or its terminals.
    -/
theorem bind_ownerOf {f : Node → Except (Failure ε) α}
    (hf : ∀ m m' : Node, m'.name = m.name → m'.terminals = m.terminals → f m' = f m) :
    g'.ownerOf x >>= f = g.ownerOf x >>= f := by
  unfold Graph.ownerOf
  rw [bind_assoc, bind_assoc]
  refine Eq.trans (h.bind_terminal fun t => rfl) (bind_congr fun t => ?_)
  exact h.bind_node hf

/-- Labels are made of names and roles. -/
theorem label_eq : (g'.label x : Except (Failure ε) String) = g.label x := by
  unfold Graph.label
  rcases cases_of_map_eq (h.terminal x.index) with ⟨hnone', hnone⟩ | ⟨t, t', ht', ht, hbare⟩
  · rw [hnone', hnone]
  · -- The node and the role are what they are without the message.
    have hnode : t'.node = t.node := show t'.bare.node = t.bare.node by rw [hbare]
    have hrole : t'.role = t.role := show t'.bare.role = t.bare.role by rw [hbare]
    rw [ht', ht]
    simp only [hnode, hrole]
    refine h.bind_node fun m m' hname _ => ?_
    rw [hname]

/-- Whether a terminal holds a message has the same answer if both do or neither does, and none for
    a terminal that is not there. -/
theorem hasMessage_eq (hheld : (g'.message? p).isSome = (g.message? p).isSome) :
    (g'.hasMessage p : Except (Failure ε) Bool) = g.hasMessage p := by
  cases hp : g.hasTerminal p with
  | true => rw [hasMessage_eq_ok hp, hasMessage_eq_ok (h.hasTerminal_eq.trans hp), hheld]
  | false =>
    -- Where there is no terminal, it is the handle that is refused.
    have hnone : ∀ g : Graph, g.hasTerminal p = false →
        (g.hasMessage p : Except (Failure ε) Bool) = .error .noSuchHandle := by
      intro g hp
      rw [Graph.hasTerminal, decide_eq_false_iff_not, Nat.not_lt] at hp
      rw [Graph.hasMessage, Graph.terminal, Array.getElem?_eq_none hp]
      rfl
    rw [hnone g hp, hnone g' (h.hasTerminal_eq.trans hp)]

theorem partner?_eq : g'.partner? x = g.partner? x := by
  -- The view does not look at the message.
  have hbare : ∀ g : Graph, g.partner? x =
      (g.terminals[x.index]?.map Terminal.bare).bind Terminal.partner := fun g => by
    rw [Option.bind_map]
    rfl
  rw [hbare, h.terminal, ← hbare]

theorem edge?_eq : g'.edge? x = g.edge? x := by
  have hbare : ∀ g : Graph, g.edge? x =
      (g.terminals[x.index]?.map Terminal.bare).bind Terminal.edge := fun g => by
    rw [Option.bind_map]
    rfl
  rw [hbare, h.terminal, ← hbare]

/-- A node has the same terminals. -/
theorem ports_eq : g'.ports x = g.ports x := by
  -- The node of a terminal and the list at a node are views without the message.
  have hnode : ∀ g : Graph, g.nodeIdOf? x =
      (g.terminals[x.index]?.map Terminal.bare).map Terminal.node := fun g => by
    rw [Option.map_map]
    rfl
  have hports : ∀ (g : Graph) i, g.portsAt? i =
      (g.nodes[i]?.map fun n => (n.name, n.terminals)).map Prod.snd := fun g i => by
    rw [Option.map_map]
    rfl
  rw [Graph.ports, hnode, h.terminal, ← hnode, Graph.ports]
  simp only [hports, h.node]

/-- The same terminals are inside a scope. -/
theorem inside_iff : Inside g' scope x ↔ Inside g scope x := by
  simp only [Inside, h.edge?_eq]

theorem loose_iff : Loose g' x y ↔ Loose g x y := by
  simp only [Loose, h.ports_eq, h.partner?_eq]

/-- The same is needed at a terminal if its partner, where that is asked, holds a message in both
    graphs or in neither. -/
theorem needAt_eq (hheld : ∀ p, y ≠ x → inScope scope (g.edge? y) = true → g.partner? y = some p →
    (g'.message? p).isSome = (g.message? p).isSome) :
    needAt g' scope x y = needAt g scope x y := by
  unfold needAt
  by_cases hyx : y = x
  · rw [if_pos hyx, if_pos hyx]
  rw [if_neg hyx, if_neg hyx]
  refine Eq.trans (h.bind_terminal fun t => rfl) ?_
  -- It is asked on the near side whether the edge is in the scope, and on the far side for the
  -- message.
  cases hget : (g.terminal y : Except (Failure ScheduleError) Terminal) with
  | error e => rfl
  | ok t =>
    have hy : g.terminals[y.index]? = some t := handled_eq_ok.1 hget
    rw [ok_bind, ok_bind]
    cases hin : inScope scope t.edge with
    | false => rfl
    | true =>
      cases hpartner : t.partner with
      | none => simp only [h.label_eq]
      | some p =>
        have hmessage := hheld p hyx (by rw [Graph.edge?, hy, Option.bind_some, hin])
          (by rw [Graph.partner?, hy, Option.bind_some, hpartner])
        simp only [h.hasMessage_eq hmessage]

/-- Graphs need the same in a scope where the partners in it agree on whether they hold a
    message. -/
theorem sameNeeds (hheld : ∀ y p, inScope scope (g.edge? y) = true → g.partner? y = some p →
    (g'.message? p).isSome = (g.message? p).isSome) : SameNeeds g g' scope scope :=
  fun _ y => h.needAt_eq fun p _ hin hp => hheld y p hin hp

end Graph.SameShape

/-- Where scopes include the same edges of a graph, they include the same of a terminal there. -/
theorem inScope_of_terminal (hscope : ∀ y, inScope scope' (g.edge? y) = inScope scope (g.edge? y))
    {t : Terminal} (hget : (g.terminal y : Except (Failure ε) Terminal) = .ok t) :
    inScope scope' t.edge = inScope scope t.edge := by
  have hedge : g.edge? y = t.edge := by
    rw [Graph.edge?, handled_eq_ok.1 hget, Option.bind_some]
  rw [← hedge, hscope]

/-- Scopes that include the same edges of a graph need the same there. -/
theorem sameNeeds_of_inScope
    (hscope : ∀ y, inScope scope' (g.edge? y) = inScope scope (g.edge? y)) :
    SameNeeds g g scope scope' := by
  intro x y
  unfold needAt
  split
  · rfl
  -- Scopes are asked about the edge of the terminal only.
  cases hget : (g.terminal y : Except (Failure ScheduleError) Terminal) with
  | error e => rfl
  | ok t => rw [ok_bind, ok_bind, inScope_of_terminal hscope hget]

/-- The schedule that a region stores has no influence on what is needed there. -/
theorem sameNeeds_withSchedule (g : Graph) (r : Region) (s : Schedule) :
    SameNeeds g g (some r) (some { r with schedule := s }) :=
  sameNeeds_of_inScope fun y => by cases g.edge? y <;> rfl

/-! ### Traversals that go the same way -/

namespace Traversal

variable (h : g.SameShape g')

include h

theorem start_congr : start g' = start g := by
  rw [start, start, h.size_terminals]

/-- Entering a terminal, only the terminals of its node are asked for, or its label. -/
theorem enter_congr (t : Traversal) : enter g' p t = enter g p t := by
  unfold enter
  split
  · split
    · exact h.bind_ownerOf fun m m' _ hterminals => by rw [hterminals]
    · rw [h.label_eq]
    · rfl
  · rfl

variable (hneeds : SameNeeds g g' scope scope')

include hneeds

/-- A step asks what is needed at a terminal and enters it. -/
theorem step_congr (t : Traversal) : step g' scope' t = step g scope t := by
  unfold step
  split
  · rfl
  · rfl
  · rw [hneeds]
    split
    · rfl
    · rfl
    · exact enter_congr h _

/-- From the same traversal the same steps lead to the same end, or to the same refusal. -/
theorem run_congr (t : Traversal) : run g' scope' t = run g scope t := by
  -- The induction follows the run on the one graph.
  induction t using run.induct g scope with
  | case1 t ht => rw [run_of_empty ht, run_of_empty ht]
  | case2 t ht e he => rw [run_eq_step ht, run_eq_step ht, step_congr h hneeds, he]; rfl
  | case3 t ht u hu ih =>
    rw [run_eq_step ht, run_eq_step ht, step_congr h hneeds, hu]
    exact ih

theorem visit_congr (t : Traversal) (target : TerminalId) :
    visit g' scope' t target = visit g scope t target := by
  -- A target that is there is entered, and the rest is run.
  unfold visit
  rw [h.hasTerminal_eq, enter_congr h]
  split
  · split
    · rfl
    · exact run_congr h hneeds _
  · rfl

/-- All targets are visited alike, since each is. -/
theorem visitAll_congr (t : Traversal) (targets : List TerminalId) :
    visitAll g' scope' t targets = visitAll g scope t targets := by
  have hvisit : visit g' scope' = visit g scope :=
    funext fun t => funext fun target => visit_congr h hneeds t target
  rw [visitAll_eq_foldlM, visitAll_eq_foldlM, hvisit]

end Traversal

/-! ### Schedules that are the same -/

section Schedules

variable (h : g.SameShape g') (hneeds : SameNeeds g g' scope scope')

include h hneeds

/-- The same is listed for some targets. -/
theorem listed_congr (targets : List TerminalId) :
    listed g' scope' targets = listed g scope targets := by
  rw [listed, listed, Traversal.start_congr h, Traversal.visitAll_congr h hneeds]

/-- The same is scheduled for a target. -/
theorem schedule_congr (target : TerminalId) :
    g'.schedule target scope' = g.schedule target scope := by
  rw [Graph.schedule, Graph.schedule, Traversal.start_congr h, Traversal.visit_congr h hneeds]

end Schedules

section Regions

variable {r : Region} {s : Schedule} {n : NodeId} {edges : Std.ExtTreeSet EdgeId}
  (h : g.SameShape g')

include h

theorem terminalIsOn_congr : (Region.terminalIsOn g' edges : TerminalId → Except (Failure ε) Bool) =
    Region.terminalIsOn g edges :=
  funext fun _ => h.bind_terminal fun _ => rfl

theorem nodeIsOn_congr : (Region.nodeIsOn g' edges : NodeId → Except (Failure ε) Bool) =
    Region.nodeIsOn g edges := by
  funext n
  unfold Region.nodeIsOn
  rw [terminalIsOn_congr h]
  exact h.bind_node fun m m' _ hterminals => by rw [hterminals]

/-- A region owns the same terminals. -/
theorem owns_congr : (({ r with schedule := s } : Region).owns g' x : Except (Failure ε) Bool) =
    r.owns g x := by
  unfold Region.owns Region.touches
  rw [nodeIsOn_congr h]
  exact h.bind_terminal fun _ => rfl

theorem endpoints_congr : (Region.endpoints g' : EdgeId → Except (Failure ε) (List NodeId)) =
    Region.endpoints g := by
  funext e
  unfold Region.endpoints
  -- The edge is asked for its sides, and the sides for their nodes.
  refine Eq.trans (h.bind_edge fun d d' ha hb => by rw [ha, hb]) (bind_congr fun d => ?_)
  refine Eq.trans (h.bind_terminal fun _ => rfl) (bind_congr fun a => ?_)
  exact h.bind_terminal fun _ => rfl

/-- A region has the same boundary. -/
theorem boundary_congr : (({ r with schedule := s } : Region).boundary g' :
    Except (Failure ε) (List NodeId)) = r.boundary g := by
  unfold Region.boundary Region.nodes
  rw [endpoints_congr h, nodeIsOn_congr h]

theorem terminalsInside_congr : (({ r with schedule := s } : Region).terminalsInside g' :
    NodeId → Except (Failure ε) (List TerminalId)) = r.terminalsInside g := by
  funext n
  unfold Region.terminalsInside
  rw [terminalIsOn_congr h]
  exact h.bind_node fun m m' _ hterminals => by rw [hterminals]

theorem tapTerminals_congr : (Tap.terminals g' : Tap → Except (Failure ε) (List TerminalId)) =
    Tap.terminals g := by
  funext tap
  cases tap with
  | terminal q => rfl
  | edge e => exact h.bind_edge fun d d' ha hb => by rw [ha, hb]

variable (hneeds : SameNeeds g g' (some r) (some { r with schedule := s }))

include hneeds

/-- The same is sent into the boundary. -/
theorem inbound_congr (ns : List NodeId) :
    ({ r with schedule := s } : Region).inbound g' ns = r.inbound g ns := by
  -- At a terminal that receives, the sender is visited, or the terminal is reported by its label.
  have hsender : Region.visitSender g' { r with schedule := s } = Region.visitSender g r := by
    funext t y
    unfold Region.visitSender
    refine Eq.trans (h.bind_terminal fun _ => rfl) (bind_congr fun terminal => ?_)
    cases terminal.partner with
    | none => simp only [h.label_eq]
    | some q => exact Traversal.visit_congr h hneeds t q
  unfold Region.inbound
  rw [hsender, terminalsInside_congr h, Traversal.start_congr h]

/-- Of some terminals, those that the region owns are visited alike. -/
theorem owned_congr (t : Traversal) (ps : List TerminalId) :
    ({ r with schedule := s } : Region).owned g' t ps = r.owned g t ps := by
  -- The induction is on what is wanted, where each is visited or passed over.
  induction ps generalizing t with
  | nil => rfl
  | cons q ps ih =>
    unfold Region.owned
    rw [owns_congr h]
    refine bind_congr fun owns => ?_
    cases owns with
    | true =>
      simp only [if_true]
      rw [Traversal.visit_congr h hneeds]
      exact bind_congr fun u => ih u
    | false => exact ih t

theorem wrapOutputs_congr (wraps : List TimeWrap) :
    ({ r with schedule := s } : Region).wrapOutputs g' wraps = r.wrapOutputs g wraps := by
  unfold Region.wrapOutputs
  rw [owned_congr h hneeds, Traversal.start_congr h]

theorem tapped_congr (taps : List Tap) :
    ({ r with schedule := s } : Region).tapped g' taps = r.tapped g taps := by
  have howned : ({ r with schedule := s } : Region).owned g' = r.owned g :=
    funext fun t => funext fun ps => owned_congr h hneeds t ps
  unfold Region.tapped
  rw [howned, tapTerminals_congr h, Traversal.start_congr h]

/-- The schedule of a region is the same on a graph of the same shape where the same is needed, in a
    partition of which the same is wanted, whatever schedules are stored there. -/
theorem scheduleOf_congr {p p' : Partition} {id : RegionId} (hr : p.region? id = some r)
    (hr' : p'.region? id = some { r with schedule := s }) (hwraps : p'.timeWraps = p.timeWraps)
    (htaps : p'.taps = p.taps) (config : Config) :
    p'.scheduleOf g' config id = p.scheduleOf g config id := by
  -- The four parts are found one after the other, and each is the same.
  rw [scheduleOf_eq hr', scheduleOf_eq hr, boundary_congr h, hwraps, htaps,
    wrapOutputs_congr h hneeds, tapped_congr h hneeds]
  refine bind_congr fun ns => ?_
  rw [inbound_congr h hneeds, Region.univariate, Region.univariate, terminalsInside_congr h]

/-- A list is completed alike, or one of its entries is refused alike. -/
theorem completePartial_congr (entries : Schedule) :
    g'.completePartial entries { r with schedule := s } = g.completePartial entries r := by
  -- Entries are checked for being there and owned, and are named by their labels.
  have hcheck : g'.checkEntries { r with schedule := s } entries = g.checkEntries r entries := by
    induction entries with
    | nil => rfl
    | cons x entries ih =>
      unfold Graph.checkEntries
      rw [h.hasTerminal_eq, owns_congr h, h.label_eq, ih]
  unfold Graph.completePartial
  rw [hcheck]
  exact bind_congr fun _ => listed_congr h hneeds entries

end Regions

end MessagePlan
