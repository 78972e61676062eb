import MessagePlan.Dependency.Loops
import MessagePlan.Proofs.Schedule.Shape

/-!
# Graphs Without Their Numbers

The numbers in a graph are carried along: those of the messages on its terminals, of the literals of
its constants, and of the parameters of its nodes. The outline of a graph is the graph with all of
them taken out. It still tells where a message is and of which family, which nodes produce
constants, and what parameters a node has by name.

Two graphs differ in their numbers only if they have one outline. So nothing has to be said of two
graphs at a time: what an operation answers for a graph is compared with what it answers for the
outline, and each look-up in the outline is the look-up in the graph, with the numbers taken out of
what was found. Schedules and loops find nothing that has numbers in it, and they are the same.

## Main definitions

* `Value.outline`, `Message.outline`, `Terminal.outline`, `Node.outline`, `Graph.outline`: What is
  left without the numbers.

## Theorems

* `terminal_outline`, `node_outline`, `ownerOf_outline`, `constantAt_outline`: What is found in an
  outline.
* `sameShape_outline`, `sameNeeds_outline`: An outline has the shape of its graph and its needs.
* `schedule_outline`, `completePartial_outline`, `scheduleOf_outline`: Schedules are those of the
  outline.
* `loopsWith_outline`, `breakersFrom_outline`: Loops are those of the outline, whatever finds the
  components.
-/

namespace MessagePlan

/-- A value without its numbers. -/
def Value.outline (_ : Value) : Value := .series []

/-- A message of the same family without its numbers. -/
def Message.outline (m : Message) : Message := { m with params := m.params.outline }

/-- A terminal whose message, if it holds one, is without its numbers. -/
def Terminal.outline (t : Terminal) : Terminal :=
  { t with message := t.message.map Message.outline }

/-- A node without the numbers of its literal and of its parameters. -/
def Node.outline (n : Node) : Node :=
  { n with
    constant := n.constant.map Value.outline
    params := n.params.map fun entry => (entry.1, entry.2.outline) }

/-- A graph without its numbers. -/
def Graph.outline (g : Graph) : Graph :=
  { g with nodes := g.nodes.map Node.outline, terminals := g.terminals.map Terminal.outline }

section Looks

variable (t : Terminal) (n : Node)

@[simp] theorem Terminal.outline_node : t.outline.node = t.node := rfl

@[simp] theorem Terminal.outline_role : t.outline.role = t.role := rfl

@[simp] theorem Terminal.outline_edge : t.outline.edge = t.edge := rfl

@[simp] theorem Terminal.outline_partner : t.outline.partner = t.partner := rfl

@[simp] theorem Node.outline_name : n.outline.name = n.name := rfl

@[simp] theorem Node.outline_kind : n.outline.kind = n.kind := rfl

@[simp] theorem Node.outline_terminals : n.outline.terminals = n.terminals := rfl

@[simp] theorem Node.outline_isConstant : n.outline.isConstant = n.isConstant := Option.isSome_map

end Looks

/-- A node has the same parameters by name. -/
theorem Node.param?_outline (n : Node) (key : String) :
    n.outline.param? key = (n.param? key).map Value.outline := by
  unfold Node.param? Node.outline
  simp only []
  induction n.params with
  | nil => rfl
  | cons entry params ih =>
    rw [List.map_cons, List.lookup_cons, List.lookup_cons, ih]
    cases key == entry.1 with
    | true => rfl
    | false => rfl

variable {ε : Type} {g : Graph} {scope : Option Region} {p x : TerminalId}

/-! ### What is found in an outline -/

/-- What a handle names among things that were changed is what it named before, changed. -/
theorem handled_map {α β : Type} (k : α → β) (named : Option α) :
    (handled (named.map k) : Except (Failure ε) β) = k <$> handled named := by
  cases named with
  | none => rfl
  | some a => rfl

/-- A terminal of an outline is one of the graph, without the numbers of its message. -/
theorem terminal_outline :
    (g.outline.terminal p : Except (Failure ε) Terminal) = Terminal.outline <$> g.terminal p := by
  rw [Graph.terminal, Graph.outline, Array.getElem?_map, handled_map, Graph.terminal]

/-- A node of an outline is one of the graph, without its numbers. -/
theorem node_outline {n : NodeId} :
    (g.outline.node n : Except (Failure ε) Node) = Node.outline <$> g.node n := by
  rw [Graph.node, Graph.outline, Array.getElem?_map, handled_map, Graph.node]

theorem ownerOf_outline :
    (g.outline.ownerOf p : Except (Failure ε) Node) = Node.outline <$> g.ownerOf p := by
  simp only [Graph.ownerOf, terminal_outline, bind_map_left, node_outline, map_bind]
  rfl

/-- A terminal of a constant stays one, and its literal loses its numbers. -/
theorem constantAt_outline : (g.outline.constantAt p : Except (Failure ε) (Option Value)) =
    Option.map Value.outline <$> g.constantAt p := by
  simp only [Graph.constantAt, ownerOf_outline, bind_map_left, map_bind]
  rfl

/-- A message stays where it is. -/
theorem isSome_message?_outline : (g.outline.message? p).isSome = (g.message? p).isSome := by
  rw [Graph.message?, Graph.outline, Array.getElem?_map, Option.bind_map, Graph.message?]
  cases g.terminals[p.index]? with
  | none => rfl
  | some t => exact Option.isSome_map

/-- Taking out the numbers leaves the shape: handles, names, roles, kinds, edges, and which nodes
    are constants. -/
theorem sameShape_outline (g : Graph) : g.SameShape g.outline where
  terminal i := by
    rw [Graph.outline, Array.getElem?_map, Option.map_map]
    rfl
  node i := by
    rw [Graph.outline, Array.getElem?_map, Option.map_map]
    rfl
  edge _ := rfl

theorem hasMessage_outline :
    (g.outline.hasMessage p : Except (Failure ε) Bool) = g.hasMessage p :=
  (sameShape_outline g).hasMessage_eq isSome_message?_outline

/-! ### Schedules and loops -/

/-- What has to be scheduled first depends on where messages are, and not on what is in them. -/
theorem sameNeeds_outline : SameNeeds g g.outline scope scope :=
  (sameShape_outline g).sameNeeds fun _ _ _ _ => isSome_message?_outline

/-- A schedule has no numbers in it, and neither has a refusal. -/
theorem schedule_outline : g.outline.schedule x scope = g.schedule x scope :=
  schedule_congr (sameShape_outline g) sameNeeds_outline x

theorem completePartial_outline {r : Region} {entries : Schedule} :
    g.outline.completePartial entries r = g.completePartial entries r :=
  completePartial_congr (sameShape_outline g) (s := r.schedule) sameNeeds_outline entries

/-- The schedule of a region is that for the outline, also where there is no such region. -/
theorem scheduleOf_outline {q : Partition} {config : Config} {id : RegionId} :
    q.scheduleOf g.outline config id = q.scheduleOf g config id := by
  cases hr : q.region? id with
  | none =>
    unfold Partition.scheduleOf
    rw [hr]
  | some r =>
    exact scheduleOf_congr (sameShape_outline g) (s := r.schedule) sameNeeds_outline hr hr rfl rfl
      config

/-- Only whether a message is there decides whether there is a dependency. -/
theorem dependenciesOf_outline {primed : Std.HashSet TerminalId} {ys : List TerminalId} :
    (g.outline.dependenciesOf primed x ys : Except (Failure ε) (List TerminalId)) =
      g.dependenciesOf primed x ys := by
  induction ys with
  | nil => rfl
  | cons y ys ih =>
    unfold Graph.dependenciesOf
    rw [ih]
    split
    · rfl
    · -- The partner is the same, and of its message it is only asked whether it is there.
      refine Eq.trans ((sameShape_outline g).bind_terminal fun t => rfl) ?_
      simp only [hasMessage_outline]

theorem terminalOf_outline {v : Nat} :
    (g.outline.terminalOf v : Except (Failure ε) TerminalId) = g.terminalOf v := by
  rw [Graph.terminalOf, Graph.terminalOf, (sameShape_outline g).size_terminals]

/-- Whatever finds the components finds them in the same graph of dependencies, so the loops of an
    outline are those of the graph. -/
theorem loopsWith_outline {components : Dependency.Digraph → List (List Nat)}
    {primed : Std.HashSet TerminalId} :
    (g.outline.loopsWith components primed : Except (Failure ε) (List (List TerminalId))) =
      g.loopsWith components primed := by
  have hdependencies : (g.outline.dependencies primed :
      Except (Failure ε) (List (TerminalId × TerminalId))) = g.dependencies primed := by
    unfold Graph.dependencies Graph.terminalIds
    rw [(sameShape_outline g).size_terminals]
    refine congrArg (· >>= _) (congrArg (List.mapM · _) (funext fun x => ?_))
    rw [ownerOf_outline, bind_map_left]
    exact bind_congr fun n => by rw [dependenciesOf_outline]; rfl
  have hterminalOf : (g.outline.terminalOf : Nat → Except (Failure ε) TerminalId) =
      g.terminalOf := funext fun _ => terminalOf_outline
  unfold Graph.loopsWith
  rw [hdependencies, hterminalOf, (sameShape_outline g).size_terminals]

/-- The same terminals are proposed, one after the other. -/
theorem breakersFrom_outline {components : Dependency.Digraph → List (List Nat)}
    {primed : Std.HashSet TerminalId} :
    (g.outline.breakersFrom components primed : Except (Failure ε) (List TerminalId)) =
      g.breakersFrom components primed := by
  -- The induction is on the number of terminals that are not primed, as in the definition.
  induction hn : g.unprimed primed using Nat.strongRecOn generalizing primed with
  | ind n ih =>
    rw [Graph.breakersFrom, Graph.breakersFrom, loopsWith_outline]
    refine bind_congr fun loops => ?_
    cases loops.head? with
    | none => rfl
    | some loop =>
      refine bind_congr fun p => ?_
      simp only [(sameShape_outline g).hasTerminal_eq]
      split
      · rename_i hp
        rw [ih _ (hn ▸ Graph.unprimed_insert_lt hp.1 hp.2) rfl]
      · rfl

theorem loopBreakers_outline {components : Dependency.Digraph → List (List Nat)} :
    (g.outline.loopBreakers components : Except (Failure ε) (List TerminalId)) =
      g.loopBreakers components :=
  breakersFrom_outline

end MessagePlan
