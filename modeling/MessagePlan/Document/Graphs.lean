import MessagePlan.Document.Values

/-!
# Documents of Graphs

How a graph is written and read. The index of names is not written, so a graph that was
read knows no name until it is indexed again. In which order the entries of a table are
written is left open, since they are read in any order.

## Main definitions

* `EntryOrder`: An order in which entries are written.
* `Graph.toJson`, `Graph.ofJson?`: A graph.
* `Graph.toText`, `Graph.ofText?`: The text of its document.
-/

namespace MessagePlan

/-- A terminal, as written. -/
def Terminal.toJson (real : FloatForm) (p : Terminal) : Json :=
  .object [
    ("node", p.node.toJson),
    ("role", .ofString p.role),
    ("edge", .ofOption EdgeId.toJson p.edge),
    ("partner", .ofOption TerminalId.toJson p.partner),
    ("message", .ofOption (Message.toJson real) p.message)]

/-- A terminal, as read. -/
def Terminal.ofJson? (j : Json) : Option Terminal := do
  match ← j.fields? ["node", "role", "edge", "partner", "message"] with
  | [some node, some role, edge, partner, message] =>
    return {
      node := ← NodeId.ofJson? node
      role := ← role.text?
      edge := ← Json.optionalField? EdgeId.ofJson? edge
      partner := ← Json.optionalField? TerminalId.ofJson? partner
      message := ← Json.optionalField? Message.ofJson? message }
  | _ => none

/-- A node, as written. -/
def Node.toJson (real : FloatForm) (n : Node) : Json :=
  .object [
    ("name", .ofString n.name),
    ("kind", .ofString n.kind),
    ("interfaces", .ofList TerminalId.toJson n.terminals),
    ("constant", .ofOption (Value.toJson real) n.constant),
    ("params", .ofList (paramToJson real) n.params)]

/-- A node, as read. -/
def Node.ofJson? (j : Json) : Option Node := do
  match ← j.fields? ["name", "kind", "interfaces", "constant", "params"] with
  | [some name, some kind, some terminals, constant, some params] =>
    return {
      name := ← name.text?
      kind := ← kind.text?
      terminals := ← terminals.list? TerminalId.ofJson?
      constant := ← Json.optionalField? Value.ofJson? constant
      params := ← params.list? paramOfJson? }
  | _ => none

/-- An edge, as written. -/
def Edge.toJson (e : Edge) : Json :=
  .object [
    ("name", .ofString e.name),
    ("a", e.a.toJson),
    ("b", e.b.toJson),
    ("variable", .ofOption VariableId.toJson e.label)]

/-- An edge, as read. -/
def Edge.ofJson? (j : Json) : Option Edge := do
  match ← j.fields? ["name", "a", "b", "variable"] with
  | [some name, some a, some b, label] =>
    return {
      name := ← name.text?
      a := ← TerminalId.ofJson? a
      b := ← TerminalId.ofJson? b
      label := ← Json.optionalField? VariableId.ofJson? label }
  | _ => none

/-- A variable, as written. -/
def Variable.toJson (v : Variable) : Json :=
  .object [("name", .ofString v.name), ("edges", .ofList EdgeId.toJson v.edges.toList)]

/-- A variable, as read. -/
def Variable.ofJson? (j : Json) : Option Variable := do
  match ← j.fields? ["name", "edges"] with
  | [some name, some edges] =>
    return { name := ← name.text?, edges := (← edges.list? EdgeId.ofJson?).toArray }
  | _ => none

/-- In which order the entries of a table are written, given them in the order of their keys. -/
abbrev EntryOrder := (α : Type) → List (String × α) → List (String × α)

/-- A table with strings for keys, as written. -/
def tableToJson {α : Type} (arrange : EntryOrder) (f : α → Json)
    (table : Std.ExtTreeMap String α) : Json :=
  .object ((arrange α table.toList).map fun entry => (Json.encode entry.1, f entry.2))

/-- A table with strings for keys, as read; of a repeated key the last value counts. -/
def tableOfJson? {α : Type} (f : Json → Option α) (j : Json) :
    Option (Std.ExtTreeMap String α) := do
  return (← j.table? Json.decode? f).foldl (fun table entry => table.insert entry.1 entry.2) ∅

namespace Graph

/-- A graph, as written. -/
def toJson (real : FloatForm) (arrange : EntryOrder) (g : Graph) : Json :=
  .object [
    ("id", .ofNat g.id.number),
    ("nodes", .ofList (Node.toJson real) g.nodes.toList),
    ("interfaces", .ofList (Terminal.toJson real) g.terminals.toList),
    ("edges", .ofList Edge.toJson g.edges.toList),
    ("variables", .ofList Variable.toJson g.vars.toList),
    ("counters", tableToJson arrange Json.ofNat g.counters),
    ("kind_roles", tableToJson arrange (Json.ofList Json.ofString) g.kindRoles)]

/-- A graph, as read. -/
def ofJson? (j : Json) : Option Graph := do
  match ← j.fields? ["id", "nodes", "interfaces", "edges", "variables", "counters",
      "kind_roles"] with
  | [some id, some nodes, some terminals, some edges, some vars, some counters,
      some kindRoles] =>
    return {
      id := ⟨← id.word32?⟩
      nodes := (← nodes.list? Node.ofJson?).toArray
      terminals := (← terminals.list? Terminal.ofJson?).toArray
      edges := (← edges.list? Edge.ofJson?).toArray
      vars := (← vars.list? Variable.ofJson?).toArray
      counters := ← tableOfJson? Json.word32? counters
      kindRoles := ← tableOfJson? (Json.list? Json.text?) kindRoles
      nodeNames := ∅
      variableNames := ∅ }
  | _ => none

/-- The text of a graph's document. -/
def toText (arrange : EntryOrder) (g : Graph) : String :=
  (g.toJson Json.ofFloat arrange).compact

/-- The graph of a document. -/
def ofText? (text : String) : Option Graph := (Json.ofText? text).bind ofJson?

end Graph

end MessagePlan
