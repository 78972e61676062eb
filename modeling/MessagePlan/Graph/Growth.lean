import MessagePlan.Graph.Error
import MessagePlan.Graph.Naming

/-!
# Growing a Graph

The operations that add nodes and variables, connect terminals, and set parameters and
messages. Each answers with an outcome and the graph after it: an operation that is refused
leaves the graph as it was, but for the number that an unnamed node has used up.

The first node of a kind fixes the roles of that kind's terminals; later nodes of the kind
must have the same roles in the same order.

## Main definitions

* `Graph.insertNode`: A node of any sort, under a given name.
* `Graph.addNode`, `Graph.addNamedNode`, `Graph.addConstant`, `Graph.addNamedConstant`.
* `Graph.addVariable`, `Graph.addNamedVariable`.
* `Graph.terminalWithRole`: The terminal of a node that has a given role.
* `Graph.connect`, `Graph.connectRoles`: Joining two terminals.
* `Graph.setParam`, `Graph.setMessage`, `Graph.clearMessage`.
-/

namespace MessagePlan

/-- The kind of the nodes that produce constants. -/
def constantKind : String := "Constant"

/-- The roles of the terminals of a node that produces a constant. -/
def constantRoles : List String := ["out"]

namespace Graph

/-- Why a kind refuses a node with the given roles, if it does. -/
def roleConflict (g : Graph) (kind : String) (roles : List String) : Option GraphError :=
  match g.kindRoles[kind]? with
  | none => none
  | some expected =>
    if expected.length ≠ roles.length then
      some (.arityMismatch kind expected.length roles.length)
    else if expected ≠ roles then some (.roleMismatch kind expected roles)
    else none

/-- A terminal as it is before it is connected. -/
def danglingTerminal (node : NodeId) (role : String) : Terminal :=
  { node, role, edge := none, partner := none, message := none }

/-- The handle of the node that is added next. -/
def nextNode (g : Graph) : NodeId := ⟨g.id, g.nodes.size⟩

/-- The handles of the next `arity` terminals. -/
def nextTerminals (g : Graph) (arity : Nat) : List TerminalId :=
  (List.range' g.terminals.size arity).map TerminalId.mk

/-- Add a node under a name, with a literal if it produces a constant. -/
def insertNode (g : Graph) (name kind : String) (roles : List String)
    (constant : Option Value) : Edit GraphError NodeId :=
  if g.nodeNames.contains name then (refuse (.duplicateName name), g)
  else
    match g.roleConflict kind roles with
    | some conflict => (refuse conflict, g)
    | none =>
      let id := g.nextNode
      let node : Node :=
        { name, kind, terminals := g.nextTerminals roles.length, constant, params := [] }
      (.ok id,
        { g with
          nodes := g.nodes.push node
          terminals := g.terminals ++ roles.map (danglingTerminal id)
          kindRoles := g.kindRoles.insertIfNew kind roles
          nodeNames := g.nodeNames.insert name id })

/-- Add a node of a kind under a given name. -/
def addNamedNode (g : Graph) (name kind : String) (roles : List String) :
    Edit GraphError NodeId :=
  g.insertNode name kind roles none

/-- Add a node of a kind under a generated name. -/
def addNode (g : Graph) (kind : String) (roles : List String) : Edit GraphError NodeId :=
  match g.freshName kind with
  | (.ok name, g) => g.insertNode name kind roles none
  | (.error e, g) => (.error e, g)

/-- Add a node that produces a constant, under a given name. -/
def addNamedConstant (g : Graph) (name : String) (value : Value) : Edit GraphError NodeId :=
  g.insertNode name constantKind constantRoles (some value)

/-- Add a node that produces a constant, under a generated name. -/
def addConstant (g : Graph) (value : Value) : Edit GraphError NodeId :=
  match g.freshName constantKind with
  | (.ok name, g) => g.insertNode name constantKind constantRoles (some value)
  | (.error e, g) => (.error e, g)

/-- Add a variable under a name that no variable has. -/
def insertVariable (g : Graph) (name : String) : VariableId × Graph :=
  let id : VariableId := ⟨g.id, g.vars.size⟩
  (id, { g with
    vars := g.vars.push { name, edges := #[] }
    variableNames := g.variableNames.insert name id })

/-- Add a variable under a generated name. -/
def addVariable (g : Graph) : Edit GraphError VariableId :=
  match g.freshName "Variable" with
  | (.ok name, g) =>
    let (id, g) := g.insertVariable name
    (.ok id, g)
  | (.error e, g) => (.error e, g)

/-- Add a variable under a given name. -/
def addNamedVariable (g : Graph) (name : String) : Edit GraphError VariableId :=
  if g.variableNames.contains name then (refuse (.duplicateName name), g)
  else
    let (id, g) := g.insertVariable name
    (.ok id, g)

/-- Whether a terminal can still be connected. -/
def checkFree (g : Graph) (p : TerminalId) : Except (Failure GraphError) Unit :=
  match g.terminals[p.index]? with
  | none => refuse (.unknownTerminal p)
  | some terminal => do
    if terminal.partner.isSome then refuse (.alreadyConnected p (← g.label p))

/-- Whether two terminals, and a label if there is one, can make an edge. -/
def checkConnection (g : Graph) (a b : TerminalId) (label : Option VariableId) :
    Except (Failure GraphError) Unit := do
  g.checkFree a
  g.checkFree b
  if a = b then refuse (.selfConnection a (← g.label a))
  match label with
  | none => return ()
  | some v => if g.hasVariable v then return () else refuse (.unknownVariable v)

/-- A terminal joined to another by an edge. -/
def Terminal.joined (edge : EdgeId) (partner : TerminalId) (p : Terminal) : Terminal :=
  { p with edge := some edge, partner := some partner }

/-- Two terminals joined by a new edge, whatever they were before. -/
def joinTerminals (g : Graph) (name : String) (a b : TerminalId) (label : Option VariableId) :
    EdgeId × Graph :=
  let id : EdgeId := ⟨g.edges.size⟩
  let terminals := g.terminals.modify a.index (Terminal.joined id b)
  (id, { g with
    edges := g.edges.push { name, a, b, label }
    terminals := terminals.modify b.index (Terminal.joined id a)
    vars := match label with
      | none => g.vars
      | some v => g.vars.modify v.slot fun w => { w with edges := w.edges.push id } })

/-- Connect two terminals by a new edge, labelled by a variable or not. -/
def connect (g : Graph) (a b : TerminalId) (label : Option VariableId) : Edit GraphError EdgeId :=
  match g.checkConnection a b label with
  | .error e => (.error e, g)
  | .ok () =>
    match g.freshName "Edge" with
    | (.ok name, g) =>
      let (id, g) := g.joinTerminals name a b label
      (.ok id, g)
    | (.error e, g) => (.error e, g)

/-- The first of some terminals that has a role. -/
def firstWithRole (g : Graph) (role : String) :
    List TerminalId → Except (Failure GraphError) (Option TerminalId)
  | [] => return none
  | p :: ps => do
    if (← g.terminal p).role = role then return some p else g.firstWithRole role ps

/-- The terminal of a node that has a role. -/
def terminalWithRole (g : Graph) (n : NodeId) (role : String) :
    Except (Failure GraphError) TerminalId := do
  if g.hasNode n then
    let node ← g.node n
    match ← g.firstWithRole role node.terminals with
    | some p => return p
    | none => refuse (.unknownRole node.name role)
  else refuse (.unknownNode n)

/-- Connect two terminals that are named by their nodes and roles. -/
def connectRoles (g : Graph) (a : NodeId) (roleA : String) (b : NodeId) (roleB : String) :
    Edit GraphError EdgeId :=
  match g.terminalWithRole a roleA with
  | .error e => (.error e, g)
  | .ok p =>
    match g.terminalWithRole b roleB with
    | .error e => (.error e, g)
    | .ok q => g.connect p q none

/-- A list of parameters with one of them set: in its old place, or at the end. -/
def withParam (key : String) (value : Value) : List (String × Value) → List (String × Value)
  | [] => [(key, value)]
  | (k, v) :: rest => if k = key then (k, value) :: rest else (k, v) :: withParam key value rest

/-- Set an auxiliary parameter of a node. -/
def setParam (g : Graph) (n : NodeId) (key : String) (value : Value) : Edit GraphError Unit :=
  if g.hasNode n then
    (.ok (), { g with
      nodes := g.nodes.modify n.slot fun m => { m with params := withParam key value m.params } })
  else (refuse (.unknownNode n), g)

/-- Put a message on a terminal, in place of the one it holds. -/
def setMessage (g : Graph) (p : TerminalId) (message : Message) : Edit GraphError Unit :=
  if g.hasTerminal p then
    (.ok (), { g with
      terminals := g.terminals.modify p.index fun t => { t with message := some message } })
  else (refuse (.unknownTerminal p), g)

/-- Take the message off a terminal, and answer what it was. -/
def clearMessage (g : Graph) (p : TerminalId) : Edit GraphError (Option Message) :=
  match g.terminals[p.index]? with
  | none => (refuse (.unknownTerminal p), g)
  | some terminal =>
    (.ok terminal.message, { g with
      terminals := g.terminals.modify p.index fun terminal => { terminal with message := none } })

end Graph

end MessagePlan
