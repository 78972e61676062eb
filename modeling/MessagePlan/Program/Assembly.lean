import MessagePlan.Graph.Growth
import MessagePlan.Program.Basic
import MessagePlan.Program.Error
import MessagePlan.Schedule.Traversal

/-!
# The Inputs of a Rule

A rule is given one argument for each terminal of the node, in the node's order, and a last
one if its fallback asks for a parameter that the node has. What arrives at a terminal is,
in this order of preference: the value of a constant, the marginal of the terminal's edge if
that lies outside the scope, the message of an earlier step, or a message that is there
already.

The terminal computed and the terminals whose pattern is *absent* have no input, unless the
fallback requires what arrives there.

## Main definitions

* `StepIndex`: Where the messages of earlier steps are found.
* `inboundAt`: The argument for what arrives at a terminal.
* `Requirement`: What a fallback comes to at a node.
* `argumentAt`, `argumentsFor`: The arguments for a terminal and for the terminals of a node.
* `assemble`: All the arguments of a rule.

## Theorems

* `argumentsFor_length`: Each terminal gets one argument.
-/

namespace MessagePlan

/-- Where the messages of earlier steps are found. -/
abbrev StepIndex := Std.ExtTreeMap TerminalId Nat

/-- Refuse an input that does not come from a terminal. -/
def missing {α : Type} (g : Graph) (r : Rule) (required : Bool) (p : TerminalId) :
    Except (Failure AssemblyError) α := do
  let label ← g.label p
  refuse (if required then .unavailable r.name p label else .missingInbound p label)

/-- The argument for what arrives at a terminal. -/
def inboundAt (g : Graph) (r : Rule) (earlier : StepIndex) (scope : Option Region)
    (required : Bool) (y : TerminalId) : Except (Failure AssemblyError) Argument := do
  let terminal ← g.terminal y
  match terminal.partner with
  | none => missing g r required y
  | some p =>
    match ← g.constantAt p with
    | some value => return .literal value
    | none =>
      match inScope scope terminal.edge, terminal.edge with
      | false, some e => return .marginal e
      | _, _ =>
        match earlier[p]? with
        | some i => return .step i
        | none => if ← g.hasMessage p then return .stored p else missing g r required p

/-- What a fallback comes to at a node: a parameter as a last argument, or a terminal whose
    input is required. -/
structure Requirement where
  last : List Argument
  terminal : Option TerminalId

/-- What the fallback of a rule comes to at a node. -/
def requirementOf (g : Graph) (r : Rule) (id : NodeId) (node : Node) :
    Except (Failure AssemblyError) Requirement :=
  match r.fallback with
  | none => .ok ⟨[], none⟩
  | some fallback =>
    match node.param? fallback.param with
    | some value => .ok ⟨[.param fallback.param value], none⟩
    | none =>
      match g.terminalWithRole id fallback.requiredRole with
      | .ok p => .ok ⟨[], some p⟩
      | .error (.cause _) => refuse (.unknownRole r.name node.name fallback.requiredRole)
      | .error .noSuchHandle => .error .noSuchHandle
      | .error .namesExhausted => .error .namesExhausted
      | .error .endless => .error .endless

/-- The argument for a terminal, where `x` is the terminal computed: nothing for `x` itself
    and where the pattern is *absent*, unless the input is required. -/
def argumentAt (g : Graph) (r : Rule) (earlier : StepIndex) (scope : Option Region)
    (required : Option TerminalId) (x y : TerminalId) (pattern : Option Pattern) :
    Except (Failure AssemblyError) Argument :=
  if (y = x ∨ pattern = some .absent) ∧ required ≠ some y then .ok .absent
  else inboundAt g r earlier scope (required = some y) y

/-- The arguments for some terminals of a node, where each terminal but `x` takes up a pattern. -/
def argumentsFor (g : Graph) (r : Rule) (earlier : StepIndex) (scope : Option Region)
    (required : Option TerminalId) (x : TerminalId) :
    List TerminalId → List Pattern → Except (Failure AssemblyError) (List Argument)
  | [], _ => return []
  | y :: ys, patterns => do
    let argument ← argumentAt g r earlier scope required x y patterns.head?
    let rest ← argumentsFor g r earlier scope required x ys
      (if y = x then patterns else patterns.tail)
    return argument :: rest

/-- The arguments with which a rule computes the message out of a terminal. -/
def assemble (g : Graph) (x : TerminalId) (r : Rule) (earlier : StepIndex)
    (scope : Option Region) : Except (Failure AssemblyError) (List Argument) := do
  let id := (← g.terminal x).node
  let node ← g.node id
  if r.inbounds.length + 1 ≠ node.terminals.length then
    refuse (.arityMismatch r.name node.name r.inbounds.length (node.terminals.length - 1))
  else
    let requirement ← requirementOf g r id node
    let arguments ← argumentsFor g r earlier scope requirement.terminal x node.terminals r.inbounds
    return arguments ++ requirement.last

/-- Each terminal gets one argument, in the order of the terminals. -/
theorem argumentsFor_length {g : Graph} {r : Rule} {earlier : StepIndex} {scope : Option Region}
    {required : Option TerminalId} {x : TerminalId} {terminals : List TerminalId}
    {patterns : List Pattern} {arguments : List Argument}
    (h : argumentsFor g r earlier scope required x terminals patterns = .ok arguments) :
    arguments.length = terminals.length := by
  induction terminals generalizing patterns arguments with
  | nil =>
    obtain rfl := Except.ok.inj h
    rfl
  | cons y ys ih =>
    simp only [argumentsFor, bind, Except.bind] at h
    split at h
    · exact nomatch h
    · split at h
      · exact nomatch h
      · rename_i rest hr
        obtain rfl := Except.ok.inj h
        simp only [List.length_cons, ih hr]

end MessagePlan
