import MessagePlan.Program.Assembly
import MessagePlan.Schedule.Regional

/-!
# Compiling Schedules

A schedule is compiled terminal by terminal. For each, what arrives at the other terminals
of its node is typed: by the constant there, by the step that has computed it, or by the
message that is there already. The catalog chooses a rule for that signature, and the rule
is given its inputs. Nodes that produce constants get no step; their values are written into
the arguments of their readers.

What arrives over an edge of another region is typed by what is known of that region's
steps, on either side of the edge, and else by a message that is there already.

## Main definitions

* `arrivalAt`, `signatureFor`: What arrives, as the catalog sees it.
* `compileStep`, `compileScoped`: A step, and a program within a scope.
* `compile`, `compileTarget`: A program for a whole graph.
* `compilePartition`: The programs of all regions, with what they produce.
* `buildPlan`: Scheduling all regions and compiling them.

## Theorems

* `compileScoped_append`: A schedule may be compiled in two parts.
-/

namespace MessagePlan

/-- Families of messages that regions compiled before produce. -/
abbrev KnownFamilies := Std.ExtTreeMap TerminalId Family

/-- The message that is on a terminal already, as an arrival. -/
def preset {ε : Type} (g : Graph) (p : TerminalId) : Except (Failure ε) (Option Arrival) := do
  return (← g.terminal p).message.map fun m => .message m.family

/-- What is known to cross an edge of another region between a partner and a terminal. -/
def arrivalFromOutside {ε : Type} (g : Graph) (known : KnownFamilies) (partner y : TerminalId) :
    Except (Failure ε) Arrival := do
  match known[partner]?.or known[y]? with
  | some family => return .message family
  | none =>
    match ← preset g partner with
    | some arrival => return arrival
    | none => return (← preset g y).getD .absent

/-- What arrives at a terminal. -/
def arrivalAt {ε : Type} (g : Graph) (program : Program) (scope : Option Region)
    (known : KnownFamilies) (y : TerminalId) : Except (Failure ε) Arrival := do
  let terminal ← g.terminal y
  match terminal.partner with
  | none => return .absent
  | some p =>
    if (← g.constantAt p).isSome then return .constant
    else if !inScope scope terminal.edge then arrivalFromOutside g known p y
    else
      match ← program.stepFor p with
      | some step => return .message step.produces
      | none => return (← preset g p).getD .absent

/-- What arrives at the terminals of a node other than `x`. -/
def signatureFor {ε : Type} (g : Graph) (program : Program) (scope : Option Region)
    (known : KnownFamilies) (x : TerminalId) (terminals : List TerminalId) :
    Except (Failure ε) Signature :=
  (terminals.filter (· ≠ x)).mapM (arrivalAt g program scope known)

/-- The program with a step for the message out of a terminal, or without one if the terminal
    belongs to a constant. -/
def compileStep (g : Graph) (c : Catalog) (scope : Option Region) (known : KnownFamilies)
    (program : Program) (x : TerminalId) : Except (Failure CompileError) Program := do
  let terminal ← g.terminal x
  let node ← g.node terminal.node
  if node.isConstant then return program
  let signature ← signatureFor g program scope known x node.terminals
  match c.resolve node.kind terminal.role signature with
  | .error e => refuse (.dispatch (← g.label x) e)
  | .ok (rule, id) =>
    let arguments ← asPart .assembly (assemble g x rule program.stepOf scope)
    return program.append { terminal := x, rule := id, produces := rule.produces, arguments }

/-- The program of a schedule within a scope. -/
def compileScoped (g : Graph) (c : Catalog) (schedule : Schedule) (scope : Option Region)
    (known : KnownFamilies) : Except (Failure CompileError) Program :=
  schedule.foldlM (compileStep g c scope known)
    { Program.empty with region := scope.map Region.id }

/-- The program of a schedule for a whole graph. -/
def compile (g : Graph) (c : Catalog) (schedule : Schedule) :
    Except (Failure CompileError) Program :=
  compileScoped g c schedule none ∅

/-- The program that computes the message out of a terminal. -/
def compileTarget (g : Graph) (c : Catalog) (target : TerminalId) :
    Except (Failure CompileError) Program := do
  compile g c (← asPart .schedule (g.schedule target none))

/-- The programs of some regions, each seeing the families of those before it. -/
def compileRegions (g : Graph) (c : Catalog) (known : KnownFamilies) :
    List Region → Except (Failure CompileError) (List Program)
  | [] => return []
  | r :: rs => do
    let program ← compileScoped g c r.schedule (some r) known
    let known := program.steps.foldl (fun known s => known.insert s.terminal s.produces) known
    return program :: (← compileRegions g c known rs)

/-- The programs of all regions, with the steps that compute what is wanted from them. -/
def compilePartition (g : Graph) (c : Catalog) (p : Partition) :
    Except (Failure CompileError) Plan := do
  let programs ← compileRegions g c ∅ p.regions.toList
  let wraps := p.timeWraps.map fun wrap => ⟨wrap, Plan.locate programs wrap.output⟩
  let taps ← p.taps.mapM fun tap => do
    return ⟨tap, (← tap.terminals g).filterMap (Plan.locate programs)⟩
  return { programs, wraps, taps }

/-- Schedule all regions of a partition and compile them.  The partition that stores the
    schedules is answered even if it does not compile. -/
def buildPlan (sideBySide : Partition.Gathering) (g : Graph) (c : Catalog) (p : Partition)
    (config : Config) : Except (Failure CompileError) Plan × Partition :=
  match p.scheduleAll sideBySide g config with
  | (.error e, p) => (.error (e.map .schedule), p)
  | (.ok (), p) => (compilePartition g c p, p)

/-- A schedule may be compiled in two parts, the second behind the steps of the first. -/
theorem compileScoped_append (g : Graph) (c : Catalog) (before after : Schedule)
    (scope : Option Region) (known : KnownFamilies) :
    compileScoped g c (before ++ after) scope known =
      compileScoped g c before scope known >>= after.foldlM (compileStep g c scope known) := by
  simp only [compileScoped, List.foldlM_append]

end MessagePlan
