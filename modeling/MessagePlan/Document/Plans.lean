import MessagePlan.Document.Partitions
import MessagePlan.Program.Basic

/-!
# Documents of Plans

How programs and plans are written and read.

## Main definitions

* `Program.toJson`, `Program.ofJson?`: A program.
* `Plan.toJson`, `Plan.ofJson?`: A plan.
* `Plan.toText`, `Plan.ofText?`: The text of a plan's document.
-/

namespace MessagePlan

/-- An argument, as written. -/
def Argument.toJson (real : FloatForm) : Argument → Json
  | .absent => .string "Absent"
  | .literal value => .object [("Literal", value.toJson real)]
  | .step i => .object [("Entry", .ofNat i)]
  | .stored p => .object [("Stored", p.toJson)]
  | .marginal e => .object [("Marginal", e.toJson)]
  | .param name value => .object [("Param", paramToJson real (name, value))]

/-- An argument, as read. -/
def Argument.ofJson? (j : Json) : Option Argument := do
  match ← j.alternative? with
  | ("Absent", carried) => if Json.isBare carried then some .absent else none
  | ("Literal", some carried) => return .literal (← Value.ofJson? carried)
  | ("Entry", some carried) => return .step (← carried.word64?)
  | ("Stored", some carried) => return .stored (← TerminalId.ofJson? carried)
  | ("Marginal", some carried) => return .marginal (← EdgeId.ofJson? carried)
  | ("Param", some carried) => do
    let (name, value) ← paramOfJson? carried
    return .param name value
  | _ => none

/-- A step, as written. -/
def Step.toJson (real : FloatForm) (s : Step) : Json :=
  .object [
    ("interface", s.terminal.toJson),
    ("rule", s.rule.toJson),
    ("outbound", s.produces.toJson),
    ("arguments", .ofList (Argument.toJson real) s.arguments)]

/-- A step, as read. -/
def Step.ofJson? (j : Json) : Option Step := do
  match ← j.fields? ["interface", "rule", "outbound", "arguments"] with
  | [some terminal, some rule, some produces, some arguments] =>
    return {
      terminal := ← TerminalId.ofJson? terminal
      rule := ← RuleId.ofJson? rule
      produces := ← Family.ofJson? produces
      arguments := ← arguments.list? Argument.ofJson? }
  | _ => none

/-- The table of the steps of terminals, as written. -/
def stepOfToJson (table : Std.ExtTreeMap TerminalId Nat) : Json :=
  .object (table.toList.map fun entry => (Nat.repr entry.1.index, .ofNat entry.2))

/-- The table of the steps of terminals, as read. -/
def stepOfOfJson? (j : Json) : Option (Std.ExtTreeMap TerminalId Nat) := do
  return (← j.table? placeKey? Json.word64?).foldl
    (fun table entry => table.insert ⟨entry.1⟩ entry.2) ∅

namespace Program

/-- A program, as written. -/
def toJson (real : FloatForm) (p : Program) : Json :=
  .object [
    ("subgraph", .ofOption RegionId.toJson p.region),
    ("entries", .ofList (Step.toJson real) p.steps.toList),
    ("interface_to_entry", stepOfToJson p.stepOf)]

/-- A program, as read. -/
def ofJson? (j : Json) : Option Program := do
  match ← j.fields? ["subgraph", "entries", "interface_to_entry"] with
  | [region, some steps, some stepOf] =>
    return {
      region := ← Json.optionalField? RegionId.ofJson? region
      steps := (← steps.list? Step.ofJson?).toArray
      stepOf := ← stepOfOfJson? stepOf }
  | _ => none

/-- The program of a document. -/
def ofText? (text : String) : Option Program := (Json.ofText? text).bind ofJson?

end Program

/-- A region and a place in its program, as written. -/
def sourceToJson (source : RegionId × Nat) : Json :=
  .array [source.1.toJson, .ofNat source.2]

/-- A region and a place in its program, as read. -/
def sourceOfJson? (j : Json) : Option (RegionId × Nat) := j.pair? RegionId.ofJson? Json.word64?

/-- A time wrap and what computes it, as written. -/
def WrapBinding.toJson (b : WrapBinding) : Json :=
  .object [("wrap", b.wrap.toJson), ("source", .ofOption sourceToJson b.source)]

/-- A time wrap and what computes it, as read. -/
def WrapBinding.ofJson? (j : Json) : Option WrapBinding := do
  match ← j.fields? ["wrap", "source"] with
  | [some wrap, source] =>
    return {
      wrap := ← TimeWrap.ofJson? wrap
      source := ← Json.optionalField? sourceOfJson? source }
  | _ => none

/-- A tap and what computes it, as written. -/
def TapBinding.toJson (b : TapBinding) : Json :=
  .object [("buffer", b.tap.toJson), ("sources", .ofList sourceToJson b.sources)]

/-- A tap and what computes it, as read. -/
def TapBinding.ofJson? (j : Json) : Option TapBinding := do
  match ← j.fields? ["buffer", "sources"] with
  | [some tap, some sources] =>
    return { tap := ← Tap.ofJson? tap, sources := ← sources.list? sourceOfJson? }
  | _ => none

namespace Plan

/-- A plan, as written. -/
def toJson (real : FloatForm) (p : Plan) : Json :=
  .object [
    ("programs", .ofList (Program.toJson real) p.programs),
    ("time_wraps", .ofList WrapBinding.toJson p.wraps),
    ("write_buffers", .ofList TapBinding.toJson p.taps)]

/-- A plan, as read. -/
def ofJson? (j : Json) : Option Plan := do
  match ← j.fields? ["programs", "time_wraps", "write_buffers"] with
  | [some programs, some wraps, some taps] =>
    return {
      programs := ← programs.list? Program.ofJson?
      wraps := ← wraps.list? WrapBinding.ofJson?
      taps := ← taps.list? TapBinding.ofJson? }
  | _ => none

/-- The text of a plan's document, laid out over several lines. -/
def toText (p : Plan) : String := (p.toJson Json.ofFloat).pretty

/-- The plan of a document. -/
def ofText? (text : String) : Option Plan := (Json.ofText? text).bind ofJson?

end Plan

end MessagePlan
