import MessagePlan.Document.Fields
import MessagePlan.Graph.Basic
import MessagePlan.Json.Printer

/-!
# Documents of Values and Handles

How handles, values and messages are written and read. How a double is written is left
open, so that a document can be written for other readers than this one; `Json.ofFloat` is
the form that is read here.

## Main definitions

* `FloatForm`: How doubles are written.
* `TerminalId.toJson`, `NodeId.toJson` and their like, with their readers.
* `Value.toJson`, `Value.ofJson?`, `Message.toJson`, `Message.ofJson?`.

## Theorems

* `Family.ofJson?_toJson`: A family is read back.
-/

namespace MessagePlan

/-- How doubles are written. -/
abbrev FloatForm := Float → Json

/-- A handle that is a bare place, as written. -/
def TerminalId.toJson (p : TerminalId) : Json := .ofNat p.index

/-- An edge, as written. -/
def EdgeId.toJson (e : EdgeId) : Json := .ofNat e.index

/-- A region, as written. -/
def RegionId.toJson (r : RegionId) : Json := .ofNat r.index

/-- A rule, as written. -/
def RuleId.toJson (r : RuleId) : Json := .ofNat r.index

/-- A terminal, as read. -/
def TerminalId.ofJson? (j : Json) : Option TerminalId := j.word32?.map TerminalId.mk

/-- An edge, as read. -/
def EdgeId.ofJson? (j : Json) : Option EdgeId := j.word32?.map EdgeId.mk

/-- A region, as read. -/
def RegionId.ofJson? (j : Json) : Option RegionId := j.word32?.map RegionId.mk

/-- A rule, as read. -/
def RuleId.ofJson? (j : Json) : Option RuleId := j.word32?.map RuleId.mk

/-- A graph and a place in it, as written. -/
def GraphId.place (g : GraphId) (slot : Nat) : Json :=
  .object [("graph", .ofNat g.number), ("slot", .ofNat slot)]

/-- A graph and a place in it, as read. -/
def GraphId.place? (j : Json) : Option (GraphId × Nat) := do
  match ← j.fields? ["graph", "slot"] with
  | [some graph, some slot] => return (⟨← graph.word32?⟩, ← slot.word32?)
  | _ => none

/-- A node, as written. -/
def NodeId.toJson (n : NodeId) : Json := n.graph.place n.slot

/-- A variable, as written. -/
def VariableId.toJson (v : VariableId) : Json := v.graph.place v.slot

/-- A node, as read. -/
def NodeId.ofJson? (j : Json) : Option NodeId :=
  (GraphId.place? j).map fun place => ⟨place.1, place.2⟩

/-- A variable, as read. -/
def VariableId.ofJson? (j : Json) : Option VariableId :=
  (GraphId.place? j).map fun place => ⟨place.1, place.2⟩

/-- The key of a terminal or an edge in a table, as read. -/
def placeKey? (raw : String) : Option Nat := Json.below? UInt32.size raw

/-- A value, as written. -/
def Value.toJson (real : FloatForm) : Value → Json
  | .scalar x => .object [("Scalar", real x)]
  | .series xs => .object [("Series", .ofList real xs)]

/-- A value, as read. -/
def Value.ofJson? (j : Json) : Option Value := do
  match ← j.alternative? with
  | ("Scalar", some carried) => return .scalar (← carried.float?)
  | ("Series", some carried) => return .series (← carried.list? Json.float?)
  | _ => none

/-- A family, as written. -/
def Family.toJson (f : Family) : Json := .string f.name

/-- A family, as read. -/
def Family.ofJson? (j : Json) : Option Family := j.bare? Family.ofName?

/-- A message, as written. -/
def Message.toJson (real : FloatForm) (m : Message) : Json :=
  .object [("family", m.family.toJson), ("params", m.params.toJson real)]

/-- A message, as read. -/
def Message.ofJson? (j : Json) : Option Message := do
  match ← j.fields? ["family", "params"] with
  | [some family, some params] =>
    return { family := ← Family.ofJson? family, params := ← Value.ofJson? params }
  | _ => none

/-- A parameter under its name, as written. -/
def paramToJson (real : FloatForm) (param : String × Value) : Json :=
  .array [.ofString param.1, param.2.toJson real]

/-- A parameter under its name, as read. -/
def paramOfJson? (j : Json) : Option (String × Value) := j.pair? Json.text? Value.ofJson?

/-- A family is read back. -/
theorem Family.ofJson?_toJson (f : Family) : Family.ofJson? f.toJson = some f := by
  cases f <;> decide +kernel

end MessagePlan
