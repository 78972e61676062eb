import MessagePlan.Document.Values
import MessagePlan.Rule.Catalog

/-!
# Documents of Rules

How patterns, arrivals and rules are written and read.

## Main definitions

* `Pattern.toJson`, `Pattern.ofJson?`, `Arrival.toJson`, `Arrival.ofJson?`.
* `Rule.toJson`, `Rule.ofJson?`: A rule.
* `Rule.ofText?`: The rule of a document.
-/

namespace MessagePlan

/-- A pattern, as written. -/
def Pattern.toJson : Pattern → Json
  | .absent => .string "Absent"
  | .constant => .string "Constant"
  | .family f => .object [("Family", f.toJson)]
  | .anyMessage => .string "AnyMessage"
  | .any => .string "Any"

/-- A pattern, as read. -/
def Pattern.ofJson? (j : Json) : Option Pattern := do
  let (name, carried) ← j.alternative?
  match name with
  | "Absent" => if Json.isBare carried then some .absent else none
  | "Constant" => if Json.isBare carried then some .constant else none
  | "AnyMessage" => if Json.isBare carried then some .anyMessage else none
  | "Any" => if Json.isBare carried then some .any else none
  | "Family" => return .family (← Family.ofJson? (← carried))
  | _ => none

/-- An arrival, as written. -/
def Arrival.toJson : Arrival → Json
  | .absent => .string "Absent"
  | .constant => .string "Constant"
  | .message f => .object [("Message", f.toJson)]

/-- An arrival, as read. -/
def Arrival.ofJson? (j : Json) : Option Arrival := do
  let (name, carried) ← j.alternative?
  match name with
  | "Absent" => if Json.isBare carried then some .absent else none
  | "Constant" => if Json.isBare carried then some .constant else none
  | "Message" => return .message (← Family.ofJson? (← carried))
  | _ => none

/-- A fallback, as written. -/
def Fallback.toJson (f : Fallback) : Json :=
  .object [("param", .ofString f.param), ("required_role", .ofString f.requiredRole)]

/-- A fallback, as read. -/
def Fallback.ofJson? (j : Json) : Option Fallback := do
  match ← j.fields? ["param", "required_role"] with
  | [some param, some role] => return { param := ← param.text?, requiredRole := ← role.text? }
  | _ => none

namespace Rule

/-- A rule, as written. -/
def toJson (r : Rule) : Json :=
  .object [
    ("name", .ofString r.name),
    ("kind", .ofString r.kind),
    ("outbound_role", .ofString r.role),
    ("inbounds", .ofList Pattern.toJson r.inbounds),
    ("produces", r.produces.toJson),
    ("fallback", .ofOption Fallback.toJson r.fallback)]

/-- A rule, as read. -/
def ofJson? (j : Json) : Option Rule := do
  match ← j.fields? ["name", "kind", "outbound_role", "inbounds", "produces", "fallback"] with
  | [some name, some kind, some role, some inbounds, some produces, fallback] =>
    return {
      name := ← name.text?
      kind := ← kind.text?
      role := ← role.text?
      inbounds := ← inbounds.list? Pattern.ofJson?
      produces := ← Family.ofJson? produces
      fallback := ← Json.optionalField? Fallback.ofJson? fallback }
  | _ => none

/-- The rule of a document. -/
def ofText? (text : String) : Option Rule := (Json.ofText? text).bind ofJson?

end Rule

end MessagePlan
