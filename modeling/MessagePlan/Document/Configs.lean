import MessagePlan.Config
import MessagePlan.Document.Fields

/-!
# Documents of Configurations

How a configuration is read. Every choice may be left out and then has its default; in a
document that is an array, those at the end may be left out.

## Main definitions

* `Config.ofJson?`, `Config.ofText?`: A configuration.
* `Config.ofFile`: The configuration in a file.
-/

namespace MessagePlan

namespace Config

/-- The names of the choices, in their order. -/
def names : List String :=
  ["univariate_outbounds", "include_time_wraps", "include_write_buffers", "parallel"]

/-- The choices of a document, in the order of their names. -/
def choices? : Json → Option (List (Option Json))
  | .array items =>
    if items.length ≤ names.length then
      some (items.map some ++ List.replicate (names.length - items.length) none)
    else none
  | j => j.fields? names

/-- A choice, which is left to a default if the document leaves it out. -/
def choice? (default : Bool) : Option Json → Option Bool
  | none => some default
  | some j => j.bool?

/-- A configuration, as read. -/
def ofJson? (j : Json) : Option Config := do
  match ← choices? j with
  | [univariateOutbounds, timeWraps, taps, parallel] =>
    let default : Config := {}
    return {
      univariateOutbounds := ← choice? default.univariateOutbounds univariateOutbounds
      timeWraps := ← choice? default.timeWraps timeWraps
      taps := ← choice? default.taps taps
      parallel := ← choice? default.parallel parallel }
  | _ => none

/-- The configuration of a document. -/
def ofText? (text : String) : Option Config := (Json.ofText? text).bind ofJson?

/-- The configuration in the file at a path, given what came of reading the file: its text, or the
    cause of the failure in words. -/
def ofFile (path : String) (text : Except String String) : Except ConfigError Config :=
  match text with
  | .error cause => .error (.unreadable path cause)
  | .ok text =>
    match ofText? text with
    | none => .error .malformed
    | some config => .ok config

end Config

end MessagePlan
