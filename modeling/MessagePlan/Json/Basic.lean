/-!
# JSON Values

A JSON value as it is written. Numbers keep their literal and strings keep their escapes, so
that a value says exactly what stood in a text, and it is left to whoever reads the value
what a literal or a string has to be. Members that nobody reads may thus hold numbers too
large for a double or escapes that name no character.

## Main definitions

* `Json`: Values, as written.
* `Json.member?`: The last member of an object under a name.
-/

namespace MessagePlan

/-- A JSON value as it is written: the text of a number is its literal, and the text of a
    string or of a name is what stands between its quotes. -/
inductive Json where
  | null
  | bool (value : Bool)
  | number (literal : String)
  | string (raw : String)
  | array (items : List Json)
  | object (members : List (String × Json))
deriving Inhabited

/-- The last member of an object under a name without escapes. -/
def Json.member? (j : Json) (name : String) : Option Json :=
  match j with
  | .object members => members.reverse.lookup name
  | _ => none

end MessagePlan
