import MessagePlan.Decimal.Shortest
import MessagePlan.Json.Basic
import MessagePlan.Json.Text

/-!
# Writing JSON

The text of a value, on one line or laid out with an indent of two spaces. A double is
written with the fewest digits that tell it from every other double, positionally from
`1e-5` up to `1e16` and with an exponent beyond; it always shows that it is no whole number.
A double that is no number is written as `null`.

## Main definitions

* `decimalText`: The layout of a decimal.
* `ofFloat`, `ofNat`, `ofString`: Values of plain things.
* `compact`, `pretty`: The two texts of a value.
-/

namespace MessagePlan.Json

/-- The digits of a decimal with its point in a place counted from their front.  The place
    is written positionally from five zeros behind the point up to sixteen digits before
    it. -/
def decimalText (digits : List Char) (place : Int) : List Char :=
  let n : Int := digits.length
  if n ≤ place ∧ place ≤ 16 then digits ++ List.replicate (place - n).toNat '0' ++ ['.', '0']
  else if 0 < place ∧ place ≤ 16 then
    digits.take place.toNat ++ '.' :: digits.drop place.toNat
  else if -5 < place ∧ place ≤ 0 then
    '0' :: '.' :: List.replicate (-place).toNat '0' ++ digits
  else
    let exponent := place - 1
    let sign := if exponent < 0 then '-' else '+'
    let mantissa := match digits with
      | [d] => [d]
      | d :: rest => d :: '.' :: rest
      | [] => []
    mantissa ++ 'e' :: sign :: Nat.toDigits 10 exponent.natAbs

/-- The literal of a double, or `null`. -/
def ofFloat (x : Float) : Json :=
  match Decimal.Double.ofFloat x with
  | .nan => .null
  | .infinite _ => .null
  | .finite negative m q =>
    let text :=
      if m = 0 then ['0', '.', '0']
      else
        let (digits, power) := Decimal.shortest m q
        let digits := Nat.toDigits 10 digits
        decimalText digits (digits.length + power)
    .number (String.ofList (if negative then '-' :: text else text))

/-- The literal of a natural number. -/
def ofNat (n : Nat) : Json := .number (Nat.repr n)

/-- A string. -/
def ofString (s : String) : Json := .string (encode s)

/-- What some optional thing is written as. -/
def ofOption {α : Type} (f : α → Json) : Option α → Json
  | some a => f a
  | none => .null

/-- What a list of things is written as. -/
def ofList {α : Type} (f : α → Json) (xs : List α) : Json := .array (xs.map f)

/-- A text between quotes. -/
def quote (raw : String) : String := "\"" ++ raw ++ "\""

mutual

/-- A text with that of a value behind it, on one line. -/
def write (out : String) : Json → String
  | .null => out ++ "null"
  | .bool true => out ++ "true"
  | .bool false => out ++ "false"
  | .number literal => out ++ literal
  | .string raw => out ++ quote raw
  | .array [] => out ++ "[]"
  | .array (item :: items) => writeItems (write (out ++ "[") item) items ++ "]"
  | .object [] => out ++ "\x7b\x7d"
  | .object ((name, value) :: members) =>
    writeMembers (write (out ++ "\x7b" ++ quote name ++ ":") value) members ++ "\x7d"

/-- A text with those of the items of an array behind its first. -/
def writeItems (out : String) : List Json → String
  | [] => out
  | item :: items => writeItems (write (out ++ ",") item) items

/-- A text with those of the members of an object behind its first. -/
def writeMembers (out : String) : List (String × Json) → String
  | [] => out
  | (name, value) :: members =>
    writeMembers (write (out ++ "," ++ quote name ++ ":") value) members

end

/-- The text of a value on one line. -/
def compact (j : Json) : String := write "" j

/-- The beginning of a line at a depth. -/
def newline (depth : Nat) : String := "\n" ++ String.ofList (List.replicate (2 * depth) ' ')

mutual

/-- A text with that of a value behind it, over several lines, where the value stands at a
    depth. -/
def layOut (depth : Nat) (out : String) : Json → String
  | .null => out ++ "null"
  | .bool true => out ++ "true"
  | .bool false => out ++ "false"
  | .number literal => out ++ literal
  | .string raw => out ++ quote raw
  | .array [] => out ++ "[]"
  | .array (item :: items) =>
    layOutItems (depth + 1) (layOut (depth + 1) (out ++ "[" ++ newline (depth + 1)) item) items
      ++ newline depth ++ "]"
  | .object [] => out ++ "\x7b\x7d"
  | .object ((name, value) :: members) =>
    layOutMembers (depth + 1)
        (layOut (depth + 1) (out ++ "\x7b" ++ newline (depth + 1) ++ quote name ++ ": ") value)
        members
      ++ newline depth ++ "\x7d"

/-- A text with those of the items of an array behind its first, which stand at a depth. -/
def layOutItems (depth : Nat) (out : String) : List Json → String
  | [] => out
  | item :: items => layOutItems depth (layOut depth (out ++ "," ++ newline depth) item) items

/-- A text with those of the members of an object behind its first, which stand at a
    depth. -/
def layOutMembers (depth : Nat) (out : String) : List (String × Json) → String
  | [] => out
  | (name, value) :: members =>
    layOutMembers depth
      (layOut depth (out ++ "," ++ newline depth ++ quote name ++ ": ") value) members

end

/-- The text of a value over several lines. -/
def pretty (j : Json) : String := layOut 0 "" j

end MessagePlan.Json
