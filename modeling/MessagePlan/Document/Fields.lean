import MessagePlan.Decimal.Literal
import MessagePlan.Json.Reader
import MessagePlan.Json.Text

/-!
# Reading Fields

How documents are made of JSON values. A record is an object with a member for each field,
or an array of its fields in their order. In an object, members under other names are passed
over, whatever they hold; a field must not occur twice, and one that is left out is read as
nothing. An alternative is written as its name alone, or as an object with its name and what
it carries. A table with handles for keys writes them as strings of digits.

## Main definitions

* `Json.text?`, `Json.bool?`, `Json.float?`, `Json.word32?`, `Json.word64?`: Plain values.
* `Json.optional?`, `Json.list?`, `Json.pair?`, `Json.table?`: Values made of others.
* `Json.fields?`: The fields of a record.
* `Json.alternative?`: The name of an alternative and what it carries.

## Theorems

* `uniqueMember?_of_nodup`: Where no name occurs twice, a field is what stands under its name.
-/

namespace MessagePlan.Json

/-- The string that a value stands for. -/
def text? : Json → Option String
  | .string raw => decode? raw
  | _ => none

/-- The truth value that a value stands for. -/
def bool? : Json → Option Bool
  | .bool b => some b
  | _ => none

/-- The double that a value stands for. -/
def float? : Json → Option Float
  | .number literal => Decimal.float? literal
  | _ => none

/-- The number below a bound that a literal stands for. -/
def below? (bound : Nat) (literal : String) : Option Nat :=
  (Decimal.wholeNumber? literal).filter (· < bound)

/-- The number of 32 bits that a value stands for. -/
def word32? : Json → Option Nat
  | .number literal => below? UInt32.size literal
  | _ => none

/-- The number of 64 bits that a value stands for. -/
def word64? : Json → Option Nat
  | .number literal => below? UInt64.size literal
  | _ => none

/-- What a value stands for that may also be `null`. -/
def optional? {α : Type} (f : Json → Option α) : Json → Option (Option α)
  | .null => some none
  | j => (f j).map some

/-- The items of an array. -/
def list? {α : Type} (f : Json → Option α) : Json → Option (List α)
  | .array items => items.mapM f
  | _ => none

/-- The two items of an array. -/
def pair? {α β : Type} (f : Json → Option α) (g : Json → Option β) : Json → Option (α × β)
  | .array [a, b] => do return (← f a, ← g b)
  | _ => none

/-- The members of an object that is a table. -/
def table? {α β : Type} (key : String → Option α) (f : Json → Option β) :
    Json → Option (List (α × β))
  | .object members => members.mapM fun m => do return (← key m.1, ← f m.2)
  | _ => none

/-- The only value among some members that has a name, if any has it; `none` if several
    have it. -/
def uniqueMember? (members : List (String × Json)) (name : String) : Option (Option Json) :=
  match members.filter (·.1 == name) with
  | [] => some none
  | [m] => some (some m.2)
  | _ => none

/-- The fields of a record, in the order of their names. -/
def fields? (names : List String) : Json → Option (List (Option Json))
  | .array items => if items.length = names.length then some (items.map some) else none
  | .object members => do
    let members ← members.mapM fun m => do return (← decode? m.1, m.2)
    names.mapM (uniqueMember? members)
  | _ => none

/-- A field that may be left out or be `null`. -/
def optionalField? {α : Type} (f : Json → Option α) : Option Json → Option (Option α)
  | none => some none
  | some j => optional? f j

/-- The name of an alternative and what it carries. -/
def alternative? : Json → Option (String × Option Json)
  | .string raw => do return (← decode? raw, none)
  | .object [(raw, carried)] => do return (← decode? raw, some carried)
  | _ => none

/-- Whether an alternative carries nothing. -/
def isBare : Option Json → Bool
  | none => true
  | some .null => true
  | _ => false

/-- What is read from the name of an alternative that carries nothing. -/
def bare? {α : Type} (f : String → Option α) (j : Json) : Option α := do
  let (name, carried) ← alternative? j
  if isBare carried then f name else none

/-- Where no name occurs twice, the only value under a name is the first one. -/
theorem uniqueMember?_of_nodup {members : List (String × Json)} (h : (members.map Prod.fst).Nodup)
    (name : String) : uniqueMember? members name = some (members.lookup name) := by
  have hf : ∀ {members : List (String × Json)}, (members.map Prod.fst).Nodup →
      members.filter (·.1 == name) = ((members.lookup name).map (name, ·)).toList := by
    intro members h
    induction members with
    | nil => rfl
    | cons m ms ih =>
      obtain ⟨hm, hms⟩ := List.nodup_cons.1 h
      by_cases he : m.1 = name
      · -- No later member has the name of the first.
        have : ms.filter (·.1 == name) = [] :=
          List.filter_eq_nil_iff.2 fun n hn hnm =>
            hm (List.mem_map.2 ⟨n, hn, (beq_iff_eq.1 hnm).trans he.symm⟩)
        obtain ⟨n, j⟩ := m
        obtain rfl : n = name := he
        simp [this]
      · obtain ⟨n, j⟩ := m
        have hne : (n == name) = false := by simpa using he
        have hen : (name == n) = false := by simpa using Ne.symm he
        simp only [List.filter_cons, hne, Bool.false_eq_true, if_false, List.lookup_cons, hen,
          ih hms]
  rw [uniqueMember?, hf h]
  cases members.lookup name <;> rfl

end MessagePlan.Json
