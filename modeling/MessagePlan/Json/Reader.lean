import MessagePlan.Json.Basic

/-!
# Reading JSON

A machine that reads a text one character at a time. It keeps the arrays and objects that
are open, innermost first, and a mode that says what may come next. A nesting of any depth
only makes that list longer. The grammar is the strict one: no comments, no commas at the
end, no zeros in front of a number, no control characters in a string; around values and
punctuation only the four blanks of the format may stand.

## Main definitions

* `Open`, `Mode`, `Machine`: What the machine remembers.
* `Machine.step`: What it does with a character.
* `Json.ofText?`: The value that a text stands for.

## Theorems

* `feed_append`: A text may be read in two parts.
-/

namespace MessagePlan.Json

/-- An array or an object that is open, with what it has so far, last first; an object also
    has the name that waits for its value. -/
inductive Open where
  | array (items : List Json)
  | object (members : List (String × Json)) (name : String)

/-- How far an escape in a string has come. -/
inductive Escape where
  | none
  | begun
  | digits (left : Nat)
deriving DecidableEq

/-- How far a number has come. -/
inductive NumberPart where
  | sign
  | zero
  | whole
  | point
  | fraction
  | mark
  | markSign
  | exponent
deriving DecidableEq

/-- What may come next. -/
inductive Mode where
  /-- A value. -/
  | value
  /-- A value, or the end of an array that is still empty. -/
  | firstItem
  /-- A name. -/
  | name
  /-- A name, or the end of an object that is still empty. -/
  | firstName
  /-- The colon behind a name. -/
  | colon
  /-- A comma, or the end of the innermost array or object. -/
  | separator
  /-- The rest of a string, with what it has so far, last first. -/
  | string (isName : Bool) (escape : Escape) (read : List Char)
  /-- The rest of a number, with what it has so far, last first. -/
  | number (part : NumberPart) (read : List Char)
  /-- The rest of a word. -/
  | word (left : List Char) (value : Json)
  /-- Nothing more. -/
  | finished (value : Json)

/-- The machine. -/
structure Machine where
  opened : List Open
  mode : Mode

namespace Machine

/-- The machine before the first character. -/
def start : Machine := ⟨[], .value⟩

/-- The characters that may stand between tokens. -/
def isBlank (c : Char) : Bool := c == ' ' || c == '\n' || c == '\t' || c == '\r'

/-- Put a value where it belongs: into the innermost open array or object. -/
def complete (value : Json) : List Open → Machine
  | [] => ⟨[], .finished value⟩
  | .array items :: outer => ⟨.array (value :: items) :: outer, .separator⟩
  | .object members name :: outer => ⟨.object ((name, value) :: members) "" :: outer, .separator⟩

/-- Begin a value with its first character. -/
def begin? (opened : List Open) (c : Char) : Option Machine :=
  if c = '"' then some ⟨opened, .string false .none []⟩
  else if c = '[' then some ⟨.array [] :: opened, .firstItem⟩
  else if c = '\x7b' then some ⟨.object [] "" :: opened, .firstName⟩
  else if c = '-' then some ⟨opened, .number .sign [c]⟩
  else if c = '0' then some ⟨opened, .number .zero [c]⟩
  else if c.isDigit then some ⟨opened, .number .whole [c]⟩
  else if c = 't' then some ⟨opened, .word ['r', 'u', 'e'] (.bool true)⟩
  else if c = 'f' then some ⟨opened, .word ['a', 'l', 's', 'e'] (.bool false)⟩
  else if c = 'n' then some ⟨opened, .word ['u', 'l', 'l'] .null⟩
  else none

/-- End the innermost array or object with a bracket. -/
def close? (opened : List Open) (c : Char) : Option Machine :=
  match opened with
  | .array items :: outer => if c = ']' then some (complete (.array items.reverse) outer) else none
  | .object members _ :: outer =>
    if c = '\x7d' then some (complete (.object members.reverse) outer) else none
  | [] => none

/-- Go on behind a value: with a comma or a bracket. -/
def separate? (opened : List Open) (c : Char) : Option Machine :=
  if c = ',' then
    match opened with
    | .array _ :: _ => some ⟨opened, .value⟩
    | .object _ _ :: _ => some ⟨opened, .name⟩
    | [] => none
  else close? opened c

/-- The next part of a number, if a character can go on with it. -/
def continueNumber? (part : NumberPart) (c : Char) : Option NumberPart :=
  match part with
  | .sign => if c = '0' then some .zero else if c.isDigit then some .whole else none
  | .zero =>
    if c = '.' then some .point else if c = 'e' ∨ c = 'E' then some .mark else none
  | .whole =>
    if c.isDigit then some .whole
    else if c = '.' then some .point
    else if c = 'e' ∨ c = 'E' then some .mark else none
  | .point => if c.isDigit then some .fraction else none
  | .fraction =>
    if c.isDigit then some .fraction else if c = 'e' ∨ c = 'E' then some .mark else none
  | .mark =>
    if c.isDigit then some .exponent else if c = '+' ∨ c = '-' then some .markSign else none
  | .markSign => if c.isDigit then some .exponent else none
  | .exponent => if c.isDigit then some .exponent else none

/-- Whether a number can end with a part. -/
def canEnd : NumberPart → Bool
  | .zero | .whole | .fraction | .exponent => true
  | .sign | .point | .mark | .markSign => false

/-- Go on with a string. -/
def stepString (opened : List Open) (isName : Bool) (escape : Escape) (read : List Char)
    (c : Char) : Option Machine :=
  match escape with
  | .none =>
    if c = '"' then
      let raw := String.ofList read.reverse
      if isName then
        match opened with
        | .object members _ :: outer => some ⟨.object members raw :: outer, .colon⟩
        | _ => none
      else some (complete (.string raw) opened)
    else if c = '\\' then some ⟨opened, .string isName .begun (c :: read)⟩
    else if c.toNat < 0x20 then none
    else some ⟨opened, .string isName .none (c :: read)⟩
  | .begun =>
    if c = 'u' then some ⟨opened, .string isName (.digits 4) (c :: read)⟩
    else if c ∈ ['"', '\\', '/', 'b', 'f', 'n', 'r', 't'] then
      some ⟨opened, .string isName .none (c :: read)⟩
    else none
  | .digits left =>
    if c.isDigit || ('a' ≤ c && c ≤ 'f') || ('A' ≤ c && c ≤ 'F') then
      some ⟨opened, .string isName (if left ≤ 1 then .none else .digits (left - 1)) (c :: read)⟩
    else none

/-- Go on behind a value, or behind the whole text. -/
def stepBetween (m : Machine) (c : Char) : Option Machine :=
  if isBlank c then some m
  else
    match m.mode with
    | .separator => separate? m.opened c
    | _ => none

/-- Go on with a character, if the text may go on with it. -/
def step (m : Machine) (c : Char) : Option Machine :=
  match m.mode with
  | .value => if isBlank c then some m else begin? m.opened c
  | .firstItem =>
    if isBlank c then some m
    else if c = ']' then close? m.opened c
    else begin? m.opened c
  | .name =>
    if isBlank c then some m
    else if c = '"' then some ⟨m.opened, .string true .none []⟩
    else none
  | .firstName =>
    if isBlank c then some m
    else if c = '"' then some ⟨m.opened, .string true .none []⟩
    else close? m.opened c
  | .colon => if isBlank c then some m else if c = ':' then some ⟨m.opened, .value⟩ else none
  | .separator => stepBetween m c
  | .finished _ => stepBetween m c
  | .string isName escape read => stepString m.opened isName escape read c
  | .number part read =>
    match continueNumber? part c with
    | some part => some ⟨m.opened, .number part (c :: read)⟩
    | none =>
      if canEnd part then
        stepBetween (complete (.number (String.ofList read.reverse)) m.opened) c
      else none
  | .word left value =>
    match left with
    | [] => none
    | [d] => if c = d then some (complete value m.opened) else none
    | d :: rest => if c = d then some ⟨m.opened, .word rest value⟩ else none

/-- Read some characters. -/
def feed (m : Machine) : List Char → Option Machine
  | [] => some m
  | c :: cs =>
    match m.step c with
    | some m => m.feed cs
    | none => none

/-- The value that has been read, if the text may end here. -/
def result? (m : Machine) : Option Json :=
  match m.mode with
  | .finished value => some value
  | .number part read =>
    if m.opened.isEmpty && canEnd part then some (.number (String.ofList read.reverse)) else none
  | _ => none

/-- A text may be read in two parts. -/
theorem feed_append (m : Machine) (cs ds : List Char) :
    m.feed (cs ++ ds) = (m.feed cs).bind (·.feed ds) := by
  induction cs generalizing m with
  | nil => rfl
  | cons c cs ih =>
    simp only [List.cons_append, feed]
    split
    · exact ih _
    · rfl

end Machine

/-- The value that a text stands for. -/
def ofText? (text : String) : Option Json :=
  (Machine.start.feed text.toList).bind Machine.result?

end MessagePlan.Json
