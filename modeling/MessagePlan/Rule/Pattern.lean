import MessagePlan.Value

/-!
# Patterns

What arrives at a terminal when a rule is chosen is nothing, a constant, or a message of some
family. A pattern is a set of such arrivals; a rule has one pattern for each terminal but the
one it computes. Two patterns that overlap overlap in a pattern, so what two rules accept
together can be written as a rule again.

## Main definitions

* `Arrival`, `Signature`: What arrives at one terminal, and at all terminals but one.
* `Pattern`: A set of arrivals.
* `Pattern.accepts`, `Pattern.contains`, `Pattern.meet?`: Membership, inclusion and
  intersection.
* `acceptsAll`, `containsAll`, `meetAll?`: The same for rows of patterns.

## Theorems

* `contains_refl`: Each pattern contains itself.
-/

namespace MessagePlan

/-- What arrives at a terminal. -/
inductive Arrival where
  | absent
  | constant
  | message (family : Family)
deriving DecidableEq, Hashable, Inhabited, Repr

/-- What arrives at the terminals of a node other than the one computed, in their order. -/
abbrev Signature := List Arrival

/-- How an arrival is shown. -/
def Arrival.text : Arrival → String
  | .absent => "Absent"
  | .constant => "Constant"
  | .message family => family.name

/-- How a signature is shown. -/
def Signature.text (s : Signature) : String := "(" ++ ", ".intercalate (s.map Arrival.text) ++ ")"

/-- A set of arrivals: one alone, the messages, or everything. -/
inductive Pattern where
  | absent
  | constant
  | family (f : Family)
  | anyMessage
  | any
deriving DecidableEq, Hashable, Inhabited, Repr

namespace Pattern

/-- Whether an arrival is in the set. -/
def accepts : Pattern → Arrival → Bool
  | .any, _ => true
  | .anyMessage, .message _ => true
  | .family f, .message f' => f == f'
  | .constant, .constant => true
  | .absent, .absent => true
  | _, _ => false

/-- Whether all arrivals in the second set are in the first. -/
def contains : Pattern → Pattern → Bool
  | .any, _ => true
  | .anyMessage, .anyMessage => true
  | .anyMessage, .family _ => true
  | p, q => p == q

/-- The arrivals in both sets, if there are any. -/
def meet? (p q : Pattern) : Option Pattern :=
  if p.contains q then some q else if q.contains p then some p else none

/-- Each pattern contains itself. -/
theorem contains_refl (p : Pattern) : p.contains p = true := by
  cases p <;> simp [contains]

end Pattern

/-- Whether each arrival is in the set in its place. -/
def acceptsAll : List Pattern → Signature → Bool
  | [], [] => true
  | p :: ps, a :: as => p.accepts a && acceptsAll ps as
  | _, _ => false

/-- Whether each pattern contains the one in its place. -/
def containsAll : List Pattern → List Pattern → Bool
  | [], [] => true
  | p :: ps, q :: qs => p.contains q && containsAll ps qs
  | _, _ => false

/-- The meets of the patterns in the same places, if all of them meet. -/
def meetAll? : List Pattern → List Pattern → Option (List Pattern)
  | [], [] => some []
  | p :: ps, q :: qs =>
    match p.meet? q, meetAll? ps qs with
    | some m, some ms => some (m :: ms)
    | _, _ => none
  | _, _ => none

end MessagePlan
