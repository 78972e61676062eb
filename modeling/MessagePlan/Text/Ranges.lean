/-!
# Ranges of Characters

A set of characters given by the ranges of its code points, both ends included. The tables
of Unicode properties are such sets.

## Main definitions

* `Ranges`: Pairs of a first and a last code point.
* `Ranges.contains`: Whether a character lies in one of the ranges.
-/

namespace MessagePlan.Text

/-- Ranges of code points, each with its first and its last. -/
abbrev Ranges := List (Nat × Nat)

/-- Whether a character lies in one of the ranges. -/
def Ranges.contains (rs : Ranges) (c : Char) : Bool :=
  rs.any fun r => decide (r.1 ≤ c.toNat ∧ c.toNat ≤ r.2)

end MessagePlan.Text
