import MessagePlan.Graph.Basic
import MessagePlan.Text.Lowercase

/-!
# Generated Names

Nodes, variables and edges that are not given a name get one from their kind: the kind in
lower case, and a number that counts up for each kind. A number whose name a node or a
variable already has is skipped; names of edges are not reserved. Two kinds that differ
only in case share their names but not their counters. The numbers are 32 bits wide: a kind
that has used the last one gets no further name.

## Main definitions

* `numbered`: A name with a number.
* `Graph.isTaken`: Whether a node or a variable has a name.
* `firstFree`: The first number from a given one whose name is free.
* `Graph.freshName`: A generated name, and the graph that remembers its number.

## Theorems

* `firstFree_eq_some`: The number found is free and in range, and those before it are taken.
-/

namespace MessagePlan

/-- The largest number that a generated name can have. -/
def largestNumber : Nat := UInt32.size - 1

/-- A stem with a number. -/
def numbered (stem : String) (k : Nat) : String := stem ++ "_" ++ Nat.repr k

/-- The first number from `k` on whose name is not taken, among the next `tries`. -/
def firstFree (taken : String → Bool) (stem : String) : (tries k : Nat) → Option Nat
  | 0, _ => none
  | tries + 1, k =>
    if largestNumber < k then none
    else if taken (numbered stem k) then firstFree taken stem tries (k + 1)
    else some k

/-- The number found is free and in range, and all numbers before it are taken. -/
theorem firstFree_eq_some {taken : String → Bool} {stem : String} {tries k n : Nat}
    (h : firstFree taken stem tries k = some n) :
    k ≤ n ∧ n < k + tries ∧ n ≤ largestNumber ∧ taken (numbered stem n) = false ∧
      ∀ i, k ≤ i → i < n → taken (numbered stem i) = true := by
  induction tries generalizing k with
  | zero => simp only [firstFree, reduceCtorEq] at h
  | succ tries ih =>
    simp only [firstFree] at h
    split at h
    · simp only [reduceCtorEq] at h
    · rename_i hk
      split at h
      · -- The first name is taken, and the rest is the answer for the next number.
        rename_i ht
        obtain ⟨h₁, h₂, h₃, h₄, h₅⟩ := ih h
        refine ⟨by omega, by omega, h₃, h₄, fun i hi hn => ?_⟩
        by_cases hik : i = k
        · rw [hik]; exact ht
        · exact h₅ i (by omega) hn
      · rename_i ht
        obtain rfl := Option.some.inj h
        exact ⟨Nat.le_refl _, by omega, by omega, by simpa using ht, fun i _ _ => by omega⟩

namespace Graph

/-- What an operation on a graph answers, and the graph after it. -/
abbrev Edit (ε α : Type) := Except (Failure ε) α × Graph

/-- Whether a node or a variable has a name. -/
def isTaken (g : Graph) (name : String) : Bool :=
  g.nodeNames.contains name || g.variableNames.contains name

/-- The last number used for a kind. -/
def lastNumber (g : Graph) (kind : String) : Nat := g.counters.getD kind 0

/-- The graph with a number remembered as the last one used for a kind. -/
def withLastNumber (g : Graph) (kind : String) (k : Nat) : Graph :=
  { g with counters := g.counters.insert kind k }

/-- A name generated for a kind.  One more try than there are names suffices.  Where no number
    is left, all of them count as used from then on. -/
def freshName {ε : Type} (g : Graph) (kind : String) : Edit ε String :=
  let stem := Text.lowercase kind
  let tries := g.nodeNames.size + g.variableNames.size + 1
  match firstFree g.isTaken stem tries (g.lastNumber kind + 1) with
  | some k => (.ok (numbered stem k), g.withLastNumber kind k)
  | none => (.error .namesExhausted, g.withLastNumber kind largestNumber)

end Graph

end MessagePlan
