import Std.Data.HashSet

/-!
# Searching a Graph of Numbers

Which numbers can be reached from some others along given links. Only numbers below a bound
count as vertices. The search keeps the vertices still to be looked at in a list; it ends
because each vertex is marked at most once and every other move shortens the list.

## Main definitions

* `spread`: The vertices reached.

## Theorems

* `unmarked_insert_lt`: Marking a vertex leaves fewer of them unmarked.
-/

namespace MessagePlan.Dependency

/-- How many vertices are not marked. -/
def unmarked (n : Nat) (marked : Std.HashSet Nat) : Nat :=
  (List.range n).countP fun v => !marked.contains v

/-- A condition that is stronger, and fails where the weaker one holds, holds less often. -/
theorem countP_lt_countP {α : Type} {p q : α → Bool} {xs : List α} {x : α}
    (hpq : ∀ y, q y = true → p y = true) (hx : x ∈ xs) (hp : p x = true) (hq : q x = false) :
    xs.countP q < xs.countP p := by
  induction xs with
  | nil => exact absurd hx (List.not_mem_nil)
  | cons y ys ih =>
    have hle : ys.countP q ≤ ys.countP p := List.countP_mono_left fun z _ => hpq z
    rcases List.mem_cons.1 hx with rfl | hy
    -- Here is where they differ; behind it the stronger one holds at most as often.
    · rw [List.countP_cons_of_pos hp, List.countP_cons_of_neg (by rw [hq]; decide)]
      omega
    -- They differ further on, and here the weaker one holds at least as often.
    · have := ih hy
      by_cases hqy : q y = true
      · rw [List.countP_cons_of_pos hqy, List.countP_cons_of_pos (hpq y hqy)]
        omega
      · rw [List.countP_cons_of_neg hqy]
        by_cases hpy : p y = true
        · rw [List.countP_cons_of_pos hpy]
          omega
        · rw [List.countP_cons_of_neg hpy]
          exact this

/-- Marking a vertex leaves fewer of them unmarked. -/
theorem unmarked_insert_lt {n : Nat} {marked : Std.HashSet Nat} {v : Nat} (hv : v < n)
    (hm : marked.contains v = false) : unmarked n (marked.insert v) < unmarked n marked := by
  refine countP_lt_countP (fun u hu => ?_) (List.mem_range.2 hv) ?_ ?_
  · simp only [Std.HashSet.contains_insert, Bool.not_or, Bool.and_eq_true] at hu
    exact hu.2
  · simp only [hm, Bool.not_false]
  · simp only [Std.HashSet.contains_insert, beq_self_eq_true, Bool.true_or, Bool.not_true]

/-- The vertices below `n` that are marked already or that can be reached from those in the
    list, along links between vertices that are not marked. -/
def spread (next : Nat → List Nat) (n : Nat) (marked : Std.HashSet Nat) :
    List Nat → Std.HashSet Nat
  | [] => marked
  | v :: vs =>
    if _h : v < n ∧ marked.contains v = false then
      spread next n (marked.insert v) (next v ++ vs)
    else spread next n marked vs
termination_by vs => (unmarked n marked, vs.length)
decreasing_by
  · exact .left _ _ (unmarked_insert_lt _h.1 _h.2)
  · exact .right _ (Nat.lt_succ_self _)

end MessagePlan.Dependency
