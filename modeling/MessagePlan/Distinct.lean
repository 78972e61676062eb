import Std.Data.HashSet

/-!
# First Occurrences

A list with every item kept only where it occurs first.

## Main definitions

* `distinctFrom`: The items of a list that are not in a set, each once.
* `distinct`: The items of a list, each once.

## Theorems

* `distinctFrom_eq`: What is collected is put behind what was collected before.
* `mem_distinct`: A list without repeats has the same items.
* `nodup_distinct`: A list without repeats has none.
* `distinct_eq_eraseDups`: What is kept does not depend on the hashes of the items.
* `exists_split_of_distinct`: What is before an item that is kept was kept before it.
-/

namespace MessagePlan

variable {α : Type} [BEq α] [Hashable α]

/-- The items of a list that are not in `seen`, each once, behind those collected so far. -/
def distinctFrom (seen : Std.HashSet α) (collected : Array α) : List α → List α
  | [] => collected.toList
  | x :: xs =>
    if seen.contains x then distinctFrom seen collected xs
    else distinctFrom (seen.insert x) (collected.push x) xs

/-- The items of a list in the order of their first occurrence. -/
def distinct (xs : List α) : List α := distinctFrom ∅ #[] xs

/-- What is collected stands in front and changes nothing of what follows. -/
theorem distinctFrom_eq (seen : Std.HashSet α) (collected : Array α) (xs : List α) :
    distinctFrom seen collected xs = collected.toList ++ distinctFrom seen #[] xs := by
  induction xs generalizing seen collected with
  | nil => simp [distinctFrom]
  | cons x xs ih =>
    simp only [distinctFrom]
    split
    · exact ih seen collected
    · rw [ih, ih (seen.insert x) (#[].push x)]
      simp

variable [LawfulBEq α]

/-- The items kept are those of the list that are not in the set. -/
theorem mem_distinctFrom {seen : Std.HashSet α} {xs : List α} {y : α} :
    y ∈ distinctFrom seen #[] xs ↔ y ∈ xs ∧ y ∉ seen := by
  induction xs generalizing seen with
  | nil => simp [distinctFrom]
  | cons x xs ih =>
    simp only [distinctFrom]
    split
    · -- The first item has been seen, so dropping it loses nothing that is asked for.
      rename_i hx
      rw [ih, List.mem_cons]
      have hx : x ∈ seen := Std.HashSet.contains_iff_mem.1 hx
      constructor
      · exact fun h => ⟨.inr h.1, h.2⟩
      · rintro ⟨rfl | h, hy⟩
        · exact absurd hx hy
        · exact ⟨h, hy⟩
    · -- The first item is new, and the rest is asked for items other than it.
      rename_i hx
      have hx : x ∉ seen := fun h => hx (Std.HashSet.contains_iff_mem.2 h)
      rw [distinctFrom_eq]
      simp only [Array.push_empty, List.mem_append, List.mem_cons, List.not_mem_nil, or_false,
        ih, Std.HashSet.mem_insert, beq_iff_eq]
      constructor
      · rintro (rfl | ⟨h, hy⟩)
        · exact ⟨.inl rfl, hx⟩
        · exact ⟨.inr h, fun hs => hy (.inr hs)⟩
      · rintro ⟨rfl | h, hy⟩
        · exact .inl rfl
        · by_cases hxy : x = y
          · exact .inl hxy.symm
          · exact .inr ⟨h, fun hs => hs.elim hxy hy⟩

/-- A list without its repeats has the same items. -/
theorem mem_distinct {xs : List α} {y : α} : y ∈ distinct xs ↔ y ∈ xs := by
  simp [distinct, mem_distinctFrom]

/-- No item is kept twice, since it is in the set once it is kept. -/
theorem nodup_distinctFrom (seen : Std.HashSet α) (xs : List α) :
    (distinctFrom seen #[] xs).Nodup := by
  induction xs generalizing seen with
  | nil => simp [distinctFrom]
  | cons x xs ih =>
    simp only [distinctFrom]
    split
    · exact ih seen
    · rw [distinctFrom_eq]
      simp only [Array.push_empty, List.singleton_append, List.nodup_cons]
      exact ⟨fun h => (mem_distinctFrom.1 h).2 (by simp), ih _⟩

/-- A list without its repeats has none. -/
theorem nodup_distinct (xs : List α) : (distinct xs).Nodup := nodup_distinctFrom ∅ xs

theorem distinctFrom_eq_eraseDups (seen : Std.HashSet α) (xs : List α) :
    distinctFrom seen #[] xs = (xs.filter fun x => !seen.contains x).eraseDups := by
  induction xs generalizing seen with
  | nil => rfl
  | cons x xs ih =>
    unfold distinctFrom
    cases hx : seen.contains x with
    | true =>
      rw [if_pos rfl, ih, List.filter_cons_of_neg (by simp [hx])]
    | false =>
      rw [if_neg Bool.false_ne_true, distinctFrom_eq, ih, List.filter_cons_of_pos (by simp [hx]),
        List.eraseDups_cons, List.filter_filter]
      -- To have seen one item more is to leave that item out as well.
      have hfilter : (xs.filter fun y => !(seen.insert x).contains y) =
          xs.filter fun y => !y == x && !seen.contains y := by
        refine List.filter_congr fun y _ => ?_
        rw [Std.HashSet.contains_insert, Bool.not_or, Bool.beq_comm]
      rw [hfilter]
      rfl

/-- What is kept does not depend on the hashes of the items. -/
theorem distinct_eq_eraseDups (xs : List α) : distinct xs = xs.eraseDups := by
  have hall : (xs.filter fun x => !(∅ : Std.HashSet α).contains x) = xs :=
    List.filter_eq_self.2 fun x _ => by rw [Std.HashSet.contains_empty]; rfl
  unfold distinct
  rw [distinctFrom_eq_eraseDups, hall]

/-- Where an item is kept, all items that were before it are in the set or kept before it. -/
theorem exists_split_of_distinctFrom {seen : Std.HashSet α} {xs kept later : List α} {x : α}
    (h : distinctFrom seen #[] xs = kept ++ x :: later) :
    ∃ before after, xs = before ++ x :: after ∧ ∀ y ∈ before, y ∈ seen ∨ y ∈ kept := by
  induction xs generalizing seen kept with
  | nil => exact absurd h.symm (List.append_ne_nil_of_right_ne_nil kept (List.cons_ne_nil x later))
  | cons z xs ih =>
    unfold distinctFrom at h
    split at h
    · rename_i hz
      rcases ih h with ⟨before, after, rfl, hbefore⟩
      refine ⟨z :: before, after, rfl, fun y hy => ?_⟩
      rcases List.mem_cons.1 hy with rfl | hy
      · exact Or.inl (Std.HashSet.contains_iff_mem.1 hz)
      · exact hbefore y hy
    · rw [distinctFrom_eq, Array.push_empty, List.singleton_append] at h
      cases kept with
      | nil =>
        -- The first item is the one that is asked about.
        rw [List.nil_append] at h
        refine ⟨[], xs, by rw [(List.cons.inj h).1, List.nil_append], fun y hy => ?_⟩
        exact absurd hy List.not_mem_nil
      | cons k kept =>
        rw [List.cons_append] at h
        rcases List.cons.inj h with ⟨rfl, hrest⟩
        rcases ih hrest with ⟨before, after, rfl, hbefore⟩
        refine ⟨z :: before, after, rfl, fun y hy => ?_⟩
        rcases List.mem_cons.1 hy with rfl | hy
        · exact Or.inr List.mem_cons_self
        · rcases hbefore y hy with hseen | hkept
          · rcases Std.HashSet.mem_insert.1 hseen with heq | hseen
            · exact Or.inr (beq_iff_eq.1 heq ▸ List.mem_cons_self)
            · exact Or.inl hseen
          · exact Or.inr (List.mem_cons_of_mem z hkept)

/-- What is before an item that is kept was kept before it. -/
theorem exists_split_of_distinct {xs kept later : List α} {x : α}
    (h : distinct xs = kept ++ x :: later) :
    ∃ before after, xs = before ++ x :: after ∧ ∀ y ∈ before, y ∈ kept := by
  rcases exists_split_of_distinctFrom h with ⟨before, after, hxs, hbefore⟩
  exact ⟨before, after, hxs, fun y hy => (hbefore y hy).resolve_left Std.HashSet.not_mem_empty⟩

end MessagePlan
