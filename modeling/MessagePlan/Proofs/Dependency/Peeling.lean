import MessagePlan.Proofs.Dependency.Search

/-!
# Peeling Off What Is on No Loop

Most vertices are on no loop, and they are found by counting. A vertex without links to it is on
none; when it is peeled off, its links no longer count, and a vertex that has lost its last one
may follow. The counts are not looked up but kept: each link is taken off the count of its end
when its start is peeled off. So what has to be shown is that the counts are right.

`Peeling` says what they are. The count of a vertex is the number of links to it from vertices
that are not peeled off, and of those links that are still to be released while the links of one
vertex are gone through. A vertex that is free or peeled off has none of either, which has two
uses: it is never noted as free a second time, and all links to it come from vertices that were
peeled off before it. A loop through it would go through one of these, and so on for ever.

Only this direction is needed. A vertex that is not peeled off although it is on no loop costs a
search later and nothing else, so it does not matter here when peeling stops.

## Main definitions

* `Digraph.OnCycle`: Links lead from a vertex back to it.
* `Peeling`: Counts, free vertices and peeled ones agree.

## Theorems

* `Peeling.release`: Releasing links keeps the counts right.
* `Peeling.pop`: A free vertex is on no loop and can be peeled off.
* `not_onCycle_of_peeled`: What gets peeled off is on no loop.
-/

namespace MessagePlan.Dependency.Digraph

open Relation

/-- Links lead from a vertex back to it. -/
def OnCycle (d : Digraph) (v : Nat) : Prop := TransGen d.Linked v v

/-- The counts of links, the vertices that are free to be peeled off and those that are peeled
    off agree, where the links to the vertices that are due have not been taken away yet. -/
structure Peeling (d : Digraph) (peeled free due : List Nat) (counts : Array Nat) : Prop where
  size : counts.size = d.size
  nodup : free.Nodup
  apart : ∀ v ∈ free, v ∉ peeled
  count : ∀ v, v < d.size →
    counts.getD v 1 = (d.back v).countP (fun u => decide (u ∉ peeled)) + due.count v
  spent : ∀ v, v ∈ free ∨ v ∈ peeled → counts.getD v 1 = 0
  acyclic : ∀ v ∈ peeled, ¬ d.OnCycle v

variable {d : Digraph} {peeled free due : List Nat} {counts : Array Nat} {v : Nat}

/-- One vertex more to leave out is as many entries less as it has. -/
theorem countP_not_mem_cons (hv : v ∉ peeled) (us : List Nat) :
    us.countP (fun u => decide (u ∉ peeled)) =
      us.countP (fun u => decide (u ∉ v :: peeled)) + us.count v := by
  induction us with
  | nil => rfl
  | cons u us ih =>
    rw [List.countP_cons, List.countP_cons, List.count_cons, ih]
    -- Only the vertex that is peeled changes sides.
    by_cases huv : u = v
    · subst huv
      simp only [hv, not_false_eq_true, decide_true, if_true, List.mem_cons, true_or, not_true,
        decide_false, Bool.false_eq_true, if_false, beq_self_eq_true]
      omega
    · simp only [List.mem_cons, huv, false_or, beq_eq_false_iff_ne.2 huv, Bool.false_eq_true,
        if_false]
      omega

/-- A count of nothing is the count of a vertex. -/
theorem Peeling.lt_size (h : d.Peeling peeled free due counts) (hv : counts.getD v 1 = 0) :
    v < d.size := by
  by_cases hlt : v < counts.size
  · exact h.size ▸ hlt
  · rw [Array.getD, dif_neg hlt] at hv
    exact absurd hv Nat.one_ne_zero

/-- Taking one link away keeps the counts right, and a vertex is noted when it was its last. -/
theorem Peeling.releaseOne (h : d.Peeling peeled free (v :: due) counts) (hv : v < d.size) :
    d.Peeling peeled
      (if (counts.modify v (· - 1)).getD v 1 = 0 then v :: free else free) due
      (counts.modify v (· - 1)) := by
  have hold := h.count v hv
  rw [List.count_cons_self] at hold
  -- With a link to be taken away the vertex is neither free nor peeled off.
  have hnot : ¬ (v ∈ free ∨ v ∈ peeled) := by
    intro hmem
    have := h.spent v hmem
    omega
  have hother : ∀ u, u ≠ v → (counts.modify v (· - 1)).getD u 1 = counts.getD u 1 := by
    intro u huv
    by_cases hu : u < counts.size
    · rw [getD_modify hu, if_neg (Ne.symm huv)]
    · rw [Array.getD, dif_neg (by rw [Array.size_modify]; exact hu), Array.getD, dif_neg hu]
  have hthis : (counts.modify v (· - 1)).getD v 1 = counts.getD v 1 - 1 := by
    rw [getD_modify (h.size ▸ hv), if_pos rfl]
  have hcount : ∀ u, u < d.size → (counts.modify v (· - 1)).getD u 1 =
      (d.back u).countP (fun w => decide (w ∉ peeled)) + due.count u := by
    intro u hu
    by_cases huv : u = v
    · subst huv
      omega
    · have hnew := h.count u hu
      rw [List.count_cons_of_ne (Ne.symm huv)] at hnew
      rw [hother u huv, hnew]
  have hkept : ∀ u, u ∈ free ∨ u ∈ peeled → (counts.modify v (· - 1)).getD u 1 = 0 := by
    intro u hu
    rw [hother u fun huv => hnot (huv ▸ hu)]
    exact h.spent u hu
  have hsize : (counts.modify v (· - 1)).size = d.size := Array.size_modify.trans h.size
  split
  case isFalse => exact ⟨hsize, h.nodup, h.apart, hcount, hkept, h.acyclic⟩
  case isTrue hzero =>
    refine ⟨hsize, List.nodup_cons.2 ⟨fun hmem => hnot (Or.inl hmem), h.nodup⟩, fun u hu => ?_,
      hcount, fun u hu => ?_, h.acyclic⟩
    · rcases List.mem_cons.1 hu with rfl | hu
      · exact fun hmem => hnot (Or.inr hmem)
      · exact h.apart u hu
    · rw [List.mem_cons, or_assoc] at hu
      rcases hu with rfl | hu
      · exact hzero
      · exact hkept u hu

/-- Taking all links away that are due keeps the counts right. -/
theorem Peeling.release (h : d.Peeling peeled free due counts) (hdue : ∀ v ∈ due, v < d.size) :
    d.Peeling peeled (Digraph.release counts free due).2 []
      (Digraph.release counts free due).1 := by
  induction due generalizing counts free with
  | nil => exact h
  | cons v due ih =>
    rw [Digraph.release]
    exact ih (h.releaseOne (hdue v List.mem_cons_self))
      fun u hu => hdue u (List.mem_cons_of_mem v hu)

/-- A free vertex is on no loop, and when it is peeled off its links are due. -/
theorem Peeling.pop (hd : d.Mirrored) (h : d.Peeling peeled (v :: free) [] counts) :
    d.Peeling (v :: peeled) free (d.next v) counts := by
  have hzero := h.spent v (Or.inl List.mem_cons_self)
  have hlt := h.lt_size hzero
  have hfresh := h.apart v List.mem_cons_self
  -- All links to the vertex come from vertices that have been peeled off.
  have hback : ∀ u, d.Linked u v → u ∈ peeled := by
    intro u hlink
    have hmem : u ∈ d.back v := by
      rw [← List.count_pos_iff, ← hd.count_next, List.count_pos_iff]
      exact hlink
    have hnone := h.count v hlt
    rw [hzero, List.count_nil, Nat.add_zero] at hnone
    have := List.countP_eq_zero.1 hnone.symm u hmem
    rw [decide_eq_true_eq, not_not] at this
    exact this
  have hoff : ¬ d.OnCycle v := by
    intro hloop
    rcases TransGen.tail'_iff.1 hloop with ⟨u, hpath, hlink⟩
    -- The vertex before it on the loop would be on a loop as well.
    exact h.acyclic u (hback u hlink) (TransGen.head' hlink hpath)
  refine ⟨h.size, (List.nodup_cons.1 h.nodup).2, fun u hu hmem => ?_, fun u hu => ?_,
    fun u hu => ?_, fun u hu => ?_⟩
  · rcases List.mem_cons.1 hmem with rfl | hmem
    · exact (List.nodup_cons.1 h.nodup).1 hu
    · exact h.apart u (List.mem_cons_of_mem v hu) hmem
  · rw [h.count u hu, List.count_nil, Nat.add_zero, hd.count_next, countP_not_mem_cons hfresh]
  · rw [List.mem_cons, or_left_comm, ← or_assoc] at hu
    rw [← List.mem_cons] at hu
    exact h.spent u hu
  · rcases List.mem_cons.1 hu with rfl | hu
    · exact hoff
    · exact h.acyclic u hu

theorem not_onCycle_of_peel (hd : d.Mirrored) (fuel : Nat) {gone : Std.HashSet Nat}
    (h : d.Peeling peeled free [] counts) :
    ∀ u ∈ d.peel fuel counts free gone, u ∈ gone ∨ ¬ d.OnCycle u := by
  induction fuel generalizing counts free gone peeled with
  | zero => exact fun u hu => Or.inl hu
  | succ fuel ih =>
    cases free with
    | nil => exact fun u hu => Or.inl hu
    | cons v free =>
      intro u hu
      have hpop := h.pop hd
      rw [peel] at hu
      -- What is peeled later is off the cycles by induction, and this vertex since it was free.
      rcases ih (hpop.release fun w hw => hd.lt_next v w hw) u hu with hmem | hoff
      · rcases Std.HashSet.mem_insert.1 hmem with heq | hmem
        · rw [← beq_iff_eq.1 heq]
          exact Or.inr (hpop.acyclic v List.mem_cons_self)
        · exact Or.inl hmem
      · exact Or.inr hoff

/-- What gets peeled off is on no loop. -/
theorem not_onCycle_of_peeled (hd : d.Mirrored) {gone : Std.HashSet Nat} {u : Nat}
    (hu : u ∈ d.peeled gone) : u ∈ gone ∨ ¬ d.OnCycle u := by
  have hcount : ∀ v, v < d.size →
      (d.predecessors.map List.length).getD v 1 = (d.back v).length := by
    intro v hv
    have hlt : v < d.predecessors.size := hd.size_predecessors ▸ hv
    simp only [back, Array.getD, Array.size_map, hlt, dite_true, Array.getInternal_eq_getElem,
      Array.getElem_map]
  -- At first nothing is peeled off, so that all links count.
  have hnone : ∀ v : Nat, v ∉ ([] : List Nat) := fun _ => List.not_mem_nil
  refine not_onCycle_of_peel hd d.size ⟨?_, ?_, fun v _ => hnone v,
    fun v hv => ?_, fun v hv => ?_, fun v hv => absurd hv (hnone v)⟩ u hu
  · rw [Array.size_map, hd.size_predecessors]
  · exact List.nodup_range.filter _
  · rw [hcount v hv, List.count_nil, Nat.add_zero, eq_comm, List.countP_eq_length]
    exact fun w _ => decide_eq_true List.not_mem_nil
  · have hfree := hv.resolve_right List.not_mem_nil
    exact of_decide_eq_true (List.mem_filter.1 hfree).2

end MessagePlan.Dependency.Digraph
