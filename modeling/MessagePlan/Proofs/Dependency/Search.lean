import Mathlib.Data.List.Count
import Mathlib.Data.Prod.Basic
import Mathlib.Logic.Relation
import MessagePlan.Dependency.Loops

/-!
# What a Search Reaches

A search marks vertices and never takes a mark back, so two things can be said of its result
without following it. It is closed: a vertex that it has marked has its neighbours marked as
well. And it is no larger than it has to be: what the first vertices have, and what passes from
a vertex to its neighbours, all that was marked has. Together they say that the result is what
can be reached, here of `ahead`, which starts from the neighbours of a vertex and does not enter
settled vertices.

A graph of numbers is tabulated twice, by where links start and by where they end. It is
`Mirrored` if both tables have the same links, equally often. That is what turning it round
preserves, and what makes the search against the links a search along links again.

## Main definitions

* `Digraph.Linked`, `Digraph.Open`: A vertex is linked to another, and that one is not settled.
* `Digraph.Mirrored`: Both tables have the same links between the same vertices.

## Theorems

* `spread_closed`, `spread_induction`: What is marked is closed, and no more than that.
* `mem_ahead`: What lies ahead of a vertex is what open links lead to.
* `mirrored_ofLinks`: Links between vertices make mirrored tables.
* `Mirrored.transGen_reversed`: Paths of a graph turned round are paths the other way.
-/

namespace MessagePlan.Dependency

open Relation

section Spread

variable {next : Nat → List Nat} {n : Nat} {marked : Std.HashSet Nat} {vs : List Nat}

/-- Marks stay, the vertices in the list are marked, and so are the neighbours of those that
    were not marked before. -/
theorem spread_closed (next : Nat → List Nat) (n : Nat) (marked : Std.HashSet Nat)
    (vs : List Nat) :
    (∀ v ∈ marked, v ∈ spread next n marked vs) ∧
      (∀ v ∈ vs, v < n → v ∈ spread next n marked vs) ∧
      ∀ u ∈ spread next n marked vs, u ∉ marked → ∀ v ∈ next u, v < n →
        v ∈ spread next n marked vs := by
  -- The search marks a vertex and goes on with its neighbours, or it passes one over.
  induction marked, vs using spread.induct next n with
  | case1 marked =>
    rw [spread]
    exact ⟨fun v hv => hv, fun v hv _ => absurd hv List.not_mem_nil,
      fun u hu hnot => absurd hu hnot⟩
  | case2 marked v vs h ih =>
    rw [spread, dif_pos h]
    rcases ih with ⟨hkept, hlist, hnext⟩
    have hv : v ∈ spread next n (marked.insert v) (next v ++ vs) :=
      hkept v Std.HashSet.mem_insert_self
    refine ⟨fun u hu => hkept u (Std.HashSet.mem_insert.2 (Or.inr hu)), fun u hu hlt => ?_,
      fun u hu hnot w hw hlt => ?_⟩
    · rcases List.mem_cons.1 hu with rfl | hu
      · exact hv
      · exact hlist u (List.mem_append_right _ hu) hlt
    · -- The neighbours of the vertex marked just now are in the list that is left.
      by_cases huv : v = u
      · subst huv
        exact hlist w (List.mem_append_left _ hw) hlt
      · refine hnext u hu (fun hmem => ?_) w hw hlt
        rcases Std.HashSet.mem_insert.1 hmem with heq | hmem
        · exact huv (beq_iff_eq.1 heq)
        · exact hnot hmem
  | case3 marked v vs h ih =>
    rw [spread, dif_neg h]
    rcases ih with ⟨hkept, hlist, hnext⟩
    refine ⟨hkept, fun u hu hlt => ?_, hnext⟩
    rcases List.mem_cons.1 hu with rfl | hu
    · -- A vertex that is passed over and counts as one is marked already.
      by_cases hmem : u ∈ marked
      · exact hkept u hmem
      · rw [← Std.HashSet.contains_iff_mem] at hmem
        exact absurd ⟨hlt, Bool.eq_false_iff.2 hmem⟩ h
    · exact hlist u hu hlt

/-- What is true of the marked vertices and of those in the list, and passes from a vertex to its
    neighbours, is true of all that get marked. -/
theorem spread_induction {P : Nat → Prop} (hmarked : ∀ v ∈ marked, P v)
    (hlist : ∀ v ∈ vs, v < n → P v) (hnext : ∀ u, P u → ∀ v ∈ next u, v < n → P v) :
    ∀ v ∈ spread next n marked vs, P v := by
  induction marked, vs using spread.induct next n with
  | case1 marked =>
    rw [spread]
    exact hmarked
  | case2 marked v vs h ih =>
    rw [spread, dif_pos h]
    have hv := hlist v List.mem_cons_self h.1
    -- The vertex is marked, and its own list is gone through as well.
    refine ih (fun u hu => ?_) (fun u hu hlt => ?_)
    · rcases Std.HashSet.mem_insert.1 hu with heq | hu
      · rw [← beq_iff_eq.1 heq]
        exact hv
      · exact hmarked u hu
    · rcases List.mem_append.1 hu with hu | hu
      · exact hnext v hv u hu hlt
      · exact hlist u (List.mem_cons_of_mem v hu) hlt
  | case3 marked v vs h ih =>
    rw [spread, dif_neg h]
    exact ih hmarked fun u hu => hlist u (List.mem_cons_of_mem v hu)

end Spread

namespace Digraph

/-- A vertex is linked to another. -/
def Linked (d : Digraph) (u v : Nat) : Prop := v ∈ d.next u

/-- A vertex is linked to another one that is not settled. -/
def Open (d : Digraph) (settled : Std.HashSet Nat) (u v : Nat) : Prop :=
  d.Linked u v ∧ v ∉ settled

/-- Both tables of a graph have a place for each vertex and hold the same links between them,
    equally often. -/
structure Mirrored (d : Digraph) : Prop where
  size_successors : d.successors.size = d.size
  size_predecessors : d.predecessors.size = d.size
  lt_next : ∀ u, ∀ v ∈ d.next u, v < d.size
  lt_back : ∀ u, ∀ v ∈ d.back u, v < d.size
  count_next : ∀ u v, (d.next u).count v = (d.back v).count u

variable {d : Digraph} {settled : Std.HashSet Nat} {u v : Nat}

theorem mem_unsettled {vs : List Nat} : v ∈ unsettled settled vs ↔ v ∈ vs ∧ v ∉ settled := by
  rw [unsettled, List.mem_filter, Bool.not_eq_true', ← Bool.not_eq_true,
    Std.HashSet.contains_iff_mem]

/-- What lies ahead of a vertex is what open links lead to. -/
theorem mem_ahead (hd : d.Mirrored) : u ∈ d.ahead settled v ↔ TransGen (d.Open settled) v u := by
  constructor
  · -- Whatever is marked was reached over open links.
    refine spread_induction (fun u hu => absurd hu Std.HashSet.not_mem_empty) (fun u hu _ => ?_)
      (fun u hu w hw _ => ?_) u
    · exact TransGen.single (mem_unsettled.1 hu)
    · exact TransGen.tail hu (mem_unsettled.1 hw)
  · intro hpath
    -- The other way round, marks are closed under open links, so a path cannot leave them.
    have hclosed := spread_closed (fun u => unsettled settled (d.next u)) d.size ∅
      (unsettled settled (d.next v))
    induction hpath with
    | single hlink => exact hclosed.2.1 _ (mem_unsettled.2 hlink) (hd.lt_next _ _ hlink.1)
    | tail _ hlink ih =>
      exact hclosed.2.2 _ ih Std.HashSet.not_mem_empty _ (mem_unsettled.2 hlink)
        (hd.lt_next _ _ hlink.1)

/-! ### Both tables -/

theorem getD_modify {α : Type} {table : Array α} {a u : Nat} {f : α → α} {z : α}
    (hu : u < table.size) :
    (table.modify a f).getD u z = if a = u then f (table.getD u z) else table.getD u z := by
  simp only [Array.getD, Array.size_modify, hu, dite_true, Array.getElem_modify,
    Array.getInternal_eq_getElem]

/-- A table grown by some links has each of them as often as it is among the links. -/
theorem count_getD_foldl_modify (links : List (Nat × Nat)) (table : Array (List Nat)) (u v : Nat)
    (hu : u < table.size) :
    ((links.foldl (fun table l => table.modify l.1 (l.2 :: ·)) table).getD u []).count v =
      (table.getD u []).count v + links.count (u, v) := by
  induction links generalizing table with
  | nil => rw [List.foldl_nil, List.count_nil, Nat.add_zero]
  | cons l links ih =>
    rcases l with ⟨a, b⟩
    rw [List.foldl_cons, ih _ (by rw [Array.size_modify]; exact hu), getD_modify hu]
    by_cases heq : (a, b) = (u, v)
    · -- The first link is the one that is counted.
      rcases Prod.mk.inj heq with ⟨rfl, rfl⟩
      rw [if_pos rfl, List.count_cons_self, List.count_cons_self]
      omega
    · rw [List.count_cons_of_ne heq]
      by_cases ha : a = u
      · have hb : b ≠ v := fun hb => heq (Prod.mk.injEq .. ▸ ⟨ha, hb⟩)
        rw [if_pos ha, List.count_cons_of_ne hb]
      · rw [if_neg ha]

theorem size_foldl_modify (links : List (Nat × Nat)) (table : Array (List Nat)) :
    (links.foldl (fun table l => table.modify l.1 (l.2 :: ·)) table).size = table.size := by
  induction links generalizing table with
  | nil => rfl
  | cons l links ih => rw [List.foldl_cons, ih, Array.size_modify]

/-- The table by ends is the table by starts of the links turned round. -/
theorem back_ofLinks (size : Nat) (links : List (Nat × Nat)) :
    (ofLinks size links).predecessors = (ofLinks size (links.map Prod.swap)).successors := by
  simp only [ofLinks, List.foldl_map, Prod.fst_swap, Prod.snd_swap]

/-- Links between vertices make mirrored tables. -/
theorem mirrored_ofLinks {size : Nat} {links : List (Nat × Nat)}
    (hlinks : ∀ l ∈ links, l.1 < size ∧ l.2 < size) : (ofLinks size links).Mirrored := by
  have hback : ∀ u v, v ∈ (ofLinks size links).back u ↔ u < size ∧ (v, u) ∈ links := by
    intro u v
    rw [back, back_ofLinks, ← next, mem_next_ofLinks, List.mem_map]
    refine and_congr_right fun _ => ⟨?_, fun h => ⟨_, h, rfl⟩⟩
    rintro ⟨⟨a, b⟩, hmem, heq⟩
    rcases Prod.mk.inj heq with ⟨rfl, rfl⟩
    exact hmem
  refine ⟨?_, ?_, fun u v hv => ?_, fun u v hv => ?_, fun u v => ?_⟩
  · rw [ofLinks, size_foldl_modify, Array.size_replicate]
  · rw [back_ofLinks, ofLinks, size_foldl_modify, Array.size_replicate]
    rfl
  · exact (hlinks _ (mem_next_ofLinks.1 hv).2).2
  · exact (hlinks _ ((hback u v).1 hv).2).1
  · by_cases huv : u < size ∧ v < size
    · -- Each table has the link as often as it is among the links.
      rw [next, back, back_ofLinks, ofLinks, ofLinks,
        count_getD_foldl_modify _ _ _ _ (by rw [Array.size_replicate]; exact huv.1),
        count_getD_foldl_modify _ _ _ _ (by rw [Array.size_replicate]; exact huv.2)]
      have hswap := List.count_map_of_injective links Prod.swap Prod.swap_injective (u, v)
      rw [Prod.swap_prod_mk] at hswap
      simp only [hswap, Array.getD, Array.size_replicate, huv.1, huv.2, dite_true,
        Array.getInternal_eq_getElem, Array.getElem_replicate, List.count_nil]
    · have hnot : (u, v) ∉ links := fun hmem => huv (hlinks _ hmem)
      rw [List.count_eq_zero_of_not_mem fun hmem => hnot (mem_next_ofLinks.1 hmem).2,
        List.count_eq_zero_of_not_mem fun hmem => hnot ((hback v u).1 hmem).2]

theorem Mirrored.reversed (hd : d.Mirrored) : d.reversed.Mirrored :=
  ⟨hd.size_predecessors, hd.size_successors, hd.lt_back, hd.lt_next,
    fun u v => (hd.count_next v u).symm⟩

theorem Mirrored.linked_reversed (hd : d.Mirrored) : d.reversed.Linked u v ↔ d.Linked v u := by
  have hcount := hd.count_next v u
  rw [Linked, Linked, ← List.count_pos_iff, ← List.count_pos_iff, hcount]
  rfl

/-- Paths of a graph turned round are paths the other way. -/
theorem Mirrored.transGen_reversed (hd : d.Mirrored) :
    TransGen d.reversed.Linked u v ↔ TransGen d.Linked v u := by
  have heq : d.reversed.Linked = Function.swap d.Linked := by
    funext a b
    exact propext hd.linked_reversed
  rw [heq, transGen_swap]

theorem Mirrored.reflTransGen_reversed (hd : d.Mirrored) :
    ReflTransGen d.reversed.Linked u v ↔ ReflTransGen d.Linked v u := by
  rw [reflTransGen_iff_eq_or_transGen, reflTransGen_iff_eq_or_transGen, hd.transGen_reversed,
    eq_comm]

end Digraph

end MessagePlan.Dependency
