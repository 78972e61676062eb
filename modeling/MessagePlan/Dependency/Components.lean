import MessagePlan.Dependency.Search

/-!
# Components of a Graph of Numbers

The component of a vertex consists of the vertices that it leads to and that lead back to it, and
of the vertex itself. Every vertex is in one component, so that the components divide the vertices.

They are found here by two searches for each, one along the links and one against them. Most
vertices are alone: those that nothing on a loop leads to, or that lead to nothing on a loop, are
peeled off first, in time proportional to the number of links, and only the rest is searched. In
which order components are listed, and vertices in them, is not part of what is promised.

## Main definitions

* `Digraph`: Vertices and links, with the links tabulated in both directions.
* `Digraph.peeled`: Vertices that are on no loop, found by counting links.
* `Digraph.components`: The components of a graph.

## Theorems

* `mem_next_ofLinks`: A vertex is linked to those that it was given a link to.
-/

namespace MessagePlan.Dependency

/-- Vertices below `size`, and for each the vertices it is linked to and linked from. -/
structure Digraph where
  size : Nat
  successors : Array (List Nat)
  predecessors : Array (List Nat)

namespace Digraph

/-- The graph with some links. -/
def ofLinks (size : Nat) (links : List (Nat × Nat)) : Digraph :=
  let none := Array.replicate size []
  { size
    successors := links.foldl (fun table l => table.modify l.1 (l.2 :: ·)) none
    predecessors := links.foldl (fun table l => table.modify l.2 (l.1 :: ·)) none }

/-- The vertices that a vertex is linked to. -/
def next (d : Digraph) (v : Nat) : List Nat := d.successors.getD v []

/-- The vertices that are linked to a vertex. -/
def back (d : Digraph) (v : Nat) : List Nat := d.predecessors.getD v []

/-- The graph with its links turned round. -/
def reversed (d : Digraph) : Digraph :=
  { d with successors := d.predecessors, predecessors := d.successors }

/-- Take one link away from each of some vertices, and note those that have none left. -/
def release (counts : Array Nat) (free : List Nat) : List Nat → Array Nat × List Nat
  | [] => (counts, free)
  | v :: vs =>
    let counts := counts.modify v (· - 1)
    release counts (if counts.getD v 1 = 0 then v :: free else free) vs

/-- Peel off the vertices in a list and those that thereby lose their last link from a
    vertex not peeled off.  No vertex is peeled off twice, so `fuel` is their number. -/
def peel (d : Digraph) : (fuel : Nat) → (counts : Array Nat) → (free : List Nat) →
    (gone : Std.HashSet Nat) → Std.HashSet Nat
  | 0, _, _, gone => gone
  | _, _, [], gone => gone
  | fuel + 1, counts, v :: free, gone =>
    let (counts, free) := release counts free (d.next v)
    d.peel fuel counts free (gone.insert v)

/-- The vertices that no loop leads to. -/
def peeled (d : Digraph) (gone : Std.HashSet Nat) : Std.HashSet Nat :=
  let counts := d.predecessors.map List.length
  let free := (List.range d.size).filter fun v => counts.getD v 1 = 0
  d.peel d.size counts free gone

/-- The neighbours of a vertex that are not settled. -/
def unsettled (settled : Std.HashSet Nat) (vs : List Nat) : List Nat :=
  vs.filter fun v => !settled.contains v

/-- The vertices that a vertex leads to in one step or more. -/
def ahead (d : Digraph) (settled : Std.HashSet Nat) (v : Nat) : Std.HashSet Nat :=
  spread (fun u => unsettled settled (d.next u)) d.size ∅ (unsettled settled (d.next v))

/-- The components of some vertices, in their order.  Settled vertices have a component found
    before; of the others, one that does not lead back to itself is alone in its component. -/
def componentsThrough (d : Digraph) (settled : Std.HashSet Nat) : List Nat → List (List Nat)
  | [] => []
  | v :: vs =>
    if settled.contains v then d.componentsThrough settled vs
    else
      let ahead := d.ahead settled v
      if ahead.contains v then
        let behind := d.reversed.ahead settled v
        let component := ahead.toList.filter behind.contains
        component :: d.componentsThrough (settled.insertMany component) vs
      else [v] :: d.componentsThrough (settled.insert v) vs

/-- The components of a graph: those of the vertices that are peeled off, which are alone, and
    those that are searched for. -/
def components (d : Digraph) : List (List Nat) :=
  let peeled := d.reversed.peeled (d.peeled ∅)
  let alone := (List.range d.size).filter peeled.contains
  let rest := (List.range d.size).filter fun v => !peeled.contains v
  alone.map (fun v => [v]) ++ d.componentsThrough peeled rest

/-- A table grown by some links has what it had, and the links of vertices that it has a
    place for. -/
theorem mem_getD_foldl_modify (links : List (Nat × Nat)) (table : Array (List Nat)) (u v : Nat) :
    v ∈ (links.foldl (fun table l => table.modify l.1 (l.2 :: ·)) table).getD u [] ↔
      v ∈ table.getD u [] ∨ u < table.size ∧ (u, v) ∈ links := by
  induction links generalizing table with
  | nil => simp
  | cons l links ih =>
    rw [List.foldl_cons, ih, Array.size_modify]
    obtain ⟨a, b⟩ := l
    by_cases hu : u < table.size
    · -- The first link adds a vertex to one list and leaves the others as they are.
      by_cases ha : a = u
      · subst ha
        simp [Array.getD, hu, Array.getElem_modify, or_assoc, or_comm, or_left_comm]
      · simp [Array.getD, hu, Array.getElem_modify, ha, Ne.symm ha]
    · simp [Array.getD, hu]

/-- A vertex is linked to those that it was given a link to. -/
theorem mem_next_ofLinks {size : Nat} {links : List (Nat × Nat)} {u v : Nat} :
    v ∈ (ofLinks size links).next u ↔ u < size ∧ (u, v) ∈ links := by
  rw [next, ofLinks, mem_getD_foldl_modify]
  by_cases hu : u < size <;> simp [Array.getD, hu]

end Digraph

end MessagePlan.Dependency
