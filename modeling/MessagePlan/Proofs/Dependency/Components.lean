import Mathlib.Data.List.Nodup
import MessagePlan.Proofs.Dependency.Peeling

/-!
# Components Divide the Vertices

A division into components is told by what it satisfies, whoever has made it: every vertex is in
one list and in no other, no list is empty, and a list holds with a vertex those that it leads to
and that lead back. `AreComponents` says so. The order of the lists is left open, and the order in
them. What follows for loops only needs this: a vertex is on a loop exactly if its component is one,
and then the component holds the vertices together with it.

The search for components satisfies it. Vertices on one loop have the same component, so it is
enough to look for that of one of them, from which a search goes along the links and another one
against them. The searches do not enter settled vertices. They lose nothing by this as long as
vertices of one component are settled together: a path from a vertex and back to it stays in its
component, and if any vertex of it were settled, then the first one would be as well. So
`Separated` is all that has to be kept while the components are found one after the other, and it
holds at first because only vertices on no loop have been peeled off.

## Main definitions

* `Digraph.Together`: Links lead from each of two vertices to the other one.
* `Digraph.Joined`: Two vertices are the same or together.
* `Digraph.AreComponents`: Lists divide the vertices into components.
* `FindsComponents`: A function finds the components of every graph.
* `Digraph.Separated`: Vertices of one component are settled together.

## Theorems

* `transGen_within`: A path that leads on to where it started stays on a loop.
* `AreComponents.isLoop_eq_ok`: A component is a loop exactly if its vertices are on one.
* `AreComponents.mem_iff_together`: On a loop, a component has the vertices that are together.
* `Separated.mem_ahead`: Around settled vertices a search meets all that are together.
* `componentOf_search`: What a search along the links and one against them meet is the component.
* `componentsThrough_cons`: A vertex that is not settled has its component found, and settled.
* `findsComponents`: The search finds the components of every graph.
-/

namespace MessagePlan.Dependency

open Relation

namespace Digraph

/-- Links lead from each of two vertices to the other one. -/
def Together (d : Digraph) (u v : Nat) : Prop := TransGen d.Linked u v ∧ TransGen d.Linked v u

/-- Links lead from each of two vertices to the other one, unless they are the same. -/
def Joined (d : Digraph) (u v : Nat) : Prop :=
  ReflTransGen d.Linked u v ∧ ReflTransGen d.Linked v u

/-- Lists divide the vertices of a graph into components. -/
structure AreComponents (d : Digraph) (components : List (List Nat)) : Prop where
  nonempty : ∀ c ∈ components, c ≠ []
  nodup : components.flatten.Nodup
  covers : ∀ v, v < d.size → ∃ c ∈ components, v ∈ c
  lt_size : ∀ c ∈ components, ∀ v ∈ c, v < d.size
  joined : ∀ c ∈ components, ∀ v ∈ c, ∀ u, u ∈ c ↔ d.Joined v u

/-- Different vertices that are all those of the component of one. -/
structure ComponentOf (d : Digraph) (v : Nat) (c : List Nat) : Prop where
  nodup : c.Nodup
  mem_iff : ∀ u, u ∈ c ↔ d.Joined v u

/-- Vertices of one component are settled together. -/
def Separated (d : Digraph) (settled : Std.HashSet Nat) : Prop :=
  ∀ u v, d.Joined u v → u ∈ settled → v ∈ settled

end Digraph

/-- A function finds the components of every graph whose tables have the same links. -/
def FindsComponents (components : Digraph → List (List Nat)) : Prop :=
  ∀ d : Digraph, d.Mirrored → d.AreComponents (components d)

namespace Digraph

variable {ε : Type} {d : Digraph} {settled : Std.HashSet Nat} {u v w : Nat} {c : List Nat}
  {components : List (List Nat)}

/-! ### Vertices of one component -/

theorem Together.symm (h : d.Together u v) : d.Together v u := ⟨h.2, h.1⟩

theorem OnCycle.together (h : d.OnCycle v) : d.Together v v := ⟨h, h⟩

theorem Together.onCycle (h : d.Together u v) : d.OnCycle u := h.1.trans h.2

theorem Together.joined (h : d.Together u v) : d.Joined u v :=
  ⟨h.1.to_reflTransGen, h.2.to_reflTransGen⟩

theorem Joined.refl (d : Digraph) (v : Nat) : d.Joined v v := ⟨.refl, .refl⟩

theorem Joined.symm (h : d.Joined u v) : d.Joined v u := ⟨h.2, h.1⟩

theorem Joined.trans (huv : d.Joined u v) (hvw : d.Joined v w) : d.Joined u w :=
  ⟨huv.1.trans hvw.1, hvw.2.trans huv.2⟩

/-- A component has a single vertex, or links lead from each of its vertices to any other. -/
theorem Joined.together (h : d.Joined u v) (hne : u ≠ v) : d.Together u v := by
  refine ⟨?_, ?_⟩
  · exact (reflTransGen_iff_eq_or_transGen.1 h.1).resolve_left hne.symm
  · exact (reflTransGen_iff_eq_or_transGen.1 h.2).resolve_left hne

/-- On a loop, being in one component is being on one loop. -/
theorem OnCycle.joined_iff (h : d.OnCycle v) : d.Joined v u ↔ d.Together v u := by
  refine ⟨fun hjoined => ?_, Together.joined⟩
  by_cases hvu : v = u
  · exact hvu ▸ h.together
  · exact hjoined.together hvu

/-- A path that leads on to where it started stays on a loop, and so among whatever holds all
    that is on the loop. -/
theorem transGen_within {α : Type} {r : α → α → Prop} {p : α → Prop} {a b : α}
    (hto : TransGen r a b) (hback : TransGen r b a)
    (hp : ∀ c, TransGen r a c → TransGen r c a → p c) :
    TransGen (fun c c' => r c c' ∧ p c') a b := by
  induction hto with
  | single hlink => exact TransGen.single ⟨hlink, hp _ (TransGen.single hlink) hback⟩
  | tail hto hlink ih =>
    exact TransGen.tail (ih (TransGen.head hlink hback)) ⟨hlink, hp _ (hto.tail hlink) hback⟩

theorem OnCycle.lt_size (hd : d.Mirrored) (h : d.OnCycle v) : v < d.size := by
  rcases TransGen.tail'_iff.1 h with ⟨u, _, hlink⟩
  exact hd.lt_next u v hlink

/-! ### Loops among the components -/

/-- A component is a loop exactly if its vertices are on one. -/
theorem AreComponents.isLoop_eq_ok (h : d.AreComponents components) (hc : c ∈ components) :
    ∃ b, (d.isLoop c : Except (Failure ε) Bool) = .ok b ∧ (b = true ↔ ∀ v ∈ c, d.OnCycle v) := by
  match c, h.nonempty c hc, h.joined c hc, (List.nodup_flatten.1 h.nodup).1 c hc with
  | [v], _, hjoined, _ =>
    refine ⟨_, rfl, ?_⟩
    rw [List.contains_iff_mem, List.forall_mem_singleton]
    refine ⟨fun hlink => TransGen.single hlink, fun hcycle => ?_⟩
    -- The next vertex on the loop is in the component, where there is no other one.
    rcases TransGen.head'_iff.1 hcycle with ⟨u, hlink, hback⟩
    have hu := (hjoined v List.mem_cons_self u).2 ⟨.single hlink, hback⟩
    rw [List.mem_singleton.1 hu] at hlink
    exact hlink
  | v :: u :: c, _, hjoined, hnodup =>
    refine ⟨true, rfl, iff_of_true rfl fun w hw => ?_⟩
    have hvu : v ≠ u := fun heq => (List.nodup_cons.1 hnodup).1 (heq ▸ List.mem_cons_self)
    -- One of the first two is another vertex than this one.
    by_cases hwv : w = v
    · refine (((hjoined w hw u).1 ?_).together (hwv ▸ hvu)).onCycle
      exact List.mem_cons_of_mem v List.mem_cons_self
    · exact (((hjoined w hw v).1 List.mem_cons_self).together hwv).onCycle

/-- On a loop, the component of a vertex has the vertices that are together with it. -/
theorem AreComponents.mem_iff_together (h : d.AreComponents components) (hc : c ∈ components)
    (hv : v ∈ c) (hcycle : d.OnCycle v) : u ∈ c ↔ d.Together v u := by
  rw [h.joined c hc v hv, hcycle.joined_iff]

/-! ### The search for components -/

/-- Around settled vertices a search still meets all that are together with its start. -/
theorem Separated.mem_ahead (hd : d.Mirrored) (hs : d.Separated settled) (hv : v ∉ settled)
    (h : d.Together v u) : u ∈ d.ahead settled v := by
  rw [Digraph.mem_ahead hd]
  -- Each vertex of the path is together with the start, so that it is not settled.
  exact transGen_within h.1 h.2 fun w hto hback hw =>
    hv (hs w v ⟨hback.to_reflTransGen, hto.to_reflTransGen⟩ hw)

theorem transGen_of_mem_ahead (hd : d.Mirrored) (h : u ∈ d.ahead settled v) :
    TransGen d.Linked v u :=
  TransGen.mono (fun _ _ hlink => hlink.1) _ _ ((Digraph.mem_ahead hd).1 h)

theorem Separated.reversed (hd : d.Mirrored) (hs : d.Separated settled) :
    d.reversed.Separated settled := by
  rintro u v ⟨huv, hvu⟩
  exact hs u v ⟨hd.reflTransGen_reversed.1 hvu, hd.reflTransGen_reversed.1 huv⟩

/-- A vertex that is not settled is met again exactly if it is on a loop. -/
theorem Separated.mem_ahead_self (hd : d.Mirrored) (hs : d.Separated settled)
    (hv : v ∉ settled) : v ∈ d.ahead settled v ↔ d.OnCycle v :=
  ⟨transGen_of_mem_ahead hd, fun h => hs.mem_ahead hd hv h.together⟩

/-- What a search along the links and one against them both meet is the component of their start,
    if that is on a loop. -/
theorem componentOf_search (hd : d.Mirrored) (hs : d.Separated settled) (hv : v ∉ settled)
    (hcycle : d.OnCycle v) : d.ComponentOf v
      ((d.ahead settled v).toList.filter (d.reversed.ahead settled v).contains) := by
  refine ⟨?_, fun u => ?_⟩
  · exact (Std.HashSet.distinct_toList.imp fun h => beq_eq_false_iff_ne.1 h).filter _
  rw [List.mem_filter, Std.HashSet.mem_toList, Std.HashSet.contains_iff_mem, hcycle.joined_iff]
  constructor
  · rintro ⟨hto, hback⟩
    exact ⟨transGen_of_mem_ahead hd hto,
      hd.transGen_reversed.1 (transGen_of_mem_ahead hd.reversed hback)⟩
  · intro h
    refine ⟨hs.mem_ahead hd hv h, (hs.reversed hd).mem_ahead hd.reversed hv ?_⟩
    exact ⟨hd.transGen_reversed.2 h.2, hd.transGen_reversed.2 h.1⟩

/-- A vertex on no loop is alone in its component. -/
theorem componentOf_singleton (hoff : ¬ d.OnCycle v) : d.ComponentOf v [v] := by
  refine ⟨List.nodup_singleton v, fun u => ?_⟩
  rw [List.mem_singleton]
  constructor
  · rintro rfl
    exact Joined.refl d u
  · intro hjoined
    by_contra hne
    exact hoff (hjoined.together (Ne.symm hne)).onCycle

/-- With a component settled, its vertices are settled, and so is every component still. -/
theorem Separated.grow (hs : d.Separated settled) (hc : d.ComponentOf v c)
    {settled' : Std.HashSet Nat} (hgrow : ∀ u, u ∈ settled' ↔ u ∈ settled ∨ u ∈ c) :
    d.Separated settled' := by
  intro u w huw hu
  rw [hgrow] at hu ⊢
  refine hu.imp (hs u w huw) fun hu => ?_
  exact (hc.mem_iff w).2 (((hc.mem_iff u).1 hu).trans huw)

/-- A vertex that is not settled has its component found, which is settled from then on. -/
theorem componentsThrough_cons (hd : d.Mirrored) (hs : d.Separated settled) (hv : v ∉ settled)
    (vs : List Nat) : ∃ (c : List Nat) (settled' : Std.HashSet Nat), d.ComponentOf v c ∧
      (∀ u, u ∈ settled' ↔ u ∈ settled ∨ u ∈ c) ∧
      d.componentsThrough settled (v :: vs) = c :: d.componentsThrough settled' vs := by
  -- A vertex finds itself ahead of it exactly if it is on a cycle.
  have hself : (d.ahead settled v).contains v = true ↔ d.OnCycle v :=
    Std.HashSet.contains_iff_mem.trans (hs.mem_ahead_self hd hv)
  have hnot : ¬ settled.contains v = true := fun h => hv (Std.HashSet.contains_iff_mem.1 h)
  by_cases hcycle : d.OnCycle v
  · have hc := componentOf_search hd hs hv hcycle
    refine ⟨_, settled.insertMany ((d.ahead settled v).toList.filter
      (d.reversed.ahead settled v).contains), hc, fun u => ?_, ?_⟩
    · rw [Std.HashSet.mem_insertMany_list, List.contains_iff_mem]
    · simp only [componentsThrough, if_neg hnot, if_pos (hself.2 hcycle)]
  · -- Off every cycle the vertex is a component on its own.
    refine ⟨[v], settled.insert v, componentOf_singleton hcycle, fun u => ?_, ?_⟩
    · rw [Std.HashSet.mem_insert, List.mem_singleton, beq_iff_eq, or_comm, eq_comm]
    · simp only [componentsThrough, if_neg hnot, if_neg fun h => hcycle (hself.1 h)]

/-- The components found through some vertices are theirs, as far as they are not settled; none
    has a vertex that is settled, and no vertex is in two places. -/
theorem componentsThrough_spec (hd : d.Mirrored) (hs : d.Separated settled) (vs : List Nat) :
    (∀ c ∈ d.componentsThrough settled vs,
        (∃ v ∈ vs, d.ComponentOf v c) ∧ ∀ u ∈ c, u ∉ settled) ∧
      (∀ v ∈ vs, v ∉ settled → ∃ c ∈ d.componentsThrough settled vs, v ∈ c) ∧
      (d.componentsThrough settled vs).flatten.Nodup := by
  induction vs generalizing settled with
  | nil =>
    exact ⟨fun c hc => absurd hc List.not_mem_nil, fun v hv => absurd hv List.not_mem_nil,
      List.nodup_nil⟩
  | cons v vs ih =>
    by_cases hv : v ∈ settled
    · -- A settled vertex is passed over.
      rw [componentsThrough, if_pos (Std.HashSet.contains_iff_mem.2 hv)]
      rcases ih hs with ⟨hfound, hcovers, hnodup⟩
      refine ⟨fun c hc => ⟨?_, (hfound c hc).2⟩, fun w hw hnot => ?_, hnodup⟩
      · exact (hfound c hc).1.imp fun w hw => ⟨List.mem_cons_of_mem v hw.1, hw.2⟩
      · rcases List.mem_cons.1 hw with rfl | hw
        · exact absurd hv hnot
        · exact hcovers w hw hnot
    · rcases componentsThrough_cons hd hs hv vs with ⟨c, settled', hc, hgrow, heq⟩
      rcases ih (hs.grow hc hgrow) with ⟨hfound, hcovers, hnodup⟩
      rw [heq]
      refine ⟨fun c' hc' => ?_, fun w hw hnot => ?_, ?_⟩
      · rcases List.mem_cons.1 hc' with rfl | hc'
        · refine ⟨⟨v, List.mem_cons_self, hc⟩, fun u hu hmem => hv ?_⟩
          exact hs u v ((hc.mem_iff u).1 hu).symm hmem
        · refine ⟨?_, fun u hu hmem => (hfound c' hc').2 u hu ((hgrow u).2 (Or.inl hmem))⟩
          exact (hfound c' hc').1.imp fun w hw => ⟨List.mem_cons_of_mem v hw.1, hw.2⟩
      · by_cases hwc : w ∈ c
        · exact ⟨c, List.mem_cons_self, hwc⟩
        · -- Only the component just found has been settled, so this vertex is still looked for.
          rcases List.mem_cons.1 hw with rfl | hw
          · exact absurd ((hc.mem_iff w).2 (Joined.refl d w)) hwc
          · rcases hcovers w hw fun hmem => ((hgrow w).1 hmem).elim hnot hwc with ⟨c', hc', hwc'⟩
            exact ⟨c', List.mem_cons_of_mem c hc', hwc'⟩
      · rw [List.flatten_cons, List.nodup_append']
        refine ⟨hc.nodup, hnodup, fun u hu hmem => ?_⟩
        rcases List.mem_flatten.1 hmem with ⟨c', hc', hu'⟩
        exact (hfound c' hc').2 u hu' ((hgrow u).2 (Or.inr hu))

/-- Only vertices on no loop are peeled off, along the links and against them. -/
theorem not_onCycle_of_mem_peeled (hd : d.Mirrored)
    (hu : u ∈ d.reversed.peeled (d.peeled ∅)) : ¬ d.OnCycle u := by
  rcases not_onCycle_of_peeled hd.reversed hu with hu | hoff
  · exact (not_onCycle_of_peeled hd hu).resolve_left Std.HashSet.not_mem_empty
  · exact fun h => hoff (hd.transGen_reversed.2 h)

/-- A vertex on no loop is settled by itself. -/
theorem separated_of_not_onCycle (hoff : ∀ u ∈ settled, ¬ d.OnCycle u) : d.Separated settled := by
  intro u v huv hu
  by_cases heq : u = v
  · exact heq ▸ hu
  · exact absurd (huv.together heq).onCycle (hoff u hu)

/-- Each list is the component of a vertex, of one peeled off or of one that is searched for. -/
theorem exists_componentOf (hd : d.Mirrored) (hc : c ∈ d.components) :
    ∃ v, v < d.size ∧ d.ComponentOf v c := by
  have hoff : ∀ u ∈ d.reversed.peeled (d.peeled ∅), ¬ d.OnCycle u :=
    fun u hu => not_onCycle_of_mem_peeled hd hu
  unfold components at hc
  simp only [List.mem_append] at hc
  rcases hc with hc | hc
  · rcases List.mem_map.1 hc with ⟨v, hv, rfl⟩
    rcases List.mem_filter.1 hv with ⟨hlt, hmem⟩
    exact ⟨v, List.mem_range.1 hlt,
      componentOf_singleton (hoff v (Std.HashSet.contains_iff_mem.1 hmem))⟩
  · rcases ((componentsThrough_spec hd (separated_of_not_onCycle hoff) _).1 c hc).1 with
      ⟨v, hv, hof⟩
    exact ⟨v, List.mem_range.1 (List.mem_filter.1 hv).1, hof⟩

/-- The components listed are those of the vertices peeled off and those found for the others. -/
theorem areComponents_components (hd : d.Mirrored) : d.AreComponents d.components := by
  have hoff : ∀ u ∈ d.reversed.peeled (d.peeled ∅), ¬ d.OnCycle u :=
    fun u hu => not_onCycle_of_mem_peeled hd hu
  generalize hpeeled : d.reversed.peeled (d.peeled ∅) = peeled at hoff
  have hs := separated_of_not_onCycle hoff
  have hsplit : d.components =
      ((List.range d.size).filter peeled.contains).map (fun v => [v]) ++
        d.componentsThrough peeled ((List.range d.size).filter fun v => !peeled.contains v) := by
    rw [components, hpeeled]
  rcases componentsThrough_spec hd hs ((List.range d.size).filter fun v => !peeled.contains v)
    with ⟨hfound, hcovers, hnodup⟩
  refine ⟨fun c hc hnil => ?_, ?_, fun v hv => ?_, fun c hc u hu => ?_, fun c hc v hv u => ?_⟩
  · rcases exists_componentOf hd hc with ⟨v, _, hv⟩
    exact List.not_mem_nil (hnil ▸ (hv.mem_iff v).2 (Joined.refl d v))
  · rw [hsplit, List.flatten_append, ← List.flatMap_def, List.flatMap_singleton',
      List.nodup_append']
    refine ⟨List.nodup_range.filter _, hnodup, fun u hu hmem => ?_⟩
    -- What has been peeled off is settled, and is in none of the components found.
    rcases List.mem_flatten.1 hmem with ⟨c, hc, huc⟩
    exact (hfound c hc).2 u huc (Std.HashSet.contains_iff_mem.1 (List.mem_filter.1 hu).2)
  · rw [hsplit]
    by_cases hmem : peeled.contains v = true
    · refine ⟨[v], List.mem_append_left _ (List.mem_map_of_mem ?_), List.mem_cons_self⟩
      exact List.mem_filter.2 ⟨List.mem_range.2 hv, hmem⟩
    · have hrest : v ∈ (List.range d.size).filter fun v => !peeled.contains v :=
        List.mem_filter.2 ⟨List.mem_range.2 hv, by rw [Bool.eq_false_iff.2 hmem]; rfl⟩
      rcases hcovers v hrest fun h => hmem (Std.HashSet.contains_iff_mem.2 h) with ⟨c, hc, hvc⟩
      exact ⟨c, List.mem_append_right _ hc, hvc⟩
  · rcases exists_componentOf hd hc with ⟨v, hlt, hv⟩
    -- A vertex of the component is the first one, or is on a loop and so is there.
    have hjoined := (hv.mem_iff u).1 hu
    by_cases heq : u = v
    · exact heq ▸ hlt
    · exact (hjoined.symm.together heq).onCycle.lt_size hd
  · rcases exists_componentOf hd hc with ⟨w, _, hw⟩
    have hwv := (hw.mem_iff v).1 hv
    rw [hw.mem_iff u]
    exact ⟨hwv.symm.trans, hwv.trans⟩

end Digraph

/-- The search finds the components of every graph. -/
theorem findsComponents : FindsComponents Digraph.components :=
  fun _ hd => Digraph.areComponents_components hd

end MessagePlan.Dependency
