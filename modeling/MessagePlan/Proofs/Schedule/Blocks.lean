import MessagePlan.Proofs.Schedule.Completion

/-!
# What Completing Puts In, Block by Block

When a list is completed, its entries are placed one after the other by a traversal that remembers
what it has placed. So the result falls into blocks, one for each entry and in the order of the
entries. The block of an entry has what the entry depends on, as far as no earlier block has it, and
it ends with the entry; there is nothing in it if the entry has been placed before. `IsBlock` says
this of one block, where the earlier ones are put together to a single list, and `Blocks` of all of
them.

That a block can be described so shortly, though each traversal is cut short by all those before it,
is due to what is placed being in order at any time. Whatever a placed terminal depends on has been
placed as well, so nothing new can hide behind it.

Therefore an entry stands before an earlier one in the result only where it had to be placed for
that one, or for one still earlier. This does happen, and then nothing is refused. The order of the
entries is kept where none of them depends on a later one, and only there: two entries that are
listed against their dependence are swapped.

## Main definitions

* `IsBlock`: What is put in for one entry, behind what was placed before.
* `Blocks`: What is put in for each of some entries.
* `relayWhole`: The relay in a single region.

## Theorems

* `Visited.exists_block`: What a traversal adds for a target is its block.
* `blocks_of_listed`: What is listed for some targets falls into their blocks.
* `Blocks.mem_flatten_iff`: Blocks have what the entries depend on.
* `Blocks.dependsOn_of_before`: What stands before an entry, an entry up to it depends on.
* `completePartial_in_blocks`: A completed list falls into blocks.
* `completePartial_keeps_order_iff`: When the entries keep their order, and which are swapped.
-/

namespace MessagePlan

open Relation

/-- What is put in for an entry behind what was placed before: what the entry depends on and is not
    there yet, up to the entry itself, or nothing if the entry is there. -/
structure IsBlock (g : Graph) (scope : Option Region) (placed : Schedule) (x : TerminalId)
    (block : Schedule) : Prop where
  mem_iff : ∀ z, z ∈ block ↔ DependsOn g scope x z ∧ z ∉ placed
  empty : x ∈ placed → block = []
  last : x ∉ placed → block.getLast? = some x

/-- One block for each entry, where the blocks before have been placed. -/
structure Blocks (g : Graph) (scope : Option Region) (entries : List TerminalId)
    (blocks : List Schedule) : Prop where
  length : blocks.length = entries.length
  block : ∀ (i : Nat) x block, entries[i]? = some x → blocks[i]? = some block →
    IsBlock g scope (blocks.take i).flatten x block

variable {g : Graph} {scope : Option Region} {x y z : TerminalId} {r : Schedule}
  {entries before after : List TerminalId} {blocks : List Schedule} {block : Schedule}

/-- Where nothing is repeated, what stands before an entry of a front part is in that part too. -/
theorem mem_of_pair_sublist {α : Type} {x y : α} {l l' : List α} (hnodup : (l ++ l').Nodup)
    (hx : x ∈ l) (hpair : [y, x].Sublist (l ++ l')) : y ∈ l := by
  rcases List.sublist_append_iff.1 hpair with ⟨front, back, heq, hfront, hback⟩
  cases front with
  | nil =>
    -- Both would stand behind, where the second one cannot be again.
    rw [List.nil_append] at heq
    have hx' : x ∈ l' := hback.subset (heq ▸ List.mem_cons_of_mem y List.mem_cons_self)
    exact absurd rfl ((List.nodup_append.1 hnodup).2.2 x hx x hx')
  | cons w front =>
    rcases List.cons.inj heq with ⟨rfl, _⟩
    exact hfront.subset List.mem_cons_self

/-- In a list in order, what an entry depends on through some need stands before it. -/
theorem InOrder.pair_sublist (hr : InOrder g scope r) (hx : x ∈ r)
    (hy : TransGen (Needs g scope) x y) : [y, x].Sublist r := by
  have hloop := hr.not_onLoop hx
  rcases List.append_of_mem hx with ⟨before, after, rfl⟩
  rw [← List.singleton_append, ← List.append_assoc] at hr
  have hmem := hr.of_append.mem_of_dependsOn
    (List.mem_append_right before (List.mem_singleton.2 rfl)) hy.to_reflTransGen
  -- It is not the entry itself, since that would be a loop.
  have hbefore : y ∈ before := by
    refine (List.mem_append.1 hmem).resolve_right fun heq => hloop ?_
    rw [List.mem_singleton.1 heq] at hy
    exact hy
  exact (List.singleton_sublist.2 hbefore).append (List.singleton_sublist.2 List.mem_cons_self)

/-! ### One block -/

/-- What a traversal adds for a target is the block of the target. -/
theorem Traversal.Visited.exists_block {t u : Traversal} (ht : Traversal.Consistent g scope t)
    (hu : Traversal.Visited g scope t x u) :
    ∃ block, u.order.toList = t.order.toList ++ block ∧
      IsBlock g scope t.order.toList x block := by
  rcases hu.grown with ⟨block, hblock⟩
  have hnodup := hu.nodup_order
  rw [← hblock] at hnodup
  have hnew : ∀ z ∈ block, z ∉ t.order.toList := by
    intro z hz hold
    exact absurd rfl ((List.nodup_append.1 hnodup).2.2 z hold z hz)
  have hmem : ∀ z, z ∈ t.order.toList ∨ z ∈ block ↔
      z ∈ t.order.toList ∨ DependsOn g scope x z := by
    intro z
    rw [← List.mem_append, hblock, Array.mem_toList_iff, Array.mem_toList_iff]
    exact hu.mem_order_iff z
  refine ⟨block, hblock.symm, ⟨fun z => ⟨fun hz => ?_, ?_⟩, fun hx => ?_, fun hx => ?_⟩⟩
  · exact ⟨((hmem z).1 (Or.inr hz)).resolve_left (hnew z hz), hnew z hz⟩
  · rintro ⟨hz, hnot⟩
    exact ((hmem z).2 (Or.inr hz)).resolve_left hnot
  · -- What was placed is in order, so with the target it has all that the target depends on.
    refine List.eq_nil_iff_forall_not_mem.2 fun z hz => hnew z hz ?_
    have hz' := ((hmem z).1 (Or.inr hz)).resolve_left (hnew z hz)
    exact ht.inOrder.mem_of_dependsOn hx hz'
  · rcases hu.last with ⟨hold, _⟩ | hback
    · exact absurd (Array.mem_toList_iff.2 hold) hx
    · have hx' : x ∈ block := ((hmem x).2 (Or.inr ReflTransGen.refl)).resolve_left hx
      rw [← Array.getLast?_toList, ← hblock,
        List.getLast?_append_of_ne_nil _ (List.ne_nil_of_mem hx')] at hback
      exact hback

/-! ### All blocks -/

namespace Blocks

theorem nil : Blocks g scope [] [] where
  length := rfl
  block i x block hx _ := by
    rw [List.getElem?_nil] at hx
    exact nomatch hx

/-- An entry more has its block behind the others. -/
theorem concat (h : Blocks g scope entries blocks) (hx : IsBlock g scope blocks.flatten x block) :
    Blocks g scope (entries ++ [x]) (blocks ++ [block]) where
  length := by
    rw [List.length_append, List.length_append, h.length]
    rfl
  block i x' block' hx' hblock' := by
    have hi : i < entries.length + 1 := by
      have := (List.getElem?_eq_some_iff.1 hx').1
      rwa [List.length_append] at this
    -- A place is one of the earlier ones, or the new one behind them.
    by_cases hlt : i < entries.length
    · have hlt' : i < blocks.length := by
        rw [h.length]
        exact hlt
      rw [List.getElem?_append_left hlt] at hx'
      rw [List.getElem?_append_left hlt'] at hblock'
      rw [List.take_append_of_le_length (Nat.le_of_lt hlt')]
      exact h.block i x' block' hx' hblock'
    · have heq : i = entries.length := by omega
      rw [heq, List.getElem?_concat_length, Option.some.injEq] at hx'
      rw [heq, ← h.length, List.getElem?_concat_length, Option.some.injEq] at hblock'
      rw [heq, ← h.length, List.take_left, ← hx', ← hblock']
      exact hx

/-- The first entries have the first blocks. -/
theorem take (h : Blocks g scope entries blocks) (n : Nat) :
    Blocks g scope (entries.take n) (blocks.take n) where
  length := by rw [List.length_take, List.length_take, h.length]
  block i x block hx hblock := by
    have hi : i < n := by
      have := (List.getElem?_eq_some_iff.1 hx).1
      rw [List.length_take] at this
      omega
    rw [List.getElem?_take_of_lt hi] at hx hblock
    rw [List.take_take, Nat.min_eq_left (Nat.le_of_lt hi)]
    exact h.block i x block hx hblock

variable (h : Blocks g scope entries blocks)

include h

theorem exists_block {i : Nat} (hx : entries[i]? = some x) : ∃ block, blocks[i]? = some block := by
  have hi : i < blocks.length := by
    rw [h.length]
    exact (List.getElem?_eq_some_iff.1 hx).1
  exact ⟨blocks[i], List.getElem?_eq_getElem hi⟩

/-- The blocks together have what the entries depend on, and nothing else. -/
theorem mem_flatten_iff (z : TerminalId) :
    z ∈ blocks.flatten ↔ ∃ x ∈ entries, DependsOn g scope x z := by
  constructor
  · intro hz
    rcases List.mem_flatten.1 hz with ⟨block, hblock, hz⟩
    rcases List.getElem?_of_mem hblock with ⟨i, hi⟩
    have hlt : i < entries.length := h.length ▸ (List.getElem?_eq_some_iff.1 hi).1
    have hx := List.getElem?_eq_getElem hlt
    exact ⟨entries[i], List.getElem_mem hlt, (((h.block i _ block hx hi).mem_iff z).1 hz).1⟩
  · rintro ⟨x, hx, hz⟩
    rcases List.getElem?_of_mem hx with ⟨i, hi⟩
    rcases h.exists_block hi with ⟨block, hblock⟩
    -- It is in the block of the entry, or an earlier one has it.
    by_cases hold : z ∈ (blocks.take i).flatten
    · rcases List.mem_flatten.1 hold with ⟨block', hblock', hz'⟩
      exact List.mem_flatten.2 ⟨block', List.mem_of_mem_take hblock', hz'⟩
    · refine List.mem_flatten.2 ⟨block, List.mem_of_getElem? hblock, ?_⟩
      exact ((h.block i x block hi hblock).mem_iff z).2 ⟨hz, hold⟩

/-- An entry that no earlier entry depends on is in its own block. -/
theorem mem_block {i : Nat} (hx : entries[i]? = some x) (hblock : blocks[i]? = some block)
    (hnew : ∀ w ∈ entries.take i, ¬ DependsOn g scope w x) : x ∈ block := by
  refine ((h.block i x block hx hblock).mem_iff x).2 ⟨ReflTransGen.refl, fun hold => ?_⟩
  rcases ((h.take i).mem_flatten_iff x).1 hold with ⟨w, hw, hdep⟩
  exact hnew w hw hdep

/-- Where no entry is listed twice and none depends on a later one, the entries keep their order,
    since each is in its own block. -/
theorem sublist (hnodup : entries.Nodup)
    (hfree : entries.Pairwise fun x y => ¬ TransGen (Needs g scope) x y) :
    entries.Sublist blocks.flatten := by
  -- An entry is neither an earlier one nor needed by it, so it is not placed before its own block.
  have hnew : entries.Pairwise fun x y => ¬ DependsOn g scope x y := by
    refine List.Pairwise.imp₂ (fun x y hne hnot hdep => ?_) hnodup hfree
    rcases reflTransGen_iff_eq_or_transGen.1 hdep with heq | hdep
    · exact hne heq.symm
    · exact hnot hdep
  refine List.sublist_flatten_iff.2 ⟨entries.map fun x => [x], ?_, fun i hi => ?_⟩
  · rw [← List.flatMap_def, List.flatMap_singleton']
  · rw [List.length_map] at hi
    have hx := List.getElem?_eq_getElem hi
    rcases h.exists_block hx with ⟨block, hblock⟩
    rw [List.getElem_map, hblock, Option.getD_some]
    -- Each entry is taken from its own block, and the blocks come in the order of the entries.
    refine List.singleton_sublist.2 (h.mem_block hx hblock fun w hw => ?_)
    rcases List.mem_take_iff_getElem.1 hw with ⟨j, hj, rfl⟩
    have hji : j < i := by omega
    exact List.pairwise_iff_getElem.1 hnew j i (Nat.lt_trans hji hi) hi hji

end Blocks

/-- What stands before an entry in a list of blocks without repeats, the entry or an earlier one
    depends on. -/
theorem Blocks.dependsOn_of_before (h : Blocks g scope (before ++ x :: after) blocks)
    (hnodup : blocks.flatten.Nodup) (hpair : [y, x].Sublist blocks.flatten) :
    ∃ w ∈ before ++ [x], DependsOn g scope w y := by
  rw [← List.singleton_append, ← List.append_assoc] at h
  have hfirst := h.take (before ++ [x]).length
  rw [List.take_left] at hfirst
  have hsplit : blocks.flatten = (blocks.take (before ++ [x]).length).flatten ++
      (blocks.drop (before ++ [x]).length).flatten := by
    rw [← List.flatten_append, List.take_append_drop]
  rw [hsplit] at hnodup hpair
  -- The entry is in the blocks up to its own, and so is what stands before it.
  have hx := (hfirst.mem_flatten_iff x).2
    ⟨x, List.mem_append_right before (List.mem_singleton.2 rfl), ReflTransGen.refl⟩
  exact (hfirst.mem_flatten_iff y).1 (mem_of_pair_sublist hnodup hx hpair)

/-- What is listed for some targets falls into their blocks, without repeats and in order. -/
theorem blocks_of_listed (h : g.WellFormed) (hr : listed g scope entries = .ok r) :
    (∃ blocks, r = blocks.flatten ∧ Blocks g scope entries blocks) ∧ r.Nodup ∧
      InOrder g scope r := by
  rcases bind_eq_ok.1 hr with ⟨t, ht, hr⟩
  rcases Except.ok.inj hr with rfl
  rw [Traversal.visitAll_eq_foldlM] at ht
  -- Each target is placed behind what was placed before it.
  have hrun := foldlM_preserves
    (fun before t => Traversal.Consistent g scope t ∧ t.stack = [] ∧
      ∃ blocks, t.order.toList = blocks.flatten ∧ Blocks g scope before blocks)
    ⟨Traversal.consistent_start g scope, rfl, [], rfl, .nil⟩ (by
      intro before x _ t u _ hbefore hu
      rcases hbefore with ⟨hc, hempty, blocks, hplaced, hblocks⟩
      have hvisited := Traversal.visited_of_visit h hc hempty hu
      rcases hvisited.exists_block hc with ⟨block, hadded, hblock⟩
      rw [hplaced] at hadded hblock
      refine ⟨hvisited.toConsistent, hvisited.empty, blocks ++ [block], ?_, hblocks.concat hblock⟩
      rw [hadded, List.flatten_concat]) ht
  rcases hrun with ⟨hc, _, hblocks⟩
  exact ⟨hblocks, hc.nodup_order, hc.inOrder⟩

section Completed

variable {S : Region}

/-- A completed list is put together from one block for each entry, in the order of the entries: the
    block of an entry that has been placed is empty, and any other one ends with its entry and has
    what the entry depends on inside the region, as far as no earlier block has it. So nothing is
    repeated, and an entry stands before one that is listed earlier only where it is listed still
    earlier too, or an entry listed up to that one depends on it through some need. -/
theorem completePartial_in_blocks (hg : Reachable g) (h : g.completePartial entries S = .ok r) :
    (∃ blocks : List Schedule, r = blocks.flatten ∧ blocks.length = entries.length ∧
      ∀ (i : Nat) x block, entries[i]? = some x → blocks[i]? = some block →
        IsBlock g (some S) (blocks.take i).flatten x block) ∧
    r.Nodup ∧
    ∀ before x after, entries = before ++ x :: after → ∀ y ∈ after, [y, x].Sublist r →
      y ∈ before ∨ ∃ w ∈ before ++ [x], TransGen (Needs g (some S)) w y := by
  have hwell := Graph.wellFormed_of_reachable hg
  rcases blocks_of_listed hwell ((completePartial_eq_ok_iff hwell).1 h).2 with
    ⟨⟨blocks, rfl, hblocks⟩, hnodup, _⟩
  refine ⟨⟨blocks, rfl, hblocks.length, hblocks.block⟩, hnodup, ?_⟩
  rintro before x after rfl y _ hpair
  rcases hblocks.dependsOn_of_before hnodup hpair with ⟨w, hw, hdep⟩
  rcases reflTransGen_iff_eq_or_transGen.1 hdep with rfl | hdep
  · -- It is one of the entries up to there, and not the last one, which stands behind it.
    rcases List.mem_append.1 hw with hbefore | hlast
    · exact Or.inl hbefore
    · rw [List.mem_singleton.1 hlast] at hpair
      exact absurd List.mem_cons_self (List.nodup_cons.1 (hnodup.sublist hpair)).1
  · exact Or.inr ⟨w, hw, hdep⟩

/-- The region that has both edges of the relay. -/
def relayWhole : Region :=
  { id := ⟨0⟩, inner := ((∅ : Std.ExtTreeSet EdgeId).insert ⟨0⟩).insert ⟨1⟩, outer := ∅
    schedule := [] }

theorem region_relayWhole : ∃ p : Partition, p.BuiltOn relayGraph ∧
    p.region? ⟨0⟩ = some relayWhole := by
  refine ⟨{ Partition.empty with
    regions := #[relayWhole]
    regionOf := ((∅ : Std.ExtTreeMap EdgeId RegionId).insert ⟨0⟩ ⟨0⟩).insert ⟨1⟩ ⟨0⟩ }, ?_, rfl⟩
  refine Partition.BuiltOn.groups [[⟨0⟩, ⟨1⟩]] _ ?_
  simp only [Partition.ofGroups, Partition.regionOfGroup, Partition.outerEdges, Region.nodes,
    distinct_eq_eraseDups]
  exact toOption_eq_some.1 (by decide +kernel)

/-- What the relay sends on needs what the source sends, so this is placed first, though it is
    listed behind. -/
theorem completePartial_relayWhole :
    relayGraph.completePartial [⟨2⟩, ⟨0⟩] relayWhole = .ok [⟨0⟩, ⟨2⟩] := by
  have h := Graph.wellFormed_of_reachable reachable_relayGraph
  have hlisted : Traversal.listedWithin relayGraph (some relayWhole) 6 [⟨2⟩, ⟨0⟩] =
      some [⟨0⟩, ⟨2⟩] := by
    decide +kernel
  refine (completePartial_eq_ok_iff h).2 ⟨by decide +kernel, ?_⟩
  exact Traversal.listed_eq_of_listedWithin hlisted

/-- The source is placed with the relay's block, since the relay depends on it; its own block is
    empty. -/
theorem completePartial_in_blocks_relay :
    Reachable relayGraph ∧
      (∃ p : Partition, p.BuiltOn relayGraph ∧ p.region? ⟨0⟩ = some relayWhole) ∧
      relayGraph.completePartial [⟨2⟩, ⟨0⟩] relayWhole = .ok [⟨0⟩, ⟨2⟩] ∧
      TransGen (Needs relayGraph (some relayWhole)) ⟨2⟩ ⟨0⟩ := by
  have hblocks := completePartial_in_blocks reachable_relayGraph completePartial_relayWhole
  refine ⟨reachable_relayGraph, region_relayWhole, completePartial_relayWhole, ?_⟩
  rcases hblocks.2.2 [] ⟨2⟩ [⟨0⟩] rfl ⟨0⟩ List.mem_cons_self (List.Sublist.refl _) with
    hbefore | ⟨w, hw, hdep⟩
  · exact absurd hbefore List.not_mem_nil
  · rw [List.nil_append, List.mem_singleton] at hw
    exact hw ▸ hdep

/-- A list without repeats keeps its order when it is completed exactly if no entry depends on a
    later one. Two entries that are listed against their dependence are swapped. -/
theorem completePartial_keeps_order_iff (hg : Reachable g) (hentries : entries.Nodup)
    (h : g.completePartial entries S = .ok r) :
    (entries.Sublist r ↔ entries.Pairwise fun x y => ¬ TransGen (Needs g (some S)) x y) ∧
    ∀ x y, [x, y].Sublist entries → TransGen (Needs g (some S)) x y → [y, x].Sublist r := by
  have hwell := Graph.wellFormed_of_reachable hg
  rcases blocks_of_listed hwell ((completePartial_eq_ok_iff hwell).1 h).2 with
    ⟨⟨blocks, rfl, hblocks⟩, hnodup, hinOrder⟩
  refine ⟨⟨fun hsub => ?_, hblocks.sublist hentries⟩, fun x y hpair hdep => ?_⟩
  · exact (hinOrder.pairwise hnodup).sublist hsub
  · have hx : x ∈ entries := hpair.subset List.mem_cons_self
    exact hinOrder.pair_sublist ((hblocks.mem_flatten_iff x).2 ⟨x, hx, ReflTransGen.refl⟩) hdep

/-- The relay and the source, listed in this order, are swapped, since the relay depends on the
    source. -/
theorem completePartial_keeps_order_iff_relay :
    Reachable relayGraph ∧
      (∃ p : Partition, p.BuiltOn relayGraph ∧ p.region? ⟨0⟩ = some relayWhole) ∧
      [(⟨2⟩ : TerminalId), ⟨0⟩].Nodup ∧
      relayGraph.completePartial [⟨2⟩, ⟨0⟩] relayWhole = .ok [⟨0⟩, ⟨2⟩] ∧
      ¬ [(⟨2⟩ : TerminalId), ⟨0⟩].Sublist [⟨0⟩, ⟨2⟩] ∧
      ¬ [(⟨2⟩ : TerminalId), ⟨0⟩].Pairwise
        fun x y => ¬ TransGen (Needs relayGraph (some relayWhole)) x y := by
  have hentries : [(⟨2⟩ : TerminalId), ⟨0⟩].Nodup := by decide
  have hnot : ¬ [(⟨2⟩ : TerminalId), ⟨0⟩].Sublist [⟨0⟩, ⟨2⟩] := by decide
  refine ⟨reachable_relayGraph, region_relayWhole, hentries, completePartial_relayWhole, hnot, ?_⟩
  intro hfree
  exact hnot ((completePartial_keeps_order_iff reachable_relayGraph hentries
    completePartial_relayWhole).1.2 hfree)

end Completed

end MessagePlan
