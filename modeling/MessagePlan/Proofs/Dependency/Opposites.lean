import Mathlib.Data.List.Sort
import MessagePlan.Proofs.Dependency.Forest

/-!
# Loops Come in Opposite Directions

A ring of nodes has two loops, one for each way round it. What one way needs is turned round into
what the other way needs: if `x` needs `p` for what arrives at a terminal `y`, then `y` is the
partner of `p`, and the message out of `y` needs what arrives at `x`, which is sent by the partner
of `x`. So partners exchange the two ends of a need.

The partner of `x` has to be without a message, as every terminal is that something needs. A graph
whose partners hold messages together has this wherever `x` itself is needed, and so on every loop.
There a whole loop is turned round need by need, and its partners are a loop again. It can be the
same loop, where both ways round have a terminal in common.

## Main definitions

* `Graph.EvenHanded`: A terminal holds a message exactly if its partner does.
* `Graph.opposite`: The partners of some terminals, in ascending order.

## Theorems

* `LoopAt.unique`: A terminal has one loop.
* `exists_partner_of_needs`: What is needed has a partner and no message.
* `Needs.opposite`, `transGen_opposite`, `together_opposite`: Partners need one another the other
  way round.
* `mem_opposite`, `pairwise_opposite`: The partners of some terminals as a list.
* `LoopAt.opposite`: The partners of the terminals on a loop are the loop of a partner.
* `loops_in_opposite_directions`: The partners of a loop that is listed are listed as a loop.
-/

namespace MessagePlan

open Relation Dependency

namespace Graph

/-- A terminal holds a message exactly if its partner does. -/
def EvenHanded (g : Graph) : Prop :=
  ∀ p q, g.partner? p = some q → ((g.message? p).isSome = true ↔ (g.message? q).isSome = true)

/-- The partners of some terminals, in ascending order. -/
def opposite (g : Graph) (xs : List TerminalId) : List TerminalId :=
  TerminalId.ascending (xs.filterMap g.partner?)

end Graph

variable {ε : Type} {g : Graph} {primed : Std.HashSet TerminalId} {x x' y p : TerminalId}
  {xs : List TerminalId}

/-! ### Ascending lists -/

/-- A terminal has one loop, since an ascending list is told by its members. -/
theorem LoopAt.unique {ys : List TerminalId} (hxs : LoopAt g primed x xs)
    (hys : LoopAt g primed x ys) : xs = ys := by
  have hirrefl : Std.Irrefl fun y z : TerminalId => y.index < z.index :=
    ⟨fun y => Nat.lt_irrefl y.index⟩
  have hantisymm : Std.Antisymm fun y z : TerminalId => y.index < z.index :=
    ⟨fun y z hyz hzy => absurd hyz (Nat.lt_asymm hzy)⟩
  refine hxs.sorted.eq_of_mem_iff hys.sorted fun y => ?_
  rw [hxs.mem_iff, hys.mem_iff]

theorem mem_opposite : y ∈ g.opposite xs ↔ ∃ z ∈ xs, g.partner? z = some y := by
  rw [Graph.opposite, mem_ascending, List.mem_filterMap]

/-- Different terminals have different partners, so that no partner is listed twice. -/
theorem pairwise_opposite (h : g.WellFormed) (hxs : xs.Pairwise fun y z => y.index < z.index) :
    (g.opposite xs).Pairwise fun y z => y.index < z.index := by
  refine pairwise_ascending (List.pairwise_filterMap.2 ?_)
  refine hxs.imp fun {a b} hab y hy z hz heq => ?_
  -- Partners are mutual, so two terminals with one partner are the same.
  have hback := h.partner_symm hz
  rw [← heq, h.partner_symm hy, Option.some.injEq] at hback
  rw [hback] at hab
  exact Nat.lt_irrefl _ hab

/-! ### Needs turned round -/

theorem exists_partner_of_needs (h : g.WellFormed) (hneed : Needs g none x p) :
    (∃ q, g.partner? p = some q) ∧ g.message? p = none := by
  rcases hneed with ⟨y, _, _, hat⟩
  rcases neededAt_none.1 hat with ⟨hp, hnone⟩
  exact ⟨⟨y, h.partner_symm hp⟩, hnone⟩

/-- If a terminal needs another, then the partner of that one needs the partner of the first. -/
theorem Needs.opposite (h : g.WellFormed) (heven : g.EvenHanded) (hneed : Needs g none x p)
    (hx : g.partner? x = some x') (hnone : g.message? x = none) :
    ∃ p', g.partner? p = some p' ∧ Needs g none p' x' := by
  rcases hneed with ⟨y, hy, hyx, hat⟩
  rcases neededAt_none.1 hat with ⟨hp, _⟩
  -- The terminal where it is needed is the partner, and belongs to the node of `x`.
  have hself : x ∈ g.ports y := by
    rcases h.mem_ports hy with ⟨n, hxn, hyn⟩
    exact h.mem_ports_of_nodeIdOf? hyn hxn
  have hfar : g.message? x' = none := by
    have hiff := heven x x' hx
    rw [hnone] at hiff
    simpa using hiff
  exact ⟨y, h.partner_symm hp, x, hself, hyx.symm, neededAt_none.2 ⟨hx, hfar⟩⟩

/-- Needs that lead from a terminal to another lead back from partner to partner. -/
theorem transGen_opposite (h : g.WellFormed) (heven : g.EvenHanded)
    (hto : TransGen (Needs g none) x p) (hx : g.partner? x = some x')
    (hnone : g.message? x = none) :
    ∃ p', g.partner? p = some p' ∧ TransGen (Needs g none) p' x' := by
  induction hto with
  | single hneed =>
    rcases hneed.opposite h heven hx hnone with ⟨p', hp', hneed'⟩
    exact ⟨p', hp', .single hneed'⟩
  | tail hto hneed ih =>
    -- What stands between is needed itself, and so it is without a message like the first.
    rcases TransGen.tail'_iff.1 hto with ⟨z, _, hbefore⟩
    rcases ih with ⟨q', hq', hback⟩
    rcases hneed.opposite h heven hq' (exists_partner_of_needs h hbefore).2 with ⟨p', hp', hneed'⟩
    exact ⟨p', hp', .head hneed' hback⟩

/-- A terminal on a loop has a partner and no message. -/
theorem OnLoop.exists_partner (h : g.WellFormed) (hx : OnLoop g none x) :
    (∃ q, g.partner? x = some q) ∧ g.message? x = none := by
  rcases TransGen.tail'_iff.1 hx with ⟨y, _, hneed⟩
  exact exists_partner_of_needs h hneed

/-- Terminals that need one another have partners that need one another. -/
theorem together_opposite (h : g.WellFormed) (heven : g.EvenHanded)
    (hto : TransGen (Needs g none) x p) (hback : TransGen (Needs g none) p x)
    (hx : g.partner? x = some x') :
    ∃ p', g.partner? p = some p' ∧ TransGen (Needs g none) x' p' ∧
      TransGen (Needs g none) p' x' := by
  have hxloop : OnLoop g none x := hto.trans hback
  have hploop : OnLoop g none p := hback.trans hto
  rcases transGen_opposite h heven hto hx (hxloop.exists_partner h).2 with ⟨p', hp', hto'⟩
  rcases transGen_opposite h heven hback hp' (hploop.exists_partner h).2 with ⟨w, hw, hback'⟩
  rw [hx] at hw
  rcases Option.some.inj hw with rfl
  exact ⟨p', hp', hback', hto'⟩

/-- The partners of the terminals on a loop are the loop of a partner. -/
theorem LoopAt.opposite (h : g.WellFormed) (heven : g.EvenHanded) (hx : g.partner? x = some x')
    (hxs : LoopAt g ∅ x xs) : LoopAt g ∅ x' (g.opposite xs) := by
  refine ⟨pairwise_opposite h hxs.sorted, fun y => ?_⟩
  rw [mem_opposite]
  constructor
  · rintro ⟨z, hz, hy⟩
    rcases (hxs.mem_iff z).1 hz with ⟨hto, hback⟩
    rw [needsUnprimed_empty] at hto hback ⊢
    rcases together_opposite h heven hto hback hx with ⟨y', hy', htogether⟩
    rw [hy] at hy'
    rcases Option.some.inj hy' with rfl
    exact htogether
  · rintro ⟨hto, hback⟩
    -- What is together with the partner is the partner of something on the loop.
    rw [needsUnprimed_empty] at hto hback
    rcases together_opposite h heven hto hback (h.partner_symm hx) with ⟨z, hz, htogether⟩
    refine ⟨z, (hxs.mem_iff z).2 ?_, h.partner_symm hz⟩
    rw [needsUnprimed_empty]
    exact htogether

/-- Where partners hold messages together, every member of a loop that is listed has a partner, and
    the partners of its members, in ascending order, are a loop that is listed as well. -/
theorem loops_in_opposite_directions {components : Digraph → List (List Nat)}
    (hcomponents : FindsComponents components) (hg : Reachable g) (heven : g.EvenHanded) :
    ∃ ls, (g.unbrokenLoops components : Except (Failure ε) (List (List TerminalId))) = .ok ls ∧
      ∀ xs ∈ ls, (∀ x ∈ xs, ∃ q, g.partner? x = some q) ∧ g.opposite xs ∈ ls := by
  have h := Graph.wellFormed_of_reachable hg
  rcases loopsWith_eq_ok (ε := ε) hcomponents h ∅ with ⟨ls, hls, _, hlists, hloops⟩
  rw [needsUnprimed_empty] at hlists hloops
  refine ⟨ls, hls, fun xs hxs => ?_⟩
  rcases hlists xs hxs with ⟨x, hx, hat⟩
  -- What is together with a terminal on a loop is on that loop itself.
  have hpartners : ∀ y ∈ xs, ∃ q, g.partner? y = some q := by
    intro y hy
    rcases (hat.mem_iff y).1 hy with ⟨hto, hback⟩
    rw [needsUnprimed_empty] at hto hback
    exact (OnLoop.exists_partner h (hback.trans hto)).1
  refine ⟨hpartners, ?_⟩
  rcases (OnLoop.exists_partner h hx).1 with ⟨x', hx'⟩
  rcases together_opposite h heven hx hx hx' with ⟨w, hw, htogether⟩
  rw [hx'] at hw
  rcases Option.some.inj hw with rfl
  rcases hloops x' htogether.1 with ⟨ys, hys, hat'⟩
  rw [(hat.opposite h heven hx').unique hat']
  exact hys

/-- In the ring without messages the loop of a terminal is listed, and so is the loop of its
    partner, which goes the other way round. -/
theorem loops_in_opposite_directions_ring :
    Reachable bareRing ∧ bareRing.EvenHanded ∧
      ∃ ls, (bareRing.unbrokenLoops Digraph.components : Except (Failure ScheduleError) _) =
          .ok ls ∧
        ∃ xs ∈ ls, ⟨0⟩ ∈ xs ∧ ⟨5⟩ ∈ bareRing.opposite xs ∧ bareRing.opposite xs ∈ ls := by
  have heven : bareRing.EvenHanded := by
    intro p q _
    rw [message?_eq_none_of_lt (by decide +kernel) p, message?_eq_none_of_lt (by decide +kernel) q]
  have h := Graph.wellFormed_of_reachable reachable_bareRing
  rcases loops_in_opposite_directions (ε := ScheduleError) findsComponents reachable_bareRing
    heven with ⟨ls, hls, hlists⟩
  rcases unbrokenLoops_eq_ok (ε := ScheduleError) findsComponents h with ⟨ls', hls', _, _, hmem⟩
  rw [hls] at hls'
  rcases Except.ok.inj hls' with rfl
  -- The first terminal is on a loop, and its partner is on the loop the other way round.
  rcases (hmem ⟨0⟩).1 onLoop_bareRing with ⟨xs, hxs, hx⟩
  have hpartner : ⟨5⟩ ∈ bareRing.opposite xs := mem_opposite.2 ⟨⟨0⟩, hx, by decide +kernel⟩
  exact ⟨reachable_bareRing, heven, ls, hls, xs, hxs, hx, hpartner, (hlists xs hxs).2⟩

end MessagePlan
