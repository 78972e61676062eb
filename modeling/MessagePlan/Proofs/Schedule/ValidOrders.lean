import MessagePlan.Proofs.Schedule.Blocks

/-!
# Valid Orders

An order of terminals can be judged by itself, without asking how it was found. `ValidOrder` does
it for a region, entry by entry: the region owns the entry, no entry comes twice, and whatever else
arrives at the node of an entry, from inside the region or nowhere at all, has a sender which holds
a message or stands at an earlier place. This names no traversal and no dependence over more than
one step, so it can be checked by going through the list once.

Completing answers to this in both directions. Whatever it returns is a valid order. And a valid
order needs nothing put in, so it is completed to itself. Therefore the valid orders are just the
lists that completing leaves alone, and to complete again changes nothing.

## Main definitions

* `ValidOrder`: An order of terminals of a region in which each can be computed in its turn.

## Theorems

* `validOrder_iff`: A valid order is a workable list of the region's own, without repeats.
* `validOrder_of_completePartial`: A completed list is a valid order.
* `completePartial_of_validOrder`: A valid order is completed to itself.
* `completePartial_fixes_iff`: What completing leaves alone.
-/

namespace MessagePlan

/-- An order of terminals of a region in which each can be computed in its turn: at another terminal
    of the node of an entry that has no edge, or one of the region's own, there is a partner which
    holds a message or has an earlier place. -/
structure ValidOrder (g : Graph) (S : Region) (r : Schedule) : Prop where
  there : ∀ x ∈ r, g.hasTerminal x = true
  owned : ∀ x ∈ r, (S.owns g x : Except (Failure ScheduleError) Bool) = .ok true
  nodup : r.Nodup
  supplied : ∀ (i : Nat) x, r[i]? = some x → ∀ y ∈ g.ports x, y ≠ x →
    g.edge? y = none ∨ Inside g (some S) y →
      ∃ q, g.partner? y = some q ∧ (g.message? q ≠ none ∨ ∃ j, j < i ∧ r[j]? = some q)

variable {g : Graph} {S : Region} {r entries : Schedule}

/-- A valid order is a workable list of the region's own terminals without repeats. -/
theorem validOrder_iff (h : g.WellFormed) : ValidOrder g S r ↔
    (∀ x ∈ r, S.holds g x = true) ∧ r.Nodup ∧ Workable g (some S) r := by
  constructor
  · intro hr
    refine ⟨fun x hx => ?_, hr.nodup, ⟨inOrder_of_exists_lt fun i x hx p hneed => ?_, hr.there,
      fun x hx y hloose => ?_⟩⟩
    · have howned := hr.owned x hx
      rw [owns_eq_ok h (hr.there x hx)] at howned
      exact Except.ok.inj howned
    · -- What is needed holds no message, so it has the earlier place.
      rcases hneed with ⟨y, hy, hne, hin, hpartner, hnone⟩
      rcases hr.supplied i x hx y hy hne (Or.inr hin) with ⟨q, hq, hsupplied⟩
      rw [hpartner, Option.some.injEq] at hq
      rw [← hq] at hsupplied
      exact hsupplied.resolve_left fun hheld => hheld hnone
    · -- A loose terminal has no edge and no partner that could supply it.
      rcases hloose with ⟨hy, hne, hnone⟩
      rcases List.getElem?_of_mem hx with ⟨i, hi⟩
      rcases hr.supplied i x hi y hy hne (Or.inl ((h.joined y).2 hnone)) with ⟨q, hq, _⟩
      rw [hnone] at hq
      exact nomatch hq
  · intro hr
    rcases hr with ⟨hholds, hnodup, hwork⟩
    refine ⟨hwork.there, fun x hx => ?_, hnodup, fun i x hx y hy hne hcase => ?_⟩
    · rw [owns_eq_ok h (hwork.there x hx), hholds x hx]
    · cases hpartner : g.partner? y with
      | none => exact absurd ⟨hy, hne, hpartner⟩ (hwork.tight x (List.mem_of_getElem? hx) y)
      | some q =>
        refine ⟨q, rfl, ?_⟩
        have hin : Inside g (some S) y := by
          refine hcase.resolve_left fun hnone => ?_
          rw [(h.joined y).1 hnone] at hpartner
          exact nomatch hpartner
        -- Without a message the partner is needed.
        by_cases hnone : g.message? q = none
        · exact Or.inr (hwork.inOrder.exists_lt hx ⟨y, hy, hne, hin, hpartner, hnone⟩)
        · exact Or.inl hnone

/-- Whatever a list is completed to is a valid order. -/
theorem validOrder_of_completePartial (h : g.WellFormed)
    (hr : g.completePartial entries S = .ok r) : ValidOrder g S r := by
  rcases (completePartial_eq_ok_iff h).1 hr with ⟨hentries, hlisted⟩
  have hnodup := (blocks_of_listed h hlisted).2.1
  rcases Traversal.listed_cases h (some S) entries with ⟨r', hr', hwork, hmem⟩ | ⟨e, he⟩
  · rw [hlisted, Except.ok.injEq] at hr'
    rw [← hr'] at hwork hmem
    refine (validOrder_iff h).2 ⟨fun x hx => ?_, hnodup, hwork⟩
    -- Needs do not lead out of the region.
    rcases (hmem x).1 hx with ⟨t, ht, hdep⟩
    exact holds_of_dependsOn h (hentries t ht).2 hdep
  · rw [hlisted] at he
    exact nomatch he

/-- A valid order is completed to itself. -/
theorem completePartial_of_validOrder (h : g.WellFormed) (hr : ValidOrder g S r) :
    g.completePartial r S = .ok r := by
  rcases (validOrder_iff h).1 hr with ⟨hholds, hnodup, hwork⟩
  rcases completePartial_cases h hnodup hwork.inOrder hwork.there hholds with
    ⟨hok, _⟩ | ⟨x, hx, y, _, hloose, _⟩
  · exact hok
  · exact absurd hloose (hwork.tight x hx y)

/-- The lists that completing leaves alone are the valid orders, and everything that completing
    returns is one of them, so that to complete it again changes nothing. -/
theorem completePartial_fixes_iff (hg : Reachable g) (S : Region) :
    (∀ r, g.completePartial r S = .ok r ↔ ValidOrder g S r) ∧
      ∀ entries r, g.completePartial entries S = .ok r →
        ValidOrder g S r ∧ g.completePartial r S = .ok r := by
  have h := Graph.wellFormed_of_reachable hg
  refine ⟨fun r => ⟨fun hr => ?_, fun hr => ?_⟩, fun entries r hr => ?_⟩
  · exact validOrder_of_completePartial h hr
  · exact completePartial_of_validOrder h hr
  · have hvalid := validOrder_of_completePartial h hr
    exact ⟨hvalid, completePartial_of_validOrder h hvalid⟩

/-- The source before the relay is a valid order, and completed again it stays as it is; the relay
    before the source is none. -/
theorem completePartial_fixes_iff_relay :
    Reachable relayGraph ∧
      (∃ p : Partition, p.BuiltOn relayGraph ∧ p.region? ⟨0⟩ = some relayWhole) ∧
      relayGraph.completePartial [⟨2⟩, ⟨0⟩] relayWhole = .ok [⟨0⟩, ⟨2⟩] ∧
      ValidOrder relayGraph relayWhole [⟨0⟩, ⟨2⟩] ∧
      relayGraph.completePartial [⟨0⟩, ⟨2⟩] relayWhole = .ok [⟨0⟩, ⟨2⟩] ∧
      ¬ ValidOrder relayGraph relayWhole [⟨2⟩, ⟨0⟩] := by
  rcases completePartial_fixes_iff reachable_relayGraph relayWhole with ⟨hfixes, hagain⟩
  rcases hagain _ _ completePartial_relayWhole with ⟨hvalid, hsame⟩
  refine ⟨reachable_relayGraph, region_relayWhole, completePartial_relayWhole, hvalid, hsame, ?_⟩
  intro hother
  have hother := (hfixes _).2 hother
  rw [completePartial_relayWhole, Except.ok.injEq] at hother
  exact absurd hother (by decide)

end MessagePlan
