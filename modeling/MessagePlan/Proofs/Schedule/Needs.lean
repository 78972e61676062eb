import MessagePlan.Proofs.Graph.WellFormed
import MessagePlan.Schedule.Basic

/-!
# What a Message Needs

What a schedule has to respect, said without the traversal that finds one. The message out of
a terminal is computed from what arrives at the other terminals of its node. `Needs` relates
the terminal to the partners of these, as far as their edges lie in the scope and they hold no
message yet. What is needed has needs in turn; `DependsOn` follows them to the end, and
`OnLoop` says that they lead back.

A terminal of the node without a partner is `Loose`. Nothing arrives there, and nothing ever
will, so a message cannot be computed past it, whatever the scope.

A list is `InOrder` if all that an entry needs stands before it. Such a list holds all that its
entries depend on, and none of them lies on a loop: along needs the places in the list go down.

`needAt` is the one step of the traversal that looks at the graph. On a well-formed graph it
answers the relation: nothing, a need, or a loose terminal.

## Main definitions

* `Inside`: What arrives at a terminal is in the scope.
* `NeededAt`, `Needs`: The message that is needed at a terminal, and those needed for one.
* `Loose`: A terminal of a node at which nothing can arrive.
* `DependsOn`, `OnLoop`: Needs followed to the end, and back.
* `InOrder`: A list whose entries stand behind what they need.

## Theorems

* `inScope_eq_true_iff`: The scope includes an edge exactly where what arrives is inside.
* `needAt_cases`: What is found at a terminal.
* `inOrder_concat`: An entry may follow when all that it needs is there.
* `InOrder.append`, `InOrder.distinct`: Lists in order are put together, and lose their repeats.
* `InOrder.mem_of_dependsOn`: A list in order holds all that its entries depend on.
* `InOrder.not_onLoop`: No entry of a list in order lies on a loop.
* `InOrder.pairwise`: No entry of a list in order depends on a later one.
* `InOrder.exists_lt`, `inOrder_of_exists_lt`: What an entry needs has an earlier place.
-/

namespace MessagePlan

open Relation

/-- What arrives at a terminal is in the scope: always where there is none, and where there is a
    region, over an edge of it. -/
def Inside (g : Graph) (scope : Option Region) (y : TerminalId) : Prop :=
  ∀ r, scope = some r → ∃ e, g.edge? y = some e ∧ e ∈ r.inner

/-- The message out of `p` is needed for what arrives at `y`: `p` is its partner, in the scope,
    and holds no message. -/
def NeededAt (g : Graph) (scope : Option Region) (y p : TerminalId) : Prop :=
  Inside g scope y ∧ g.partner? y = some p ∧ g.message? p = none

/-- The message out of `p` is needed to compute the message out of `x`. -/
def Needs (g : Graph) (scope : Option Region) (x p : TerminalId) : Prop :=
  ∃ y ∈ g.ports x, y ≠ x ∧ NeededAt g scope y p

/-- Another terminal of the node of `x` has no partner. -/
def Loose (g : Graph) (x y : TerminalId) : Prop :=
  y ∈ g.ports x ∧ y ≠ x ∧ g.partner? y = none

/-- Needs lead from one terminal to another, or it is the same one. -/
abbrev DependsOn (g : Graph) (scope : Option Region) : TerminalId → TerminalId → Prop :=
  ReflTransGen (Needs g scope)

/-- Needs lead from a terminal back to it. -/
def OnLoop (g : Graph) (scope : Option Region) (x : TerminalId) : Prop :=
  TransGen (Needs g scope) x x

/-- Each entry stands behind all that it needs. -/
def InOrder (g : Graph) (scope : Option Region) (r : List TerminalId) : Prop :=
  ∀ before x after, r = before ++ x :: after → ∀ p, Needs g scope x p → p ∈ before

variable {g : Graph} {scope : Option Region} {x y p : TerminalId} {r : List TerminalId}

/-! ### What is found at a terminal -/

/-- Where a terminal has a partner, the scope includes its edge exactly if what arrives over it
    is inside. -/
theorem inScope_eq_true_iff (h : g.WellFormed) (hy : g.partner? y = some p) :
    inScope scope (g.edge? y) = true ↔ Inside g scope y := by
  rcases h.edge?_isSome_of_partner? hy with ⟨e, he⟩
  -- Only a terminal with an edge can lie outside.
  rw [he]
  cases scope with
  | none =>
    refine iff_of_true rfl (fun r hr => ?_)
    exact nomatch hr
  | some r =>
    simp only [inScope, Region.hasEdge, Std.ExtTreeSet.contains_iff_mem]
    constructor
    · intro hmem r' hr'
      rcases Option.some.inj hr' with rfl
      exact ⟨e, he, hmem⟩
    · intro hin
      rcases hin r rfl with ⟨e', he', hmem⟩
      rw [he] at he'
      rcases Option.some.inj he' with rfl
      exact hmem

/-- A terminal without a partner has no edge, and no scope leaves it out. -/
theorem inScope_of_partner?_eq_none (h : g.WellFormed) (hy : g.partner? y = none) :
    inScope scope (g.edge? y) = true := by
  rw [(h.joined y).2 hy]
  cases scope with
  | none => rfl
  | some r => rfl

theorem hasMessage_eq_ok {ε : Type} (hp : g.hasTerminal p = true) :
    (g.hasMessage p : Except (Failure ε) Bool) = .ok (g.message? p).isSome := by
  rcases Graph.terminal_eq_ok (ε := ε) hp with ⟨terminal, hget, _, _, _, hmessage⟩
  rw [Graph.hasMessage, hget, ok_bind, hmessage]
  rfl

/-- Looking at a terminal of the node of `x` finds nothing that is needed, or what is needed
    there, or that it is loose. -/
theorem needAt_cases (h : g.WellFormed) (hy : y ∈ g.ports x) :
    (needAt g scope x y = .ok none ∧
      (y = x ∨ (∃ q, g.partner? y = some q) ∧ ∀ q, ¬ NeededAt g scope y q)) ∨
    (∃ q, needAt g scope x y = .ok (some q) ∧ y ≠ x ∧ NeededAt g scope y q) ∨
    (∃ l, needAt g scope x y = .error (.cause (.disconnected y l)) ∧
      g.label y = (.ok l : Except (Failure ScheduleError) String) ∧ Loose g x y) := by
  unfold needAt
  by_cases hyx : y = x
  · rw [if_pos hyx]
    exact Or.inl ⟨rfl, Or.inl hyx⟩
  rw [if_neg hyx]
  rcases Graph.terminal_eq_ok (ε := ScheduleError) (h.hasTerminal_of_mem_ports hy) with
    ⟨terminal, hget, _, hpartner, hedge, _⟩
  rw [hget, ok_bind, ← hedge, ← hpartner]
  cases hq : g.partner? y with
  | none =>
    -- The terminal is loose, so no scope leaves it out and it is reported.
    rcases h.label_eq_ok (ε := ScheduleError) y with ⟨l, hl⟩
    refine Or.inr (Or.inr ⟨l, ?_, hl, hy, hyx, hq⟩)
    simp only [inScope_of_partner?_eq_none h hq, Bool.not_true, Bool.false_eq_true, if_false, hl,
      ok_bind, refuse]
  | some q =>
    have hfound := hasMessage_eq_ok (ε := ScheduleError) (h.hasTerminal_of_partner? hq)
    by_cases hin : Inside g scope y
    · have hscope := (inScope_eq_true_iff h hq).2 hin
      simp only [hscope, Bool.not_true, Bool.false_eq_true, if_false, hfound, ok_bind]
      cases hm : g.message? q with
      | none =>
        refine Or.inr (Or.inl ⟨q, rfl, hyx, hin, hq, hm⟩)
      | some m =>
        -- The message is there already, and nothing has to be computed for it.
        refine Or.inl ⟨rfl, Or.inr ⟨⟨q, rfl⟩, fun q' hneed => ?_⟩⟩
        rw [NeededAt, hq, Option.some.injEq] at hneed
        rcases hneed with ⟨_, rfl, hnone⟩
        simp only [hm, reduceCtorEq] at hnone
    · -- The edge belongs to another region, and what arrives is left to it.
      have hscope : inScope scope (g.edge? y) = false :=
        Bool.eq_false_iff.2 (fun hc => hin ((inScope_eq_true_iff h hq).1 hc))
      simp only [hscope, Bool.not_false, if_true]
      exact Or.inl ⟨rfl, Or.inr ⟨⟨q, rfl⟩, fun q' hneed => hin hneed.1⟩⟩

/-- At a terminal only one message is needed. -/
theorem NeededAt.unique {q : TerminalId} (hp : NeededAt g scope y p) (hq : NeededAt g scope y q) :
    q = p := by
  have hpartner := hq.2.1
  rw [hp.2.1] at hpartner
  exact (Option.some.inj hpartner).symm

theorem NeededAt.partner?_ne_none (hp : NeededAt g scope y p) : g.partner? y ≠ none := by
  rw [hp.2.1]
  exact Option.some_ne_none p

theorem Needs.hasTerminal (h : g.WellFormed) (hneed : Needs g scope x p) :
    g.hasTerminal p = true := by
  rcases hneed with ⟨y, _, _, _, hp, _⟩
  exact h.hasTerminal_of_partner? hp

/-! ### Lists in order -/

theorem inOrder_nil : InOrder g scope [] := by
  intro before x after heq
  exact absurd heq.symm (List.append_ne_nil_of_right_ne_nil before (List.cons_ne_nil x after))

/-- An entry may follow at the end when all that it needs is in the list. -/
theorem inOrder_concat (hr : InOrder g scope r) (hx : ∀ p, Needs g scope x p → p ∈ r) :
    InOrder g scope (r ++ [x]) := by
  intro before x' after heq p hneed
  rcases List.eq_nil_or_concat after with rfl | ⟨after', last, rfl⟩
  · -- The entry asked about is the last one.
    rcases List.append_inj' heq rfl with ⟨rfl, hlast⟩
    rw [← (List.cons.inj hlast).1] at hneed
    exact hx p hneed
  · rw [List.concat_eq_append, ← List.cons_append, ← List.append_assoc] at heq
    rcases List.append_inj' heq rfl with ⟨hinit, _⟩
    exact hr before x' after' hinit p hneed

theorem InOrder.of_append {r' : List TerminalId} (hr : InOrder g scope (r ++ r')) :
    InOrder g scope r := by
  rintro before x after rfl p hneed
  exact hr before x (after ++ r') (by rw [List.append_assoc, List.cons_append]) p hneed

/-- Two lists in order are in order one behind the other. -/
theorem InOrder.append {r' : List TerminalId} (hr : InOrder g scope r) (hr' : InOrder g scope r') :
    InOrder g scope (r ++ r') := by
  intro before x after heq p hneed
  rcases List.append_eq_append_iff.1 heq with ⟨mid, hbefore, hsplit⟩ | ⟨mid, hsplit, hafter⟩
  · rw [hbefore]
    exact List.mem_append_right r (hr' mid x after hsplit p hneed)
  · cases mid with
    | nil => exact absurd (hr' [] x after hafter.symm p hneed) List.not_mem_nil
    | cons z mid =>
      rcases List.cons.inj hafter with ⟨rfl, _⟩
      exact hr before x mid hsplit p hneed

theorem inOrder_of_not_needs (hr : ∀ x ∈ r, ∀ p, ¬ Needs g scope x p) : InOrder g scope r := by
  rintro before x after rfl p hneed
  exact absurd hneed (hr x (List.mem_append_right before List.mem_cons_self) p)

/-- A list in order is in order without its repeats, since the first of equal entries stay. -/
theorem InOrder.distinct (hr : InOrder g scope r) : InOrder g scope (distinct r) := by
  intro before x after heq p hneed
  rcases exists_split_of_distinct heq with ⟨before', after', hsplit, hkept⟩
  exact hkept p (hr before' x after' hsplit p hneed)

theorem InOrder.mem_of_needs (hr : InOrder g scope r) (hx : x ∈ r) (hneed : Needs g scope x p) :
    p ∈ r := by
  -- What an entry needs stands before it, and so in the list.
  rcases List.append_of_mem hx with ⟨before, after, rfl⟩
  exact List.mem_append_left _ (hr before x after rfl p hneed)

/-- A list in order holds all that its entries depend on. -/
theorem InOrder.mem_of_dependsOn (hr : InOrder g scope r) (hx : x ∈ r)
    (hp : DependsOn g scope x p) : p ∈ r := by
  induction hp with
  | refl => exact hx
  | tail _ hneed ih => exact hr.mem_of_needs ih hneed

/-- What an entry needs has its first place before the first place of the entry. -/
theorem InOrder.idxOf_lt (hr : InOrder g scope r) (hx : x ∈ r) (hneed : Needs g scope x p) :
    r.idxOf p < r.idxOf x := by
  -- Split at the first occurrence: all before it is before every other one.
  rcases List.eq_append_cons_of_mem hx with ⟨before, after, rfl, hfirst⟩
  have hp := hr before x after rfl p hneed
  have hplace : (before ++ x :: after).idxOf x = before.length := by
    rw [List.idxOf_append, if_neg hfirst, List.idxOf_cons_self, Nat.zero_add]
  rw [hplace, List.idxOf_append, if_pos hp]
  exact List.idxOf_lt_length_of_mem hp

/-- What an entry depends on through some need has its first place before that of the entry. -/
theorem InOrder.idxOf_lt_of_transGen (hr : InOrder g scope r) (hx : x ∈ r)
    (hp : TransGen (Needs g scope) x p) : p ∈ r ∧ r.idxOf p < r.idxOf x := by
  induction hp with
  | single hneed => exact ⟨hr.mem_of_needs hx hneed, hr.idxOf_lt hx hneed⟩
  | tail _ hneed ih =>
    exact ⟨hr.mem_of_needs ih.1 hneed, Nat.lt_trans (hr.idxOf_lt ih.1 hneed) ih.2⟩

/-- No entry of a list in order lies on a loop, since along needs the places go down. -/
theorem InOrder.not_onLoop (hr : InOrder g scope r) (hx : x ∈ r) : ¬ OnLoop g scope x := by
  intro hloop
  -- Going round would lead from the place of the entry to an earlier one, which is its own.
  exact absurd (hr.idxOf_lt_of_transGen hx hloop).2 (Nat.lt_irrefl _)

/-- In a list in order without repeats no entry depends on a later one. -/
theorem InOrder.pairwise (hr : InOrder g scope r) (hnodup : r.Nodup) :
    r.Pairwise fun x y => ¬ TransGen (Needs g scope) x y := by
  refine List.pairwise_iff_getElem.2 fun i j hi hj hij hdep => ?_
  -- Where nothing is repeated, the place of an entry is its first place.
  have hlt := (hr.idxOf_lt_of_transGen (List.getElem_mem hi) hdep).2
  rw [hnodup.idxOf_getElem, hnodup.idxOf_getElem] at hlt
  omega

/-- What the entry in a place needs has an earlier place. -/
theorem InOrder.exists_lt (hr : InOrder g scope r) {i : Nat} (hx : r[i]? = some x)
    (hneed : Needs g scope x p) : ∃ j, j < i ∧ r[j]? = some p := by
  rcases List.getElem?_eq_some_iff.1 hx with ⟨hi, rfl⟩
  -- The entries before the place are those that the list begins with.
  have hsplit : r = r.take i ++ r[i] :: r.drop (i + 1) := by
    rw [List.getElem_cons_drop, List.take_append_drop]
  have hp := hr _ _ _ hsplit p hneed
  rcases List.getElem?_of_mem hp with ⟨j, hj⟩
  have hlt : j < i := by
    have := (List.getElem?_eq_some_iff.1 hj).1
    rw [List.length_take] at this
    omega
  rw [List.getElem?_take_of_lt hlt] at hj
  exact ⟨j, hlt, hj⟩

/-- A list is in order if what the entry in a place needs has an earlier place. -/
theorem inOrder_of_exists_lt (hr : ∀ (i : Nat) x, r[i]? = some x → ∀ p, Needs g scope x p →
    ∃ j, j < i ∧ r[j]? = some p) : InOrder g scope r := by
  intro before x after hsplit p hneed
  have hplace : r[before.length]? = some x := by
    rw [hsplit, List.getElem?_append_right (Nat.le_refl _), Nat.sub_self, List.getElem?_cons_zero]
  rcases hr before.length x hplace p hneed with ⟨j, hj, hget⟩
  rw [hsplit, List.getElem?_append_left hj] at hget
  exact List.mem_of_getElem? hget

end MessagePlan
