import MessagePlan.Proofs.Dependency.Loops
import MessagePlan.Proofs.Schedule.Isolation

/-!
# The Terminals Proposed Break All Loops

Terminals to prime are found by a loop of its own: list the loops, prime the first terminal of
the first one, and begin again. Priming a terminal may take one loop apart into several smaller
ones, so the number of loops is no measure of what is left. The number of terminals that are not
primed is: a loop consists of such terminals only, because what is primed is not needed any more.
That makes every proposal a new one, and it bounds the proposals by the terminals.

`Breaking` says what a list of proposals does to the needs that are left. With nothing primed it
is a property of the graph, and there is no more to it when messages are really put on the terminals
proposed, since what holds a message is not needed any more either. A message does not change
what is connected to what, so the graph has the same needs but for those, and schedules find
nothing to be refused for.

## Main definitions

* `Breaking`: Terminals on loops that leave no loop when they are primed.
* `Graph.withMessages`: A graph with messages on some terminals.

## Theorems

* `exists_breakersFrom`, `loopBreakers_eq_ok`: Terminals are found that break all loops.
* `needs_withMessages`: Messages take away the needs of what they are put on.
* `loopBreakers_break_loops`: The terminals proposed break all loops, and are on loops.
-/

namespace MessagePlan

open Relation Dependency

/-- Different terminals that are on loops, while some count as primed, and leave no loop when
    they are primed as well. -/
structure Breaking (g : Graph) (primed : Std.HashSet TerminalId) (bs : List TerminalId) :
    Prop where
  nodup : bs.Nodup
  onLoop : ∀ b ∈ bs, TransGen (NeedsUnprimed g primed) b b
  done : ∀ x, ¬ TransGen (fun y p => NeedsUnprimed g primed y p ∧ p ∉ bs) x x

/-- The graph with messages on some terminals. -/
def Graph.withMessages (g : Graph) (message : TerminalId → Message) (bs : List TerminalId) :
    Graph :=
  g.applyAll (bs.map fun b => .setMessage b (message b))

variable {ε : Type} {g : Graph} {primed : Std.HashSet TerminalId} {b x y p : TerminalId}
  {bs : List TerminalId} {components : Digraph → List (List Nat)}

/-! ### Finding terminals to prime -/

/-- A terminal on a loop is there, holds no message and does not count as primed. -/
theorem unprimed_of_onLoop (h : g.WellFormed) (hx : TransGen (NeedsUnprimed g primed) x x) :
    g.hasTerminal x = true ∧ g.message? x = none ∧ x ∉ primed := by
  rcases TransGen.tail'_iff.1 hx with ⟨y, _, hneed⟩
  refine ⟨hneed.1.hasTerminal h, ?_, hneed.2⟩
  rcases hneed.1 with ⟨z, _, _, hat⟩
  exact (neededAt_none.1 hat).2

theorem needsUnprimed_insert :
    NeedsUnprimed g (primed.insert b) x p ↔ NeedsUnprimed g primed x p ∧ p ≠ b := by
  rw [NeedsUnprimed, NeedsUnprimed, Std.HashSet.mem_insert, not_or, beq_iff_eq, and_assoc,
    and_comm (a := p ∉ primed)]
  exact and_congr_right fun _ => and_congr_left fun _ => ne_comm

/-- A terminal on a loop may be primed first, if the others break what is left then. -/
theorem Breaking.cons (h : g.WellFormed) (hb : TransGen (NeedsUnprimed g primed) b b)
    (hbs : Breaking g (primed.insert b) bs) : Breaking g primed (b :: bs) := by
  refine ⟨List.nodup_cons.2 ⟨fun hmem => ?_, hbs.nodup⟩, fun c hc => ?_, fun x hx => ?_⟩
  · -- What is primed is on no loop any more, so it is not proposed again.
    exact (unprimed_of_onLoop h (hbs.onLoop b hmem)).2.2 Std.HashSet.mem_insert_self
  · rcases List.mem_cons.1 hc with rfl | hc
    · exact hb
    · exact TransGen.mono (fun _ _ hneed => (needsUnprimed_insert.1 hneed).1) _ _ (hbs.onLoop c hc)
  · refine hbs.done x (TransGen.mono (fun y p hneed => ?_) _ _ hx)
    rw [List.mem_cons, not_or] at hneed
    exact ⟨needsUnprimed_insert.2 ⟨hneed.1, hneed.2.1⟩, hneed.2.2⟩

theorem breaking_nil (hnone : ∀ x, ¬ TransGen (NeedsUnprimed g primed) x x) :
    Breaking g primed [] := by
  refine ⟨List.nodup_nil, fun b hb => absurd hb List.not_mem_nil, fun x hx => hnone x ?_⟩
  exact TransGen.mono (fun _ _ hneed => hneed.1) _ _ hx

/-- The terminal primed next is on a loop, and there is none only if no loop is left. -/
theorem head?_loopsWith (hcomponents : FindsComponents components) (h : g.WellFormed)
    (primed : Std.HashSet TerminalId) :
    ∃ ls, (g.loopsWith components primed : Except (Failure ε) (List (List TerminalId))) = .ok ls ∧
      ((ls.head? = none ∧ ∀ x, ¬ TransGen (NeedsUnprimed g primed) x x) ∨
        ∃ b loop, ls.head? = some (b :: loop) ∧ TransGen (NeedsUnprimed g primed) b b) := by
  rcases loopsWith_eq_ok (ε := ε) hcomponents h primed with ⟨ls, hls, _, hlists, hloops⟩
  refine ⟨ls, hls, ?_⟩
  cases hhead : ls.head? with
  | none =>
    refine Or.inl ⟨rfl, fun x hx => ?_⟩
    rcases hloops x hx with ⟨xs, hxs, _⟩
    rw [List.head?_eq_none_iff] at hhead
    rw [hhead] at hxs
    exact absurd hxs List.not_mem_nil
  | some xs =>
    rcases hlists xs (List.mem_of_head? hhead) with ⟨x, hx, hat⟩
    have hmem : x ∈ xs := (hat.mem_iff x).2 ⟨hx, hx⟩
    -- A loop has a terminal, so there is a first one, and it is on the loop.
    cases xs with
    | nil => exact absurd hmem List.not_mem_nil
    | cons b loop =>
      rcases (hat.mem_iff b).1 List.mem_cons_self with ⟨hto, hback⟩
      exact Or.inr ⟨b, loop, rfl, hback.trans hto⟩

/-- Whatever counts as primed, terminals are found that break all loops. -/
theorem exists_breakersFrom (hcomponents : FindsComponents components) (h : g.WellFormed)
    (primed : Std.HashSet TerminalId) :
    ∃ bs, (g.breakersFrom components primed : Except (Failure ε) (List TerminalId)) = .ok bs ∧
      Breaking g primed bs := by
  -- Each terminal that is primed leaves fewer of them, as in the definition.
  induction hn : g.unprimed primed using Nat.strongRecOn generalizing primed with
  | ind n ih =>
    rcases head?_loopsWith (ε := ε) hcomponents h primed with
      ⟨ls, hls, ⟨hhead, hnone⟩ | ⟨b, loop, hhead, hb⟩⟩
    · refine ⟨[], ?_, breaking_nil hnone⟩
      rw [Graph.breakersFrom, hls, ok_bind, hhead]
      rfl
    · rcases unprimed_of_onLoop h hb with ⟨hthere, _, hnot⟩
      have hfresh : primed.contains b = false :=
        Bool.eq_false_iff.2 fun hmem => hnot (Std.HashSet.contains_iff_mem.1 hmem)
      rcases ih _ (hn ▸ Graph.unprimed_insert_lt hthere hfresh) (primed.insert b) rfl with
        ⟨bs, hbs, hbreaking⟩
      refine ⟨b :: bs, ?_, hbreaking.cons h hb⟩
      rw [Graph.breakersFrom, hls, ok_bind, hhead]
      simp only [List.head?_cons, handled, ok_bind, hthere, hfresh, and_self, dite_true, hbs]
      rfl

/-- The terminals proposed break all loops. -/
theorem loopBreakers_eq_ok (hcomponents : FindsComponents components) (h : g.WellFormed) :
    ∃ bs, (g.loopBreakers components : Except (Failure ε) (List TerminalId)) = .ok bs ∧
      Breaking g ∅ bs :=
  exists_breakersFrom hcomponents h ∅

/-! ### Messages on the terminals found -/

section Messages

/-- A message on a terminal leaves everything else as it is. -/
theorem views_setMessage (hb : g.hasTerminal b = true) (m : Message) :
    (∀ x, (g.apply (.setMessage b m)).hasTerminal x = g.hasTerminal x) ∧
      (∀ x, (g.apply (.setMessage b m)).ports x = g.ports x) ∧
      (∀ x, (g.apply (.setMessage b m)).partner? x = g.partner? x) ∧
      ∀ p, (g.apply (.setMessage b m)).message? p = none ↔ g.message? p = none ∧ p ≠ b := by
  rw [apply_setMessage]
  have hshape := sameShape_withMessage g b (some m)
  refine ⟨fun _ => hshape.hasTerminal_eq, fun _ => hshape.ports_eq, fun _ => hshape.partner?_eq,
    fun p => ?_⟩
  by_cases hpb : p = b
  · rw [hpb, message?_withMessage_self hb]
    exact iff_of_false (Option.some_ne_none m) fun h => h.2 rfl
  · rw [message?_withMessage hpb, and_iff_left hpb]

/-- Messages on terminals leave everything else as it is. -/
theorem views_withMessages (message : TerminalId → Message)
    (hbs : ∀ b ∈ bs, g.hasTerminal b = true) :
    (∀ x, (g.withMessages message bs).hasTerminal x = g.hasTerminal x) ∧
      (∀ x, (g.withMessages message bs).ports x = g.ports x) ∧
      (∀ x, (g.withMessages message bs).partner? x = g.partner? x) ∧
      ∀ p, (g.withMessages message bs).message? p = none ↔ g.message? p = none ∧ p ∉ bs := by
  induction bs generalizing g with
  | nil =>
    refine ⟨fun _ => rfl, fun _ => rfl, fun _ => rfl, fun p => ?_⟩
    exact ⟨fun h => ⟨h, List.not_mem_nil⟩, fun h => h.1⟩
  | cons b bs ih =>
    rcases views_setMessage (hbs b List.mem_cons_self) (message b) with
      ⟨hthere, hports, hpartner, hmessage⟩
    rcases ih (g := g.apply (.setMessage b (message b))) fun c hc => by
      rw [hthere]
      exact hbs c (List.mem_cons_of_mem b hc) with ⟨hthere', hports', hpartner', hmessage'⟩
    -- The first message leaves the shape alone, so the others are set as in the graph before it.
    refine ⟨fun x => (hthere' x).trans (hthere x), fun x => (hports' x).trans (hports x),
      fun x => (hpartner' x).trans (hpartner x), fun p => (hmessage' p).trans ?_⟩
    rw [hmessage, List.mem_cons, not_or, and_assoc]

/-- Messages take away the needs of what they are put on, and no others. -/
theorem needs_withMessages {message : TerminalId → Message}
    (hbs : ∀ b ∈ bs, g.hasTerminal b = true) :
    Needs (g.withMessages message bs) none x p ↔ Needs g none x p ∧ p ∉ bs := by
  rcases views_withMessages message hbs with ⟨_, hports, hpartner, hmessage⟩
  simp only [Needs, neededAt_none, hports, hpartner, hmessage]
  constructor
  · rintro ⟨y, hy, hne, hp, hnone, hnot⟩
    exact ⟨⟨y, hy, hne, hp, hnone⟩, hnot⟩
  · rintro ⟨⟨y, hy, hne, hp, hnone⟩, hnot⟩
    exact ⟨y, hy, hne, hp, hnone, hnot⟩

/-- With messages on terminals that break all loops, nothing is on a loop. -/
theorem Breaking.not_onLoop (h : g.WellFormed) (hbs : Breaking g ∅ bs)
    (message : TerminalId → Message) (x : TerminalId) :
    ¬ OnLoop (g.withMessages message bs) none x := by
  intro hx
  refine hbs.done x (TransGen.mono (fun y p hneed => ?_) _ _ hx)
  rw [needsUnprimed_empty]
  exact (needs_withMessages fun b hb => (unprimed_of_onLoop h (hbs.onLoop b hb)).1).1 hneed

end Messages

/-- Terminals that break all loops have a member of every list of unbroken loops among them. -/
theorem Breaking.exists_mem (hbs : Breaking g ∅ bs) {xs : List TerminalId}
    (hxs : LoopAt g ∅ x xs) (hx : x ∈ xs) : ∃ b ∈ bs, b ∈ xs := by
  by_contra hnone
  -- A loop none of whose terminals is primed would be left.
  rcases (hxs.mem_iff x).1 hx with ⟨hcycle, _⟩
  refine hbs.done x (Digraph.transGen_within hcycle hcycle fun p hto hback hp => ?_)
  exact hnone ⟨p, hp, (hxs.mem_iff p).2 ⟨hto, hback⟩⟩

/-- Terminals are found to be primed, with whatever finds components. They are there, different,
    hold no message, and each is on one of the unbroken loops, of which none is without one of them.
    With messages on all of them no loop is unbroken, and where every terminal has a partner, all of
    them have schedules. -/
theorem loopBreakers_break_loops (hcomponents : FindsComponents components) (hg : Reachable g) :
    ∃ ls bs, (g.unbrokenLoops components : Except (Failure ε) (List (List TerminalId))) = .ok ls ∧
      (g.loopBreakers components : Except (Failure ε) (List TerminalId)) = .ok bs ∧
      bs.Nodup ∧
      (∀ b ∈ bs, g.hasTerminal b = true ∧ g.message? b = none ∧ ∃ xs ∈ ls, b ∈ xs) ∧
      (∀ xs ∈ ls, ∃ b ∈ bs, b ∈ xs) ∧
      ∀ message : TerminalId → Message,
        ((g.withMessages message bs).unbrokenLoops components :
          Except (Failure ε) (List (List TerminalId))) = .ok [] ∧
        ((∀ x, g.hasTerminal x = true → g.partner? x ≠ none) → ∀ t, g.hasTerminal t = true →
          ∃ r, (g.withMessages message bs).schedule t none = .ok r) := by
  have h := Graph.wellFormed_of_reachable hg
  rcases unbrokenLoops_eq_ok (ε := ε) hcomponents h with ⟨ls, hls, _, hlists, hmem⟩
  rcases loopBreakers_eq_ok (ε := ε) hcomponents h with ⟨bs, hproposed, hbs⟩
  have hthere := fun b hb => unprimed_of_onLoop h (hbs.onLoop b hb)
  refine ⟨ls, bs, hls, hproposed, hbs.nodup, fun b hb => ?_,
    fun xs hxs => ?_, fun message => ?_⟩
  · refine ⟨(hthere b hb).1, (hthere b hb).2.1, (hmem b).1 ?_⟩
    rw [OnLoop, ← needsUnprimed_empty]
    exact hbs.onLoop b hb
  · rcases hlists xs hxs with ⟨x, hat, hx⟩
    exact hbs.exists_mem hat hx
  -- Setting messages is an operation, so what is known of reachable graphs holds of the new one.
  have hg' : Reachable (g.withMessages message bs) := hg.applyAll _
  have hnot := hbs.not_onLoop h message
  refine ⟨unbrokenLoops_eq_nil hcomponents (Graph.wellFormed_of_reachable hg') hnot,
    fun hjoined t ht => ?_⟩
  rcases views_withMessages message fun b hb => (hthere b hb).1 with ⟨hsame, _, hpartner, _⟩
  refine exists_schedule_of_not_onLoop hg' (fun y hy => ?_) hnot ((hsame t).trans ht)
  rw [hpartner]
  exact hjoined y (hsame y ▸ hy)

/-- In a ring that a message breaks in one direction, messages on the terminals proposed make
    schedules for the other direction. -/
theorem loopBreakers_break_loops_ring :
    ∃ bs, (primedRing.loopBreakers Digraph.components : Except (Failure ScheduleError) _) =
        .ok bs ∧
      (∃ e, primedRing.schedule ⟨0⟩ none = .error (.cause e)) ∧
      ∃ r, (primedRing.withMessages (fun _ => ⟨.gaussian, .series [0, 1]⟩) bs).schedule ⟨0⟩ none =
        .ok r := by
  rcases loopBreakers_break_loops (ε := ScheduleError) findsComponents reachable_primedRing with
    ⟨_, bs, _, hbs, _, _, _, hafter⟩
  refine ⟨bs, hbs, onLoop_primedRing.schedule_eq_error reachable_primedRing, ?_⟩
  exact (hafter fun _ => _).2 partner?_primedRing ⟨0⟩ (by decide +kernel)

end MessagePlan
