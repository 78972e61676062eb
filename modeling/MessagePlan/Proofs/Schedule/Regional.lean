import MessagePlan.Proofs.Partition.Division
import MessagePlan.Proofs.Schedule.Targets
import MessagePlan.Schedule.Regional

/-!
# What a Region is Asked For

The schedule of a region is put together from four parts, found one apart from the other. Three of
them are `listed` for targets: what is sent into the boundary from inside the region, the outputs
of time wraps, and what taps need. The fourth lists the terminals that are `Alone` at the boundary,
and for these no traversal is made.

To be in order is kept when lists are put together and when repeats are dropped, and a terminal
that is alone at its node needs nothing of the region. So the whole schedule is in order, though no
traversal has seen all of it. The targets are the region's own, what is needed inside a region is
inside it again, and so nothing leaves the region.

What the fourth part lists has not been looked at by a traversal. All that is known of its nodes is
what can be read off the region, and a terminal of such a node may be loose.

All regions may be scheduled side by side. What this does is not said but asked for: the schedules
come in the order of the regions, and if some regions have none, then what is said of one of them
is said of all. Which one it is may change from run to run.

## Main definitions

* `Requested`: A terminal whose message is requested from a region.
* `Region.senders`, `Region.lone`, `Partition.wrapTargets`, `Partition.tapTargets`: The targets of
  the four parts, read off the views.
* `Scheduled`: What the schedule of a region is.
* `Partition.Gathers`: What is asked of a way to find schedules side by side.

## Theorems

* `requested_iff`: What is requested are the targets of the three parts that are listed.
* `scheduleOf_eq_listed`: The schedule of a region is put together from what is listed.
* `scheduleOf_cases`: The schedule of a region is found, or something is refused for a cause.
* `scheduleOf_lists_requests`: It lists what the region is asked for and what this depends on.
* `gathers_inTurn`: One region after the other is such a way.
* `regions_of_scheduleAll`: Where all regions are scheduled, each stores its schedule.
* `exists_of_scheduleAll_eq_error`: Where they are not, a region is refused and nothing is stored.
-/

namespace MessagePlan

open Relation

/-- A terminal whose message is requested from a region: it sends into the boundary from inside the
    region, or the region owns it and a time wrap or a tap wants it. -/
inductive Requested (g : Graph) (p : Partition) (config : Config) (r : Region) : TerminalId → Prop
  | sender (y t : TerminalId) (hy : AtBoundary g r y) (ht : g.partner? y = some t) :
    Requested g p config r t
  | wrap (w : TimeWrap) (hon : config.timeWraps = true) (hw : w ∈ p.timeWraps)
      (howns : (r.owns g w.output : Except (Failure ScheduleError) Bool) = .ok true) :
    Requested g p config r w.output
  | tap (tap : Tap) (ts : List TerminalId) (t : TerminalId) (hon : config.taps = true)
      (htap : tap ∈ p.taps)
      (hts : (tap.terminals g : Except (Failure ScheduleError) (List TerminalId)) = .ok ts)
      (ht : t ∈ ts) (howns : (r.owns g t : Except (Failure ScheduleError) Bool) = .ok true) :
    Requested g p config r t

namespace Region

/-- The terminals of a node that are inside a region. -/
def insideAt (r : Region) (g : Graph) (n : NodeId) : List TerminalId :=
  ((g.portsAt? n.slot).getD []).filter (g.isOn r.inner)

/-- What sends into some nodes from inside a region. -/
def senders (r : Region) (g : Graph) (ns : List NodeId) : List TerminalId :=
  ns.flatMap fun n => (r.insideAt g n).flatMap fun y => (g.partner? y).toList

/-- The terminals that are the only ones inside a region at some nodes, if they are wanted. -/
def lone (r : Region) (g : Graph) (config : Config) (ns : List NodeId) : List TerminalId :=
  if config.univariateOutbounds = true then
    (ns.map (r.insideAt g)).flatMap fun ys => if ys.length = 1 then ys else []
  else []

end Region

/-- The terminals whose messages a tap needs. -/
def Tap.sides (g : Graph) : Tap → List TerminalId
  | .terminal p => [p]
  | .edge e => g.sidesOf e

namespace Partition

/-- The outputs of time wraps that belong to a region, if they are wanted. -/
def wrapTargets (p : Partition) (g : Graph) (config : Config) (r : Region) : List TerminalId :=
  if config.timeWraps = true then (p.timeWraps.map TimeWrap.output).filter (r.holds g) else []

/-- What taps need that belongs to a region, if it is wanted. -/
def tapTargets (p : Partition) (g : Graph) (config : Config) (r : Region) : List TerminalId :=
  if config.taps = true then p.taps.flatMap fun tap => (tap.sides g).filter (r.holds g) else []

end Partition

section Nodes

variable {g : Graph} {r : Region} {x y : TerminalId} {n : NodeId} {ns : List NodeId}

/-- The terminals of a node that are inside a region are those of its terminals with an edge there.
    -/
theorem insideAt_eq (hid : g.nodeIdOf? x = some n) :
    r.insideAt g n = (g.ports x).filter (g.isOn r.inner) := by
  rw [Region.insideAt, Graph.ports, hid, Option.bind_some]

theorem mem_insideAt (hid : g.nodeIdOf? x = some n) :
    y ∈ r.insideAt g n ↔ y ∈ g.ports x ∧ Inside g (some r) y := by
  rw [insideAt_eq hid, List.mem_filter, isOn_inner_iff]

/-- The partner of a terminal inside a region is inside it, since they share their edge. -/
theorem inside_partner (h : g.WellFormed) {q : TerminalId} (hin : Inside g (some r) y)
    (hq : g.partner? y = some q) : Inside g (some r) q := by
  rcases inside_iff.1 hin with ⟨e, he, hmem⟩
  exact inside_iff.2 ⟨e, by rw [(h.partners y q hq).2.2, he], hmem⟩

variable (h : g.WellFormed)

include h

theorem terminalsInside_eq_insideAt {ε : Type} (hid : g.nodeIdOf? x = some n) :
    (r.terminalsInside g n : Except (Failure ε) (List TerminalId)) = .ok (r.insideAt g n) := by
  rw [insideAt_eq hid]
  exact terminalsInside_eq_ok h hid

variable (hns : ∀ n, n ∈ ns ↔ ∃ y, g.nodeIdOf? y = some n ∧ AtBoundary g r y)

include hns

theorem mem_flatMap_insideAt : y ∈ ns.flatMap (r.insideAt g) ↔ AtBoundary g r y := by
  rw [List.mem_flatMap]
  constructor
  · rintro ⟨n, hn, hy⟩
    rcases (hns n).1 hn with ⟨x, hid, _, z, hz, hout⟩
    rcases (mem_insideAt hid).1 hy with ⟨hmem, hin⟩
    -- Terminals of one node are at the boundary together.
    refine ⟨hin, z, ?_, hout⟩
    rw [(h.same_of_mem_ports hmem).1]
    exact hz
  · intro hy
    -- A terminal at the boundary is listed at its own node.
    rcases inside_iff.1 hy.1 with ⟨e, he, _⟩
    have hthere := Graph.hasTerminal_of_edge? he
    rcases Graph.nodeIdOf?_of_hasTerminal hthere with ⟨n, hid⟩
    exact ⟨n, (hns n).2 ⟨y, hid, hy⟩, (mem_insideAt hid).2 ⟨h.mem_ports_self hthere, hy.1⟩⟩

/-- What is sent into the boundary comes from the partners of the terminals there. -/
theorem mem_senders : x ∈ r.senders g ns ↔ ∃ y, AtBoundary g r y ∧ g.partner? y = some x := by
  unfold Region.senders
  rw [← List.flatMap_assoc, List.mem_flatMap]
  simp only [mem_flatMap_insideAt h hns, Option.mem_toList]

/-- The only terminal inside a region at a boundary node is one that is alone there. -/
theorem mem_lone (config : Config) :
    x ∈ r.lone g config ns ↔ config.univariateOutbounds = true ∧ Alone g r x := by
  unfold Region.lone
  rw [List.mem_ite_nil_right, List.flatMap_map, List.mem_flatMap]
  refine and_congr_right fun _ => ⟨?_, fun halone => ?_⟩
  · rintro ⟨n, hn, hx⟩
    rcases List.mem_ite_nil_right.1 hx with ⟨hone, hx⟩
    rcases (hns n).1 hn with ⟨w, hid, _⟩
    rcases List.length_eq_one_iff.1 hone with ⟨x', hlist⟩
    have hboundary : AtBoundary g r x :=
      (mem_flatMap_insideAt h hns).1 (List.mem_flatMap.2 ⟨n, hn, hx⟩)
    have hports := (h.same_of_mem_ports ((mem_insideAt hid).1 hx).1).1
    rw [hlist, List.mem_singleton] at hx
    refine ⟨hboundary, fun z hz hin => ?_⟩
    -- Another one inside would be in the list too.
    have hmem : z ∈ r.insideAt g n := (mem_insideAt hid).2 ⟨hports ▸ hz, hin⟩
    rw [hlist, List.mem_singleton] at hmem
    rw [hmem, hx]
  · rcases List.mem_flatMap.1 ((mem_flatMap_insideAt h hns).2 halone.1) with ⟨n, hn, hx⟩
    rcases (hns n).1 hn with ⟨w, hid, _⟩
    have hports := (h.same_of_mem_ports ((mem_insideAt hid).1 hx).1).1
    -- Whatever is inside the region at that node is the terminal itself.
    have honly : ∀ z ∈ r.insideAt g n, z = x := by
      intro z hz
      rcases (mem_insideAt hid).1 hz with ⟨hmem, hin⟩
      exact halone.2 z (hports ▸ hmem) hin
    have hnodup : (r.insideAt g n).Nodup := by
      rw [insideAt_eq hid]
      exact (h.nodup_ports w).filter _
    have hone : (r.insideAt g n).length = 1 := by
      rw [eq_singleton_of_nodup hnodup hx honly]
      rfl
    exact ⟨n, hn, List.mem_ite_nil_right.2 ⟨hone, hx⟩⟩

end Nodes

section Parts

variable {g : Graph} {r : Region} {y : TerminalId} {ns : List NodeId} (h : g.WellFormed)

include h

theorem visitSender_eq_visitAll (hin : Inside g (some r) y) (t : Traversal) :
    Region.visitSender g r t y = Traversal.visitAll g (some r) t (g.partner? y).toList := by
  rcases inside_iff.1 hin with ⟨e, he, _⟩
  rcases h.partner?_isSome_of_edge? he with ⟨q, hq⟩
  rcases Graph.terminal_eq_ok (ε := ScheduleError) (Graph.hasTerminal_of_edge? he) with
    ⟨terminal, hget, _, hpartner, _⟩
  rw [Region.visitSender, hget, ok_bind, ← hpartner, hq, Option.toList_some,
    Traversal.visitAll_eq_foldlM, List.foldlM_cons]
  exact (bind_pure _).symm

/-- What is sent into the boundary is listed for the senders. -/
theorem inbound_eq_listed (hns : ∀ n ∈ ns, ∃ y, g.nodeIdOf? y = some n) :
    r.inbound g ns = listed g (some r) (r.senders g ns) := by
  -- At each boundary node the senders are placed one after the other.
  have hnode : ∀ n ∈ ns, ∀ t : Traversal,
      (r.terminalsInside g n >>= fun ys => ys.foldlM (Region.visitSender g r) t) =
        Traversal.visitAll g (some r) t
          ((r.insideAt g n).flatMap fun y => (g.partner? y).toList) := by
    intro n hn t
    rcases hns n hn with ⟨x, hid⟩
    rw [terminalsInside_eq_insideAt h hid, ok_bind]
    refine Traversal.foldlM_eq_visitAll (fun y hy t => ?_) t
    exact visitSender_eq_visitAll h ((mem_insideAt hid).1 hy).2 t
  unfold Region.inbound listed
  rw [Traversal.foldlM_eq_visitAll hnode, Region.senders]

theorem univariate_eq_ok {config : Config} (hon : config.univariateOutbounds = true)
    (hns : ∀ n ∈ ns, ∃ y, g.nodeIdOf? y = some n) :
    r.univariate g ns = .ok (r.lone g config ns) := by
  -- At no node of the boundary is anything refused.
  have hinside : ns.mapM (r.terminalsInside g) =
      (.ok (ns.map (r.insideAt g)) : Except (Failure ScheduleError) _) := by
    refine mapM_eq_ok_map fun n hn => ?_
    rcases hns n hn with ⟨y, hid⟩
    exact terminalsInside_eq_insideAt h hid
  rw [Region.univariate, hinside, ok_bind, Region.lone, if_pos hon]
  rfl

/-- Visiting what a region owns is visiting what it holds. -/
theorem owned_eq_visitAll {ps : List TerminalId} (hps : ∀ p ∈ ps, g.hasTerminal p = true)
    (t : Traversal) :
    r.owned g t ps = Traversal.visitAll g (some r) t (ps.filter (r.holds g)) := by
  -- The induction is on what is wanted; what the region does not hold is passed over.
  induction ps generalizing t with
  | nil => rfl
  | cons p ps ih =>
    have hps' : ∀ q ∈ ps, g.hasTerminal q = true := fun q hq => hps q (List.mem_cons_of_mem p hq)
    rw [Region.owned, owns_eq_ok h (hps p List.mem_cons_self), ok_bind]
    cases hholds : r.holds g p with
    | true =>
      rw [if_pos rfl, List.filter_cons_of_pos hholds, Traversal.visitAll_eq_foldlM,
        List.foldlM_cons]
      refine bind_congr fun u => ?_
      rw [ih hps' u, Traversal.visitAll_eq_foldlM]
    | false =>
      rw [if_neg Bool.false_ne_true,
        List.filter_cons_of_neg (by rw [hholds]; exact Bool.false_ne_true)]
      exact ih hps' t

theorem wrapOutputs_eq_listed {wraps : List TimeWrap}
    (hwraps : ∀ w ∈ wraps, g.hasTerminal w.output = true) :
    r.wrapOutputs g wraps =
      listed g (some r) ((wraps.map TimeWrap.output).filter (r.holds g)) := by
  unfold Region.wrapOutputs listed
  rw [owned_eq_visitAll h]
  intro p hp
  rcases List.mem_map.1 hp with ⟨w, hw, rfl⟩
  exact hwraps w hw

/-- A tap that is not refused leads to the terminals it needs. -/
theorem terminals_eq_ok {ε : Type} {tap : Tap} (htap : Partition.tapFault g tap = none) :
    (tap.terminals g : Except (Failure ε) (List TerminalId)) = .ok (tap.sides g) ∧
      ∀ p ∈ tap.sides g, g.hasTerminal p = true := by
  cases tap with
  | terminal q =>
    refine ⟨rfl, fun p hp => ?_⟩
    rw [List.mem_singleton.1 hp]
    exact Partition.tapFault_terminal.1 htap
  | edge e =>
    -- The edge of a tap is there, and its sides are on it.
    have he : g.hasEdge e = true := Partition.tapFault_edge.1 htap
    refine ⟨?_, fun p hp => Graph.hasTerminal_of_edge? ((mem_sidesOf h).1 hp)⟩
    have hedge := Array.getElem?_eq_getElem (of_decide_eq_true he)
    rw [Tap.terminals, Graph.edge, hedge, handled_some, ok_bind, Tap.sides, Graph.sidesOf, hedge]
    rfl

/-- What is tapped is listed for the sides of the taps. -/
theorem tapped_eq_listed {taps : List Tap} (htaps : ∀ tap ∈ taps, Partition.tapFault g tap = none) :
    r.tapped g taps =
      listed g (some r) (taps.flatMap fun tap => (tap.sides g).filter (r.holds g)) := by
  -- Tap by tap, what is visited are the sides that the region holds.
  have htap : ∀ tap ∈ taps, ∀ t : Traversal, (tap.terminals g >>= fun ts => r.owned g t ts) =
      Traversal.visitAll g (some r) t ((tap.sides g).filter (r.holds g)) := by
    intro tap hmem t
    rcases terminals_eq_ok (ε := ScheduleError) h (htaps tap hmem) with ⟨hsides, hthere⟩
    rw [hsides, ok_bind]
    exact owned_eq_visitAll h hthere t
  unfold Region.tapped listed
  rw [Traversal.foldlM_eq_visitAll htap]

end Parts

section Requests

variable {g : Graph} {p : Partition} {config : Config} {r : Region} {x q t : TerminalId}
  {ns : List NodeId}

/-- A terminal that is alone at its node needs nothing of the region. -/
theorem Alone.not_needs (hx : Alone g r x) : ¬ Needs g (some r) x q := by
  rintro ⟨y, hy, hne, hin, _⟩
  exact hne (hx.2 y hy hin)

theorem Alone.hasTerminal (hx : Alone g r x) : g.hasTerminal x = true := by
  rcases inside_iff.1 hx.1.1 with ⟨e, he, _⟩
  exact Graph.hasTerminal_of_edge? he

variable (h : g.WellFormed)

include h

/-- What is needed inside a region is held by it. -/
theorem holds_of_dependsOn (ht : r.holds g t = true) (hx : DependsOn g (some r) t x) :
    r.holds g x = true := by
  cases hx with
  | refl => exact ht
  | tail _ hneed =>
    rcases hneed with ⟨y, _, _, hin, hq, _⟩
    exact holds_of_inside (inside_partner h hin hq)

theorem Requested.holds (ht : Requested g p config r t) (hthere : g.hasTerminal t = true) :
    r.holds g t = true := by
  -- Owning and holding are one for a terminal that is there.
  have howned : ∀ z, g.hasTerminal z = true →
      (r.owns g z : Except (Failure ScheduleError) Bool) = .ok true → r.holds g z = true := by
    intro z hz howns
    rw [owns_eq_ok h hz] at howns
    exact Except.ok.inj howns
  cases ht with
  | sender y _ hy hq => exact holds_of_inside (inside_partner h hy.1 hq)
  | wrap w _ _ howns => exact howned _ hthere howns
  | tap tap ts _ _ _ _ _ howns => exact howned _ hthere howns

/-- What is requested are the targets of the three parts that are listed. -/
theorem requested_iff (hp : p.Divides g)
    (hns : ∀ n, n ∈ ns ↔ ∃ y, g.nodeIdOf? y = some n ∧ AtBoundary g r y) :
    Requested g p config r t ↔
      t ∈ r.senders g ns ∨ t ∈ p.wrapTargets g config r ∨ t ∈ p.tapTargets g config r := by
  -- Targets are requests of the three kinds, with what the region holds in place of what it owns.
  have hwraps : t ∈ p.wrapTargets g config r ↔
      config.timeWraps = true ∧ (∃ w ∈ p.timeWraps, w.output = t) ∧ r.holds g t = true := by
    rw [Partition.wrapTargets, List.mem_ite_nil_right, List.mem_filter, List.mem_map]
  have htaps : t ∈ p.tapTargets g config r ↔
      config.taps = true ∧ ∃ tap ∈ p.taps, t ∈ tap.sides g ∧ r.holds g t = true := by
    rw [Partition.tapTargets, List.mem_ite_nil_right, List.mem_flatMap]
    simp only [List.mem_filter]
  rw [mem_senders h hns, hwraps, htaps]
  constructor
  · intro ht
    cases ht with
    | sender y _ hy hq => exact Or.inl ⟨y, hy, hq⟩
    | wrap w hon hw howns =>
      rw [owns_eq_ok h (hp.wraps w hw)] at howns
      exact Or.inr (Or.inl ⟨hon, ⟨w, hw, rfl⟩, Except.ok.inj howns⟩)
    | tap tap ts _ hon htap hts ht howns =>
      rcases terminals_eq_ok (ε := ScheduleError) h (hp.taps tap htap) with ⟨hsides, hthere⟩
      rw [hsides, Except.ok.injEq] at hts
      rw [← hts] at ht
      rw [owns_eq_ok h (hthere t ht)] at howns
      exact Or.inr (Or.inr ⟨hon, tap, htap, ht, Except.ok.inj howns⟩)
  · rintro (⟨y, hy, hq⟩ | ⟨hon, ⟨w, hw, rfl⟩, hholds⟩ | ⟨hon, tap, htap, ht, hholds⟩)
    · exact Requested.sender y t hy hq
    · exact Requested.wrap w hon hw (by rw [owns_eq_ok h (hp.wraps w hw), hholds])
    · rcases terminals_eq_ok (ε := ScheduleError) h (hp.taps tap htap) with ⟨hsides, hthere⟩
      exact Requested.tap tap _ t hon htap hsides ht (by rw [owns_eq_ok h (hthere t ht), hholds])

end Requests

/-- What the schedule of a region is: in order and without repeats, owned by the region, with no
    loose terminal at its nodes but where it lists a terminal that is alone; and what it lists is
    what the requests depend on, and if wanted what is alone. -/
structure Scheduled (g : Graph) (p : Partition) (config : Config) (r : Region)
    (s : Schedule) : Prop where
  nodup : s.Nodup
  inOrder : InOrder g (some r) s
  there : ∀ x ∈ s, g.hasTerminal x = true
  owned : ∀ x ∈ s, r.holds g x = true
  tight : ∀ x ∈ s, (config.univariateOutbounds = true ∧ Alone g r x) ∨ ∀ y, ¬ Loose g x y
  mem_iff : ∀ x, x ∈ s ↔ (∃ t, Requested g p config r t ∧ DependsOn g (some r) t x) ∨
    config.univariateOutbounds = true ∧ Alone g r x

section Schedules

variable {g : Graph} {p : Partition} {config : Config} {r : Region} {id : RegionId} {s : Schedule}
  {sideBySide : Partition.Gathering}
  {ns : List NodeId}

/-- Parts that list what is requested, with what is alone among them, are a schedule. -/
theorem scheduled_of_parts (h : g.WellFormed) {inbound univariate wraps taps : Schedule}
    (hinbound : Workable g (some r) inbound) (hwraps : Workable g (some r) wraps)
    (htaps : Workable g (some r) taps)
    (hmem : ∀ x, x ∈ inbound ∨ x ∈ wraps ∨ x ∈ taps ↔
      ∃ t, Requested g p config r t ∧ DependsOn g (some r) t x)
    (hunivariate : ∀ x, x ∈ univariate ↔ config.univariateOutbounds = true ∧ Alone g r x) :
    Scheduled g p config r (distinct (inbound ++ univariate ++ wraps ++ taps)) := by
  have hall : ∀ x, x ∈ distinct (inbound ++ univariate ++ wraps ++ taps) ↔
      (x ∈ inbound ∨ x ∈ wraps ∨ x ∈ taps) ∨ x ∈ univariate := by
    intro x
    simp only [mem_distinct, List.mem_append, or_assoc]
    rw [or_comm (a := x ∈ univariate), or_assoc]
  have hthere : ∀ x, x ∈ inbound ∨ x ∈ wraps ∨ x ∈ taps → g.hasTerminal x = true := by
    rintro x (hx | hx | hx)
    · exact hinbound.there x hx
    · exact hwraps.there x hx
    · exact htaps.there x hx
  -- What is alone needs nothing, so it can stand anywhere.
  have halone : InOrder g (some r) univariate :=
    inOrder_of_not_needs fun x hx q => ((hunivariate x).1 hx).2.not_needs
  refine ⟨nodup_distinct _, ?_, fun x hx => ?_, fun x hx => ?_, fun x hx => ?_, fun x => ?_⟩
  · -- Each part is in order by itself, and so are all of them one behind the other, without
    -- repeats.
    exact (((hinbound.inOrder.append halone).append hwraps.inOrder).append htaps.inOrder).distinct
  · rcases (hall x).1 hx with hx | hx
    · exact hthere x hx
    · exact ((hunivariate x).1 hx).2.hasTerminal
  · rcases (hall x).1 hx with hx | hx
    · -- What is requested is itself in one of the parts, and so it is there.
      rcases (hmem x).1 hx with ⟨t, ht, hdue⟩
      have htarget := hthere t ((hmem t).2 ⟨t, ht, ReflTransGen.refl⟩)
      exact holds_of_dependsOn h (ht.holds h htarget) hdue
    · exact holds_of_inside ((hunivariate x).1 hx).2.1.1
  · rcases (hall x).1 hx with (hx | hx | hx) | hx
    · exact Or.inr (hinbound.tight x hx)
    · exact Or.inr (hwraps.tight x hx)
    · exact Or.inr (htaps.tight x hx)
    · exact Or.inl ((hunivariate x).1 hx)
  · rw [hall, hmem, hunivariate]

/-- Each part stands for itself, and one that is not wanted is empty. -/
theorem scheduleOf_eq (hr : p.region? id = some r) : p.scheduleOf g config id =
    (r.boundary g >>= fun boundary => r.inbound g boundary >>= fun inbound =>
      (if config.univariateOutbounds = true then r.univariate g boundary else pure []) >>=
        fun univariate =>
      (if config.timeWraps = true then r.wrapOutputs g p.timeWraps else pure []) >>= fun wraps =>
      (if config.taps = true then r.tapped g p.taps else pure []) >>= fun taps =>
      pure (distinct (inbound ++ univariate ++ wraps ++ taps))) := by
  unfold Partition.scheduleOf
  rw [hr]
  cases config.univariateOutbounds with
  | true =>
    cases config.timeWraps with
    | true => cases config.taps <;> rfl
    | false => cases config.taps <;> rfl
  | false =>
    cases config.timeWraps with
    | true => cases config.taps <;> rfl
    | false => cases config.taps <;> rfl

/-- The schedule of a region is put together from what is listed for the targets of its parts, if
    what is wanted is there. -/
theorem scheduleOf_eq_listed (h : g.WellFormed) (hr : p.region? id = some r) (config : Config)
    (hboundary : r.boundary g = (.ok ns : Except (Failure ScheduleError) _))
    (hns : ∀ n ∈ ns, ∃ y, g.nodeIdOf? y = some n)
    (hwraps : ∀ w ∈ p.timeWraps, g.hasTerminal w.output = true)
    (htaps : ∀ tap ∈ p.taps, Partition.tapFault g tap = none) :
    p.scheduleOf g config id =
      (listed g (some r) (r.senders g ns) >>= fun inbound =>
        listed g (some r) (p.wrapTargets g config r) >>= fun wraps =>
          listed g (some r) (p.tapTargets g config r) >>= fun taps =>
            pure (distinct (inbound ++ r.lone g config ns ++ wraps ++ taps))) := by
  -- A part that is not wanted is the list for no targets.
  have hlone : (if config.univariateOutbounds = true then r.univariate g ns else pure []) =
      .ok (r.lone g config ns) := by
    by_cases hon : config.univariateOutbounds = true
    · rw [if_pos hon, univariate_eq_ok h hon hns]
    · rw [if_neg hon, Region.lone, if_neg hon]
      rfl
  have hwraps : (if config.timeWraps = true then r.wrapOutputs g p.timeWraps else pure []) =
      listed g (some r) (p.wrapTargets g config r) := by
    unfold Partition.wrapTargets
    rw [wrapOutputs_eq_listed h hwraps, apply_ite (listed g (some r)), listed_nil]
    rfl
  have htaps : (if config.taps = true then r.tapped g p.taps else pure []) =
      listed g (some r) (p.tapTargets g config r) := by
    unfold Partition.tapTargets
    rw [tapped_eq_listed h htaps, apply_ite (listed g (some r)), listed_nil]
    rfl
  rw [scheduleOf_eq hr, hboundary, ok_bind, inbound_eq_listed h hns, hlone, hwraps, htaps]
  rfl

/-- The boundary of a region of a partition has the nodes of its terminals at the boundary, and the
    schedule is put together there. -/
theorem scheduleOf_eq_listed_of_divides (h : g.WellFormed) (hp : p.Divides g)
    (hr : p.region? id = some r) (config : Config) :
    ∃ ns, r.boundary g = (.ok ns : Except (Failure ScheduleError) _) ∧
      (∀ n, n ∈ ns ↔ ∃ y, g.nodeIdOf? y = some n ∧ AtBoundary g r y) ∧
      p.scheduleOf g config id =
        (listed g (some r) (r.senders g ns) >>= fun inbound =>
          listed g (some r) (p.wrapTargets g config r) >>= fun wraps =>
            listed g (some r) (p.tapTargets g config r) >>= fun taps =>
              pure (distinct (inbound ++ r.lone g config ns ++ wraps ++ taps))) := by
  rcases mem_boundary_iff (ε := ScheduleError) h hp hr with ⟨ns, hboundary, _, hns⟩
  refine ⟨ns, hboundary, hns, ?_⟩
  refine scheduleOf_eq_listed h hr config hboundary (fun n hn => ?_) hp.wraps hp.taps
  rcases (hns n).1 hn with ⟨y, hid, _⟩
  exact ⟨y, hid⟩

/-- The schedule of a region of a partition is found, or something is refused for a cause. -/
theorem scheduleOf_cases (h : g.WellFormed) (hp : p.Divides g) (hr : p.region? id = some r)
    (config : Config) :
    (∃ s, p.scheduleOf g config id = .ok s ∧ Scheduled g p config r s) ∨
      ∃ e, p.scheduleOf g config id = .error (.cause e) := by
  rcases scheduleOf_eq_listed_of_divides h hp hr config with ⟨ns, _, hns, heq⟩
  rw [heq]
  rcases Traversal.listed_cases h (some r) (r.senders g ns) with
    ⟨inbound, hinbound, hwinbound, hminbound⟩ | ⟨e, he⟩
  · rcases Traversal.listed_cases h (some r) (p.wrapTargets g config r) with
      ⟨wraps, hwraps, hwwraps, hmwraps⟩ | ⟨e, he⟩
    · rcases Traversal.listed_cases h (some r) (p.tapTargets g config r) with
        ⟨taps, htaps, hwtaps, hmtaps⟩ | ⟨e, he⟩
      · -- Nothing was refused in the three parts.
        rw [hinbound, ok_bind, hwraps, ok_bind, htaps, ok_bind]
        refine Or.inl ⟨_, rfl, scheduled_of_parts h hwinbound hwwraps hwtaps (fun x => ?_)
          fun x => mem_lone h hns config⟩
        simp only [hminbound, hmwraps, hmtaps, requested_iff h hp hns, or_and_right, exists_or]
      · rw [hinbound, ok_bind, hwraps, ok_bind, he, error_bind]
        exact Or.inr ⟨e, rfl⟩
    · rw [hinbound, ok_bind, he, error_bind]
      exact Or.inr ⟨e, rfl⟩
  · rw [he, error_bind]
    exact Or.inr ⟨e, rfl⟩

/-- What is found for a region of a partition is a schedule of it. -/
theorem scheduled_of_scheduleOf (h : g.WellFormed) (hp : p.Divides g) (hr : p.region? id = some r)
    (hs : p.scheduleOf g config id = .ok s) : Scheduled g p config r s := by
  rcases scheduleOf_cases h hp hr config with ⟨s', hs', hscheduled⟩ | ⟨e, he⟩
  · -- There is only one schedule found.
    rw [hs, Except.ok.injEq] at hs'
    rw [hs']
    exact hscheduled
  · rw [hs] at he
    exact nomatch he

/-- The schedule of a region has no repeats, and the region owns all of it; wherever an edge of the
    region arrives at the node of an entry, the partner there holds a message or stands before the
    entry; and it lists what the requests to the region depend on, and if wanted the terminals that
    are alone at the boundary, and nothing else. -/
theorem scheduleOf_lists_requests (hg : Reachable g) (hp : p.BuiltOn g)
    (hr : p.region? id = some r) (hs : p.scheduleOf g config id = .ok s) :
    s.Nodup ∧ (∀ x ∈ s, (r.owns g x : Except (Failure ScheduleError) Bool) = .ok true) ∧
      (∀ (i : Nat) x, s[i]? = some x → ∀ y ∈ g.ports x, y ≠ x → Inside g (some r) y →
        ∃ q, g.partner? y = some q ∧ (g.message? q ≠ none ∨ ∃ j, j < i ∧ s[j]? = some q)) ∧
      ∀ x, x ∈ s ↔ (∃ t, Requested g p config r t ∧ DependsOn g (some r) t x) ∨
        config.univariateOutbounds = true ∧ Alone g r x := by
  have h := Graph.wellFormed_of_reachable hg
  have hscheduled := scheduled_of_scheduleOf h (Partition.divides_of_builtOn h hp) hr hs
  refine ⟨hscheduled.nodup, fun x hx => ?_, fun i x hx y hy hne hin => ?_, hscheduled.mem_iff⟩
  · rw [owns_eq_ok h (hscheduled.there x hx), hscheduled.owned x hx]
  · rcases inside_iff.1 hin with ⟨e, he, _⟩
    rcases h.partner?_isSome_of_edge? he with ⟨q, hq⟩
    refine ⟨q, hq, ?_⟩
    -- Without a message the partner is needed, and what is needed stands before.
    cases hm : g.message? q with
    | some m => exact Or.inl (Option.some_ne_none m)
    | none => exact Or.inr (hscheduled.inOrder.exists_lt hx ⟨y, hy, hne, hin, hq, hm⟩)

/-! ### All regions -/

namespace Partition

/-- Schedules of several regions are gathered in the order of the regions, and if there is a region
    without one, then one of those answers for all. -/
structure Gathers (sideBySide : Gathering) : Prop where
  ok_iff : ∀ schedule ids ss, sideBySide schedule ids = .ok ss ↔ ids.mapM schedule = .ok ss
  exists_error : ∀ schedule ids e, sideBySide schedule ids = .error e →
    ∃ id ∈ ids, schedule id = .error e

theorem gathers_inTurn : Gathers inTurn :=
  ⟨fun _ _ _ => Iff.rfl, fun _ _ _ he => exists_of_mapM_eq_error he⟩

theorem mem_regionIds : id ∈ p.regionIds ↔ id.index < p.regions.size := by
  rw [regionIds, List.mem_map]
  constructor
  · rintro ⟨i, hi, rfl⟩
    exact List.mem_range.1 hi
  · exact fun hi => ⟨id.index, List.mem_range.2 hi, rfl⟩

/-- Side by side or in turn, there are schedules exactly if each region has its own. -/
theorem Gathers.schedules_eq_ok (hgathers : Gathers sideBySide) {ss : List Schedule} :
    p.schedules sideBySide g config = .ok ss ↔
      p.regionIds.mapM (p.scheduleOf g config) = .ok ss := by
  unfold schedules
  split
  · exact hgathers.ok_iff _ _ _
  · exact gathers_inTurn.ok_iff _ _ _

theorem Gathers.exists_of_schedules_eq_error (hgathers : Gathers sideBySide)
    {e : Failure ScheduleError} (he : p.schedules sideBySide g config = .error e) :
    ∃ id, id.index < p.regions.size ∧ p.scheduleOf g config id = .error e := by
  -- Side by side it is one of the refusals, and in turn the first.
  have hregion : ∃ id ∈ p.regionIds, p.scheduleOf g config id = .error e := by
    unfold schedules at he
    split at he
    · exact hgathers.exists_error _ _ _ he
    · exact gathers_inTurn.exists_error _ _ _ he
  rcases hregion with ⟨id, hid, he⟩
  exact ⟨id, mem_regionIds.1 hid, he⟩

/-- Storing schedules from one region on changes these regions, and of them the schedules. -/
theorem foldl_withSchedule (ss : List Schedule) (p : Partition) (n : Nat) :
    let q := (ss.zipIdx n).foldl (fun p entry => p.withSchedule ⟨entry.2⟩ entry.1) p
    q = { p with regions := q.regions } ∧ q.regions.size = p.regions.size ∧
      (∀ i, i < n → q.regions[i]? = p.regions[i]?) ∧
      ∀ (i : Nat) s, ss[i]? = some s →
        q.regions[n + i]? = p.regions[n + i]?.map fun r => { r with schedule := s } := by
  -- The induction is on the schedules, with the place of the first one given.
  induction ss generalizing p n with
  | nil => exact ⟨rfl, rfl, fun _ _ => rfl, fun i s hs => nomatch hs⟩
  | cons s ss ih =>
    simp only [List.zipIdx_cons, List.foldl_cons]
    rcases ih (p.withSchedule ⟨n⟩ s) (n + 1) with ⟨hframe, hsize, hbefore, hafter⟩
    refine ⟨hframe, hsize.trans Array.size_modify, fun i hi => ?_, fun i s' hs' => ?_⟩
    · rw [hbefore i (Nat.lt_succ_of_lt hi), withSchedule, Array.getElem?_modify,
        if_neg (Nat.ne_of_gt hi)]
    · cases i with
      | zero =>
        -- The first schedule is stored at once, and its region is not met again.
        rw [List.getElem?_cons_zero, Option.some.injEq] at hs'
        rw [Nat.add_zero n, hbefore n (Nat.lt_succ_self n), withSchedule, Array.getElem?_modify,
          if_pos rfl, hs']
      | succ i =>
        rw [show n + (i + 1) = n + 1 + i by omega, hafter i s' hs', withSchedule,
          Array.getElem?_modify, if_neg (by simp only; omega)]

theorem scheduleAll_eq_ok {q : Partition} :
    p.scheduleAll sideBySide g config = (.ok (), q) ↔
      ∃ ss, p.schedules sideBySide g config = .ok ss ∧ p.withSchedules ss = q := by
  unfold scheduleAll
  cases p.schedules sideBySide g config <;> simp

theorem scheduleAll_eq_error {q : Partition} {e : Failure ScheduleError} :
    p.scheduleAll sideBySide g config = (.error e, q) ↔
      p.schedules sideBySide g config = .error e ∧ p = q := by
  unfold scheduleAll
  cases p.schedules sideBySide g config <;> simp

end Partition

/-- Where all regions are scheduled, each stores its schedule, and nothing else changes. -/
theorem regions_of_scheduleAll (hgathers : Partition.Gathers sideBySide) {q : Partition}
    (hq : p.scheduleAll sideBySide g config = (.ok (), q)) :
    q = { p with regions := q.regions } ∧ q.regions.size = p.regions.size ∧
      ∀ (i : Nat) r, p.regions[i]? = some r → ∃ s, p.scheduleOf g config ⟨i⟩ = .ok s ∧
        q.regions[i]? = some { r with schedule := s } := by
  rcases Partition.scheduleAll_eq_ok.1 hq with ⟨ss, hss, rfl⟩
  rcases mapM_eq_ok_iff.1 (hgathers.schedules_eq_ok.1 hss) with ⟨_, hplaces⟩
  rcases Partition.foldl_withSchedule ss p 0 with ⟨hframe, hsize, _, hstored⟩
  refine ⟨hframe, hsize, fun i r hr => ?_⟩
  -- The identifier of a region has the place of the region.
  have hid : p.regionIds[i]? = some ⟨i⟩ := by
    rw [Partition.regionIds, List.getElem?_map,
      List.getElem?_range (Array.getElem?_eq_some_iff.1 hr).1]
    rfl
  rcases hplaces i ⟨i⟩ hid with ⟨s, hs, hscheduled⟩
  refine ⟨s, hscheduled, ?_⟩
  have hget := hstored i s hs
  rw [Nat.zero_add, hr] at hget
  exact hget

/-- Every region after all are scheduled is one of before, with its schedule. -/
theorem region_of_scheduleAll (hgathers : Partition.Gathers sideBySide) {q : Partition}
    (hq : p.scheduleAll sideBySide g config = (.ok (), q)) {i : Nat}
    (hi : q.regions[i]? = some r) : ∃ r' s, p.regions[i]? = some r' ∧
      p.scheduleOf g config ⟨i⟩ = .ok s ∧ r = { r' with schedule := s } := by
  rcases regions_of_scheduleAll hgathers hq with ⟨_, hsize, hplaces⟩
  have hlt : i < p.regions.size := hsize ▸ (Array.getElem?_eq_some_iff.1 hi).1
  rcases hplaces i p.regions[i] (Array.getElem?_eq_getElem hlt) with ⟨s, hs, hget⟩
  rw [hi, Option.some.injEq] at hget
  exact ⟨p.regions[i], s, Array.getElem?_eq_getElem hlt, hs, hget⟩

/-- Scheduling all regions is refused only where a region is, and then nothing is stored. -/
theorem exists_of_scheduleAll_eq_error (hgathers : Partition.Gathers sideBySide) {q : Partition}
    {e : Failure ScheduleError} (he : p.scheduleAll sideBySide g config = (.error e, q)) :
    q = p ∧ ∃ i, i < p.regions.size ∧ p.scheduleOf g config ⟨i⟩ = .error e := by
  rcases Partition.scheduleAll_eq_error.1 he with ⟨hfailed, rfl⟩
  rcases hgathers.exists_of_schedules_eq_error hfailed with ⟨id, hid, hrefused⟩
  exact ⟨rfl, id.index, hid, hrefused⟩

/-- The schedule of a region with some boundary nodes, if a number of steps is enough for each of
    its targets. -/
def Partition.scheduleWithin (p : Partition) (g : Graph) (config : Config) (r : Region)
    (steps : Nat) (ns : List NodeId) : Option Schedule := do
  let inbound ← Traversal.listedWithin g (some r) steps (r.senders g ns)
  let wraps ← Traversal.listedWithin g (some r) steps (p.wrapTargets g config r)
  let taps ← Traversal.listedWithin g (some r) steps (p.tapTargets g config r)
  return (inbound ++ r.lone g config ns ++ wraps ++ taps).eraseDups

theorem scheduleOf_eq_of_scheduleWithin (h : g.WellFormed) (hp : p.Divides g)
    (hr : p.region? id = some r)
    (hboundary : r.boundary g = (.ok ns : Except (Failure ScheduleError) _)) (steps : Nat)
    (hs : p.scheduleWithin g config r steps ns = some s) : p.scheduleOf g config id = .ok s := by
  rcases Option.bind_eq_some_iff.1 hs with ⟨inbound, hinbound, hs⟩
  rcases Option.bind_eq_some_iff.1 hs with ⟨wraps, hwraps, hs⟩
  rcases Option.bind_eq_some_iff.1 hs with ⟨taps, htaps, hs⟩
  -- Each of the three lists is what the traversal finds in these steps.
  rcases scheduleOf_eq_listed_of_divides h hp hr config with ⟨ns', hboundary', _, heq⟩
  rw [hboundary, Except.ok.injEq] at hboundary'
  rw [heq, ← hboundary', Traversal.listed_eq_of_listedWithin hinbound, ok_bind,
    Traversal.listed_eq_of_listedWithin hwraps, ok_bind,
    Traversal.listed_eq_of_listedWithin htaps, ok_bind, ← Option.some.inj hs,
    distinct_eq_eraseDups]
  rfl

/-- A source, a relay and a sink in a row. -/
def relayGraph : Graph :=
  (Graph.empty ⟨1⟩).applyAll [
    .addNamedNode "source" "Source" ["out"], .addNamedNode "relay" "Relay" ["in1", "out"],
    .addNamedNode "sink" "Sink" ["in1"], .connect ⟨0⟩ ⟨1⟩ none, .connect ⟨2⟩ ⟨3⟩ none]

/-- A region with one edge of two, where the other one is next to it. -/
def halfOfTwo (own other : Nat) : Region :=
  { id := ⟨own⟩, inner := (∅ : Std.ExtTreeSet EdgeId).insert ⟨own⟩
    outer := (∅ : Std.ExtTreeSet EdgeId).insert ⟨other⟩, schedule := [] }

/-- Two regions that meet at a node, with an edge each. -/
def halves : Partition :=
  { Partition.empty with
    regions := #[halfOfTwo 0 1, halfOfTwo 1 0]
    regionOf := ((∅ : Std.ExtTreeMap EdgeId RegionId).insert ⟨0⟩ ⟨0⟩).insert ⟨1⟩ ⟨1⟩ }

theorem reachable_relayGraph : Reachable relayGraph := (Reachable.empty _).applyAll _

theorem builtOn_relayGraph : halves.BuiltOn relayGraph := by
  refine Partition.BuiltOn.groups [[⟨0⟩], [⟨1⟩]] halves ?_
  simp only [Partition.ofGroups, Partition.regionOfGroup, Partition.outerEdges, Region.nodes,
    distinct_eq_eraseDups]
  exact toOption_eq_some.1 (by decide +kernel)

/-- The relay is at the boundary of both halves. -/
theorem boundary_relayGraph {r : Region} (hr : r = halfOfTwo 0 1 ∨ r = halfOfTwo 1 0) :
    r.boundary relayGraph = (.ok [⟨⟨1⟩, 1⟩] : Except (Failure ScheduleError) _) := by
  rcases hr with rfl | rfl
  · simp only [Region.boundary, Region.nodes, distinct_eq_eraseDups]
    exact toOption_eq_some.1 (by decide +kernel)
  · simp only [Region.boundary, Region.nodes, distinct_eq_eraseDups]
    exact toOption_eq_some.1 (by decide +kernel)

/-- The half of the source sends into the relay, and the relay, alone there, sends back. -/
theorem scheduleOf_relayGraph_source :
    halves.scheduleOf relayGraph {} ⟨0⟩ = .ok [⟨0⟩, ⟨1⟩] := by
  have h := Graph.wellFormed_of_reachable reachable_relayGraph
  have hp := Partition.divides_of_builtOn h builtOn_relayGraph
  exact scheduleOf_eq_of_scheduleWithin h hp rfl (boundary_relayGraph (Or.inl rfl)) 4
    (by decide +kernel)

/-- The half of the source is asked for what the source sends, which needs nothing, and lists it
    before what the relay sends back. -/
theorem scheduleOf_lists_requests_relay :
    Reachable relayGraph ∧ halves.BuiltOn relayGraph ∧
      halves.region? ⟨0⟩ = some (halfOfTwo 0 1) ∧
      halves.scheduleOf relayGraph {} ⟨0⟩ = .ok [⟨0⟩, ⟨1⟩] ∧
      ∀ x, x ∈ [(⟨0⟩ : TerminalId), ⟨1⟩] ↔
        (∃ t, Requested relayGraph halves {} (halfOfTwo 0 1) t ∧
          DependsOn relayGraph (some (halfOfTwo 0 1)) t x) ∨
        ({} : Config).univariateOutbounds = true ∧ Alone relayGraph (halfOfTwo 0 1) x := by
  refine ⟨reachable_relayGraph, builtOn_relayGraph, rfl, scheduleOf_relayGraph_source, ?_⟩
  exact (scheduleOf_lists_requests reachable_relayGraph builtOn_relayGraph rfl
    scheduleOf_relayGraph_source).2.2.2

end Schedules

end MessagePlan
