import MessagePlan.Proofs.Outcomes
import MessagePlan.Proofs.Partition.Growth

/-!
# Schedules Have Answers

Whatever terminal a schedule is asked for, and whatever region restricts it, there is a list of
terminals that are there, or something is refused for a cause. The terminal itself may be made up:
it is looked at before it is trusted.

All schedules are what a traversal lists for some targets, and so one lemma about `listed` carries
the others. A region is asked for its nodes before that, and these are found by its edges. Therefore
it has to be known that the edges are there, which is what `Partition.Fits` says; but it does not
matter whether the partition still divides the graph.

## Theorems

* `answers_listed`: What is listed for any targets is there.
* `answers_schedule`, `answers_completePartial`: Schedules for a terminal and for a given order.
* `answers_scheduleOf`, `answers_scheduleAll`: Schedules of the regions of a partition.
-/

namespace MessagePlan

variable {g : Graph} {p : Partition} {r : Region} {x : TerminalId} {ns : List NodeId}

theorem answers_listed (h : g.WellFormed) (scope : Option Region) (targets : List TerminalId) :
    Answers (listed g scope targets) g.HasAll := by
  rcases Traversal.listed_cases h scope targets with ⟨s, hs, hworkable, _⟩ | ⟨e, he⟩
  · exact answers_of_eq_ok hs hworkable.there
  · exact answers_of_eq_cause he

/-- The schedule for a terminal is what is listed for it alone. -/
theorem schedule_eq_listed (g : Graph) (target : TerminalId) (scope : Option Region) :
    g.schedule target scope = listed g scope [target] := by
  unfold Graph.schedule listed
  rw [Traversal.visitAll]
  cases Traversal.visit g scope (.start g) target with
  | error e => rfl
  | ok t => rfl

theorem answers_schedule (h : g.WellFormed) (target : TerminalId) (scope : Option Region) :
    Answers (g.schedule target scope) g.HasAll := by
  rw [schedule_eq_listed]
  exact answers_listed h scope [target]

/-- Entries are refused if they are not there, before it is asked who owns them. -/
theorem answers_checkEntries (h : g.WellFormed) (r : Region) (entries : Schedule) :
    Answers (g.checkEntries r entries) fun _ => True := by
  induction entries with
  | nil => exact trivial
  | cons x entries ih =>
    unfold Graph.checkEntries
    cases hx : g.hasTerminal x with
    | false => exact trivial
    | true =>
      -- Refusals name the entry, which can be done for a terminal that is there.
      rcases h.label_eq_ok (ε := ScheduleError) x with ⟨l, hl⟩
      simp only [Bool.not_true, Bool.false_eq_true, if_false, owns_eq_ok h hx, ok_bind, hl]
      cases r.holds g x with
      | false => exact trivial
      | true => exact ih

theorem answers_completePartial (h : g.WellFormed) (entries : Schedule) (r : Region) :
    Answers (g.completePartial entries r) g.HasAll :=
  (answers_checkEntries h r entries).bind fun _ _ => answers_listed h (some r) entries

theorem hasTerminal_of_mem_lone {config : Config} (hx : x ∈ r.lone g config ns) :
    g.hasTerminal x = true := by
  unfold Region.lone at hx
  rcases List.mem_flatMap.1 (List.mem_ite_nil_right.1 hx).2 with ⟨ys, hys, hx⟩
  rcases List.mem_map.1 hys with ⟨n, _, rfl⟩
  -- Only terminals on an edge are inside a region, and these are there.
  have hon := (List.mem_filter.1 (List.mem_ite_nil_right.1 hx).2).2
  rcases isOn_iff.1 hon with ⟨e, he, _⟩
  exact Graph.hasTerminal_of_edge? he

/-- The schedule of a region has terminals that are there, if the partition fits the graph. -/
theorem answers_scheduleOf (h : g.WellFormed) (hp : p.Fits g) (config : Config) (id : RegionId) :
    Answers (p.scheduleOf g config id) g.HasAll := by
  cases hr : p.region? id with
  | none =>
    rw [Partition.scheduleOf, hr]
    exact answers_refuse _
  | some r =>
    rcases boundary_eq_ok (ε := ScheduleError) h (hp.there id.index r hr) with
      ⟨ns, hboundary, _, hns⟩
    have hnodes : ∀ n ∈ ns, ∃ y, g.nodeIdOf? y = some n := by
      intro n hn
      rcases (hns n).1 hn with ⟨y, hid, _⟩
      exact ⟨y, hid⟩
    -- The four parts are looked at one after the other; three of them are traversals.
    rw [scheduleOf_eq_listed h hr config hboundary hnodes hp.wraps hp.taps]
    refine (answers_listed h _ _).bind fun inbound hinbound => ?_
    refine (answers_listed h _ _).bind fun wraps hwraps => ?_
    refine (answers_listed h _ _).bind fun taps htaps x hx => ?_
    simp only [mem_distinct, List.mem_append] at hx
    rcases hx with ((hx | hx) | hx) | hx
    · exact hinbound x hx
    · exact hasTerminal_of_mem_lone hx
    · exact hwraps x hx
    · exact htaps x hx

/-- Where all regions are scheduled, the schedules that are stored have terminals that are there. -/
theorem answers_scheduleAll (h : g.WellFormed) (hp : p.Fits g) {sideBySide : Partition.Gathering}
    (hgathers : Partition.Gathers sideBySide) (config : Config) :
    Answers (p.scheduleAll sideBySide g config).1 fun _ => ∀ (i : Nat) r,
      (p.scheduleAll sideBySide g config).2.regions[i]? = some r → g.HasAll r.schedule := by
  rcases hq : p.scheduleAll sideBySide g config with ⟨e | ⟨⟩, q⟩
  · -- A region was refused, and that has a cause.
    rcases exists_of_scheduleAll_eq_error hgathers hq with ⟨_, i, _, he⟩
    rcases (answers_scheduleOf h hp config ⟨i⟩).exists_cause he with ⟨cause, rfl⟩
    exact trivial
  · intro i r hr
    rcases region_of_scheduleAll hgathers hq hr with ⟨r', s, _, hs, rfl⟩
    exact (answers_scheduleOf h hp config ⟨i⟩).of_eq_ok hs

end MessagePlan
