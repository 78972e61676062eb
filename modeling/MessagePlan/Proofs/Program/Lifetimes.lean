import Mathlib.Algebra.BigOperators.Group.List.Lemmas
import Mathlib.Algebra.GroupWithZero.Nat
import MessagePlan.Program.Report
import MessagePlan.Proofs.Program.Regions
import MessagePlan.Proofs.Program.Reordering

/-!
# How Long Messages Are Needed

The report on a program counts what there is, and it gives the largest distance between a step and
an earlier one that it reads. That distance is to tell how long a message has to be kept. The
report subtracts places without asking which one is the larger, and a step that read itself or a
later one would count as one that reads from no distance at all. No compiled program has such a
step: an argument is taken from the index of the steps there are, so it is a place behind which the
step itself is appended.

What a lifetime is good for is seen by running a program. An executor goes through the steps and
keeps the outputs of the last few of them, together with the places they came from. It gets stuck
where a step reads what is no longer there. With as many outputs as the report says it never gets
stuck, and all outputs are computed from the ones that the steps refer to; with fewer it does.

## Main definitions

* `Step.sources`, `Program.Reads`: The steps that a step reads.
* `Program.Backward`: Steps read earlier steps only.
* `Program.execute`: Run a program and keep only so many outputs.
* `Program.Evaluates`: Outputs are those of a program, whatever is kept of them.

## Theorems

* `lookup_take_history`, `executeFrom_cons`: What an executor keeps, and how it goes on.
* `exists_executeFrom_iff`: An executor succeeds if what is read lies among the outputs it keeps.
* `backward_of_compileScoped`: Compiled programs read backward.
* `sum_ruleCounts`, `total_arguments`: The counts of a report add up.
* `Backward.distance`, `Backward.exists_reads`: How far back a program reads.
* `Backward.exists_execute_iff`: How many outputs are enough to get through a program.
* `evaluates_of_execute`: An executor that gets through computes the outputs of the program.
* `Evaluates.unique`: There are no other outputs.
* `report_tells_lifetimes`: What the report on a compiled program tells.
-/

namespace MessagePlan

/-- The places of the steps whose messages a step is given, in the order of its arguments. -/
def Step.sources (s : Step) : List Nat :=
  s.arguments.filterMap fun
    | .step j => some j
    | _ => none

namespace Program

/-- The step in place `i` is given the message of the one in place `j`. -/
def Reads (p : Program) (i j : Nat) : Prop :=
  ∃ s, p.steps[i]? = some s ∧ .step j ∈ s.arguments

/-- Steps read earlier steps only, and the index leads to steps that are there. -/
structure Backward (p : Program) : Prop where
  reads : ∀ i j, p.Reads i j → j < i
  indexed : p.Indexed

end Program

section Execution

variable {α : Type}

/-- The output of the step in place `j`, if it is still kept. -/
def fetch (kept : List (Nat × α)) (j : Nat) : Except Nat α :=
  match kept.lookup j with
  | some a => .ok a
  | none => .error j

/-- Go through some steps, the first of them in a given place, where `kept` has the outputs that
    are still there, the last one first. After each step the oldest of more than `keep` outputs is
    dropped. Where a step reads what is not there, that place is the failure. -/
def executeFrom (keep : Nat) (compute : Step → List α → α) (place : Nat) (kept : List (Nat × α)) :
    List Step → Except Nat (List α)
  | [] => return []
  | s :: rest => do
    let inputs ← s.sources.mapM (fetch kept)
    let output := compute s inputs
    let outputs ← executeFrom keep compute (place + 1) (((place, output) :: kept).take keep) rest
    return output :: outputs

namespace Program

/-- The outputs of all steps, computed with no more than the last `keep` outputs at hand. -/
def execute (p : Program) (keep : Nat) (compute : Step → List α → α) : Except Nat (List α) :=
  executeFrom keep compute 0 [] p.steps.toList

/-- Each step has an output, which is computed from those of the steps it reads. -/
structure Evaluates (p : Program) (compute : Step → List α → α) (outputs : List α) : Prop where
  length : outputs.length = p.steps.size
  output : ∀ (i : Nat) s, p.steps[i]? = some s → ∃ inputs,
    s.sources.map (fun j => outputs[j]?) = inputs.map some ∧ outputs[i]? = some (compute s inputs)

end Program

/-- Some outputs with their places, the last one first. -/
def history (outputs : List α) : List (Nat × α) := (outputs.zipIdx.map Prod.swap).reverse

theorem history_concat (outputs : List α) (a : α) :
    history (outputs ++ [a]) = (outputs.length, a) :: history outputs := by
  simp only [history, List.zipIdx_append, List.map_append, List.reverse_append, zero_add,
    List.zipIdx_cons, List.zipIdx_nil, List.map_cons, List.map_nil, Prod.swap_prod_mk,
    List.reverse_cons, List.reverse_nil, List.nil_append, List.singleton_append]

/-- To keep the last outputs of all is to keep the last of those that were kept. -/
theorem take_history_concat (keep : Nat) (outputs : List α) (a : α) :
    ((outputs.length, a) :: (history outputs).take keep).take keep =
      (history (outputs ++ [a])).take keep := by
  rw [history_concat]
  cases keep with
  | zero => rfl
  | succ keep =>
    rw [List.take_succ_cons, List.take_succ_cons, List.take_take, min_eq_left (Nat.le_succ keep)]

/-- Among the last outputs are those from the last few places. -/
theorem lookup_take_history (keep : Nat) (outputs : List α) (j : Nat) :
    ((history outputs).take keep).lookup j =
      if outputs.length ≤ j + keep then outputs[j]? else none := by
  -- The last output is the first one kept, and those before it leave room for one less.
  induction outputs using List.reverseRecOn generalizing keep with
  | nil => simp only [history, List.zipIdx_nil, List.map_nil, List.reverse_nil, List.take_nil,
      List.lookup_nil, List.getElem?_nil, ite_self]
  | append_singleton outputs a ih =>
    rw [history_concat]
    cases keep with
    | zero =>
      rw [List.take_zero, List.lookup_nil]
      split
      · rename_i hle
        exact (List.getElem?_eq_none hle).symm
      · rfl
    | succ keep =>
      rw [List.take_succ_cons, List.lookup_cons, ih, List.length_append, List.length_singleton]
      by_cases hj : j = outputs.length
      · simp only [hj, beq_self_eq_true, List.getElem?_concat_length]
        rw [if_pos (by omega)]
      · rw [beq_eq_false_iff_ne.2 hj]
        -- The new output is not the one asked for, and the others are one place further back.
        have hsame : (outputs ++ [a])[j]? = outputs[j]? := by
          rcases Nat.lt_or_ge j outputs.length with hlt | hge
          · exact List.getElem?_append_left hlt
          · rw [List.getElem?_eq_none hge, List.getElem?_eq_none]
            rw [List.length_append, List.length_singleton]
            omega
        rw [hsame]
        exact if_congr (by omega) rfl rfl

theorem fetch_eq_ok_iff {keep j : Nat} {outputs : List α} {a : α} :
    fetch ((history outputs).take keep) j = .ok a ↔
      outputs.length ≤ j + keep ∧ outputs[j]? = some a := by
  rw [fetch, lookup_take_history]
  split
  · rename_i heq
    -- What is found is kept still, and stands in its place among all outputs.
    rw [Option.ite_none_right_eq_some] at heq
    rw [heq.2, Except.ok.injEq, Option.some.injEq, and_iff_right heq.1]
  · rename_i heq
    simp only [reduceCtorEq, false_iff, not_and]
    intro hkept
    rw [if_pos hkept] at heq
    rw [heq]
    exact nofun

theorem exists_fetch_iff {keep j : Nat} {outputs : List α} :
    (∃ a, fetch ((history outputs).take keep) j = .ok a) ↔
      j < outputs.length ∧ outputs.length ≤ j + keep := by
  simp only [fetch_eq_ok_iff, List.getElem?_eq_some_iff]
  constructor
  · rintro ⟨a, hkept, hlt, _⟩
    exact ⟨hlt, hkept⟩
  · rintro ⟨hlt, hkept⟩
    exact ⟨outputs[j], hkept, hlt, rfl⟩

/-- What is fetched of some outputs are these outputs, also when more have been added. -/
theorem map_getElem?_of_fetch {keep : Nat} {outputs inputs : List α} {sources : List Nat}
    (h : sources.mapM (fetch ((history outputs).take keep)) = .ok inputs) (more : List α) :
    sources.map (fun j => (outputs ++ more)[j]?) = inputs.map some := by
  induction sources generalizing inputs with
  | nil =>
    rw [← Except.ok.inj h]
    rfl
  | cons j sources ih =>
    rw [List.mapM_cons] at h
    rcases bind_eq_ok.1 h with ⟨a, ha, h⟩
    rcases bind_eq_ok.1 h with ⟨others, hothers, h⟩
    -- What was fetched was there already, so that later outputs do not change it.
    have hplace := (fetch_eq_ok_iff.1 ha).2
    rw [← Except.ok.inj h, List.map_cons, List.map_cons, ih hothers,
      List.getElem?_append_left (List.getElem?_eq_some_iff.1 hplace).1, hplace]

variable {keep : Nat} {compute : Step → List α → α} {outputs more : List α} {steps : List Step}

/-- An executor that keeps the last of the outputs there are fetches what the next step reads, and
    goes on in the same way with one output more. -/
theorem executeFrom_cons (s : Step) (rest : List Step) :
    executeFrom keep compute outputs.length ((history outputs).take keep) (s :: rest) =
      s.sources.mapM (fetch ((history outputs).take keep)) >>= fun inputs =>
        executeFrom keep compute (outputs ++ [compute s inputs]).length
            ((history (outputs ++ [compute s inputs])).take keep) rest >>= fun more =>
          .ok (compute s inputs :: more) := by
  rw [executeFrom]
  refine bind_congr fun inputs => ?_
  rw [← take_history_concat, List.length_append, List.length_singleton]
  rfl

/-- An executor that has computed some outputs goes on to the end if all that is read lies among
    the last outputs when it is read. -/
theorem exists_executeFrom_iff :
    (∃ more, executeFrom keep compute outputs.length ((history outputs).take keep) steps =
      .ok more) ↔
    ∀ (k : Nat) s, steps[k]? = some s → ∀ j ∈ s.sources,
      j < outputs.length + k ∧ outputs.length + k ≤ j + keep := by
  -- With each step that is taken, the outputs become one more and the places one less.
  induction steps generalizing outputs with
  | nil =>
    refine ⟨fun _ k s hs => ?_, fun _ => ⟨[], rfl⟩⟩
    rw [List.getElem?_nil] at hs
    exact nomatch hs
  | cons s rest ih =>
    simp only [executeFrom_cons, bind_eq_ok]
    constructor
    · rintro ⟨more, inputs, hinputs, others, hothers, _⟩ k t ht j hj
      cases k with
      | zero =>
        rw [List.getElem?_cons_zero, Option.some.injEq] at ht
        rcases List.getElem?_of_mem (ht ▸ hj) with ⟨n, hn⟩
        rcases (mapM_eq_ok_iff.1 hinputs).2 n j hn with ⟨a, _, ha⟩
        exact exists_fetch_iff.1 ⟨a, ha⟩
      | succ k =>
        have hrest := ih.1 ⟨others, hothers⟩ k t ht j hj
        rw [List.length_append, List.length_singleton] at hrest
        omega
    · intro hreads
      have hhere : ∀ j ∈ s.sources, ∃ a, fetch ((history outputs).take keep) j = .ok a :=
        fun j hj => exists_fetch_iff.2 (hreads 0 s rfl j hj)
      rcases exists_mapM_eq_ok hhere with ⟨inputs, hinputs⟩
      have hrest : ∃ more, executeFrom keep compute (outputs ++ [compute s inputs]).length
          ((history (outputs ++ [compute s inputs])).take keep) rest = .ok more := by
        refine ih.2 fun k t ht j hj => ?_
        have hthere := hreads (k + 1) t ht j hj
        rw [List.length_append, List.length_singleton]
        omega
      rcases hrest with ⟨others, hothers⟩
      exact ⟨_, inputs, hinputs, others, hothers, rfl⟩

/-- What is computed behind some outputs is computed from these and from what is computed. -/
theorem evaluates_of_executeFrom
    (h : executeFrom keep compute outputs.length ((history outputs).take keep) steps = .ok more) :
    more.length = steps.length ∧ ∀ (k : Nat) s, steps[k]? = some s → ∃ inputs,
      s.sources.map (fun j => (outputs ++ more)[j]?) = inputs.map some ∧
        more[k]? = some (compute s inputs) := by
  induction steps generalizing outputs more with
  | nil =>
    rw [← Except.ok.inj h]
    refine ⟨rfl, fun k s hs => ?_⟩
    rw [List.getElem?_nil] at hs
    exact nomatch hs
  | cons s rest ih =>
    rw [executeFrom_cons] at h
    rcases bind_eq_ok.1 h with ⟨inputs, hinputs, h⟩
    rcases bind_eq_ok.1 h with ⟨others, hothers, h⟩
    rcases ih hothers with ⟨hlength, hplaces⟩
    rw [← Except.ok.inj h]
    refine ⟨by rw [List.length_cons, List.length_cons, hlength], fun k t ht => ?_⟩
    cases k with
    | zero =>
      rw [List.getElem?_cons_zero, Option.some.injEq] at ht
      exact ⟨inputs, ht ▸ map_getElem?_of_fetch hinputs _, ht ▸ rfl⟩
    | succ k =>
      -- The outputs there were and the new one come before the others.
      rcases hplaces k t ht with ⟨inputs', hinputs', houtput⟩
      rw [List.append_assoc, List.singleton_append] at hinputs'
      exact ⟨inputs', hinputs', houtput⟩

end Execution

section Sources

variable {g : Graph} {c : Catalog} {q : Program} {i j : Nat}

theorem mem_sources {s : Step} : j ∈ s.sources ↔ .step j ∈ s.arguments := by
  rw [Step.sources, List.mem_filterMap]
  constructor
  · rintro ⟨a, ha, hstep⟩
    cases a with
    | step k => exact Option.some.inj hstep ▸ ha
    | _ => exact nomatch hstep
  · intro hj
    exact ⟨.step j, hj, rfl⟩

theorem reads_iff : q.Reads i j ↔ ∃ s, q.steps[i]? = some s ∧ j ∈ s.sources := by
  simp only [Program.Reads, mem_sources]

theorem missing_ne_ok {α : Type} {r : Rule} {required : Bool} {y : TerminalId} {a : α} :
    missing g r required y ≠ .ok a := by
  intro h
  unfold missing at h
  rcases bind_eq_ok.1 h with ⟨label, _, h⟩
  exact nomatch h

/-- A message that arrives from a step is looked up in the index. -/
theorem exists_of_inboundAt {r : Rule} {earlier : StepIndex} {scope : Option Region}
    {required : Bool} {y : TerminalId}
    (h : inboundAt g r earlier scope required y = .ok (.step j)) :
    ∃ x : TerminalId, earlier[x]? = some j := by
  unfold inboundAt at h
  rcases bind_eq_ok.1 h with ⟨terminal, _, h⟩
  split at h
  · exact absurd h missing_ne_ok
  · rename_i p _
    -- A step is the third thing looked for, behind a constant and a marginal.
    rcases bind_eq_ok.1 h with ⟨constant, _, h⟩
    split at h
    · simp only [pure, Except.pure, Except.ok.injEq, reduceCtorEq] at h
    · split at h
      · simp only [pure, Except.pure, Except.ok.injEq, reduceCtorEq] at h
      · split at h
        · rename_i k hk
          rw [← Argument.step.inj (Except.ok.inj h)]
          exact ⟨p, hk⟩
        · rcases bind_eq_ok.1 h with ⟨held, _, h⟩
          split at h
          · simp only [pure, Except.pure, Except.ok.injEq, reduceCtorEq] at h
          · exact absurd h missing_ne_ok

/-- A fallback adds nothing but a parameter. -/
theorem not_mem_last_of_requirementOf {r : Rule} {id : NodeId} {node : Node}
    {requirement : Requirement} (h : requirementOf g r id node = .ok requirement) :
    .step j ∉ requirement.last := by
  unfold requirementOf at h
  split at h
  · rw [← Except.ok.inj h]
    exact List.not_mem_nil
  · split at h
    · rw [← Except.ok.inj h, List.mem_singleton]
      exact nofun
    · split at h
      · rw [← Except.ok.inj h]
        exact List.not_mem_nil
      · exact nomatch h
      · exact nomatch h
      · exact nomatch h
      · exact nomatch h

theorem exists_of_assemble {x : TerminalId} {r : Rule} {earlier : StepIndex}
    {scope : Option Region} {arguments : List Argument}
    (h : assemble g x r earlier scope = .ok arguments) (hj : .step j ∈ arguments) :
    ∃ y : TerminalId, earlier[y]? = some j := by
  unfold assemble at h
  rcases bind_eq_ok.1 h with ⟨terminal, _, h⟩
  rcases bind_eq_ok.1 h with ⟨node, _, h⟩
  split at h
  · exact nomatch h
  · rcases bind_eq_ok.1 h with ⟨requirement, hrequirement, h⟩
    rcases bind_eq_ok.1 h with ⟨first, hfirst, h⟩
    rw [← Except.ok.inj h] at hj
    -- The argument is one for a terminal, for the parameter behind them is no step.
    rcases List.mem_append.1 hj with hj | hj
    · rcases List.getElem?_of_mem hj with ⟨k, hk⟩
      rcases argumentsFor_getElem? hfirst hk with ⟨y, _, hy⟩
      unfold argumentAt at hy
      split at hy
      · exact nomatch hy
      · exact exists_of_inboundAt hy
    · exact absurd hj (not_mem_last_of_requirementOf hrequirement)

/-- A step that reads what the index leads to is appended behind it. -/
theorem Program.Backward.append (hq : q.Backward) {s : Step}
    (hs : ∀ j, .step j ∈ s.arguments → ∃ x : TerminalId, q.stepOf[x]? = some j) :
    (q.append s).Backward where
  reads i j hreads := by
    rcases hreads with ⟨t, ht, hj⟩
    rw [getElem?_append_steps] at ht
    split at ht
    · rename_i hi
      -- What the step reads was there before it came.
      rcases hs j (Option.some.inj ht ▸ hj) with ⟨x, hx⟩
      rcases hq.indexed x j hx with ⟨s', hs'⟩
      exact hi ▸ (Array.getElem?_eq_some_iff.1 hs').1
    · exact hq.reads i j ⟨t, ht, hj⟩
  indexed x i hi := by
    rw [getElem?_append_stepOf] at hi
    rw [getElem?_append_steps]
    by_cases hsize : i = q.steps.size
    · exact ⟨s, if_pos hsize⟩
    · rw [if_neg hsize]
      split at hi
      · exact absurd (Option.some.inj hi).symm hsize
      · exact hq.indexed x i hi

theorem backward_empty (region : Option RegionId) :
    Program.Backward { Program.empty with region := region } where
  reads i j hreads := by
    rcases hreads with ⟨s, hs, _⟩
    exact nomatch hs
  indexed x i hi := by
    simp only [Program.empty, Std.ExtTreeMap.getElem?_empty, reduceCtorEq] at hi

theorem backward_compileStep {scope : Option Region} {known : KnownFamilies} {x : TerminalId}
    {q' : Program} (hq : q.Backward) (h : compileStep g c scope known q x = .ok q') :
    q'.Backward := by
  unfold compileStep at h
  rcases bind_eq_ok.1 h with ⟨terminal, _, h⟩
  rcases bind_eq_ok.1 h with ⟨node, _, h⟩
  -- Steps are added one at a time, and a step draws on what the index leads to.
  split at h
  · exact Except.ok.inj h ▸ hq
  · rcases bind_eq_ok.1 h with ⟨signature, _, h⟩
    split at h
    · rcases bind_eq_ok.1 h with ⟨label, _, h⟩
      exact nomatch h
    · rcases bind_eq_ok.1 h with ⟨arguments, harguments, h⟩
      rw [← Except.ok.inj h]
      exact hq.append fun j hj => exists_of_assemble (asPart_eq_ok.1 harguments) hj

/-- Compiled programs read backward, whatever the list, the scope and the graph. -/
theorem backward_of_compileScoped {list : Schedule} {scope : Option Region} {known : KnownFamilies}
    (h : compileScoped g c list scope known = .ok q) : q.Backward :=
  foldlM_preserves (fun _ q => q.Backward) (backward_empty _)
    (fun _ _ _ _ _ _ hq hstep => backward_compileStep hq hstep) h

end Sources

section Counts

variable {p : Program} {i j δ : Nat}

/-- Counting the rules of some steps adds to what was counted before. -/
theorem getD_foldl_count (steps : List Step) (m : Std.ExtTreeMap RuleId Nat) (id : RuleId) :
    (steps.foldl (fun m s => m.insert s.rule (m.getD s.rule 0 + 1)) m).getD id 0 =
      m.getD id 0 + (steps.map Step.rule).count id := by
  induction steps generalizing m with
  | nil => rfl
  | cons s steps ih =>
    rw [List.foldl_cons, ih, Std.ExtTreeMap.getD_insert, List.map_cons, List.count_cons]
    simp only [Std.LawfulEqCmp.compare_eq_iff_eq, beq_iff_eq]
    split
    · rename_i heq
      rw [heq]
      omega
    · omega

theorem mem_foldl_count (steps : List Step) (m : Std.ExtTreeMap RuleId Nat) (id : RuleId) :
    id ∈ steps.foldl (fun m s => m.insert s.rule (m.getD s.rule 0 + 1)) m ↔
      id ∈ m ∨ id ∈ steps.map Step.rule := by
  induction steps generalizing m with
  | nil => simp only [List.foldl_nil, List.map_nil, List.not_mem_nil, or_false]
  | cons s steps ih =>
    rw [List.foldl_cons, ih, Std.ExtTreeMap.mem_insert, List.map_cons, List.mem_cons]
    simp only [Std.LawfulEqCmp.compare_eq_iff_eq]
    tauto

/-- A report has a count for each rule that is used, and for no other. -/
theorem mem_ruleCounts {id : RuleId} :
    id ∈ p.report.ruleCounts ↔ id ∈ p.steps.toList.map Step.rule := by
  rw [Program.report, mem_foldl_count, or_iff_right Std.ExtTreeMap.not_mem_empty]

theorem getD_ruleCounts (p : Program) (id : RuleId) :
    p.report.ruleCounts.getD id 0 = (p.steps.toList.map Step.rule).count id := by
  rw [Program.report, getD_foldl_count, Std.ExtTreeMap.getD_empty, Nat.zero_add]

/-- The counts of the rules add up to the number of steps. -/
theorem sum_ruleCounts (p : Program) :
    (p.report.ruleCounts.toList.map Prod.snd).sum = p.steps.size := by
  have hcounts : p.report.ruleCounts.toList.map Prod.snd =
      p.report.ruleCounts.keys.map fun id => (p.steps.toList.map Step.rule).count id := by
    rw [← Std.ExtTreeMap.map_fst_toList_eq_keys, List.map_map]
    refine List.map_congr_left fun entry hentry => ?_
    rw [Function.comp_apply, ← getD_ruleCounts, Std.ExtTreeMap.getD_eq_getD_getElem?,
      Std.ExtTreeMap.mem_toList_iff_getElem?_eq_some.1 hentry, Option.getD_some]
  -- The rules that are counted are the rules of the steps, each of them once.
  have hkeys : p.report.ruleCounts.keys.Perm (p.steps.toList.map Step.rule).dedup := by
    refine (List.perm_ext_iff_of_nodup Std.ExtTreeMap.nodup_keys (List.nodup_dedup _)).2 ?_
    intro id
    rw [Std.ExtTreeMap.mem_keys, mem_ruleCounts, List.mem_dedup]
  rw [hcounts, (hkeys.map _).sum_eq, List.sum_map_count_dedup_eq_length, List.length_map,
    Array.length_toList]

theorem total_foldl_count (arguments : List Argument) (counts : ArgumentCounts) :
    (arguments.foldl .count counts).total = counts.total + arguments.length := by
  induction arguments generalizing counts with
  | nil => rfl
  | cons a arguments ih =>
    rw [List.foldl_cons, ih, ArgumentCounts.total_count, List.length_cons]
    omega

/-- The counts of the sorts of arguments add up to the number of arguments. -/
theorem total_arguments (p : Program) : p.report.arguments.total =
    (p.steps.toList.map fun s => s.arguments.length).sum := by
  rw [Program.report, total_foldl_count, List.length_flatMap]
  simp only [ArgumentCounts.total, Nat.zero_add]

/-- The distances of a report are those from the steps to the steps that they read. -/
theorem mem_distances : δ ∈ p.report.distances ↔ ∃ i j, p.Reads i j ∧ δ = i - j := by
  have hsources (i : Nat) (s : Step) : Program.distancesAt i s = s.sources.map (i - ·) := by
    rw [Step.sources, List.map_filterMap, Program.distancesAt]
    refine List.filterMap_congr fun a _ => ?_
    cases a <;> rfl
  simp only [Program.report, List.mem_flatMap, hsources, List.mem_map, Prod.exists, reads_iff,
    List.mem_zipIdx_iff_getElem?, Array.getElem?_toList]
  constructor
  · rintro ⟨s, i, hs, j, hj, rfl⟩
    exact ⟨i, j, ⟨s, hs, hj⟩, rfl⟩
  · rintro ⟨i, j, ⟨s, hs, hj⟩, rfl⟩
    exact ⟨s, i, hs, j, hj, rfl⟩

/-- The largest distance is the largest of a list, or zero if the list is empty. -/
theorem largestDistance_eq (r : Report) : r.largestDistance = r.distances.max?.getD 0 := by
  rw [Report.largestDistance, List.foldl_max, Nat.zero_max]

theorem le_largestDistance {r : Report} (hδ : δ ∈ r.distances) : δ ≤ r.largestDistance := by
  rw [largestDistance_eq]
  cases hmax : r.distances.max? with
  | none =>
    rw [List.max?_eq_none_iff.1 hmax] at hδ
    exact absurd hδ List.not_mem_nil
  | some d => exact (List.max?_eq_some_iff.1 hmax).2 δ hδ

theorem largestDistance_mem {r : Report} (hr : r.largestDistance ≠ 0) :
    r.largestDistance ∈ r.distances := by
  rw [largestDistance_eq] at hr ⊢
  cases hmax : r.distances.max? with
  | none =>
    rw [hmax] at hr
    exact absurd rfl hr
  | some d => exact (List.max?_eq_some_iff.1 hmax).1

end Counts

section Lifetimes

variable {g : Graph} {c : Catalog} {p : Program} {i j : Nat}

/-- A step that is read lies behind, no further than the report says. -/
theorem Program.Backward.distance (hp : p.Backward) (h : p.Reads i j) :
    j + (i - j) = i ∧ 1 ≤ i - j ∧ i - j ≤ p.report.largestDistance := by
  have hlt := hp.reads i j h
  have hle := le_largestDistance (mem_distances.2 ⟨i, j, h, rfl⟩)
  omega

theorem Program.Backward.exists_reads (hp : p.Backward) (hd : p.report.largestDistance ≠ 0) :
    ∃ i j, p.Reads i j ∧ i = j + p.report.largestDistance := by
  rcases mem_distances.1 (largestDistance_mem hd) with ⟨i, j, h, heq⟩
  have hlt := hp.reads i j h
  exact ⟨i, j, h, by omega⟩

/-- An executor starts behind no outputs. -/
theorem Program.execute_eq {α : Type} (p : Program) (keep : Nat) (compute : Step → List α → α) :
    p.execute keep compute =
      executeFrom keep compute ([] : List α).length ((history []).take keep) p.steps.toList := by
  simp only [Program.execute, history, List.zipIdx_nil, List.map_nil, List.reverse_nil,
    List.take_nil, List.length_nil]

/-- An executor gets through a program if it keeps as many outputs as the report says, and not if
    it keeps fewer. -/
theorem Program.Backward.exists_execute_iff (hp : p.Backward) {α : Type} (keep : Nat)
    (compute : Step → List α → α) :
    (∃ outputs, p.execute keep compute = .ok outputs) ↔ p.report.largestDistance ≤ keep := by
  rw [p.execute_eq, exists_executeFrom_iff]
  simp only [List.length_nil, Nat.zero_add, Array.getElem?_toList]
  constructor
  · intro hkept
    by_cases hd : p.report.largestDistance = 0
    · omega
    · -- The read that reaches furthest back was in reach as well.
      rcases hp.exists_reads hd with ⟨i, j, h, hi⟩
      rcases reads_iff.1 h with ⟨s, hs, hj⟩
      have hwindow := hkept i s hs j hj
      omega
  · intro hkeep i s hs j hj
    have hdistance := hp.distance (reads_iff.2 ⟨s, hs, hj⟩)
    omega

/-- The outputs of an executor that gets through are those of the program. -/
theorem evaluates_of_execute {α : Type} {keep : Nat} {compute : Step → List α → α}
    {outputs : List α} (h : p.execute keep compute = .ok outputs) :
    p.Evaluates compute outputs := by
  rw [p.execute_eq] at h
  rcases evaluates_of_executeFrom h with ⟨hlength, hplaces⟩
  refine ⟨by rw [hlength, Array.length_toList], fun i s hs => ?_⟩
  rw [← Array.getElem?_toList] at hs
  exact hplaces i s hs

/-- A program that reads backward has no more than one output for each step. -/
theorem Program.Evaluates.unique (hp : p.Backward) {α : Type} {compute : Step → List α → α}
    {outputs others : List α} (h : p.Evaluates compute outputs) (h' : p.Evaluates compute others) :
    outputs = others := by
  refine List.ext_getElem? fun i => ?_
  -- The outputs that a step reads lie before its own.
  induction i using Nat.strongRecOn with
  | ind i ih =>
    cases hs : p.steps[i]? with
    | none =>
      have hle := Array.getElem?_eq_none_iff.1 hs
      rw [List.getElem?_eq_none (h.length ▸ hle), List.getElem?_eq_none (h'.length ▸ hle)]
    | some s =>
      rcases h.output i s hs with ⟨inputs, hinputs, houtput⟩
      rcases h'.output i s hs with ⟨inputs', hinputs', houtput'⟩
      have hsame : inputs.map some = inputs'.map some := by
        rw [← hinputs, ← hinputs']
        exact List.map_congr_left fun j hj => ih j (hp.reads i j (reads_iff.2 ⟨s, hs, hj⟩))
      rw [houtput, houtput', (List.map_inj_right fun _ _ => Option.some.inj).1 hsame]

/-- An executor that keeps enough outputs computes what the program evaluates to. -/
theorem Program.Backward.execute_eq_ok_iff (hp : p.Backward) {α : Type} {keep : Nat}
    (hkeep : p.report.largestDistance ≤ keep) (compute : Step → List α → α) (outputs : List α) :
    p.execute keep compute = .ok outputs ↔ p.Evaluates compute outputs := by
  refine ⟨evaluates_of_execute, fun h => ?_⟩
  rcases (hp.exists_execute_iff keep compute).2 hkeep with ⟨others, hothers⟩
  rw [hothers, h.unique hp (evaluates_of_execute hothers)]

/-- The report on a program that was compiled, for a whole graph or as part of a plan, counts the
    steps by their rules and the arguments by their sorts, so that the counts add up. It subtracts
    places that lie before the ones it subtracts them from, and the largest distance that it gives
    is how long messages are needed: no read reaches further back, one reaches that far unless
    nothing is read, and an executor gets through the program exactly if it keeps that many of the
    last outputs. Then it computes what the program evaluates to. -/
theorem report_tells_lifetimes (hp : p.CompiledFor g c) :
    (p.report.steps = p.steps.size ∧
      (p.report.ruleCounts.toList.map Prod.snd).sum = p.steps.size ∧
      ∀ id, p.report.ruleCounts.getD id 0 = (p.steps.toList.map Step.rule).count id) ∧
    p.report.arguments.total = (p.steps.toList.map fun s => s.arguments.length).sum ∧
    (∀ i j, p.Reads i j → j + (i - j) = i ∧ 1 ≤ i - j ∧ i - j ≤ p.report.largestDistance) ∧
    (p.report.largestDistance ≠ 0 → ∃ i j, p.Reads i j ∧ i = j + p.report.largestDistance) ∧
    (p.report.largestDistance = 0 ↔ ∀ i j, ¬ p.Reads i j) ∧
    ∀ (α : Type) (keep : Nat) (compute : Step → List α → α),
      ((∃ outputs, p.execute keep compute = .ok outputs) ↔ p.report.largestDistance ≤ keep) ∧
      (p.report.largestDistance ≤ keep → ∀ outputs,
        p.execute keep compute = .ok outputs ↔ p.Evaluates compute outputs) := by
  rcases hp.exists_compileScoped with ⟨list, scope, known, hcompiled⟩
  have hbackward := backward_of_compileScoped hcompiled
  refine ⟨⟨rfl, sum_ruleCounts p, getD_ruleCounts p⟩, total_arguments p,
    fun i j h => hbackward.distance h, hbackward.exists_reads, ?_, fun α keep compute =>
      ⟨hbackward.exists_execute_iff keep compute, fun hkeep => hbackward.execute_eq_ok_iff hkeep _⟩⟩
  -- Every distance is at least one, and the largest is that of something read.
  constructor
  · intro hzero i j h
    have hdistance := hbackward.distance h
    omega
  · intro hnone
    by_contra hd
    rcases hbackward.exists_reads hd with ⟨i, j, h, _⟩
    exact hnone i j h

/-- Side by side, each message of the relay is read two steps after it was computed. The last two
    outputs are enough to run the program, and the last one is not. -/
theorem report_tells_lifetimes_relay :
    ∃ p : Program, p.CompiledFor relayGraph relayCatalog ∧ p.Reads 2 0 ∧
      p.report.largestDistance = 2 ∧
      (∃ outputs, p.execute 2 (fun _ inputs => inputs.sum + 1) = .ok outputs) ∧
      ¬ ∃ outputs, p.execute 1 (fun _ inputs => inputs.sum + 1) = .ok outputs := by
  have hfound : ((compile relayGraph relayCatalog sideBySide).toOption.map fun q =>
      (q.report.largestDistance, q.steps[2]?)) =
        some (2, some ⟨⟨2⟩, ⟨2⟩, .gaussian, [.step 0, .absent]⟩) := by
    decide +kernel
  rcases Option.map_eq_some_iff.1 hfound with ⟨p, hp, hreport⟩
  rcases Prod.mk.inj hreport with ⟨hd, hs⟩
  have hcompiled : p.CompiledFor relayGraph relayCatalog :=
    Or.inl ⟨sideBySide, toOption_eq_some.1 hp⟩
  -- With room for two outputs the program runs; with room for one the first is gone when it is
  -- read.
  have hexecute := (report_tells_lifetimes hcompiled).2.2.2.2.2 Nat
  refine ⟨p, hcompiled, ⟨_, hs, List.mem_cons_self⟩, hd, ?_, ?_⟩
  · exact (hexecute 2 _).1.2 hd.le
  · intro hone
    have hle := (hexecute 1 _).1.1 hone
    omega

end Lifetimes

end MessagePlan
