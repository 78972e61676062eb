import Mathlib.Data.List.Nodup
import Mathlib.Data.List.Pairwise
import Mathlib.Tactic.Push
import MessagePlan.Failure
import MessagePlan.Proofs.Rule.Inclusion

/-!
# The Least Rule that Fits

A catalog is checked once, two rules at a time, and then asked about any number of rules at
once. Here the one is shown to be enough for the other: among the rules that fit a signature
there is always a least, which all the others contain, and it is the one that is found.

What the check leaves behind is `Catalog.Decisive`. No two rules for the same task have the same
patterns, since the second would not have been registered; and of two rules for the same task
that overlap, one covers the other or a third rule has exactly what they share. From here on
the check itself is not looked at again.

Of the rules that fit, one of the lowest rank covers no other, so the search never comes back
empty-handed. And one that covers no other is covered by each: otherwise it and another would
overlap without either covering the other, the rule for what they share would fit as well, and
this rule it would cover.

## Main definitions

* `Registry.after`, `Registry.ofCalls`: The registry that some calls leave behind.
* `Registry.Applies`: A registered rule is for a task and fits.
* `Catalog.Decisive`: The choice between rules is never open.

## Theorems

* `distinct_ofCalls`: Calls leave no rule twice.
* `decisive_of_build`: A catalog that was built is decisive.
* `covers_of_mem_mostSpecific`: A rule that covers no other is covered by each.
* `resolve_eq_ok_iff`, `resolve_eq_error_iff`: What a decisive catalog finds.
* `resolve_finds_least_match`: What the catalog built after any calls finds.
-/

namespace MessagePlan

namespace Rule

theorem isFor_iff {r : Rule} {kind role : String} :
    r.isFor kind role = true ↔ r.kind = kind ∧ r.role = role := by
  simp only [isFor, Bool.and_eq_true, beq_iff_eq]

theorem sameTask_of_isFor {r s : Rule} {kind role : String} (hr : r.isFor kind role = true)
    (hs : s.isFor kind role = true) : r.sameTask s = true := by
  rw [isFor_iff] at hr hs
  rw [sameTask, isFor_iff, hs.1, hs.2]
  exact hr

theorem isFor_of_sameTask {r s : Rule} {kind role : String} (h : r.sameTask s = true)
    (hs : s.isFor kind role = true) : r.isFor kind role = true := by
  rw [sameTask, isFor_iff] at h
  rw [isFor_iff] at hs ⊢
  exact ⟨h.1.trans hs.1, h.2.trans hs.2⟩

theorem sameTask_comm {r s : Rule} : r.sameTask s = true ↔ s.sameTask r = true := by
  rw [sameTask, sameTask, isFor_iff, isFor_iff, eq_comm, eq_comm (a := r.role)]

end Rule

namespace Registry

/-- The registry after a call to register a rule. A rule that is refused leaves it as it was. -/
def after (reg : Registry) (r : Rule) : Registry :=
  match reg.register r with
  | .ok (_, reg') => reg'
  | .error _ => reg

/-- The registry after some calls, the first one made on the empty registry. -/
def ofCalls (calls : List Rule) : Registry := calls.foldl after empty

/-- A rule is registered, is for a kind and a role, and fits a signature. -/
def Applies (reg : Registry) (kind role : String) (s : Signature) (r : Rule) : Prop :=
  r ∈ reg.rules ∧ r.isFor kind role = true ∧ r.fits s = true

/-- No two rules for the same terminals have the same patterns. -/
def Distinct (reg : Registry) : Prop :=
  reg.rules.toList.Pairwise fun r s => r.sameTask s = true → r.inbounds ≠ s.inbounds

/-- A call adds the rule at the end, if it differs from all before it, or does nothing. -/
theorem after_cases (reg : Registry) (r : Rule) :
    reg.after r = reg ∨
      (reg.after r).rules = reg.rules.push r ∧
        ∀ s ∈ reg.rules, s.sameTask r = true → s.inbounds ≠ r.inbounds := by
  unfold after register
  -- A call is refused for its name or as a repetition, and only then does nothing.
  by_cases hname : (r.kind.isEmpty || r.role.isEmpty) = true
  · rw [if_pos hname]
    exact Or.inl rfl
  · rw [if_neg hname]
    by_cases hdup : (reg.rules.any fun s => s.sameTask r && s.inbounds == r.inbounds) = true
    · rw [if_pos hdup]
      exact Or.inl rfl
    · rw [if_neg hdup]
      refine Or.inr ⟨rfl, ?_⟩
      intro s hs htask heq
      refine hdup (Array.any_eq_true'.2 ⟨s, hs, ?_⟩)
      rw [htask, heq, beq_self_eq_true, Bool.and_self]

theorem Distinct.after {reg : Registry} (h : reg.Distinct) (r : Rule) : (reg.after r).Distinct := by
  rcases after_cases reg r with heq | ⟨hrules, hnew⟩
  · rw [heq]
    exact h
  · unfold Distinct
    rw [hrules, Array.toList_push, List.pairwise_append]
    -- Only the pairs with the new rule are new.
    refine ⟨h, List.pairwise_singleton _ r, ?_⟩
    intro s hs t ht
    rw [List.mem_singleton.1 ht]
    exact hnew s (Array.mem_toList_iff.1 hs)

/-- Calls leave no rule twice. -/
theorem distinct_ofCalls (calls : List Rule) : (ofCalls calls).Distinct := by
  -- The calls may as well start from any registry with distinct rules.
  have hrun : ∀ reg : Registry, reg.Distinct → (calls.foldl Registry.after reg).Distinct := by
    induction calls with
    | nil =>
      intro reg h
      exact h
    | cons r calls ih =>
      intro reg h
      exact ih (reg.after r) (h.after r)
  exact hrun empty List.Pairwise.nil

/-- Of two rules for the same terminals that overlap, one covers the other, or a rule of the
    list has what they share. -/
def Settled (rules : List Rule) (r s : Rule) : Prop :=
  r.sameTask s = true → ∀ shared, r.overlap? s = some shared →
    r.covers s = true ∨ s.covers r = true ∨
      ∃ t ∈ rules, t.sameTask r = true ∧ t.inbounds = shared

/-- A pair that raises no conflict is settled. -/
theorem settled_of_not_conflicts {rules : List Rule} {r s : Rule}
    (h : conflicts rules r s = false) : Settled rules r s := by
  intro htask shared hshared
  by_cases hrs : r.covers s = true
  · exact Or.inl hrs
  by_cases hsr : s.covers r = true
  · exact Or.inr (Or.inl hsr)
  -- With neither covering the other, only the rule for what they share prevents a conflict.
  refine Or.inr (Or.inr ?_)
  simp only [conflicts, htask, hrs, hsr, hshared, Bool.not_false, Bool.true_and,
    Bool.not_eq_false'] at h
  rcases List.any_eq_true.1 h with ⟨t, ht, htt⟩
  rw [Bool.and_eq_true, beq_iff_eq] at htt
  exact ⟨t, ht, htt⟩

/-- Each pair of a list without a first conflict is settled, the earlier rule named first. -/
theorem pairwise_settled {rules rs : List Rule} (h : firstConflict rules rs = none) :
    rs.Pairwise (Settled rules) := by
  induction rs with
  | nil => exact List.Pairwise.nil
  | cons r rs ih =>
    unfold firstConflict at h
    rcases hfind : rs.find? (conflicts rules r) with _ | s
    · rw [hfind] at h
      -- No later rule is in conflict with the first one.
      refine List.Pairwise.cons ?_ (ih h)
      intro s hs
      refine settled_of_not_conflicts ?_
      exact Bool.eq_false_iff.2 (List.find?_eq_none.1 hfind s hs)
    · rw [hfind] at h
      exact nomatch h

theorem settled_self (rules : List Rule) (r : Rule) : Settled rules r r := by
  intro _ _ _
  exact Or.inl (containsAll_refl r.inbounds)

/-- It does not matter which of two rules is named first. -/
theorem Settled.symm {rules : List Rule} {r s : Rule} (h : Settled rules r s) :
    Settled rules s r := by
  intro htask shared hshared
  have htask' := Rule.sameTask_comm.1 htask
  have hshared' : r.overlap? s = some shared := by
    rw [Rule.overlap?, meetAll?_comm]
    exact hshared
  -- The third rule is for the same terminals as both.
  rcases h htask' shared hshared' with hrs | hsr | ⟨t, ht, htr, hts⟩
  · exact Or.inr (Or.inl hrs)
  · exact Or.inl hsr
  · refine Or.inr (Or.inr ⟨t, ht, ?_, hts⟩)
    rw [Rule.sameTask, Rule.isFor_iff] at htr htask ⊢
    exact ⟨htr.1.trans htask.1.symm, htr.2.trans htask.2.symm⟩

/-- Any two rules of a list without a conflict are settled. -/
theorem settled_of_firstConflict {rules : List Rule} (h : firstConflict rules rules = none)
    {r s : Rule} (hr : r ∈ rules) (hs : s ∈ rules) : Settled rules r s := by
  -- Each pair of places was compared once, in one order.
  have hsymm : Std.Symm (Settled rules) := ⟨fun _ _ => Settled.symm⟩
  exact (pairwise_settled h).forall_of_forall (fun t _ => settled_self rules t) hr hs

end Registry

namespace Catalog

/-- The choice between the rules of a catalog is never open: no two rules for the same terminals
    have the same patterns, and each pair of rules is settled. -/
structure Decisive (c : Catalog) : Prop where
  distinct : ∀ {i j : RuleId} {r s : Rule}, c.rule? i = some r → c.rule? j = some s →
    r.sameTask s = true → r.inbounds = s.inbounds → i = j
  settled : ∀ {r s : Rule}, r ∈ c.rules → s ∈ c.rules → Registry.Settled c.rules.toList r s

/-- The catalog built after some calls is decisive. -/
theorem decisive_of_build {calls : List Rule} {c : Catalog}
    (h : (Registry.ofCalls calls).build = .ok c) : c.Decisive := by
  rcases Registry.build_eq_ok h with ⟨hrules, hnone⟩
  have hdistinct := Registry.distinct_ofCalls calls
  unfold Registry.Distinct at hdistinct
  rw [← hrules] at hdistinct
  unfold Registry.conflict? at hnone
  rw [← hrules] at hnone
  refine ⟨?_, ?_⟩
  · intro ⟨i⟩ ⟨j⟩ r s hi hj htask heq
    by_contra hne
    have hindex : i ≠ j := fun h => hne (congrArg RuleId.mk h)
    -- Whichever of the two was registered second would have been refused.
    rw [List.pairwise_iff_getElem] at hdistinct
    rcases Array.getElem?_eq_some_iff.1 hi with ⟨hilt, rfl⟩
    rcases Array.getElem?_eq_some_iff.1 hj with ⟨hjlt, rfl⟩
    rcases Nat.lt_or_gt_of_ne hindex with hlt | hgt
    · exact hdistinct i j hilt hjlt hlt htask heq
    · exact hdistinct j i hjlt hilt hgt (Rule.sameTask_comm.1 htask) heq.symm
  · intro r s hr hs
    exact Registry.settled_of_firstConflict hnone (Array.mem_toList_iff.2 hr)
      (Array.mem_toList_iff.2 hs)

variable {c : Catalog} {kind role : String} {s : Signature}

theorem mem_rules_of_rule? {id : RuleId} {r : Rule} (h : c.rule? id = some r) : r ∈ c.rules :=
  Array.mem_of_getElem? h

theorem exists_rule? {r : Rule} (h : r ∈ c.rules) : ∃ id, c.rule? id = some r := by
  rcases Array.getElem?_of_mem h with ⟨i, hi⟩
  exact ⟨⟨i⟩, hi⟩

/-- A rule for a kind and a role that fits is a candidate under some handle. -/
theorem exists_mem_candidates {r : Rule} (hr : r ∈ c.rules) (hfor : r.isFor kind role = true)
    (hfits : r.fits s = true) : ∃ id, (r, id) ∈ c.candidates kind role s := by
  rcases exists_rule? hr with ⟨id, hid⟩
  exact ⟨id, mem_candidates.2 ⟨hid, hfor, hfits⟩⟩

/-- No candidate is listed twice, since each is listed with its own handle. -/
theorem nodup_candidates (c : Catalog) (kind role : String) (s : Signature) :
    (c.candidates kind role s).Nodup := by
  unfold candidates
  refine List.Nodup.filter _ ?_
  -- The places alone are the numbers from zero on.
  refine List.Nodup.of_map (fun entry => entry.2.index) ?_
  rw [List.map_map]
  have hplaces : (c.rules.toList.zipIdx.map Prod.snd).Nodup := by
    rw [List.zipIdx_map_snd]
    exact List.nodup_range'
  exact hplaces

/-- The most specific rules of a list are those that cover none but themselves. -/
theorem mem_mostSpecific {rules : List (Rule × RuleId)} {m : Rule × RuleId} :
    m ∈ mostSpecific rules ↔ m ∈ rules ∧ ∀ d ∈ rules, m.1.covers d.1 = true → d.2 = m.2 := by
  simp only [mostSpecific, List.mem_filter, Bool.not_eq_true', List.any_eq_false,
    Bool.and_eq_true, bne_iff_ne, ne_eq, not_and]
  refine and_congr_right fun _ => forall₂_congr fun d _ => ?_
  constructor
  · intro h hcovers
    by_contra hne
    exact h hne hcovers
  · intro h hne hcovers
    exact hne (h hcovers)

theorem eq_of_mem_candidates {m d : Rule × RuleId} (hm : m ∈ c.candidates kind role s)
    (hd : d ∈ c.candidates kind role s) (h : d.2 = m.2) : d = m := by
  have hmr := (mem_candidates.1 hm).1
  have hdr := (mem_candidates.1 hd).1
  rw [h, hmr] at hdr
  exact Prod.ext (Option.some.inj hdr).symm h

/-- Among candidates there is one that covers no other. The search goes down from any of them,
    as long as there is another one below: that one has a lower rank, since it is for the same
    terminals and a rule with the same patterns would have been refused. -/
theorem exists_mem_mostSpecific (hc : c.Decisive) {d : Rule × RuleId}
    (hd : d ∈ c.candidates kind role s) : ∃ m, m ∈ mostSpecific (c.candidates kind role s) := by
  induction hn : rowRank d.1.inbounds using Nat.strongRecOn generalizing d with
  | ind n ih =>
    by_cases hleast : d ∈ mostSpecific (c.candidates kind role s)
    · exact ⟨d, hleast⟩
    · rw [mem_mostSpecific, not_and] at hleast
      have hother := hleast hd
      push Not at hother
      rcases hother with ⟨e, he, hcovers, hne⟩
      refine ih (rowRank e.1.inbounds) ?_ he rfl
      rw [← hn]
      -- With the same rank the two rules would have the same patterns.
      have hle : rowRank e.1.inbounds ≤ rowRank d.1.inbounds := rowRank_le hcovers
      by_contra hge
      have heq := eq_of_containsAll_of_rowRank_le hcovers (by omega)
      rcases mem_candidates.1 hd with ⟨hdr, hdfor, _⟩
      rcases mem_candidates.1 he with ⟨her, hefor, _⟩
      exact hne (hc.distinct her hdr (Rule.sameTask_of_isFor hefor hdfor) heq.symm)

/-- A rule that covers no other is covered by each. -/
theorem covers_of_mem_mostSpecific (hc : c.Decisive) {m d : Rule × RuleId}
    (hm : m ∈ mostSpecific (c.candidates kind role s)) (hd : d ∈ c.candidates kind role s) :
    d.1.covers m.1 = true := by
  rcases mem_mostSpecific.1 hm with ⟨hmc, hleast⟩
  rcases mem_candidates.1 hmc with ⟨hmr, hmfor, hmfits⟩
  rcases mem_candidates.1 hd with ⟨hdr, hdfor, hdfits⟩
  -- Both fit the signature, so they overlap, and the pair is settled.
  rcases acceptsAll_overlap hmfits hdfits with ⟨shared, hshared, hsfits⟩
  have htask : m.1.sameTask d.1 = true := Rule.sameTask_of_isFor hmfor hdfor
  rcases hc.settled (mem_rules_of_rule? hmr) (mem_rules_of_rule? hdr) htask shared hshared with
    hmd | hdm | ⟨t, ht, httask, htshared⟩
  · -- The one above covers the other only if they are the same.
    rw [eq_of_mem_candidates hmc hd (hleast d hd hmd)]
    exact containsAll_refl m.1.inbounds
  · exact hdm
  · -- The rule for what they share fits too, so it can only be the most specific one itself.
    rcases exists_mem_candidates (Array.mem_toList_iff.1 ht)
      (Rule.isFor_of_sameTask httask hmfor) (by rw [Rule.fits, htshared]; exact hsfits) with
      ⟨id, hid⟩
    have hmt : m.1.covers t = true := by
      rw [Rule.covers, htshared]
      exact containsAll_meetAll? hshared
    have heq := eq_of_mem_candidates hmc hid (hleast (t, id) hid hmt)
    rw [← heq, Rule.covers, htshared]
    exact containsAll_meetAll? (by rw [meetAll?_comm]; exact hshared)

/-- There is no second most specific rule. -/
theorem mostSpecific_eq_singleton (hc : c.Decisive) {m : Rule × RuleId}
    (hm : m ∈ mostSpecific (c.candidates kind role s)) :
    mostSpecific (c.candidates kind role s) = [m] := by
  -- Two of them would cover one another, and a rule that covers no other covers itself at most.
  have hsame : ∀ d ∈ mostSpecific (c.candidates kind role s), d = m := by
    intro d hd
    have hdc := (mem_mostSpecific.1 hd).1
    rcases mem_mostSpecific.1 hm with ⟨hmc, hleast⟩
    exact eq_of_mem_candidates hmc hdc (hleast d hdc (covers_of_mem_mostSpecific hc hd hmc))
  have hnodup : (mostSpecific (c.candidates kind role s)).Nodup :=
    (nodup_candidates c kind role s).filter _
  rw [List.eq_replicate_of_mem hsame, List.nodup_replicate] at hnodup
  have hpos := List.length_pos_of_mem hm
  rw [List.eq_replicate_of_mem hsame]
  have hone : (mostSpecific (c.candidates kind role s)).length = 1 := by omega
  rw [hone]
  rfl

/-- A decisive catalog finds the one most specific candidate, or nothing if there is none. -/
theorem resolve_cases (hc : c.Decisive) (kind role : String) (s : Signature) :
    c.candidates kind role s = [] ∧
        c.resolve kind role s = .error (.noneApplies kind role (Signature.text s)) ∨
      ∃ m, mostSpecific (c.candidates kind role s) = [m] ∧ c.resolve kind role s = .ok m := by
  rcases hcand : c.candidates kind role s with _ | ⟨d, rest⟩
  · refine Or.inl ⟨rfl, ?_⟩
    rw [resolve, hcand]
    rfl
  · have hd : d ∈ c.candidates kind role s := by
      rw [hcand]
      exact List.mem_cons_self
    -- Some candidate is most specific; and no two are, as the catalog is decisive.
    rcases exists_mem_mostSpecific hc hd with ⟨m, hm⟩
    have hone := mostSpecific_eq_singleton hc hm
    refine Or.inr ⟨m, ?_, ?_⟩
    · rw [← hcand]
      exact hone
    · rw [resolve, hone]

/-- A decisive catalog only ever fails because no rule fits. -/
theorem resolve_eq_error_iff (hc : c.Decisive) {e : RuleError} :
    c.resolve kind role s = .error e ↔
      c.candidates kind role s = [] ∧ e = .noneApplies kind role s.text := by
  rcases resolve_cases hc kind role s with ⟨hnil, hres⟩ | ⟨m, hone, hres⟩
  · rw [hres, Except.error.injEq, and_iff_right hnil, eq_comm]
  · rw [hres]
    refine iff_of_false (fun h => nomatch h) ?_
    intro h
    rw [h.1] at hone
    exact nomatch hone

/-- A decisive catalog finds the candidate that all candidates cover. -/
theorem resolve_eq_ok_iff (hc : c.Decisive) {m : Rule × RuleId} :
    c.resolve kind role s = .ok m ↔
      m ∈ c.candidates kind role s ∧
        ∀ d ∈ c.candidates kind role s, d.1.covers m.1 = true := by
  constructor
  · intro h
    -- What is found is the only most specific candidate.
    rcases resolve_cases hc kind role s with ⟨_, hres⟩ | ⟨m', hone, hres⟩
    · exact nomatch hres.symm.trans h
    · rw [hres] at h
      have hm : m ∈ mostSpecific (c.candidates kind role s) := by
        rw [hone, Except.ok.inj h]
        exact List.mem_singleton.2 rfl
      exact ⟨(mem_mostSpecific.1 hm).1, fun d hd => covers_of_mem_mostSpecific hc hm hd⟩
  · intro h
    rcases h with ⟨hmc, hleast⟩
    rcases exists_mem_mostSpecific hc hmc with ⟨m', hm'⟩
    -- The one found is covered by `m` and covers it, so it has the same handle.
    rcases mem_mostSpecific.1 hm' with ⟨hmc', hleast'⟩
    have heq := eq_of_mem_candidates hmc' hmc (hleast' m hmc (hleast m' hmc'))
    rw [resolve, mostSpecific_eq_singleton hc hm', heq]

theorem mem_candidates_of_resolve {m : Rule × RuleId} (h : c.resolve kind role s = .ok m) :
    m ∈ c.candidates kind role s := by
  unfold resolve at h
  split at h
  · rename_i found hone
    have hm : found ∈ mostSpecific (c.candidates kind role s) := by
      rw [hone]
      exact List.mem_singleton.2 rfl
    rw [← Except.ok.inj h]
    exact (mem_mostSpecific.1 hm).1
  · exact nomatch h
  · exact nomatch h

/-- A rule that applies is a candidate of the catalog built from the registry. -/
theorem applies_iff {reg : Registry} (h : c.rules = reg.rules) {r : Rule} :
    reg.Applies kind role s r ↔ ∃ id, (r, id) ∈ c.candidates kind role s := by
  unfold Registry.Applies
  rw [← h]
  constructor
  · rintro ⟨hr, hfor, hfits⟩
    exact exists_mem_candidates hr hfor hfits
  · rintro ⟨id, hid⟩
    rcases mem_candidates.1 hid with ⟨hr, hfor, hfits⟩
    exact ⟨mem_rules_of_rule? hr, hfor, hfits⟩

/-- Whatever calls were made to register rules, the catalog that was then built is never in
    doubt. It finds nothing only if no registered rule for the kind and the role fits, and
    otherwise it finds the one whose patterns accept, place by place, nothing that the patterns
    of another such rule do not. -/
theorem resolve_finds_least_match {calls : List Rule} {c : Catalog}
    (h : (Registry.ofCalls calls).build = .ok c) (kind role : String) (s : Signature) :
    (∀ kind' role' names, c.resolve kind role s ≠ .error (.ambiguous kind' role' names)) ∧
    (c.resolve kind role s = .error (.noneApplies kind role s.text) ↔
      ∀ r, ¬ (Registry.ofCalls calls).Applies kind role s r) ∧
    ((∃ r, (Registry.ofCalls calls).Applies kind role s r) →
      ∃ r id, c.resolve kind role s = .ok (r, id)) ∧
    ∀ r id, c.resolve kind role s = .ok (r, id) ↔
      (Registry.ofCalls calls).rules[id.index]? = some r ∧
        (Registry.ofCalls calls).Applies kind role s r ∧
        ∀ d, (Registry.ofCalls calls).Applies kind role s d →
          List.Forall₂ Pattern.Includes d.inbounds r.inbounds := by
  have hc := decisive_of_build h
  have hrules := (Registry.build_eq_ok h).1
  refine ⟨?_, ?_, ?_, ?_⟩
  · intro kind' role' names hres
    have he := ((resolve_eq_error_iff hc).1 hres).2
    exact nomatch he
  · rw [resolve_eq_error_iff hc, and_iff_left rfl, List.eq_nil_iff_forall_not_mem]
    simp only [applies_iff hrules, not_exists, Prod.forall]
  · rintro ⟨r, hr⟩
    rcases (applies_iff hrules).1 hr with ⟨id, hid⟩
    rcases resolve_cases hc kind role s with ⟨hnil, _⟩ | ⟨m, _, hres⟩
    · -- There is a candidate, so something is found.
      rw [hnil] at hid
      exact absurd hid List.not_mem_nil
    · exact ⟨m.1, m.2, hres⟩
  · intro r id
    rw [resolve_eq_ok_iff hc, ← hrules]
    simp only [applies_iff hrules, ← containsAll_iff]
    constructor
    · rintro ⟨hmem, hleast⟩
      refine ⟨(mem_candidates.1 hmem).1, ⟨id, hmem⟩, ?_⟩
      rintro d ⟨i, hi⟩
      exact hleast (d, i) hi
    · rintro ⟨hrule, ⟨i, hi⟩, hleast⟩
      -- The rule may be a candidate under another handle only if that is the same handle.
      have hsame : i = id :=
        hc.distinct (mem_candidates.1 hi).1 hrule (Rule.sameTask_of_isFor
          (mem_candidates.1 hi).2.1 (mem_candidates.1 hi).2.1) rfl
      rw [hsame] at hi
      refine ⟨hi, ?_⟩
      rintro ⟨d, j⟩ hd
      exact hleast d ⟨j, hd⟩

/-- Calls that register two rules for a sum which overlap, then the one for what they share, and
    then a rule that has been registered before. -/
def sumCalls : List Rule :=
  [⟨"left", "Addition", "out", [.constant, .any], .gaussian, none⟩,
    ⟨"right", "Addition", "out", [.any, .constant], .gaussian, none⟩,
    ⟨"both", "Addition", "out", [.constant, .constant], .pointMass, none⟩,
    ⟨"again", "Addition", "out", [.constant, .any], .gaussian, none⟩]

/-- Of the rules for a sum, the one for what the other two share is found where all three fit. -/
theorem resolve_finds_least_match_sum :
    ∃ c, (Registry.ofCalls sumCalls).build = .ok c ∧
      ∃ id, c.resolve "Addition" "out" [.constant, .constant] =
        .ok (⟨"both", "Addition", "out", [.constant, .constant], .pointMass, none⟩, id) := by
  have h : (Registry.ofCalls sumCalls).build = .ok ⟨sumCalls.toArray.pop⟩ :=
    toOption_eq_some.1 (by decide +kernel)
  refine ⟨_, h, ⟨2⟩, ((resolve_finds_least_match h _ _ _).2.2.2 _ _).2 ⟨?_, ?_, ?_⟩⟩
  · decide +kernel
  · unfold Registry.Applies
    decide +kernel
  · -- The rules are few, and each of those that fit covers the one found.
    rintro d ⟨hd, _, _⟩
    rw [← containsAll_iff]
    revert d
    decide +kernel

end Catalog

end MessagePlan
