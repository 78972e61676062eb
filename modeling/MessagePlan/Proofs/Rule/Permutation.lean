import MessagePlan.Proofs.Rule.LeastMatch

/-!
# Rules in Any Order

Rules are registered one after the other, checked two at a time in their order, and looked through
in their order again whenever one is wanted. What comes of it does not depend on that order.

For the check this is because `Registry.Settled` does not ask which of two rules was named first,
nor where in the list the third one is: a registry is built into a catalog if any two of its rules
are settled. For the choice it is because the rule that is found is the candidate which all
candidates cover, and candidates under other handles are the same rules.

Only the handles are not the same. A handle is a place in the order of registration, and so what two
catalogs find is compared rule by rule.

## Main definitions

* `Registry.Registrable`: A list of rules none of which is refused when they are registered.

## Theorems

* `Registrable.perm`: Whether rules are refused does not depend on their order.
* `registerAll_eq_ok`, `ofCalls_eq`: Rules of which none is refused are registered in their order.
* `not_conflicts_iff`, `build_eq_ok_iff`: A registry is built if any two of its rules are settled.
* `exists_mem_candidates_of_mem_iff`, `resolve_of_mem_iff`: Catalogs with the same rules find the
  same rule.
* `registration_order_irrelevant`: Registering, building and resolving in any order.
-/

namespace MessagePlan

namespace Registry

/-- Rules that all have a kind and a role, and of which no two have their kind, their role and their
    patterns in common. -/
structure Registrable (rules : List Rule) : Prop where
  named : ∀ r ∈ rules, r.kind ≠ "" ∧ r.role ≠ ""
  distinct : rules.Pairwise fun r s =>
    ¬ (r.kind = s.kind ∧ r.role = s.role ∧ r.inbounds = s.inbounds)

variable {rules rules' : List Rule}

theorem Registrable.perm (h : Registrable rules) (hperm : rules.Perm rules') :
    Registrable rules' where
  named r hr := h.named r (hperm.mem_iff.2 hr)
  distinct := by
    refine (hperm.pairwise_iff ?_).1 h.distinct
    intro r s hne hsr
    exact hne ⟨hsr.1.symm, hsr.2.1.symm, hsr.2.2.symm⟩

/-- A rule that differs from all that were registered before goes to the end. -/
theorem register_eq_ok {reg : Registry} {r : Rule} (hnamed : r.kind ≠ "" ∧ r.role ≠ "")
    (hnew : ∀ s ∈ reg.rules, ¬ (s.kind = r.kind ∧ s.role = r.role ∧ s.inbounds = r.inbounds)) :
    reg.register r = .ok (⟨reg.rules.size⟩, ⟨reg.rules.push r⟩) := by
  have hname : (r.kind.isEmpty || r.role.isEmpty) ≠ true := by
    rw [ne_eq, Bool.or_eq_true, String.isEmpty_iff, String.isEmpty_iff, not_or]
    exact hnamed
  have hdup : (reg.rules.any fun s => s.sameTask r && s.inbounds == r.inbounds) ≠ true := by
    intro hany
    rcases Array.any_eq_true'.1 hany with ⟨s, hs, hsame⟩
    rw [Bool.and_eq_true, Rule.sameTask, Rule.isFor_iff, beq_iff_eq] at hsame
    exact hnew s hs ⟨hsame.1.1, hsame.1.2, hsame.2⟩
  unfold register
  rw [if_neg hname, if_neg hdup]

/-- Rules of which none is refused are all registered, in their order. -/
theorem registerAll_eq_ok (h : Registrable rules) :
    empty.registerAll rules = .ok ⟨rules.toArray⟩ := by
  -- Rules that have been registered before are those at the front of a longer list.
  have hrun : ∀ rest before : List Rule, Registrable (before ++ rest) →
      registerAll ⟨before.toArray⟩ rest = .ok ⟨(before ++ rest).toArray⟩ := by
    intro rest
    induction rest with
    | nil =>
      intro before _
      rw [List.append_nil]
      rfl
    | cons r rest ih =>
      intro before hall
      have hnew : ∀ s ∈ before.toArray,
          ¬ (s.kind = r.kind ∧ s.role = r.role ∧ s.inbounds = r.inbounds) := fun s hs =>
        (List.pairwise_append.1 hall.distinct).2.2 s (List.mem_toArray.1 hs) r
          List.mem_cons_self
      have hnamed := hall.named r (List.mem_append_right before List.mem_cons_self)
      unfold registerAll
      rw [register_eq_ok hnamed hnew, ok_bind, List.push_toArray]
      rw [List.append_cons before r rest] at hall ⊢
      exact ih (before ++ [r]) hall
  exact hrun rules [] h

theorem ofCalls_eq (h : Registrable rules) : ofCalls rules = ⟨rules.toArray⟩ := by
  -- Calls none of which is refused leave behind what registering the whole list leaves.
  have hrun : ∀ (calls : List Rule) (reg reg' : Registry), reg.registerAll calls = .ok reg' →
      calls.foldl after reg = reg' := by
    intro calls
    induction calls with
    | nil =>
      intro reg reg' hreg
      exact Except.ok.inj hreg
    | cons r calls ih =>
      intro reg reg' hreg
      rcases bind_eq_ok.1 hreg with ⟨⟨id, next⟩, hnext, hrest⟩
      have hafter : reg.after r = next := by rw [after, hnext]
      rw [List.foldl_cons, hafter]
      exact ih next reg' hrest
  exact hrun rules empty _ (registerAll_eq_ok h)

/-! ### Building -/

/-- Two rules raise a conflict exactly if they are not settled. -/
theorem not_conflicts_iff {r s : Rule} : conflicts rules r s = false ↔ Settled rules r s := by
  refine ⟨settled_of_not_conflicts, fun h => ?_⟩
  rw [← Bool.not_eq_true]
  intro hconflict
  simp only [conflicts, Bool.and_eq_true, Bool.not_eq_true'] at hconflict
  rcases hconflict with ⟨⟨⟨htask, hrs⟩, hsr⟩, hopen⟩
  split at hopen
  · exact Bool.false_ne_true hopen
  · rename_i shared hshared
    rcases h htask shared hshared with hcovers | hcovers | ⟨t, ht, httask, htshared⟩
    · exact Bool.false_ne_true (hrs.symm.trans hcovers)
    · exact Bool.false_ne_true (hsr.symm.trans hcovers)
    · -- The rule for what they share is one that the search for it would have met.
      rw [Bool.not_eq_true', List.any_eq_false] at hopen
      refine hopen t ht ?_
      rw [httask, htshared, beq_self_eq_true, Bool.and_self]

theorem firstConflict_eq_none {rs : List Rule} (h : rs.Pairwise (Settled rules)) :
    firstConflict rules rs = none := by
  induction h with
  | nil => rfl
  | cons hr _ ih =>
    unfold firstConflict
    rw [List.find?_eq_none.2 fun s hs => ?_]
    · exact ih
    · rw [not_conflicts_iff.2 (hr s hs)]
      exact Bool.false_ne_true

/-- Rules are built into a catalog of these rules if any two of them are settled. -/
theorem build_eq_ok_iff {c : Catalog} : (⟨rules.toArray⟩ : Registry).build = .ok c ↔
    c = ⟨rules.toArray⟩ ∧ ∀ r ∈ rules, ∀ s ∈ rules, Settled rules r s := by
  constructor
  · intro h
    rcases build_eq_ok h with ⟨hrules, hnone⟩
    exact ⟨congrArg Catalog.mk hrules, fun r hr s hs => settled_of_firstConflict hnone hr hs⟩
  · rintro ⟨rfl, hsettled⟩
    unfold build conflict?
    rw [firstConflict_eq_none (List.pairwise_of_forall_mem_list hsettled)]

/-- Two rules are settled in a list exactly if they are in any order of it. -/
theorem settled_iff_of_perm (hperm : rules.Perm rules') {r s : Rule} :
    Settled rules r s ↔ Settled rules' r s := by
  unfold Settled
  simp only [hperm.mem_iff]

theorem exists_build_iff_of_perm (hperm : rules.Perm rules') :
    (∃ c, (⟨rules.toArray⟩ : Registry).build = .ok c) ↔
      ∃ c, (⟨rules'.toArray⟩ : Registry).build = .ok c := by
  simp only [build_eq_ok_iff, exists_eq_left, settled_iff_of_perm hperm, hperm.mem_iff]

end Registry

/-! ### Resolving -/

namespace Catalog

variable {c c' : Catalog} {kind role : String} {s : Signature}

/-- Catalogs with the same rules have the same candidates, under other handles. -/
theorem exists_mem_candidates_of_mem_iff (hrules : ∀ r, r ∈ c.rules ↔ r ∈ c'.rules) {r : Rule}
    {id : RuleId} (h : (r, id) ∈ c.candidates kind role s) :
    ∃ id', (r, id') ∈ c'.candidates kind role s := by
  rcases mem_candidates.1 h with ⟨hrule, hfor, hfits⟩
  exact exists_mem_candidates ((hrules r).1 (mem_rules_of_rule? hrule)) hfor hfits

/-- A decisive catalog with the same rules finds the rule that another one finds. -/
theorem exists_resolve_of_mem_iff (hc : c.Decisive) (hc' : c'.Decisive)
    (hrules : ∀ r, r ∈ c.rules ↔ r ∈ c'.rules) {r : Rule} {id : RuleId}
    (h : c.resolve kind role s = .ok (r, id)) : ∃ id', c'.resolve kind role s = .ok (r, id') := by
  rcases (resolve_eq_ok_iff hc).1 h with ⟨hmem, hleast⟩
  rcases exists_mem_candidates_of_mem_iff hrules hmem with ⟨id', hmem'⟩
  refine ⟨id', (resolve_eq_ok_iff hc').2 ⟨hmem', fun d hd => ?_⟩⟩
  rcases exists_mem_candidates_of_mem_iff (fun r => (hrules r).symm) hd with ⟨i, hi⟩
  exact hleast (d.1, i) hi

/-- Decisive catalogs with the same rules find the same rule, or no rule that applies. -/
theorem resolve_of_mem_iff (hc : c.Decisive) (hc' : c'.Decisive)
    (hrules : ∀ r, r ∈ c.rules ↔ r ∈ c'.rules) (kind role : String) (s : Signature) :
    (∃ r id id', c.resolve kind role s = .ok (r, id) ∧ c'.resolve kind role s = .ok (r, id')) ∨
      c.resolve kind role s = .error (.noneApplies kind role s.text) ∧
        c'.resolve kind role s = .error (.noneApplies kind role s.text) := by
  rcases resolve_cases hc kind role s with ⟨_, hres⟩ | ⟨m, _, hres⟩
  · rcases resolve_cases hc' kind role s with ⟨_, hres'⟩ | ⟨m', _, hres'⟩
    · exact Or.inr ⟨hres, hres'⟩
    · -- What the second catalog finds the first one would have found.
      rcases exists_resolve_of_mem_iff hc' hc (fun r => (hrules r).symm) hres' with ⟨id, hfound⟩
      exact nomatch hres.symm.trans hfound
  · rcases exists_resolve_of_mem_iff hc hc' hrules hres with ⟨id', hres'⟩
    exact Or.inl ⟨m.1, m.2, id', hres, hres'⟩

end Catalog

namespace Registry

variable {rules rules' : List Rule}

theorem decisive_of_registrable (h : Registrable rules) {c : Catalog}
    (hc : (⟨rules.toArray⟩ : Registry).build = .ok c) : c.Decisive := by
  rw [← ofCalls_eq h] at hc
  exact Catalog.decisive_of_build hc

/-- Rules that all have a kind and a role, and no two of which have kind, role and patterns in
    common, are registered in any order. In whatever order they are, they are built into a catalog
    or refused; and the catalogs find the same rule for the same task and signature, or none. -/
theorem registration_order_irrelevant (h : Registrable rules) (hperm : rules.Perm rules') :
    ∃ reg reg', empty.registerAll rules = .ok reg ∧ empty.registerAll rules' = .ok reg' ∧
      ((∃ c, reg.build = .ok c) ↔ ∃ c', reg'.build = .ok c') ∧
      ∀ c c', reg.build = .ok c → reg'.build = .ok c' → ∀ kind role s,
        (∃ r id id',
          c.resolve kind role s = .ok (r, id) ∧ c'.resolve kind role s = .ok (r, id')) ∨
        c.resolve kind role s = .error (.noneApplies kind role s.text) ∧
          c'.resolve kind role s = .error (.noneApplies kind role s.text) := by
  have h' := h.perm hperm
  refine ⟨_, _, registerAll_eq_ok h, registerAll_eq_ok h', exists_build_iff_of_perm hperm, ?_⟩
  intro c c' hc hc'
  -- What a decisive catalog finds depends on its members, and these are the same.
  refine Catalog.resolve_of_mem_iff (decisive_of_registrable h hc)
    (decisive_of_registrable h' hc') fun r => ?_
  rw [(build_eq_ok_iff.1 hc).1, (build_eq_ok_iff.1 hc').1, List.mem_toArray, List.mem_toArray,
    hperm.mem_iff]

/-- Two rules for a sum that overlap, and the one for what they share. -/
def sumRules : List Rule := Catalog.sumCalls.take 3

/-- With the last rule for a sum registered first, the same rule is found under another handle. -/
theorem registration_order_irrelevant_sum :
    Registrable sumRules ∧ sumRules.Perm sumRules.reverse ∧
      ∃ reg reg' c c', empty.registerAll sumRules = .ok reg ∧
        empty.registerAll sumRules.reverse = .ok reg' ∧ reg.build = .ok c ∧ reg'.build = .ok c' ∧
        ∃ r, r.name = "both" ∧
          c.resolve "Addition" "out" [.constant, .constant] = .ok (r, ⟨2⟩) ∧
          ∃ id', c'.resolve "Addition" "out" [.constant, .constant] = .ok (r, id') := by
  have h : Registrable sumRules := ⟨by decide +kernel, by decide +kernel⟩
  have hperm : sumRules.Perm sumRules.reverse := (List.reverse_perm sumRules).symm
  rcases registration_order_irrelevant h hperm with ⟨reg, reg', hreg, hreg', hbuild, hfind⟩
  -- The registry holds the rules in the order given.
  have hrules : reg = ⟨sumRules.toArray⟩ :=
    Except.ok.inj (hreg.symm.trans (registerAll_eq_ok h))
  have hc : reg.build = .ok ⟨sumRules.toArray⟩ := by
    rw [hrules]
    exact toOption_eq_some.1 (by decide +kernel)
  rcases hbuild.1 ⟨_, hc⟩ with ⟨c', hc'⟩
  have hres : (⟨sumRules.toArray⟩ : Catalog).resolve "Addition" "out" [.constant, .constant] =
      .ok (⟨"both", "Addition", "out", [.constant, .constant], .pointMass, none⟩, ⟨2⟩) :=
    toOption_eq_some.1 (by decide +kernel)
  refine ⟨h, hperm, reg, reg', _, c', hreg, hreg', hc, hc', _, rfl, hres, ?_⟩
  rcases hfind _ _ hc hc' "Addition" "out" [.constant, .constant] with
    ⟨r, id, id', hr, hr'⟩ | ⟨hnone, _⟩
  · rcases Prod.mk.inj (Except.ok.inj (hres.symm.trans hr)) with ⟨hsame, _⟩
    exact ⟨id', hsame ▸ hr'⟩
  · exact nomatch hres.symm.trans hnone

end Registry

end MessagePlan
