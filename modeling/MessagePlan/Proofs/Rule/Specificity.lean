import MessagePlan.Proofs.Rule.Inclusion

/-!
# Specificity as Inclusion

A catalog compares rules without a signature at hand: one rule is at least as specific as another if
its patterns are contained in the other's, place by place, and two rules conflict over the row in
which their patterns meet. What a rule is for is to fit signatures. Here the comparison of rows is
tied to the signatures that they fit, for rows of any two lengths.

From rows to signatures this is done place by place. The way back needs a signature to ask about.
Every pattern accepts some arrival, so every row fits some signature, and in such a signature a
single place can be varied: a row that fits wherever another does contains it in that place. Rows of
different lengths fit no signature together, and no row contains one of another length.

## Theorems

* `exists_accepts`, `exists_acceptsAll`: Patterns and rows accept something.
* `acceptsAll_of_containsAll`: A row fits wherever one that it contains does.
* `containsAll_iff_acceptsAll`: Rows of one length are compared by the signatures they fit.
* `acceptsAll_meetAll?`: The row in which two meet fits what both fit.
* `containsAll_trans`, `containsAll_antisymm_iff`: Containment of rows is a partial order.
* `specificity_is_inclusion`: The same of rules.
-/

namespace MessagePlan

section Rows

variable {ps qs ms : List Pattern} {s : Signature}

/-- No pattern is the empty set of arrivals. -/
theorem Pattern.exists_accepts (p : Pattern) : ∃ a, p.accepts a = true := by
  cases p with
  | absent => exact ⟨.absent, rfl⟩
  | constant => exact ⟨.constant, rfl⟩
  | family f => exact ⟨.message f, beq_self_eq_true f⟩
  | anyMessage => exact ⟨.message .gaussian, rfl⟩
  | any => exact ⟨.absent, rfl⟩

/-- Each row fits a signature, which may be empty as the row may. -/
theorem exists_acceptsAll (ps : List Pattern) : ∃ s, acceptsAll ps s = true := by
  induction ps with
  | nil => exact ⟨[], rfl⟩
  | cons p ps ih =>
    rcases p.exists_accepts with ⟨a, ha⟩
    rcases ih with ⟨s, hs⟩
    exact ⟨a :: s, by rw [acceptsAll, ha, hs, Bool.and_self]⟩

theorem length_of_containsAll (h : containsAll ps qs = true) : ps.length = qs.length :=
  (containsAll_iff.1 h).length_eq

/-- A row fits wherever one that it contains does. -/
theorem acceptsAll_of_containsAll (h : containsAll ps qs = true) (hs : acceptsAll qs s = true) :
    acceptsAll ps s = true := by
  induction ps generalizing qs s with
  | nil =>
    cases qs with
    | nil => exact hs
    | cons q qs => exact nomatch h
  | cons p ps ih =>
    -- Rows of different lengths contain nothing of one another.
    cases qs with
    | nil => exact nomatch h
    | cons q qs =>
      cases s with
      | nil => exact nomatch hs
      | cons a s =>
        simp only [containsAll, acceptsAll, Bool.and_eq_true] at h hs ⊢
        exact ⟨Pattern.contains_iff_includes.1 h.1 a hs.1, ih h.2 hs.2⟩

/-- A row contains one of the same length if it fits wherever that one does. -/
theorem containsAll_of_acceptsAll (hlength : ps.length = qs.length)
    (h : ∀ s, acceptsAll qs s = true → acceptsAll ps s = true) : containsAll ps qs = true := by
  induction ps generalizing qs with
  | nil =>
    cases qs with
    | nil => rfl
    | cons q qs => exact nomatch hlength
  | cons p ps ih =>
    cases qs with
    | nil => exact nomatch hlength
    | cons q qs =>
      rcases q.exists_accepts with ⟨a, ha⟩
      rcases exists_acceptsAll qs with ⟨s, hs⟩
      -- One place is varied, and the others are held at what the second row accepts there.
      have hhead : p.Includes q := by
        intro a' ha'
        have hfits := h (a' :: s) (by rw [acceptsAll, ha', hs, Bool.and_self])
        rw [acceptsAll, Bool.and_eq_true] at hfits
        exact hfits.1
      have htail : containsAll ps qs = true := by
        refine ih (Nat.succ.inj hlength) fun s' hs' => ?_
        have hfits := h (a :: s') (by rw [acceptsAll, ha, hs', Bool.and_self])
        rw [acceptsAll, Bool.and_eq_true] at hfits
        exact hfits.2
      rw [containsAll, Pattern.contains_iff_includes.2 hhead, htail, Bool.and_self]

/-- Rows of one length are compared by the signatures they fit. -/
theorem containsAll_iff_acceptsAll : containsAll ps qs = true ↔
    ps.length = qs.length ∧ ∀ s, acceptsAll qs s = true → acceptsAll ps s = true := by
  constructor
  · intro h
    exact ⟨length_of_containsAll h, fun s hs => acceptsAll_of_containsAll h hs⟩
  · rintro ⟨hlength, h⟩
    exact containsAll_of_acceptsAll hlength h

/-- The row in which two rows meet fits what both of them fit. -/
theorem acceptsAll_meetAll? (h : meetAll? ps qs = some ms) :
    acceptsAll ms s = true ↔ acceptsAll ps s = true ∧ acceptsAll qs s = true := by
  constructor
  · intro hs
    -- The row lies inside both.
    have hfirst : containsAll ps ms = true := containsAll_meetAll? h
    have hsecond : containsAll qs ms = true := containsAll_meetAll? (meetAll?_comm ps qs ▸ h)
    exact ⟨acceptsAll_of_containsAll hfirst hs, acceptsAll_of_containsAll hsecond hs⟩
  · rintro ⟨hp, hq⟩
    rcases acceptsAll_overlap hp hq with ⟨ms', hms', hs⟩
    rw [h, Option.some.injEq] at hms'
    exact hms' ▸ hs

/-- Rows meet exactly if there is a signature that both fit. -/
theorem exists_meetAll?_iff :
    (∃ ms, meetAll? ps qs = some ms) ↔ ∃ s, acceptsAll ps s = true ∧ acceptsAll qs s = true := by
  constructor
  · rintro ⟨ms, hms⟩
    rcases exists_acceptsAll ms with ⟨s, hs⟩
    exact ⟨s, (acceptsAll_meetAll? hms).1 hs⟩
  · rintro ⟨s, hp, hq⟩
    rcases acceptsAll_overlap hp hq with ⟨ms, hms, _⟩
    exact ⟨ms, hms⟩

theorem containsAll_trans (hpq : containsAll ps qs = true) (hqm : containsAll qs ms = true) :
    containsAll ps ms = true := by
  rw [containsAll_iff_acceptsAll] at hpq hqm ⊢
  exact ⟨hpq.1.trans hqm.1, fun s hs => hpq.2 s (hqm.2 s hs)⟩

/-- Rows that contain each other are the same. -/
theorem containsAll_antisymm_iff :
    containsAll ps qs = true ∧ containsAll qs ps = true ↔ ps = qs := by
  constructor
  · rintro ⟨hpq, hqp⟩
    exact eq_of_containsAll_of_rowRank_le hpq (rowRank_le hqp)
  · rintro rfl
    exact ⟨containsAll_refl ps, containsAll_refl ps⟩

end Rows

/-- Whatever the lengths of their rows, a rule covers another exactly if the rows are of one length
    and it fits every signature that the other fits; two rules overlap exactly if there is a
    signature that both fit, what they share fits the signatures that both do, and if they share
    nothing there is none. To cover is a partial order of rules, up to the rows that they have. -/
theorem specificity_is_inclusion (a b : Rule) :
    (a.covers b = true ↔ a.inbounds.length = b.inbounds.length ∧
      ∀ s, b.fits s = true → a.fits s = true) ∧
    ((∃ shared, a.overlap? b = some shared) ↔ ∃ s, a.fits s = true ∧ b.fits s = true) ∧
    (∀ shared, a.overlap? b = some shared → ∀ s,
      acceptsAll shared s = true ↔ a.fits s = true ∧ b.fits s = true) ∧
    (a.overlap? b = none → ∀ s, ¬ (a.fits s = true ∧ b.fits s = true)) ∧
    a.covers a = true ∧
    (∀ c : Rule, a.covers b = true → b.covers c = true → a.covers c = true) ∧
    (a.covers b = true ∧ b.covers a = true ↔ a.inbounds = b.inbounds) := by
  refine ⟨containsAll_iff_acceptsAll, exists_meetAll?_iff, fun shared h s => acceptsAll_meetAll? h,
    fun hnone s hs => ?_, containsAll_refl a.inbounds, fun c => containsAll_trans,
    containsAll_antisymm_iff⟩
  -- A signature that fits both would be in the overlap.
  rcases exists_meetAll?_iff.2 ⟨s, hs⟩ with ⟨shared, hshared⟩
  rw [Rule.overlap?, hshared] at hnone
  exact nomatch hnone

end MessagePlan
