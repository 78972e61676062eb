import Mathlib.Data.List.Forall2
import MessagePlan.Rule.Catalog

/-!
# Patterns as Sets of Arrivals

A pattern is compared with an arrival by `accepts` and with another pattern by `contains` and
`meet?`, which look at the two patterns and at no arrival. Here the three are tied together:
`contains` is inclusion of the sets of arrivals, and `meet?` their intersection, so that what
two patterns share is a pattern again.

The tie is the pattern of a single arrival. To accept an arrival is to contain that pattern,
and any two patterns that contain it are comparable, so wherever two patterns overlap one of
them is inside the other. Rows of patterns are compared place by place, and there the last
property is lost: of two rows each may be the narrower one somewhere.

Inclusion of rows is a partial order, and since the sets are few it can be measured: a pattern
gets a `rank`, higher where it accepts more, and a row the sum of its ranks. A row that contains
another has a rank at least as high, and the same rank only if it is the same row.

## Main definitions

* `Pattern.Includes`: One pattern accepts all that another does.
* `Pattern.only`: The pattern of a single arrival.
* `Pattern.rank`, `rowRank`: How much a pattern, or a row of them, accepts.

## Theorems

* `accepts_iff`: To accept an arrival is to contain the pattern of it alone.
* `contains_iff_includes`: Containment is inclusion of the sets of arrivals.
* `contains_trans`, `contains_or_of_accepts`: Containment is an order, and a linear one above
  any arrival.
* `meet?_comm`, `accepts_meet?`: What two patterns share is what both accept.
* `containsAll_iff`: Rows contain one another place by place.
* `acceptsAll_overlap`: Rows that fit a signature together share a row that fits it.
* `rowRank_le`, `eq_of_containsAll_of_rowRank_le`: Inclusion of rows shows in their ranks.
-/

namespace MessagePlan

namespace Pattern

/-- Everything the second pattern accepts is accepted by the first. -/
def Includes (p q : Pattern) : Prop := ∀ a, q.accepts a = true → p.accepts a = true

/-- The pattern that accepts one arrival alone. -/
def only : Arrival → Pattern
  | .absent => .absent
  | .constant => .constant
  | .message f => .family f

variable {p q m : Pattern} {a : Arrival}

/-- A pattern contains itself, and *any* contains all, and *any message* each family; that is
    all there is to containment. -/
theorem contains_iff :
    p.contains q = true ↔ p = q ∨ p = .any ∨ p = .anyMessage ∧ ∃ f, q = .family f := by
  constructor
  · intro h
    cases p with
    | any => exact Or.inr (Or.inl rfl)
    | anyMessage =>
      cases q with
      | anyMessage => exact Or.inl rfl
      | family f => exact Or.inr (Or.inr ⟨rfl, f, rfl⟩)
      | absent => exact nomatch h
      | constant => exact nomatch h
      | any => exact nomatch h
    -- The patterns for a single arrival contain what they equal.
    | absent => exact Or.inl (beq_iff_eq.1 h)
    | constant => exact Or.inl (beq_iff_eq.1 h)
    | family f => exact Or.inl (beq_iff_eq.1 h)
  · intro h
    rcases h with rfl | rfl | ⟨rfl, f, rfl⟩
    · exact contains_refl p
    · rfl
    · rfl

theorem contains_trans (hpq : p.contains q = true) (hqm : q.contains m = true) :
    p.contains m = true := by
  rcases contains_iff.1 hpq with rfl | rfl | ⟨rfl, f, rfl⟩
  · exact hqm
  · rfl
  · -- A family contains nothing but itself.
    rcases contains_iff.1 hqm with rfl | h | ⟨h, _⟩
    · rfl
    · exact nomatch h
    · exact nomatch h

/-- To accept an arrival is to contain the pattern of it alone. -/
theorem accepts_iff : p.accepts a = true ↔ p.contains (only a) = true := by
  cases p with
  | any => exact Iff.rfl
  | anyMessage => cases a <;> exact Iff.rfl
  | family f =>
    cases a <;> simp only [accepts, contains, only, beq_iff_eq, family.injEq, reduceCtorEq,
      Bool.false_eq_true]
  | absent =>
    cases a <;> simp only [accepts, contains, only, beq_iff_eq, reduceCtorEq, Bool.false_eq_true]
  | constant =>
    cases a <;> simp only [accepts, contains, only, beq_iff_eq, reduceCtorEq, Bool.false_eq_true]

theorem eq_of_absent_accepts (h : Pattern.absent.accepts a = true) : a = .absent := by
  cases a with
  | absent => rfl
  | constant => exact nomatch h
  | message f => exact nomatch h

/-- Containment is inclusion of the sets of arrivals. -/
theorem contains_iff_includes : p.contains q = true ↔ p.Includes q := by
  constructor
  · intro h a ha
    rw [accepts_iff] at ha ⊢
    exact contains_trans h ha
  · intro h
    -- What accepts the arrivals of the second pattern, one or two of them, contains it.
    cases q with
    | absent => exact accepts_iff.1 (h .absent rfl)
    | constant => exact accepts_iff.1 (h .constant rfl)
    | family f => exact accepts_iff.1 (h (.message f) (accepts_iff.2 (contains_refl _)))
    | anyMessage =>
      have h₁ := accepts_iff.1 (h (.message .gaussian) rfl)
      have h₂ := accepts_iff.1 (h (.message .gamma) rfl)
      rcases contains_iff.1 h₁ with rfl | rfl | ⟨rfl, _⟩
      · -- One family does not contain another.
        exact absurd h₂ (by decide)
      · rfl
      · rfl
    | any =>
      have h₁ := accepts_iff.1 (h .absent rfl)
      have h₂ := accepts_iff.1 (h .constant rfl)
      rcases contains_iff.1 h₁ with rfl | rfl | ⟨_, f, hf⟩
      · exact absurd h₂ (by decide)
      · rfl
      · exact nomatch hf

/-- Patterns that accept an arrival together are comparable. -/
theorem contains_or_of_accepts (hp : p.accepts a = true) (hq : q.accepts a = true) :
    p.contains q = true ∨ q.contains p = true := by
  -- Above the pattern of one arrival there are at most two more, one above the other.
  rw [accepts_iff] at hp hq
  rcases contains_iff.1 hp with rfl | rfl | ⟨rfl, f, hf⟩
  · exact Or.inr hq
  · exact Or.inl rfl
  · rw [hf] at hq
    rcases contains_iff.1 hq with rfl | rfl | ⟨rfl, _⟩
    · exact Or.inl rfl
    · exact Or.inr rfl
    · exact Or.inl rfl

/-- How much a pattern accepts. -/
def rank : Pattern → Nat
  | .absent => 0
  | .constant => 0
  | .family _ => 0
  | .anyMessage => 1
  | .any => 2

theorem rank_le_two : p.rank ≤ 2 := by
  unfold rank
  split <;> omega

theorem eq_any_of_two_le_rank (h : 2 ≤ p.rank) : p = .any := by
  cases p with
  | any => rfl
  | anyMessage => exact absurd h (Nat.not_succ_le_self 1)
  | family f => exact absurd h (Nat.not_succ_le_zero 1)
  | absent => exact absurd h (Nat.not_succ_le_zero 1)
  | constant => exact absurd h (Nat.not_succ_le_zero 1)

theorem rank_le (h : p.contains q = true) : q.rank ≤ p.rank := by
  rcases contains_iff.1 h with rfl | rfl | ⟨rfl, f, rfl⟩
  · exact Nat.le_refl _
  · exact rank_le_two
  · exact Nat.zero_le _

/-- A pattern that contains another and accepts no more is the same. -/
theorem eq_of_contains_of_rank_le (h : p.contains q = true) (hr : p.rank ≤ q.rank) : p = q := by
  rcases contains_iff.1 h with rfl | rfl | ⟨rfl, f, rfl⟩
  · rfl
  · exact (eq_any_of_two_le_rank hr).symm
  · exact absurd hr (Nat.not_succ_le_zero 0)

theorem contains_antisymm (hpq : p.contains q = true) (hqp : q.contains p = true) : p = q :=
  eq_of_contains_of_rank_le hpq (rank_le hqp)

/-- Patterns that meet are comparable, and meet in the smaller one. -/
theorem meet?_eq_some :
    p.meet? q = some m ↔ p.contains q = true ∧ m = q ∨ q.contains p = true ∧ m = p := by
  unfold meet?
  by_cases hpq : p.contains q = true
  · -- Where each contains the other they are the same, and both answers agree.
    rw [if_pos hpq]
    constructor
    · intro h
      exact Or.inl ⟨hpq, (Option.some.inj h).symm⟩
    · intro h
      rcases h with ⟨_, rfl⟩ | ⟨hqp, rfl⟩
      · rfl
      · rw [contains_antisymm hpq hqp]
  · rw [if_neg hpq]
    by_cases hqp : q.contains p = true
    · simp only [hpq, hqp, if_true, Option.some.injEq, Bool.false_eq_true, false_and, false_or,
        true_and, eq_comm]
    · simp only [hpq, hqp, Bool.false_eq_true, if_false, reduceCtorEq, false_and, or_false]

theorem meet?_comm : p.meet? q = q.meet? p := by
  ext m
  rw [meet?_eq_some, meet?_eq_some, or_comm]

/-- What two patterns share is what both accept. -/
theorem accepts_meet? (h : p.meet? q = some m) :
    m.accepts a = true ↔ p.accepts a = true ∧ q.accepts a = true := by
  rcases meet?_eq_some.1 h with ⟨hc, rfl⟩ | ⟨hc, rfl⟩
  · exact ⟨fun ha => ⟨contains_iff_includes.1 hc a ha, ha⟩, fun ha => ha.2⟩
  · exact ⟨fun ha => ⟨ha, contains_iff_includes.1 hc a ha⟩, fun ha => ha.1⟩

theorem exists_meet? (hp : p.accepts a = true) (hq : q.accepts a = true) :
    ∃ m, p.meet? q = some m := by
  rcases contains_or_of_accepts hp hq with h | h
  · exact ⟨q, meet?_eq_some.2 (Or.inl ⟨h, rfl⟩)⟩
  · exact ⟨p, meet?_eq_some.2 (Or.inr ⟨h, rfl⟩)⟩

theorem contains_meet? (h : p.meet? q = some m) : p.contains m = true := by
  rcases meet?_eq_some.1 h with ⟨hc, rfl⟩ | ⟨_, rfl⟩
  · exact hc
  · exact contains_refl m

end Pattern

section Rows

variable {ps qs ms : List Pattern} {s : Signature}

/-- Rows contain one another place by place. -/
theorem containsAll_iff : containsAll ps qs = true ↔ List.Forall₂ Pattern.Includes ps qs := by
  -- Rows of different lengths contain one another neither way.
  induction ps generalizing qs with
  | nil =>
    cases qs with
    | nil => exact iff_of_true rfl List.Forall₂.nil
    | cons q qs => exact iff_of_false (fun h => nomatch h) (fun h => nomatch h)
  | cons p ps ih =>
    cases qs with
    | nil => exact iff_of_false (fun h => nomatch h) (fun h => nomatch h)
    | cons q qs =>
      simp only [containsAll, Bool.and_eq_true, List.forall₂_cons, ih,
        Pattern.contains_iff_includes]

theorem containsAll_refl (ps : List Pattern) : containsAll ps ps = true := by
  induction ps with
  | nil => rfl
  | cons p ps ih => simp only [containsAll, Pattern.contains_refl, ih, Bool.and_self]

theorem length_of_acceptsAll (h : acceptsAll ps s = true) : ps.length = s.length := by
  induction ps generalizing s with
  | nil =>
    cases s with
    | nil => rfl
    | cons a s => exact nomatch h
  | cons p ps ih =>
    cases s with
    | nil => exact nomatch h
    | cons a s =>
      simp only [acceptsAll, Bool.and_eq_true] at h
      rw [List.length_cons, List.length_cons, ih h.2]

/-- Two rows that are not empty meet in a row whose first place is where their first places
    meet. -/
theorem meetAll?_cons {p q : Pattern} :
    meetAll? (p :: ps) (q :: qs) = some ms ↔
      ∃ m ms', p.meet? q = some m ∧ meetAll? ps qs = some ms' ∧ ms = m :: ms' := by
  simp only [meetAll?]
  cases p.meet? q with
  | none => simp only [reduceCtorEq, false_and, exists_const]
  | some m =>
    cases meetAll? ps qs with
    | none => simp only [reduceCtorEq, false_and, and_false, exists_const]
    | some ms' =>
      simp only [Option.some.injEq, eq_comm, exists_and_left, exists_eq_left']

theorem meetAll?_comm (ps qs : List Pattern) : meetAll? ps qs = meetAll? qs ps := by
  induction ps generalizing qs with
  | nil => cases qs <;> rfl
  | cons p ps ih =>
    cases qs with
    | nil => rfl
    | cons q qs => simp only [meetAll?, Pattern.meet?_comm, ih]

/-- What two rows share is inside the first of them. -/
theorem containsAll_meetAll? (h : meetAll? ps qs = some ms) : containsAll ps ms = true := by
  induction ps generalizing qs ms with
  | nil =>
    cases qs with
    | nil => rw [← Option.some.inj h]; rfl
    | cons q qs => exact nomatch h
  | cons p ps ih =>
    cases qs with
    | nil => exact nomatch h
    | cons q qs =>
      rcases meetAll?_cons.1 h with ⟨m, ms', hm, hms, rfl⟩
      simp only [containsAll, Pattern.contains_meet? hm, ih hms, Bool.and_self]

/-- Rows that fit a signature together share a row that fits it. -/
theorem acceptsAll_overlap (hp : acceptsAll ps s = true) (hq : acceptsAll qs s = true) :
    ∃ ms, meetAll? ps qs = some ms ∧ acceptsAll ms s = true := by
  -- The signature is as long as both rows and goes along with them.
  induction s generalizing ps qs with
  | nil =>
    cases ps with
    | nil =>
      cases qs with
      | nil => exact ⟨[], rfl, rfl⟩
      | cons q qs => exact nomatch hq
    | cons p ps => exact nomatch hp
  | cons a s ih =>
    cases ps with
    | nil => exact nomatch hp
    | cons p ps =>
      cases qs with
      | nil => exact nomatch hq
      | cons q qs =>
        simp only [acceptsAll, Bool.and_eq_true] at hp hq
        -- In each place the two patterns accept the same arrival, and so they meet.
        rcases Pattern.exists_meet? hp.1 hq.1 with ⟨m, hm⟩
        rcases ih hp.2 hq.2 with ⟨ms, hms, hs⟩
        refine ⟨m :: ms, meetAll?_cons.2 ⟨m, ms, hm, hms, rfl⟩, ?_⟩
        simp only [acceptsAll, (Pattern.accepts_meet? hm).2 ⟨hp.1, hq.1⟩, hs, Bool.and_self]

/-- How much a row accepts. -/
def rowRank : List Pattern → Nat
  | [] => 0
  | p :: ps => p.rank + rowRank ps

theorem rowRank_le (h : containsAll ps qs = true) : rowRank qs ≤ rowRank ps := by
  induction ps generalizing qs with
  | nil =>
    cases qs with
    | nil => exact Nat.le_refl _
    | cons q qs => exact nomatch h
  | cons p ps ih =>
    cases qs with
    | nil => exact nomatch h
    | cons q qs =>
      simp only [containsAll, Bool.and_eq_true] at h
      exact Nat.add_le_add (Pattern.rank_le h.1) (ih h.2)

/-- A row that contains another and accepts no more is the same. -/
theorem eq_of_containsAll_of_rowRank_le (h : containsAll ps qs = true)
    (hr : rowRank ps ≤ rowRank qs) : ps = qs := by
  induction ps generalizing qs with
  | nil =>
    cases qs with
    | nil => rfl
    | cons q qs => exact nomatch h
  | cons p ps ih =>
    cases qs with
    | nil => exact nomatch h
    | cons q qs =>
      simp only [containsAll, Bool.and_eq_true] at h
      simp only [rowRank] at hr
      -- Neither the first place nor the rest can gain, so neither of them loses.
      have hhead : q.rank ≤ p.rank := Pattern.rank_le h.1
      have htail : rowRank qs ≤ rowRank ps := rowRank_le h.2
      have hpq : p = q := Pattern.eq_of_contains_of_rank_le h.1 (by omega)
      have hps : ps = qs := ih h.2 (by omega)
      rw [hpq, hps]

end Rows

end MessagePlan
