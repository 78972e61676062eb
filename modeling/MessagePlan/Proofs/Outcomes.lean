import MessagePlan.Proofs.Steps

/-!
# Outcomes That Say Something

An operation is expected to have a result, or to be refused for a stated cause. A handle that names
nothing is neither, and it is not the fault of whoever asked: something was trusted that should not
have been. `Answers` says that an outcome is one of the two that are expected, and what holds of the
result if there is one.

Nothing has to succeed for this. A refusal for a cause ends everything that was to follow, whatever
that was, so the outcome of several steps is looked at step by step, each with what holds of the
result before it.

## Main definitions

* `Answers`: An outcome is a result of which something holds, or a refusal for a cause.

## Theorems

* `Answers.mono`, `Answers.bind`, `Answers.asPart`: What follows from an answer.
* `Answers.exists_cause`: A failure has a cause.
* `Answers.foldlM`, `Answers.mapM`: Steps over a list.
-/

namespace MessagePlan

variable {ε δ α β : Type} {P : α → Prop} {Q : β → Prop} {x : Except (Failure ε) α}

/-- An outcome is a result of which something holds, or a refusal for a stated cause. No handle was
    met that names nothing, no names have run out, and no loop goes on for ever. -/
def Answers (x : Except (Failure ε) α) (P : α → Prop) : Prop :=
  match x with
  | .ok a => P a
  | .error (.cause _) => True
  | .error .noSuchHandle => False
  | .error .namesExhausted => False
  | .error .endless => False

theorem answers_of_eq_ok {a : α} (hx : x = .ok a) (ha : P a) : Answers x P := by
  rw [hx]
  exact ha

theorem answers_of_eq_cause {e : ε} (hx : x = .error (.cause e)) : Answers x P := by
  rw [hx]
  exact trivial

theorem answers_refuse (e : ε) : Answers (refuse e : Except (Failure ε) α) P := trivial

namespace Answers

theorem of_eq_ok (h : Answers x P) {a : α} (hx : x = .ok a) : P a := by
  rw [hx] at h
  exact h

/-- More may be said of the result than the answer says, if it follows from where it came from. -/
theorem mono (h : Answers x P) {P' : α → Prop} (hP : ∀ a, x = .ok a → P a → P' a) :
    Answers x P' := by
  cases x with
  | ok a => exact hP a rfl h
  | error e => cases e <;> exact h

/-- A step that answers may be followed by one that answers wherever it is asked. -/
theorem bind (h : Answers x P) {f : α → Except (Failure ε) β}
    (hf : ∀ a, P a → Answers (f a) Q) : Answers (x >>= f) Q := by
  cases x with
  | ok a => exact hf a h
  | error e => cases e <;> exact h

/-- Where an outcome answers, a failure has a cause. -/
theorem exists_cause (h : Answers x P) {e : Failure ε} (he : x = .error e) :
    ∃ cause, e = .cause cause := by
  rw [he] at h
  -- The other failures are those that an answer rules out.
  cases e with
  | cause e => exact ⟨e, rfl⟩
  | noSuchHandle => exact absurd h id
  | namesExhausted => exact absurd h id
  | endless => exact absurd h id

theorem asPart (h : Answers x P) (f : ε → δ) : Answers (asPart f x) P := by
  cases x with
  | ok a => exact h
  | error e => cases e <;> exact h

/-- Steps over a list that keep something up keep it up to the end. -/
theorem foldlM {f : β → α → Except (Failure ε) β} {l : List α} {b : β} (hb : Q b)
    (hf : ∀ a ∈ l, ∀ b, Q b → Answers (f b a) Q) : Answers (l.foldlM f b) Q := by
  induction l generalizing b with
  | nil => exact hb
  | cons a l ih =>
    rw [List.foldlM_cons]
    refine (hf a List.mem_cons_self b hb).bind fun b' hb' => ?_
    exact ih hb' fun c hc => hf c (List.mem_cons_of_mem a hc)

theorem mapM {f : α → Except (Failure ε) β} {l : List α} (hf : ∀ a ∈ l, Answers (f a) Q) :
    Answers (l.mapM f) fun bs => ∀ b ∈ bs, Q b := by
  induction l with
  | nil =>
    intro b hb
    exact absurd hb List.not_mem_nil
  | cons a l ih =>
    rw [List.mapM_cons]
    refine (hf a List.mem_cons_self).bind fun b hb => ?_
    refine (ih fun c hc => hf c (List.mem_cons_of_mem a hc)).bind fun bs hbs c hc => ?_
    -- What comes out is the first result or one of the others.
    rcases List.mem_cons.1 hc with rfl | hc
    · exact hb
    · exact hbs c hc

end Answers

end MessagePlan
