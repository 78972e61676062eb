/-!
# Failures

An operation that cannot be carried out says why. Most causes are the business of one part
of the library and have a type of their own there; three can arise anywhere. A handle that
names nothing is met only where an operation trusts the handle it is given or the graph it
works on: graphs that were built here never lead to it, graphs read from a document may.
The numbers in generated names are 32 bits wide and can run out. And a loop that has come back
to where it was before would go on for ever.

## Main definitions

* `Failure`: A cause, a handle that names nothing, numbers that have run out, or a loop without
  an end.
* `handled`: What a handle names.
* `refuse`: A failure for a stated cause.
* `asPart`: An outcome with its cause seen as part of another.

## Theorems

* `handled_some`, `handled_none`, `handled_eq_ok`: A handle leads to what it names, or nowhere.
* `ok_bind`, `error_bind`: What follows is done after a success and left out after a failure.
* `bind_eq_ok`, `bind_eq_error`: Two steps succeed if both do, and fail where one does.
* `asPart_eq_ok`, `asPart_eq_error`: A part succeeds and fails as it does on its own.
-/

namespace MessagePlan

/-- Why an operation was not carried out. -/
inductive Failure (ε : Type) where
  /-- The operation was refused for a stated cause. -/
  | cause (e : ε)
  /-- A handle that was taken on trust names nothing. -/
  | noSuchHandle
  /-- A kind has used up the numbers for its generated names. -/
  | namesExhausted
  /-- A loop has come back to where it was, and would go on for ever. -/
  | endless
deriving DecidableEq, Repr

/-- What a handle names, where it was trusted to name something. -/
def handled {ε α : Type} (named : Option α) : Except (Failure ε) α :=
  match named with
  | some a => .ok a
  | none => .error .noSuchHandle

/-- A handle that names something leads to it. -/
@[simp] theorem handled_some {ε α : Type} (a : α) :
    handled (some a) = (.ok a : Except (Failure ε) α) := rfl

/-- A handle that names nothing is a failure. -/
@[simp] theorem handled_none {ε α : Type} :
    handled (none : Option α) = (.error .noSuchHandle : Except (Failure ε) α) := rfl

/-- A handle leads to what it names, and to nothing else. -/
theorem handled_eq_ok {ε α : Type} {named : Option α} {a : α} :
    handled named = (.ok a : Except (Failure ε) α) ↔ named = some a := by
  cases named with
  | none => simp only [handled_none, reduceCtorEq]
  | some a' => simp only [handled_some, Except.ok.injEq, Option.some.injEq]

/-- Refuse an operation for a stated cause. -/
def refuse {ε α : Type} (e : ε) : Except (Failure ε) α := .error (.cause e)

/-- A failure with its cause seen as part of another. -/
def Failure.map {ε δ : Type} (f : ε → δ) : Failure ε → Failure δ
  | .cause e => .cause (f e)
  | .noSuchHandle => .noSuchHandle
  | .namesExhausted => .namesExhausted
  | .endless => .endless

/-- An outcome with its cause seen as part of another. -/
def asPart {ε δ α : Type} (f : ε → δ) : Except (Failure ε) α → Except (Failure δ) α
  | .ok a => .ok a
  | .error e => .error (e.map f)

section Steps

variable {ε α β : Type}

/-- After a success the next step is done with its result. -/
@[simp] theorem ok_bind (a : α) (f : α → Except ε β) : (Except.ok a >>= f) = f a := rfl

/-- After a failure the next step is left out. -/
@[simp] theorem error_bind (e : ε) (f : α → Except ε β) :
    (Except.error e >>= f) = Except.error e := rfl

/-- Two steps succeed if the first does, and the second does with its result. -/
theorem bind_eq_ok {x : Except ε α} {f : α → Except ε β} {b : β} :
    x >>= f = .ok b ↔ ∃ a, x = .ok a ∧ f a = .ok b := by
  cases x with
  | error e => simp only [error_bind, reduceCtorEq, false_and, exists_false]
  | ok a => simp only [ok_bind, Except.ok.injEq, exists_eq_left']

/-- Two steps fail if the first does, or the second does with its result. -/
theorem bind_eq_error {x : Except ε α} {f : α → Except ε β} {e : ε} :
    x >>= f = .error e ↔ x = .error e ∨ ∃ a, x = .ok a ∧ f a = .error e := by
  cases x with
  | error e' =>
    simp only [error_bind, Except.error.injEq, reduceCtorEq, false_and, exists_false, or_false]
  | ok a => simp only [ok_bind, reduceCtorEq, false_or, Except.ok.injEq, exists_eq_left']

/-- An outcome is a success if something is left of it without its failures. -/
theorem toOption_eq_some {x : Except ε α} {a : α} : x.toOption = some a ↔ x = .ok a := by
  cases x with
  | error e => simp only [Except.toOption, reduceCtorEq]
  | ok a' => simp only [Except.toOption, Option.some.injEq, Except.ok.injEq]

/-- A failure with its cause seen as part of another is not a success. -/
theorem asPart_eq_ok {δ : Type} {f : ε → δ} {x : Except (Failure ε) α} {a : α} :
    asPart f x = .ok a ↔ x = .ok a := by
  cases x with
  | error e => simp only [asPart, reduceCtorEq]
  | ok a' => simp only [asPart, Except.ok.injEq]

/-- A failure of a part is a failure with its cause seen as part of another. -/
theorem asPart_eq_error {δ : Type} {f : ε → δ} {x : Except (Failure ε) α} {e : Failure δ} :
    asPart f x = .error e ↔ ∃ e', x = .error e' ∧ e = e'.map f := by
  cases x with
  | error e' => simp only [asPart, Except.error.injEq, exists_eq_left', eq_comm]
  | ok a => simp only [asPart, reduceCtorEq, false_and, exists_false]

end Steps

end MessagePlan
