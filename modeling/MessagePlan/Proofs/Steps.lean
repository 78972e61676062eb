import MessagePlan.Failure

/-!
# Steps Over a List

Many operations take a step for each entry of a list, one after the other, and stop where a step
fails. Two things are asked of them again and again. Where no step fails, they are what the same
steps are without failures: a map, a filter, a question asked of all entries. And where a step
may fail, what the steps preserve is preserved up to the end, or there is an entry whose step was
the one that failed.

## Theorems

* `mapM_eq_ok_map`, `anyM_eq_ok_any`, `filterM_eq_ok_filter`: Steps of which none fails.
* `mapM_eq_ok_iff`, `exists_mapM_eq_ok`: A map succeeds place by place.
* `foldlM_cases`: A fold preserves what its steps preserve, or stops at an entry.
* `foldlM_preserves`: A fold that succeeds preserves what its steps preserve.
* `foldlM_map_state`: A fold over states that are changed alike.
* `exists_of_foldlM_eq_error`: A fold that fails stops at an entry.
-/

namespace MessagePlan

variable {ε α β : Type}

section Sure

variable {k : α → Bool} {p : α → Except ε Bool} {l : List α}

theorem mapM_eq_ok_map {f : α → Except ε β} {k : α → β} (hf : ∀ a ∈ l, f a = .ok (k a)) :
    l.mapM f = .ok (l.map k) := by
  induction l with
  | nil => rfl
  | cons a l ih =>
    rw [List.mapM_cons, hf a List.mem_cons_self, ok_bind,
      ih fun b hb => hf b (List.mem_cons_of_mem a hb), ok_bind]
    rfl

theorem anyM_eq_ok_any (hp : ∀ a ∈ l, p a = .ok (k a)) : l.anyM p = .ok (l.any k) := by
  induction l with
  | nil => rfl
  | cons a l ih =>
    have hrest := ih fun b hb => hp b (List.mem_cons_of_mem a hb)
    unfold List.anyM
    rw [hp a List.mem_cons_self, ok_bind, List.any_cons]
    cases k a with
    | true => rfl
    | false => exact hrest

/-- A filter goes through its list once and turns what it has kept around at the end. -/
theorem filterM_eq_ok_filter (hp : ∀ a ∈ l, p a = .ok (k a)) : l.filterM p = .ok (l.filter k) := by
  -- The library filters through an accumulator, in reverse; so the induction is for any
  -- accumulator.
  have haux : ∀ kept : List α, List.filterAuxM p l kept = .ok ((l.filter k).reverse ++ kept) := by
    induction l with
    | nil =>
      intro kept
      rfl
    | cons a l ih =>
      intro kept
      have hrest := ih fun b hb => hp b (List.mem_cons_of_mem a hb)
      unfold List.filterAuxM
      rw [hp a List.mem_cons_self, ok_bind, hrest]
      cases hk : k a with
      | true =>
        rw [List.filter_cons_of_pos hk, List.reverse_cons, List.append_assoc]
        rfl
      | false =>
        rw [List.filter_cons_of_neg (by rw [hk]; exact Bool.false_ne_true)]
        rfl
  unfold List.filterM
  rw [haux [], ok_bind, List.append_nil, List.reverse_reverse]
  rfl

end Sure

/-- A map over a list succeeds with the results of its steps, each in the place of its entry. -/
theorem mapM_eq_ok_iff {f : α → Except ε β} {l : List α} {bs : List β} :
    l.mapM f = .ok bs ↔
      bs.length = l.length ∧
        ∀ (i : Nat) a, l[i]? = some a → ∃ b, bs[i]? = some b ∧ f a = .ok b := by
  induction l generalizing bs with
  | nil =>
    rw [List.mapM_nil, List.length_nil, List.length_eq_zero_iff]
    constructor
    · intro h
      refine ⟨(Except.ok.inj h).symm, fun i a ha => ?_⟩
      rw [List.getElem?_nil] at ha
      exact nomatch ha
    · rintro ⟨rfl, _⟩
      rfl
  | cons a l ih =>
    rw [List.mapM_cons, bind_eq_ok]
    constructor
    · rintro ⟨b, hb, h⟩
      rcases bind_eq_ok.1 h with ⟨rest, hrest, h⟩
      rcases Except.ok.inj h with rfl
      rcases ih.1 hrest with ⟨hlength, hplaces⟩
      refine ⟨congrArg (· + 1) hlength, fun i a' ha' => ?_⟩
      -- The first place is that of `a`, the others are those of the rest.
      cases i with
      | zero =>
        rw [List.getElem?_cons_zero, Option.some.injEq] at ha'
        exact ⟨b, rfl, ha' ▸ hb⟩
      | succ i => exact hplaces i a' ha'
    · rintro ⟨hlength, hplaces⟩
      cases bs with
      | nil => exact nomatch hlength
      | cons b rest =>
        rcases hplaces 0 a rfl with ⟨b', hb', hf⟩
        rw [List.getElem?_cons_zero, Option.some.injEq] at hb'
        have hrest : l.mapM f = .ok rest :=
          ih.2 ⟨Nat.succ.inj hlength, fun i a' ha' => hplaces (i + 1) a' ha'⟩
        refine ⟨b, hb' ▸ hf, ?_⟩
        rw [hrest, ok_bind]
        rfl

theorem getElem?_of_mapM {f : α → Except ε β} {l : List α} {bs : List β} (h : l.mapM f = .ok bs)
    {i : Nat} {b : β} (hb : bs[i]? = some b) : ∃ a, l[i]? = some a ∧ f a = .ok b := by
  rcases mapM_eq_ok_iff.1 h with ⟨hlength, hplaces⟩
  have hi : i < l.length := hlength ▸ (List.getElem?_eq_some_iff.1 hb).1
  -- The place of a result is the place of an entry, whose step had that result.
  rcases hplaces i l[i] (List.getElem?_eq_getElem hi) with ⟨b', hb', hf⟩
  rw [hb, Option.some.injEq] at hb'
  exact ⟨l[i], List.getElem?_eq_getElem hi, hb' ▸ hf⟩

theorem mem_of_mapM {f : α → Except ε β} {l : List α} {bs : List β} (h : l.mapM f = .ok bs)
    {b : β} : b ∈ bs ↔ ∃ a ∈ l, f a = .ok b := by
  constructor
  · intro hb
    rcases List.getElem?_of_mem hb with ⟨i, hi⟩
    rcases getElem?_of_mapM h hi with ⟨a, ha, hf⟩
    exact ⟨a, List.mem_of_getElem? ha, hf⟩
  · rintro ⟨a, ha, hf⟩
    rcases List.getElem?_of_mem ha with ⟨i, hi⟩
    rcases (mapM_eq_ok_iff.1 h).2 i a hi with ⟨b', hb', hf'⟩
    rw [hf, Except.ok.injEq] at hf'
    exact hf' ▸ List.mem_of_getElem? hb'

theorem exists_of_mapM_eq_error {f : α → Except ε β} {l : List α} {e : ε}
    (h : l.mapM f = .error e) : ∃ a ∈ l, f a = .error e := by
  induction l with
  | nil => exact nomatch h
  | cons a l ih =>
    rw [List.mapM_cons] at h
    rcases bind_eq_error.1 h with ha | ⟨b, _, h⟩
    · exact ⟨a, List.mem_cons_self, ha⟩
    · rcases bind_eq_error.1 h with hrest | ⟨rest, _, h⟩
      · rcases ih hrest with ⟨a', ha', hf⟩
        exact ⟨a', List.mem_cons_of_mem a ha', hf⟩
      · exact nomatch h

theorem exists_mapM_eq_ok {f : α → Except ε β} {l : List α} (hf : ∀ a ∈ l, ∃ b, f a = .ok b) :
    ∃ bs, l.mapM f = .ok bs := by
  cases h : l.mapM f with
  | ok bs => exact ⟨bs, rfl⟩
  | error e =>
    rcases exists_of_mapM_eq_error h with ⟨a, ha, he⟩
    rcases hf a ha with ⟨b, hb⟩
    rw [hb] at he
    exact nomatch he

/-- A fold ends with what its steps preserve, where `P` speaks of the entries gone through and the
    state they have led to, or it stops at an entry whose step fails with something to say. -/
theorem foldlM_cases (P : List α → β → Prop) (R : α → ε → Prop) {f : β → α → Except ε β}
    {l : List α} {b : β} (hb : P [] b)
    (hstep : ∀ before x after b, l = before ++ x :: after → P before b →
      (∃ b', f b x = .ok b' ∧ P (before ++ [x]) b') ∨ ∃ e, R x e ∧ f b x = .error e) :
    (∃ b', l.foldlM f b = .ok b' ∧ P l b') ∨ ∃ x ∈ l, ∃ e, R x e ∧ l.foldlM f b = .error e := by
  -- The entries that are left are taken one by one, behind those gone through.
  suffices hrun : ∀ rest before b, l = before ++ rest → P before b →
      (∃ b', rest.foldlM f b = .ok b' ∧ P l b') ∨
        ∃ x ∈ rest, ∃ e, R x e ∧ rest.foldlM f b = .error e from hrun l [] b rfl hb
  intro rest
  induction rest with
  | nil =>
    intro before b hl hP
    rw [List.append_nil] at hl
    exact Or.inl ⟨b, rfl, hl ▸ hP⟩
  | cons x rest ih =>
    intro before b hl hP
    rw [List.foldlM_cons]
    rcases hstep before x rest b hl hP with ⟨b', hb', hP'⟩ | ⟨e, hR, he⟩
    · rw [hb', ok_bind]
      have hl' : l = (before ++ [x]) ++ rest := by rw [hl, List.append_assoc, List.singleton_append]
      rcases ih (before ++ [x]) b' hl' hP' with hok | ⟨z, hz, e, hR, he⟩
      · exact Or.inl hok
      · exact Or.inr ⟨z, List.mem_cons_of_mem x hz, e, hR, he⟩
    · rw [he, error_bind]
      exact Or.inr ⟨x, List.mem_cons_self, e, hR, rfl⟩

/-- A fold that succeeds ends with what its steps preserve. -/
theorem foldlM_preserves (P : List α → β → Prop) {f : β → α → Except ε β} {l : List α} {b b' : β}
    (hb : P [] b)
    (hstep : ∀ before x after b b', l = before ++ x :: after → P before b → f b x = .ok b' →
      P (before ++ [x]) b')
    (h : l.foldlM f b = .ok b') : P l b' := by
  -- The loop that may fail is the general one; here nothing is asked of a failure.
  have hcases := foldlM_cases P (fun _ _ => True) (f := f) (l := l) hb (by
    intro before x after c hl hP
    cases hc : f c x with
    | ok c' => exact Or.inl ⟨c', rfl, hstep before x after c c' hl hP hc⟩
    | error e => exact Or.inr ⟨e, trivial, rfl⟩)
  rcases hcases with ⟨c, hc, hP⟩ | ⟨x, _, e, _, he⟩
  · rw [hc] at h
    exact Except.ok.inj h ▸ hP
  · rw [he] at h
    exact nomatch h

/-- Steps that do the same behind a change of the state lead to the same end behind that change. -/
theorem foldlM_map_state {γ : Type} {k : β → γ} {f : β → α → Except ε β} {f' : γ → α → Except ε γ}
    (hf : ∀ b a, f' (k b) a = k <$> f b a) (l : List α) (b : β) :
    l.foldlM f' (k b) = k <$> l.foldlM f b := by
  induction l generalizing b with
  | nil => rfl
  | cons a l ih =>
    rw [List.foldlM_cons, List.foldlM_cons, hf, bind_map_left, map_bind]
    exact bind_congr fun c => ih c

/-- A fold that fails stops at an entry, behind entries whose steps have not failed. -/
theorem exists_of_foldlM_eq_error {f : β → α → Except ε β} {l : List α} {b : β} {e : ε}
    (h : l.foldlM f b = .error e) : ∃ before x after b', l = before ++ x :: after ∧
      before.foldlM f b = .ok b' ∧ f b' x = .error e := by
  induction l generalizing b with
  | nil => exact nomatch h
  | cons x l ih =>
    rw [List.foldlM_cons] at h
    rcases bind_eq_error.1 h with hx | ⟨b', hb', h⟩
    · exact ⟨[], x, l, b, rfl, rfl, hx⟩
    · rcases ih h with ⟨before, z, after, c, rfl, hc, hz⟩
      refine ⟨x :: before, z, after, c, rfl, ?_, hz⟩
      rw [List.foldlM_cons, hb', ok_bind, hc]

end MessagePlan
