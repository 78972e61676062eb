import MessagePlan.Decimal.Literal
import MessagePlan.Document.Fields
import MessagePlan.Proofs.Json.Reading

/-!
# Plain Values Are Read Back

Strings, numbers and doubles as they are written, and what is read of them. A string that was
written is gone through by the reader, since nothing in it ends the string: the quote and the
backslash are escaped, and so is every control. A natural number is written without zeros in front,
as the reader wants it, and its digits stand for it.

For doubles, how they are written and how they are read is two computations in different arithmetic,
and that the one undoes the other is not true of every double. `ReadsBack` says of a double that it
does, for the text of the double alone. What has to be shown is that it is then read back inside a
larger text as well. All characters of a literal go on with a number or nothing does, so a literal
that is read at all is read as one number; and this does not depend on what is open around it.

## Main definitions

* `isNumeric`: The characters of a literal.
* `ReadsBack`: A double that is read from the text it is written as.

## Theorems

* `isRaw_encode`: A string that was written is gone through.
* `isLiteral_repr`, `below?_repr`: A natural number is a literal, and stands for itself.
* `feed_numeric`, `isLiteral_of_numeric`: A literal that is read is read anywhere.
* `numeric_decimalText`, `numeric_ofFloat`: The characters of a double.
* `ReadsBack.readable`: A double that is read back is read back anywhere.
-/

namespace MessagePlan.Json

variable {m : Machine} {opened : List Open} {c : Char} {cs : List Char}

/-! ### Strings -/

/-- Whether a character is a hexadecimal digit. -/
def isHexadecimal (c : Char) : Bool := c.isDigit || ('a' ≤ c && c ≤ 'f') || ('A' ≤ c && c ≤ 'F')

theorem isHexadecimal_hexDigit : ∀ n < 0x20,
    isHexadecimal (hexDigit (n / 16)) = true ∧ isHexadecimal (hexDigit n) = true := by
  decide +kernel

/-- A digit of an escape is taken, and the last one ends the escape. -/
theorem step_hexadecimal (hc : isHexadecimal c = true) (isName : Bool) (left : Nat)
    (read : List Char) : (⟨opened, .string isName (.digits left) read⟩ : Machine).step c =
      some ⟨opened, .string isName (if left ≤ 1 then .none else .digits (left - 1)) (c :: read)⟩ :=
  if_pos hc

/-- A character that was written is gone through, and the string goes on behind it. -/
theorem feed_encodeChar (opened : List Open) (isName : Bool) (read : List Char) (c : Char) :
    (⟨opened, .string isName .none read⟩ : Machine).feed (encodeChar c) =
      some ⟨opened, .string isName .none ((encodeChar c).reverse ++ read)⟩ := by
  unfold encodeChar
  -- The short escapes, each of two characters.
  split
  · rfl
  split
  · rfl
  rename_i hquote hslash
  split
  · rfl
  split
  · rfl
  split
  · rfl
  split
  · rfl
  split
  · rfl
  -- The other controls, with four digits, then what stands for itself.
  split
  · rename_i hcontrol
    rcases isHexadecimal_hexDigit c.toNat hcontrol with ⟨hhigh, hlow⟩
    have hfront : (⟨opened, .string isName .none read⟩ : Machine).feed ['\\', 'u', '0', '0'] =
        some ⟨opened, .string isName (.digits 2) ('0' :: '0' :: 'u' :: '\\' :: read)⟩ := rfl
    have hdigits : (⟨opened, .string isName (.digits 2) ('0' :: '0' :: 'u' :: '\\' :: read)⟩ :
        Machine).feed [hexDigit (c.toNat / 16), hexDigit c.toNat] =
        some ⟨opened, .string isName .none (hexDigit c.toNat :: hexDigit (c.toNat / 16) ::
          '0' :: '0' :: 'u' :: '\\' :: read)⟩ := by
      rw [Machine.feed_cons_of_step (step_hexadecimal hhigh isName 2 _)]
      exact Machine.feed_cons_of_step (step_hexadecimal hlow isName 1 _)
    exact (Machine.feed_append_of_feed hfront).trans hdigits
  · rename_i hplain
    simp only [Machine.feed, Machine.step, Machine.stepString, hquote, hslash, hplain, if_false]
    rfl

/-- A string that was written is gone through between its quotes. -/
theorem isRaw_encode (s : String) : IsRaw (encode s) := by
  intro opened isName
  -- Nothing written for one character ends the string, whatever has been read.
  have hrun : ∀ (cs read : List Char),
      (⟨opened, .string isName .none read⟩ : Machine).feed (cs.flatMap encodeChar) =
        some ⟨opened, .string isName .none ((cs.flatMap encodeChar).reverse ++ read)⟩ := by
    intro cs
    induction cs with
    | nil =>
      intro read
      rfl
    | cons c cs ih =>
      intro read
      rw [List.flatMap_cons, Machine.feed_append_of_feed (feed_encodeChar opened isName read c), ih,
        List.reverse_append, List.append_assoc]
  rw [encode, String.toList_ofList, hrun, List.append_nil]

/-- A name that needs no escapes is gone through as it stands. -/
theorem isRaw_of_encode_eq {name : String} (h : encode name = name) : IsRaw name := by
  rw [← h]
  exact isRaw_encode name

/-! ### Natural numbers -/

/-- A positive number is written without zeros in front. -/
theorem exists_toDigits_cons {n : Nat} (hn : n ≠ 0) :
    ∃ c cs, Nat.toDigits 10 n = c :: cs ∧ c ≠ '0' ∧ ∀ d ∈ c :: cs, d.isDigit = true := by
  have hdigit : ∀ d ∈ Nat.toDigits 10 n, d.isDigit = true :=
    fun d hd => Nat.isDigit_of_mem_toDigits (by decide) (by decide) hd
  have hfront : ∃ c cs, Nat.toDigits 10 n = c :: cs ∧ c ≠ '0' := by
    induction n using Nat.strongRecOn with
    | ind n ih =>
      rw [Nat.toDigits_eq_if (by decide)]
      by_cases hlt : n < 10
      · rw [if_pos hlt]
        have hall : ∀ n < 10, n ≠ 0 → n.digitChar ≠ '0' := by decide
        exact ⟨n.digitChar, [], rfl, hall n hlt hn⟩
      · -- The front of a longer number is that of the number without its last digit.
        have hpos : n / 10 ≠ 0 := by omega
        have hmem : ∀ d ∈ Nat.toDigits 10 (n / 10), d.isDigit = true :=
          fun d hd => Nat.isDigit_of_mem_toDigits (by decide) (by decide) hd
        rcases ih (n / 10) (by omega) hpos hmem with ⟨c, cs, heq, hc⟩
        rw [if_neg hlt, heq, List.cons_append]
        exact ⟨c, _, rfl, hc⟩
  rcases hfront with ⟨c, cs, heq, hc⟩
  exact ⟨c, cs, heq, hc, heq ▸ hdigit⟩

/-- Further digits go on with a number. -/
theorem feed_digits (hcs : ∀ c ∈ cs, c.isDigit = true) (opened : List Open) (read : List Char) :
    (⟨opened, .number .whole read⟩ : Machine).feed cs =
      some ⟨opened, .number .whole (cs.reverse ++ read)⟩ := by
  induction cs generalizing read with
  | nil => rfl
  | cons c cs ih =>
    have hstep : (⟨opened, .number .whole read⟩ : Machine).step c =
        some ⟨opened, .number .whole (c :: read)⟩ := by
      simp only [Machine.step, Machine.continueNumber?, hcs c List.mem_cons_self, if_true]
    rw [Machine.feed_cons_of_step hstep, ih fun d hd => hcs d (List.mem_cons_of_mem c hd),
      List.reverse_cons, List.append_assoc, List.singleton_append]

/-- A digit begins a number and nothing else. -/
theorem begin?_of_isDigit (hc : c.isDigit = true) (hzero : c ≠ '0') (opened : List Open) :
    (⟨opened, .value⟩ : Machine).step c = some ⟨opened, .number .whole [c]⟩ := by
  have hne : ∀ d : Char, d.isDigit = false → c ≠ d := by
    rintro d hd rfl
    exact Bool.false_ne_true (hd.symm.trans hc)
  have hblank : Machine.isBlank c = false := by
    simp only [Machine.isBlank, Bool.or_eq_false_iff, beq_eq_false_iff_ne]
    exact ⟨⟨⟨hne ' ' rfl, hne '\n' rfl⟩, hne '\t' rfl⟩, hne '\r' rfl⟩
  simp only [Machine.step, Machine.begin?, hblank, hne '"' rfl, hne '[' rfl, hne '\x7b' rfl,
    hne '-' rfl, hzero, hc, Bool.false_eq_true, if_false, if_true]

/-- A natural number is written as a literal. -/
theorem isLiteral_repr (n : Nat) : IsLiteral (Nat.repr n) := by
  by_cases hn : n = 0
  · rw [hn]
    exact ⟨.zero, rfl, fun opened => rfl⟩
  · rcases exists_toDigits_cons hn with ⟨c, cs, heq, hc, hdigit⟩
    refine ⟨.whole, rfl, fun opened => ?_⟩
    rw [Nat.toList_repr, heq,
      Machine.feed_cons_of_step (begin?_of_isDigit (hdigit c List.mem_cons_self) hc opened),
      feed_digits (fun d hd => hdigit d (List.mem_cons_of_mem c hd)), List.reverse_cons]

theorem ofDigits_map_digit (cs : List Char) :
    Decimal.ofDigits (cs.map Decimal.digit) = Nat.ofDigitChars 10 cs 0 := by
  rw [Decimal.ofDigits, List.foldl_map, Nat.ofDigitChars_eq_foldl]
  simp only [Decimal.digit, Nat.mul_comm]

/-- The digits of a natural number stand for it. -/
theorem wholeNumber?_repr (n : Nat) : Decimal.wholeNumber? (Nat.repr n) = some n := by
  by_cases hn : n = 0
  · rw [hn]
    rfl
  · rcases exists_toDigits_cons hn with ⟨c, cs, heq, hc, hdigit⟩
    have hvalue : Decimal.ofDigits ((c :: cs).map Decimal.digit) = n := by
      rw [ofDigits_map_digit, ← heq, Nat.ofDigitChars_ten_toDigits]
    have hall : (c :: cs).all Char.isDigit = true := List.all_eq_true.2 hdigit
    rw [Decimal.wholeNumber?, Nat.toList_repr, heq]
    -- A literal with a leading zero is refused, and only zero has one.
    split
    · rename_i hnil
      exact nomatch hnil
    · rename_i hone
      exact absurd (List.cons.inj hone).1 hc
    · rename_i hone
      exact absurd (List.cons.inj hone).1 hc
    · rw [if_pos hall, hvalue]

theorem below?_repr {n bound : Nat} (hn : n < bound) : below? bound (Nat.repr n) = some n := by
  rw [below?, wholeNumber?_repr, Option.filter_some, if_pos (decide_eq_true hn)]

/-! ### Doubles -/

/-- Whether a character may stand in a literal that is written. -/
def isNumeric (c : Char) : Bool := c.isDigit || c == '.' || c == 'e' || c == '+' || c == '-'

/-- A character of a literal is no blank. -/
theorem isBlank_of_isNumeric (hc : isNumeric c = true) : Machine.isBlank c = false := by
  have hne : ∀ d : Char, isNumeric d = false → (c == d) = false := by
    intro d hd
    rw [beq_eq_false_iff_ne]
    rintro rfl
    exact Bool.false_ne_true (hd.symm.trans hc)
  rw [Machine.isBlank, hne ' ' rfl, hne '\n' rfl, hne '\t' rfl, hne '\r' rfl]
  rfl

/-- A literal that is read to its end is read as one number, and whatever is open around it. -/
theorem feed_numeric (hcs : ∀ c ∈ cs, isNumeric c = true) {part : NumberPart} {read : List Char}
    {j : Json} (h : ((⟨[], .number part read⟩ : Machine).feed cs).bind Machine.result? = some j) :
    j = .number (String.ofList (read.reverse ++ cs)) ∧
      ∃ last, Machine.canEnd last = true ∧ ∀ opened : List Open,
        (⟨opened, .number part read⟩ : Machine).feed cs =
          some ⟨opened, .number last (cs.reverse ++ read)⟩ := by
  induction cs generalizing part read with
  | nil =>
    simp only [Machine.feed, Option.bind_some, Machine.result?, List.isEmpty_nil,
      Bool.true_and] at h
    split at h
    · rename_i hend
      rw [List.append_nil]
      exact ⟨(Option.some.inj h).symm, part, hend, fun opened => rfl⟩
    · exact absurd h.symm (Option.some_ne_none j)
  | cons c cs ih =>
    cases hnext : Machine.continueNumber? part c with
    | some next =>
      have hstep : ∀ opened : List Open, (⟨opened, .number part read⟩ : Machine).step c =
          some ⟨opened, .number next (c :: read)⟩ := by
        intro opened
        simp only [Machine.step, hnext]
      rw [Machine.feed_cons_of_step (hstep [])] at h
      rcases ih (fun d hd => hcs d (List.mem_cons_of_mem c hd)) h with ⟨rfl, last, hend, hfeed⟩
      refine ⟨by rw [List.reverse_cons, List.append_assoc, List.singleton_append], last, hend,
        fun opened => ?_⟩
      rw [Machine.feed_cons_of_step (hstep opened), hfeed opened, List.reverse_cons,
        List.append_assoc, List.singleton_append]
    | none =>
      -- A number that has ended could only be followed by a blank.
      have hblank := isBlank_of_isNumeric (hcs c List.mem_cons_self)
      have hstep : (⟨[], .number part read⟩ : Machine).step c = none := by
        simp only [Machine.step, hnext]
        split
        · simp only [Machine.stepBetween, Machine.complete, hblank, Bool.false_eq_true, if_false]
        · rfl
      rw [Machine.feed, hstep] at h
      exact absurd h.symm (Option.some_ne_none j)

/-- A character of a literal begins a number, or no value. -/
theorem begin?_of_isNumeric (hc : isNumeric c = true) :
    (∃ part, ∀ opened : List Open,
      (⟨opened, .value⟩ : Machine).step c = some ⟨opened, .number part [c]⟩) ∨
    ∀ opened : List Open, (⟨opened, .value⟩ : Machine).step c = none := by
  have hblank := isBlank_of_isNumeric hc
  by_cases hdigit : c.isDigit = true
  · by_cases hzero : c = '0'
    · rw [hzero]
      exact Or.inl ⟨.zero, fun opened => rfl⟩
    · exact Or.inl ⟨.whole, fun opened => begin?_of_isDigit hdigit hzero opened⟩
  · simp only [isNumeric, hdigit, Bool.false_or, Bool.or_eq_true, beq_iff_eq] at hc
    -- Of the other characters in numbers, only the sign begins one.
    rcases hc with ((rfl | rfl) | rfl) | rfl
    · exact Or.inr fun opened => rfl
    · exact Or.inr fun opened => rfl
    · exact Or.inr fun opened => rfl
    · exact Or.inl ⟨.sign, fun opened => rfl⟩

/-- A text of such characters that stands for a value is a literal, and stands for its number. -/
theorem isLiteral_of_numeric {literal : String} {j : Json}
    (hnumeric : ∀ c ∈ literal.toList, isNumeric c = true) (h : ofText? literal = some j) :
    j = .number literal ∧ IsLiteral literal := by
  rw [ofText?] at h
  cases hcs : literal.toList with
  | nil =>
    rw [hcs] at h
    exact absurd h.symm (Option.some_ne_none j)
  | cons c cs =>
    rw [hcs] at h hnumeric
    rcases begin?_of_isNumeric (hnumeric c List.mem_cons_self) with ⟨part, hstep⟩ | hstep
    · rw [Machine.start, Machine.feed_cons_of_step (hstep [])] at h
      -- The machine that reads at the top stays in the number, so it does whatever is open.
      rcases feed_numeric (fun d hd => hnumeric d (List.mem_cons_of_mem c hd)) h with
        ⟨rfl, last, hend, hfeed⟩
      have htext : literal = String.ofList ([c].reverse ++ cs) := by
        rw [List.reverse_singleton, List.singleton_append, ← hcs, String.ofList_toList]
      refine ⟨by rw [← htext], last, hend, fun opened => ?_⟩
      rw [hcs, Machine.feed_cons_of_step (hstep opened), hfeed opened, List.reverse_cons]
    · rw [Machine.start, Machine.feed, hstep []] at h
      exact absurd h.symm (Option.some_ne_none j)

/-- The digits of a decimal with its point, and its exponent, are characters of a literal. -/
theorem numeric_decimalText {digits : List Char} (hdigits : ∀ c ∈ digits, c.isDigit = true)
    (place : Int) : ∀ c ∈ decimalText digits place, isNumeric c = true := by
  have hdigit : ∀ c, c.isDigit = true → isNumeric c = true := by
    intro c hc
    simp only [isNumeric, hc, Bool.true_or]
  have hall : ∀ c ∈ digits, isNumeric c = true := fun c hc => hdigit c (hdigits c hc)
  have hzeros : ∀ k, ∀ c ∈ List.replicate k '0', isNumeric c = true := by
    intro k c hc
    rw [List.eq_of_mem_replicate hc]
    rfl
  have hexponent : ∀ n, ∀ c ∈ Nat.toDigits 10 n, isNumeric c = true :=
    fun n c hc => hdigit c (Nat.isDigit_of_mem_toDigits (by decide) (by decide) hc)
  simp only [decimalText]
  split
  · rw [List.forall_mem_append, List.forall_mem_append]
    exact ⟨⟨hall, hzeros _⟩, List.all_eq_true.1 (by decide)⟩
  split
  · rw [List.forall_mem_append, List.forall_mem_cons]
    exact ⟨fun c hc => hall c (List.mem_of_mem_take hc), rfl,
      fun c hc => hall c (List.mem_of_mem_drop hc)⟩
  split
  · rw [List.cons_append, List.cons_append, List.forall_mem_cons, List.forall_mem_cons,
      List.forall_mem_append]
    exact ⟨rfl, rfl, hzeros _, hall⟩
  -- With an exponent, the point stands behind the first digit, if there are others.
  rw [List.forall_mem_append, List.forall_mem_cons, List.forall_mem_cons]
  refine ⟨?_, rfl, ?_, hexponent _⟩
  · split
    · exact hall
    · rw [List.forall_mem_cons, List.forall_mem_cons]
      exact ⟨hall _ List.mem_cons_self, rfl, fun c hc => hall c (List.mem_cons_of_mem _ hc)⟩
    · exact fun c hc => absurd hc List.not_mem_nil
  · split
    · rfl
    · rfl

/-- A double is written as `null` or with the characters of a literal. -/
theorem numeric_ofFloat (x : Float) :
    ofFloat x = .null ∨ ∃ literal, ofFloat x = .number literal ∧
      ∀ c ∈ literal.toList, isNumeric c = true := by
  unfold ofFloat
  split
  · exact Or.inl rfl
  · exact Or.inl rfl
  · rename_i negative m q _
    refine Or.inr ⟨_, rfl, ?_⟩
    -- Layout adds zeros, a point and an exponent to the digits, and nothing else.
    have htext : ∀ c ∈ (if m = 0 then ['0', '.', '0']
        else
          let digits := Nat.toDigits 10 (Decimal.shortest m q).1
          decimalText digits (digits.length + (Decimal.shortest m q).2)), isNumeric c = true := by
      split
      · exact List.all_eq_true.1 (by decide)
      · exact numeric_decimalText
          (fun c hc => Nat.isDigit_of_mem_toDigits (by decide) (by decide) hc) _
    rw [String.toList_ofList]
    cases negative with
    | true =>
      simp only [if_true, List.forall_mem_cons]
      exact ⟨rfl, htext⟩
    | false => exact htext

/-- A double that is read from the text it is written as. -/
def ReadsBack (x : Float) : Prop := (ofText? (ofFloat x).compact).bind float? = some x

instance (x : Float) : Decidable (ReadsBack x) := inferInstanceAs (Decidable (_ = some x))

/-- A double that is read back is written as a literal, which stands for it. -/
theorem ReadsBack.readable {x : Float} (hx : ReadsBack x) :
    Readable (ofFloat x) ∧ float? (ofFloat x) = some x := by
  rcases Option.bind_eq_some_iff.1 hx with ⟨j, hj, hfloat⟩
  rcases numeric_ofFloat x with hnull | ⟨literal, heq, hnumeric⟩
  · -- What is no number is written as nothing, and read as nothing.
    have hread := ofText?_compact Readable.null
    rw [← hnull, hj] at hread
    rw [Option.some.inj hread, hnull] at hfloat
    exact nomatch hfloat
  · have htext : (ofFloat x).compact = literal := by
      rw [heq, compact, write, String.empty_append]
    rw [htext] at hj
    rcases isLiteral_of_numeric hnumeric hj with ⟨rfl, hliteral⟩
    rw [heq]
    exact ⟨.number literal hliteral, hfloat⟩

end MessagePlan.Json
