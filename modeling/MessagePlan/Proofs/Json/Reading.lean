import MessagePlan.Json.Printer
import MessagePlan.Json.Reader

/-!
# What Is Written Is Read

The text of a value on one line is read back as that value, provided that its literals and the texts
between its quotes are such as the reader takes. `Readable` asks for no more than that, at every
depth: a literal has to be read as a number whatever is open around it, and a text between quotes
has to be gone through without ending the string.

A machine that has read a value is not always seen to have done so, for a number ends only where the
next character does not go on with it. `Machine.HasRead` allows for that. Whatever comes behind a
value in the text of an array or an object ends a number, so nothing has to be said of it twice.

The proof is by induction on the value, with one lemma for the items behind the first of an array
and one for the members of an object.

## Main definitions

* `IsLiteral`, `IsRaw`: Texts that are read as a number and as the inside of a string.
* `Readable`: A value that is written with such texts.
* `Tells`: A text from which a value is read, whatever is open.
* `Machine.HasRead`: A value has been read, but for what ends a number.
* `chars`: The characters of a value's text.

## Theorems

* `feed_firstItem`: The first item of an array is read like any other value.
* `HasRead.step_eq`, `HasRead.result?`: A value read is put where it belongs.
* `toList_write`: What is written has these characters.
* `feed_charsOfItems`, `feed_charsOfMembers`: The rest of an array and of an object.
* `tells_chars`: A value is read from its text, whatever is open.
* `ofText?_compact`: The text of a value stands for it.
-/

namespace MessagePlan.Json

/-- A text that is read as a number, whatever is open around it. -/
def IsLiteral (literal : String) : Prop :=
  ∃ part, Machine.canEnd part = true ∧ ∀ opened : List Open,
    (⟨opened, .value⟩ : Machine).feed literal.toList =
      some ⟨opened, .number part literal.toList.reverse⟩

/-- A text that is gone through between quotes, in a string or in a name. -/
def IsRaw (raw : String) : Prop :=
  ∀ (opened : List Open) (isName : Bool),
    (⟨opened, .string isName .none []⟩ : Machine).feed raw.toList =
      some ⟨opened, .string isName .none raw.toList.reverse⟩

/-- A value whose literals and strings are such as can be read. -/
inductive Readable : Json → Prop
  | null : Readable .null
  | bool (value : Bool) : Readable (.bool value)
  | number (literal : String) (h : IsLiteral literal) : Readable (.number literal)
  | string (raw : String) (h : IsRaw raw) : Readable (.string raw)
  | array (items : List Json) (h : ∀ j ∈ items, Readable j) : Readable (.array items)
  | object (members : List (String × Json)) (hnames : ∀ m ∈ members, IsRaw m.1)
      (h : ∀ m ∈ members, Readable m.2) : Readable (.object members)

namespace Machine

variable {m m' : Machine} {c : Char} {cs ds : List Char} {opened outer : List Open} {j : Json}

/-! ### Steps and values -/

theorem feed_cons_of_step (h : m.step c = some m') : m.feed (c :: cs) = m'.feed cs := by
  rw [feed, h]

theorem feed_append_of_feed (h : m.feed cs = some m') : m.feed (cs ++ ds) = m'.feed ds := by
  rw [feed_append, h, Option.bind_some]

/-- The first item of an array is read like any other value: only a bracket, which begins no value,
    would be taken otherwise. -/
theorem feed_firstItem (h : (⟨opened, .value⟩ : Machine).feed cs = some m)
    (hm : m ≠ ⟨opened, .value⟩) : (⟨opened, .firstItem⟩ : Machine).feed cs = some m := by
  induction cs with
  | nil => exact absurd (Option.some.inj h).symm hm
  | cons c cs ih =>
    by_cases hblank : isBlank c = true
    · -- A blank is passed over in either mode.
      have hfirst : (⟨opened, .firstItem⟩ : Machine).step c = some ⟨opened, .firstItem⟩ :=
        if_pos hblank
      have hvalue : (⟨opened, .value⟩ : Machine).step c = some ⟨opened, .value⟩ := if_pos hblank
      rw [feed_cons_of_step hvalue] at h
      rw [feed_cons_of_step hfirst]
      exact ih h
    · -- A bracket would end an empty array here, but it begins no value.
      have hvalue : (⟨opened, .value⟩ : Machine).step c = begin? opened c := if_neg hblank
      have hfirst : (⟨opened, .firstItem⟩ : Machine).step c =
          if c = ']' then close? opened c else begin? opened c := if_neg hblank
      rw [feed, hvalue] at h
      rw [feed, hfirst]
      by_cases hend : c = ']'
      · rw [hend] at h
        exact absurd h.symm (Option.some_ne_none m)
      · rw [if_neg hend]
        exact h

/-- A value has been read and put where it belongs, or it is a number of which all has been read but
    its end. -/
def HasRead (m : Machine) (opened : List Open) (j : Json) : Prop :=
  m = complete j opened ∨ ∃ literal part, j = .number literal ∧ canEnd part = true ∧
    m = ⟨opened, .number part literal.toList.reverse⟩

/-- Behind a value in an array or an object comes a comma or a bracket. -/
def EndsValue (c : Char) : Prop := c = ',' ∨ c = ']' ∨ c = '\x7d'

theorem step_complete (j : Json) (opened : List Open) (c : Char) :
    (complete j opened).step c = stepBetween (complete j opened) c := by
  cases opened with
  | nil => rfl
  | cons innermost outer =>
    cases innermost with
    | array items => rfl
    | object members name => rfl

/-- A comma or a bracket does not go on with a number. -/
theorem continueNumber?_eq_none (hc : EndsValue c) (part : NumberPart) :
    continueNumber? part c = none := by
  rcases hc with rfl | rfl | rfl
  · cases part <;> rfl
  · cases part <;> rfl
  · cases part <;> rfl

/-- What comes behind a value ends a number, so that it is as if the value had been put in its place
    before. -/
theorem HasRead.step_eq (h : m.HasRead opened j) (hc : EndsValue c) :
    m.step c = (complete j opened).step c := by
  rcases h with rfl | ⟨literal, part, rfl, hend, rfl⟩
  · rfl
  · -- The number ends here and is put in its place.
    rw [step_complete]
    simp only [step, continueNumber?_eq_none hc part, hend, if_true, List.reverse_reverse,
      String.ofList_toList]

theorem HasRead.result? (h : m.HasRead [] j) : m.result? = some j := by
  rcases h with rfl | ⟨literal, part, rfl, hend, rfl⟩
  · rfl
  · simp only [Machine.result?, List.isEmpty_nil, hend, Bool.and_self, if_true,
      List.reverse_reverse, String.ofList_toList]

/-- A machine that has read a value does not wait for one. -/
theorem HasRead.ne_value (h : m.HasRead opened j) (opened' : List Open) :
    m ≠ ⟨opened', .value⟩ := by
  rcases h with rfl | ⟨literal, part, _, _, rfl⟩
  · intro heq
    -- What is complete waits for a comma, a bracket or the end.
    cases opened with
    | nil => exact nomatch heq
    | cons innermost outer =>
      cases innermost with
      | array items => exact nomatch heq
      | object members name => exact nomatch heq
  · intro heq
    exact nomatch heq

/-- A name between quotes and a colon are read as the name of the value that follows. -/
theorem feed_name {raw : String} (hraw : IsRaw raw) {members : List (String × Json)} {name : String}
    (hm : m.step '"' = some ⟨.object members name :: outer, .string true .none []⟩) :
    m.feed ((quote raw).toList ++ ':' :: cs) =
      (⟨.object members raw :: outer, .value⟩ : Machine).feed cs := by
  have htext : (quote raw).toList ++ ':' :: cs = '"' :: (raw.toList ++ '"' :: ':' :: cs) := by
    simp [quote]
  rw [htext, feed_cons_of_step hm, feed_append_of_feed (hraw _ true)]
  -- The closing quote ends the name, and the colon waits for its value.
  have hquote : (⟨.object members name :: outer, .string true .none raw.toList.reverse⟩ :
      Machine).step '"' = some ⟨.object members raw :: outer, .colon⟩ := by
    simp [step, stepString]
  rw [feed_cons_of_step hquote]
  exact feed_cons_of_step rfl

end Machine

/-! ### The characters of a text -/

mutual

/-- The characters of the text of a value on one line. -/
def chars : Json → List Char
  | .null => "null".toList
  | .bool true => "true".toList
  | .bool false => "false".toList
  | .number literal => literal.toList
  | .string raw => (quote raw).toList
  | .array [] => "[]".toList
  | .array (item :: items) => '[' :: (chars item ++ (charsOfItems items ++ [']']))
  | .object [] => "\x7b\x7d".toList
  | .object ((name, value) :: members) =>
    '\x7b' :: ((quote name).toList ++ ':' :: (chars value ++ (charsOfMembers members ++ ['\x7d'])))

/-- The characters of the items of an array behind its first. -/
def charsOfItems : List Json → List Char
  | [] => []
  | item :: items => ',' :: (chars item ++ charsOfItems items)

/-- The characters of the members of an object behind its first. -/
def charsOfMembers : List (String × Json) → List Char
  | [] => []
  | (name, value) :: members =>
    ',' :: ((quote name).toList ++ ':' :: (chars value ++ charsOfMembers members))

end

mutual

/-- A value is written behind what there is already. -/
theorem toList_write (out : String) : ∀ j : Json, (write out j).toList = out.toList ++ chars j
  | .null | .bool true | .bool false | .number _ | .string _ | .array [] | .object [] => by
    simp only [write, chars, String.toList_append]
  | .array (item :: items) => by
    simp only [write, chars, String.toList_append, toList_writeItems _ items,
      toList_write _ item, List.append_assoc]
    rfl
  | .object ((name, value) :: members) => by
    simp only [write, chars, String.toList_append, toList_writeMembers _ members,
      toList_write _ value, List.append_assoc]
    rfl

theorem toList_writeItems (out : String) : ∀ items : List Json,
    (writeItems out items).toList = out.toList ++ charsOfItems items
  | [] => by simp only [writeItems, charsOfItems, List.append_nil]
  | item :: items => by
    simp only [writeItems, charsOfItems, String.toList_append, toList_writeItems _ items,
      toList_write _ item, List.append_assoc]
    rfl

theorem toList_writeMembers (out : String) : ∀ members : List (String × Json),
    (writeMembers out members).toList = out.toList ++ charsOfMembers members
  | [] => by simp only [writeMembers, charsOfMembers, List.append_nil]
  | (name, value) :: members => by
    simp only [writeMembers, charsOfMembers, String.toList_append, toList_writeMembers _ members,
      toList_write _ value, List.append_assoc]
    rfl

end

/-! ### Values -/

/-- A text from which a value is read, whatever is open. -/
def Tells (cs : List Char) (j : Json) : Prop :=
  ∀ opened : List Open, ∃ m, (⟨opened, .value⟩ : Machine).feed cs = some m ∧ m.HasRead opened j

section Values

variable {m : Machine} {opened outer : List Open} {j : Json} {cs : List Char}

theorem tells_literal {literal : String} (h : IsLiteral literal) :
    Tells literal.toList (.number literal) := by
  intro opened
  rcases h with ⟨part, hend, hfeed⟩
  exact ⟨_, hfeed opened, Or.inr ⟨literal, part, rfl, hend, rfl⟩⟩

theorem tells_quote {raw : String} (h : IsRaw raw) : Tells (quote raw).toList (.string raw) := by
  intro opened
  refine ⟨_, ?_, Or.inl rfl⟩
  have htext : (quote raw).toList = '"' :: (raw.toList ++ ['"']) := by
    simp [quote]
  have hquote : (⟨opened, .string false .none raw.toList.reverse⟩ : Machine).step '"' =
      some (Machine.complete (.string raw) opened) := by
    simp [Machine.step, Machine.stepString]
  -- The opening quote begins a string, and the closing one completes it.
  have hopen : (⟨opened, .value⟩ : Machine).step '"' =
      some ⟨opened, .string false .none []⟩ := rfl
  rw [htext, Machine.feed_cons_of_step hopen, Machine.feed_append_of_feed (h opened false),
    Machine.feed_cons_of_step hquote]
  rfl

/-- Behind an item that has been read, the rest of an array is read. -/
theorem feed_charsOfItems {items : List Json} (hitems : ∀ j ∈ items, Tells (chars j) j)
    {read : List Json} (hm : m.HasRead (.array read :: outer) j) :
    m.feed (charsOfItems items ++ [']']) =
      some (Machine.complete (.array (read.reverse ++ j :: items)) outer) := by
  induction items generalizing m read j with
  | nil =>
    have hend : m.step ']' = some (Machine.complete (.array (j :: read).reverse) outer) :=
      hm.step_eq (Or.inr (Or.inl rfl))
    rw [charsOfItems, List.nil_append, Machine.feed_cons_of_step hend, List.reverse_cons]
    rfl
  | cons item items ih =>
    -- A comma puts the last item away, and then the next one is read.
    have hcomma : m.step ',' = some ⟨.array (j :: read) :: outer, .value⟩ :=
      hm.step_eq (Or.inl rfl)
    rcases hitems item List.mem_cons_self (.array (j :: read) :: outer) with ⟨m', hfeed, hm'⟩
    rw [charsOfItems, List.cons_append, List.append_assoc, Machine.feed_cons_of_step hcomma,
      Machine.feed_append_of_feed hfeed,
      ih (fun j hj => hitems j (List.mem_cons_of_mem item hj)) hm', List.reverse_cons,
      List.append_assoc, List.singleton_append]

/-- Behind a member that has been read, the rest of an object is read. -/
theorem feed_charsOfMembers {members : List (String × Json)} (hnames : ∀ m ∈ members, IsRaw m.1)
    (hmembers : ∀ m ∈ members, Tells (chars m.2) m.2) {read : List (String × Json)} {name : String}
    (hm : m.HasRead (.object read name :: outer) j) :
    m.feed (charsOfMembers members ++ ['\x7d']) =
      some (Machine.complete (.object (read.reverse ++ (name, j) :: members)) outer) := by
  induction members generalizing m read name j with
  | nil =>
    have hend : m.step '\x7d' =
        some (Machine.complete (.object ((name, j) :: read).reverse) outer) :=
      hm.step_eq (Or.inr (Or.inr rfl))
    rw [charsOfMembers, List.nil_append, Machine.feed_cons_of_step hend, List.reverse_cons]
    rfl
  | cons member members ih =>
    rcases member with ⟨raw, value⟩
    -- A comma puts the last member away, and then a name and its value are read.
    have hcomma : m.step ',' = some ⟨.object ((name, j) :: read) "" :: outer, .name⟩ :=
      hm.step_eq (Or.inl rfl)
    rcases hmembers _ List.mem_cons_self (.object ((name, j) :: read) raw :: outer) with
      ⟨m', hfeed, hm'⟩
    have hrest := ih (fun m hm => hnames m (List.mem_cons_of_mem _ hm))
      (fun m hm => hmembers m (List.mem_cons_of_mem _ hm)) hm'
    have htext : charsOfMembers ((raw, value) :: members) ++ ['\x7d'] =
        ',' :: ((quote raw).toList ++ ':' :: (chars value ++
          (charsOfMembers members ++ ['\x7d']))) := by
      simp only [charsOfMembers, List.cons_append, List.append_assoc]
    rw [htext, Machine.feed_cons_of_step hcomma,
      Machine.feed_name (hnames _ List.mem_cons_self) rfl, Machine.feed_append_of_feed hfeed, hrest,
      List.reverse_cons, List.append_assoc, List.singleton_append]

/-- Every readable value is read from its text, whatever is open. -/
theorem tells_chars (hj : Readable j) : Tells (chars j) j := by
  -- The induction is on the value, with the texts of its items and members read before.
  induction hj with
  | null => exact fun opened => ⟨_, rfl, Or.inl rfl⟩
  | bool value =>
    cases value with
    | true => exact fun opened => ⟨_, rfl, Or.inl rfl⟩
    | false => exact fun opened => ⟨_, rfl, Or.inl rfl⟩
  | number literal h =>
    rw [chars]
    exact tells_literal h
  | string raw h =>
    rw [chars]
    exact tells_quote h
  | array items _ ih =>
    intro opened
    refine ⟨_, ?_, Or.inl rfl⟩
    cases items with
    | nil => rfl
    | cons item items =>
      have hopen : (⟨opened, .value⟩ : Machine).step '[' =
        some ⟨.array [] :: opened, .firstItem⟩ := rfl
      rcases ih item List.mem_cons_self (.array [] :: opened) with ⟨m, hfeed, hm⟩
      rw [chars, Machine.feed_cons_of_step hopen,
        Machine.feed_append_of_feed (Machine.feed_firstItem hfeed (hm.ne_value _)),
        feed_charsOfItems (fun j hj => ih j (List.mem_cons_of_mem item hj)) hm]
      rfl
  | object members hnames _ ih =>
    intro opened
    refine ⟨_, ?_, Or.inl rfl⟩
    cases members with
    | nil => rfl
    | cons member members =>
      rcases member with ⟨raw, value⟩
      have hopen : (⟨opened, .value⟩ : Machine).step '\x7b' =
        some ⟨.object [] "" :: opened, .firstName⟩ := rfl
      rcases ih _ List.mem_cons_self (.object [] raw :: opened) with ⟨m, hfeed, hm⟩
      rw [chars, Machine.feed_cons_of_step hopen,
        Machine.feed_name (hnames _ List.mem_cons_self) rfl, Machine.feed_append_of_feed hfeed,
        feed_charsOfMembers (fun m hm => hnames m (List.mem_cons_of_mem _ hm))
          (fun m hm => ih m (List.mem_cons_of_mem _ hm)) hm]
      rfl

/-- The text of a readable value stands for it. -/
theorem ofText?_compact (hj : Readable j) : ofText? j.compact = some j := by
  have htext : j.compact.toList = chars j := toList_write "" j
  rcases tells_chars hj [] with ⟨m, hfeed, hm⟩
  have hstart : Machine.start.feed j.compact.toList = some m := htext ▸ hfeed
  rw [ofText?, hstart, Option.bind_some, hm.result?]

end Values

end MessagePlan.Json
