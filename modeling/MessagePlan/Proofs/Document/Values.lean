import MessagePlan.Document.Graphs
import MessagePlan.Proofs.Json.Literals

/-!
# Values Survive Their Documents

Something survives its document if it is written as what can be read, and it is what is read from
there. Both are said together by `Survives`, since whatever is made of other things survives where
these do: a list, something that may be missing, a record, a table. So a document of many parts is
gone through once, along the parts.

A record is written with its names, and read by them. That no name needs an escape and none is there
twice is a matter of the names alone, which are fixed for each record. What may be missing is
written as `null`, and so it must not be something that is itself read from `null`.

Handles are written as numbers, and what is read back are 32 bits; so a handle survives if it is one
of 32 bits. Doubles are taken to survive where it is said that they do.

## Main definitions

* `Json.Survives`: Something that is read from what it is written as.

## Theorems

* `survives_ofNat`, `survives_ofString`, `survives_ofFloat`: Plain values.
* `Survives.list`, `Survives.option`, `survives_table`: Values made of others.
* `foldl_insert_eq`: A table is made of its entries, in any order.
* `fields?_record`, `Survives.of_record`: Records.
* `Survives.of_alternative`: An alternative that carries something.
* `NodeId.survives`, `Value.survives`, `Message.survives` and their like: Handles and messages.
-/

namespace MessagePlan

namespace Json

/-- Something is written as a value that can be read, and is what is read from it. -/
structure Survives {α : Type} (write : α → Json) (read : Json → Option α) (a : α) : Prop where
  readable : Readable (write a)
  back : read (write a) = some a

variable {α β : Type} {write : α → Json} {read : Json → Option α}

/-! ### Plain values -/

theorem survives_ofNat {n : Nat} (hn : n < UInt32.size) : Survives ofNat word32? n where
  readable := .number _ (isLiteral_repr n)
  back := below?_repr hn

theorem survives_ofString (s : String) : Survives ofString text? s where
  readable := .string _ (isRaw_encode s)
  back := decode?_encode s

theorem survives_ofFloat {x : Float} (hx : ReadsBack x) : Survives ofFloat float? x where
  readable := hx.readable.1
  back := hx.readable.2

/-! ### Values made of others -/

theorem mapM_eq_some_map {f : α → Option β} {k : α → β} {xs : List α}
    (hf : ∀ a ∈ xs, f a = some (k a)) : xs.mapM f = some (xs.map k) := by
  induction xs with
  | nil => rfl
  | cons a xs ih =>
    rw [List.mapM_cons, hf a List.mem_cons_self, ih fun b hb => hf b (List.mem_cons_of_mem a hb)]
    rfl

theorem Survives.list {xs : List α} (h : ∀ a ∈ xs, Survives write read a) :
    Survives (ofList write) (list? read) xs where
  readable := by
    refine .array _ fun j hj => ?_
    rcases List.mem_map.1 hj with ⟨a, ha, rfl⟩
    exact (h a ha).readable
  back := by
    have hread : xs.mapM (read ∘ write) = some (xs.map id) :=
      mapM_eq_some_map fun a ha => (h a ha).back
    rw [ofList, list?, List.mapM_map, hread, List.map_id]

/-- What may be missing survives, unless it is read where nothing stands. -/
theorem Survives.option (read : Json → Option α) {o : Option α} (hnull : read .null = none)
    (h : ∀ a, o = some a → Survives write read a) :
    Readable (ofOption write o) ∧ optionalField? read (some (ofOption write o)) = some o := by
  cases o with
  | none => exact ⟨.null, rfl⟩
  | some a =>
    have ha := h a rfl
    refine ⟨ha.readable, ?_⟩
    have hne : write a ≠ .null := by
      intro heq
      have hback := ha.back
      rw [heq, hnull] at hback
      exact nomatch hback
    -- What is written is not `null`, and so it is read.
    rw [ofOption, optionalField?, optional?]
    · rw [ha.back]
      rfl
    · exact hne

/-! ### Records -/

section Records

variable {names : List String} {values : List Json}

/-- Under the name in a place stands the value in that place. -/
theorem map_lookup_zip (hnodup : names.Nodup) (hlength : names.length = values.length) :
    names.map (fun n => (names.zip values).lookup n) = values.map some := by
  induction names generalizing values with
  | nil =>
    rw [List.eq_nil_of_length_eq_zero hlength.symm]
    rfl
  | cons n names ih =>
    cases values with
    | nil => exact nomatch hlength
    | cons v values =>
      rcases List.nodup_cons.1 hnodup with ⟨hn, hnodup⟩
      rw [List.map_cons, List.map_cons, ← ih hnodup (Nat.succ.inj hlength), List.zip_cons_cons,
        List.lookup_cons_self]
      refine congrArg (some v :: ·) (List.map_congr_left fun k hk => ?_)
      -- A later name is not the first one.
      have hne : (k == n) = false := by
        rw [beq_eq_false_iff_ne]
        rintro rfl
        exact hn hk
      rw [List.lookup_cons, hne]

/-- A record with names that need no escapes is readable with its values. -/
theorem readable_record (hnames : ∀ n ∈ names, encode n = n) (hvalues : ∀ v ∈ values, Readable v) :
    Readable (.object (names.zip values)) := by
  refine .object _ (fun m hm => ?_) fun m hm => hvalues m.2 (List.of_mem_zip hm).2
  exact isRaw_of_encode_eq (hnames m.1 (List.of_mem_zip hm).1)

/-- The fields of a record are found under its names, none of which is there twice. -/
theorem fields?_record (hnames : ∀ n ∈ names, encode n = n) (hnodup : names.Nodup)
    (hlength : names.length = values.length) :
    fields? names (.object (names.zip values)) = some (values.map some) := by
  have hkeys : (names.zip values).map Prod.fst = names :=
    List.map_fst_zip (Nat.le_of_eq hlength)
  -- Names without escapes are decoded to themselves, so that members are read as they stand.
  have hdecode : ∀ m ∈ names.zip values,
      (do return (← decode? m.1, m.2) : Option (String × Json)) = some m := by
    intro m hm
    have hname : decode? m.1 = some m.1 := by
      have hback := decode?_encode m.1
      rwa [hnames m.1 (List.of_mem_zip hm).1] at hback
    rw [hname]
    rfl
  have hread : (names.zip values).mapM
      (fun m => (do return (← decode? m.1, m.2) : Option (String × Json))) =
        some (names.zip values) := by
    rw [mapM_eq_some_map (k := id) hdecode, List.map_id]
  -- No name is there twice, so each is found with the one value under it.
  have hfound : names.mapM (uniqueMember? (names.zip values)) =
      some (names.map fun n => (names.zip values).lookup n) :=
    mapM_eq_some_map fun n _ => uniqueMember?_of_nodup (hkeys.symm ▸ hnodup) n
  rw [fields?, hread]
  exact hfound.trans (congrArg some (map_lookup_zip hnodup hlength))

/-- A record survives if its fields are readable and it is read from them. -/
theorem Survives.of_record (values : List Json) {a : α} (hnames : ∀ n ∈ names, encode n = n)
    (hnodup : names.Nodup) (hlength : names.length = values.length)
    (hwrite : write a = .object (names.zip values)) (hvalues : ∀ v ∈ values, Readable v)
    (hread : fields? names (write a) = some (values.map some) → read (write a) = some a) :
    Survives write read a where
  readable := hwrite ▸ readable_record hnames hvalues
  back := hread (hwrite ▸ fields?_record hnames hnodup hlength)

end Records

/-! ### Alternatives and tables -/

/-- An alternative that carries something survives if that is readable and it is read from there by
    its name. -/
theorem Survives.of_alternative {a : α} {name : String} {carried : Json}
    (hname : encode name = name) (hwrite : write a = .object [(name, carried)])
    (hcarried : Readable carried)
    (hread : alternative? (write a) = some (name, some carried) → read (write a) = some a) :
    Survives write read a where
  readable := by
    rw [hwrite]
    refine .object _ (fun m hm => ?_) fun m hm => ?_
    · rw [List.mem_singleton.1 hm]
      exact isRaw_of_encode_eq hname
    · rw [List.mem_singleton.1 hm]
      exact hcarried
  back := by
    refine hread ?_
    -- The name is fixed and without escapes, so it is decoded to itself.
    have hback := decode?_encode name
    rw [hname] at hback
    simp only [hwrite, alternative?, hback]
    rfl

end Json

/-- The entries of a table, put one after the other into an empty one, make that table again, and in
    any order, since their keys are distinct. -/
theorem foldl_insert_eq {κ α : Type} [DecidableEq κ] [Ord κ] [Std.TransOrd κ] [Std.LawfulEqOrd κ]
    {table : Std.ExtTreeMap κ α} {entries : List (κ × α)} (h : entries.Perm table.toList) :
    entries.foldl (fun table entry => table.insert entry.1 entry.2) ∅ = table := by
  rw [← Std.ExtTreeMap.ofList_eq_foldl]
  -- The keys of a table are distinct, also in another order.
  have hdistinct : entries.Pairwise fun a b => ¬ compare a.1 b.1 = .eq := by
    refine (h.pairwise_iff fun hab hba => hab ?_).2 Std.ExtTreeMap.distinct_keys_toList
    rw [Std.LawfulEqCmp.compare_eq_iff_eq] at hba ⊢
    exact hba.symm
  refine Std.ExtTreeMap.ext_getElem? fun k => ?_
  cases hk : table[k]? with
  | some a =>
    exact Std.ExtTreeMap.getElem?_ofList_of_mem Std.ReflCmp.compare_self hdistinct
      (h.mem_iff.2 (Std.ExtTreeMap.mem_toList_iff_getElem?_eq_some.2 hk))
  | none =>
    -- A key that the table does not have is in no entry.
    refine Std.ExtTreeMap.getElem?_ofList_of_contains_eq_false ?_
    rw [← Bool.not_eq_true, List.contains_iff_mem, List.mem_map]
    rintro ⟨entry, hentry, rfl⟩
    rw [h.mem_iff, Std.ExtTreeMap.mem_toList_iff_getElem?_eq_some, hk] at hentry
    exact nomatch hentry

/-- A table survives if what stands in it does, in whatever order its entries are written. -/
theorem survives_table {α : Type} {arrange : EntryOrder} {write : α → Json}
    {read : Json → Option α} {table : Std.ExtTreeMap String α}
    (harrange : ∀ entries, (arrange α entries).Perm entries)
    (h : ∀ (k : String) a, table[k]? = some a → Json.Survives write read a) :
    Json.Survives (tableToJson arrange write) (tableOfJson? read) table := by
  have hentries := harrange table.toList
  have hentry : ∀ entry ∈ arrange α table.toList, Json.Survives write read entry.2 :=
    fun entry hmem => h entry.1 entry.2
      (Std.ExtTreeMap.mem_toList_iff_getElem?_eq_some.1 (hentries.mem_iff.1 hmem))
  constructor
  · refine .object _ (fun m hm => ?_) fun m hm => ?_
    · rcases List.mem_map.1 hm with ⟨entry, _, rfl⟩
      exact Json.isRaw_encode entry.1
    · rcases List.mem_map.1 hm with ⟨entry, hmem, rfl⟩
      exact (hentry entry hmem).readable
  · -- The entries are read in the order in which they were written.
    have hread : ((arrange α table.toList).map fun entry =>
        (Json.encode entry.1, write entry.2)).mapM
        (fun m => (do return (← Json.decode? m.1, ← read m.2) : Option (String × α))) =
          some (arrange α table.toList) := by
      rw [List.mapM_map, Json.mapM_eq_some_map (k := id), List.map_id]
      intro entry hmem
      simp only [Function.comp_apply, Json.decode?_encode, (hentry entry hmem).back]
      rfl
    rw [tableOfJson?, tableToJson, Json.table?, hread]
    exact congrArg some (foldl_insert_eq hentries)

/-! ### Handles -/

section Handles

open Json

theorem TerminalId.survives {p : TerminalId} (hp : p.index < UInt32.size) :
    Survives TerminalId.toJson TerminalId.ofJson? p where
  readable := (survives_ofNat hp).readable
  back := congrArg (Option.map TerminalId.mk) (survives_ofNat hp).back

theorem EdgeId.survives {e : EdgeId} (he : e.index < UInt32.size) :
    Survives EdgeId.toJson EdgeId.ofJson? e where
  readable := (survives_ofNat he).readable
  back := congrArg (Option.map EdgeId.mk) (survives_ofNat he).back

/-- A graph and a place in it survive if both are numbers of 32 bits. -/
theorem GraphId.survives_place {g : GraphId} {slot : Nat} (hg : g.number < UInt32.size)
    (hslot : slot < UInt32.size) :
    Survives (fun place : GraphId × Nat => place.1.place place.2) GraphId.place? (g, slot) := by
  have hnames : ∀ n ∈ ["graph", "slot"], encode n = n := by decide +kernel
  refine Survives.of_record [ofNat g.number, ofNat slot] hnames (by decide) rfl rfl ?_
    fun hfields => ?_
  · simp only [List.forall_mem_cons]
    exact ⟨(survives_ofNat hg).readable, (survives_ofNat hslot).readable,
      fun v hv => absurd hv List.not_mem_nil⟩
  · simp only [GraphId.place?, hfields, List.map_cons, List.map_nil, (survives_ofNat hg).back,
      (survives_ofNat hslot).back, Option.bind_eq_bind, Option.bind_some, Option.pure_def]

theorem NodeId.survives {n : NodeId} (hgraph : n.graph.number < UInt32.size)
    (hslot : n.slot < UInt32.size) : Survives NodeId.toJson NodeId.ofJson? n := by
  have hplace := GraphId.survives_place hgraph hslot
  refine ⟨hplace.readable, ?_⟩
  exact congrArg (Option.map fun place => (⟨place.1, place.2⟩ : NodeId)) hplace.back

theorem VariableId.survives {v : VariableId} (hgraph : v.graph.number < UInt32.size)
    (hslot : v.slot < UInt32.size) : Survives VariableId.toJson VariableId.ofJson? v := by
  have hplace := GraphId.survives_place hgraph hslot
  refine ⟨hplace.readable, ?_⟩
  exact congrArg (Option.map fun place => (⟨place.1, place.2⟩ : VariableId)) hplace.back

end Handles

/-! ### Values and messages -/

section Messages

open Json

/-- A value survives if its numbers are read back. -/
theorem Value.survives {v : Value} (hv : ∀ x ∈ v.toList, ReadsBack x) :
    Survives (Value.toJson ofFloat) Value.ofJson? v := by
  cases v with
  | scalar x =>
    have hx := survives_ofFloat (hv x List.mem_cons_self)
    refine Survives.of_alternative (by decide +kernel) rfl hx.readable fun halternative => ?_
    simp only [Value.ofJson?, halternative, hx.back, Option.bind_eq_bind, Option.bind_some,
      Option.pure_def]
  | series xs =>
    have hxs : Survives (Json.ofList ofFloat) (list? float?) xs :=
      Survives.list fun x hx => survives_ofFloat (hv x hx)
    refine Survives.of_alternative (by decide +kernel) rfl hxs.readable fun halternative => ?_
    simp only [Value.ofJson?, halternative, hxs.back, Option.bind_eq_bind, Option.bind_some,
      Option.pure_def]

theorem Family.survives (f : Family) : Survives Family.toJson Family.ofJson? f where
  readable := .string _ (isRaw_of_encode_eq (by cases f <;> decide +kernel))
  back := Family.ofJson?_toJson f

theorem Message.survives {m : Message} (hm : ∀ x ∈ m.params.toList, ReadsBack x) :
    Survives (Message.toJson ofFloat) Message.ofJson? m := by
  have hfamily := m.family.survives
  have hparams := Value.survives hm
  have hnames : ∀ n ∈ ["family", "params"], encode n = n := by decide +kernel
  refine Survives.of_record [m.family.toJson, m.params.toJson ofFloat] hnames
    (by decide) rfl rfl ?_ fun hfields => ?_
  · simp only [List.forall_mem_cons]
    exact ⟨hfamily.readable, hparams.readable, fun v hv => absurd hv List.not_mem_nil⟩
  · simp only [Message.ofJson?, hfields, List.map_cons, List.map_nil, hfamily.back, hparams.back,
      Option.bind_eq_bind, Option.bind_some, Option.pure_def]

theorem survives_param {param : String × Value} (hv : ∀ x ∈ param.2.toList, ReadsBack x) :
    Survives (paramToJson ofFloat) paramOfJson? param := by
  have hkey := survives_ofString param.1
  have hvalue := Value.survives hv
  constructor
  · refine .array _ ?_
    simp only [List.forall_mem_cons]
    exact ⟨hkey.readable, hvalue.readable, fun v hv => absurd hv List.not_mem_nil⟩
  · simp only [paramOfJson?, paramToJson, pair?, hkey.back, hvalue.back, Option.bind_eq_bind,
      Option.bind_some, Option.pure_def]

end Messages

end MessagePlan
