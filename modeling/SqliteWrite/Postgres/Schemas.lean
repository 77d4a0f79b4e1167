import SqliteWrite.Postgres.Delivery

/-! The schema cache. In every run it lists for a table what the server reported first and what was added
since, so that each missing column is added once, before its first use, with the type of its first value. -/
namespace SqliteWrite.Psql
open Method (Outcome)

variable {S : Server}

/-- The columns that the statements of a log add to a table, with their types. -/
def addedTo (lg : Log) (table : Bytes) : List (Bytes × Bytes) :=
  lg.filterMap fun e => match e.1 with
    | .create t name type => if t = table then some (name, type) else none
    | .alter t name type => if t = table then some (name, type) else none
    | _ => none

/-- The answer to the first question for the schema of a table. -/
def reported (lg : Log) (table : Bytes) : Option Rows :=
  lg.findSome? fun e => match e with
    | (.schema t, .ok rows) => if t = table then some rows else none
    | _ => none

/-- A column that was reported for its table or added to it. -/
def Known (lg : Log) (table field : Bytes) : Prop :=
  (∃ rows, reported lg table = some rows ∧ field ∈ (schemaOf rows).map (·.1)) ∨
    field ∈ (addedTo lg table).map (·.1)

/-- Every `INSERT` of a log names columns that are known from the statements before it. -/
def InsertsKnown : Log → Log → Prop
  | _, [] => True
  | before, e :: lg => (match e.1 with
      | .insert table fields _ => ∀ f ∈ fields, Known before table f
      | _ => True) ∧ InsertsKnown (before ++ [e]) lg

/-- The first value of a field among messages. -/
def firstValue (ms : List Message) (field : Bytes) : Option VarT := ms.findSome? fun m => m.find field

lemma firstValue_append (ms ms' : List Message) (field : Bytes) :
    firstValue (ms ++ ms') field = (firstValue ms field).or (firstValue ms' field) := List.findSome?_append

lemma firstValue_eq_none {ms : List Message} {field : Bytes} (h : ∀ m ∈ ms, field ∉ m.keys) :
    firstValue ms field = none := by
  apply List.findSome?_eq_none_iff.mpr
  intro m hm
  cases hv : m.find field with
  | none => rfl
  | some v => exact absurd (m.mem_keys.mpr ⟨v, hv⟩) (h m hm)

@[simp] lemma addedTo_append (lg lg' : Log) (table : Bytes) :
    addedTo (lg ++ lg') table = addedTo lg table ++ addedTo lg' table := List.filterMap_append

@[simp] lemma addedTo_cons (e : Statement × Except Bytes Rows) (lg : Log) (table : Bytes) :
    addedTo (e :: lg) table = addedTo [e] table ++ addedTo lg table := addedTo_append [e] lg table

lemma reported_append (lg lg' : Log) (table : Bytes) :
    reported (lg ++ lg') table = (reported lg table).or (reported lg' table) := List.findSome?_append

lemma insertsKnown_append {before lg lg' : Log} :
    InsertsKnown before (lg ++ lg') ↔ InsertsKnown before lg ∧ InsertsKnown (before ++ lg) lg' := by
  induction lg generalizing before with
  | nil => simp [InsertsKnown]
  | cons e lg ih =>
    have h := @ih (before ++ [e])
    simp only [List.cons_append, InsertsKnown, h, List.append_assoc, List.nil_append, and_assoc]

section Parts
variable {lg : Log}

lemma steering_parts (h : ∀ x ∈ lg, x.1 = .commit ∨ x.1 = .begin) (table : Bytes) :
    addedTo lg table = [] ∧ reported lg table = none ∧ ∀ before, InsertsKnown before lg := by
  induction lg with
  | nil => exact ⟨rfl, rfl, fun _ => trivial⟩
  | cons e lg ih =>
    obtain ⟨h1, h2, h3⟩ := ih fun x hx => h x (List.mem_cons_of_mem _ hx)
    obtain ⟨st, r⟩ := e
    rcases h _ List.mem_cons_self with hst | hst
    · obtain rfl : st = .commit := hst
      exact ⟨h1, h2, fun before => ⟨trivial, h3 _⟩⟩
    · obtain rfl : st = .begin := hst
      exact ⟨h1, h2, fun before => ⟨trivial, h3 _⟩⟩

lemma Adds.parts {t : Bytes} {cols : List (Bytes × Bytes)} (h : Adds t cols lg) :
    (∀ table, addedTo lg table = if t = table then cols else []) ∧
    (∀ table, t ≠ table → reported lg table = none) ∧ ∀ before, InsertsKnown before lg := by
  induction h with
  | nil => exact ⟨fun table => by simp [addedTo], fun _ _ => rfl, fun _ => trivial⟩
  | @cons name type cols lg st r r' statement rest ih =>
    obtain ⟨h1, h2, h3⟩ := ih
    rcases statement with rfl | rfl
    all_goals
      refine ⟨fun table => ?_, fun table ht => ?_, fun before => ⟨trivial, trivial, h3 _⟩⟩
      · rw [addedTo_cons, addedTo_cons (_, _) lg, h1]
        by_cases ht : t = table <;> simp [addedTo, ht]
      · simpa [reported, ht] using h2 table ht

end Parts

/-- What the worker knows between two tables: its cache lists what was reported first and what was added
since; nothing was added twice, or added though it was reported; the columns of every message that is done
are listed; and each added column has the type of the first value in the messages that are done. -/
structure Tracked (known : Schemas) (lg : Log) (done : List (Bytes × List Message)) : Prop where
  unknown : ∀ table, known table = none → reported lg table = none ∧ addedTo lg table = [] ∧
    ∀ e ∈ done, e.1 ≠ table
  cached : ∀ table schema, known table = some schema → ∃ rows, reported lg table = some rows ∧
    schema.Perm (schemaOf rows ++ addedTo lg table)
  once : ∀ table, ((addedTo lg table).map (·.1)).Nodup
  new : ∀ table rows, reported lg table = some rows →
    ∀ f ∈ (addedTo lg table).map (·.1), f ∉ (schemaOf rows).map (·.1)
  listed : ∀ e ∈ done, ∀ schema, known e.1 = some schema → ∀ m ∈ e.2, ∀ f ∈ m.keys, f ∈ schema.map (·.1)
  typed : ∀ table, ∀ x ∈ addedTo lg table, ∃ v, x.2 = columnType v ∧
    firstValue ((done.filter fun e => e.1 = table).flatMap (·.2)) x.1 = some v
  inserts : InsertsKnown [] lg

section Columns
variable (H : HashOrder) (schema : List (Bytes × Bytes)) (work : List Message)

lemma newColumns_nodup : ((newColumns H schema work).map (·.1)).Nodup := by
  unfold newColumns missing
  rw [List.map_map]
  exact (firsts_nodup [] (work.flatMap H.entries)).sublist (List.filter_sublist.map _)

variable {H schema work}

lemma newColumns_new {f : Bytes} (hf : f ∈ (newColumns H schema work).map (·.1)) :
    f ∉ schema.map (·.1) := by
  obtain ⟨x, hx, rfl⟩ := List.mem_map.mp hf
  obtain ⟨e, he, rfl⟩ := List.mem_map.mp hx
  simpa using (List.mem_filter.mp he).2

lemma listed_after {f : Bytes} (hf : f ∈ fieldsOf H work) :
    f ∈ (schema ++ newColumns H schema work).map (·.1) := by
  by_cases hs : f ∈ schema.map (·.1)
  · rw [List.map_append]
    exact List.mem_append_left _ hs
  · obtain ⟨e, he, rfl⟩ := List.mem_map.mp hf
    rw [List.map_append]
    refine List.mem_append_right _ (List.mem_map.mpr ⟨(e.1, columnType e.2), ?_, rfl⟩)
    exact List.mem_map.mpr ⟨e, List.mem_filter.mpr ⟨he, by simpa using hs⟩, rfl⟩

lemma find_entries (m : Message) (f : Bytes) :
    (H.entries m).find? (fun e => e.1 = f) = (m.find f).map (f, ·) := by
  cases hv : m.find f with
  | some v =>
    have hmem : (f, v) ∈ H.entries m := (H.mem_entries m).mpr hv
    cases hfind : (H.entries m).find? fun e => e.1 = f with
    | none => exact absurd (decide_eq_true rfl) (List.find?_eq_none.mp hfind _ hmem)
    | some e =>
      have he1 : e.1 = f := by simpa using List.find?_some hfind
      have he2 := (H.mem_entries m).mp (List.mem_of_find?_eq_some hfind)
      rw [he1, hv] at he2
      cases he2
      exact congrArg some (Prod.ext he1 rfl)
  | none =>
    apply List.find?_eq_none.mpr
    intro e he heq
    have he1 : e.1 = f := by simpa using heq
    have he2 := (H.mem_entries m).mp he
    rw [he1, hv] at he2
    cases he2

lemma newColumns_typed {x : Bytes × Bytes} (hx : x ∈ newColumns H schema work) :
    ∃ v, x.2 = columnType v ∧ firstValue work x.1 = some v := by
  obtain ⟨e, he, rfl⟩ := List.mem_map.mp hx
  have hfirst := find_of_mem_firsts (List.mem_filter.mp he).1
  refine ⟨e.2, rfl, ?_⟩
  rw [List.find?_flatMap] at hfirst
  unfold firstValue
  clear hx he
  induction work with
  | nil => cases hfirst
  | cons m work ih =>
    rw [List.findSome?_cons, find_entries] at hfirst
    rw [List.findSome?_cons]
    cases hv : m.find e.1 with
    | some v =>
      rw [hv] at hfirst
      have hve := congrArg (Option.map Prod.snd) hfirst
      simpa using hve
    | none =>
      rw [hv] at hfirst
      exact ih hfirst

end Columns

lemma TableWork.parts {H : HashOrder} {known known' : Schemas} {e : Bytes × List Message} {lg : Log}
    (h : TableWork H known e lg known') : ∃ schema schema',
      ((known e.1 = some schema) ∨ (known e.1 = none ∧ ∃ rows, reported lg e.1 = some rows ∧
        schema = schemaOf rows)) ∧ known' = Function.update known e.1 (some schema') ∧
      schema'.Perm (schema ++ newColumns H schema e.2) ∧
      (∀ table, addedTo lg table = if e.1 = table then newColumns H schema e.2 else []) ∧
      (∀ table, e.1 ≠ table → reported lg table = none) ∧
      ∀ before, (∀ f ∈ fieldsOf H e.2, Known (before ++ lg) e.1 f) → InsertsKnown before lg := by
  cases h with
  | @mk schema schema' look adds commits r looked added sorted extended steered =>
    obtain ⟨ha1, ha2, ha3⟩ := added.parts
    have hlook : (∀ table, addedTo look table = []) ∧ (∀ table, e.1 ≠ table → reported look table = none) ∧
        ∀ before, InsertsKnown before look := by
      rcases looked with ⟨-, rfl⟩ | ⟨-, rows, rfl, -⟩
      · exact ⟨fun _ => rfl, fun _ _ => rfl, fun _ => trivial⟩
      · exact ⟨fun _ => rfl, fun table ht => by simp [reported, ht], fun _ => ⟨trivial, trivial⟩⟩
    refine ⟨schema, schema', ?_, rfl, extended, fun table => ?_, fun table ht => ?_, fun before hknown => ?_⟩
    · rcases looked with ⟨hk, -⟩ | ⟨hk, rows, rfl, hs⟩
      · exact Or.inl hk
      · exact Or.inr ⟨hk, rows, by simp [reported], hs⟩
    · rw [addedTo_append, addedTo_append, hlook.1, ha1, addedTo_cons, (steering_parts steered table).1]
      simp [addedTo]
    · rw [reported_append, reported_append, hlook.2.1 table ht, ha2 table ht]
      exact (steering_parts steered table).2.1
    · -- The `INSERT` stands behind the additions, and nothing behind it adds a column.
      obtain ⟨hs1, hs2, hs3⟩ := steering_parts steered e.1
      have hrest : reported ((.insert e.1 (H.ofSet (fieldsOf H e.2)) e.2, .ok r) :: commits) e.1 = none := hs2
      have hrest' : addedTo ((.insert e.1 (H.ofSet (fieldsOf H e.2)) e.2, .ok r) :: commits) e.1 = [] := hs1
      refine insertsKnown_append.mpr ⟨insertsKnown_append.mpr ⟨hlook.2.2 _, ha3 _⟩, ?_, hs3 _⟩
      intro f hf
      have hk := hknown f ((H.set_perm _).mem_iff.mp hf)
      unfold Known at hk ⊢
      rw [← List.append_assoc, reported_append, addedTo_append, hrest, hrest', Option.or_none,
        List.append_nil] at hk
      exact hk

lemma Tracked.start (r : Rows) : Tracked (fun _ => none) [(.begin, .ok r)] [] where
  unknown table _ := ⟨rfl, rfl, by simp⟩
  cached table schema h := by cases h
  once table := List.nodup_nil
  new table rows h := by cases h
  listed := by simp
  typed table x hx := by cases hx
  inserts := ⟨trivial, trivial⟩

/-- How the work for one table goes on from what is tracked: `schema` is what was known of the table, by
what `rows` reported of it, and the log grows by its new columns alone. -/
structure Advance (H : HashOrder) (schema : List (Bytes × Bytes)) (rows : Rows) (e : Bytes × List Message)
    (lg lg' : Log) (done : List (Bytes × List Message)) : Prop where
  reported : reported (lg ++ lg') e.1 = some rows
  columns : schema.Perm (schemaOf rows ++ addedTo lg e.1)
  new : ∀ f ∈ (addedTo lg e.1).map (·.1), f ∉ (schemaOf rows).map (·.1)
  listed : ∀ d ∈ done, d.1 = e.1 → ∀ m ∈ d.2, ∀ f ∈ m.keys, f ∈ schema.map (·.1)
  added : addedTo (lg ++ lg') e.1 = addedTo lg e.1 ++ newColumns H schema e.2
  others : ∀ table, e.1 ≠ table → Psql.reported (lg ++ lg') table = Psql.reported lg table ∧
    addedTo (lg ++ lg') table = addedTo lg table

/-- Whether or not the table is asked for now, its work is such an advance. -/
lemma Tracked.advance {H : HashOrder} {known known' : Schemas} {e : Bytes × List Message} {lg lg' : Log}
    {done : List (Bytes × List Message)} (ht : Tracked known lg done) (h : TableWork H known e lg' known') :
    ∃ schema schema' rows, Advance H schema rows e lg lg' done ∧
      known' = Function.update known e.1 (some schema') ∧ schema'.Perm (schema ++ newColumns H schema e.2) ∧
      ∀ before, (∀ f ∈ fieldsOf H e.2, Known (before ++ lg') e.1 f) → InsertsKnown before lg' := by
  obtain ⟨schema, schema', hschema, hknown', hext, hadded, hreported, hinserts⟩ := h.parts
  have hthis : addedTo (lg ++ lg') e.1 = addedTo lg e.1 ++ newColumns H schema e.2 := by
    rw [addedTo_append, hadded, if_pos rfl]
  have hothers : ∀ table, e.1 ≠ table → reported (lg ++ lg') table = reported lg table ∧
      addedTo (lg ++ lg') table = addedTo lg table := by
    intro table hne
    rw [reported_append, hreported table hne, Option.or_none, addedTo_append, hadded, if_neg hne,
      List.append_nil]
    exact ⟨rfl, rfl⟩
  rcases hschema with hk | ⟨hk, rows, hrows, rfl⟩
  · obtain ⟨rows, hrows, hperm⟩ := ht.cached e.1 schema hk
    have hsome : reported (lg ++ lg') e.1 = some rows := by rw [reported_append, hrows, Option.some_or]
    exact ⟨schema, schema', rows, ⟨hsome, hperm, ht.new e.1 rows hrows,
      fun d hd hde => ht.listed d hd schema (hde ▸ hk), hthis, hothers⟩, hknown', hext, hinserts⟩
  · obtain ⟨hnone, hadd, hdone⟩ := ht.unknown e.1 hk
    have hsome : reported (lg ++ lg') e.1 = some rows := by rw [reported_append, hnone, Option.none_or, hrows]
    have hnew : ∀ f ∈ (addedTo lg e.1).map (·.1), f ∉ (schemaOf rows).map (·.1) := by
      intro f hf
      rw [hadd] at hf
      cases hf
    exact ⟨schemaOf rows, schema', rows, ⟨hsome, by rw [hadd, List.append_nil], hnew,
      fun d hd hde => absurd hde (hdone d hd), hthis, hothers⟩, hknown', hext, hinserts⟩

namespace Advance
variable {H : HashOrder} {known : Schemas} {schema schema' : List (Bytes × Bytes)} {rows : Rows}
  {e : Bytes × List Message} {lg lg' : Log} {done : List (Bytes × List Message)}

lemma mem_columns (ha : Advance H schema rows e lg lg' done) {f : Bytes} :
    f ∈ schema.map (·.1) ↔ f ∈ (schemaOf rows).map (·.1) ∨ f ∈ (addedTo lg e.1).map (·.1) := by
  rw [(ha.columns.map (·.1)).mem_iff, List.map_append, List.mem_append]

lemma tracks_unknown (ha : Advance H schema rows e lg lg' done) (ht : Tracked known lg done) (table : Bytes)
    (hk : Function.update known e.1 (some schema') table = none) :
    Psql.reported (lg ++ lg') table = none ∧ addedTo (lg ++ lg') table = [] ∧
      ∀ d ∈ done ++ [e], d.1 ≠ table := by
  have hne : e.1 ≠ table := by
    rintro rfl
    rw [Function.update_self] at hk
    cases hk
  rw [Function.update_of_ne (Ne.symm hne)] at hk
  obtain ⟨hnone, hadd, hdone⟩ := ht.unknown table hk
  rw [(ha.others table hne).1, (ha.others table hne).2]
  refine ⟨hnone, hadd, fun d hd => ?_⟩
  rcases List.mem_append.mp hd with hd | hd
  · exact hdone d hd
  · obtain rfl := List.mem_singleton.mp hd
    exact hne

lemma tracks_cached (ha : Advance H schema rows e lg lg' done) (ht : Tracked known lg done)
    (hext : schema'.Perm (schema ++ newColumns H schema e.2)) (table : Bytes) (sch : List (Bytes × Bytes))
    (hk : Function.update known e.1 (some schema') table = some sch) :
    ∃ rs, Psql.reported (lg ++ lg') table = some rs ∧ sch.Perm (schemaOf rs ++ addedTo (lg ++ lg') table) := by
  by_cases hne : e.1 = table
  · subst hne
    rw [Function.update_self] at hk
    cases hk
    refine ⟨rows, ha.reported, ?_⟩
    rw [ha.added, ← List.append_assoc]
    exact hext.trans (ha.columns.append_right _)
  · rw [Function.update_of_ne (Ne.symm hne)] at hk
    rw [(ha.others table hne).1, (ha.others table hne).2]
    exact ht.cached table sch hk

lemma tracks_once (ha : Advance H schema rows e lg lg' done) (ht : Tracked known lg done) (table : Bytes) :
    ((addedTo (lg ++ lg') table).map (·.1)).Nodup := by
  by_cases hne : e.1 = table
  · subst hne
    rw [ha.added, List.map_append]
    apply List.Nodup.append (ht.once e.1) (newColumns_nodup H schema e.2)
    intro f hold hnew
    exact newColumns_new hnew (ha.mem_columns.mpr (Or.inr hold))
  · rw [(ha.others table hne).2]
    exact ht.once table

lemma tracks_new (ha : Advance H schema rows e lg lg' done) (ht : Tracked known lg done) (table : Bytes)
    (rs : Rows) (hrs : Psql.reported (lg ++ lg') table = some rs) (f : Bytes)
    (hf : f ∈ (addedTo (lg ++ lg') table).map (·.1)) : f ∉ (schemaOf rs).map (·.1) := by
  by_cases hne : e.1 = table
  · subst hne
    obtain rfl : rows = rs := Option.some.inj (ha.reported.symm.trans hrs)
    rw [ha.added, List.map_append, List.mem_append] at hf
    intro hr
    rcases hf with hf | hf
    · exact ha.new f hf hr
    · exact newColumns_new hf (ha.mem_columns.mpr (Or.inl hr))
  · rw [(ha.others table hne).1] at hrs
    rw [(ha.others table hne).2] at hf
    exact ht.new table rs hrs f hf

lemma tracks_listed (ha : Advance H schema rows e lg lg' done) (ht : Tracked known lg done)
    (hext : schema'.Perm (schema ++ newColumns H schema e.2)) (d : Bytes × List Message) (hd : d ∈ done ++ [e])
    (sch : List (Bytes × Bytes)) (hk : Function.update known e.1 (some schema') d.1 = some sch) (m : Message)
    (hm : m ∈ d.2) (f : Bytes) (hf : f ∈ m.keys) : f ∈ sch.map (·.1) := by
  by_cases hne : e.1 = d.1
  · rw [← hne, Function.update_self] at hk
    cases hk
    rw [(hext.map (·.1)).mem_iff]
    rcases List.mem_append.mp hd with hd | hd
    · rw [List.map_append]
      exact List.mem_append_left _ (ha.listed d hd hne.symm m hm f hf)
    · obtain rfl := List.mem_singleton.mp hd
      exact listed_after ((mem_fieldsOf H d.2).mpr ⟨m, hm, hf⟩)
  · rw [Function.update_of_ne (Ne.symm hne)] at hk
    rcases List.mem_append.mp hd with hd | hd
    · exact ht.listed d hd sch hk m hm f hf
    · obtain rfl := List.mem_singleton.mp hd
      exact absurd rfl hne

lemma tracks_typed (ha : Advance H schema rows e lg lg' done) (ht : Tracked known lg done) (table : Bytes)
    (x : Bytes × Bytes) (hx : x ∈ addedTo (lg ++ lg') table) : ∃ v, x.2 = columnType v ∧
      firstValue (((done ++ [e]).filter fun d => d.1 = table).flatMap (·.2)) x.1 = some v := by
  by_cases hne : e.1 = table
  · subst hne
    have hwork : ((done ++ [e]).filter fun d => d.1 = e.1).flatMap (·.2) =
        (done.filter fun d => d.1 = e.1).flatMap (·.2) ++ e.2 := by simp
    rw [hwork]
    rw [ha.added, List.mem_append] at hx
    rcases hx with hx | hx
    · obtain ⟨v, hv, hfirst⟩ := ht.typed e.1 x hx
      exact ⟨v, hv, by rw [firstValue_append, hfirst, Option.some_or]⟩
    · -- No message that is done has the field, or its column would be listed.
      obtain ⟨v, hv, hfirst⟩ := newColumns_typed hx
      refine ⟨v, hv, ?_⟩
      rw [firstValue_append, hfirst, Option.or_eq_some_iff]
      refine Or.inr ⟨firstValue_eq_none fun m hm hk => ?_, rfl⟩
      obtain ⟨d, hd, hmd⟩ := List.mem_flatMap.mp hm
      obtain ⟨hd, hde⟩ := List.mem_filter.mp hd
      exact newColumns_new (List.mem_map_of_mem hx) (ha.listed d hd (by simpa using hde) m hmd x.1 hk)
  · rw [(ha.others table hne).2] at hx
    obtain ⟨v, hv, hfirst⟩ := ht.typed table x hx
    refine ⟨v, hv, ?_⟩
    simpa [hne] using hfirst

lemma knows_fields (ha : Advance H schema rows e lg lg' done) {f : Bytes} (hf : f ∈ fieldsOf H e.2) :
    Known (lg ++ lg') e.1 f := by
  have hlisted : f ∈ (schema ++ newColumns H schema e.2).map (·.1) := listed_after hf
  rw [List.map_append, List.mem_append, ha.mem_columns] at hlisted
  unfold Known
  rw [ha.added, List.map_append, List.mem_append]
  rcases hlisted with (hrow | hold) | hnew
  · exact Or.inl ⟨rows, ha.reported, hrow⟩
  · exact Or.inr (Or.inl hold)
  · exact Or.inr (Or.inr hnew)

end Advance

/-- The step lemma: the work for one table keeps what the worker knows. -/
lemma Tracked.step {H : HashOrder} {known known' : Schemas} {e : Bytes × List Message} {lg lg' : Log}
    {done : List (Bytes × List Message)} (ht : Tracked known lg done) (h : TableWork H known e lg' known') :
    Tracked known' (lg ++ lg') (done ++ [e]) := by
  obtain ⟨schema, schema', rows, ha, rfl, hext, hinserts⟩ := ht.advance h
  exact {
    unknown := ha.tracks_unknown ht
    cached := ha.tracks_cached ht hext
    once := ha.tracks_once ht
    new := ha.tracks_new ht
    listed := ha.tracks_listed ht hext
    typed := ha.tracks_typed ht
    inserts := insertsKnown_append.mpr ⟨ht.inserts, hinserts _ fun f hf => ha.knows_fields hf⟩ }

/-- The run lemma. -/
lemma Tracked.run {H : HashOrder} {known known' : Schemas} {es done : List (Bytes × List Message)}
    {lg lg' : Log} (ht : Tracked known lg done) (h : Works H known es lg' known') :
    Tracked known' (lg ++ lg') (done ++ es) := by
  induction h generalizing lg done with
  | nil => simpa using ht
  | cons first rest ih =>
    have hnext := ih (ht.step first)
    simpa using hnext

namespace PSQLWriter

/-- After any number of batches, with every statement accepted: an `INSERT` names only columns that its
table was reported to have or that were added before; no column is added twice, or added though it was
reported; and an added column has the type of the first value that was sent for it. -/
theorem adds_missing_columns_once (H : HashOrder) (fuel : ℕ) {s : World S} (hs : Fresh s)
    (hpoll : ∀ n, s.polls n ≠ -1) :
    let t := ((commitThread H fuel).invoke (World.answer S) start s).2.2
    (∀ e ∈ t.log, e.2.isOk = true) → InsertsKnown [] t.log ∧ ∀ table,
      ((addedTo t.log table).map (·.1)).Nodup ∧
      (∀ rows, reported t.log table = some rows →
        ∀ f ∈ (addedTo t.log table).map (·.1), f ∉ (schemaOf rows).map (·.1)) ∧
      ∀ x ∈ addedTo t.log table, ∃ v, x.2 = columnType v ∧
        firstValue (t.sent.filter fun m => m.table = table) x.1 = some v := by
  intro t hok
  obtain ⟨b, -, segs, lg, last, r, known, -, hworks, hsent, hlog, hlast⟩ := accepted_run H fuel hs hpoll hok
  have htracked := (Tracked.start r).run hworks
  have hsteered : ∀ x ∈ last, x.1 = .commit ∨ x.1 = .begin := by
    cases b with
    | true =>
      obtain ⟨⟨r', rfl⟩, -⟩ := hlast
      simp
    | false =>
      obtain rfl : last = [] := hlast
      simp
  have hlog' : t.log = ([(.begin, .ok r)] ++ lg) ++ last := hlog
  rw [hlog']
  refine ⟨insertsKnown_append.mpr ⟨htracked.inserts, (steering_parts hsteered []).2.2 _⟩, fun table => ?_⟩
  obtain ⟨hadd, hrep, -⟩ := steering_parts hsteered table
  rw [addedTo_append _ last, hadd, List.append_nil, reported_append _ last, hrep, Option.or_none]
  refine ⟨htracked.once table, htracked.new table, fun x hx => ?_⟩
  obtain ⟨v, hv, hfirst⟩ := htracked.typed table x hx
  refine ⟨v, hv, ?_⟩
  rw [List.nil_append, batched_messages] at hfirst
  have hsent' : t.sent = segs.flatten ++ t.pipe := hsent
  rw [hsent', List.filter_append, firstValue_append, hfirst, Option.some_or]

/-- Two batches for a table of which one column is there; the second one has a field of the first again. -/
theorem adds_missing_columns_once_repeatedField :
    let rows := [[ascii "test", ascii "int8"]]
    let s : World (agreeable rows) := World.fresh () fun n =>
      if n = 3 then [.addValue (ascii "data") [(ascii "temp", .double 0), (ascii "test", .int32 1)]]
      else if n = 12 then [.addValue (ascii "data") [(ascii "temp", .string []), (ascii "id", .int32 2)]] else []
    let t := ((commitThread insertionOrder 5).invoke (World.answer (agreeable rows)) start s).2.2
    addedTo t.log (ascii "data") = [(ascii "temp", ascii "REAL"), (ascii "id", ascii "BIGINT")] ∧
      InsertsKnown [] t.log ∧ ((addedTo t.log (ascii "data")).map (·.1)).Nodup ∧
      ∀ f ∈ (addedTo t.log (ascii "data")).map (·.1), f ∉ (schemaOf rows).map (·.1) := by
  intro rows s
  have hfresh : Fresh s := Fresh.of_fresh _ _
  have hempty : ∀ e ∈ s.log, e.2.isOk = true := by simp [s, World.fresh]
  have hpoll : ∀ n, s.polls n ≠ -1 := fun _ => show (0 : ℤ) ≠ -1 by decide
  have hrun : ∀ fuel, let t := ((commitThread insertionOrder fuel).invoke (World.answer (agreeable rows)) start s).2.2
      reported t.log (ascii "data") = some rows → InsertsKnown [] t.log ∧
        ((addedTo t.log (ascii "data")).map (·.1)).Nodup ∧
        ∀ f ∈ (addedTo t.log (ascii "data")).map (·.1), f ∉ (schemaOf rows).map (·.1) := by
    intro fuel t hreported
    have hok : ∀ e ∈ t.log, e.2.isOk = true := agreeable_accepts rows (commitThread insertionOrder fuel) start hempty
    obtain ⟨hinserts, h⟩ := adds_missing_columns_once insertionOrder fuel hfresh hpoll hok
    obtain ⟨hnodup, hnew, -⟩ := h (ascii "data")
    exact ⟨hinserts, hnodup, hnew rows hreported⟩
  refine ⟨?_, hrun 5 ?_⟩
  · decide +kernel
  · decide +kernel

end PSQLWriter
end SqliteWrite.Psql
