import SqliteWrite.Postgres.Failures
import SqliteWrite.Postgres.Identifiers
import SqliteWrite.Postgres.Limits

/-! The worker and the server together. From whatever the tables hold at the start, a stream whose names are
in lower case and whose values suit their columns is stored message by message; no statement is rejected. -/
namespace SqliteWrite.Psql
open Reading Method

variable {V : Type} {D : Dialect V}

/-- The type of a column; there is none without the table. -/
def Db.typeOf (db : Db V) (table c : Bytes) : Option Bytes := (db table).bind fun t => t.type c

/-- The rows of a table, of which there are none without it. -/
def Db.stored (db : Db V) (table : Bytes) : List (Record V) := ((db table).map (·.rows)).getD []

namespace Table

lemma type_isSome (t : Table V) (c : Bytes) : (t.type c).isSome ↔ c ∈ t.names := by
  simp [type, names, List.find?_isSome]

lemma create_type (column ty c : Bytes) : (create column ty : Table V).type c =
    if column = c then some ty else none := by
  by_cases h : column = c <;> simp [create, type, h]

lemma addColumn_type (t : Table V) (column ty c : Bytes) (h : column ∉ t.names) :
    (t.addColumn column ty h).type c = (t.type c).or (if column = c then some ty else none) := by
  unfold addColumn type
  rw [List.find?_append]
  cases t.columns.find? fun p => p.1 = c with
  | some p => rfl
  | none => by_cases hc : column = c <;> simp [hc]

end Table

lemma Holds.mono {t t' : Table V} {m : Message} {r : Record V} (h : Holds D t m r)
    (ht : ∀ c ty, t.type c = some ty → t'.type c = some ty) : Holds D t' m r := by
  obtain ⟨hvalues, hnull⟩ := h
  refine ⟨fun f v hv => ?_, hnull⟩
  obtain ⟨ty, x, hty, hx, hr⟩ := hvalues f v hv
  exact ⟨ty, x, ht _ _ hty, hx, hr⟩

/-- The types of the columns when the column of one more field is there. -/
def withField (types : Bytes → Option Bytes) (e : Bytes × VarT) (c : Bytes) : Option Bytes :=
  (types c).or (if e.1 = c then some (fold (columnType e.2)) else none)

lemma withField_known {types : Bytes → Option Bytes} {e : Bytes × VarT} (h : (types e.1).isSome) :
    withField types e = types := by
  funext c
  unfold withField
  by_cases hc : e.1 = c
  · rw [if_pos hc, ← hc]
    exact Option.or_of_isSome h
  · rw [if_neg hc]
    exact Option.or_none

lemma withField_self (types : Bytes → Option Bytes) (e : Bytes × VarT) : (withField types e e.1).isSome := by
  unfold withField
  cases types e.1 <;> simp

lemma withField_mono {types : Bytes → Option Bytes} {c : Bytes} (e : Bytes × VarT) (h : (types c).isSome) :
    (withField types e c).isSome := by
  unfold withField
  rw [Option.or_of_isSome h]
  exact h

/-- Of all the fields that a list of entries has the first entry of each decides. -/
lemma foldl_withField (es : List (Bytes × VarT)) (types : Bytes → Option Bytes) (c : Bytes) :
    es.foldl withField types c =
      (types c).or ((es.find? fun e => e.1 = c).map fun e => fold (columnType e.2)) := by
  induction es generalizing types with
  | nil => simp
  | cons e es ih =>
    rw [List.foldl_cons, ih]
    unfold withField
    rw [Option.or_assoc]
    by_cases h : e.1 = c <;> simp [h]

lemma find_firstValue (H : HashOrder) (work : List Message) (c : Bytes) :
    ((work.flatMap H.entries).find? fun e => e.1 = c) = (firstValue work c).map (c, ·) := by
  unfold firstValue
  induction work with
  | nil => rfl
  | cons m work ih =>
    rw [List.flatMap_cons, List.find?_append, find_entries, ih, List.findSome?_cons]
    cases m.find c with
    | some v => rfl
    | none => rfl

lemma firstValue_isSome {ms : List Message} {c : Bytes} : (firstValue ms c).isSome ↔ ∃ m ∈ ms, c ∈ m.keys := by
  unfold firstValue
  rw [List.findSome?_isSome_iff]
  simp only [Message.mem_keys, Option.isSome_iff_exists]

/-- The type of a column when these messages are done: the table has it from the start, or the first value of
the field has created it. -/
def typeFor (db : Db V) (table : Bytes) (ms : List Message) (c : Bytes) : Option Bytes :=
  (db.typeOf table c).or ((firstValue ms c).map fun v => fold (columnType v))

lemma typeFor_entries (H : HashOrder) (db : Db V) (table : Bytes) (done work : List Message) :
    (work.flatMap H.entries).foldl withField (typeFor db table done) = typeFor db table (done ++ work) := by
  funext c
  rw [foldl_withField, find_firstValue]
  unfold typeFor
  rw [firstValue_append, Option.or_assoc]
  cases firstValue done c with
  | some v => simp
  | none => cases firstValue work c <;> simp

/-- What is known of a table between two statements: the cached columns are those of the table, their types are
these, a table that is there has some, and behind the rows `old` it has one for each message. -/
structure Holding (D : Dialect V) (table : Bytes) (types : Bytes → Option Bytes) (old : List (Record V))
    (ms : List Message) (known : Schemas) (db : Db V) : Prop where
  cached : ∃ schema, known table = some schema ∧ SortedByFirst schema ∧
    ∀ c, c ∈ schema.map (·.1) ↔ (types c).isSome
  typed : ∀ c, db.typeOf table c = types c
  filled : ∀ t, db table = some t → t.names ≠ []
  rows : (db table = none ∧ old = [] ∧ ms = []) ∨
    ∃ t rs, db table = some t ∧ t.rows = old ++ rs ∧ List.Forall₂ (Holds D t) ms rs

/-- The other tables are as they were. -/
structure Aside (table : Bytes) (known known' : Schemas) (db db' : Db V) : Prop where
  schemas : ∀ other ≠ table, known' other = known other
  tables : ∀ other ≠ table, db' other = db other

namespace Aside
variable {table : Bytes} {known known' known'' : Schemas} {db db' db'' : Db V}

lemma refl (table : Bytes) (known : Schemas) (db : Db V) : Aside table known known db db :=
  ⟨fun _ _ => rfl, fun _ _ => rfl⟩

lemma trans (h : Aside table known known' db db') (k : Aside table known' known'' db' db'') :
    Aside table known known'' db db'' :=
  ⟨fun other ho => (k.schemas other ho).trans (h.schemas other ho),
    fun other ho => (k.tables other ho).trans (h.tables other ho)⟩

lemma update (schema : List (Bytes × Bytes)) :
    Aside table known (Function.update known table (some schema)) db db :=
  ⟨fun _ ho => Function.update_of_ne ho _ _, fun _ _ => rfl⟩

lemma put (t : Table V) : Aside table known known db (db.put table t) :=
  ⟨fun _ _ => rfl, fun _ ho => Function.update_of_ne ho _ _⟩

end Aside

lemma Db.typeOf_put (db : Db V) (table c : Bytes) (t : Table V) : (db.put table t).typeOf table c = t.type c := by
  simp [Db.typeOf]

lemma Holding.withField {table : Bytes} {types : Bytes → Option Bytes} {old : List (Record V)} {ms : List Message}
    {known : Schemas} {db : Db V} (h : Holding D table types old ms known db) {e : Bytes × VarT} {t : Table V}
    (htypes : ∀ c, t.type c = Psql.withField types e c) (hrows : t.rows = db.stored table)
    {schema : List (Bytes × Bytes)} (hsorted : SortedByFirst schema)
    (hlisted : ∀ c, c ∈ schema.map (·.1) ↔ (Psql.withField types e c).isSome) :
    Holding D table (Psql.withField types e) old ms (Function.update known table (some schema))
      (db.put table t) := by
  refine ⟨⟨schema, Function.update_self _ _ _, hsorted, hlisted⟩, fun c => ?_, fun t' ht' => ?_, Or.inr ?_⟩
  · rw [Db.typeOf_put, htypes]
  · rw [Db.put_self] at ht'
    obtain rfl := Option.some.inj ht'
    apply List.ne_nil_of_mem (a := e.1)
    rw [← Table.type_isSome, htypes]
    exact withField_self types e
  · unfold Db.stored at hrows
    rcases h.rows with ⟨hdb, rfl, rfl⟩ | ⟨t₀, rs, hdb, ht₀, hholds⟩
    · rw [hdb] at hrows
      exact ⟨t, [], Db.put_self table t, hrows, .nil⟩
    · rw [hdb] at hrows
      refine ⟨t, rs, Db.put_self table t, hrows.trans ht₀, hholds.imp fun m r hr => hr.mono fun c ty hty => ?_⟩
      have hc := h.typed c
      rw [Db.typeOf, hdb, Option.bind_some, hty] at hc
      rw [htypes, Psql.withField, ← hc]
      rfl

lemma Holding.append {table : Bytes} {types : Bytes → Option Bytes} {old : List (Record V)} {ms work : List Message}
    {known : Schemas} {db : Db V} (h : Holding D table types old ms known db) {t : Table V} (hdb : db table = some t)
    {rs : List (Record V)} (hrs : List.Forall₂ (Holds D t) work rs) :
    Holding D table types old (ms ++ work) known (db.put table (t.append rs)) := by
  refine ⟨h.cached, fun c => ?_, fun u hu => ?_, Or.inr ?_⟩
  · rw [Db.typeOf_put, Table.append_type, ← h.typed, Db.typeOf, hdb]
    rfl
  · rw [Db.put_self] at hu
    obtain rfl := Option.some.inj hu
    exact h.filled t hdb
  · rcases h.rows with ⟨hnone, -, -⟩ | ⟨t', rs', ht', hrows, hheld⟩
    · rw [hdb] at hnone
      cases hnone
    · obtain rfl : t = t' := Option.some.inj (hdb.symm.trans ht')
      refine ⟨t.append rs, rs' ++ rs, Db.put_self _ _, ?_, ?_⟩
      · rw [Table.append_rows, hrows, List.append_assoc]
      · have hall : List.Forall₂ (Holds D t) (ms ++ work) (rs' ++ rs) := List.rel_append hheld hrs
        exact hall.imp fun m r hr => hr.mono fun c ty hc => hc

namespace MiniPSQL
variable (w : Worker) (s : World D.server)

lemma addColumn_puts {table field : Bytes} (hl : PSQLWriter.Lower D table field) (x : VarT)
    (hfilled : ∀ t : Table V, s.db table = some t → t.names ≠ [])
    (hnew : (Db.typeOf s.db table field) = none) :
    Returns (addColumn table field (columnType x)) w s fun _ v t => v = w ∧ ∃ tb : Table V,
      t.db = Db.put s.db table tb ∧ tb.rows = Db.stored s.db table ∧
      ∀ c, tb.type c = withField (Db.typeOf s.db table) (field, x) c := by
  unfold addColumn
  refine (haveTable_returns w s hl.tableValid hfilled).seq fun known v t h => ?_
  obtain ⟨rfl, rfl, hdb⟩ := h
  cases hs : s.db table with
  | none =>
    have hanswer := answer_create hl.tableValid hl.fieldValid x (hl.tableFold.symm ▸ hdb ▸ hs)
    refine (exec_returns v t hanswer).seq fun _ u t' h => ?_
    obtain ⟨rfl, -, hdb'⟩ := h
    refine Outcome.pure ⟨rfl, Table.create field (fold (columnType x)), ?_, ?_, fun c => ?_⟩
    · rw [hdb', hl.tableFold, hl.fieldFold, hdb]
    · simp [Db.stored, hs, Table.create]
    · rw [Table.create_type]
      simp [withField, Db.typeOf, hs]
  | some tb =>
    have hcolumn : field ∉ tb.names := by
      have htype : tb.type field = none := by simpa [Db.typeOf, hs] using hnew
      rw [← Table.type_isSome, htype]
      exact Bool.false_ne_true
    have hanswer := answer_alter hl.tableValid hl.fieldValid x (hdb ▸ hs) hcolumn
    refine (exec_returns v t hanswer).seq fun _ u t' h => ?_
    obtain ⟨rfl, -, hdb'⟩ := h
    refine Outcome.pure ⟨rfl, tb.addColumn field (fold (columnType x)) hcolumn, ?_, ?_, fun c => ?_⟩
    · rw [hdb', hdb]
    · simp [Db.stored, hs, Table.addColumn]
    · rw [Table.addColumn_type]
      simp [withField, Db.typeOf, hs]

end MiniPSQL

namespace PSQLWriter
variable {table : Bytes} {types : Bytes → Option Bytes} {old : List (Record V)} {ms : List Message}

lemma checkField_holds {w : Worker} {s : World D.server} {fields : List Bytes} {e : Bytes × VarT}
    (hl : Lower D table e.1) (h : Holding D table types old ms w.schemas s.db)
    (hfields : ∀ f ∈ fields, (types f).isSome) :
    Returns (checkField table fields e) w s fun fields' v t =>
      Holding D table (withField types e) old ms v.schemas t.db ∧ Aside table w.schemas v.schemas s.db t.db ∧
      ∀ f ∈ fields', (withField types e f).isSome := by
  obtain ⟨schema, hw, hsorted, hlisted⟩ := h.cached
  have hcached : cachedSchema w table = schema := by simp [cachedSchema, hw]
  have hsearch : binarySearch firstLt schema (e.1, ([] : Bytes)) = true ↔ (types e.1).isSome := by
    rw [binarySearch_iff schema hsorted, ← hlisted]
    simp
  unfold checkField
  by_cases hf : e.1 ∈ fields
  · rw [if_pos hf, withField_known (hfields e.1 hf)]
    exact Outcome.pure ⟨h, Aside.refl _ _ _, hfields⟩
  rw [if_neg hf]
  refine Outcome.get_bind ?_
  rw [hcached]
  have hall : ∀ f ∈ fields ++ [e.1], (withField types e f).isSome := by
    intro f hmem
    rcases List.mem_append.mp hmem with hmem | hmem
    · exact withField_mono e (hfields f hmem)
    · rw [List.mem_singleton.mp hmem]
      exact withField_self types e
  by_cases hknown : (types e.1).isSome
  · rw [hsearch.mpr hknown]
    refine Outcome.pure ⟨?_, Aside.refl _ _ _, hall⟩
    rw [withField_known hknown]
    exact h
  · have hb : binarySearch firstLt schema (e.1, ([] : Bytes)) = false :=
      Bool.eq_false_iff.mpr fun hb => hknown (hsearch.mp hb)
    rw [hb]
    have htypes : Db.typeOf s.db table = types := funext h.typed
    have hnew : Db.typeOf s.db table e.1 = none := by
      rw [h.typed]
      exact Option.not_isSome_iff_eq_none.mp hknown
    refine (MiniPSQL.addColumn_puts w s hl e.2 h.filled hnew).seq fun _ v t h' => ?_
    obtain ⟨rfl, tb, hdb, hrows, htb⟩ := h'
    rw [htypes] at htb
    refine Outcome.bind (Outcome.modify (Outcome.pure ⟨?_, ?_, hall⟩))
    · rw [hdb, hcached]
      refine h.withField htb hrows (sortPairs_sorted _) fun c => ?_
      have hmem : c ∈ (sortPairs (schema ++ [(e.1, columnType e.2)])).map (·.1) ↔
          c ∈ schema.map (·.1) ∨ c = e.1 := by
        simp [or_and_right, exists_or, eq_comm]
      rw [hmem, hlisted]
      constructor
      · rintro (hc | rfl)
        · exact withField_mono e hc
        · exact withField_self types e
      · intro hc
        by_cases he : e.1 = c
        · exact Or.inr he.symm
        · simp only [withField, if_neg he, Option.or_none] at hc
          exact Or.inl hc
    · rw [hdb]
      exact (Aside.update _).trans (Aside.put tb)

lemma checkEntries_holds {w : Worker} {s : World D.server} {fields : List Bytes} (es : List (Bytes × VarT))
    (hl : ∀ e ∈ es, Lower D table e.1) (h : Holding D table types old ms w.schemas s.db)
    (hfields : ∀ f ∈ fields, (types f).isSome) :
    Returns (es.foldlM (checkField table) fields) w s fun _ v t =>
      Holding D table (es.foldl withField types) old ms v.schemas t.db ∧
      Aside table w.schemas v.schemas s.db t.db := by
  induction es generalizing w s fields types with
  | nil => exact Outcome.pure ⟨h, Aside.refl _ _ _⟩
  | cons e es ih =>
    rw [List.foldlM_cons, List.foldl_cons]
    refine (checkField_holds (hl e List.mem_cons_self) h hfields).seq fun fields' v t h' => ?_
    obtain ⟨hholds, haside, hfields'⟩ := h'
    refine (ih (fun e' he' => hl e' (List.mem_cons_of_mem _ he')) hholds hfields').weaken (fun _ u t' h' => ?_)
      fun _ _ _ h => h
    exact ⟨h'.1, haside.trans h'.2⟩

end PSQLWriter

/-- How far a table is: nothing was done for it yet, or the worker and the server hold these messages. -/
def Stage (D : Dialect V) (db₀ : Db V) (table : Bytes) (ms : List Message) (known : Schemas) (db : Db V) : Prop :=
  (ms = [] ∧ known table = none ∧ db table = db₀ table) ∨
    (ms ≠ [] ∧ Holding D table (typeFor db₀ table ms) (db₀.stored table) ms known db)

lemma Stage.aside {db₀ db db' : Db V} {table other : Bytes} {ms : List Message} {known known' : Schemas}
    (h : Stage D db₀ other ms known db) (ha : Aside table known known' db db') (ho : other ≠ table) :
    Stage D db₀ other ms known' db' := by
  have hknown := ha.schemas other ho
  have hdb := ha.tables other ho
  have htype : db'.typeOf other = db.typeOf other := by
    funext c
    unfold Db.typeOf
    rw [hdb]
  rcases h with ⟨hms, hnone, hsame⟩ | ⟨hms, ⟨hcached, htyped, hfilled, hrows⟩⟩
  · exact Or.inl ⟨hms, hknown.trans hnone, hdb.trans hsame⟩
  · refine Or.inr ⟨hms, hknown.symm ▸ hcached, fun c => ?_, ?_, ?_⟩
    · rw [htype, htyped]
    · rw [hdb]
      exact hfilled
    · rw [hdb]
      exact hrows

/-- What the messages of a batch for one table must be, when these are done. -/
structure Fitting (D : Dialect V) (H : HashOrder) (db₀ : Db V) (table : Bytes) (done work : List Message) : Prop where
  nonempty : work ≠ []
  lower : ∀ f ∈ PSQLWriter.fieldNames work, PSQLWriter.Lower D table f
  fields : ∀ m ∈ work, m.keys ≠ []
  suits : ∀ m ∈ work, ∀ f v, m.find f = some v → ∃ ty, typeFor db₀ table (done ++ work) f = some ty ∧
    (D.input ty (cstr (valueText v))).isSome
  filled : ∀ t, db₀ table = some t → t.names ≠ []
  limit : work.length * (H.ofSet (fieldsOf H work)).length ≤ 65535

namespace PSQLWriter
variable {table : Bytes} {H : HashOrder} {db₀ : Db V} {done work : List Message}

lemma fieldNames_mem {f : Bytes} : f ∈ fieldNames work ↔ ∃ m ∈ work, f ∈ m.keys := by
  simp [fieldNames]

lemma holds_found {db : Db V} (hdb : db table = db₀ table) (hfilled : ∀ t, db₀ table = some t → t.names ≠ [])
    {known : Schemas} : Holding D table (typeFor db₀ table []) (db₀.stored table) []
      (Function.update known table (some (MiniPSQL.schemaRead db table))) db := by
  have htype : ∀ c, db.typeOf table c = typeFor db₀ table [] c := by
    intro c
    simp [typeFor, Db.typeOf, firstValue, hdb]
  refine ⟨⟨_, Function.update_self _ _ _, sortByFirst_sorted _, fun c => ?_⟩, htype, hdb.symm ▸ hfilled, ?_⟩
  · rw [MiniPSQL.schemaRead_names, ← htype]
    unfold Db.names Db.typeOf
    cases db table with
    | none => simp
    | some t => simp [t.type_isSome]
  · unfold Db.stored
    rw [hdb]
    cases db₀ table with
    | none => exact Or.inl ⟨rfl, rfl, rfl⟩
    | some t => exact Or.inr ⟨t, [], rfl, by simp, .nil⟩

lemma prepare_holds {w : Worker} {s : World D.server} (hf : Fitting D H db₀ table done work)
    (h : Stage D db₀ table done w.schemas s.db) :
    Returns (prepare H (table, work)) w s fun fields v t => fields = fieldsOf H work ∧
      Holding D table (typeFor db₀ table (done ++ work)) (db₀.stored table) done v.schemas t.db ∧
      Aside table w.schemas v.schemas s.db t.db := by
  have hentries : ∀ {w : Worker} {s : World D.server},
      Holding D table (typeFor db₀ table done) (db₀.stored table) done w.schemas s.db →
      Returns (checkFields H table work) w s fun fields v t => fields = fieldsOf H work ∧
        Holding D table (typeFor db₀ table (done ++ work)) (db₀.stored table) done v.schemas t.db ∧
        Aside table w.schemas v.schemas s.db t.db := by
    intro w s hholds
    obtain ⟨schema, hw, hsorted, -⟩ := id hholds.cached
    have hlower : ∀ e ∈ work.flatMap H.entries, Lower D table e.1 := fun e he =>
      hf.lower e.1 ((mem_entries_names H work e.1).mp (List.mem_map_of_mem he))
    have hspec := checkEntries_spec table (work.flatMap H.entries) w s hw hsorted []
    refine ((checkEntries_holds _ hlower hholds fun f hf => absurd hf List.not_mem_nil).and hspec).weaken
      (fun fields v t h => ?_) fun _ _ _ h => h.1
    obtain ⟨⟨hheld, haside⟩, hfields, -⟩ := h
    rw [typeFor_entries] at hheld
    exact ⟨hfields, hheld, haside⟩
  unfold prepare
  refine Outcome.get_bind ?_
  rcases h with ⟨rfl, hnone, hdb⟩ | ⟨-, hholds⟩
  · rw [if_pos (by simp [hnone])]
    have hvalid : Identifier D.reserved table := by
      obtain ⟨m, hm⟩ := List.exists_mem_of_ne_nil _ hf.nonempty
      obtain ⟨f, hk⟩ := List.exists_mem_of_ne_nil _ (hf.fields m hm)
      exact (hf.lower f (fieldNames_mem.mpr ⟨m, hm, hk⟩)).tableValid
    refine Outcome.bind ((MiniPSQL.getSchema_returns w s hvalid).weaken (fun schema v t h => ?_) fun _ _ _ h => h)
    obtain ⟨rfl, rfl, hdb'⟩ := h
    refine Outcome.bind (Outcome.modify ((hentries ?_).weaken (fun fields u t' h => ?_) fun _ _ _ h => h))
    · rw [← hdb']
      exact holds_found (hdb'.symm ▸ hdb) hf.filled
    · obtain ⟨hfields, hheld, haside⟩ := h
      rw [hdb'] at haside
      exact ⟨hfields, hheld, (Aside.update _).trans haside⟩
  · obtain ⟨schema, hw, -⟩ := id hholds.cached
    rw [if_neg (by simp [hw])]
    exact hentries hholds

lemma insert_holds {w : Worker} {s : World D.server} (hf : Fitting D H db₀ table done work)
    (h : Holding D table (typeFor db₀ table (done ++ work)) (db₀.stored table) done w.schemas s.db) :
    Returns (MiniPSQL.exec (.insert table (H.ofSet (fieldsOf H work)) work)) w s fun _ v t => v = w ∧
      Stage D db₀ table (done ++ work) w.schemas t.db ∧ Aside table w.schemas w.schemas s.db t.db := by
  have hmem : ∀ f, f ∈ H.ofSet (fieldsOf H work) ↔ ∃ m ∈ work, f ∈ m.keys := fun f =>
    ((H.set_perm _).mem_iff).trans (mem_fieldsOf H work)
  have hlower : ∀ f ∈ H.ofSet (fieldsOf H work), Lower D table f := fun f hm =>
    hf.lower f (fieldNames_mem.mpr ((hmem f).mp hm))
  have hfold : ∀ m ∈ work, ∀ f ∈ m.keys, fold f = f := fun m hm f hk =>
    (hf.lower f (fieldNames_mem.mpr ⟨m, hm, hk⟩)).fieldFold
  obtain ⟨m₀, hm₀⟩ := List.exists_mem_of_ne_nil _ hf.nonempty
  obtain ⟨f₀, hf₀⟩ := List.exists_mem_of_ne_nil _ (hf.fields m₀ hm₀)
  have hfirst := hlower f₀ ((hmem f₀).mpr ⟨m₀, hm₀, hf₀⟩)
  have hne : H.ofSet (fieldsOf H work) ≠ [] := List.ne_nil_of_mem ((hmem f₀).mpr ⟨m₀, hm₀, hf₀⟩)
  have hinj : ∀ f ∈ H.ofSet (fieldsOf H work), ∀ g ∈ H.ofSet (fieldsOf H work), fold f = fold g → f = g := by
    intro f hfm g hgm heq
    rwa [(hlower f hfm).fieldFold, (hlower g hgm).fieldFold] at heq
  have hnodup : ((H.ofSet (fieldsOf H work)).map fold).Nodup :=
    nodup_fold ((H.set_perm _).nodup_iff.mpr (firsts_nodup [] _)) hinj
  have hanswer := answer_insert hfirst.tableValid (fun f hm => (hlower f hm).fieldValid) hne hf.nonempty hnodup hf.limit s.db
  rw [hfirst.tableFold] at hanswer
  -- The table is there, for it has a column.
  obtain ⟨v₀, hv₀⟩ := m₀.mem_keys.mp hf₀
  obtain ⟨ty₀, hty₀, -⟩ := hf.suits m₀ hm₀ f₀ v₀ hv₀
  cases hdb : s.db table with
  | none =>
    have hnone := h.typed f₀
    rw [hty₀] at hnone
    simp [Db.typeOf, hdb] at hnone
  | some t =>
    have htype : ∀ c, t.type c = typeFor db₀ table (done ++ work) c := by
      intro c
      have hc := h.typed c
      simpa [Db.typeOf, hdb] using hc
    have htakes : (work.all fun m => t.takes D m.keys m.sent) = true := by
      apply List.all_eq_true.mpr
      intro m hm
      apply List.all_eq_true.mpr
      intro f hk
      obtain ⟨v, hv⟩ := m.mem_keys.mp hk
      obtain ⟨ty, hty, hinput⟩ := hf.suits m hm f v hv
      have hsent : m.sent f = some (cstr (valueText v)) := by simp [Message.sent, hv]
      rw [hfold m hm f hk, hsent]
      unfold Table.cellOf
      rw [htype, hty, Option.bind_some, Dialect.cell, Option.isSome_map]
      exact hinput
    have himages : (work.map fun m => t.image D (H.ofSet (fieldsOf H work)) m.sent) =
        work.map fun m => t.image D m.keys m.sent := by
      apply List.map_congr_left
      intro m hm
      exact image_congr D t (fun f hk => (hmem f).mpr ⟨m, hm, hk⟩) hinj fun f hk => m.sent_none hk
    have hholds : List.Forall₂ (Holds D t) work (work.map fun m => t.image D m.keys m.sent) := by
      apply List.forall₂_map_right_iff.mpr
      apply List.forall₂_same.mpr
      intro m hm
      refine holds_image (fun f hk g hk' => ?_) (List.all_eq_true.mp htakes m hm)
      exact hinj f ((hmem f).mpr ⟨m, hm, hk⟩) g ((hmem g).mpr ⟨m, hm, hk'⟩)
    rw [hdb] at hanswer
    simp only [takes_union t hmem, htakes, himages, if_true] at hanswer
    refine (MiniPSQL.exec_returns w s hanswer).weaken (fun _ v t' h' => ?_) fun _ _ _ h => h
    obtain ⟨rfl, -, hdb'⟩ := h'
    rw [hdb']
    exact ⟨rfl, Or.inr ⟨List.append_ne_nil_of_right_ne_nil _ hf.nonempty, h.append hdb hholds⟩, Aside.put _⟩

lemma processTable_holds {w : Worker} {s : World D.server} (hf : Fitting D H db₀ table done work)
    (h : Stage D db₀ table done w.schemas s.db) :
    Returns (processTable H (table, work)) w s fun _ v t =>
      Stage D db₀ table (done ++ work) v.schemas t.db ∧ Aside table w.schemas v.schemas s.db t.db := by
  rw [processTable_eq]
  refine (prepare_holds hf h).seq fun fields v t h => ?_
  obtain ⟨rfl, hholds, haside⟩ := h
  refine (insert_holds hf hholds).seq fun _ v' t' h => ?_
  obtain ⟨rfl, hstage, haside'⟩ := h
  refine (commitIfLater_returns v' t').weaken (fun _ u t'' h => ?_) fun _ _ _ h => h
  obtain ⟨hu, hdb⟩ := h
  rw [hu, hdb]
  exact ⟨hstage, haside.trans haside'⟩

end PSQLWriter

/-- A stream that a database can take: its names are in lower case, each message has a field, each value is
one for the type that its column has or gets, and no batch of it needs too many parameters. -/
structure Acceptable (D : Dialect V) (db : Db V) (ms : List Message) : Prop where
  lower : ∀ m ∈ ms, ∀ f ∈ m.keys, PSQLWriter.Lower D m.table f
  fields : ∀ m ∈ ms, m.keys ≠ []
  suits : ∀ m ∈ ms, ∀ f v, m.find f = some v →
    ∃ ty, typeFor db m.table (ms.filter fun m' => m'.table = m.table) f = some ty ∧
      (D.input ty (cstr (valueText v))).isSome
  filled : ∀ m ∈ ms, ∀ t, db m.table = some t → t.names ≠ []
  size : ∀ m ∈ ms, m.values.length ≤ 1600
  bounded : Bounded ms

lemma Acceptable.fitting {H : HashOrder} {db₀ : Db V} {ms done seg rest : List Message} (h : Acceptable D db₀ ms)
    (hms : ms = done ++ seg ++ rest) (hfits : Fits 10000 0 seg) {e : Bytes × List Message}
    (he : e ∈ (tabwork seg).entries) :
    Fitting D H db₀ e.1 (done.filter fun m => m.table = e.1) e.2 := by
  have hne := (tabwork seg).filled e he
  obtain ⟨table, work⟩ := e
  obtain rfl : work = seg.filter fun m => m.table = table := PSQLWriter.tabwork_entry he
  have hwork : ∀ m ∈ seg.filter fun m => m.table = table, m ∈ ms ∧ m.table = table := by
    intro m hm
    obtain ⟨hseg, htable⟩ := List.mem_filter.mp hm
    rw [hms]
    exact ⟨by simp [hseg], by simpa using htable⟩
  refine ⟨hne, fun f hf => ?_, fun m hm => h.fields m (hwork m hm).1, fun m hm f v hv => ?_, fun t ht => ?_, ?_⟩
  · obtain ⟨m, hm, hk⟩ := PSQLWriter.fieldNames_mem.mp hf
    have hl := h.lower m (hwork m hm).1 f hk
    rwa [(hwork m hm).2] at hl
  · obtain ⟨ty, hty, hinput⟩ := h.suits m (hwork m hm).1 f v hv
    rw [(hwork m hm).2, hms, List.filter_append, List.filter_append] at hty
    refine ⟨ty, ?_, hinput⟩
    -- The field has a value in this batch, so that later ones do not decide about its type.
    have hvalue : (firstValue (done.filter (fun m => m.table = table) ++ seg.filter fun m => m.table = table)
        f).isSome :=
      firstValue_isSome.mpr ⟨m, List.mem_append_right _ hm, m.mem_keys.mpr ⟨v, hv⟩⟩
    unfold typeFor at hty ⊢
    rw [firstValue_append _ (rest.filter _), Option.or_of_isSome hvalue] at hty
    exact hty
  · obtain ⟨m, hm⟩ := List.exists_mem_of_ne_nil _ hne
    have hm' := hwork m hm
    exact h.filled m hm'.1 t (hm'.2.symm ▸ ht)
  · rw [fieldsOf_length]
    have hsize : ∀ m ∈ seg, m.values.length ≤ 1600 := fun m hm => h.size m (by rw [hms]; simp [hm])
    exact h.bounded done seg rest hms ((fits_iff_window hsize).mp hfits) table

lemma Stage.sorted {db₀ db : Db V} {known : Schemas} {ms : Bytes → List Message}
    (h : ∀ table, Stage D db₀ table (ms table) known db) : PSQLWriter.Sorted known := by
  intro table schema hschema
  rcases h table with ⟨-, hnone, -⟩ | ⟨-, hholds⟩
  · rw [hnone] at hschema
    cases hschema
  · obtain ⟨schema', hcached, hsorted, -⟩ := hholds.cached
    rw [hcached] at hschema
    cases hschema
    exact hsorted

namespace PSQLWriter
variable {H : HashOrder} {db₀ : Db V}

lemma processTables_holds {w : Worker} {s : World D.server} (es : List (Bytes × List Message))
    (hdistinct : es.Pairwise fun a b => a.1 ≠ b.1) {ms : Bytes → List Message}
    (hf : ∀ e ∈ es, Fitting D H db₀ e.1 (ms e.1) e.2) (h : ∀ table, Stage D db₀ table (ms table) w.schemas s.db) :
    Returns (es.forM (processTable H)) w s fun _ v t =>
      ∀ table, Stage D db₀ table (ms table ++ (es.filter fun e => e.1 = table).flatMap (·.2)) v.schemas t.db := by
  induction es generalizing w s ms with
  | nil => exact Outcome.pure (by simpa using h)
  | cons e es ih =>
    obtain ⟨hfirst, hrest⟩ := List.pairwise_cons.mp hdistinct
    change Returns (processTable H e >>= fun _ => es.forM (processTable H)) w s _
    refine (processTable_holds (hf e List.mem_cons_self) (h e.1)).seq fun _ v t h' => ?_
    obtain ⟨hstage, haside⟩ := h'
    have hnext : ∀ table, Stage D db₀ table (Function.update ms e.1 (ms e.1 ++ e.2) table) v.schemas t.db := by
      intro table
      by_cases ht : table = e.1
      · subst ht
        rw [Function.update_self]
        exact hstage
      · rw [Function.update_of_ne ht]
        exact (h table).aside haside ht
    have hfits : ∀ e' ∈ es, Fitting D H db₀ e'.1 (Function.update ms e.1 (ms e.1 ++ e.2) e'.1) e'.2 := by
      intro e' he'
      rw [Function.update_of_ne (hfirst e' he').symm]
      exact hf e' (List.mem_cons_of_mem _ he')
    refine (ih hrest hfits hnext).weaken (fun _ u t' h' table => ?_) fun _ _ _ h => h
    have hstage' := h' table
    by_cases ht : e.1 = table
    · subst ht
      simpa using hstage'
    · rw [Function.update_of_ne (Ne.symm ht)] at hstage'
      simpa [ht] using hstage'

lemma gather_quiet (n : ℕ) (g : Groups Bytes Message) (sumparms : Int32) (w : Worker) {s : World D.server}
    (hpoll : ∀ n, s.polls n ≠ -1) : Returns (gather n g sumparms) w s fun _ _ t => t.db = s.db := by
  induction n generalizing g sumparms w s with
  | zero => exact Outcome.pure rfl
  | succ n ih =>
    unfold gather
    by_cases hsum : sumparms < 60000
    · rw [if_pos hsum]
      have hwait : Returns waitIfNeeded w s fun _ _ t => t.db = s.db ∧ ∀ n, t.polls n ≠ -1 := by
        unfold waitIfNeeded waitForData
        refine Outcome.get_bind ?_
        split_ifs
        · refine Outcome.bind (Outcome.ask ?_)
          rw [if_neg (show ¬ (World.answer D.server .poll s).1 = -1 from hpoll s.now)]
          refine Outcome.pure ⟨World.arrive_db s, fun n => ?_⟩
          rw [World.answer_polls]
          exact hpoll n
        · exact Outcome.pure ⟨rfl, hpoll⟩
      refine hwait.seq fun _ v t h => ?_
      obtain ⟨hdb, hpoll'⟩ := h
      have harrive : t.arrive.db = s.db := (World.arrive_db t).trans hdb
      have hcommit : Returns (MiniPSQL.exec .commit) v t.arrive fun _ _ u => u.db = s.db :=
        (MiniPSQL.exec_returns v t.arrive answer_commit).weaken (fun _ _ _ h => h.2.2.trans harrive) fun _ _ _ h => h
      refine Outcome.bind (Outcome.ask ?_)
      change Outcome _ _ _ t.arrive.read.2 _ _
      rcases World.read_cases t.arrive with ⟨m, hr, htake⟩ | ⟨hr, hs, -, -⟩ | ⟨hr, hs, -, -⟩
      · rw [show (World.answer D.server .read t).1 = .message m from hr]
        have hread : t.arrive.read.2.db = s.db := by
          rw [← harrive]
          unfold World.read
          split <;> rfl
        have hpolls : ∀ n, t.arrive.read.2.polls n ≠ -1 := by
          rw [htake.polls, t.arrive_went.polls]
          exact hpoll'
        exact Outcome.bind (Outcome.modify ((ih _ _ _ hpolls).weaken (fun _ _ _ h => h.trans hread)
          fun _ _ _ h => h))
      · rw [show (World.answer D.server .read t).1 = .eof from hr, hs]
        cases hg : g.entries with
        | cons e es => exact Outcome.pure harrive
        | nil => exact hcommit.seq fun _ _ _ h => Outcome.pure h
      · rw [show (World.answer D.server .read t).1 = .again from hr, hs]
        exact Outcome.bind (Outcome.modify (Outcome.pure harrive))
    · rw [if_neg hsum]
      exact Outcome.pure rfl

/-- What holds between two batches: the messages that were taken are held, the others are in the pipe. -/
structure Between (D : Dialect V) (db₀ : Db V) (schedule : ℕ → List Event) (done : List Message) (w : Worker)
    (s : World D.server) : Prop where
  taken : s.sent = done ++ s.pipe
  wrote : s.Wrote schedule
  polls : ∀ n, s.polls n ≠ -1
  stages : ∀ table, Stage D db₀ table (done.filter fun m => m.table = table) w.schemas s.db

lemma entries_distinct (g : Groups Bytes Message) : g.entries.Pairwise fun a b => a.1 ≠ b.1 := by
  apply g.sorted.imp
  intro a b hlt heq
  rw [heq] at hlt
  exact Std.lt_irrefl hlt

lemma batches_holds (H : HashOrder) (fuel : ℕ) {ms : List Message} (hms : Acceptable D db₀ ms)
    {schedule : ℕ → List Event} (hschedule : ∀ n, writtenBy ((List.range n).flatMap schedule) <+: ms)
    {done : List Message} {w : Worker} {s : World D.server} (h : Between D db₀ schedule done w s) :
    Returns (batches H fuel) w s fun _ v t => ∃ done', Between D db₀ schedule done' v t := by
  induction fuel generalizing done w s with
  | zero => exact Outcome.pure ⟨done, h⟩
  | succ fuel ih =>
    unfold batches
    have hkeep := Outcome.keeps (w := w) (gather 10000 Groups.empty 0) (World.Wrote schedule)
      (fun q t => World.Wrote.answer q t) h.wrote
    refine ((((gather_quiet 10000 Groups.empty 0 w h.polls).and (gather_spec 10000 Groups.empty 0 w s)).and
      hkeep).weaken (fun _ _ _ h => h) fun _ _ _ h => h.1.1).seq fun res v t h' => ?_
    obtain ⟨⟨hdb, hv, hres⟩, hwrote⟩ := h'
    cases res with
    | none =>
      obtain ⟨-, -, -, r, hwent⟩ := hres
      obtain ⟨d, hsent, hpipe, -⟩ := hwent.wrote
      refine Outcome.pure ⟨done, ⟨?_, hwrote, hwent.polls ▸ h.polls, ?_⟩⟩
      · rw [hsent, h.taken, List.append_assoc, hpipe, List.nil_append]
      · rw [hv, hdb]
        exact h.stages
    | some g =>
      obtain ⟨seg, rfl, hfits, hwent⟩ := hres
      obtain ⟨d, hsent, hpipe, -⟩ := hwent.wrote
      have htaken : t.sent = done ++ seg ++ t.pipe := by
        rw [hsent, h.taken, List.append_assoc, hpipe, List.append_assoc]
      obtain ⟨rest, hrest⟩ := hschedule t.now
      have hstream : ms = done ++ seg ++ (t.pipe ++ rest) := by
        have hwritten : t.sent = writtenBy ((List.range t.now).flatMap schedule) := hwrote.sent
        rw [← hrest, ← hwritten, htaken, List.append_assoc]
      have hstages : ∀ table, Stage D db₀ table (done.filter fun m => m.table = table) v.schemas t.db := by
        rw [hv, hdb]
        exact h.stages
      have hsorted : Sorted v.schemas := Stage.sorted hstages
      have hkeep' := Outcome.keeps (w := v) ((tabwork seg).entries.forM (processTable H)) (World.Wrote schedule)
        (fun q t => World.Wrote.answer q t) hwrote
      have hwork := processTables_holds (w := v) (H := H) (tabwork seg).entries (entries_distinct _)
        (fun e he => hms.fitting hstream hfits he) hstages
      refine (((hwork.and (processTables_spec H _ v t hsorted)).and hkeep').weaken (fun _ _ _ h => h)
        fun _ _ _ h => h.1.1).seq fun _ u t' h' => ?_
      obtain ⟨⟨hstages', lg, -, hwent'⟩, hwrote'⟩ := h'
      obtain ⟨d', hsent', hpipe', -⟩ := hwent'.wrote
      have hbetween : Between D db₀ schedule (done ++ seg) u t' := by
        refine ⟨?_, hwrote', hwent'.polls ▸ hwent.polls ▸ h.polls, fun table => ?_⟩
        · rw [hsent', htaken, List.append_assoc, hpipe', List.nil_append]
        · have htable := batched_messages [seg] table
          simp only [List.flatMap_cons, List.flatMap_nil, List.append_nil, List.flatten_cons,
            List.flatten_nil] at htable
          rw [List.filter_append, ← htable]
          exact hstages' table
      exact ih hbetween

/-- The thread, wherever the bound on its batches cuts it off. -/
lemma commitThread_holds (H : HashOrder) (fuel : ℕ) {s : World D.server} (hs : Fresh s) {ms : List Message}
    (hms : Acceptable D s.db ms) (hschedule : ∀ n, s.written n <+: ms) (hpoll : ∀ n, s.polls n ≠ -1) :
    Returns (commitThread H fuel) start s fun _ v t => ∃ done, Between D s.db s.arrivals done v t := by
  have hwrote : s.Wrote s.arrivals := ⟨rfl, by simp [hs.closed, hs.now], by simp [hs.sent, hs.now, calls]⟩
  unfold commitThread
  refine (((MiniPSQL.exec_returns start s answer_begin).and (MiniPSQL.exec_spec start s .begin)).and
    (Outcome.keeps _ (World.Wrote s.arrivals) (fun q t => World.Wrote.answer q t) hwrote)).weaken
      (fun _ _ _ h => h) (fun _ _ _ h => h.1.1) |>.seq fun _ w t h => ?_
  obtain ⟨⟨⟨rfl, -, hdb⟩, -, r, -, hbegin⟩, hwrote'⟩ := h
  have hwent := hbegin.trans (World.arrive_went t)
  refine Outcome.bind (Outcome.ask (Outcome.bind (Outcome.modify ?_)))
  have hbetween (e : Worker) (he : e.schemas = start.schemas) :
      Between D s.db s.arrivals [] e (World.answer D.server .time t).2 := by
    refine ⟨?_, World.Wrote.answer .time t hwrote', hwent.polls ▸ hpoll, fun table => ?_⟩
    · obtain ⟨d, hsent, hpipe, -⟩ := hwent.wrote
      rw [hs.pipe] at hpipe
      rw [hs.sent] at hsent
      exact hsent.trans hpipe
    · refine Or.inl ⟨rfl, by rw [he]; rfl, ?_⟩
      change t.arrive.db table = s.db table
      rw [World.arrive_db, hdb]
  apply batches_holds H fuel hms hschedule
  exact hbetween _ rfl

lemma written_isPrefix {S : Server} (s : World S) {c : ℕ} (hc : .close ∈ s.arrivals c) (n : ℕ) :
    s.written n <+: s.written (c + 1) := by
  have hclose : .close ∈ s.events (c + 1) := List.mem_flatMap.mpr ⟨c, by simp, hc⟩
  have hsplit : ∀ i d : ℕ, s.events (i + d) = s.events i ++ (List.range d).flatMap fun k => s.arrivals (i + k) := by
    intro i d
    unfold World.events
    rw [List.range_add, List.flatMap_append, List.flatMap_map]
  unfold World.written writtenBy
  rcases Nat.le_total n (c + 1) with hle | hle
  · obtain ⟨d, hd⟩ := Nat.exists_eq_add_of_le hle
    apply List.IsPrefix.map
    by_cases hn : .close ∈ s.events n
    · have heq : calls (s.events (c + 1)) = calls (s.events n) := by rw [hd, hsplit, calls_closed hn]
      exact ⟨[], by rw [heq, List.append_nil]⟩
    · rw [hd, hsplit, calls_append hn]
      exact List.prefix_append _ _
  · obtain ⟨d, rfl⟩ := Nat.exists_eq_add_of_le hle
    have heq : calls (s.events (c + 1 + d)) = calls (s.events (c + 1)) := by rw [hsplit, calls_closed hclose]
    exact ⟨[], by rw [heq, List.append_nil]⟩

/-- The tables hold the messages behind what they had, one row for each and in order, under columns of the
types that they had or got from the first values; the tables without messages are as they were. -/
def Stores (D : Dialect V) (db₀ : Db V) (ms : List Message) (db : Db V) : Prop :=
  ∀ table, let work := ms.filter fun m => m.table = table
    (work = [] → db table = db₀ table) ∧
    (work ≠ [] → ∃ t rs, db table = some t ∧ (∀ c, t.type c = typeFor db₀ table work c) ∧
      t.rows = db₀.stored table ++ rs ∧ List.Forall₂ (Holds D t) work rs)

lemma stores_of_stages {db : Db V} {known : Schemas} {ms : List Message}
    (h : ∀ table, Stage D db₀ table (ms.filter fun m => m.table = table) known db) : Stores D db₀ ms db := by
  intro table work
  rcases h table with ⟨hnil, -, hdb⟩ | ⟨hne, hholds⟩
  · exact ⟨fun _ => hdb, fun hne => absurd hnil hne⟩
  · refine ⟨fun hnil => absurd hnil hne, fun _ => ?_⟩
    rcases hholds.rows with ⟨-, -, hnil⟩ | ⟨t, rs, hdb, hrows, hrs⟩
    · exact absurd hnil hne
    · refine ⟨t, rs, hdb, fun c => ?_, hrows, hrs⟩
      rw [← hholds.typed, Db.typeOf, hdb]
      rfl

/-- With a stream that the database can take no statement is rejected, whatever the batches. The thread returns
once the pipe is closed, its last statement is a commit, and the messages are stored then. -/
theorem stores_stream (H : HashOrder) {s : World D.server} (hs : Fresh s) (hpoll : ∀ n, s.polls n ≠ -1) {c : ℕ}
    (hc : .close ∈ s.arrivals c) (hms : Acceptable D s.db (s.written (c + 1))) : ∃ bound, ∀ fuel > bound,
      let r := (commitThread H fuel).invoke (World.answer D.server) start s
      r.1 = .ok true ∧ (∀ e ∈ r.2.2.log, e.2.isOk = true) ∧
        (∃ lg rows, r.2.2.log = lg ++ [(.commit, .ok rows)]) ∧ Stores D s.db (s.written (c + 1)) r.2.2.db := by
  have hclosing : Closing c s := ⟨hc, fun h => by rw [hs.now] at h; omega⟩
  refine ⟨ahead c s, fun fuel hfuel => ?_⟩
  have hholds := commitThread_holds H fuel hs hms (written_isPrefix s hc) hpoll
  intro r
  rcases ((hholds.and (commitThread_spec H fuel hs)).and (commitThread_returns H hclosing hfuel)).cases with
    ⟨b, hb, ⟨⟨done, hbetween⟩, hrun⟩, hend⟩ | ⟨e, -, h⟩
  · obtain rfl : b = true := hend
    obtain ⟨segs, lg, last, r', known, -, -, -, hlog, ⟨r'', rfl⟩, hpipe, hclosed⟩ := hrun
    refine ⟨hb, commitThread_accepted H hs fuel hb, ⟨_, r'', hlog⟩, ?_⟩
    have hdone : done = s.written (c + 1) := by
      have htaken := hbetween.taken
      rw [hpipe, List.append_nil, hbetween.wrote.sent] at htaken
      have hcalls := calls_before (hbetween.wrote.closed.mp hclosed)
        (show .close ∈ s.events (c + 1) from List.mem_flatMap.mpr ⟨c, by simp, hc⟩)
      rw [hcalls] at htaken
      exact htaken.symm
    rw [← hdone]
    exact stores_of_stages hbetween.stages
  · exact h.1.1.elim

lemma bounded_of_few {ms : List Message} (h : ms.length * (ms.map fun m => m.values.length).sum ≤ 65535) :
    Bounded ms := by
  rintro pre seg post rfl - table
  refine le_trans (Nat.mul_le_mul ?_ ?_) h
  · have hle := List.length_filter_le (fun m : Message => m.table = table) seg
    simp only [List.length_append]
    omega
  · have hfields : (tableFields seg table).length ≤
        ((seg.filter fun m => m.table = table).map fun m => m.values.length).sum := by
      refine (List.dedup_sublist _).length_le.trans_eq ?_
      simp [List.length_flatMap, Message.keys]
    have hle := sum_filter_le (fun m : Message => m.values.length) (fun m => m.table = table) seg
    simp only [List.map_append, List.sum_append]
    omega

/-- A database with one table of one row. -/
def oneRow : Db Bytes := fun name => if name = ascii "data" then
  some ⟨[(ascii "test", ascii "bigint")], [fun c => if c = ascii "test" then some (ascii "7") else none], by decide⟩
  else none

/-- Two messages for this table, the second with a new field, and one between them for a new table. -/
def threeMessages : World plainDialect.server := World.fresh oneRow fun n =>
  if n = 1 then [.addValue (ascii "data") [(ascii "test", .int32 1)], .addValue (ascii "log") [(ascii "text", .string [])]]
  else if n = 3 then [.addValue (ascii "data") [(ascii "temp", .double 0), (ascii "test", .int64 2)], .close] else []

lemma acceptable_threeMessages : Acceptable plainDialect oneRow (threeMessages.written 4) := by
  have hwritten : threeMessages.written 4 = [message (ascii "data") [(ascii "test", .int32 1)],
      message (ascii "log") [(ascii "text", .string [])],
      message (ascii "data") [(ascii "temp", .double 0), (ascii "test", .int64 2)]] := by rfl
  rw [hwritten]
  refine ⟨?_, by decide, ?_, ?_, by decide, bounded_of_few (by decide)⟩
  · have hlower : ∀ table field : Bytes, Identifier plainDialect.reserved table → Identifier plainDialect.reserved field →
        fold table = table → fold field = field → Lower plainDialect table field := fun _ _ => Lower.mk
    intro m hm f hf
    apply hlower
    · revert m f; decide +kernel
    · revert m f; decide +kernel
    · revert m f; decide +kernel
    · revert m f; decide +kernel
  · have hsuits : ∀ m ∈ [message (ascii "data") [(ascii "test", .int32 1)],
        message (ascii "log") [(ascii "text", .string [])],
        message (ascii "data") [(ascii "temp", .double 0), (ascii "test", .int64 2)]], ∀ p ∈ m.values,
        ((typeFor oneRow m.table ([message (ascii "data") [(ascii "test", .int32 1)],
          message (ascii "log") [(ascii "text", .string [])],
          message (ascii "data") [(ascii "temp", .double 0), (ascii "test", .int64 2)]].filter
            fun m' => m'.table = m.table) p.1).any fun ty =>
          (plainDialect.input ty (cstr (valueText p.2))).isSome) = true := by decide +kernel
    intro m hm f v hv
    exact (Option.any_eq_true _ _).mp (hsuits m hm (f, v) (m.find_eq_some.mp hv))
  · intro m _ t ht
    unfold oneRow at ht
    split_ifs at ht
    obtain rfl := Option.some.inj ht
    exact List.cons_ne_nil _ _

theorem stores_stream_threeMessages : ∃ bound, ∀ fuel > bound,
    let r := (commitThread insertionOrder fuel).invoke (World.answer plainDialect.server) start threeMessages
    r.1 = .ok true ∧ (∀ e ∈ r.2.2.log, e.2.isOk = true) ∧
      (∃ lg rows, r.2.2.log = lg ++ [(.commit, .ok rows)]) ∧
      Stores plainDialect oneRow (threeMessages.written 4) r.2.2.db :=
  stores_stream insertionOrder (Fresh.of_fresh _ _) (fun _ => show (0 : ℤ) ≠ -1 by decide) (c := 3)
    (show Event.close ∈ [Event.addValue (ascii "data") [(ascii "temp", .double 0), (ascii "test", .int64 2)], .close]
      by simp) acceptable_threeMessages

end PSQLWriter
end SqliteWrite.Psql
