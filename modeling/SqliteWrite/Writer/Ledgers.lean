import SqliteWrite.Writer.FieldOrder
import SqliteWrite.Writer.StoredRuns

/-! The writer without its caches. A call is a function of the database: it defines the columns that are
missing and inserts a row, or it leaves off where SQLite refuses. The lists of columns and the statements
that the writer keeps make no difference to any run. -/
namespace SqliteWrite
open Method

def Verdict.map {α β : Type} (f : α → β) : Verdict α → Verdict β
  | .accept a => .accept (f a)
  | .error rc msg => .error rc msg
  | .rollback rc msg => .rollback rc msg

/-- How a call ends: it returns or throws and leaves a database, or a statement of it was answered by rolling
the transaction back. -/
inductive Upshot
  | returned (db : Db)
  | threw (db : Db)
  | lost

namespace Decisions
variable (D : Decisions) (columnMeta : Bytes → Bytes → Bytes)

/-- A column is defined: in a new table, or as one more of the table that is there. -/
def define (table : Bytes) (p : Bytes × VarT) (db : Db) : Verdict Db :=
  match db.own table with
  | none =>
    (D.create db ((tableRef table).schema.getD Db.mainSchema) (tableRef table).name
      (fieldColumn columnMeta table p)).map fun _ =>
      db.put ((tableRef table).schema.getD Db.mainSchema) (tableRef table).name
        ⟨[fieldColumn columnMeta table p], [], by simp⟩
  | some t =>
    if t.Has p.1 then .error 1 (duplicateColumn p.1)
    else (D.add db (schemaKey table) (tableRef table).name (fieldColumn columnMeta table p)).map fun u =>
      db.put ((tableRef table).schema.getD Db.mainSchema) (tableRef table).name
        (t.addColumn (fieldColumn columnMeta table p) u)

/-- The columns of some fields, one after the other. -/
def defineAll (table : Bytes) : Fields → Db → Upshot
  | [], db => .returned db
  | p :: values, db =>
    if db.OwnsName table p.1 then defineAll table values db
    else match D.define columnMeta table p db with
      | .accept db' => defineAll table values db'
      | .error _ _ => .threw db
      | .rollback _ _ => .lost

/-- The row of a call, when its columns are there. -/
def insertRow (k : Call) (db : Db) : Upshot :=
  match SQLiteWriter.boundValues D.engine k.values with
  | .error _ => .threw db
  | .ok vs =>
    match D.insert db (schemaKey k.table) (tableRef k.table).name k.replace (k.names.zip vs) with
    | .accept rows => .returned (db.setRows rows)
    | .error _ _ => .threw db
    | .rollback _ _ => .lost

/-- What a call makes of a database. A call without fields inserts nothing. -/
def effect (k : Call) (db : Db) : Upshot :=
  if k.values ≠ [] ∧ db.knows ((tableRef k.table).schema.getD Db.mainSchema) = true then
    match D.defineAll columnMeta k.table k.values db with
    | .returned db' => D.insertRow k db'
    | upshot => upshot
  else .threw db

variable {D columnMeta} {table : Bytes} {p : Bytes × VarT} {db db' : Db}

lemma defineAll_found {values : Fields} (h : db.OwnsName table p.1) :
    D.defineAll columnMeta table (p :: values) db = D.defineAll columnMeta table values db := if_pos h

lemma defineAll_missing {values : Fields} (h : ¬ db.OwnsName table p.1) :
    D.defineAll columnMeta table (p :: values) db = match D.define columnMeta table p db with
      | .accept db' => D.defineAll columnMeta table values db'
      | .error _ _ => .threw db
      | .rollback _ _ => .lost := if_neg h

lemma effect_idle {k : Call}
    (h : k.values = [] ∨ db.knows ((tableRef k.table).schema.getD Db.mainSchema) = false) :
    D.effect columnMeta k db = .threw db := by
  apply if_neg
  rintro ⟨hne, hk⟩
  cases h with
  | inl hnil => exact hne hnil
  | inr hno => exact Bool.false_ne_true (hno.symm.trans hk)

lemma effect_active {k : Call} (hne : k.values ≠ [])
    (hk : db.knows ((tableRef k.table).schema.getD Db.mainSchema) = true) :
    D.effect columnMeta k db = match D.defineAll columnMeta k.table k.values db with
      | .returned db' => D.insertRow k db'
      | upshot => upshot := if_pos ⟨hne, hk⟩

lemma insertRow_cases (D : Decisions) (k : Call) (db : Db) :
    (∃ rows, D.insertRow k db = .returned (db.setRows rows)) ∨ D.insertRow k db = .threw db ∨
      D.insertRow k db = .lost := by
  unfold insertRow
  cases SQLiteWriter.boundValues D.engine k.values with
  | error x => exact Or.inr (Or.inl rfl)
  | ok vs =>
    simp only
    cases D.insert db _ _ _ _ with
    | accept rows => exact Or.inl ⟨rows, rfl⟩
    | error rc msg => exact Or.inr (Or.inl rfl)
    | rollback rc msg => exact Or.inr (Or.inr rfl)

lemma define_accept (h : D.define columnMeta table p db = .accept db') : ∃ (t : Table) (u : Value),
    db' = db.put ((tableRef table).schema.getD Db.mainSchema) (tableRef table).name t ∧
    t.columns = db.ownColumns table ++ [fieldColumn columnMeta table p] ∧
    t.rows = (db.ownRows table).map (· ++ [u]) ∧
    (∀ t₀, db.own table = some t₀ →
      D.add db (schemaKey table) (tableRef table).name (fieldColumn columnMeta table p) = .accept u) := by
  unfold define at h
  cases ho : db.own table with
  | none =>
    rw [ho] at h
    simp only at h
    generalize D.create db _ _ _ = verdict at h
    cases verdict with
    | accept a =>
      cases h
      refine ⟨_, .null, rfl, ?_, ?_, by simp⟩
      · simp [Db.ownColumns, ho]
      · simp [Db.ownRows, ho]
    | error rc msg => cases h
    | rollback rc msg => cases h
  | some t =>
    rw [ho] at h
    simp only at h
    split_ifs at h
    generalize hv : D.add db _ _ _ = verdict at h
    cases verdict with
    | accept u =>
      cases h
      refine ⟨_, u, rfl, ?_, ?_, fun _ _ => rfl⟩
      · rw [Db.ownColumns_some ho]
        rfl
      · rw [Db.ownRows_some ho]
        rfl
    | error rc msg => cases h
    | rollback rc msg => cases h

end Decisions

namespace Conn
variable {D : Decisions} {c : Conn D.engine} {table : Bytes} {base db : Db}

/-- A connection in its transaction: it sees one database, and another one is committed. -/
structure Amid (c : Conn D.engine) (base db : Db) : Prop where
  view : c.view = db
  committed : c.committed = base
  autocommit : c.autocommit = false

lemma Amid.put (h : c.Amid base db) (db' : Db) : Conn.Amid (D := D) (c.put db') base db' := by
  refine ⟨rfl, ?_, h.autocommit⟩
  simp only [Conn.put, h.autocommit, Bool.false_eq_true]
  exact h.committed

lemma put_view (ha : c.autocommit = false) : c.put c.view = c := by
  unfold put
  rw [ha]
  exact Conn.ext rfl rfl ha.symm rfl rfl rfl rfl

lemma exec_schema_amid (ht : PlainName table) (ha : c.autocommit = false) :
    (c.exec (schemaText table)).2 = c := by
  have hexec : D.engine.exec c.view (schemaText table) = _ := D.exec_schemaText ht
  rw [SQLiteWriter.exec_callRequest c table (Or.inl rfl)]
  unfold execText
  rw [hexec]
  split_ifs with hk
  · simp only [ha, Bool.false_and, Bool.false_eq_true, if_false]
    exact put_view ha
  · exact put_view ha

lemma exec_define {columnMeta : Bytes → Bytes → Bytes} {p : Bytes × VarT} (ht : PlainName table)
    (hn : PlainName p.1) (hm : (Sql.constraints (columnMeta table p.1)).isSome)
    (hu : Db.Unshadowed c.view table)
    (hk : Db.knows c.view ((tableRef table).schema.getD Db.mainSchema) = true) (ha : c.autocommit = false) :
    c.exec (definitionText (Db.own c.view table).isSome table p.1 p.2 (columnMeta table p.1)) =
      match D.define columnMeta table p c.view with
      | .accept db' => (.ok [], c.put db')
      | .error _ msg => (.error msg, c)
      | .rollback _ msg => (.error msg, c.rollback) := by
  obtain ⟨xs, hxs⟩ := Option.isSome_iff_exists.mp hm
  have hfield : Decisions.columnOf p.1 p.2 xs = fieldColumn columnMeta table p := by
    simp [fieldColumn, hxs]
  have hput : ∀ (x : Except Bytes (List (List (Option Bytes)))), (x, c.put c.view) = (x, c) := fun x => by
    rw [put_view ha]
  rw [exec_definitionText]
  unfold execText Decisions.define
  cases ho : Db.own c.view table with
  | none =>
    have hexec : D.engine.exec c.view (definitionText false table p.1 p.2 (columnMeta table p.1)) = _ :=
      D.exec_createText ht hn hxs
    rw [Option.isSome_none, hexec, if_pos hk, ho, hfield]
    simp only
    cases D.create c.view _ _ _ with
    | accept a => simp [Decisions.answer, Verdict.map, ha]
    | error rc msg => exact hput _
    | rollback rc msg => rfl
  | some t =>
    have hexec : D.engine.exec c.view (definitionText true table p.1 p.2 (columnMeta table p.1)) = _ :=
      D.exec_alterText ht hn hxs
    rw [Option.isSome_some, hexec, hu.means t ho, hu.means.resolve ho, hfield]
    simp only
    split_ifs with hh
    · exact hput _
    · cases D.add c.view _ _ _ with
      | accept u =>
        simp only [Decisions.answer, Verdict.map, ha, Bool.false_and, Bool.false_eq_true, if_false]
        exact congrArg (fun db => (Except.ok [], c.put db)) (Db.put_fold _ _ _)
      | error rc msg => exact hput _
      | rollback rc msg => rfl

lemma step_insertText_amid {k : Call} {vs : List Value} (ht : PlainName k.table)
    (hn : ∀ n ∈ k.names, PlainName n)
    (hcomp : Decisions.compileInsert c.view (tableRef k.table) k.names k.names.length = .ok ())
    (hf : Db.find c.view (tableRef k.table) = some (schemaKey k.table)) (ha : c.autocommit = false) :
    c.step (insertText k.replace k.table k.names) vs false =
      match D.insert c.view (schemaKey k.table) (tableRef k.table).name k.replace (k.names.zip vs) with
      | .accept rows => (⟨[], none⟩,
          (c.logged (insertText k.replace k.table k.names) vs).put (Db.setRows c.view rows))
      | .error rc _ => (⟨[], some rc⟩, c.logged (insertText k.replace k.table k.names) vs)
      | .rollback rc _ => (⟨[], some rc⟩,
          (c.logged (insertText k.replace k.table k.names) vs).rollback) := by
  have hprep : D.engine.prepare c.view (insertText k.replace k.table k.names) = _ :=
    prepare_insertText k.replace ht hn
  rw [hcomp] at hprep
  have hsteps : D.engine.step c.view (insertText k.replace k.table k.names) vs c.progress =
      ⟨[], D.stepInsert c.view (schemaKey k.table) (tableRef k.table).name k.replace (k.names.zip vs)⟩ := by
    change D.step c.view _ vs = _
    unfold Decisions.step
    rw [read_insertText k.replace ht hn]
    simp only [hf]
    rfl
  unfold step
  rw [hprep]
  simp only [hsteps, List.isEmpty_nil, Bool.not_true, Bool.and_false, Bool.false_eq_true, if_false]
  unfold Decisions.stepInsert
  cases D.insert c.view _ _ _ _ with
  | accept rows => simp [ha]
  | error rc msg => rfl
  | rollback rc msg => rfl

end Conn

namespace Upshot
variable {D : Decisions}

/-- A method of a writer in a transaction ended so. -/
def Shown (base : Db) : Upshot → Bool → Conn D.engine → Prop
  | returned db, ok, c => ok = true ∧ c.Amid base db
  | threw db, ok, c => ok = false ∧ c.Amid base db
  | lost, ok, c => ok = false ∧ c.autocommit = true

end Upshot

namespace Db
variable {db : Db} {table u : Bytes}

/-- A table put in place of a name shadows no other name, unless that one is unqualified and the same. -/
lemma Unshadowed.put_other (h : db.Unshadowed u)
    (hn : (tableRef u).schema = none → nameKey u ≠ nameKey table) (t : Table) :
    (db.put ((tableRef table).schema.getD mainSchema) (tableRef table).name t).Unshadowed u := by
  intro s hf
  unfold Db.find at hf
  cases hs : (tableRef u).schema with
  | some s' =>
    rw [hs] at hf
    simp only at hf
    split_ifs at hf
    cases hf
    simp [schemaKey, hs]
  | none =>
    apply h s
    unfold Db.find
    rw [hs] at hf ⊢
    have htables : ∀ s, (db.put ((tableRef table).schema.getD mainSchema) (tableRef table).name t).tables s
        (fold (tableRef u).name) = db.tables s (fold (tableRef u).name) := by
      intro s
      have hne : fold (tableRef u).name ≠ fold (tableRef table).name := hn hs
      by_cases hk : s = fold ((tableRef table).schema.getD mainSchema)
      · simp only [Db.put, hk, Function.update_self, Function.update_of_ne hne]
      · simp only [Db.put, Function.update_of_ne hk]
    simp only [htables] at hf
    exact hf

lemma ownsName_put (t : Table) {col : Column} (hcols : t.columns = db.ownColumns table ++ [col])
    (n : Bytes) : (db.put ((tableRef table).schema.getD mainSchema) (tableRef table).name t).OwnsName table n ↔
      db.OwnsName table n ∨ n = col.name := by
  unfold OwnsName
  rw [ownColumns_some (own_put_self t), hcols]
  simp [or_and_right, exists_or, eq_comm]

end Db

/-- No two of some names denote one table, nor does a table that one of them brings shadow another. -/
structure Apart (us : List Bytes) : Prop where
  spellings : ∀ t ∈ us, ∀ u ∈ us, SamePlace t u → t = u
  unqualified : ∀ t ∈ us, ∀ u ∈ us, (tableRef t).schema = none → nameKey t = nameKey u → t = u

instance (us : List Bytes) : Decidable (Apart us) :=
  decidable_of_iff ((∀ t ∈ us, ∀ u ∈ us, SamePlace t u → t = u) ∧
    ∀ t ∈ us, ∀ u ∈ us, (tableRef t).schema = none → nameKey t = nameKey u → t = u)
    ⟨fun h => ⟨h.1, h.2⟩, fun h => ⟨h.1, h.2⟩⟩

namespace SQLiteWriter
variable {D : Decisions} {columnMeta : Bytes → Bytes → Bytes} {us : List Bytes} {w : SQLiteWriter} {db : Db}
  {c : Conn D.engine} {table : Bytes} {p : Bytes × VarT}

/-- The cache finds exactly the columns that the tables of these names have. -/
structure Faithful (columnMeta : Bytes → Bytes → Bytes) (us : List Bytes) (w : SQLiteWriter) (db : Db) :
    Prop where
  sorted : w.Sorted
  dMeta : w.dMeta = columnMeta
  exact : ∀ u ∈ us, ∀ n, Finds w db u n ↔ db.OwnsName u n
  unshadowed : ∀ u ∈ us, db.Unshadowed u
  known : ∀ u ∈ us, w.dColumns u ≠ [] → db.knows ((tableRef u).schema.getD Db.mainSchema) = true

lemma Faithful.congr {v : SQLiteWriter} (h : Faithful columnMeta us w db) (hc : v.dColumns = w.dColumns)
    (hm : v.dMeta = w.dMeta) : Faithful columnMeta us v db := by
  refine ⟨fun u => ?_, hm.trans h.dMeta, fun u hu n => ?_, h.unshadowed, fun u hu => ?_⟩
  · rw [hc]
    exact h.sorted u
  · rw [← h.exact u hu n]
    simp only [Finds, hc, lists_congr hc]
  · rw [hc]
    exact h.known u hu

lemma Faithful.setRows (h : Faithful columnMeta us w db) (f : Bytes → Bytes → List (List Value)) :
    Faithful columnMeta us w (db.setRows f) := by
  have hown : ∀ u n, (db.setRows f).OwnsName u n ↔ db.OwnsName u n := by
    intro u n
    unfold Db.OwnsName
    rw [Db.ownColumns_setRows]
  refine ⟨h.sorted, h.dMeta, fun u hu n => ?_, fun u hu => (h.unshadowed u hu).setRows f, h.known⟩
  rw [hown, ← h.exact u hu n]
  simp only [Finds, hown]

lemma Faithful.load (h : Faithful columnMeta us w db) (ht : table ∈ us) (hw : w.dColumns table = [])
    (hk : db.knows ((tableRef table).schema.getD Db.mainSchema) = true) :
    Faithful columnMeta us (w.setColumns table (columnsOf (db.own table))) db := by
  have hother : ∀ u, u ≠ table →
      (w.setColumns table (columnsOf (db.own table))).dColumns u = w.dColumns u := by
    intro u hu
    rw [setColumns_dColumns, Function.update_of_ne hu]
  refine ⟨?_, h.dMeta, fun u hu n => ?_, h.unshadowed, fun u hu hne => ?_⟩
  · exact (grows_setColumns w table _ (by simp [hw]) (sortByFirst_sorted _)).sorted h.sorted
  · by_cases hut : u = table
    · subst hut
      exact (finds_setColumns_load hw).trans (h.exact u hu n)
    · rw [← h.exact u hu n]
      simp only [Finds, Lists, hother u hut]
  · by_cases hut : u = table
    · rw [hut]
      exact hk
    · exact h.known u hu (hother u hut ▸ hne)

lemma Faithful.define (h : Faithful columnMeta us w db) (ha : Apart us) (ht : table ∈ us)
    (hw : w.dColumns table = [] → db.own table = none)
    (hk : db.knows ((tableRef table).schema.getD Db.mainSchema) = true) {t : Table} {col : Column}
    (hcols : t.columns = db.ownColumns table ++ [col]) (hname : col.name = p.1) :
    Faithful columnMeta us (w.withColumn table p)
      (db.put ((tableRef table).schema.getD Db.mainSchema) (tableRef table).name t) := by
  have hother : ∀ u, u ≠ table → (w.withColumn table p).dColumns u = w.dColumns u := by
    intro u hu
    unfold withColumn
    rw [setColumns_dColumns, Function.update_of_ne hu]
  refine ⟨?_, h.dMeta, fun u hu n => ?_, fun u hu => ?_, fun u hu hne => ?_⟩
  · exact (grows_setColumns w table _ (fun q hq => by simp [sortPairs, hq]) (sortPairs_sorted _)).sorted h.sorted
  · by_cases hut : u = table
    · subst hut
      rw [finds_withColumn hw p, h.exact u hu n, Db.ownsName_put t hcols, hname]
    · have hplace : ¬ SamePlace u table := fun hs => hut (ha.spellings u hu table ht hs)
      have hown : Db.OwnsName (db.put ((tableRef table).schema.getD Db.mainSchema) (tableRef table).name t) u n ↔
          db.OwnsName u n := by
        simp only [Db.OwnsName, Db.ownColumns, Db.own_put_other t hplace]
      rw [hown, ← h.exact u hu n]
      simp only [Finds, Lists, hother u hut, hown]
  · by_cases hut : u = table
    · subst hut
      exact (h.unshadowed u hu).put t
    · exact (h.unshadowed u hu).put_other (fun hs hn => hut (ha.unqualified u hu table ht hs hn)) t
  · by_cases hut : u = table
    · rw [hut]
      exact hk
    · exact h.known u hu (hother u hut ▸ hne)

lemma not_schemaFails (hk : Db.knows c.view ((tableRef table).schema.getD Db.mainSchema) = true)
    (ha : c.autocommit = false) : ¬ SchemaFails c table := by
  rintro (hf | hf)
  · rw [hk] at hf
    cases hf
  · rw [ha] at hf
    cases hf.1

lemma Faithful.search (h : Faithful columnMeta us w c.view) (ht : table ∈ us) (hplain : PlainName table)
    (hk : Db.knows c.view ((tableRef table).schema.getD Db.mainSchema) = true) (ha : c.autocommit = false)
    (n : Bytes) : ∃ known v, (haveColumn table n).invoke (Conn.answer D.engine) w c = (.ok known, v, c) ∧
      (known = true ↔ Db.OwnsName c.view table n) ∧ Faithful columnMeta us v c.view ∧
      (v.dColumns table = [] → Db.own c.view table = none) := by
  by_cases hw : w.dColumns table = []
  · obtain ⟨-, -, hok⟩ := exec_schema c hplain
    have hinvoke := MiniSQLite.invoke_getSchema w.dDb c table
    rw [hok (not_schemaFails hk ha), Conn.exec_schema_amid hplain ha] at hinvoke
    have hload := h.load ht hw hk
    have hlist : (w.setColumns table (columnsOf (Db.own c.view table))).dColumns table =
        columnsOf (Db.own c.view table) := by simp
    refine ⟨_, _, invoke_haveColumn_load_ok w c table n hw hinvoke, ?_, hload, fun hnil => ?_⟩
    · have hiff := binarySearch_lists hload.sorted table n
      rw [hlist] at hiff
      exact hiff.trans ((finds_load hw).trans (h.exact table ht n))
    · rw [hlist] at hnil
      exact columnsOf_eq_nil.mp hnil
  · refine ⟨_, w, invoke_haveColumn_loaded w c table n hw, ?_, h, fun hnil => absurd hnil hw⟩
    exact (binarySearch_lists h.sorted table n).trans ((finds_of_ne_nil hw).symm.trans (h.exact table ht n))

lemma Faithful.create (h : Faithful columnMeta us w c.view) (ht : table ∈ us) (hplain : PlainName table)
    (hn : PlainName p.1) (hm : (Sql.constraints (columnMeta table p.1)).isSome)
    (hk : Db.knows c.view ((tableRef table).schema.getD Db.mainSchema) = true) (ha : c.autocommit = false) :
    ∃ x v c', (createColumn table p).invoke (Conn.answer D.engine) w c = (x, v, c') ∧
      match D.define columnMeta table p c.view with
      | .accept db' => x = .ok () ∧ v = w.withColumn table p ∧ c' = c.put db'
      | .error _ _ => x.isOk = false ∧ v = w ∧ c' = c
      | .rollback _ _ => x.isOk = false ∧ c' = c.rollback := by
  obtain ⟨-, -, hok⟩ := exec_schema c hplain
  have hrows := hok (not_schemaFails hk ha)
  have hinvoke := MiniSQLite.invoke_exec w.dDb c (schemaText table)
  cases hx : MiniSQLite.execResult (schemaText table) (c.exec (schemaText table)).1 with
  | error x =>
    rw [hx] at hrows
    cases hrows
  | ok rows =>
    rw [hx] at hrows hinvoke
    have hcols : MiniSQLite.schemaOf rows = columnsOf (Db.own c.view table) := Except.ok.inj hrows
    rw [Conn.exec_schema_amid hplain ha] at hinvoke
    rw [invoke_createColumn, h.dMeta, MiniSQLite.invoke_addColumn_ok _ _ _ _ _ _ hinvoke, hcols,
      columnsOf_isEmpty, Conn.exec_define hplain hn hm (h.unshadowed table ht) hk ha]
    cases D.define columnMeta table p c.view with
    | accept db' => exact ⟨_, _, _, rfl, rfl, rfl, rfl⟩
    | error rc msg => exact ⟨_, _, _, rfl, rfl, rfl, rfl⟩
    | rollback rc msg => exact ⟨_, _, _, rfl, rfl, rfl⟩

/-- The column loop in a transaction, from any of its rounds on. -/
lemma Faithful.columnLoop (ha : Apart us) (ht : table ∈ us) (hplain : PlainName table) {values : Fields}
    (hread : ∀ p ∈ values, PlainName p.1 ∧ (Sql.constraints (columnMeta table p.1)).isSome)
    (h : Faithful columnMeta us w c.view)
    (hk : Db.knows c.view ((tableRef table).schema.getD Db.mainSchema) = true) {base : Db}
    (hc : c.Amid base c.view) (first : Bool) (q qmarks : Bytes) :
    ∃ x v c', (SQLiteWriter.columnLoop table first q qmarks values).invoke (Conn.answer D.engine) w c =
        (x, v, c') ∧ (D.defineAll columnMeta table values c.view).Shown base x.isOk c' ∧
      (c'.autocommit = false → Faithful columnMeta us v c'.view) := by
  induction values generalizing w c first q qmarks with
  | nil => exact ⟨_, w, c, rfl, ⟨rfl, hc⟩, fun _ => h⟩
  | cons p values ih =>
    obtain ⟨hn, hm⟩ := hread p (by simp)
    have hrest : ∀ p ∈ values, PlainName p.1 ∧ (Sql.constraints (columnMeta table p.1)).isSome :=
      fun q hq => hread q (by simp [hq])
    obtain ⟨known, v, hsearch, hknown, hv, hload⟩ := h.search ht hplain hk hc.autocommit p.1
    unfold SQLiteWriter.columnLoop
    rw [invoke_bind, hsearch]
    cases known with
    | true =>
      rw [Decisions.defineAll_found (hknown.mp rfl)]
      exact ih hrest hv hk hc _ _ _
    | false =>
      rw [Decisions.defineAll_missing fun howns => Bool.false_ne_true (hknown.mpr howns)]
      simp only [Bool.not_false, if_true]
      obtain ⟨x, u, c', hcreate, hends⟩ := hv.create ht hplain hn hm hk hc.autocommit
      rw [invoke_bind, hcreate]
      cases hd : D.define columnMeta table p c.view with
      | accept db' =>
        rw [hd] at hends
        obtain ⟨rfl, rfl, rfl⟩ := hends
        obtain ⟨t, -, rfl, hcols, -⟩ := Decisions.define_accept hd
        exact ih (c := c.put _) hrest (hv.define ha ht hload hk hcols rfl) hk (hc.put _) _ _ _
      | error rc msg =>
        rw [hd] at hends
        obtain ⟨hx, rfl, rfl⟩ := hends
        cases x with
        | ok a => cases hx
        | error e => exact ⟨_, u, c', rfl, ⟨rfl, hc⟩, fun _ => hv⟩
      | rollback rc msg =>
        rw [hd] at hends
        obtain ⟨hx, rfl⟩ := hends
        cases x with
        | ok a => cases hx
        | error e => exact ⟨_, u, _, rfl, ⟨rfl, rfl⟩, fun hauto => by cases hauto⟩

/-- The `INSERT` of a call compiles, and it goes to the table that the schema query reads. -/
structure Insertable (k : Call) (db : Db) : Prop where
  compiles : Decisions.compileInsert db (tableRef k.table) k.names k.names.length = .ok ()
  found : db.find (tableRef k.table) = some (schemaKey k.table)

lemma insertable_of_owns {k : Call} (hne : k.values ≠ []) (hu : db.Unshadowed k.table)
    (ho : ∀ p ∈ k.values, db.OwnsName k.table p.1) : Insertable k db := by
  obtain ⟨p₀, hp₀⟩ := List.exists_mem_of_ne_nil _ hne
  obtain ⟨col₀, hcol₀, -⟩ := ho p₀ hp₀
  obtain ⟨t, hown, -⟩ := Db.own_of_mem hcol₀
  refine ⟨compileInsert_ok (by simpa [Call.names] using hne) (hu.means.resolve hown) fun n hn => ?_,
    hu.means t hown⟩
  obtain ⟨p, hp, rfl⟩ := List.mem_map.mp hn
  obtain ⟨col, hcol, hname⟩ := ho p hp
  rw [Db.ownColumns_some hown] at hcol
  exact ⟨col, hcol, congrArg fold hname⟩

lemma Faithful.rebuild {k : Call} (ha : Apart us) (ht : k.table ∈ us) (hread : k.Readable columnMeta)
    (hne : k.values ≠ []) (h : Faithful columnMeta us w c.view)
    (hk : Db.knows c.view ((tableRef k.table).schema.getD Db.mainSchema) = true) {base : Db}
    (hc : c.Amid base c.view) :
    ∃ x v c', (SQLiteWriter.rebuild k.table k.values k.replace).invoke (Conn.answer D.engine) w c = (x, v, c') ∧
      (D.defineAll columnMeta k.table k.values c.view).Shown base x.isOk c' ∧
      (c'.autocommit = false → Faithful columnMeta us v c'.view) ∧ (x.isOk = true → Insertable k c'.view) := by
  obtain ⟨x, v, c', hloop, hshown, hv⟩ := h.columnLoop (D := D) ha ht hread.table
    (fun p hp => ⟨hread.names p.1 (List.mem_map_of_mem hp), hread.metas p.1 (List.mem_map_of_mem hp)⟩) hk hc
    true (insertHead k.replace k.table) []
  have hlisted := columnLoop_spec (E := D.engine) w h.sorted k.table true (insertHead k.replace k.table) []
    k.values w c (Grows.refl w)
  rw [hloop] at hlisted
  unfold SQLiteWriter.rebuild
  rw [invoke_bind, hloop]
  cases x with
  | error e =>
    refine ⟨_, v, c', rfl, hshown, hv, fun hok => ?_⟩
    cases hok
  | ok r =>
    obtain ⟨-, hlists, rfl⟩ := hlisted
    have hauto : c'.autocommit = false := by
      cases hd : D.defineAll columnMeta k.table k.values c.view with
      | returned db =>
        rw [hd] at hshown
        exact hshown.2.autocommit
      | threw db =>
        rw [hd] at hshown
        cases hshown.1
      | lost =>
        rw [hd] at hshown
        cases hshown.1
    have hfaithful := hv hauto
    have hinsertable : Insertable k c'.view := by
      apply insertable_of_owns hne (hfaithful.unshadowed _ ht)
      intro p hp
      have hl := hlists p hp
      have hcols : v.dColumns k.table ≠ [] := by
        obtain ⟨q, hq, -⟩ := hl
        exact List.ne_nil_of_mem hq
      exact (hfaithful.exact _ ht p.1).mp ((finds_of_ne_nil hcols).mpr hl)
    have htext : insertHead k.replace k.table ++ columnList true (k.values.map (·.1)) ++
        ascii ") values (" ++ ([] ++ markList true (k.values.map (·.1))) ++ ascii ")" =
        insertText k.replace k.table (k.values.map (·.1)) := by
      simp [insertText]
    have hprep : D.engine.prepare c'.view (insertText k.replace k.table (k.values.map (·.1))) = .ok () :=
      (prepare_insertText k.replace hread.table hread.names).trans hinsertable.compiles
    simp only [htext]
    rw [invoke_bind, invoke_onDb, MiniSQLite.invoke_prepare_ok _ _ _ (blank_insertText _ _ _) hprep]
    exact ⟨_, _, c', rfl, hshown, fun hauto => (hv hauto).congr rfl rfl, fun _ => hinsertable⟩

lemma finishCall_shown {k : Call} (hread : k.Readable columnMeta) {v : SQLiteWriter} {s : Stmt}
    (hcache : CacheOk D.engine v) (hcached : v.cached k.table k.values k.replace = true)
    (hs : v.dDb.dStmts k.table = some s) {base : Db} (hc : c.Amid base c.view) (hi : Insertable k c.view) :
    (D.insertRow k c.view).Shown base (finishCall D.engine k.table k.values v c s).1.isOk
      (finishCall D.engine k.table k.values v c s).2.2 := by
  obtain ⟨s', hs', hsql, -, hparams, hclear, -⟩ := held_of_cached hcache hcached
  obtain rfl : s = s' := Option.some.inj (hs.symm.trans hs')
  have hcount : D.engine.params (insertText k.replace k.table k.names) = k.names.length :=
    params_insertText k.replace hread.table hread.names
  have hlen : s.binds.length = k.values.length := by
    rw [hparams, hsql]
    exact hcount.trans (List.length_map _)
  unfold Decisions.insertRow
  rcases Call.finishCall_cases k v c hsql hparams hclear with ⟨e, hbind, hx, hconn⟩ | ⟨vs, hvs, hvlen, hx, hconn⟩
  · rw [hx, hconn]
    cases hvs : boundValues D.engine k.values with
    | error y => exact ⟨rfl, hc⟩
    | ok vs =>
      have hall := (bindAll_isOk (E := D.engine) s.binds 0 k.values (by rw [hlen, Nat.zero_add])).mpr
        (binds_of_boundValues hvs)
      rw [hbind] at hall
      cases hall
  · rw [hx, hconn, hvs]
    have hbinds : insertBinds D.engine (insertText k.replace k.table k.names) vs = vs := by
      unfold insertBinds
      rw [hcount, hvlen, Call.names, List.length_map, Nat.sub_self, List.replicate_zero, List.append_nil]
    have hlogged : (c.logged (insertText k.replace k.table k.names) vs).Amid base c.view :=
      ⟨rfl, hc.committed, hc.autocommit⟩
    rw [hbinds, Conn.step_insertText_amid hread.table hread.names hi.compiles hi.found hc.autocommit]
    simp only
    cases D.insert c.view _ _ _ _ with
    | accept rows => exact ⟨rfl, hlogged.put _⟩
    | error rc msg => exact ⟨rfl, rfl, hc.committed, hc.autocommit⟩
    | rollback rc msg => exact ⟨rfl, rfl⟩

lemma finishCall_columns {E : Engine} {k : Call} {v : SQLiteWriter} {c : Conn E} (s : Stmt) :
    (finishCall E k.table k.values v c s).2.1.dColumns = v.dColumns ∧
      (finishCall E k.table k.values v c s).2.1.dMeta = v.dMeta := by
  unfold finishCall
  generalize bindAll E s.binds 1 k.values = r
  obtain ⟨x, binds⟩ := r
  cases x <;> exact ⟨rfl, rfl⟩

lemma rebuild_empty {k : Call} (hread : k.Readable columnMeta) (hne : k.values = []) (hw : w.Sorted) :
    ∃ x, (SQLiteWriter.rebuild k.table k.values k.replace).invoke (Conn.answer D.engine) w c =
      (.error x, w.discard k.table, c) := by
  have hprep : D.engine.prepare c.view (insertText k.replace k.table (k.values.map (·.1))) =
      .error (ascii "near \")\": syntax error") := by
    refine (prepare_insertText k.replace hread.table hread.names).trans ?_
    simp [Decisions.compileInsert, Call.names, hne]
  rw [rebuild_listed w hw c k.table k.values k.replace (by simp [hne]), hprep]
  exact ⟨_, rfl⟩

lemma rebuild_unknown {k : Call} (hread : k.Readable columnMeta) (hne : k.values ≠ [])
    (hw : w.dColumns k.table = [])
    (hk : Db.knows c.view ((tableRef k.table).schema.getD Db.mainSchema) = false) (ha : c.autocommit = false) :
    ∃ x, (SQLiteWriter.rebuild k.table k.values k.replace).invoke (Conn.answer D.engine) w c =
      (.error x, w, c) := by
  obtain ⟨-, hfails, -⟩ := exec_schema c hread.table
  obtain ⟨x, hx⟩ := hfails (Or.inl hk)
  have hinvoke := MiniSQLite.invoke_getSchema w.dDb c k.table
  rw [hx, Conn.exec_schema_amid hread.table ha] at hinvoke
  obtain ⟨p, values, hvalues⟩ := List.exists_cons_of_ne_nil hne
  unfold SQLiteWriter.rebuild
  rw [hvalues, SQLiteWriter.columnLoop, invoke_bind, invoke_bind,
    invoke_haveColumn_load_error w c k.table p.1 hw hinvoke]
  exact ⟨_, rfl⟩

end SQLiteWriter

namespace Call
open SQLiteWriter
variable {D : Decisions} {columnMeta : Bytes → Bytes → Bytes} {us : List Bytes} {w : SQLiteWriter}
  {c : Conn D.engine} {k : Call} {base : Db}

lemma run_effect_rebuild (ha : Apart us) (ht : k.table ∈ us) (hread : k.Readable columnMeta)
    (hcache : CacheOk D.engine w) (hf : w.dFlag ≠ .readOnly) (h : Faithful columnMeta us w c.view)
    (hc : c.Amid base c.view) (hcached : w.cached k.table k.values k.replace = false) :
    (D.effect columnMeta k c.view).Shown base (k.run w c).1.isOk (k.run w c).2.2 ∧
      ((k.run w c).2.2.autocommit = false → Faithful columnMeta us (k.run w c).2.1 (k.run w c).2.2.view) := by
  have hcases := run_rebuild_cases k w c hcache hf hcached
  by_cases hne : k.values = []
  · obtain ⟨x, hx⟩ := rebuild_empty (c := c) hread hne hcache.sorted
    have hidle : D.effect columnMeta k c.view = .threw c.view := Decisions.effect_idle (Or.inl hne)
    rw [hidle]
    rcases hcases with ⟨e, v, c₁, hr, -, -, hrun⟩ | ⟨v, c₁, s, hr, -⟩
    · rw [hx] at hr
      cases hr
      rw [hrun]
      exact ⟨⟨rfl, hc⟩, fun _ => h.congr rfl rfl⟩
    · rw [hx] at hr
      cases hr
  by_cases hk : Db.knows c.view ((tableRef k.table).schema.getD Db.mainSchema) = true
  · obtain ⟨x, v, c', hx, hshown, hv, hinsert⟩ := h.rebuild ha ht hread hne hk hc
    rw [Decisions.effect_active hne hk]
    rcases hcases with ⟨e, u, c₁, hr, -, -, hrun⟩ | ⟨u, c₁, s, hr, hu, -, hcv, hs, hrun⟩
    · rw [hx] at hr
      cases hr
      rw [hrun]
      cases hd : D.defineAll columnMeta k.table k.values c.view with
      | returned db =>
        rw [hd] at hshown
        cases hshown.1
      | threw db =>
        rw [hd] at hshown
        exact ⟨hshown, hv⟩
      | lost =>
        rw [hd] at hshown
        exact ⟨hshown, hv⟩
    · rw [hx] at hr
      cases hr
      rw [hrun]
      cases hd : D.defineAll columnMeta k.table k.values c.view with
      | returned db =>
        rw [hd] at hshown
        obtain ⟨-, hview, hcommitted, hauto⟩ := hshown
        obtain rfl : c'.view = db := hview
        have hend := finishCall_shown hread hu hcv hs ⟨rfl, hcommitted, hauto⟩ (hinsert rfl)
        refine ⟨hend, fun hopen => ?_⟩
        obtain ⟨hcols, hmeta⟩ := finishCall_columns (k := k) (v := v) (c := c') s
        rcases D.insertRow_cases k c'.view with ⟨rows, hins⟩ | hins | hins
        · rw [hins] at hend
          rw [hend.2.view]
          exact ((hv hauto).setRows rows).congr hcols hmeta
        · rw [hins] at hend
          rw [hend.2.view]
          exact (hv hauto).congr hcols hmeta
        · rw [hins] at hend
          rw [hend.2] at hopen
          cases hopen
      | threw db =>
        rw [hd] at hshown
        cases hshown.1
      | lost =>
        rw [hd] at hshown
        cases hshown.1
  · rw [Bool.not_eq_true] at hk
    have hw : w.dColumns k.table = [] := by
      by_contra hw
      exact Bool.false_ne_true (hk.symm.trans (h.known _ ht hw))
    obtain ⟨x, hx⟩ := rebuild_unknown hread hne hw hk hc.autocommit
    have hidle : D.effect columnMeta k c.view = .threw c.view := Decisions.effect_idle (Or.inr hk)
    rw [hidle]
    rcases hcases with ⟨e, v, c₁, hr, -, -, hrun⟩ | ⟨v, c₁, s, hr, -⟩
    · rw [hx] at hr
      cases hr
      rw [hrun]
      exact ⟨⟨rfl, hc⟩, fun _ => h⟩
    · rw [hx] at hr
      cases hr

/-- A call in a transaction has the effect of the call, whatever the writer keeps. -/
theorem run_effect (ha : Apart us) (ht : k.table ∈ us) (hread : k.Readable columnMeta)
    (hcache : CacheOk D.engine w) (hf : w.dFlag ≠ .readOnly) (h : Faithful columnMeta us w c.view)
    (hc : c.Amid base c.view) :
    (D.effect columnMeta k c.view).Shown base (k.run w c).1.isOk (k.run w c).2.2 ∧
      ((k.run w c).2.2.autocommit = false → Faithful columnMeta us (k.run w c).2.1 (k.run w c).2.2.view) := by
  obtain ⟨hresult, hconn, hwriter⟩ := k.run_discard w c hcache
  have hcached : (w.discard k.table).cached k.table k.values k.replace = false := by
    simp [cached, MiniSQLite.isPrepared, SQLiteWriter.discard]
  obtain ⟨hshown, hfaithful⟩ := run_effect_rebuild ha ht hread (hcache.discard k.table) hf
    (h.congr (v := w.discard k.table) rfl rfl) hc hcached
  rw [hresult, hconn]
  refine ⟨hshown, fun hauto => (hfaithful hauto).congr ?_ ?_⟩
  · exact congrArg (·.dColumns) hwriter
  · exact congrArg (·.dMeta) hwriter

end Call

/-- A writer without lists of columns and statements: a transaction on a database, which a pass of the
commit thread may write down, and whether each of the calls so far returned. -/
structure Ledger where
  view : Db
  committed : Db
  n : ℕ
  crashed : Bool
  results : List Bool

namespace Ledger
variable (D : Decisions) (columnMeta : Bytes → Bytes → Bytes)

def opened (db : Db) : Ledger := ⟨db, db, 0, false, []⟩

/-- A call that loses the transaction is the end of it. -/
def call (k : Call) (l : Ledger) : Option Ledger :=
  match D.effect columnMeta k l.view with
  | .returned db => some { l with view := db, results := l.results ++ [true] }
  | .threw db => some { l with view := db, results := l.results ++ [false] }
  | .lost => none

/-- Every 20th pass of the commit thread commits, where no deferred foreign key is violated. -/
def poll (l : Ledger) : Ledger :=
  if l.n % 20 = 0 then
    if D.deferred l.view = false then { l with committed := l.view, n := l.n + 1 }
    else { l with n := l.n + 1, crashed := true }
  else { l with n := l.n + 1 }

def step (ev : Event) (l : Ledger) : Option Ledger :=
  if l.crashed then some l
  else match ev with
    | .call k => l.call D columnMeta k
    | .poll => some (l.poll D)

def run : List Event → Ledger → Option Ledger
  | [], l => some l
  | ev :: evs, l => (l.step D columnMeta ev).bind (run evs)

end Ledger

namespace Sys
open SQLiteWriter
variable {D : Decisions} {columnMeta : Bytes → Bytes → Bytes} {us : List Bytes} {s : Sys D.engine} {l : Ledger}

/-- The ledger says what the database holds and how the calls ended. -/
structure Follows (s : Sys D.engine) (l : Ledger) : Prop where
  view : s.conn.view = l.view
  committed : s.conn.committed = l.committed
  n : s.n = l.n
  crashed : s.crashed = l.crashed
  results : s.history.map (·.2.isOk) = l.results

/-- The writer is in its transaction, and what it keeps is right. -/
structure Tracks (columnMeta : Bytes → Bytes → Bytes) (us : List Bytes) (s : Sys D.engine) (l : Ledger) : Prop
    extends s.Follows l where
  dFlag : s.writer.dFlag = .noFlag
  autocommit : s.conn.autocommit = false
  cacheOk : CacheOk D.engine s.writer
  faithful : Faithful columnMeta us s.writer s.conn.view

lemma start_tracks {db : Db} (hu : ∀ u ∈ us, db.Unshadowed u) :
    (start D.engine .noFlag columnMeta db).Tracks columnMeta us (Ledger.opened db) := by
  have hcache := start_cacheOk (E := D.engine) .noFlag columnMeta db
  rw [start_eq D.engine .noFlag columnMeta db] at hcache ⊢
  refine ⟨⟨rfl, rfl, rfl, rfl, rfl⟩, rfl, rfl, hcache, hcache.sorted, rfl, fun u _ n => ?_, hu, fun u _ hne => ?_⟩
  · simp [SQLiteWriter.blank, Finds]
  · simp [SQLiteWriter.blank] at hne

lemma Tracks.call (h : s.Tracks columnMeta us l) (ha : Apart us) {k : Call} (ht : k.table ∈ us)
    (hread : k.Readable columnMeta) : match l.call D columnMeta k with
      | some l' => (s.addCall k).Tracks columnMeta us l'
      | none => (s.addCall k).conn.autocommit = true := by
  have hf : s.writer.dFlag ≠ .readOnly := by simp [h.dFlag]
  obtain ⟨hshown, hfaithful⟩ := k.run_effect ha ht hread h.cacheOk hf h.faithful
    ⟨rfl, h.committed, h.autocommit⟩
  have hcache := k.run_cacheOk s.writer s.conn h.cacheOk
  have hflag := (k.run_mode s.writer s.conn hf).1.trans h.dFlag
  have heffect : D.effect columnMeta k s.conn.view = D.effect columnMeta k l.view := by rw [h.view]
  have hresults : (s.addCall k).history.map (·.2.isOk) = l.results ++ [(k.run s.writer s.conn).1.isOk] := by
    simp [addCall, ← h.results]
  rw [heffect] at hshown
  unfold Ledger.call
  cases hd : D.effect columnMeta k l.view with
  | returned db =>
    rw [hd] at hshown
    obtain ⟨hok, hview, hcommitted, hauto⟩ := hshown
    rw [hok] at hresults
    exact ⟨⟨hview, hcommitted, h.n, h.crashed, hresults⟩, hflag, hauto, hcache, hfaithful hauto⟩
  | threw db =>
    rw [hd] at hshown
    obtain ⟨hok, hview, hcommitted, hauto⟩ := hshown
    rw [hok] at hresults
    exact ⟨⟨hview, hcommitted, h.n, h.crashed, hresults⟩, hflag, hauto, hcache, hfaithful hauto⟩
  | lost =>
    rw [hd] at hshown
    exact hshown.2

lemma Tracks.poll (h : s.Tracks columnMeta us l) (hc : l.crashed = false) :
    s.commitThread.Tracks columnMeta us (l.poll D) := by
  have hdeferred : D.engine.deferred s.conn.view = D.deferred l.view := by
    rw [h.view]
    rfl
  rw [commitThread_eq, hdeferred, h.n]
  unfold Ledger.poll
  by_cases hn : l.n % 20 = 0
  · rw [if_pos hn, if_pos hn]
    by_cases hd : D.deferred l.view = false
    · rw [if_pos ⟨h.autocommit, hd⟩, if_pos hd]
      exact ⟨⟨h.view, h.view, rfl, hc.symm, h.results⟩, h.dFlag, h.autocommit, h.cacheOk, h.faithful⟩
    · rw [if_neg fun hand => hd hand.2, if_neg hd]
      exact ⟨⟨h.view, h.committed, rfl, rfl, h.results⟩, h.dFlag, h.autocommit, h.cacheOk, h.faithful⟩
  · rw [if_neg hn, if_neg hn]
    exact ⟨⟨h.view, h.committed, rfl, h.crashed, h.results⟩, h.dFlag, h.autocommit, h.cacheOk, h.faithful⟩

/-- One critical section. -/
lemma Tracks.step (h : s.Tracks columnMeta us l) (ha : Apart us) (ev : Event)
    (hev : ∀ k ∈ callsOf [ev], k.table ∈ us ∧ k.Readable columnMeta) :
    match l.step D columnMeta ev with
    | some l' => (s.step ev).Tracks columnMeta us l'
    | none => (s.step ev).conn.autocommit = true := by
  unfold Sys.step Ledger.step
  rw [h.crashed]
  by_cases hc : l.crashed = true
  · simp only [hc, if_true]
    exact h
  · simp only [hc, Bool.false_eq_true, if_false]
    cases ev with
    | call k =>
      obtain ⟨ht, hread⟩ := hev k (by simp [callsOf])
      exact h.call ha ht hread
    | poll =>
      simp only [h.dFlag, if_true]
      exact h.poll (by simpa using hc)

lemma run_tracks (h : s.Tracks columnMeta us l) (ha : Apart us) (evs : List Event)
    (hevs : ∀ k ∈ callsOf evs, k.table ∈ us ∧ k.Readable columnMeta) :
    match l.run D columnMeta evs with
    | some l' => (s.run evs).Tracks columnMeta us l'
    | none => ∃ evs', evs' <+: evs ∧ (s.run evs').conn.autocommit = true := by
  induction evs generalizing s l with
  | nil => exact h
  | cons ev evs ih =>
    have hcons : callsOf (ev :: evs) = callsOf [ev] ++ callsOf evs := by
      cases ev <;> simp [callsOf]
    rw [hcons] at hevs
    have hstep := h.step ha ev fun k hk => hevs k (List.mem_append_left _ hk)
    unfold Ledger.run
    cases hl : l.step D columnMeta ev with
    | none =>
      rw [hl] at hstep
      exact ⟨[ev], ⟨evs, rfl⟩, hstep⟩
    | some l' =>
      rw [hl] at hstep
      have hrest := ih hstep fun k hk => hevs k (List.mem_append_right _ hk)
      rw [Option.bind_some]
      cases hr : l'.run D columnMeta evs with
      | some l'' =>
        rw [hr] at hrest
        exact hrest
      | none =>
        rw [hr] at hrest
        obtain ⟨evs', ⟨rest, rfl⟩, hauto⟩ := hrest
        exact ⟨ev :: evs', ⟨rest, rfl⟩, hauto⟩

/-- No run of a writer shows what it keeps of the database. In every order of calls and passes of the
commit thread, from every database and under all constraints, what it sees and what is committed, and
which calls return, is computed from the database alone, up to a statement that SQLite answers by rolling
the transaction back. -/
theorem caches_transparent (columnMeta : Bytes → Bytes → Bytes) (db : Db) (evs : List Event)
    (hread : ∀ k ∈ callsOf evs, k.Readable columnMeta) (ha : Apart ((callsOf evs).map (·.table)))
    (hu : ∀ k ∈ callsOf evs, db.Unshadowed k.table) :
    match (Ledger.opened db).run D columnMeta evs with
    | some l => ((start D.engine .noFlag columnMeta db).run evs).Follows l
    | none => ∃ evs', evs' <+: evs ∧
        ((start D.engine .noFlag columnMeta db).run evs').conn.autocommit = true := by
  have hstart : (start D.engine .noFlag columnMeta db).Tracks columnMeta ((callsOf evs).map (·.table))
      (Ledger.opened db) := by
    apply start_tracks
    intro u hmem
    obtain ⟨k, hk, rfl⟩ := List.mem_map.mp hmem
    exact hu k hk
  have hrun := run_tracks hstart ha evs fun k hk => ⟨List.mem_map_of_mem hk, hread k hk⟩
  cases hl : (Ledger.opened db).run D columnMeta evs with
  | some l =>
    rw [hl] at hrun
    exact hrun.toFollows
  | none =>
    rw [hl] at hrun
    exact hrun

/-- A column that must not be `NULL`. -/
def requiredMeta (_ name : Bytes) : Bytes := if name = ascii "b" then ascii "NOT NULL" else []

/-- Calls on two tables, of which two leave the column out; the second of them names a new one. -/
def requiredRun : List Event :=
  [.call ⟨ascii "t", [(ascii "a", .int32 1), (ascii "b", .string (ascii "x"))], false⟩, .poll,
    .call ⟨ascii "t", [(ascii "a", .int32 2)], false⟩, .call ⟨ascii "main.u", [(ascii "c", .double 0)], true⟩,
    .call ⟨ascii "t", [(ascii "d", .int32 3)], true⟩,
    .call ⟨ascii "t", [(ascii "d", .int32 4), (ascii "b", .string (ascii "y"))], false⟩]

theorem caches_transparent_requiredColumn :
    ((start Reference.decisions.engine .noFlag requiredMeta Db.empty).run requiredRun).history.map (·.2.isOk) =
      [true, false, true, false, true] := by
  have htransparent := caches_transparent (D := Reference.decisions) requiredMeta Db.empty requiredRun
    (by decide +kernel) (by decide +kernel) (by decide +kernel)
  have hresults : ((Ledger.opened Db.empty).run Reference.decisions requiredMeta requiredRun).map (·.results) =
      some [true, false, true, false, true] := by decide +kernel
  cases hl : (Ledger.opened Db.empty).run Reference.decisions requiredMeta requiredRun with
  | none =>
    rw [hl] at hresults
    cases hresults
  | some l =>
    rw [hl] at hresults htransparent
    exact htransparent.results.trans (Option.some.inj hresults)

end Sys

end SqliteWrite
