import SqliteWrite.Writer.MethodSpecs
import SqliteWrite.Writer.Texts

/-! What each statement of the writer can do to a relational database: the schema query, the
definition of a column and the `INSERT`. -/
namespace SqliteWrite

/-- The folded schema of a table name, `main` for a name without one. -/
def schemaKey (table : Bytes) : Bytes := fold ((tableRef table).schema.getD Db.mainSchema)

def nameKey (table : Bytes) : Bytes := fold (tableRef table).name

/-- Two spellings of one table. -/
def SamePlace (t u : Bytes) : Prop := schemaKey t = schemaKey u ∧ nameKey t = nameKey u

instance (t u : Bytes) : Decidable (SamePlace t u) :=
  inferInstanceAs (Decidable (schemaKey t = schemaKey u ∧ nameKey t = nameKey u))

namespace Db
variable (db : Db) (table : Bytes)

/-- The table that the schema query of a name reads, and in whose place `CREATE TABLE` creates. -/
def own : Option Table := db.tables (schemaKey table) (nameKey table)

/-- The columns of that table. -/
def ownColumns : List Column := ((db.own table).map (·.columns)).getD []

/-- The table that SQLite resolves the name to has a column that it identifies with `name`. -/
def HasColumn (name : Bytes) : Prop := ∃ t, db.resolve (tableRef table) = some t ∧ t.Has name

/-- A name means the table that its schema query reads, where it means a table at all. -/
def Unshadowed : Prop := ∀ s, db.find (tableRef table) = some s → s = schemaKey table

/-- A name means the table that its schema query reads, once that table is there. -/
def Means : Prop := ∀ t, db.own table = some t → db.find (tableRef table) = some (schemaKey table)

/-- The rows of that table. -/
def ownRows : List (List Value) := ((db.own table).map (·.rows)).getD []

variable {db table}

lemma Means.resolve (h : db.Means table) {t : Table} (ho : db.own table = some t) :
    db.resolve (tableRef table) = some t := by
  simp only [Db.resolve, h t ho, Option.bind_some]
  exact ho

lemma own_put_self (t : Table) :
    (db.put ((tableRef table).schema.getD mainSchema) (tableRef table).name t).own table = some t := by
  simp [own, put, schemaKey, nameKey]

lemma own_put_same {u : Bytes} (t : Table) (h : SamePlace u table) :
    (db.put ((tableRef table).schema.getD mainSchema) (tableRef table).name t).own u = some t := by
  obtain ⟨h1, h2⟩ := h
  simp only [own, h1, h2]
  exact own_put_self t

lemma own_put_other {u : Bytes} (t : Table) (h : ¬ SamePlace u table) :
    (db.put ((tableRef table).schema.getD mainSchema) (tableRef table).name t).own u = db.own u := by
  simp only [own, put]
  change Function.update db.tables (schemaKey table) _ _ _ = _
  by_cases hs : schemaKey u = schemaKey table
  · have hn : nameKey u ≠ nameKey table := fun hn => h ⟨hs, hn⟩
    rw [hs, Function.update_self]
    exact Function.update_of_ne hn _ _
  · rw [Function.update_of_ne hs]

lemma ownColumns_some {t : Table} (h : db.own table = some t) : db.ownColumns table = t.columns := by
  simp [ownColumns, h]

lemma ownRows_some {t : Table} (h : db.own table = some t) : db.ownRows table = t.rows := by
  simp [ownRows, h]

lemma own_of_mem {col : Column} (h : col ∈ db.ownColumns table) :
    ∃ t, db.own table = some t ∧ col ∈ t.columns := by
  unfold ownColumns at h
  cases ho : db.own table with
  | none => simp [ho] at h
  | some t => exact ⟨t, rfl, by simpa [ho] using h⟩

lemma put_fold (schema name : Bytes) (t : Table) : db.put (fold schema) name t = db.put schema name t := by
  simp [put]

lemma resolve_ne_none {ref : TableRef} {s : Bytes} (hf : db.find ref = some s) :
    db.resolve ref ≠ none := by
  simp only [resolve, hf, Option.bind_some]
  unfold find at hf
  cases hsch : ref.schema with
  | none =>
    rw [hsch] at hf
    have hfound := List.find?_some hf
    exact Option.isSome_iff_ne_none.mp hfound
  | some s' =>
    rw [hsch] at hf
    simp only at hf
    split_ifs at hf with hl
    cases hf
    exact Option.isSome_iff_ne_none.mp hl

lemma find_some_own (h : db.Unshadowed table) {s : Bytes} (hf : db.find (tableRef table) = some s) :
    ∃ t, db.own table = some t ∧ db.resolve (tableRef table) = some t := by
  have hs := h s hf
  have hres : db.resolve (tableRef table) = db.own table := by
    simp only [resolve, hf, Option.bind_some, hs]
    rfl
  rw [hres]
  suffices hsome : (db.own table).isSome by
    obtain ⟨t, ht⟩ := Option.isSome_iff_exists.mp hsome
    exact ⟨t, ht, ht⟩
  unfold find at hf
  cases hsch : (tableRef table).schema with
  | none =>
    rw [hsch] at hf
    have hfound := List.find?_some hf
    rw [hs] at hfound
    exact hfound
  | some s' =>
    rw [hsch] at hf
    simp only at hf
    split_ifs at hf with hl
    simpa [own, schemaKey, nameKey, hsch, lookup] using hl

lemma find_none_own (hf : db.find (tableRef table) = none) : db.own table = none := by
  unfold find at hf
  cases hsch : (tableRef table).schema with
  | none =>
    rw [hsch] at hf
    have hmain := List.find?_eq_none.mp hf mainSchema (by simp [searchOrder])
    have hfold : fold mainSchema = mainSchema := by decide
    simpa [own, schemaKey, nameKey, hsch, hfold] using hmain
  | some s' =>
    rw [hsch] at hf
    simp only at hf
    split_ifs at hf with hl
    simpa [own, schemaKey, nameKey, hsch, lookup] using hl

lemma Unshadowed.means (h : db.Unshadowed table) : db.Means table := by
  intro t ho
  cases hf : db.find (tableRef table) with
  | none =>
    rw [find_none_own hf] at ho
    cases ho
  | some s => rw [h s hf]

lemma resolve_own (h : db.Unshadowed table) : db.resolve (tableRef table) = db.own table := by
  cases hf : db.find (tableRef table) with
  | none =>
    rw [find_none_own hf]
    simp [resolve, hf]
  | some s =>
    obtain ⟨t, h1, h2⟩ := find_some_own h hf
    rw [h1, h2]

end Db

/-- What the column cache holds of a table after it was read. -/
def columnsOf (t : Option Table) : List (Bytes × Bytes) :=
  sortByFirst (((t.map (·.columns)).getD []).map fun col => (col.name, col.type))

lemma columnsOf_eq_nil {t : Option Table} : columnsOf t = [] ↔ t = none := by
  constructor
  · intro h
    cases t with
    | none => rfl
    | some t =>
      obtain ⟨col, hcol⟩ := List.exists_mem_of_ne_nil _ t.nonempty
      have hmem : (col.name, col.type) ∈ columnsOf (some t) := by
        simp only [columnsOf, mem_sortByFirst, Option.map_some, Option.getD_some]
        exact List.mem_map_of_mem hcol
      rw [h] at hmem
      cases hmem
  · rintro rfl
    rfl

lemma columnsOf_isEmpty (t : Option Table) : (!(columnsOf t).isEmpty) = t.isSome := by
  have hnil := columnsOf_eq_nil (t := t)
  cases t with
  | none => rfl
  | some t =>
    have hne : columnsOf (some t) ≠ [] := fun hc => by simpa using hnil.mp hc
    simp [hne]

lemma mapM_map_some (rows : List (List Bytes)) :
    (rows.map (·.map some)).mapM (fun r : List (Option Bytes) => r.mapM id) = some rows := by
  have hrow : ∀ r : List Bytes, (r.map some).mapM id = some r := by
    intro r
    induction r with
    | nil => rfl
    | cons b r ih => simp [ih]
  induction rows with
  | nil => rfl
  | cons r rows ih => simp [hrow, ih]

lemma execResult_xinfoRows (str : Bytes) (t : Option Table) :
    (MiniSQLite.execResult str (.ok ((t.map Decisions.xinfoRows).getD []))).map MiniSQLite.schemaOf =
      .ok (columnsOf t) := by
  cases t with
  | none => rfl
  | some t =>
    have hrows : Decisions.xinfoRows t =
        (t.columns.mapIdx fun i col => [decimal i, col.name, col.type]).map (·.map some) := by
      apply List.ext_getElem <;> simp [Decisions.xinfoRows]
    have hcols : (t.columns.mapIdx fun i col => [decimal i, col.name, col.type]).map
        (fun r => (r.getD 1 [], r.getD 2 [])) = t.columns.map fun col => (col.name, col.type) := by
      apply List.ext_getElem <;> simp
    simp only [Option.map_some, Option.getD_some, hrows, MiniSQLite.execResult, mapM_map_some,
      Except.map, MiniSQLite.schemaOf, hcols, columnsOf]

namespace Decisions
variable (D : Decisions) {db : Db} {table name m : Bytes} {v : VarT} {xs : List Token}

lemma exec_schemaText (ht : PlainName table) : D.exec db (schemaText table) =
    if db.knows ((tableRef table).schema.getD Db.mainSchema) then
      .ok (((db.own table).map xinfoRows).getD []) db
    else .error (unknownDatabase ((tableRef table).schema.getD Db.mainSchema)) db := by
  unfold exec
  rw [read_schemaText ht]
  rfl

/-- The column that a field creates. -/
def columnOf (name : Bytes) (v : VarT) (xs : List Token) : Column := ⟨name, columnType v, xs⟩

lemma exec_createText (ht : PlainName table) (hn : PlainName name)
    (hm : Sql.constraints m = some xs) : D.exec db (createText table name (columnType v) m) =
    if db.knows ((tableRef table).schema.getD Db.mainSchema) then
      match db.own table with
      | some _ => .ok [] db
      | none => answer (D.create db ((tableRef table).schema.getD Db.mainSchema) (tableRef table).name
          (columnOf name v xs)) db fun _ =>
        db.put ((tableRef table).schema.getD Db.mainSchema) (tableRef table).name
          ⟨[columnOf name v xs], [], by simp⟩
    else .error (unknownDatabase ((tableRef table).schema.getD Db.mainSchema)) db := by
  unfold exec
  rw [read_createText ht hn hm]
  rfl

lemma exec_alterText (ht : PlainName table) (hn : PlainName name)
    (hm : Sql.constraints m = some xs) : D.exec db (alterText table name (columnType v) m) =
    match db.find (tableRef table), db.resolve (tableRef table) with
    | some schema, some t =>
      if t.Has name then .error (duplicateColumn name) db
      else answer (D.add db schema (tableRef table).name (columnOf name v xs)) db fun u =>
        db.put schema (tableRef table).name (t.addColumn (columnOf name v xs) u)
    | _, _ => .error (noSuchTable (tableRef table).name) db := by
  unfold exec
  rw [read_alterText ht hn hm]
  rfl

end Decisions
/-- The statement that defines a column, by whether the table is there. -/
abbrev definitionText (known : Bool) (table name : Bytes) (v : VarT) (m : Bytes) : Bytes :=
  MiniSQLite.columnText known table name (columnType v) m

section Requests
variable {D : Decisions} (c : Conn D.engine) {table name m : Bytes} {v : VarT} {xs : List Token}

/-- A schema query fails. -/
def SchemaFails (c : Conn D.engine) (table : Bytes) : Prop :=
  c.view.knows ((tableRef table).schema.getD Db.mainSchema) = false ∨
    (c.autocommit = true ∧ D.deferred c.view = true)

/-- What a database becomes when the definition of a column is taken. -/
inductive Taken (D : Decisions) (db : Db) (known : Bool) (table : Bytes) (col : Column) : Db → Prop
  | there (t : Table) : known = false → db.own table = some t → Taken D db known table col db
  | created : known = false → db.own table = none → Taken D db known table col
    (db.put ((tableRef table).schema.getD Db.mainSchema) (tableRef table).name ⟨[col], [], by simp⟩)
  | added (schema : Bytes) (t : Table) (u : Value) : known = true →
    db.find (tableRef table) = some schema → db.resolve (tableRef table) = some t →
    ¬ t.Has col.name → D.add db schema (tableRef table).name col = .accept u →
    Taken D db known table col (db.put schema (tableRef table).name (t.addColumn col u))

/-- Why SQLite refuses to define a column. -/
inductive Refused (c : Conn D.engine) (known : Bool) (table : Bytes) (col : Column) : Prop
  | unknownSchema : c.view.knows ((tableRef table).schema.getD Db.mainSchema) = false →
    Refused c known table col
  | noTable : known = true → c.view.find (tableRef table) = none → Refused c known table col
  | duplicate : known = true → c.view.HasColumn table col.name → Refused c known table col
  | create : known = false → c.view.own table = none →
    (∀ u, D.create c.view ((tableRef table).schema.getD Db.mainSchema) (tableRef table).name col ≠
      .accept u) → Refused c known table col
  | add (schema : Bytes) : known = true → c.view.find (tableRef table) = some schema →
    (∀ u, D.add c.view schema (tableRef table).name col ≠ .accept u) → Refused c known table col
  | deferred (db : Db) : Taken D c.view known table col db → c.autocommit = true →
    D.deferred db = true → Refused c known table col

/-- The outcomes of defining a column: reply and connection. -/
inductive Definition (c : Conn D.engine) (known : Bool) (table : Bytes) (col : Column) (sql : Bytes) :
    Except Bytes (List (List (Option Bytes))) × Conn D.engine → Prop
  | taken (c' : Conn D.engine) : Taken D c.view known table col c'.view →
    c.rollsBack (.exec sql) = false → Definition c known table col sql (.ok [], c')
  | failed (x : Bytes) (c' : Conn D.engine) : Refused c known table col →
    (c'.view = c.view ∨ (c'.view = c.committed ∧ c.rollsBack (.exec sql) = true)) →
    Definition c known table col sql (.error x, c')

lemma exec_schema (ht : PlainName table) :
    (c.exec (schemaText table)).2.view = c.view ∧
    (SchemaFails c table → ∃ x, (c.exec (schemaText table)).1 = .error x) ∧
    (¬ SchemaFails c table → (MiniSQLite.execResult (schemaText table)
      (c.exec (schemaText table)).1).map MiniSQLite.schemaOf = .ok (columnsOf (c.view.own table))) := by
  have hexec : D.engine.exec c.view (schemaText table) = _ := D.exec_schemaText ht
  rw [SQLiteWriter.exec_callRequest c table (Or.inl rfl)]
  unfold Conn.execText SchemaFails
  rw [hexec]
  cases hk : c.view.knows ((tableRef table).schema.getD Db.mainSchema) with
  | false =>
    simp only [Bool.false_eq_true, if_false]
    exact ⟨rfl, fun _ => ⟨_, rfl⟩, fun h => (h (Or.inl trivial)).elim⟩
  | true =>
    simp only [if_true]
    by_cases hd : (c.autocommit && D.engine.deferred c.view) = true
    · rw [if_pos hd]
      exact ⟨rfl, fun _ => ⟨_, rfl⟩, fun h => absurd (Or.inr (Bool.and_eq_true_iff.mp hd)) h⟩
    · rw [if_neg hd]
      refine ⟨rfl, fun h => ?_, fun _ => execResult_xinfoRows _ _⟩
      rcases h with h | h
      · cases h
      · exact absurd (Bool.and_eq_true_iff.mpr h) hd

lemma execText_ok (sql : Bytes) {db : Db} (he : D.exec c.view sql = .ok [] db) :
    c.rollsBack (.exec sql) = false ∧
    ((∃ c' : Conn D.engine, c.execText sql = (.ok [], c') ∧ c'.view = db) ∨
      (c.autocommit = true ∧ D.deferred db = true ∧
        ∃ x, ∃ c' : Conn D.engine, c.execText sql = (.error x, c') ∧ c'.view = c.view)) := by
  have hexec : D.engine.exec c.view sql = _ := he
  refine ⟨by simp only [Conn.rollsBack, hexec], ?_⟩
  unfold Conn.execText
  rw [hexec]
  simp only
  by_cases hd : (c.autocommit && D.engine.deferred db) = true
  · rw [if_pos hd]
    obtain ⟨ha, hdef⟩ := Bool.and_eq_true_iff.mp hd
    exact Or.inr ⟨ha, hdef, _, _, rfl, rfl⟩
  · rw [if_neg hd]
    exact Or.inl ⟨_, rfl, rfl⟩

lemma definition_answer {α : Type} {known : Bool} {col : Column} (sql : Bytes) (verdict : Verdict α)
    (f : α → Db) (he : D.exec c.view sql = Decisions.answer verdict c.view f)
    (htaken : ∀ a, verdict = .accept a → Taken D c.view known table col (f a))
    (hrefused : (∀ a, verdict ≠ .accept a) → Refused c known table col) :
    Definition c known table col sql (c.execText sql) := by
  cases verdict with
  | accept a =>
    obtain ⟨hroll, ⟨c', hx, hv⟩ | ⟨ha, hd, x, c', hx, hv⟩⟩ := execText_ok c sql he
    · rw [hx]
      exact .taken c' (hv ▸ htaken a rfl) hroll
    · rw [hx]
      exact .failed x c' (.deferred _ (htaken a rfl) ha hd) (Or.inl hv)
  | error rc msg =>
    have hexec : D.engine.exec c.view sql = _ := he
    unfold Conn.execText
    rw [hexec]
    exact .failed _ _ (hrefused (by simp)) (Or.inl rfl)
  | rollback rc msg =>
    have hexec : D.engine.exec c.view sql = _ := he
    have hroll : c.rollsBack (.exec sql) = true := by
      simp only [Conn.rollsBack, hexec, Decisions.answer]
    unfold Conn.execText
    rw [hexec]
    exact .failed _ _ (hrefused (by simp)) (Or.inr ⟨rfl, hroll⟩)

lemma definition_error {known : Bool} {col : Column} (sql : Bytes) {msg : Bytes}
    (he : D.exec c.view sql = .error msg c.view) (hrefused : Refused c known table col) :
    Definition c known table col sql (c.execText sql) := by
  have hexec : D.engine.exec c.view sql = _ := he
  unfold Conn.execText
  rw [hexec]
  exact .failed _ _ hrefused (Or.inl rfl)

lemma exec_definitionText (known : Bool) (table name : Bytes) (v : VarT) (m : Bytes) :
    c.exec (definitionText known table name v m) = c.execText (definitionText known table name v m) := by
  apply SQLiteWriter.exec_callRequest c table
  cases known with
  | false => exact Or.inr (Or.inl ⟨_, _, _, rfl⟩)
  | true => exact Or.inr (Or.inr ⟨_, _, _, rfl⟩)

/-- What a definition of the writer can do. -/
theorem exec_definition (known : Bool) (ht : PlainName table) (hn : PlainName name)
    (hm : Sql.constraints m = some xs) :
    Definition c known table (Decisions.columnOf name v xs) (definitionText known table name v m)
      (c.exec (definitionText known table name v m)) := by
  rw [exec_definitionText]
  cases known with
  | false =>
    have hexec : D.exec c.view (definitionText false table name v m) = _ := D.exec_createText ht hn hm
    generalize definitionText false table name v m = sql at hexec ⊢
    cases hk : c.view.knows ((tableRef table).schema.getD Db.mainSchema) with
    | false =>
      rw [hk] at hexec
      exact definition_error c sql hexec (.unknownSchema hk)
    | true =>
      rw [hk] at hexec
      simp only [if_true] at hexec
      cases ho : c.view.own table with
      | some t =>
        rw [ho] at hexec
        obtain ⟨hroll, ⟨c', hx, hv⟩ | ⟨ha, hd, x, c', hx, hv⟩⟩ := execText_ok c sql hexec
        · rw [hx]
          refine .taken c' ?_ hroll
          rw [hv]
          exact .there t rfl ho
        · rw [hx]
          exact .failed x c' (.deferred _ (.there t rfl ho) ha hd) (Or.inl hv)
      | none =>
        rw [ho] at hexec
        exact definition_answer c sql _ _ hexec (fun _ _ => .created rfl ho) (.create rfl ho)
  | true =>
    have hexec : D.exec c.view (definitionText true table name v m) = _ := D.exec_alterText ht hn hm
    generalize definitionText true table name v m = sql at hexec ⊢
    cases hf : c.view.find (tableRef table) with
    | none =>
      rw [hf] at hexec
      exact definition_error c sql hexec (.noTable rfl hf)
    | some schema =>
      cases hr : c.view.resolve (tableRef table) with
      | none => exact absurd hr (Db.resolve_ne_none hf)
      | some t =>
        rw [hf, hr] at hexec
        simp only at hexec
        by_cases hh : t.Has name
        · rw [if_pos hh] at hexec
          exact definition_error c sql hexec (.duplicate rfl ⟨t, hr, hh⟩)
        · rw [if_neg hh] at hexec
          exact definition_answer c sql _ _ hexec (fun u hu => .added schema t u rfl hf hr hh hu)
            (.add schema rfl hf)

/-- A definition of the sole writer that is taken adds the column to the table, which is new if it
was not there. -/
theorem Taken.cases {known : Bool} {col : Column} {db db' : Db} (h : Taken D db known table col db')
    (hm : db.Means table) (hknown : known = (db.own table).isSome) :
    ∃ (t : Table) (u : Value),
      db' = db.put ((tableRef table).schema.getD Db.mainSchema) (tableRef table).name t ∧
      t.columns = db.ownColumns table ++ [col] ∧ t.rows = (db.ownRows table).map (· ++ [u]) ∧
      (db.own table ≠ none → D.add db (schemaKey table) (tableRef table).name col = .accept u) := by
  cases h with
  | there t hfalse ho =>
    rw [hfalse, ho] at hknown
    cases hknown
  | created hfalse ho =>
    refine ⟨⟨[col], [], by simp⟩, .null, rfl, ?_, ?_, fun hne => absurd ho hne⟩
    · simp [Db.ownColumns, ho]
    · simp [Db.ownRows, ho]
  | added schema t u htrue hf hr hnot hadd =>
    rw [htrue] at hknown
    obtain ⟨t', ho⟩ := Option.isSome_iff_exists.mp hknown.symm
    have hres := hm.resolve ho
    rw [hr] at hres
    cases hres
    have hfind := hm t ho
    rw [hf] at hfind
    cases hfind
    refine ⟨t.addColumn col u, u, Db.put_fold _ _ _, ?_, ?_, fun _ => hadd⟩
    · rw [Db.ownColumns_some ho]
      rfl
    · simp [Db.ownRows, ho, Table.addColumn]

/-- Why SQLite refuses a row. -/
inductive NotInserted (c : Conn D.engine) (table : Bytes) (replace : Bool) (ns : List Bytes)
    (binds : List Value) : Prop
  | uncompiled (x : Bytes) : Decisions.compileInsert c.view (tableRef table) ns ns.length = .error x →
    NotInserted c table replace ns binds
  | refused (schema : Bytes) : c.view.find (tableRef table) = some schema →
    (∀ f, D.insert c.view schema (tableRef table).name replace (ns.zip binds) ≠ .accept f) →
    NotInserted c table replace ns binds
  | deferred (schema : Bytes) (f : Bytes → Bytes → List (List Value)) :
    c.view.find (tableRef table) = some schema →
    D.insert c.view schema (tableRef table).name replace (ns.zip binds) = .accept f →
    c.autocommit = true → D.deferred (c.view.setRows f) = true → NotInserted c table replace ns binds

/-- The outcomes of stepping an `INSERT`. -/
inductive Insertion (c : Conn D.engine) (table : Bytes) (replace : Bool) (ns : List Bytes)
    (binds : List Value) (sql : Bytes) :
    Except Bytes (List (Bytes → Option OutVar)) × Conn D.engine → Prop
  | inserted (schema : Bytes) (f : Bytes → Bytes → List (List Value)) (c' : Conn D.engine) :
    Decisions.compileInsert c.view (tableRef table) ns ns.length = .ok () →
    c.view.find (tableRef table) = some schema →
    D.insert c.view schema (tableRef table).name replace (ns.zip binds) = .accept f →
    c'.view = c.view.setRows f → c.rollsBack (.step sql binds false) = false →
    Insertion c table replace ns binds sql (.ok [], c')
  | failed (x : Bytes) (c' : Conn D.engine) : NotInserted c table replace ns binds →
    c'.view = c.view → c.rollsBack (.step sql binds false) = false →
    Insertion c table replace ns binds sql (.error x, c')
  | rolledBack (x schema : Bytes) (rc : ℕ) (msg : Bytes) (c' : Conn D.engine) :
    Decisions.compileInsert c.view (tableRef table) ns ns.length = .ok () →
    c.view.find (tableRef table) = some schema →
    D.insert c.view schema (tableRef table).name replace (ns.zip binds) = .rollback rc msg →
    c'.view = c.committed → c.rollsBack (.step sql binds false) = true →
    Insertion c table replace ns binds sql (.error x, c')

lemma prepare_insertText {db : Db} {ns : List Bytes} (replace : Bool) (ht : PlainName table)
    (hn : ∀ n ∈ ns, PlainName n) : D.engine.prepare db (insertText replace table ns) =
      Decisions.compileInsert db (tableRef table) ns ns.length := by
  change D.prepare db _ = _
  unfold Decisions.prepare
  rw [read_insertText replace ht hn]

lemma compileInsert_find {db : Db} {ref : TableRef} {ns : List Bytes} {n : ℕ}
    (h : Decisions.compileInsert db ref ns n = .ok ()) : ∃ s, db.find ref = some s := by
  cases hf : db.find ref with
  | some s => exact ⟨s, rfl⟩
  | none =>
    have hr : db.resolve ref = none := by simp [Db.resolve, hf]
    simp only [Decisions.compileInsert, hr] at h
    split_ifs at h

lemma compileInsert_ok {db : Db} {ns : List Bytes} (hne : ns ≠ []) {t : Table}
    (hr : db.resolve (tableRef table) = some t) (hn : ∀ n ∈ ns, t.Has n) :
    Decisions.compileInsert db (tableRef table) ns ns.length = .ok () := by
  have hfind : (ns.find? fun c => ¬ t.Has c) = none := by
    rw [List.find?_eq_none]
    intro n h
    simpa using hn n h
  simp only [Decisions.compileInsert, if_neg hne, hr, hfind, if_true]

/-- What the `INSERT` of a call can do. -/
theorem step_insertText {ns : List Bytes} (replace : Bool) (binds : List Value)
    (ht : PlainName table) (hn : ∀ n ∈ ns, PlainName n) :
    Insertion c table replace ns binds (insertText replace table ns)
      (MiniSQLite.stepRows false (c.step (insertText replace table ns) binds false).1,
        (c.step (insertText replace table ns) binds false).2) := by
  have hprep : D.engine.prepare c.view (insertText replace table ns) = _ :=
    prepare_insertText replace ht hn
  cases hcomp : Decisions.compileInsert c.view (tableRef table) ns ns.length with
  | error x =>
    rw [hcomp] at hprep
    have hstep : c.step (insertText replace table ns) binds false = (⟨[], some 1⟩, c) := by
      simp [Conn.step, hprep]
    rw [hstep]
    exact .failed _ _ (.uncompiled x hcomp) rfl (by simp [Conn.rollsBack, hprep])
  | ok u =>
    rw [hcomp] at hprep
    obtain ⟨schema, hf⟩ := compileInsert_find hcomp
    have hsteps : D.engine.step c.view (insertText replace table ns) binds c.progress =
        ⟨[], D.stepInsert c.view schema (tableRef table).name replace (ns.zip binds)⟩ := by
      change D.step c.view _ binds = _
      unfold Decisions.step
      rw [read_insertText replace ht hn]
      simp only [hf]
      rfl
    have hroll : c.rollsBack (.step (insertText replace table ns) binds false) =
        match D.insert c.view schema (tableRef table).name replace (ns.zip binds) with
        | .rollback _ _ => true
        | _ => false := by
      simp only [Conn.rollsBack, hprep, hsteps, Decisions.stepInsert]
      cases D.insert c.view schema (tableRef table).name replace (ns.zip binds) <;> rfl
    unfold Decisions.stepInsert at hsteps
    generalize hsql : insertText replace table ns = sql at *
    cases hins : D.insert c.view schema (tableRef table).name replace (ns.zip binds) with
    | accept f =>
      rw [hins] at hsteps hroll
      unfold Conn.step
      simp only [hprep, hsteps, List.isEmpty_nil, Bool.not_true, Bool.and_false, Bool.false_eq_true,
        if_false]
      by_cases hd : (c.autocommit && D.engine.deferred (c.view.setRows f)) = true
      · rw [if_pos hd]
        obtain ⟨ha, hdef⟩ := Bool.and_eq_true_iff.mp hd
        exact .failed _ _ (.deferred schema f hf hins ha hdef) rfl hroll
      · rw [if_neg hd]
        exact .inserted schema f _ hcomp hf hins rfl hroll
    | error rc msg =>
      rw [hins] at hsteps hroll
      unfold Conn.step
      simp only [hprep, hsteps, List.isEmpty_nil, Bool.not_true, Bool.and_false, Bool.false_eq_true,
        if_false]
      exact .failed _ _ (.refused schema hf (by simp [hins])) rfl hroll
    | rollback rc msg =>
      rw [hins] at hsteps hroll
      unfold Conn.step
      simp only [hprep, hsteps, List.isEmpty_nil, Bool.not_true, Bool.and_false, Bool.false_eq_true,
        if_false]
      exact .rolledBack _ schema rc msg _ hcomp hf hins rfl hroll

lemma stepped_insertText {ns : List Bytes} {replace : Bool} {binds : List Value} {P Q : Db → Prop}
    (ht : PlainName table) (hn : ∀ n ∈ ns, PlainName n)
    (hinserted : ∀ f, Decisions.compileInsert c.view (tableRef table) ns ns.length = .ok () →
      P (c.view.setRows f))
    (hfailed : Q c.view)
    (hrolled : c.rollsBack (.step (insertText replace table ns) binds false) = true → Q c.committed) :
    match MiniSQLite.stepRows false (c.step (insertText replace table ns) binds false).1 with
    | .ok _ => P (c.step (insertText replace table ns) binds false).2.view
    | .error _ => Q (c.step (insertText replace table ns) binds false).2.view := by
  have hends := step_insertText c replace binds ht hn
  generalize MiniSQLite.stepRows false (c.step (insertText replace table ns) binds false).1 = x at hends ⊢
  generalize (c.step (insertText replace table ns) binds false).2 = c' at hends ⊢
  cases hends with
  | inserted schema f _ hcomp hf hins hv hroll =>
    simp only [hv]
    exact hinserted f hcomp
  | failed x _ hnot hv hroll =>
    simp only [hv]
    exact hfailed
  | rolledBack x schema rc msg _ hcomp hf hins hv hroll =>
    simp only [hv]
    exact hrolled hroll

end Requests
end SqliteWrite
