import SqliteWrite.Writer.SQLiteWriter

/-! What each method does, as one equation: its result, the object and the connection after it.
Later proofs use these equations and not the bodies. -/
namespace SqliteWrite
open Method

namespace MiniSQLite
variable {E : Engine} (db : MiniSQLite) (c : Conn E) (table : Bytes)

@[simp] lemma setStmt_dStmts (s : Option Stmt) :
    (db.setStmt table s).dStmts = Function.update db.dStmts table s := rfl

@[simp] lemma setStmt_dIntransaction (s : Option Stmt) :
    (db.setStmt table s).dIntransaction = db.dIntransaction := rfl

@[simp] lemma setStmt_setStmt (s u : Option Stmt) :
    (db.setStmt table s).setStmt table u = db.setStmt table u := by
  simp [setStmt]

lemma setStmt_self (s : Option Stmt) (h : db.dStmts table = s) : db.setStmt table s = db := by
  subst h
  simp [setStmt]

/-- What `exec` makes of the reply: an exception, or the rows with no null pointer in them. -/
def execResult (str : Bytes) : Except Bytes (List (List (Option Bytes))) →
    Except Bytes (List (List Bytes))
  | .error errstr =>
    .error (ascii "Error executing sqlite3 query '" ++ str ++ ascii "': " ++ errstr)
  | .ok rows => match rows.mapM (·.mapM id) with
    | some dRows => .ok dRows
    | none => .error (ascii "basic_string: construction from null is not valid")

/-- The sorted names and types in the rows of a schema query. -/
def schemaOf (rows : List (List Bytes)) : List (Bytes × Bytes) :=
  sortByFirst (rows.map fun r => (r.getD 1 [], r.getD 2 []))

@[simp] lemma invoke_exec (str : Bytes) : (exec str).invoke (Conn.answer E) db c =
    (execResult str (c.exec str).1, db, (c.exec str).2) := by
  unfold exec sqlite3Exec
  rw [invoke_bind, invoke_ask]
  simp only [Conn.answer]
  generalize c.exec str = r
  obtain ⟨x, c'⟩ := r
  cases x with
  | error e => rfl
  | ok rows =>
    simp only [execResult]
    cases rows.mapM (·.mapM id) <;> rfl

@[simp] lemma invoke_getSchema : (getSchema table).invoke (Conn.answer E) db c =
    ((execResult (schemaText table) (c.exec (schemaText table)).1).map schemaOf, db,
      (c.exec (schemaText table)).2) := by
  unfold getSchema
  rw [invoke_bind, invoke_exec]
  cases execResult (schemaText table) (c.exec (schemaText table)).1 <;> rfl

@[simp] lemma invoke_haveTable : (haveTable table).invoke (Conn.answer E) db c =
    ((execResult (schemaText table) (c.exec (schemaText table)).1).map fun rows =>
      !(schemaOf rows).isEmpty, db, (c.exec (schemaText table)).2) := by
  unfold haveTable
  rw [invoke_bind, invoke_getSchema]
  cases execResult (schemaText table) (c.exec (schemaText table)).1 <;> rfl

/-- The statement by which `addColumn` adds a column, by whether the table has columns. -/
def columnText (known : Bool) (table name type columnMeta : Bytes) : Bytes :=
  if !known then createText table name type columnMeta else alterText table name type columnMeta

lemma invoke_addColumn_ok (name type columnMeta : Bytes) {rows : List (List Bytes)} {c₁ : Conn E}
    (h : (exec (schemaText table)).invoke (Conn.answer E) db c = (.ok rows, db, c₁)) :
    (addColumn table name type columnMeta).invoke (Conn.answer E) db c =
      ((execResult (columnText (!(schemaOf rows).isEmpty) table name type columnMeta)
          (c₁.exec (columnText (!(schemaOf rows).isEmpty) table name type columnMeta)).1).map
        fun _ => (), db,
        (c₁.exec (columnText (!(schemaOf rows).isEmpty) table name type columnMeta)).2) := by
  rw [invoke_exec] at h
  obtain ⟨h1, h2⟩ := Prod.ext_iff.mp h
  obtain ⟨-, h3⟩ := Prod.ext_iff.mp h2
  simp only at h1 h3
  unfold addColumn
  rw [invoke_bind, invoke_haveTable, h1, h3]
  simp only [Except.map]
  unfold columnText
  cases (schemaOf rows).isEmpty <;> simp only [Bool.not_false, Bool.not_true, if_true, if_false,
    Bool.false_eq_true] <;> rw [invoke_bind, invoke_exec] <;>
    generalize c₁.exec _ = r <;> obtain ⟨x, c₂⟩ := r <;> simp only <;>
    cases execResult _ x <;> rfl

lemma invoke_addColumn_error (name type columnMeta : Bytes) {e : Bytes} {c₁ : Conn E}
    (h : (exec (schemaText table)).invoke (Conn.answer E) db c = (.error e, db, c₁)) :
    (addColumn table name type columnMeta).invoke (Conn.answer E) db c = (.error e, db, c₁) := by
  rw [invoke_exec] at h
  obtain ⟨h1, h2⟩ := Prod.ext_iff.mp h
  obtain ⟨-, h3⟩ := Prod.ext_iff.mp h2
  simp only at h1 h3
  unfold addColumn
  rw [invoke_bind, invoke_haveTable, h1, h3]
  rfl

lemma invoke_addColumn_db (name type columnMeta : Bytes) :
    ((addColumn table name type columnMeta).invoke (Conn.answer E) db c).2.1 = db := by
  cases h : execResult (schemaText table) (c.exec (schemaText table)).1 with
  | error e =>
    rw [invoke_addColumn_error db c table name type columnMeta (by rw [invoke_exec, h])]
  | ok rows =>
    rw [invoke_addColumn_ok db c table name type columnMeta (by rw [invoke_exec, h])]

lemma invoke_prepare (str : Bytes) : (prepare table str).invoke (Conn.answer E) db c =
    (((c.prepare str).mapError (ascii "Unable to prepare query " ++ str ++ ascii ": " ++ ·)).map fun _ => (),
      db.setStmt table ((c.prepare str).toOption.join.map fun params =>
        ⟨str, List.replicate params .null, false⟩), c) := by
  unfold prepare sqlite3Prepare
  rw [invoke_bind, invoke_modify]
  simp only
  rw [invoke_bind, invoke_ask]
  simp only [Conn.answer]
  cases c.prepare str with
  | error e => rfl
  | ok stmt =>
    cases stmt with
    | none => rfl
    | some params =>
      simp only [invoke_modify, setStmt_setStmt]
      rfl

lemma invoke_prepare_error {str : Bytes} (hb : Sql.blank str = false) {e : Bytes}
    (h : E.prepare c.view str = .error e) : (prepare table str).invoke (Conn.answer E) db c =
      (.error (ascii "Unable to prepare query " ++ str ++ ascii ": " ++ e), db.setStmt table none, c) := by
  have hprepare : c.prepare str = .error e := by simp [Conn.prepare, hb, h, Except.map]
  rw [invoke_prepare, hprepare]
  rfl

lemma invoke_prepare_ok {str : Bytes} (hb : Sql.blank str = false) (h : E.prepare c.view str = .ok ()) :
    (prepare table str).invoke (Conn.answer E) db c =
      (.ok (), db.setStmt table (some ⟨str, List.replicate (E.params str) .null, false⟩), c) := by
  have hprepare : c.prepare str = .ok (some (E.params str)) := by simp [Conn.prepare, hb, h, Except.map]
  rw [invoke_prepare, hprepare]
  rfl

/-- Binding a parameter of a reset statement: what it throws, and the parameters afterwards. -/
def bindOne (E : Engine) (binds : List Value) (idx : ℕ) (arg : BindArg) :
    Except Bytes Unit × List Value :=
  if idx = 0 ∨ binds.length < idx then (.error (bindFailed (errstr 25)), binds)
  else match E.bind arg with
    | .error errstr => (.error (bindFailed errstr), binds)
    | .ok value => (.ok (), binds.set (idx - 1) value)

lemma invoke_bindPrep (idx : ℕ) (arg : BindArg) {s : Stmt} (h : db.dStmts table = some s)
    (hs : s.busy = false) : (bindPrep table idx arg).invoke (Conn.answer E) db c =
      ((bindOne E s.binds idx arg).1,
        db.setStmt table (some { s with binds := (bindOne E s.binds idx arg).2 }), c) := by
  obtain ⟨sql, binds, busy⟩ := s
  simp only at hs
  subst hs
  have hself := setStmt_self db table _ h
  unfold bindPrep sqlite3Bind bindOne
  rw [invoke_bind, invoke_get]
  simp only [h, Bool.false_eq_true, if_false]
  split_ifs with hi
  · rw [invoke_throw, hself]
  · rw [invoke_bind, invoke_ask]
    simp only [Conn.answer]
    cases E.bind arg with
    | error e => rw [invoke_throw, hself]
    | ok v => rfl

lemma script_execPrep (rows : Bool) : (execPrep table rows 0).script db = match db.dStmts table with
    | none => .ask .clearNull fun _ => .done (.error (stepFailed 21), db)
    | some s => .ask (.step s.sql s.binds rows) fun r =>
        .done (stepRows rows r, db.setStmt table (some (resetStmt s))) := by
  unfold execPrep sqlite3Step sqlite3ClearNull
  simp only [ne_eq, not_true_eq_false, if_false]
  rw [script_get_bind]
  cases db.dStmts table with
  | none => rfl
  | some s =>
    simp only
    rw [script_modify_bind, script_ask_bind]
    congr 1
    funext r
    rw [script_modify_bind, script_pure_bind, setStmt_setStmt]
    cases stepRows rows r <;> rfl

lemma invoke_execPrep (rows : Bool) {s : Stmt} (h : db.dStmts table = some s) :
    (execPrep table rows 0).invoke (Conn.answer E) db c =
      (stepRows rows (c.step s.sql s.binds rows).1, db.setStmt table (some (resetStmt s)),
        (c.step s.sql s.binds rows).2) := by
  unfold invoke
  rw [script_execPrep, h]
  rfl

/-! The requests that each method puts. -/

lemma asks_exec {P : Request → Prop} {str : Bytes} (h : P (.exec str)) : (exec str).Asks P := by
  refine Asks.bind (Asks.ask h) fun r => ?_
  cases r with
  | error e => exact Asks.throw _
  | ok rows =>
    simp only
    cases rows.mapM (·.mapM id) with
    | none => exact Asks.throw _
    | some r => exact Asks.pure _

lemma asks_getSchema {P : Request → Prop} (h : P (.exec (schemaText table))) :
    (getSchema table).Asks P :=
  Asks.bind (asks_exec h) fun _ => Asks.pure _

lemma asks_addColumn {P : Request → Prop} {name type columnMeta : Bytes}
    (h : P (.exec (schemaText table))) (hc : P (.exec (createText table name type columnMeta)))
    (ha : P (.exec (alterText table name type columnMeta))) :
    (addColumn table name type columnMeta).Asks P := by
  refine Asks.bind (Asks.bind (asks_getSchema table h) fun _ => Asks.pure _) fun known => ?_
  cases known with
  | true => exact Asks.bind (asks_exec ha) fun _ => Asks.pure _
  | false => exact Asks.bind (asks_exec hc) fun _ => Asks.pure _

lemma asks_prepare {P : Request → Prop} {str : Bytes} (h : P (.prepare str)) :
    (prepare table str).Asks P := by
  refine Asks.bind (Asks.modify _) fun _ => Asks.bind (Asks.ask h) fun r => ?_
  cases r with
  | error e => exact Asks.throw _
  | ok n =>
    cases n with
    | none => exact Asks.pure _
    | some params => exact Asks.modify _

lemma asks_bindPrep {P : Request → Prop} {idx : ℕ} {arg : BindArg} (h : P (.bind arg)) :
    (bindPrep table idx arg).Asks P := by
  refine Asks.bind Asks.get fun db => ?_
  cases db.dStmts table with
  | none => exact Asks.throw _
  | some stmt =>
    simp only
    split_ifs
    · exact Asks.throw _
    · exact Asks.throw _
    · refine Asks.bind (Asks.ask h) fun r => ?_
      cases r with
      | error e => exact Asks.throw _
      | ok v => exact Asks.modify _

lemma asks_result {α β : Type} {P : Request → Prop} {k : Except Bytes α → M β}
    (hok : ∀ v, (k (.ok v)).Asks P) (herror : ∀ e, (k (.error e)).Asks P) (r : Except Bytes α) :
    (k r).Asks P := by
  cases r with
  | ok v => exact hok v
  | error e => exact herror e

lemma asks_execPrep {P : Request → Prop} {rows : Bool} (h : ∀ sql binds, P (.step sql binds rows))
    (hnull : P .clearNull) : (execPrep table rows 0).Asks P := by
  unfold execPrep
  simp only [ne_eq, not_true_eq_false, if_false]
  refine Asks.bind Asks.get fun db => ?_
  cases db.dStmts table with
  | none =>
    exact Asks.bind (Asks.ask hnull) fun _ =>
      Asks.bind (Asks.pure _) (asks_result (fun _ => Asks.pure _) fun _ => Asks.throw _)
  | some stmt =>
    exact Asks.bind (Asks.modify _) fun _ => Asks.bind (Asks.ask (h _ _)) fun s =>
      Asks.bind (Asks.modify _) fun _ =>
        Asks.bind (Asks.pure _) (asks_result (fun _ => Asks.pure _) fun _ => Asks.throw _)

lemma invoke_cycle : cycle.invoke (Conn.answer E) db c =
    ((execResult (ascii "commit;begin") (c.exec (ascii "commit;begin")).1).map fun _ => (),
      db, (c.exec (ascii "commit;begin")).2) := by
  unfold cycle
  rw [invoke_bind, invoke_exec]
  cases execResult (ascii "commit;begin") (c.exec (ascii "commit;begin")).1 <;> rfl

end MiniSQLite

@[simp] lemma blank_insertText (replace : Bool) (table : Bytes) (names : List Bytes) :
    Sql.blank (insertText replace table names) = false := by
  simp only [insertText, insertHead, List.append_assoc]
  exact Sql.blank_insert _

lemma Conn.prepare_insert {E : Engine} (c : Conn E) (replace : Bool) (table : Bytes) (names : List Bytes) :
    c.prepare (insertText replace table names) = (E.prepare c.view (insertText replace table names)).map
      fun _ => some (E.params (insertText replace table names)) := by
  simp [Conn.prepare]

namespace SQLiteWriter
variable {E : Engine} (w : SQLiteWriter) (c : Conn E) (table : Bytes)

@[simp] lemma setDb_dDb (db : MiniSQLite) : (w.setDb db).dDb = db := rfl
@[simp] lemma setDb_dColumns (db : MiniSQLite) : (w.setDb db).dColumns = w.dColumns := rfl
@[simp] lemma setDb_dLastsig (db : MiniSQLite) : (w.setDb db).dLastsig = w.dLastsig := rfl
@[simp] lemma setDb_dLastreplace (db : MiniSQLite) :
    (w.setDb db).dLastreplace = w.dLastreplace := rfl
@[simp] lemma setDb_dFlag (db : MiniSQLite) : (w.setDb db).dFlag = w.dFlag := rfl
@[simp] lemma setDb_dMeta (db : MiniSQLite) : (w.setDb db).dMeta = w.dMeta := rfl
@[simp] lemma setDb_setDb (db db' : MiniSQLite) : (w.setDb db).setDb db' = w.setDb db' := rfl
@[simp] lemma setDb_self : w.setDb w.dDb = w := rfl

@[simp] lemma setColumns_dDb (cols : List (Bytes × Bytes)) :
    (w.setColumns table cols).dDb = w.dDb := rfl
@[simp] lemma setColumns_dColumns (cols : List (Bytes × Bytes)) :
    (w.setColumns table cols).dColumns = Function.update w.dColumns table cols := rfl
@[simp] lemma setColumns_dLastsig (cols : List (Bytes × Bytes)) :
    (w.setColumns table cols).dLastsig = w.dLastsig := rfl
@[simp] lemma setColumns_dLastreplace (cols : List (Bytes × Bytes)) :
    (w.setColumns table cols).dLastreplace = w.dLastreplace := rfl
@[simp] lemma setColumns_dFlag (cols : List (Bytes × Bytes)) :
    (w.setColumns table cols).dFlag = w.dFlag := rfl
@[simp] lemma setColumns_dMeta (cols : List (Bytes × Bytes)) :
    (w.setColumns table cols).dMeta = w.dMeta := rfl

@[simp] lemma setSignature_dDb (sig : List Bytes) (replace : Bool) :
    (w.setSignature table sig replace).dDb = w.dDb := rfl
@[simp] lemma setSignature_dColumns (sig : List Bytes) (replace : Bool) :
    (w.setSignature table sig replace).dColumns = w.dColumns := rfl
@[simp] lemma setSignature_dLastsig (sig : List Bytes) (replace : Bool) :
    (w.setSignature table sig replace).dLastsig = Function.update w.dLastsig table sig := rfl
@[simp] lemma setSignature_dLastreplace (sig : List Bytes) (replace : Bool) :
    (w.setSignature table sig replace).dLastreplace =
      Function.update w.dLastreplace table replace := rfl
@[simp] lemma setSignature_dFlag (sig : List Bytes) (replace : Bool) :
    (w.setSignature table sig replace).dFlag = w.dFlag := rfl
@[simp] lemma setSignature_dMeta (sig : List Bytes) (replace : Bool) :
    (w.setSignature table sig replace).dMeta = w.dMeta := rfl

lemma setSignature_self (sig : List Bytes) (replace : Bool) (hs : w.dLastsig table = sig)
    (hr : w.dLastreplace table = replace) : w.setSignature table sig replace = w := by
  subst hs hr
  simp [setSignature]

@[simp] lemma invoke_onDb {α : Type} (m : MiniSQLite.M α) :
    (onDb m).invoke (Conn.answer E) w c =
      ((m.invoke (Conn.answer E) w.dDb c).1, w.setDb (m.invoke (Conn.answer E) w.dDb c).2.1,
        (m.invoke (Conn.answer E) w.dDb c).2.2) := by
  unfold onDb
  rw [invoke_onMember]

/-- Whether the cached list of a table has a column of this name. -/
def Lists (name : Bytes) : Prop := ∃ p ∈ w.dColumns table, p.1 = name

lemma invoke_haveColumn_loaded (name : Bytes) (h : w.dColumns table ≠ []) :
    (haveColumn table name).invoke (Conn.answer E) w c =
      (.ok (binarySearch firstLt (w.dColumns table) (name, [])), w, c) := by
  have hne : (w.dColumns table).isEmpty = false := by simpa using h
  unfold haveColumn
  rw [invoke_bind, invoke_get]
  simp only [hne, Bool.false_eq_true, if_false]
  rw [invoke_bind, invoke_get]
  rfl

lemma invoke_haveColumn_load_ok (name : Bytes) (h : w.dColumns table = [])
    {schema : List (Bytes × Bytes)} {c₁ : Conn E}
    (hs : (MiniSQLite.getSchema table).invoke (Conn.answer E) w.dDb c = (.ok schema, w.dDb, c₁)) :
    (haveColumn table name).invoke (Conn.answer E) w c =
      (.ok (binarySearch firstLt schema (name, [])), w.setColumns table schema, c₁) := by
  unfold haveColumn
  rw [invoke_bind, invoke_get]
  simp only [h, List.isEmpty_nil, if_true]
  rw [invoke_bind, invoke_onDb, hs]
  simp only [setDb_self]
  rw [invoke_bind, invoke_modify]
  simp only
  rw [invoke_bind, invoke_get]
  simp

lemma invoke_haveColumn_load_error (name : Bytes) (h : w.dColumns table = [])
    {e : Bytes} {c₁ : Conn E}
    (hs : (MiniSQLite.getSchema table).invoke (Conn.answer E) w.dDb c = (.error e, w.dDb, c₁)) :
    (haveColumn table name).invoke (Conn.answer E) w c = (.error e, w, c₁) := by
  unfold haveColumn
  rw [invoke_bind, invoke_get]
  simp only [h, List.isEmpty_nil, if_true]
  rw [invoke_bind, invoke_onDb, hs]
  simp

/-- The object after a column was created. -/
def withColumn (p : Bytes × VarT) : SQLiteWriter :=
  w.setColumns table (sortPairs (w.dColumns table ++ [(p.1, columnType p.2)]))

lemma invoke_createColumn (p : Bytes × VarT) :
    (createColumn table p).invoke (Conn.answer E) w c =
      match (MiniSQLite.addColumn table p.1 (columnType p.2) (w.dMeta table p.1)).invoke
        (Conn.answer E) w.dDb c with
      | (.ok _, _, c₁) => (.ok (), w.withColumn table p, c₁)
      | (.error e, _, c₁) => (.error e, w, c₁) := by
  have hdb := MiniSQLite.invoke_addColumn_db w.dDb c table p.1 (columnType p.2) (w.dMeta table p.1)
  unfold createColumn
  rw [invoke_bind, invoke_get]
  simp only
  rw [invoke_bind, invoke_onDb]
  generalize (MiniSQLite.addColumn table p.1 (columnType p.2) (w.dMeta table p.1)).invoke
    (Conn.answer E) w.dDb c = r at hdb ⊢
  obtain ⟨x, db, c₁⟩ := r
  simp only at hdb
  subst hdb
  cases x <;> simp [withColumn]

/-- The requests of a call on a table: schema queries and column definitions of the table,
compiling and binding, and steps that want no rows. -/
def CallRequest (table : Bytes) : Request → Prop
  | .exec sql => sql = schemaText table ∨ (∃ name type columnMeta, sql = createText table name type columnMeta) ∨
      ∃ name type columnMeta, sql = alterText table name type columnMeta
  | .prepare _ | .bind _ | .clearNull => True
  | .step _ _ rows => rows = false
  | .clock | .progressHandler _ => False

lemma control_schemaText : Conn.control (schemaText table) = none := by
  simp [Conn.control, schemaText, ascii]

lemma control_createText (name type columnMeta : Bytes) :
    Conn.control (createText table name type columnMeta) = none := by
  simp [Conn.control, createText, ascii]

lemma control_alterText (name type columnMeta : Bytes) :
    Conn.control (alterText table name type columnMeta) = none := by
  simp [Conn.control, alterText, ascii]

lemma exec_callRequest {sql : Bytes} (h : CallRequest table (.exec sql)) :
    c.exec sql = c.execText sql := by
  have hn : Conn.control sql = none := by
    rcases h with rfl | ⟨n, t, m, rfl⟩ | ⟨n, t, m, rfl⟩
    · exact control_schemaText table
    · exact control_createText table n t m
    · exact control_alterText table n t m
  simp [Conn.exec, hn]

/-- The requests up to the compilation of the statement. -/
def SchemaRequest (table : Bytes) (q : Request) : Prop :=
  CallRequest table q ∧ q ≠ .clearNull ∧ ∀ sql binds rows, q ≠ .step sql binds rows

lemma asks_haveColumn (name : Bytes) : (haveColumn table name).Asks (SchemaRequest table) := by
  refine Asks.bind Asks.get fun w => ?_
  have hrest : (do let w ← get
                   pure (binarySearch firstLt (w.dColumns table) (name, [])) : M Bool).Asks
      (SchemaRequest table) := Asks.bind Asks.get fun _ => Asks.pure _
  cases (w.dColumns table).isEmpty with
  | true =>
    refine Asks.bind (Asks.onMember (MiniSQLite.asks_getSchema table ⟨Or.inl rfl, by simp⟩))
      fun _ => Asks.bind (Asks.modify _) fun _ => hrest
  | false => exact hrest

lemma asks_createColumn (p : Bytes × VarT) : (createColumn table p).Asks (SchemaRequest table) := by
  refine Asks.bind Asks.get fun w => Asks.bind (Asks.onMember ?_) fun _ => Asks.modify _
  exact MiniSQLite.asks_addColumn table ⟨Or.inl rfl, by simp⟩
    ⟨Or.inr (Or.inl ⟨_, _, _, rfl⟩), by simp⟩ ⟨Or.inr (Or.inr ⟨_, _, _, rfl⟩), by simp⟩

lemma asks_columnLoop (first : Bool) (q qmarks : Bytes) (values : Fields) :
    (columnLoop table first q qmarks values).Asks (SchemaRequest table) := by
  induction values generalizing first q qmarks with
  | nil => exact Asks.pure _
  | cons p values ih =>
    refine Asks.bind (asks_haveColumn table p.1) fun known => ?_
    cases known with
    | true => exact ih false _ _
    | false => exact Asks.bind (asks_createColumn table p) fun _ => ih false _ _

lemma asks_rebuild (values : Fields) (replace : Bool) :
    (rebuild table values replace).Asks (SchemaRequest table) :=
  Asks.bind (asks_columnLoop table _ _ _ values) fun _ =>
    Asks.bind (Asks.onMember (MiniSQLite.asks_prepare table ⟨trivial, by simp⟩)) fun _ =>
      Asks.modify _

lemma asks_bindValues (n : ℕ) (values : Fields) :
    (bindValues table n values).Asks (SchemaRequest table) := by
  induction values generalizing n with
  | nil => exact Asks.pure _
  | cons p values ih =>
    exact Asks.bind (Asks.onMember (MiniSQLite.asks_bindPrep table ⟨trivial, by simp⟩)) fun _ => ih _

lemma Asks.ofSchema {α : Type} {m : M α} (h : m.Asks (SchemaRequest table)) :
    m.Asks (CallRequest table) := fun w => (h w).mono fun _ hq => hq.1

lemma asks_finish (values : Fields) :
    (do bindValues table 1 values
        let _ ← onDb (MiniSQLite.execPrep table false 0) : M Unit).Asks (CallRequest table) :=
  Asks.bind (Asks.ofSchema table (asks_bindValues table 1 values)) fun _ =>
    Asks.bind (Asks.onMember (MiniSQLite.asks_execPrep table (fun _ _ => rfl) trivial)) fun _ => Asks.pure _

lemma asks_addValueGeneric (values : Fields) (replace : Bool) :
    (addValueGeneric table values replace).Asks (CallRequest table) := by
  refine Asks.bind Asks.get fun w => ?_
  by_cases hf : w.dFlag = .readOnly
  · simp only [hf, if_true]
    exact Asks.throw _
  simp only [hf, if_false]
  cases w.cached table values replace with
  | true => exact asks_finish table values
  | false =>
    exact Asks.bind (Asks.ofSchema table (asks_rebuild table values replace)) fun _ => asks_finish table values

lemma columnLoop_returns (E : Engine) (table : Bytes) (first : Bool) (q qmarks : Bytes) (values : Fields) :
    Triple (Conn.answer E) (fun _ _ => True) (columnLoop table first q qmarks values)
      (fun r _ _ => r = (q ++ columnList first (values.map (·.1)), qmarks ++ markList first (values.map (·.1))))
      fun _ _ _ => True := by
  induction values generalizing first q qmarks with
  | nil =>
    apply Triple.pure
    intro _ _ _
    simp [columnList, markList]
  | cons p values ih =>
    have hrest : Triple (Conn.answer E) (fun _ _ => True)
        (columnLoop table false (q ++ listSep first ++ ascii "'" ++ p.1 ++ ascii "'")
          (qmarks ++ listSep first ++ ascii "?") values)
        (fun r _ _ => r = (q ++ columnList first ((p :: values).map (·.1)),
          qmarks ++ markList first ((p :: values).map (·.1)))) fun _ _ _ => True := by
      apply (ih false _ _).weaken
      · exact fun _ _ h => h
      · rintro r _ _ rfl
        simp [columnList, markList]
      · exact fun _ _ _ h => h
    unfold columnLoop
    apply Triple.bind (Triple.trivial _)
    intro known
    cases known with
    | true => exact hrest
    | false => exact Triple.bind (Triple.trivial _) fun _ => hrest

lemma text_returned {w v : SQLiteWriter} {c c₁ : Conn E} {table : Bytes} {values : Fields} {replace : Bool}
    {texts : Bytes × Bytes} (h : (columnLoop table true (insertHead replace table) [] values).invoke
      (Conn.answer E) w c = (.ok texts, v, c₁)) :
    texts.1 ++ ascii ") values (" ++ texts.2 ++ ascii ")" = insertText replace table (values.map (·.1)) := by
  have hreturns := columnLoop_returns E table true (insertHead replace table) [] values w c trivial
  rw [h] at hreturns
  rw [hreturns]
  simp [insertText]

/-- Binding the values of a call from position `n` on. -/
def bindAll (E : Engine) : List Value → ℕ → Fields → Except Bytes Unit × List Value
  | binds, _, [] => (.ok (), binds)
  | binds, n, p :: values =>
    match MiniSQLite.bindOne E binds n (bindArg p.2) with
    | (.ok _, binds) => bindAll E binds (n + 1) values
    | (.error e, binds) => (.error e, binds)

/-- The SQLite values that the fields of a call bind. -/
def boundValues (E : Engine) (values : Fields) : Except Bytes (List Value) :=
  values.mapM fun p => E.bind (bindArg p.2)

lemma invoke_bindValues (n : ℕ) (values : Fields) {s : Stmt} (h : w.dDb.dStmts table = some s)
    (hs : s.busy = false) : (bindValues table n values).invoke (Conn.answer E) w c =
      ((bindAll E s.binds n values).1,
        w.setDb (w.dDb.setStmt table (some { s with binds := (bindAll E s.binds n values).2 })), c) := by
  induction values generalizing n s w with
  | nil =>
    simp only [bindValues, invoke_pure, bindAll]
    rw [MiniSQLite.setStmt_self _ _ _ h, setDb_self]
  | cons p values ih =>
    unfold bindValues
    rw [invoke_bind, invoke_onDb, MiniSQLite.invoke_bindPrep _ _ _ _ _ h hs]
    simp only [bindAll]
    generalize MiniSQLite.bindOne E s.binds n (bindArg p.2) = r
    obtain ⟨x, b⟩ := r
    cases x with
    | error e => rfl
    | ok u =>
      simp only
      rw [ih (w.setDb (w.dDb.setStmt table (some { s with binds := b }))) (n + 1)
        (s := { s with binds := b }) (by simp) hs]
      simp

lemma bindAll_length (binds : List Value) (n : ℕ) (values : Fields) :
    (bindAll E binds n values).2.length = binds.length := by
  induction values generalizing binds n with
  | nil => rfl
  | cons p values ih =>
    have hone : (MiniSQLite.bindOne E binds n (bindArg p.2)).2.length = binds.length := by
      unfold MiniSQLite.bindOne
      split_ifs
      · rfl
      · cases E.bind (bindArg p.2) <;> simp
    simp only [bindAll]
    generalize MiniSQLite.bindOne E binds n (bindArg p.2) = r at hone ⊢
    obtain ⟨x, b⟩ := r
    cases x with
    | error e => exact hone
    | ok u => exact (ih b (n + 1)).trans hone

lemma bindAll_drop (binds : List Value) (n : ℕ) (values : Fields) :
    (bindAll E binds (n + 1) values).2.drop (n + values.length) = binds.drop (n + values.length) := by
  induction values generalizing binds n with
  | nil => rfl
  | cons p values ih =>
    simp only [bindAll, MiniSQLite.bindOne]
    by_cases hi : n + 1 = 0 ∨ binds.length < n + 1
    · rw [if_pos hi]
    rw [if_neg hi]
    cases E.bind (bindArg p.2) with
    | error e => rfl
    | ok v =>
      have hx := ih (binds.set n v) (n + 1)
      rw [List.drop_set_of_lt (by omega)] at hx
      have hl : n + (p :: values).length = n + 1 + values.length := by
        rw [List.length_cons]
        omega
      rw [hl]
      exact hx

lemma bindAll_result (binds binds' : List Value) (n : ℕ) (values : Fields)
    (hl : binds.length = binds'.length) :
    (bindAll E binds n values).1 = (bindAll E binds' n values).1 := by
  induction values generalizing binds binds' n with
  | nil => rfl
  | cons p values ih =>
    simp only [bindAll, MiniSQLite.bindOne, hl]
    split_ifs with hi
    · rfl
    · cases E.bind (bindArg p.2) with
      | error e => rfl
      | ok v => exact ih _ _ (n + 1) (by simpa using hl)

lemma bindAll_error (binds : List Value) (n : ℕ) (values : Fields) (e : Bytes)
    (h : (bindAll E binds n values).1 = .error e) : ∃ m, e = MiniSQLite.bindFailed m := by
  induction values generalizing binds n with
  | nil => cases h
  | cons p values ih =>
    simp only [bindAll, MiniSQLite.bindOne] at h
    split_ifs at h with hidx
    · cases h
      exact ⟨_, rfl⟩
    · cases hb : E.bind (bindArg p.2) with
      | error m =>
        rw [hb] at h
        cases h
        exact ⟨m, rfl⟩
      | ok v =>
        rw [hb] at h
        exact ih _ _ h

lemma bindAll_isOk (binds : List Value) (n : ℕ) (values : Fields)
    (hn : n + values.length ≤ binds.length) : (bindAll E binds (n + 1) values).1 = .ok () ↔
      ∀ p ∈ values, (E.bind (bindArg p.2)).isOk = true := by
  induction values generalizing binds n with
  | nil => simp [bindAll]
  | cons p values ih =>
    rw [List.length_cons] at hn
    have hidx : ¬ (n + 1 = 0 ∨ binds.length < n + 1) := by omega
    simp only [bindAll, MiniSQLite.bindOne, if_neg hidx, List.forall_mem_cons]
    cases hv : E.bind (bindArg p.2) with
    | error e => simp [Except.isOk, Except.toBool]
    | ok v =>
      have hrest := ih (binds.set n v) (n + 1) (by rw [List.length_set]; omega)
      simpa [Except.isOk, Except.toBool] using hrest

lemma bindAll_ok (binds : List Value) (n : ℕ) (values : Fields)
    (h : (bindAll E binds (n + 1) values).1 = .ok ()) :
    ∃ vs, boundValues E values = .ok vs ∧ vs.length = values.length ∧
      (bindAll E binds (n + 1) values).2 =
        binds.take n ++ vs ++ binds.drop (n + values.length) := by
  induction values generalizing binds n with
  | nil => exact ⟨[], rfl, rfl, by simp [bindAll]⟩
  | cons p values ih =>
    simp only [bindAll, MiniSQLite.bindOne] at h ⊢
    by_cases hi : n + 1 = 0 ∨ binds.length < n + 1
    · rw [if_pos hi] at h
      cases h
    rw [if_neg hi] at h ⊢
    cases hv : E.bind (bindArg p.2) with
    | error e => simp [hv] at h
    | ok v =>
      simp only [hv, Nat.add_sub_cancel] at h ⊢
      obtain ⟨vs, hvs, hlen, hb⟩ := ih (binds.set n v) (n + 1) h
      have hn : n < binds.length := by omega
      have htake : (binds.set n v).take (n + 1) = binds.take n ++ [v] := by
        rw [List.take_set, List.take_add_one, List.getElem?_eq_getElem hn, Option.toList_some,
          List.set_append_right _ _ (by simp), List.length_take, min_eq_left hn.le, Nat.sub_self,
          List.set_cons_zero]
      have hdrop : (binds.set n v).drop (n + 1 + values.length) =
          binds.drop (n + (p :: values).length) := by
        rw [List.drop_set_of_lt (by omega), List.length_cons]
        congr 1
        omega
      refine ⟨v :: vs, ?_, by simp [hlen], ?_⟩
      · simp only [boundValues, List.mapM_cons, hv] at hvs ⊢
        rw [hvs]
        rfl
      · rw [hb, htake, hdrop]
        simp

end SQLiteWriter
end SqliteWrite
