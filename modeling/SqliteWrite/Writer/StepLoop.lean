import SqliteWrite.Writer.Queries

/-! The loop of `execPrep` over the outcomes of `sqlite3_step`, column by column. It fills one row map
again and again, decodes each column by its type, and cleans up on each of its exits. -/
namespace SqliteWrite
open Method

/-- A row of a result, an `unordered_map`: its entries in the order in which they are walked. -/
structure ResultRow where
  cells : List (Bytes × OutVar)
  nodup : (cells.map (·.1)).Nodup

namespace ResultRow

def empty : ResultRow := ⟨[], List.nodup_nil⟩

/-- `row.clear()`. -/
def clear (_ : ResultRow) : ResultRow := empty

/-- `row.find`. -/
def find (row : ResultRow) (name : Bytes) : Option OutVar :=
  (row.cells.find? fun cell => cell.1 = name).map (·.2)

/-- `row[name] = x` in a list of entries. -/
def assignCell (name : Bytes) (x : OutVar) : List (Bytes × OutVar) → List (Bytes × OutVar)
  | [] => [(name, x)]
  | cell :: cells => if cell.1 = name then (name, x) :: cells else cell :: assignCell name x cells

lemma mem_assignCell_names {name : Bytes} {x : OutVar} {cells : List (Bytes × OutVar)} {other : Bytes} :
    other ∈ (assignCell name x cells).map (·.1) ↔ other = name ∨ other ∈ cells.map (·.1) := by
  induction cells with
  | nil => simp [assignCell]
  | cons cell cells ih =>
    unfold assignCell
    split_ifs with h
    · simp [h]
    · rw [List.map_cons, List.mem_cons, ih, List.map_cons, List.mem_cons]
      tauto

lemma nodup_assignCell {name : Bytes} {x : OutVar} {cells : List (Bytes × OutVar)}
    (h : (cells.map (·.1)).Nodup) : ((assignCell name x cells).map (·.1)).Nodup := by
  induction cells with
  | nil => exact List.nodup_singleton _
  | cons cell cells ih =>
    obtain ⟨hcell, hrest⟩ := List.nodup_cons.mp h
    unfold assignCell
    split_ifs with hname
    · subst hname
      exact h
    · refine List.nodup_cons.mpr ⟨fun hmem => ?_, ih hrest⟩
      rcases mem_assignCell_names.mp hmem with heq | hmem
      · exact hname heq
      · exact hcell hmem

/-- `row[name] = x`. -/
def assign (row : ResultRow) (name : Bytes) (x : OutVar) : ResultRow :=
  ⟨assignCell name x row.cells, nodup_assignCell row.nodup⟩

@[simp] lemma find_empty (name : Bytes) : empty.find name = none := rfl

@[simp] lemma find_assign (row : ResultRow) (name : Bytes) (x : OutVar) :
    (row.assign name x).find = Function.update row.find name (some x) := by
  funext other
  obtain ⟨cells, hnodup⟩ := row
  unfold find assign
  simp only [Function.update_apply]
  clear hnodup
  induction cells with
  | nil =>
    by_cases h : name = other
    · simp [assignCell, h]
    · simp [assignCell, h, Ne.symm h]
  | cons cell cells ih =>
    by_cases hcell : cell.1 = name
    · by_cases h : name = other
      · simp [assignCell, hcell, h]
      · simp [assignCell, hcell, h, Ne.symm h]
    · by_cases h : cell.1 = other
      · have hne : other ≠ name := fun heq => hcell (h.trans heq)
        simp [assignCell, h, hne]
      · simpa [assignCell, hcell, h] using ih

lemma find_eq_some (row : ResultRow) {name : Bytes} {x : OutVar} :
    row.find name = some x ↔ (name, x) ∈ row.cells := by
  obtain ⟨cells, hnodup⟩ := row
  unfold find
  induction cells with
  | nil => simp
  | cons cell cells ih =>
    obtain ⟨hcell, hrest⟩ := List.nodup_cons.mp hnodup
    have hi := ih hrest
    by_cases h : cell.1 = name
    · subst h
      have hfresh : (cell.1, x) ∉ cells := fun hx => hcell (List.mem_map_of_mem (f := (·.1)) hx)
      simp [hfresh, Prod.ext_iff, eq_comm]
    · have hne : (name, x) ≠ cell := fun heq => h (heq ▸ rfl)
      simpa [h, hne] using hi

end ResultRow

inductive ColumnType
  | integer | float | text | blob | null
  deriving DecidableEq, Repr

/-- What the C interface tells of one column of the current row: its name and type, and what the
functions for the types return. A pointer is null or leads to memory. -/
structure ResultColumn where
  name : Bytes
  type : ColumnType
  text : Option Bytes
  blob : Option Bytes
  bytes : ℕ
  double : UInt64
  int64 : Int64

/-- The bytes lie behind the pointer and are so many; a null pointer stands for none. -/
def PointsTo (p : Option Bytes) (n : ℕ) (b : Bytes) : Prop :=
  n = b.length ∧ match p with
    | none => b = []
    | some memory => b <+: memory

/-- The C interface shows this value. -/
def ResultColumn.Presents (col : ResultColumn) : Value → Prop
  | .null => col.type = .null
  | .integer i => col.type = .integer ∧ col.int64 = i
  | .real bits => col.type = .float ∧ col.double = bits
  | .text b => col.type = .text ∧ PointsTo col.text col.bytes b
  | .blob b => col.type = .blob ∧ PointsTo col.blob col.bytes b

/-- How the library presents the columns of a row to its caller. -/
structure Presenter where
  column : Bytes × Value → ResultColumn
  name : ∀ cell, (column cell).name = cell.1
  presents : ∀ cell, (column cell).Presents cell.2

/-- One pass of the loop over the columns. -/
def decodeColumn (row : ResultRow) (col : ResultColumn) : ResultRow :=
  match col.type with
  | .text => match col.text with
    | none => row.assign col.name (.string [])
    | some p => row.assign col.name (.string (p.take col.bytes))
  | .blob => match col.blob with
    | none => row.assign col.name (.blob [])
    | some p => row.assign col.name (.blob (p.take col.bytes))
  | .float => row.assign col.name (.double col.double)
  | .integer => row.assign col.name (.int64 col.int64)
  | .null => row.assign col.name .null

/-- The loop over the outcomes of `sqlite3_step`, with the row map that it fills and the vector of
the rows before; `finish` is what comes after the last row, nothing for `SQLITE_DONE`. -/
def stepLoop (wanted : Bool) (finish : Option ℕ) :
    ResultRow → List ResultRow → List (List ResultColumn) → Except Bytes (List ResultRow)
  | _, rows, [] => match finish with
    | none => .ok rows
    | some rc => .error (MiniSQLite.stepFailed rc)
  | row, rows, columns :: rest =>
    if wanted then
      let row := columns.foldl decodeColumn row.clear
      stepLoop wanted finish row (rows ++ [row]) rest
    else .error (MiniSQLite.stepFailed 100)

/-- The row map of some columns, a later one replacing an earlier one of its name. -/
def decoded (cells : List (Bytes × Value)) : ResultRow :=
  cells.foldl (fun row cell => row.assign cell.1 (outvar cell.2)) ResultRow.empty

lemma find_foldl_assign (cells : List (Bytes × Value)) (row : ResultRow) :
    (cells.foldl (fun row cell => row.assign cell.1 (outvar cell.2)) row).find =
      cells.foldl (fun (map : Bytes → Option OutVar) cell =>
        Function.update map cell.1 (some (outvar cell.2))) row.find := by
  induction cells generalizing row with
  | nil => rfl
  | cons cell cells ih => rw [List.foldl_cons, ih, ResultRow.find_assign, List.foldl_cons]

@[simp] lemma find_decoded (cells : List (Bytes × Value)) : (decoded cells).find = decodeRow cells :=
  find_foldl_assign cells ResultRow.empty

lemma decodeRow_eq_some {cells : List (Bytes × Value)} (h : (cells.map (·.1)).Nodup) {name : Bytes}
    {x : OutVar} : decodeRow cells name = some x ↔ ∃ v, (name, v) ∈ cells ∧ outvar v = x := by
  have hfold : ∀ row : Bytes → Option OutVar,
      (cells.foldl (fun (row : Bytes → Option OutVar) cell =>
        Function.update row cell.1 (some (outvar cell.2))) row) name = some x ↔
      (∃ v, (name, v) ∈ cells ∧ outvar v = x) ∨ (name ∉ cells.map (·.1) ∧ row name = some x) := by
    induction cells with
    | nil => simp
    | cons cell cells ih =>
      intro row
      obtain ⟨hcell, hrest⟩ := List.nodup_cons.mp h
      rw [List.foldl_cons, ih hrest, Function.update_apply]
      obtain ⟨other, u⟩ := cell
      by_cases hname : name = other
      · subst hname
        have hfresh : ∀ v, (name, v) ∉ cells := fun v hv => hcell (List.mem_map_of_mem (f := (·.1)) hv)
        simp [hfresh]
      · simp [hname]
  have hall := hfold fun _ => none
  simp only [reduceCtorEq, and_false, or_false] at hall
  exact hall

section Loop
variable (P : Presenter)

lemma decodeColumn_column (row : ResultRow) (cell : Bytes × Value) :
    decodeColumn row (P.column cell) = row.assign cell.1 (outvar cell.2) := by
  have hname := P.name cell
  have hpresents := P.presents cell
  obtain ⟨name, v⟩ := cell
  simp only at hname hpresents
  unfold decodeColumn
  cases v with
  | null =>
    rw [show (P.column (name, .null)).type = .null from hpresents, hname]
    rfl
  | integer i =>
    obtain ⟨htype, hvalue⟩ := hpresents
    rw [htype, hname, hvalue]
    rfl
  | real bits =>
    obtain ⟨htype, hvalue⟩ := hpresents
    rw [htype, hname, hvalue]
    rfl
  | text b =>
    obtain ⟨htype, hlength, hmemory⟩ := hpresents
    rw [htype, hname, hlength]
    cases hp : (P.column (name, .text b)).text with
    | none =>
      rw [hp] at hmemory
      obtain rfl : b = [] := hmemory
      rfl
    | some memory =>
      rw [hp] at hmemory
      have htake : memory.take b.length = b := List.prefix_iff_eq_take.mp hmemory |>.symm
      simp only [htake]
      rfl
  | blob b =>
    obtain ⟨htype, hlength, hmemory⟩ := hpresents
    rw [htype, hname, hlength]
    cases hp : (P.column (name, .blob b)).blob with
    | none =>
      rw [hp] at hmemory
      obtain rfl : b = [] := hmemory
      rfl
    | some memory =>
      rw [hp] at hmemory
      have htake : memory.take b.length = b := List.prefix_iff_eq_take.mp hmemory |>.symm
      simp only [htake]
      rfl

lemma decodeColumns_column (cells : List (Bytes × Value)) (row : ResultRow) :
    (cells.map P.column).foldl decodeColumn row =
      cells.foldl (fun row cell => row.assign cell.1 (outvar cell.2)) row := by
  induction cells generalizing row with
  | nil => rfl
  | cons cell cells ih => rw [List.map_cons, List.foldl_cons, List.foldl_cons, decodeColumn_column, ih]

/-- What stands in the row map from the last row does not matter; the loop ends in the rows so far
and one for each row to come, or throws. -/
lemma stepLoop_wanted (finish : Option ℕ) (row : ResultRow) (rows : List ResultRow)
    (more : List (List (Bytes × Value))) :
    stepLoop true finish row rows (more.map fun cells => cells.map P.column) = match finish with
      | none => .ok (rows ++ more.map decoded)
      | some rc => .error (MiniSQLite.stepFailed rc) := by
  induction more generalizing row rows with
  | nil =>
    cases finish with
    | none => simp [stepLoop]
    | some code => rfl
  | cons cells more ih =>
    have hrow : (cells.map P.column).foldl decodeColumn row.clear = decoded cells :=
      decodeColumns_column P cells ResultRow.empty
    simp only [List.map_cons, stepLoop, if_true, hrow]
    rw [ih]
    cases finish with
    | none => simp
    | some code => rfl

/-- The loop refines the decode of the whole sequence of rows. -/
theorem stepLoop_stepRows (wanted : Bool) (s : Stepped) :
    (stepLoop wanted s.rc ResultRow.empty [] (s.rows.map fun cells => cells.map P.column)).map
      (List.map ResultRow.find) = MiniSQLite.stepRows wanted s := by
  obtain ⟨rows, rc⟩ := s
  unfold MiniSQLite.stepRows
  cases wanted with
  | true =>
    rw [stepLoop_wanted]
    cases rc with
    | none => simp [Except.map, Function.comp_def]
    | some code => rfl
  | false =>
    cases rows with
    | nil => cases rc <;> rfl
    | cons cells rows => rfl

end Loop

namespace MiniSQLite

/-- `sqlite3_reset`. -/
def sqlite3Reset (stmt : Stmt) : Stmt := { stmt with busy := false }

/-- `sqlite3_clear_bindings`. -/
def sqlite3ClearBindings (stmt : Stmt) : Stmt :=
  { stmt with binds := List.replicate stmt.binds.length .null }

/-- Step the statement of a table to its end. After an error it is reset, its bindings are cleared and
the code is kept to be thrown; at the end of the rows it is reset, which returns the code of the last
step, and its bindings are cleared. -/
def stepStmt (P : Presenter) (table : Bytes) (rows : Bool) : M (Except Bytes (List ResultRow)) := do
  match (← get).dStmts table with
  | none => do
    sqlite3ClearNull
    pure (.error (stepFailed 21))
  | some stmt => do
    modify fun db => db.setStmt table (some { stmt with busy := true })
    let s ← sqlite3Step stmt rows
    match stepLoop rows s.rc ResultRow.empty [] (s.rows.map fun cells => cells.map P.column) with
    | .error e =>
      modify fun db => db.setStmt table (some (sqlite3ClearBindings (sqlite3Reset stmt)))
      pure (.error e)
    | .ok decoded =>
      modify fun db => db.setStmt table (some (sqlite3Reset stmt))
      match s.rc with
      | some rc => pure (.error (stepFailed rc))
      | none =>
        modify fun db => db.setStmt table (some (sqlite3ClearBindings (sqlite3Reset stmt)))
        pure (.ok decoded)

/-- `execPrep` with its loop; the destructor of `DeadlineCatcher` runs on every exit. -/
def execPrepLoop (P : Presenter) (table : Bytes) (rows : Bool) (msec : UInt32) : M (List ResultRow) := do
  if msec ≠ 0 then
    let now ← clockGettime
    sqlite3ProgressHandler (some (deadline now msec))
  let result ← stepStmt P table rows
  if msec ≠ 0 then sqlite3ProgressHandler none
  match result with
  | .ok decoded => pure decoded
  | .error e => throw e

variable {E : Engine} (P : Presenter) {table : Bytes} {db : MiniSQLite} {c : Conn E} {msec : UInt32}

lemma stepLoop_ok {wanted : Bool} {finish : Option ℕ} {row : ResultRow}
    {rows out : List ResultRow} {more : List (List ResultColumn)}
    (h : stepLoop wanted finish row rows more = .ok out) : finish = none := by
  induction more generalizing row rows with
  | nil =>
    cases finish with
    | none => rfl
    | some code => cases h
  | cons columns more ih =>
    cases wanted with
    | true => exact ih h
    | false => cases h

/-- What the loop makes of the outcomes. -/
def loopResult (P : Presenter) (rows : Bool) (s : Stepped) : Except Bytes (List ResultRow) :=
  stepLoop rows s.rc ResultRow.empty [] (s.rows.map fun cells => cells.map P.column)

/-- Whichever exit the loop takes, the statement is reset and cleared. -/
lemma script_stepStmt (rows : Bool) : (stepStmt P table rows).script db =
    match db.dStmts table with
    | none => .ask .clearNull fun _ => .done (.ok (.error (stepFailed 21)), db)
    | some s => .ask (.step s.sql s.binds rows) fun r =>
        .done (.ok (loopResult P rows r), db.setStmt table (some (resetStmt s))) := by
  unfold stepStmt sqlite3Step sqlite3ClearNull loopResult
  rw [script_get_bind]
  cases db.dStmts table with
  | none => rfl
  | some s =>
    simp only
    rw [script_modify_bind, script_ask_bind]
    congr 1
    funext r
    cases hloop : stepLoop rows r.rc ResultRow.empty [] (r.rows.map fun cells => cells.map P.column) with
    | error e =>
      simp only
      rw [script_modify_bind, setStmt_setStmt]
      rfl
    | ok out =>
      rw [stepLoop_ok hloop]
      simp only
      rw [script_modify_bind, script_modify_bind, setStmt_setStmt, setStmt_setStmt]
      rfl

/-- The connection while a call with a time limit runs. -/
def limited (c : Conn E) (msec : UInt32) : Conn E :=
  if msec = 0 then c else { c with progress := some (deadline c.now msec) }

/-- The connection when the call is over. -/
def released (c : Conn E) (msec : UInt32) : Conn E := if msec = 0 then c else { c with progress := none }

lemma invoke_execPrep_held {stmt : Stmt} (h : db.dStmts table = some stmt) (rows : Bool) (msec : UInt32) :
    (execPrep table rows msec).invoke (Conn.answer E) db c =
      (stepRows rows ((limited c msec).step stmt.sql stmt.binds rows).1,
        db.setStmt table (some (resetStmt stmt)),
        released ((limited c msec).step stmt.sql stmt.binds rows).2 msec) := by
  unfold invoke
  by_cases hm : msec = 0
  · subst hm
    rw [script_execPrep, h]
    rfl
  · rw [script_execPrep_timed rows hm, h]
    simp only [limited, released, hm, if_false]
    rfl

/-- The null pointer fails to step and is looked behind. -/
lemma invoke_execPrep_none (h : db.dStmts table = none) (rows : Bool) (msec : UInt32) :
    (execPrep table rows msec).invoke (Conn.answer E) db c =
      (.error (stepFailed 21), db, released { limited c msec with fault := true } msec) := by
  unfold invoke
  by_cases hm : msec = 0
  · subst hm
    rw [script_execPrep, h]
    rfl
  · rw [script_execPrep_timed rows hm, h]
    simp only [limited, released, hm, if_false]
    rfl

lemma script_execPrepLoop (rows : Bool) : (execPrepLoop P table rows msec).script db =
    if msec = 0 then (stepStmt P table rows).script db >>= fun r => pure (r.1.bind id, r.2)
    else .ask .clock fun now => .ask (.progressHandler (some (deadline now msec))) fun _ =>
      (stepStmt P table rows).script db >>= fun r => .ask (.progressHandler none) fun _ =>
        .done (r.1.bind id, r.2) := by
  have hstmt : ∃ (a : Script Request Reply (Except Bytes (List ResultRow) × MiniSQLite)),
      (stepStmt P table rows).script db = a >>= fun r => pure (.ok r.1, r.2) := by
    rw [script_stepStmt]
    cases db.dStmts table with
    | none => exact ⟨.ask .clearNull fun _ => .done (_, db), rfl⟩
    | some s => exact ⟨.ask (.step s.sql s.binds rows) fun r => .done (_, _), rfl⟩
  obtain ⟨a, ha⟩ := hstmt
  unfold execPrepLoop clockGettime sqlite3ProgressHandler
  by_cases hm : msec = 0
  · subst hm
    simp only [ne_eq, not_true_eq_false, if_false, if_true]
    rw [script_bind, ha, bind_assoc, bind_assoc]
    congr 1
    funext r
    obtain ⟨x, db'⟩ := r
    cases x <;> rfl
  · simp only [ne_eq, hm, not_false_eq_true, if_true, if_false]
    rw [script_ask_bind]
    congr 1
    funext now
    rw [script_ask_bind]
    congr 1
    funext u
    rw [script_bind, ha, bind_assoc, bind_assoc]
    congr 1
    funext r
    obtain ⟨x, db'⟩ := r
    cases x <;> rfl

lemma invoke_execPrepLoop (rows : Bool) {s : Stmt} (h : db.dStmts table = some s) :
    (execPrepLoop P table rows msec).invoke (Conn.answer E) db c =
      (loopResult P rows ((limited c msec).step s.sql s.binds rows).1,
        db.setStmt table (some (resetStmt s)),
        released ((limited c msec).step s.sql s.binds rows).2 msec) := by
  unfold invoke
  rw [script_execPrepLoop, script_stepStmt, h]
  by_cases hm : msec = 0
  · subst hm
    rfl
  · simp only [hm, if_false, limited, released]
    rfl

lemma invoke_execPrep_loop (rows : Bool) : (execPrep table rows msec).invoke (Conn.answer E) db c =
    (((execPrepLoop P table rows msec).invoke (Conn.answer E) db c).1.map (List.map ResultRow.find),
      ((execPrepLoop P table rows msec).invoke (Conn.answer E) db c).2) := by
  unfold invoke
  rw [script_execPrepLoop, script_stepStmt]
  by_cases hm : msec = 0
  · subst hm
    rw [script_execPrep]
    cases db.dStmts table with
    | none => rfl
    | some s =>
      simp only [← stepLoop_stepRows P]
      rfl
  · rw [script_execPrep_timed rows hm, if_neg hm]
    cases db.dStmts table with
    | none => rfl
    | some s =>
      simp only [← stepLoop_stepRows P]
      rfl

end MiniSQLite

namespace SQLiteWriter
variable {E : Engine} (P : Presenter) (w : SQLiteWriter) (c : Conn E)

/-- `queryT` with the loop of `execPrep`. -/
def queryTLoop (P : Presenter) (q : Bytes) (values : List VarT) (msec : UInt32) : M (List ResultRow) := do
  let w ← get
  if msec ≠ 0 ∧ w.dFlag ≠ .readOnly then
    throw (ascii "Timeout only possible for read-only connections")
  onDb (MiniSQLite.prepare [] q)
  bindQuery 1 values
  onDb (MiniSQLite.execPrepLoop P [] true msec)

/-- The query comes to be stepped, with these parameters. -/
def Bound (E : Engine) (w : SQLiteWriter) (c : Conn E) (q : Bytes) (values : List VarT) (msec : UInt32)
    (binds : List Value) : Prop :=
  (msec = 0 ∨ w.dFlag = .readOnly) ∧ E.prepare c.view q = .ok () ∧
    bindAll E (List.replicate (E.params q) .null) 1 (values.map fun v => ([], v)) = (.ok (), binds)

lemma queryTLoop_unbound {q : Bytes} (hq : Sql.blank q = false) (values : List VarT) (msec : UInt32)
    (h : ∀ binds, ¬ Bound E w c q values msec binds) :
    (∃ e, ((queryTLoop P q values msec).invoke (Conn.answer E) w c).1 = .error e) ∧
      ((queryTLoop P q values msec).invoke (Conn.answer E) w c).2.2 = c := by
  unfold queryTLoop
  rw [invoke_bind, invoke_get]
  by_cases hm : msec ≠ 0 ∧ w.dFlag ≠ .readOnly
  · simp only [if_pos hm]
    rw [invoke_bind, invoke_throw]
    exact ⟨⟨_, rfl⟩, rfl⟩
  simp only [if_neg hm]
  rw [invoke_bind, invoke_onDb]
  cases hp : E.prepare c.view q with
  | error e =>
    rw [MiniSQLite.invoke_prepare_error _ _ _ hq hp]
    exact ⟨⟨_, rfl⟩, rfl⟩
  | ok u =>
    rw [MiniSQLite.invoke_prepare_ok _ _ _ hq hp]
    simp only
    rw [invoke_bind, bindQuery_eq, invoke_bindValues _ _ _ _ _
      (s := ⟨q, List.replicate (E.params q) .null, false⟩) (by simp) rfl]
    cases hb : bindAll E (List.replicate (E.params q) .null) 1 (values.map fun v => ([], v)) with
    | mk x binds =>
      cases x with
      | error e => exact ⟨⟨e, by simp⟩, by simp⟩
      | ok u => exact absurd ⟨by tauto, hp, hb⟩ (h binds)

lemma queryTLoop_bound {q : Bytes} (hq : Sql.blank q = false) {values : List VarT} {msec : UInt32}
    {binds : List Value} (h : Bound E w c q values msec binds) :
    let s := (MiniSQLite.limited c msec).step q binds true
    (queryTLoop P q values msec).invoke (Conn.answer E) w c =
      (MiniSQLite.loopResult P true s.1,
        w.setDb (w.dDb.setStmt [] (some (MiniSQLite.resetStmt ⟨q, binds, false⟩))),
        MiniSQLite.released s.2 msec) := by
  obtain ⟨hm, hp, hb⟩ := h
  have hm' : ¬ (msec ≠ 0 ∧ w.dFlag ≠ .readOnly) := by tauto
  unfold queryTLoop
  rw [invoke_bind, invoke_get]
  simp only [if_neg hm']
  rw [invoke_bind, invoke_onDb, MiniSQLite.invoke_prepare_ok _ _ _ hq hp]
  simp only
  rw [invoke_bind, bindQuery_eq, invoke_bindValues _ _ _ _ _
    (s := ⟨q, List.replicate (E.params q) .null, false⟩) (by simp) rfl]
  simp only [hb]
  rw [invoke_onDb, MiniSQLite.invoke_execPrepLoop P true (s := ⟨q, binds, false⟩) (by simp)]
  simp

/-- `queryT` returns the rows of the loop as maps, and leaves the same behind. -/
theorem queryT_refined (q : Bytes) (values : List VarT) (msec : UInt32) :
    (queryT q values msec).invoke (Conn.answer E) w c =
      (((queryTLoop P q values msec).invoke (Conn.answer E) w c).1.map (List.map ResultRow.find),
        ((queryTLoop P q values msec).invoke (Conn.answer E) w c).2) := by
  unfold queryT queryGen queryTLoop
  refine invoke_bind_map _ _ _ fun w' v t => ?_
  by_cases hm : msec ≠ 0 ∧ w'.dFlag ≠ .readOnly
  · simp only [if_pos hm]
    rfl
  simp only [if_neg hm]
  refine invoke_bind_map _ _ _ fun u v t => invoke_bind_map _ _ _ fun u v t => ?_
  rw [invoke_onDb, invoke_onDb, MiniSQLite.invoke_execPrep_loop P]

/-- The row map holds a column's value under its name and nothing else, where the names are
distinct. -/
def Decodes (cells : List (Bytes × Value)) (row : ResultRow) : Prop :=
  (cells.map (·.1)).Nodup → ∀ name x, row.find name = some x ↔ ∃ v, (name, v) ∈ cells ∧ outvar v = x

/-- The statement is reset and no parameter is bound. -/
def Cleared (stmt : Stmt) : Prop := stmt.busy = false ∧ ∀ v ∈ stmt.binds, v = .null

/-- A query whose text holds a statement and that comes to be stepped returns if and only if the steps
end in `SQLITE_DONE`, and then its result has one map for each row in order; either way its statement is
left reset and cleared. One that does not come so far throws, and none leaves a handler. -/
theorem queryT_all_or_nothing (hc : c.progress = none) (q : Bytes) (hq : Sql.blank q = false)
    (values : List VarT) (msec : UInt32) :
    let r := (queryTLoop P q values msec).invoke (Conn.answer E) w c
    r.2.2.progress = none ∧
    (∀ binds, Bound E w c q values msec binds →
      let s := ((MiniSQLite.limited c msec).step q binds true).1
      ((∃ rows, r.1 = .ok rows) ↔ s.rc = none) ∧
      (∀ rows, r.1 = .ok rows → List.Forall₂ Decodes s.rows rows) ∧
      ∃ stmt, r.2.1.dDb.dStmts [] = some stmt ∧ Cleared stmt) ∧
    ((∀ binds, ¬ Bound E w c q values msec binds) → (∃ e, r.1 = .error e) ∧ r.2.2 = c) := by
  intro r
  have hunbound := queryTLoop_unbound P w c hq values msec
  refine ⟨?_, fun binds hb => ?_, hunbound⟩
  · by_cases h : ∃ binds, Bound E w c q values msec binds
    · obtain ⟨binds, hb⟩ := h
      simp only [r, queryTLoop_bound P w c hq hb, MiniSQLite.released, MiniSQLite.limited]
      split_ifs
      · rw [Conn.step_progress, hc]
      · rfl
    · rw [(hunbound fun binds hb => h ⟨binds, hb⟩).2, hc]
  · have hr := queryTLoop_bound P w c hq hb
    simp only at hr
    simp only [r, hr]
    have hloop : ∀ s : Stepped, MiniSQLite.loopResult P true s = match s.rc with
        | none => .ok (s.rows.map decoded)
        | some rc => .error (MiniSQLite.stepFailed rc) :=
      fun s => stepLoop_wanted P s.rc ResultRow.empty [] s.rows
    generalize ((MiniSQLite.limited c msec).step q binds true).1 = s
    refine ⟨?_, fun rows hrows => ?_, ⟨_, by simp; rfl, rfl, ?_⟩⟩
    · rw [hloop]
      cases s.rc with
      | none => simp
      | some code => simp
    · rw [hloop] at hrows
      cases hrc : s.rc with
      | some code =>
        rw [hrc] at hrows
        cases hrows
      | none =>
        rw [hrc] at hrows
        obtain rfl : s.rows.map decoded = rows := by simpa using hrows
        refine List.forall₂_map_right_iff.mpr (List.forall₂_same.mpr fun cells _ hnodup name x => ?_)
        rw [find_decoded, decodeRow_eq_some hnodup]
    · simp [MiniSQLite.resetStmt]

/-- The columns as the library presents them: a text ends with a NUL, and an empty blob is a null
pointer. -/
def presented : Presenter where
  column
    | (name, .null) => ⟨name, .null, none, none, 0, 0, 0⟩
    | (name, .integer i) => ⟨name, .integer, none, none, 0, 0, i⟩
    | (name, .real bits) => ⟨name, .float, none, none, 0, bits, 0⟩
    | (name, .text b) => ⟨name, .text, some (b ++ [0]), none, b.length, 0, 0⟩
    | (name, .blob b) => ⟨name, .blob, none, if b.isEmpty then none else some b, b.length, 0, 0⟩
  name
    | (_, .null) | (_, .integer _) | (_, .real _) | (_, .text _) | (_, .blob _) => rfl
  presents
    | (_, .null) => rfl
    | (_, .integer _) | (_, .real _) => ⟨rfl, rfl⟩
    | (_, .text b) => ⟨rfl, rfl, List.prefix_append b [0]⟩
    | (_, .blob b) => by
      refine ⟨rfl, rfl, ?_⟩
      cases b with
      | nil => rfl
      | cons c b => exact List.prefix_rfl

/-- A writer that has stored one row. -/
def oneRow : Sys Reference.engine :=
  (Sys.start Reference.engine .noFlag (fun _ _ => []) Db.empty).step
    (.call ⟨ascii "data", [(ascii "a", .int32 1)], false⟩)

theorem queryT_all_or_nothing_oneRow :
    ∃ rows, ((queryTLoop presented (ascii "select * from \"data\"") [] 0).invoke
      (Conn.answer Reference.engine) oneRow.writer oneRow.conn).1 = .ok rows := by
  have hbound : Bound Reference.engine oneRow.writer oneRow.conn (ascii "select * from \"data\"") [] 0 [] := by
    refine ⟨Or.inl rfl, ?_, ?_⟩ <;> decide +kernel
  have hall := queryT_all_or_nothing presented oneRow.writer oneRow.conn (by decide +kernel)
    (ascii "select * from \"data\"") (by decide +kernel) [] 0
  exact (hall.2.1 [] hbound).1.mpr (by decide +kernel)

/-- With a value more than the statement has parameters, the query throws although stepping the
statement would have succeeded, and the value that was bound stays on the statement. -/
theorem failed_bind_keeps_bindings :
    let q := ascii "insert into \"data\" ('a') values (?)"
    let r := (queryTLoop presented q [.int32 7, .int32 8] 0).invoke (Conn.answer Reference.engine)
      oneRow.writer oneRow.conn
    (oneRow.conn.step q [.integer 7] true).1.rc = none ∧ (¬ ∃ rows, r.1 = .ok rows) ∧
      ¬ ∃ stmt, r.2.1.dDb.dStmts [] = some stmt ∧ Cleared stmt := by
  intro q r
  have hrun : (oneRow.conn.step q [.integer 7] true).1.rc = none ∧ r.1.toBool = false ∧
      r.2.1.dDb.dStmts [] = some ⟨q, [.integer 7], false⟩ := by decide +kernel
  obtain ⟨hdone, hthrown, hstmt⟩ := hrun
  refine ⟨hdone, fun ⟨rows, hrows⟩ => ?_, fun ⟨stmt, hheld, _, hnull⟩ => ?_⟩
  · rw [hrows] at hthrown
    cases hthrown
  · rw [hstmt] at hheld
    obtain rfl := Option.some.inj hheld
    cases hnull (.integer 7) List.mem_cons_self

end SQLiteWriter
end SqliteWrite
