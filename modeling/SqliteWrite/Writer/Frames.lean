import SqliteWrite.Writer.MethodSpecs

/-! What the methods do not look at. A change of the object that a method neither reads nor
overwrites may be made before the call or after it. -/
namespace SqliteWrite
open Method

namespace MiniSQLite
variable {ψ : MiniSQLite → MiniSQLite}

/-! The statements about the schema look at no field of the object. -/

lemma frame_exec (str : Bytes) : (exec str).Frame ψ := by
  refine Frame.bind (Frame.ask _) fun r => ?_
  cases r with
  | error e => exact Frame.throw _
  | ok rows =>
    simp only
    cases rows.mapM (·.mapM id) with
    | none => exact Frame.throw _
    | some d => exact Frame.pure _

lemma frame_getSchema (table : Bytes) : (getSchema table).Frame ψ :=
  Frame.bind (frame_exec _) fun _ => Frame.pure _

lemma frame_addColumn (table name type columnMeta : Bytes) :
    (addColumn table name type columnMeta).Frame ψ := by
  refine Frame.bind (Frame.bind (frame_getSchema table) fun _ => Frame.pure _) fun known => ?_
  cases known with
  | true => exact Frame.bind (frame_exec _) fun _ => Frame.pure _
  | false => exact Frame.bind (frame_exec _) fun _ => Frame.pure _

/-- The transaction flag is set. -/
def setIntransaction (b : Bool) (db : MiniSQLite) : MiniSQLite := { db with dIntransaction := b }

@[simp] lemma setIntransaction_dStmts (b : Bool) (db : MiniSQLite) :
    (db.setIntransaction b).dStmts = db.dStmts := rfl

lemma setIntransaction_setStmt (b : Bool) (db : MiniSQLite) (table : Bytes) (s : Option Stmt) :
    (db.setIntransaction b).setStmt table s = (db.setStmt table s).setIntransaction b := rfl

/-- A change of the object that keeps the statement of a table. -/
structure KeepsStmt (ψ : MiniSQLite → MiniSQLite) (table : Bytes) : Prop where
  dStmts : ∀ db, (ψ db).dStmts table = db.dStmts table
  setStmt : ∀ db s, (ψ db).setStmt table s = ψ (db.setStmt table s)

lemma keepsStmt_setIntransaction (b : Bool) (table : Bytes) : KeepsStmt (setIntransaction b) table :=
  ⟨fun _ => rfl, fun db s => setIntransaction_setStmt b db table s⟩

lemma keepsStmt_setStmt {table other : Bytes} (h : table ≠ other) (o : Option Stmt) :
    KeepsStmt (·.setStmt other o) table := by
  refine ⟨fun db => by simp [Function.update_of_ne h], fun db s => ?_⟩
  unfold MiniSQLite.setStmt
  rw [Function.update_comm h]

/-! The methods on the statement of a table look at no other field. -/
section Stmt
variable {table : Bytes} (hψ : KeepsStmt ψ table)
include hψ

lemma frame_modifyStmt (s : Option Stmt) :
    (modify fun db => db.setStmt table s : M PUnit).Frame ψ := Frame.modify fun db => hψ.setStmt db s

lemma frame_prepare (str : Bytes) : (prepare table str).Frame ψ := by
  refine Frame.bind (frame_modifyStmt hψ none) fun _ => Frame.bind (Frame.ask _) fun r => ?_
  cases r with
  | error e => exact Frame.throw _
  | ok n =>
    cases n with
    | none => exact Frame.pure _
    | some params => exact frame_modifyStmt hψ _

lemma frame_bindPrep (idx : ℕ) (arg : BindArg) : (bindPrep table idx arg).Frame ψ := by
  refine Frame.get_bind (fun db => by simp only [hψ.dStmts]) fun db => ?_
  cases db.dStmts table with
  | none => exact Frame.throw _
  | some stmt =>
    simp only
    split_ifs
    · exact Frame.throw _
    · exact Frame.throw _
    · refine Frame.bind (Frame.ask _) fun r => ?_
      cases r with
      | error e => exact Frame.throw _
      | ok v => exact frame_modifyStmt hψ _

omit hψ in
lemma frame_result {α β : Type} {k : Except Bytes α → M β} (hok : ∀ v, (k (.ok v)).Frame ψ)
    (herror : ∀ e, (k (.error e)).Frame ψ) (r : Except Bytes α) : (k r).Frame ψ := by
  cases r with
  | ok v => exact hok v
  | error e => exact herror e

lemma frame_execPrep (rows : Bool) : (execPrep table rows 0).Frame ψ := by
  unfold execPrep
  simp only [ne_eq, not_true_eq_false, if_false]
  refine Frame.get_bind (fun db => by simp only [hψ.dStmts]) fun db => ?_
  cases db.dStmts table with
  | none =>
    exact Frame.bind (Frame.ask _) fun _ =>
      Frame.bind (Frame.pure _) (frame_result (fun _ => Frame.pure _) fun _ => Frame.throw _)
  | some stmt =>
    exact Frame.bind (frame_modifyStmt hψ _) fun _ => Frame.bind (Frame.ask _) fun s =>
      Frame.bind (frame_modifyStmt hψ _) fun _ =>
        Frame.bind (Frame.pure _) (frame_result (fun _ => Frame.pure _) fun _ => Frame.throw _)

end Stmt
end MiniSQLite

namespace SQLiteWriter

/-- A change of the writer, and of its member `d_db`, that keeps the column cache and the
metas. -/
structure KeepsColumns (φ : SQLiteWriter → SQLiteWriter) (ψ : MiniSQLite → MiniSQLite) : Prop where
  dDb : ∀ w, (φ w).dDb = ψ w.dDb
  dColumns : ∀ w, (φ w).dColumns = w.dColumns
  dMeta : ∀ w, (φ w).dMeta = w.dMeta
  setDb : ∀ w db, (φ w).setDb (ψ db) = φ (w.setDb db)
  setColumns : ∀ w table cols, (φ w).setColumns table cols = φ (w.setColumns table cols)

section Columns
variable {φ : SQLiteWriter → SQLiteWriter} {ψ : MiniSQLite → MiniSQLite} (hφ : KeepsColumns φ ψ)
include hφ

lemma frame_onDb {α : Type} {m : MiniSQLite.M α} (hm : m.Frame ψ) : (onDb m).Frame φ :=
  Frame.onMember hm hφ.dDb fun db w => hφ.setDb w db

lemma frame_haveColumn (table name : Bytes) : (haveColumn table name).Frame φ := by
  have hrest : (do let w ← get
                   pure (binarySearch firstLt (w.dColumns table) (name, [])) : M Bool).Frame φ :=
    Frame.get_bind (fun w => by simp only [hφ.dColumns]) fun _ => Frame.pure _
  refine Frame.get_bind (fun w => by simp only [hφ.dColumns]) fun w => ?_
  cases (w.dColumns table).isEmpty with
  | true =>
    exact Frame.bind (frame_onDb hφ (MiniSQLite.frame_getSchema table)) fun schema =>
      Frame.bind (Frame.modify fun w => hφ.setColumns w table schema) fun _ => hrest
  | false => exact hrest

lemma frame_createColumn (table : Bytes) (p : Bytes × VarT) : (createColumn table p).Frame φ := by
  refine Frame.get_bind (fun w => by simp only [hφ.dMeta]) fun w => ?_
  refine Frame.bind (frame_onDb hφ (MiniSQLite.frame_addColumn _ _ _ _)) fun _ => ?_
  exact Frame.modify fun w => by rw [hφ.dColumns, hφ.setColumns]

lemma frame_columnLoop (table : Bytes) (first : Bool) (q qmarks : Bytes) (values : Fields) :
    (columnLoop table first q qmarks values).Frame φ := by
  induction values generalizing first q qmarks with
  | nil => exact Frame.pure _
  | cons p values ih =>
    refine Frame.bind (frame_haveColumn hφ table p.1) fun known => ?_
    cases known with
    | true => exact ih false _ _
    | false => exact Frame.bind (frame_createColumn hφ table p) fun _ => ih false _ _

end Columns

lemma keepsColumns_setDb (db : MiniSQLite) : KeepsColumns (·.setDb db) fun _ => db :=
  ⟨fun _ => rfl, fun _ => rfl, fun _ => rfl, fun _ _ => rfl, fun _ _ _ => rfl⟩

/-- A change of the writer that a call on a table does not notice, but for the mode. -/
structure KeepsCall (φ : SQLiteWriter → SQLiteWriter) (ψ : MiniSQLite → MiniSQLite) (table : Bytes) :
    Prop extends KeepsColumns φ ψ where
  stmt : MiniSQLite.KeepsStmt ψ table
  dLastsig : ∀ w, (φ w).dLastsig = w.dLastsig
  dLastreplace : ∀ w, (φ w).dLastreplace = w.dLastreplace
  setSignature : ∀ w sig replace, (φ w).setSignature table sig replace = φ (w.setSignature table sig replace)

section Calls
variable {φ : SQLiteWriter → SQLiteWriter} {ψ : MiniSQLite → MiniSQLite} {table : Bytes}
  (hφ : KeepsCall φ ψ table)
include hφ

lemma KeepsCall.cached (w : SQLiteWriter) (values : Fields) (replace : Bool) :
    (φ w).cached table values replace = w.cached table values replace := by
  unfold SQLiteWriter.cached MiniSQLite.isPrepared
  rw [hφ.dDb, hφ.stmt.dStmts, hφ.dLastsig, hφ.dLastreplace]

lemma frame_rebuild (values : Fields) (replace : Bool) : (rebuild table values replace).Frame φ := by
  refine Frame.bind (frame_columnLoop hφ.toKeepsColumns table _ _ _ values) fun r => ?_
  refine Frame.bind (frame_onDb hφ.toKeepsColumns (MiniSQLite.frame_prepare hφ.stmt _)) fun _ => ?_
  exact Frame.modify fun w => hφ.setSignature w _ replace

lemma frame_bindValues (n : ℕ) (values : Fields) : (bindValues table n values).Frame φ := by
  induction values generalizing n with
  | nil => exact Frame.pure _
  | cons p values ih =>
    exact Frame.bind (frame_onDb hφ.toKeepsColumns (MiniSQLite.frame_bindPrep hφ.stmt n _))
      fun _ => ih _

/-- A call is the same in both modes that may write, and in both that may not. -/
theorem script_addValueGeneric_frame (w : SQLiteWriter)
    (hw : (φ w).dFlag = .readOnly ↔ w.dFlag = .readOnly) (values : Fields) (replace : Bool) :
    (addValueGeneric table values replace).script (φ w) =
      (addValueGeneric table values replace).script w >>= fun r => pure (r.1, φ r.2) := by
  have htail : (do bindValues table 1 values
                   let _ ← onDb (MiniSQLite.execPrep table false 0) : M Unit).Frame φ :=
    Frame.bind (frame_bindValues hφ 1 values) fun _ =>
      Frame.bind (frame_onDb hφ.toKeepsColumns (MiniSQLite.frame_execPrep hφ.stmt false)) fun _ =>
        Frame.pure _
  unfold addValueGeneric
  rw [script_get_bind, script_get_bind, hφ.cached]
  by_cases hf : w.dFlag = .readOnly
  · simp only [hf, hw.mpr hf, if_true]
    rfl
  · have hf' : (φ w).dFlag ≠ .readOnly := fun h => hf (hw.mp h)
    simp only [hf, hf', if_false]
    cases w.cached table values replace with
    | true => exact htail w
    | false => exact (Frame.bind (frame_rebuild hφ values replace) fun _ => htail) w

end Calls

/-- The writer as it would be with another flag and another transaction flag. -/
def inMode (flag : SQLWFlag) (b : Bool) (w : SQLiteWriter) : SQLiteWriter :=
  { w with dFlag := flag, dDb := w.dDb.setIntransaction b }

section Mode
variable (flag : SQLWFlag) (b : Bool)

lemma keepsCall_inMode (table : Bytes) :
    KeepsCall (inMode flag b) (MiniSQLite.setIntransaction b) table :=
  ⟨⟨fun _ => rfl, fun _ => rfl, fun _ => rfl, fun _ _ => rfl, fun _ _ _ => rfl⟩,
    MiniSQLite.keepsStmt_setIntransaction b table, fun _ => rfl, fun _ => rfl, fun _ _ _ => rfl⟩

lemma inMode_self {w : SQLiteWriter} (hf : w.dFlag = flag) (hb : w.dDb.dIntransaction = b) :
    w.inMode flag b = w := by
  subst hf hb
  rfl

/-- A writer that may write does the same call in either mode. -/
theorem script_addValueGeneric_inMode (hflag : flag ≠ .readOnly) (w : SQLiteWriter)
    (hw : w.dFlag ≠ .readOnly) (table : Bytes) (values : Fields) (replace : Bool) :
    (addValueGeneric table values replace).script (w.inMode flag b) =
      (addValueGeneric table values replace).script w >>= fun r => pure (r.1, r.2.inMode flag b) :=
  script_addValueGeneric_frame (keepsCall_inMode flag b table) w
    ⟨fun h => absurd h hflag, fun h => absurd h hw⟩ values replace

end Mode

lemma keepsCall_setStmt {table other : Bytes} (h : table ≠ other) (o : Option Stmt) :
    KeepsCall (fun w => w.setDb (w.dDb.setStmt other o)) (·.setStmt other o) table :=
  ⟨⟨fun _ => rfl, fun _ => rfl, fun _ => rfl, fun _ _ => rfl, fun _ _ _ => rfl⟩,
    MiniSQLite.keepsStmt_setStmt h o, fun _ => rfl, fun _ => rfl, fun _ _ _ => rfl⟩

end SQLiteWriter
end SqliteWrite
