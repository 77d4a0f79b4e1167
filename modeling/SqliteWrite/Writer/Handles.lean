import SqliteWrite.Lib.Heap
import SqliteWrite.Lib.Lockstep
import SqliteWrite.Writer.StepLoop

/-! The statements behind their handles. `sqlite3_prepare_v2` makes a statement and gives out its address,
under which it is bound, stepped, reset and at last finalized; the writer keeps the address of one statement
for each table. A text that is blank or a comment has no statement, and its handle is null. -/
namespace SqliteWrite.Handles

/-- The library: a connection, the statements that live, and whether the connection was closed. -/
structure Library (E : Engine) extends Conn E where
  stmts : Heap Stmt
  closed : Bool

/-- The calls of the C library that take a handle, and the other ones. -/
inductive HandleRequest
  | outside (q : Request)
  | prepare (sql : Bytes)
  | bind (stmt : Option ℕ) (idx : ℕ) (arg : BindArg)
  | step (stmt : Option ℕ) (rows : Bool)
  | reset (stmt : Option ℕ)
  | clearBindings (stmt : Option ℕ)
  | finalize (stmt : Option ℕ)
  | close

abbrev HandleReply : HandleRequest → Type
  | .outside q => Reply q
  | .prepare _ => Except Bytes (Option ℕ)
  | .bind _ _ _ => Except Bytes Unit
  | .step _ _ => Stepped
  | .reset _ | .clearBindings _ | .finalize _ | .close => Unit

namespace Library
variable {E : Engine} (P : Allocator) (l : Library E)

/-- A statement just made. -/
def compiled (sql : Bytes) (params : ℕ) : Stmt := ⟨sql, List.replicate params .null, false⟩

def prepare (sql : Bytes) : Except Bytes (Option ℕ) × Library E :=
  match l.toConn.prepare sql with
  | .error errmsg => (.error errmsg, l)
  | .ok none => (.ok none, l)
  | .ok (some params) => (.ok (some (l.stmts.next P (compiled sql params)).address),
      { l with stmts := l.stmts.alloc P (compiled sql params) })

/-- Null is no statement to bind; a handle that was finalized is a fault. -/
def bind (idx : ℕ) (arg : BindArg) : Option ℕ → Except Bytes Unit × Library E
  | none => (.error (errstr 21), l)
  | some a =>
    match l.stmts.load a with
    | (none, stmts) => (.error (errstr 21), { l with stmts := stmts })
    | (some stmt, _) =>
      if stmt.busy then (.error (errstr 21), l)
      else if idx = 0 ∨ stmt.binds.length < idx then (.error (errstr 25), l)
      else match E.bind arg with
        | .error errstr => (.error errstr, l)
        | .ok value =>
          (.ok (), { l with stmts := l.stmts.store a { stmt with binds := stmt.binds.set (idx - 1) value } })

def step (rows : Bool) : Option ℕ → Stepped × Library E
  | none => (⟨[], some 21⟩, l)
  | some a =>
    match l.stmts.load a with
    | (none, stmts) => (⟨[], some 21⟩, { l with stmts := stmts })
    | (some stmt, _) =>
      ((l.toConn.step stmt.sql stmt.binds rows).1,
        { l with
          toConn := (l.toConn.step stmt.sql stmt.binds rows).2
          stmts := l.stmts.store a { stmt with busy := true } })

/-- A statement is changed where it lives. -/
def update (f : Stmt → Stmt) (a : ℕ) : Library E :=
  match l.stmts.load a with
  | (none, stmts) => { l with stmts := stmts }
  | (some stmt, _) => { l with stmts := l.stmts.store a (f stmt) }

/-- `sqlite3_reset` takes null for a statement that needs none. -/
def reset : Option ℕ → Library E
  | none => l
  | some a => l.update MiniSQLite.sqlite3Reset a

/-- `sqlite3_clear_bindings` looks behind its handle, also when it is null. -/
def clearBindings : Option ℕ → Library E
  | none => { l with toConn := { l.toConn with fault := true } }
  | some a => l.update MiniSQLite.sqlite3ClearBindings a

def finalize : Option ℕ → Library E
  | none => l
  | some a => { l with stmts := l.stmts.free a }

/-- A connection is closed only when no statement of it is left. -/
def close : Library E := if l.stmts.live.isEmpty then { l with closed := true } else l

/-- The library answers a call. -/
def answer (E : Engine) : (q : HandleRequest) → Library E → HandleReply q × Library E
  | .outside q, l => ((Conn.answer E q l.toConn).1, { l with toConn := (Conn.answer E q l.toConn).2 })
  | .prepare sql, l => l.prepare P sql
  | .bind stmt idx arg, l => l.bind idx arg stmt
  | .step stmt rows, l => l.step rows stmt
  | .reset stmt, l => ((), l.reset stmt)
  | .clearBindings stmt, l => ((), l.clearBindings stmt)
  | .finalize stmt, l => ((), l.finalize stmt)
  | .close, l => ((), l.close)

end Library

/-- A writer: the handles of `d_stmts` that are not null, and its other fields. -/
structure Writer where
  fields : SQLiteWriter
  handles : List (Bytes × ℕ)

/-- The methods of a writer whose statements are behind handles. -/
abbrev M := Method HandleRequest HandleReply Writer

namespace Writer

/-- `d_stmts[table]`. -/
def stmt (w : Writer) (table : Bytes) : Option ℕ := (w.handles.find? fun e => e.1 = table).map (·.2)

/-- `d_stmts[table] = stmt`. -/
def setStmt (w : Writer) (table : Bytes) (stmt : Option ℕ) : Writer :=
  { w with handles := (stmt.map (table, ·)).toList ++ w.handles.filter fun e => e.1 ≠ table }

/-! The calls of the C library. -/

def sqlite3Prepare (sql : Bytes) : M (Except Bytes (Option ℕ)) := Method.ask (HandleRequest.prepare sql)
def sqlite3Bind (stmt : Option ℕ) (idx : ℕ) (arg : BindArg) : M (Except Bytes Unit) :=
  Method.ask (HandleRequest.bind stmt idx arg)
def sqlite3Step (stmt : Option ℕ) (rows : Bool) : M Stepped := Method.ask (HandleRequest.step stmt rows)
def sqlite3Reset (stmt : Option ℕ) : M Unit := Method.ask (HandleRequest.reset stmt)
def sqlite3ClearBindings (stmt : Option ℕ) : M Unit := Method.ask (HandleRequest.clearBindings stmt)
def sqlite3Finalize (stmt : Option ℕ) : M Unit := Method.ask (HandleRequest.finalize stmt)
def sqlite3Close : M Unit := Method.ask HandleRequest.close
def clockGettime : M Timespec := Method.ask (HandleRequest.outside .clock)
def sqlite3ProgressHandler (ttd : Option Timespec) : M Unit :=
  Method.ask (HandleRequest.outside (.progressHandler ttd))

section Calls
variable {E : Engine} {P : Allocator} (w : Writer) (l : Library E) (stmt : Option ℕ)

@[simp] lemma invoke_sqlite3Prepare (sql : Bytes) : (sqlite3Prepare sql).invoke (Library.answer P E) w l =
    (.ok (l.prepare P sql).1, w, (l.prepare P sql).2) := rfl

@[simp] lemma invoke_sqlite3Bind (idx : ℕ) (arg : BindArg) :
    (sqlite3Bind stmt idx arg).invoke (Library.answer P E) w l =
      (.ok (l.bind idx arg stmt).1, w, (l.bind idx arg stmt).2) := rfl

@[simp] lemma invoke_sqlite3Step (rows : Bool) : (sqlite3Step stmt rows).invoke (Library.answer P E) w l =
    (.ok (l.step rows stmt).1, w, (l.step rows stmt).2) := rfl

@[simp] lemma invoke_sqlite3Reset : (sqlite3Reset stmt).invoke (Library.answer P E) w l =
    (.ok (), w, l.reset stmt) := rfl

@[simp] lemma invoke_sqlite3ClearBindings : (sqlite3ClearBindings stmt).invoke (Library.answer P E) w l =
    (.ok (), w, l.clearBindings stmt) := rfl

@[simp] lemma invoke_sqlite3Finalize : (sqlite3Finalize stmt).invoke (Library.answer P E) w l =
    (.ok (), w, l.finalize stmt) := rfl

@[simp] lemma invoke_sqlite3Close : sqlite3Close.invoke (Library.answer P E) w l =
    (.ok (), w, l.close) := rfl

@[simp] lemma invoke_clockGettime : clockGettime.invoke (Library.answer P E) w l = (.ok l.now, w, l) := rfl

@[simp] lemma invoke_sqlite3ProgressHandler (ttd : Option Timespec) :
    (sqlite3ProgressHandler ttd).invoke (Library.answer P E) w l =
      (.ok (), w, { l with toConn := { l.toConn with progress := ttd } }) := rfl

end Calls

/-- What touches no statement. -/
def outside {α : Type} (m : SQLiteWriter.M α) : M α :=
  (m.embed HandleRequest.outside fun _ r => r).onMember (·.fields) fun fields w => { w with fields := fields }

/-- The statement of a table is finalized, if there is one. -/
def discard (table : Bytes) : M Unit := do
  let w ← get
  if (w.stmt table).isSome then
    sqlite3Finalize (w.stmt table)
    modify fun w => w.setStmt table none

def prepare (table str : Bytes) : M Unit := do
  discard table
  match ← sqlite3Prepare str with
  | .error errmsg => throw (ascii "Unable to prepare query " ++ str ++ ascii ": " ++ errmsg)
  | .ok stmt => modify fun w => w.setStmt table stmt

def bindPrep (table : Bytes) (idx : ℕ) (arg : BindArg) : M Unit := do
  let w ← get
  match ← sqlite3Bind (w.stmt table) idx arg with
  | .error errstr => throw (MiniSQLite.bindFailed errstr)
  | .ok _ => pure ()

/-- Step a statement to its end, after which it is reset and its bindings are cleared, also when that
throws. -/
def stepStmt (table : Bytes) (rows : Bool) : M (Except Bytes (List (Bytes → Option OutVar))) := do
  let w ← get
  let s ← sqlite3Step (w.stmt table) rows
  match MiniSQLite.stepRows rows s with
  | .error e =>
    sqlite3Reset (w.stmt table)
    sqlite3ClearBindings (w.stmt table)
    pure (.error e)
  | .ok decoded =>
    sqlite3Reset (w.stmt table)
    sqlite3ClearBindings (w.stmt table)
    pure (.ok decoded)

def execPrep (table : Bytes) (rows : Bool) (msec : UInt32) : M (List (Bytes → Option OutVar)) := do
  if msec ≠ 0 then
    let now ← clockGettime
    sqlite3ProgressHandler (some (deadline now msec))
  let result ← stepStmt table rows
  if msec ≠ 0 then sqlite3ProgressHandler none
  match result with
  | .ok decoded => pure decoded
  | .error e => throw e

def rebuild (table : Bytes) (values : Fields) (replace : Bool) : M Unit := do
  let (q, qmarks) ← outside (SQLiteWriter.columnLoop table true (insertHead replace table) [] values)
  prepare table (q ++ ascii ") values (" ++ qmarks ++ ascii ")")
  outside (modify fun w => w.setSignature table (values.map (·.1)) replace)

def bindValues (table : Bytes) : ℕ → Fields → M Unit
  | _, [] => pure ()
  | n, p :: values => do
    bindPrep table n (bindArg p.2)
    bindValues table (n + 1) values

/-- Whether the statement held for a table is the one that the call needs. -/
def cached (w : Writer) (table : Bytes) (values : Fields) (replace : Bool) : Bool :=
  (w.stmt table).isSome && w.fields.dLastreplace table == replace &&
    values.map (·.1) == w.fields.dLastsig table

def addValueGeneric (table : Bytes) (values : Fields) (replace : Bool) : M Unit := do
  let w ← get
  if w.fields.dFlag = .readOnly then
    throw (ascii "Attempting to write to a read-only database instance")
  else
    if !w.cached table values replace then rebuild table values replace
    bindValues table 1 values
    let _ ← execPrep table false 0

def bindQuery : ℕ → List VarT → M Unit
  | _, [] => pure ()
  | n, p :: values => do
    bindPrep [] n (bindArg p)
    bindQuery (n + 1) values

def queryGen (q : Bytes) (values : List VarT) (msec : UInt32) : M (List (Bytes → Option OutVar)) := do
  let w ← get
  if msec ≠ 0 ∧ w.fields.dFlag ≠ .readOnly then
    throw (ascii "Timeout only possible for read-only connections")
  prepare [] q
  bindQuery 1 values
  execPrep [] true msec

/-- The pass of the commit thread. -/
def cycle : M Unit := outside (SQLiteWriter.onDb MiniSQLite.cycle)

/-- The destructor: it finalizes what statements there are, in any order, and closes the connection. -/
def destroy : M Unit := do
  outside (SQLiteWriter.onDb MiniSQLite.destroy)
  let w ← get
  w.handles.forM fun e => sqlite3Finalize (some e.2)
  sqlite3Close

end Writer

/-- A writer in use. -/
structure System (E : Engine) where
  writer : Writer
  library : Library E
  n : ℕ
  crashed : Bool
  history : List (Call × Except Bytes Unit)

namespace System
variable {E : Engine} (P : Allocator)

/-- A writer just constructed; its constructor makes no statement. -/
def start (E : Engine) (flag : SQLWFlag) (columnMeta : Bytes → Bytes → Bytes) (db : E.Db) : System E :=
  ⟨⟨(Sys.start E flag columnMeta db).writer, []⟩, ⟨(Sys.start E flag columnMeta db).conn, Heap.empty, false⟩, 0, false, []⟩

def addCall (s : System E) (k : Call) : System E :=
  let r := (Writer.addValueGeneric k.table k.values k.replace).invoke (Library.answer P E) s.writer s.library
  { s with writer := r.2.1, library := r.2.2, history := s.history ++ [(k, r.1)] }

def commitThread (s : System E) : System E :=
  if s.n % 20 = 0 then
    let r := Writer.cycle.invoke (Library.answer P E) s.writer s.library
    { s with writer := r.2.1, library := r.2.2, n := s.n + 1, crashed := !r.1.isOk }
  else { s with n := s.n + 1 }

/-- One use of the writer. -/
def use (s : System E) (u : Use) : System E :=
  if s.crashed then s
  else match u with
    | .event (.call k) => s.addCall P k
    | .event .poll => if s.writer.fields.dFlag = .noFlag then s.commitThread P else s
    | .query q values msec =>
      let r := (Writer.queryGen q values msec).invoke (Library.answer P E) s.writer s.library
      { s with writer := r.2.1, library := r.2.2 }

def uses (s : System E) (us : List Use) : System E := us.foldl (use P) s

/-- The destructors, after the commit thread has been joined. -/
def destroy (s : System E) : System E :=
  if s.crashed then s
  else
    let r := Writer.destroy.invoke (Library.answer P E) s.writer s.library
    { s with writer := r.2.1, library := r.2.2, crashed := !r.1.isOk }

end System
end SqliteWrite.Handles
