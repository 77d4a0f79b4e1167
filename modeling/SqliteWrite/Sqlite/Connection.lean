import SqliteWrite.Lib.Script
import SqliteWrite.Sqlite.Sql

/-! The SQLite library as the sources call it. What a statement does to the database is a
parameter, the engine; connections, transactions and the C interface are defined over it. -/
namespace SqliteWrite

/-- The values that SQLite stores; a real is its IEEE 754 bit pattern. -/
inductive Value
  | null
  | integer (i : Int64)
  | real (bits : UInt64)
  | text (b : Bytes)
  | blob (b : Bytes)
  deriving DecidableEq, Repr

structure Timespec where
  sec : ℤ
  nsec : ℤ
  deriving DecidableEq, Repr

/-- The arguments of the `sqlite3_bind_*` functions; a length is a C `int`. -/
inductive BindArg
  | int (v : Int32)
  | int64 (v : Int64)
  | double (bits : UInt64)
  | null
  | text (p : Bytes) (n : Int32)
  | blob (p : Bytes) (n : Int32)
  | zeroblob (n : Int32)
  deriving DecidableEq, Repr

/-- How `sqlite3_exec` of one text ends: the database after it, or the loss of the whole
enclosing transaction. A cell is a C string or a null pointer. -/
inductive Answer (δ : Type)
  | ok (rows : List (List (Option Bytes))) (db : δ)
  | error (msg : Bytes) (db : δ)
  | rollback (msg : Bytes)

/-- How the last `sqlite3_step` of a statement ends. An error undoes the statement alone. -/
inductive Finish (δ : Type)
  | done (db : δ)
  | error (rc : ℕ)
  | rollback (rc : ℕ)

/-- The outcomes of stepping a statement to its end: its rows, then how it ends. -/
structure Steps (δ : Type) where
  rows : List (List (Bytes × Value))
  finish : Finish δ

/-- The decisions of SQLite about one database: executing and compiling a text, the number of
its parameters, binding a value, running a compiled text with its parameters while a progress
handler may be installed, and whether deferred foreign keys are violated. -/
structure Engine where
  Db : Type
  exec : Db → Bytes → Answer Db
  prepare : Db → Bytes → Except Bytes Unit
  params : Bytes → ℕ
  bind : BindArg → Except Bytes Value
  step : Db → Bytes → List Value → Option Timespec → Steps Db
  deferred : Db → Bool

/-- A connection: the database as it sees it, the one that is committed, and whether no
transaction is open. `ran` lists the data statements that `sqlite3_step` has run, and `fault` tells that
the library has looked behind a null pointer, which kills the process. -/
@[ext] structure Conn (E : Engine) where
  view : E.Db
  committed : E.Db
  autocommit : Bool
  progress : Option Timespec
  now : Timespec
  ran : List (Bytes × List Value)
  fault : Bool

/-- What the sources ask the library for. `clearNull` is `sqlite3_clear_bindings` of a null pointer. -/
inductive Request
  | exec (sql : Bytes)
  | prepare (sql : Bytes)
  | bind (arg : BindArg)
  | step (sql : Bytes) (binds : List Value) (rows : Bool)
  | clearNull
  | clock
  | progressHandler (ttd : Option Timespec)
  deriving DecidableEq, Repr

/-- The result of stepping: the rows, and no code for `SQLITE_DONE`. -/
structure Stepped where
  rows : List (List (Bytes × Value))
  rc : Option ℕ
  deriving DecidableEq, Repr

/-- The texts of `sqlite3_errstr` for the codes from 0 on; some codes have none. -/
def errstrs : List (Option String) :=
  [some "not an error", some "SQL logic error", none, some "access permission denied", some "query aborted",
    some "database is locked", some "database table is locked", some "out of memory",
    some "attempt to write a readonly database", some "interrupted", some "disk I/O error",
    some "database disk image is malformed", some "unknown operation", some "database or disk is full",
    some "unable to open database file", some "locking protocol", none, some "database schema has changed",
    some "string or blob too big", some "constraint failed", some "datatype mismatch",
    some "bad parameter or other API misuse", some "large file support is disabled",
    some "authorization denied", none, some "column index out of range", some "file is not a database",
    some "notification message", some "warning message"]

/-- `sqlite3_errstr`: an extended code has the text of its low byte. -/
def errstr (rc : ℕ) : Bytes :=
  if rc = 516 then ascii "abort due to ROLLBACK"
  else if rc = 100 then ascii "another row available"
  else if rc = 101 then ascii "no more rows available"
  else ascii (((errstrs[rc % 256]?).bind id).getD "unknown error")

abbrev Reply : Request → Type
  | .exec _ => Except Bytes (List (List (Option Bytes)))
  | .prepare _ => Except Bytes (Option ℕ)
  | .bind _ => Except Bytes Value
  | .step _ _ _ => Stepped
  | .clearNull => Unit
  | .clock => Timespec
  | .progressHandler _ => Unit

namespace Conn
variable {E : Engine}

/-- The result of a statement that succeeded; outside a transaction it is committed at once. -/
def put (c : Conn E) (db : E.Db) : Conn E :=
  { c with view := db, committed := if c.autocommit then db else c.committed }

/-- The transaction is rolled back and none is open any more. -/
def rollback (c : Conn E) : Conn E := { c with view := c.committed, autocommit := true }

def logged (c : Conn E) (sql : Bytes) (binds : List Value) : Conn E :=
  { c with ran := c.ran ++ [(sql, binds)] }

def foreignKeyFailed : Bytes := ascii "FOREIGN KEY constraint failed"

def begin (c : Conn E) : Except Bytes (List (List (Option Bytes))) × Conn E :=
  if c.autocommit then (.ok [], { c with autocommit := false })
  else (.error (ascii "cannot start a transaction within a transaction"), c)

def commit (c : Conn E) : Except Bytes (List (List (Option Bytes))) × Conn E :=
  if c.autocommit then (.error (ascii "cannot commit - no transaction is active"), c)
  else if E.deferred c.view then (.error foreignKeyFailed, c)
  else (.ok [], { c with committed := c.view, autocommit := true })

/-- The texts that steer the connection and not the database. -/
inductive Control
  | begin | commit | cycle | pragma (rows : List (List (Option Bytes)))

def control (sql : Bytes) : Option Control :=
  if sql = ascii "begin" then some .begin
  else if sql = ascii "commit" then some .commit
  else if sql = ascii "commit;begin" then some .cycle
  else if sql = ascii "PRAGMA journal_mode='wal'" then some (.pragma [[some (ascii "wal")]])
  else if sql = ascii "PRAGMA foreign_keys=ON" then some (.pragma [])
  else none

/-- A text that does not steer the connection. -/
def execText (c : Conn E) (sql : Bytes) : Except Bytes (List (List (Option Bytes))) × Conn E :=
  match E.exec c.view sql with
  | .ok rows db =>
    if c.autocommit && E.deferred db then (.error foreignKeyFailed, c) else (.ok rows, c.put db)
  | .error msg db => (.error msg, c.put db)
  | .rollback msg => (.error msg, c.rollback)

def exec (c : Conn E) (sql : Bytes) : Except Bytes (List (List (Option Bytes))) × Conn E :=
  match control sql with
  | some .begin => c.begin
  | some .commit => c.commit
  | some .cycle =>
    match c.commit with
    | (.ok _, c') => c'.begin
    | (.error e, c') => (.error e, c')
  | some (.pragma rows) => (.ok rows, c)
  | none => c.execText sql

/-- A statement is compiled again before it runs, so that it meets the present schema. A caller
that wants no rows abandons the statement at its first row. -/
def step (c : Conn E) (sql : Bytes) (binds : List Value) (rows : Bool) : Stepped × Conn E :=
  match E.prepare c.view sql with
  | .error _ => (⟨[], some 1⟩, c)
  | .ok _ =>
    let s := E.step c.view sql binds c.progress
    if !rows && !s.rows.isEmpty then (⟨s.rows, none⟩, c.logged sql binds)
    else match s.finish with
      | .done db =>
        if c.autocommit && E.deferred db then (⟨s.rows, some 787⟩, c.logged sql binds)
        else (⟨s.rows, none⟩, (c.logged sql binds).put db)
      | .error rc => (⟨s.rows, some rc⟩, c.logged sql binds)
      | .rollback rc => (⟨s.rows, some rc⟩, (c.logged sql binds).rollback)

@[simp] lemma put_ran (c : Conn E) (db : E.Db) : (c.put db).ran = c.ran := rfl
@[simp] lemma rollback_ran (c : Conn E) : c.rollback.ran = c.ran := rfl

@[simp] lemma execText_ran (c : Conn E) (sql : Bytes) : (c.execText sql).2.ran = c.ran := by
  unfold execText
  split
  · split_ifs <;> rfl
  · rfl
  · rfl

/-- A text is compiled: the number of its parameters, or nothing where it holds no statement. -/
def prepare (c : Conn E) (sql : Bytes) : Except Bytes (Option ℕ) :=
  if Sql.blank sql then .ok none else (E.prepare c.view sql).map fun _ => some (E.params sql)

/-- The library answers one request of a connection. -/
def answer (E : Engine) : (q : Request) → Conn E → Reply q × Conn E
  | .exec sql, c => c.exec sql
  | .prepare sql, c => (c.prepare sql, c)
  | .bind arg, c => (E.bind arg, c)
  | .step sql binds rows, c => c.step sql binds rows
  | .clearNull, c => ((), { c with fault := true })
  | .clock, c => (c.now, c)
  | .progressHandler ttd, c => ((), { c with progress := ttd })

/-- Whether SQLite answers the request by rolling back the enclosing transaction. -/
def rollsBack (c : Conn E) : Request → Bool
  | .exec sql => match E.exec c.view sql with
    | .rollback _ => true
    | _ => false
  | .step sql binds rows => match E.prepare c.view sql with
    | .error _ => false
    | .ok _ => match (E.step c.view sql binds c.progress).finish with
      | .rollback _ => rows || (E.step c.view sql binds c.progress).rows.isEmpty
      | _ => false
  | _ => false

end Conn
end SqliteWrite
