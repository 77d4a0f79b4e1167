import SqliteWrite.Sqlite.Connection

/-! `MiniSQLite`: the statement texts, the table of prepared statements and the transaction flag.
Every call of the C library is one request. -/
namespace SqliteWrite

/-- A prepared statement: its text, its bound parameters, and whether it was stepped and not
yet reset. -/
structure Stmt where
  sql : Bytes
  binds : List Value
  busy : Bool
  deriving DecidableEq, Repr

@[ext] structure MiniSQLite where
  dStmts : Bytes → Option Stmt
  dIntransaction : Bool

/-- A result value as `outvar_t` holds it. -/
inductive OutVar
  | double (bits : UInt64)
  | int64 (i : Int64)
  | string (b : Bytes)
  | blob (b : Bytes)
  | null
  deriving DecidableEq, Repr

def quoteTableName (table : Bytes) : Bytes :=
  match table.findIdx? (· == 46) with
  | none => ascii "\"" ++ table ++ ascii "\""
  | some pos => ascii "\"" ++ table.take pos ++ ascii "\".\"" ++ table.drop (pos + 1) ++ ascii "\""

/-- The schema and the table that a name stands for, split at its first dot. -/
def splitTable (table : Bytes) : Bytes × Bytes :=
  match table.findIdx? (· == 46) with
  | none => (ascii "main", table)
  | some pos => (table.take pos, table.drop (pos + 1))

def schemaText (table : Bytes) : Bytes :=
  ascii "SELECT cid,name,type FROM pragma_table_xinfo('" ++ (splitTable table).2 ++ ascii "', '" ++
    (splitTable table).1 ++ ascii "')"

def createText (table name type columnMeta : Bytes) : Bytes :=
  ascii "create table if not exists " ++ quoteTableName table ++ ascii " ( '" ++ name ++ ascii "' " ++
    type ++ ascii " " ++ columnMeta ++ ascii ") STRICT"

def alterText (table name type columnMeta : Bytes) : Bytes :=
  ascii "ALTER table " ++ quoteTableName table ++ ascii " add column \"" ++ name ++ ascii "\" " ++
    type ++ ascii " " ++ columnMeta

/-- `div(msec, 1000)` of an unsigned count, through the conversion to `int`. -/
def divMsec (msec : UInt32) : ℤ × ℤ :=
  (msec.toInt32.toInt.tdiv 1000, msec.toInt32.toInt.tmod 1000)

/-- The deadline that `DeadlineCatcher` stores. -/
def deadline (now : Timespec) (msec : UInt32) : Timespec :=
  let ttd : Timespec := ⟨now.sec + (divMsec msec).1, now.nsec + 1000000 * (divMsec msec).2⟩
  if ttd.nsec > 1000000000 then ⟨ttd.sec + 1, ttd.nsec - 1000000000⟩ else ttd

/-- The decode of one column of a result row. -/
def outvar : Value → OutVar
  | .text b => .string b
  | .blob b => .blob b
  | .real bits => .double bits
  | .integer i => .int64 i
  | .null => .null

/-- A row as the map from column name to value that the decode loop fills, a later column
replacing an earlier one of its name. -/
def decodeRow (cells : List (Bytes × Value)) : Bytes → Option OutVar :=
  cells.foldl (fun row cell => Function.update row cell.1 (some (outvar cell.2))) fun _ => none

namespace MiniSQLite

abbrev M := Method Request Reply MiniSQLite

/-! The calls of the C library. -/

def sqlite3Exec (sql : Bytes) : M (Except Bytes (List (List (Option Bytes)))) :=
  Method.ask (Request.exec sql)
def sqlite3Prepare (sql : Bytes) : M (Except Bytes (Option ℕ)) := Method.ask (Request.prepare sql)
def sqlite3Bind (arg : BindArg) : M (Except Bytes Value) := Method.ask (Request.bind arg)
def sqlite3Step (stmt : Stmt) (rows : Bool) : M Stepped :=
  Method.ask (Request.step stmt.sql stmt.binds rows)
def sqlite3ClearNull : M Unit := Method.ask Request.clearNull
def clockGettime : M Timespec := Method.ask Request.clock
def sqlite3ProgressHandler (ttd : Option Timespec) : M Unit := Method.ask (Request.progressHandler ttd)

def isPrepared (db : MiniSQLite) (table : Bytes) : Bool := (db.dStmts table).isSome

/-- Store the statement of a table. -/
def setStmt (db : MiniSQLite) (table : Bytes) (stmt : Option Stmt) : MiniSQLite :=
  { db with dStmts := Function.update db.dStmts table stmt }

def exec (str : Bytes) : M (List (List Bytes)) := do
  match ← sqlite3Exec str with
  | .error errstr => throw (ascii "Error executing sqlite3 query '" ++ str ++ ascii "': " ++ errstr)
  | .ok rows =>
    match rows.mapM (·.mapM id) with
    | some dRows => pure dRows
    | none => throw (ascii "basic_string: construction from null is not valid")

/-- Get field names and types from a table. -/
def getSchema (table : Bytes) : M (List (Bytes × Bytes)) := do
  let rows ← exec (schemaText table)
  pure (sortByFirst (rows.map fun r => (r.getD 1 [], r.getD 2 [])))

def haveTable (table : Bytes) : M Bool := do
  let schema ← getSchema table
  pure !schema.isEmpty

/-- Add a column to a table with a certain type. -/
def addColumn (table name type columnMeta : Bytes) : M Unit := do
  let known ← haveTable table
  let _ ← if !known then exec (createText table name type columnMeta)
    else exec (alterText table name type columnMeta)

/-- A text without a statement is compiled to a null pointer. -/
def prepare (table str : Bytes) : M Unit := do
  modify fun db => db.setStmt table none
  match ← sqlite3Prepare str with
  | .error errmsg => throw (ascii "Unable to prepare query " ++ str ++ ascii ": " ++ errmsg)
  | .ok none => pure ()
  | .ok (some params) =>
    modify fun db => db.setStmt table (some ⟨str, List.replicate params .null, false⟩)

def bindFailed (errstr : Bytes) : Bytes := ascii "Error binding value to prepared statement: " ++ errstr

/-- Bind one parameter, counted from 1; `checkBind` throws on any code but `SQLITE_OK`. -/
def bindPrep (table : Bytes) (idx : ℕ) (arg : BindArg) : M Unit := do
  match (← get).dStmts table with
  | none => throw (bindFailed (errstr 21))
  | some stmt =>
    if stmt.busy then throw (bindFailed (errstr 21))
    else if idx = 0 ∨ stmt.binds.length < idx then throw (bindFailed (errstr 25))
    else
      match ← sqlite3Bind arg with
      | .error errstr => throw (bindFailed errstr)
      | .ok value =>
        modify fun db => db.setStmt table (some { stmt with binds := stmt.binds.set (idx - 1) value })

def stepFailed (rc : ℕ) : Bytes := ascii "Sqlite error " ++ decimal rc ++ ascii ": " ++ errstr rc

/-- Reset a statement and clear its bindings. -/
def resetStmt (stmt : Stmt) : Stmt :=
  { stmt with binds := List.replicate stmt.binds.length .null, busy := false }

/-- The loop over `sqlite3_step`: without a row vector, a row is an error. -/
def stepRows (rows : Bool) (s : Stepped) : Except Bytes (List (Bytes → Option OutVar)) :=
  if !rows && !s.rows.isEmpty then .error (stepFailed 100)
  else match s.rc with
    | none => .ok (s.rows.map decodeRow)
    | some rc => .error (stepFailed rc)

/-- Step the statement of a table to its end; with `rows`, collect the decoded rows. A positive
`msec` installs the progress handler for the time of the call. A null statement fails to step; it is
reset, which does nothing, and then its bindings are cleared. -/
def execPrep (table : Bytes) (rows : Bool) (msec : UInt32) : M (List (Bytes → Option OutVar)) := do
  if msec ≠ 0 then
    let now ← clockGettime
    sqlite3ProgressHandler (some (deadline now msec))
  let result ← match (← get).dStmts table with
    | none => do
      sqlite3ClearNull
      pure (.error (stepFailed 21))
    | some stmt => do
      modify fun db => db.setStmt table (some { stmt with busy := true })
      let s ← sqlite3Step stmt rows
      modify fun db => db.setStmt table (some (resetStmt stmt))
      pure (stepRows rows s)
  if msec ≠ 0 then sqlite3ProgressHandler none
  match result with
  | .ok decoded => pure decoded
  | .error e => throw e

def begin : M Unit := do
  modify fun db => { db with dIntransaction := true }
  let _ ← exec (ascii "begin")

def commit : M Unit := do
  modify fun db => { db with dIntransaction := false }
  let _ ← exec (ascii "commit")

def cycle : M Unit := do
  let _ ← exec (ascii "commit;begin")

/-- The constructor, on a connection that is just open. -/
def opened : M Unit := do
  let _ ← exec (ascii "PRAGMA journal_mode='wal'")
  let _ ← exec (ascii "PRAGMA foreign_keys=ON")

/-- The destructor, up to closing the connection. -/
def destroy : M Unit := do
  if (← get).dIntransaction then commit

end MiniSQLite
end SqliteWrite
