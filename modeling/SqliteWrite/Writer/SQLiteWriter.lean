import SqliteWrite.Writer.MiniSQLite

/-! `SQLiteWriter`: the column cache, the cached signatures and the call that writes one row. -/
namespace SqliteWrite

inductive SQLWFlag
  | noFlag | readOnly | noTransactions
  deriving DecidableEq, Repr

/-- A value to store, as `SQLiteWriter::var_t` holds it. -/
inductive VarT
  | double (bits : UInt64)
  | int32 (v : Int32)
  | uint32 (v : UInt32)
  | int64 (v : Int64)
  | string (b : Bytes)
  | blob (b : Bytes)
  | null
  deriving DecidableEq, Repr

abbrev Fields := List (Bytes × VarT)

/-- The type of a column that a value creates. -/
def columnType : VarT → Bytes
  | .double _ => ascii "REAL"
  | .string _ => ascii "TEXT"
  | .blob _ => ascii "BLOB"
  | _ => ascii "INT"

/-- The call of the C interface that the `bindPrep` overload of each alternative makes; a
length passes from `size_t` to `int`. -/
def bindArg : VarT → BindArg
  | .double bits => .double bits
  | .int32 v => .int v
  | .uint32 v => .int64 (Int64.ofNat v.toNat)
  | .int64 v => .int64 v
  | .string b => .text b (Int32.ofNat b.length)
  | .blob b => if b.isEmpty then .zeroblob 0 else .blob b (Int32.ofNat b.length)
  | .null => .null

@[ext] structure SQLiteWriter where
  dDb : MiniSQLite
  dFlag : SQLWFlag
  dColumns : Bytes → List (Bytes × Bytes)
  dLastsig : Bytes → List Bytes
  dLastreplace : Bytes → Bool
  dMeta : Bytes → Bytes → Bytes

/-- The separator in front of all but the first item of a list. -/
def listSep (first : Bool) : Bytes := if first then [] else ascii ", "

/-- The column list of an `INSERT`. -/
def columnList : Bool → List Bytes → Bytes
  | _, [] => []
  | first, name :: names =>
    listSep first ++ ascii "'" ++ name ++ ascii "'" ++ columnList false names

/-- The placeholder list of an `INSERT`. -/
def markList : Bool → List Bytes → Bytes
  | _, [] => []
  | first, _ :: names => listSep first ++ ascii "?" ++ markList false names

def insertHead (replace : Bool) (table : Bytes) : Bytes :=
  ascii "insert " ++ (if replace then ascii "or replace " else []) ++ ascii "into " ++
    quoteTableName table ++ ascii " ("

/-- The text of the `INSERT` for a list of fields. -/
def insertText (replace : Bool) (table : Bytes) (names : List Bytes) : Bytes :=
  insertHead replace table ++ columnList true names ++ ascii ") values (" ++ markList true names ++
    ascii ")"

namespace SQLiteWriter

abbrev M := Method Request Reply SQLiteWriter

def setDb (w : SQLiteWriter) (db : MiniSQLite) : SQLiteWriter := { w with dDb := db }

def setColumns (w : SQLiteWriter) (table : Bytes) (cols : List (Bytes × Bytes)) : SQLiteWriter :=
  { w with dColumns := Function.update w.dColumns table cols }

def setSignature (w : SQLiteWriter) (table : Bytes) (sig : List Bytes) (replace : Bool) :
    SQLiteWriter :=
  { w with
    dLastsig := Function.update w.dLastsig table sig
    dLastreplace := Function.update w.dLastreplace table replace }

/-- A method of the member `d_db`. -/
def onDb {α : Type} (m : MiniSQLite.M α) : M α := m.onMember (·.dDb) fun db w => w.setDb db

/-- Whether the cache lists a column; an empty list of a table is loaded first. -/
def haveColumn (table name : Bytes) : M Bool := do
  let w ← get
  if (w.dColumns table).isEmpty then
    let schema ← onDb (MiniSQLite.getSchema table)
    modify fun w => w.setColumns table schema
  let w ← get
  pure (binarySearch firstLt (w.dColumns table) (name, []))

/-- Create a missing column with the type of its value, and list it in the cache. -/
def createColumn (table : Bytes) (p : Bytes × VarT) : M Unit := do
  let w ← get
  onDb (MiniSQLite.addColumn table p.1 (columnType p.2) (w.dMeta table p.1))
  modify fun w => w.setColumns table (sortPairs (w.dColumns table ++ [(p.1, columnType p.2)]))

/-- The loop over the fields: it creates the missing columns and extends the column list `q`
and the placeholder list `qmarks`. -/
def columnLoop (table : Bytes) : Bool → Bytes → Bytes → Fields → M (Bytes × Bytes)
  | _, q, qmarks, [] => pure (q, qmarks)
  | first, q, qmarks, p :: values => do
    let known ← haveColumn table p.1
    if !known then createColumn table p
    columnLoop table false (q ++ listSep first ++ ascii "'" ++ p.1 ++ ascii "'")
      (qmarks ++ listSep first ++ ascii "?") values

/-- Prepare the statement for these fields and remember its signature. -/
def rebuild (table : Bytes) (values : Fields) (replace : Bool) : M Unit := do
  let (q, qmarks) ← columnLoop table true (insertHead replace table) [] values
  onDb (MiniSQLite.prepare table (q ++ ascii ") values (" ++ qmarks ++ ascii ")"))
  modify fun w => w.setSignature table (values.map (·.1)) replace

def bindValues (table : Bytes) : ℕ → Fields → M Unit
  | _, [] => pure ()
  | n, p :: values => do
    onDb (MiniSQLite.bindPrep table n (bindArg p.2))
    bindValues table (n + 1) values

/-- Whether the statement held for a table is the one that the call needs. -/
def cached (w : SQLiteWriter) (table : Bytes) (values : Fields) (replace : Bool) : Bool :=
  w.dDb.isPrepared table && w.dLastreplace table == replace &&
    values.map (·.1) == w.dLastsig table

def addValueGeneric (table : Bytes) (values : Fields) (replace : Bool) : M Unit := do
  let w ← get
  if w.dFlag = .readOnly then
    throw (ascii "Attempting to write to a read-only database instance")
  else
    if !w.cached table values replace then rebuild table values replace
    bindValues table 1 values
    let _ ← onDb (MiniSQLite.execPrep table false 0)

def addValue (values : Fields) (table : Bytes) : M Unit := addValueGeneric table values false

def addOrReplaceValue (values : Fields) (table : Bytes) : M Unit := addValueGeneric table values true

def bindQuery : ℕ → List VarT → M Unit
  | _, [] => pure ()
  | n, p :: values => do
    onDb (MiniSQLite.bindPrep [] n (bindArg p))
    bindQuery (n + 1) values

/-- Queries use the empty table name. -/
def queryGen (q : Bytes) (values : List VarT) (msec : UInt32) : M (List (Bytes → Option OutVar)) := do
  let w ← get
  if msec ≠ 0 ∧ w.dFlag ≠ .readOnly then
    throw (ascii "Timeout only possible for read-only connections")
  onDb (MiniSQLite.prepare [] q)
  bindQuery 1 values
  onDb (MiniSQLite.execPrep [] true msec)

def queryT (q : Bytes) (values : List VarT) (msec : UInt32) : M (List (Bytes → Option OutVar)) :=
  queryGen q values msec

/-- The fields of a writer before its constructor runs. -/
def blank (flag : SQLWFlag) : SQLiteWriter :=
  ⟨⟨fun _ => none, false⟩, flag, fun _ => [], fun _ => [], fun _ => false, fun _ _ => []⟩

/-- The constructor; the commit thread that it starts is part of the system of threads. -/
def opened (columnMeta : Bytes → Bytes → Bytes) : M Unit := do
  onDb MiniSQLite.opened
  let _ ← onDb (MiniSQLite.exec (ascii "PRAGMA journal_mode='wal'"))
  let w ← get
  if w.dFlag ≠ .readOnly ∧ w.dFlag ≠ .noTransactions then onDb MiniSQLite.begin
  modify fun w => { w with dMeta := columnMeta }

end SQLiteWriter
end SqliteWrite
