import SqliteWrite.Postgres.Server

/-! `MiniPSQL` and the worker of `PSQLWriter`: it gathers messages by table, creates the missing
columns, inserts each table's messages with one statement, and commits as the seconds pass. -/
namespace SqliteWrite.Psql

/-- The orders in which the hash containers are walked: each is an order of the keys, by the order in
which they were inserted. -/
structure HashOrder where
  ofMap : List Bytes → List Bytes
  ofSet : List Bytes → List Bytes
  map_perm : ∀ keys, (ofMap keys).Perm keys
  set_perm : ∀ keys, (ofSet keys).Perm keys

/-- The entries of a message, as a loop over them meets them. -/
def HashOrder.entries (H : HashOrder) (m : Message) : List (Bytes × VarT) :=
  (H.ofMap m.keys).filterMap fun f => (m.find f).map (f, ·)

/-- The variables of `commitThread` that outlive a batch. -/
structure Worker where
  schemas : Bytes → Option (List (Bytes × Bytes))
  needWait : Bool
  prevcommit : ℤ

abbrev M := Method Request Reply Worker

def pq (st : Statement) : M (Except Bytes Rows) := Method.ask (Request.exec st)
def read : M Read := Method.ask Request.read
def poll : M ℤ := Method.ask Request.poll
def time : M ℤ := Method.ask Request.time

namespace MiniPSQL

def errorHead : Statement → Bytes
  | .insert _ _ _ => ascii "parameter query error: "
  | _ => ascii "query error: "

def exec (st : Statement) : M Rows := do
  match ← pq st with
  | .ok rows => pure (rows.takeWhile fun row => !row.isEmpty)
  | .error msg => throw (MiniPSQL.errorHead st ++ msg)

/-- The field names and types of a table, sorted by name. -/
def getSchema (table : Bytes) : M (List (Bytes × Bytes)) := do
  let rows ← exec (.schema table)
  pure (sortByFirst (rows.map fun r => (r.getD 0 [], r.getD 1 [])))

def haveTable (table : Bytes) : M Bool := do
  let schema ← getSchema table
  pure (!schema.isEmpty)

def addColumn (table name type : Bytes) : M Unit := do
  let known ← haveTable table
  if !known then
    let _ ← exec (.create table name type)
  else
    let _ ← exec (.alter table name type)

end MiniPSQL

namespace PSQLWriter

/-- The cached schema of a table, which is empty where there is none. -/
def cachedSchema (w : Worker) (table : Bytes) : List (Bytes × Bytes) := (w.schemas table).getD []

def setSchema (w : Worker) (table : Bytes) (schema : List (Bytes × Bytes)) : Worker :=
  { w with schemas := Function.update w.schemas table (some schema) }

def waitForData : M Unit := do
  let ret ← poll
  if ret = -1 then throw (ascii "Waiting for data: ")

def waitIfNeeded : M Unit := do
  let w ← get
  if w.needWait then waitForData

/-- The loop that reads so many messages at most and groups them by table; without a result the
thread returns. -/
def gather : ℕ → Groups Bytes Message → Int32 → M (Option (Groups Bytes Message))
  | 0, tabwork, _ => pure (some tabwork)
  | n + 1, tabwork, sumparms =>
    if sumparms < 60000 then do
      waitIfNeeded
      match ← read with
      | .message m =>
        modify fun w => { w with needWait := false }
        gather n (tabwork.push m.table m) (sumparms + Int32.ofNat m.values.length)
      | .again =>
        modify fun w => { w with needWait := true }
        pure (some tabwork)
      | .eof =>
        if !tabwork.entries.isEmpty then pure (some tabwork)
        else
          let _ ← MiniPSQL.exec .commit
          pure none
      | .failed =>
        let _ ← MiniPSQL.exec .commit
        pure none
    else pure (some tabwork)

/-- A field of a message: where it is the first of its name in the batch and no column is known for
it, the column is added. -/
def checkField (table : Bytes) (fields : List Bytes) (f : Bytes × VarT) : M (List Bytes) := do
  if f.1 ∈ fields then pure fields
  else
    let w ← get
    if !binarySearch firstLt (cachedSchema w table) (f.1, ([] : Bytes)) then
      MiniPSQL.addColumn table f.1 (columnType f.2)
      modify fun w => setSchema w table (sortPairs (cachedSchema w table ++ [(f.1, columnType f.2)]))
    pure (fields ++ [f.1])

/-- The set of the field names of a table's messages, whose columns exist afterwards. -/
def checkFields (H : HashOrder) (table : Bytes) (work : List Message) : M (List Bytes) :=
  (work.flatMap H.entries).foldlM (checkField table) []

/-- Commit when the clock shows another second than at the last time. -/
def commitIfLater : M Unit := do
  let w ← get
  let t ← time
  if w.prevcommit ≠ t then
    let _ ← MiniPSQL.exec .commit
    let _ ← MiniPSQL.exec .begin
    let t' ← time
    modify fun w => { w with prevcommit := t' }

/-- The work for one table of a batch. -/
def processTable (H : HashOrder) (e : Bytes × List Message) : M Unit := do
  let w ← get
  if (w.schemas e.1).isNone then
    let schema ← MiniPSQL.getSchema e.1
    modify fun w => setSchema w e.1 schema
  let fields ← checkFields H e.1 e.2
  let _ ← MiniPSQL.exec (.insert e.1 (H.ofSet fields) e.2)
  commitIfLater

/-- The endless loop over the batches, of which `fuel` bounds the number; `true` when the thread
returns by itself. -/
def batches (H : HashOrder) : ℕ → M Bool
  | 0 => pure false
  | fuel + 1 => do
    match ← gather 10000 Groups.empty 0 with
    | none => pure true
    | some tabwork =>
      tabwork.entries.forM (processTable H)
      batches H fuel

def commitThread (H : HashOrder) (fuel : ℕ) : M Bool := do
  let _ ← MiniPSQL.exec .begin
  let t ← time
  modify fun w => { w with prevcommit := t }
  batches H fuel

/-- The variables before they are set. -/
def start : Worker := ⟨fun _ => none, false, 0⟩

end PSQLWriter
end SqliteWrite.Psql
