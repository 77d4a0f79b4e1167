import SqliteWrite.Postgres.Reading

/-! The tables of a PostgreSQL database, and what the commands do to them. A column has neither a default
nor a constraint, as the worker creates it; a statement that is rejected changes nothing. -/
namespace SqliteWrite.Psql

/-- What a server brings: its key words, and the value that it reads from a text for a type, where it
accepts the text. -/
structure Dialect (V : Type) where
  reserved : Bytes → Bool
  input : Bytes → Bytes → Option V

/-- A row, by the names of its columns; `none` is NULL. -/
abbrev Record (V : Type) := Bytes → Option V

structure Table (V : Type) where
  columns : List (Bytes × Bytes)
  rows : List (Record V)
  nodup : (columns.map Prod.fst).Nodup

abbrev Db (V : Type) := Bytes → Option (Table V)

/-- The name by which the catalog lists a type. -/
def udtName (type : Bytes) : Option Bytes :=
  if type = ascii "real" then some (ascii "float4")
  else if type = ascii "text" then some (ascii "text")
  else if type = ascii "bigint" then some (ascii "int8")
  else none

variable {V : Type}

namespace Table

def names (t : Table V) : List Bytes := t.columns.map (·.1)

def type (t : Table V) (column : Bytes) : Option Bytes :=
  (t.columns.find? fun p => p.1 = column).map (·.2)

def create (column type : Bytes) : Table V := ⟨[(column, type)], [], List.nodup_singleton column⟩

def addColumn (t : Table V) (column type : Bytes) (h : column ∉ t.names) : Table V where
  columns := t.columns ++ [(column, type)]
  rows := t.rows
  nodup := by
    rw [List.map_append]
    exact List.Nodup.append t.nodup (List.nodup_singleton column) (List.disjoint_singleton.mpr h)

def append (t : Table V) (rs : List (Record V)) : Table V := ⟨t.columns, t.rows ++ rs, t.nodup⟩

end Table

/-- The value of a column of this type. -/
def Dialect.cell (D : Dialect V) (type : Bytes) : Option Bytes → Option (Option V)
  | none => some none
  | some text => (D.input type text).map some

/-- A row with these values in the columns that are named; the others are NULL. -/
def Table.record (D : Dialect V) (t : Table V) : List Bytes → List (Option Bytes) → Option (Record V)
  | [], [] => some fun _ => none
  | column :: columns, value :: values => do
    let type ← t.type column
    let x ← D.cell type value
    let r ← Table.record D t columns values
    some (Function.update r column x)
  | _, _ => none

/-- The value of a placeholder. -/
def parameter (params : List (Option Bytes)) : ℕ → Option (Option Bytes)
  | 0 => none
  | n + 1 => params[n]?

/-- `INSERT`: no column may be named twice, and the parameters are as many as the placeholders ask for. -/
def Table.insert (D : Dialect V) (params : List (Option Bytes)) (columns : List Bytes)
    (rows : List (List ℕ)) (t : Table V) : Option (Table V) :=
  if columns.Nodup ∧ rows.flatten.foldr max 0 = params.length then
    (rows.mapM fun ns : List ℕ => (ns.mapM (parameter params)).bind (t.record D columns)).map t.append
  else none

def Db.put (db : Db V) (name : Bytes) (t : Table V) : Db V := Function.update db name (some t)

/-- The rows that the query for the columns of a table returns. -/
def Db.columnRows (db : Db V) (name : Bytes) : Rows :=
  match db name with
  | none => []
  | some t => t.columns.map fun p => [p.1, (udtName p.2).getD p.2]

namespace Dialect
variable (D : Dialect V)

def run (params : List (Option Bytes)) (db : Db V) : Command → Option (Rows × Db V)
  | .begin => some ([], db)
  | .commit => some ([], db)
  | .columns table => some (db.columnRows table, db)
  | .createTable table column type =>
    match db table with
    | some _ => some ([], db)
    | none => (udtName type).map fun _ => ([], db.put table (Table.create column type))
  | .addColumn table column type => (db table).bind fun t =>
    if h : column ∉ t.names then (udtName type).map fun _ => ([], db.put table (t.addColumn column type h))
    else none
  | .insert table columns rows => (db table).bind fun t =>
    (t.insert D params columns rows).map fun t' => ([], db.put table t')

/-- The answer to a text. What an error says is left open. -/
def reply (db : Db V) (text : Bytes) (params : List (Option Bytes)) : Except Bytes Rows × Db V :=
  match (Reading.read D.reserved text).bind (D.run params db) with
  | some (rows, db') => (.ok rows, db')
  | none => (.error [], db)

/-- The server; libpq passes at most 65535 parameters. -/
def server : Server where
  State := Db V
  exec db text := D.reply db text []
  execParams db text params := if params.length ≤ 65535 then D.reply db text params else (.error [], db)

end Dialect

section Answers
open Reading
variable {D : Dialect V} {db : Db V} {table : Bytes}

@[simp] lemma Table.append_columns (t : Table V) (rs : List (Record V)) : (t.append rs).columns = t.columns := rfl

@[simp] lemma Table.append_rows (t : Table V) (rs : List (Record V)) : (t.append rs).rows = t.rows ++ rs := rfl

lemma Table.append_append (t : Table V) (rs rs' : List (Record V)) :
    (t.append rs).append rs' = t.append (rs ++ rs') := by
  unfold append
  simp

lemma Table.append_nil (t : Table V) : t.append [] = t := by
  unfold append
  simp

@[simp] lemma Table.append_type (t : Table V) (rs : List (Record V)) : (t.append rs).type = t.type := rfl

@[simp] lemma Db.put_self (name : Bytes) (t : Table V) : (db.put name t) name = some t := by
  unfold Db.put
  exact Function.update_self name (some t) db

lemma Db.put_put (name : Bytes) (t u : Table V) : (db.put name t).put name u = db.put name u := by
  unfold Db.put
  rw [Function.update_idem]

lemma Db.put_eq_self {name : Bytes} {t : Table V} (h : db name = some t) : db.put name t = db := by
  unfold Db.put
  rw [← h]
  exact Function.update_eq_self name db

lemma udtName_columnType (v : VarT) : ∃ u, udtName (fold (columnType v)) = some u := by
  cases v with
  | double => exact ⟨ascii "float4", rfl⟩
  | string => exact ⟨ascii "text", rfl⟩
  | _ => exact ⟨ascii "int8", rfl⟩

lemma answer_begin : D.server.answer .begin db = (.ok [], db) := rfl

lemma answer_commit : D.server.answer .commit db = (.ok [], db) := rfl

lemma answer_exec {st : Statement} (hp : st.params = none) (h0 : (0 : UInt8) ∉ st.text) {c : Command}
    (hc : Reading.read D.reserved st.text = some c) {rows : Rows} {db' : Db V}
    (hrun : D.run [] db c = some (rows, db')) : D.server.answer st db = (.ok rows, db') := by
  unfold Server.answer
  rw [hp, cstr_eq_self h0]
  change D.reply db st.text [] = _
  unfold Dialect.reply
  rw [hc, Option.bind_some, hrun]

lemma answer_schema (ht : Identifier D.reserved table) :
    D.server.answer (.schema table) db = (.ok (db.columnRows table), db) := by
  have h0 : (0 : UInt8) ∉ (Statement.schema table).text := by simp [Statement.text, ascii, ht.nul]
  exact answer_exec rfl h0 (read_schema ht.nul (ht.quote (by decide))) rfl

lemma answer_create {field : Bytes} (ht : Identifier D.reserved table) (hf : Identifier D.reserved field)
    (v : VarT) (hdb : db (fold table) = none) :
    D.server.answer (.create table field (columnType v)) db =
      (.ok [], db.put (fold table) (Table.create (fold field) (fold (columnType v)))) := by
  have h0 : (0 : UInt8) ∉ (Statement.create table field (columnType v)).text := by
    simp [Statement.text, ascii, ht.nul, hf.nul, nul_columnType v]
  obtain ⟨u, hu⟩ := udtName_columnType v
  apply answer_exec rfl h0 (read_create ht hf v)
  unfold Dialect.run
  simp only [hdb, hu, Option.map_some]

lemma answer_alter {field : Bytes} (ht : Identifier D.reserved table) (hf : Identifier D.reserved field)
    (v : VarT) {t : Table V} (hdb : db table = some t) (hnew : field ∉ t.names) :
    D.server.answer (.alter table field (columnType v)) db =
      (.ok [], db.put table (t.addColumn field (fold (columnType v)) hnew)) := by
  have h0 : (0 : UInt8) ∉ (Statement.alter table field (columnType v)).text := by
    simp [Statement.text, ascii, ht.nul, hf.nul, nul_columnType v]
  obtain ⟨u, hu⟩ := udtName_columnType v
  apply answer_exec rfl h0 (read_alter ht hf v)
  unfold Dialect.run
  simp only [hdb, Option.bind_some, dif_pos hnew, hu, Option.map_some]

end Answers
end SqliteWrite.Psql
