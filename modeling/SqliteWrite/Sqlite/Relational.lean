import Mathlib.Logic.Function.Basic
import SqliteWrite.Sqlite.Connection

/-! SQLite as a relational engine. Schemas, name resolution and the effect of the statements are
defined; which definitions, rows and values SQLite accepts is left to its decisions. -/
namespace SqliteWrite

/-- A table has at least one column. -/
structure Table where
  columns : List Column
  rows : List (List Value)
  nonempty : columns ≠ []
  deriving DecidableEq

namespace Table

def Has (t : Table) (name : Bytes) : Prop := ∃ col ∈ t.columns, fold col.name = fold name

instance (t : Table) (name : Bytes) : Decidable (t.Has name) :=
  inferInstanceAs (Decidable (∃ col ∈ t.columns, fold col.name = fold name))

/-- A new column, in which every row gets the same value. -/
def addColumn (t : Table) (col : Column) (v : Value) : Table :=
  ⟨t.columns ++ [col], t.rows.map (· ++ [v]), by simp⟩

/-- A row as the cells of a result. -/
def cells (t : Table) (row : List Value) : List (Bytes × Value) := (t.columns.map (·.name)).zip row

end Table

/-- A database: its attached schemas, and its tables by folded schema and folded name. -/
@[ext] structure Db where
  attached : List Bytes
  tables : Bytes → Bytes → Option Table

namespace Db

def mainSchema : Bytes := ascii "main"
def tempSchema : Bytes := ascii "temp"

/-- The schemas in the order in which an unqualified name is looked up. -/
def searchOrder (db : Db) : List Bytes := tempSchema :: mainSchema :: db.attached

def knows (db : Db) (schema : Bytes) : Bool := fold schema ∈ db.searchOrder

def lookup (db : Db) (schema name : Bytes) : Option Table := db.tables (fold schema) (fold name)

/-- The schema in which SQLite finds a table. -/
def find (db : Db) (ref : TableRef) : Option Bytes :=
  match ref.schema with
  | some s => if (db.lookup s ref.name).isSome then some (fold s) else none
  | none => db.searchOrder.find? fun s => (db.tables s (fold ref.name)).isSome

/-- The table that SQLite resolves a name to. -/
def resolve (db : Db) (ref : TableRef) : Option Table :=
  (db.find ref).bind fun s => db.tables s (fold ref.name)

def put (db : Db) (schema name : Bytes) (t : Table) : Db :=
  { db with
    tables := Function.update db.tables (fold schema)
      (Function.update (db.tables (fold schema)) (fold name) (some t)) }

def rows (db : Db) (schema name : Bytes) : List (List Value) :=
  ((db.tables schema name).map (·.rows)).getD []

/-- The rows of all tables with one more in a table. -/
def appendRow (db : Db) (schema name : Bytes) (row : List Value) (s n : Bytes) : List (List Value) :=
  if s = fold schema ∧ n = fold name then db.rows s n ++ [row] else db.rows s n

/-- Other rows in the tables. -/
def setRows (db : Db) (rows : Bytes → Bytes → List (List Value)) : Db :=
  { db with tables := fun s n => (db.tables s n).map fun t => { t with rows := rows s n } }

/-- A database with no tables. -/
def empty : Db := ⟨[], fun _ _ => none⟩

end Db

/-- A decision: what is accepted has a result; what is not costs the statement, or the whole
enclosing transaction. -/
inductive Verdict (α : Type)
  | accept (a : α)
  | error (rc : ℕ) (msg : Bytes)
  | rollback (rc : ℕ) (msg : Bytes)

/-- What is left to SQLite: the length limit, the conversions to the column types of STRICT
tables, which column definitions it takes for a table and
what the rows there get, what an `INSERT` or `INSERT OR REPLACE` of the given fields makes of the
rows of all tables, when deferred foreign keys are violated, and all texts outside of the
fragment. A table is given by its schema and its name. -/
structure Decisions where
  lengthLimit : ℕ
  convert : Bytes → Value → Option Value
  create : Db → Bytes → Bytes → Column → Verdict Unit
  add : Db → Bytes → Bytes → Column → Verdict Value
  insert : Db → Bytes → Bytes → Bool → List (Bytes × Value) →
    Verdict (Bytes → Bytes → List (List Value))
  deferred : Db → Bool
  otherExec : Db → Bytes → Answer Db
  otherPrepare : Db → Bytes → Except Bytes Unit
  otherStep : Db → Bytes → List Value → Steps Db

namespace Decisions
variable (D : Decisions)

/-- The answer to a definition. -/
def answer {α : Type} (v : Verdict α) (db : Db) (f : α → Db) : Answer Db :=
  match v with
  | .accept a => .ok [] (f a)
  | .error _ msg => .error msg db
  | .rollback _ msg => .rollback msg

/-- The rows of `pragma_table_xinfo`, of which the query takes three columns. -/
def xinfoRows (t : Table) : List (List (Option Bytes)) :=
  t.columns.mapIdx fun i col => [some (decimal i), some col.name, some col.type]

def unknownDatabase (schema : Bytes) : Bytes := ascii "unknown database " ++ schema
def noSuchTable (name : Bytes) : Bytes := ascii "no such table: " ++ name
def duplicateColumn (name : Bytes) : Bytes := ascii "duplicate column name: " ++ name

def exec (db : Db) (sql : Bytes) : Answer Db :=
  match Sql.read sql with
  | some (.tableXinfo table schema) =>
    if db.knows schema then .ok (((db.lookup schema table).map xinfoRows).getD []) db
    else .error (unknownDatabase schema) db
  | some (.createTable ref col) =>
    let schema := ref.schema.getD Db.mainSchema
    if db.knows schema then
      match db.lookup schema ref.name with
      | some _ => .ok [] db
      | none => answer (D.create db schema ref.name col) db fun _ =>
        db.put schema ref.name ⟨[col], [], by simp⟩
    else .error (unknownDatabase schema) db
  | some (.addColumn ref col) =>
    match db.find ref, db.resolve ref with
    | some schema, some t =>
      if t.Has col.name then .error (duplicateColumn col.name) db
      else answer (D.add db schema ref.name col) db fun v => db.put schema ref.name (t.addColumn col v)
    | _, _ => .error (noSuchTable ref.name) db
  | _ => D.otherExec db sql

/-- Whether an `INSERT` compiles: its table and columns exist and the counts agree. -/
def compileInsert (db : Db) (ref : TableRef) (cols : List Bytes) (marks : ℕ) : Except Bytes Unit :=
  if cols = [] then .error (ascii "near \")\": syntax error")
  else match db.resolve ref with
    | none => .error (noSuchTable ref.name)
    | some t =>
      match cols.find? fun c => ¬ t.Has c with
      | some c => .error (ascii "table " ++ ref.name ++ ascii " has no column named " ++ c)
      | none =>
        if marks = cols.length then .ok ()
        else .error (decimal marks ++ ascii " values for " ++ decimal cols.length ++ ascii " columns")

def prepare (db : Db) (sql : Bytes) : Except Bytes Unit :=
  match Sql.read sql with
  | some (.insert _ ref cols marks) => compileInsert db ref cols marks
  | some (.selectAll ref) =>
    match db.resolve ref with
    | none => .error (noSuchTable ref.name)
    | some _ => .ok ()
  | _ => D.otherPrepare db sql

/-- The value that a call of the binding interface stores: a length is a C `int`, a negative one
reaches to the first NUL, and no number that is not one is stored. -/
def bind : BindArg → Except Bytes Value
  | .int v => .ok (.integer v.toInt64)
  | .int64 v => .ok (.integer v)
  | .double bits => .ok (if isNan bits then .null else .real bits)
  | .null => .ok .null
  | .text p n => sized .text (if n < 0 then cstr p else p.take n.toNatClampNeg)
  | .blob p n => sized .blob (if n < 0 then cstr p else p.take n.toNatClampNeg)
  | .zeroblob n => sized .blob (List.replicate n.toNatClampNeg 0)
where
  sized (make : Bytes → Value) (b : Bytes) : Except Bytes Value :=
    if b.length ≤ D.lengthLimit then .ok (make b) else .error (ascii "string or blob too big")
  /-- An exponent of all ones with a fraction. -/
  isNan (bits : UInt64) : Bool := bits <<< 1 > 0xffe0000000000000

def stepInsert (db : Db) (schema name : Bytes) (replace : Bool) (named : List (Bytes × Value)) :
    Finish Db :=
  match D.insert db schema name replace named with
  | .accept rows => .done (db.setRows rows)
  | .error rc _ => .error rc
  | .rollback rc _ => .rollback rc

def step (db : Db) (sql : Bytes) (binds : List Value) : Steps Db :=
  match Sql.read sql with
  | some (.insert replace ref cols _) =>
    match db.find ref with
    | some schema => ⟨[], D.stepInsert db schema ref.name replace (cols.zip binds)⟩
    | none => ⟨[], .error 1⟩
  | some (.selectAll ref) =>
    match db.resolve ref with
    | some t => ⟨t.rows.map t.cells, .done db⟩
    | none => ⟨[], .error 1⟩
  | _ => D.otherStep db sql binds

/-- The relational engine; the statements of the fragment are short, and no deadline interrupts
them. -/
def engine : Engine where
  Db := Db
  exec := D.exec
  prepare := D.prepare
  params := Sql.params
  bind := D.bind
  step := fun db sql binds _ => D.step db sql binds
  deferred := D.deferred

end Decisions
end SqliteWrite
