import SqliteWrite.Sqlite.Relational

/-! A small SQLite to evaluate runs on: `NOT NULL` columns, which may roll back on conflict, and
values of the columns' own storage classes. -/
namespace SqliteWrite
namespace Reference

/-- Whether the words stand in a row among the tokens. -/
def hasWords (ws : List Bytes) : List Token → Bool
  | [] => ws.isEmpty
  | t :: ts => (Sql.keywords ws (t :: ts)).isSome || hasWords ws ts

def notNull (col : Column) : Bool := hasWords [ascii "not", ascii "null"] col.constraints

def rollsBack (col : Column) : Bool :=
  hasWords [ascii "on", ascii "conflict", ascii "rollback"] col.constraints

/-- A real without a fraction is kept as an integer, which loses the sign of zero. -/
def unsigned (bits : UInt64) : UInt64 := if bits = 0x8000000000000000 then 0 else bits

/-- The conversion to the type of a STRICT column, for values of its own class. -/
def convert (type : Bytes) : Value → Option Value
  | .null => some .null
  | .integer i => if fold type = ascii "int" then some (.integer i) else none
  | .real bits => if fold type = ascii "real" then some (.real (unsigned bits)) else none
  | .text b => if fold type = ascii "text" then some (.text b) else none
  | .blob b => if fold type = ascii "blob" then some (.blob b) else none

/-- The value of a column in a new row. -/
def cell (named : List (Bytes × Value)) (col : Column) : Verdict Value :=
  let v := ((named.find? fun p => fold p.1 = fold col.name).map (·.2)).getD .null
  match convert col.type v with
  | none => .error 3091 (ascii "cannot store value in column " ++ col.name)
  | some u =>
    if u = .null ∧ notNull col = true then
      if rollsBack col then .rollback 1299 (ascii "NOT NULL constraint failed: " ++ col.name)
      else .error 1299 (ascii "NOT NULL constraint failed: " ++ col.name)
    else .accept u

def row (named : List (Bytes × Value)) : List Column → Verdict (List Value)
  | [] => .accept []
  | col :: cols =>
    match cell named col, row named cols with
    | .accept v, .accept vs => .accept (v :: vs)
    | .accept _, failed => failed
    | .error rc msg, _ => .error rc msg
    | .rollback rc msg, _ => .rollback rc msg

def insert (db : Db) (schema name : Bytes) (_ : Bool) (named : List (Bytes × Value)) :
    Verdict (Bytes → Bytes → List (List Value)) :=
  match db.lookup schema name with
  | none => .error 1 (Decisions.noSuchTable name)
  | some t =>
    match row named t.columns with
    | .accept vs => .accept (db.appendRow schema name vs)
    | .error rc msg => .error rc msg
    | .rollback rc msg => .rollback rc msg

/-- Adding a `NOT NULL` column without a default is refused while there are rows. -/
def add (db : Db) (schema name : Bytes) (col : Column) : Verdict Value :=
  if notNull col ∧ ((db.lookup schema name).map (·.rows)).getD [] ≠ [] then
    .error 1 (ascii "Cannot add a NOT NULL column with default value NULL")
  else .accept .null

def decisions : Decisions where
  lengthLimit := 1000000000
  convert := convert
  create := fun _ _ _ _ => .accept ()
  add := add
  insert := insert
  deferred := fun _ => false
  otherExec := fun db _ => .error (ascii "syntax error") db
  otherPrepare := fun _ _ => .error (ascii "syntax error")
  otherStep := fun _ _ _ => ⟨[], .error 1⟩

def engine : Engine := decisions.engine

end Reference
end SqliteWrite
