import SqliteWrite.Lib.Doubles
import SqliteWrite.Lib.Groups
import SqliteWrite.Lib.Script

/-! What the worker of `PSQLWriter` meets: the messages in the pipe, the statements that it sends,
the PostgreSQL server behind libpq, and the clock. What a statement does is a parameter. -/
namespace SqliteWrite.Psql

/-- A value to store, as `PSQLWriter::var_t` holds it; a double is its IEEE 754 bit pattern. -/
inductive VarT
  | double (bits : UInt64)
  | int32 (v : Int32)
  | uint32 (v : UInt32)
  | int64 (v : Int64)
  | string (b : Bytes)
  deriving DecidableEq, Repr

/-- `std::to_string` of a double: six digits behind the point, the exact value rounded. -/
def doubleText (bits : UInt64) : Bytes :=
  let sign := if bits.toNat / 2 ^ 63 = 1 then ascii "-" else []
  let exponent := bits.toNat / 2 ^ 52 % 2048
  let fraction := bits.toNat % 2 ^ 52
  if exponent = 2047 then sign ++ (if fraction = 0 then ascii "inf" else ascii "nan")
  else
    let significand := if exponent = 0 then fraction else 2 ^ 52 + fraction
    let scale := if exponent = 0 then 1 else exponent
    sign ++ fixedPoint 6
      (roundHalfEven (significand * 10 ^ 6 * 2 ^ (scale - 1075)) (2 ^ (1075 - scale)))

lemma doubleText_eq (bits : UInt64) : doubleText bits =
    if realSpecial bits then
      realSign bits ++ (if bits.toNat % 2 ^ 52 = 0 then ascii "inf" else ascii "nan")
    else realSign bits ++ fixedPoint 6 (millionths bits) := by
  unfold doubleText realSpecial realSign realNegative millionths realSignificand realScale
  simp only [decide_eq_true_eq]

/-- The string that a value is sent as. -/
def valueText : VarT → Bytes
  | .double bits => doubleText bits
  | .int32 v => decimalInt v.toInt
  | .uint32 v => decimal v.toNat
  | .int64 v => decimalInt v.toInt
  | .string b => b

/-- The type of a column that a value creates. -/
def columnType : VarT → Bytes
  | .double _ => ascii "REAL"
  | .string _ => ascii "TEXT"
  | _ => ascii "BIGINT"

/-- A message: its table, and its values in the order in which their fields were first given. -/
@[ext] structure Message where
  table : Bytes
  values : List (Bytes × VarT)
  nodup : (values.map Prod.fst).Nodup
  deriving DecidableEq, Repr

namespace Message

def keys (m : Message) : List Bytes := m.values.map (·.1)

/-- `values.find`. -/
def find (m : Message) (field : Bytes) : Option VarT :=
  (m.values.find? fun p => p.1 = field).map (·.2)

/-- `values[field] = v` in a list of entries. -/
def assign (field : Bytes) (v : VarT) : List (Bytes × VarT) → List (Bytes × VarT)
  | [] => [(field, v)]
  | p :: ps => if p.1 = field then (field, v) :: ps else p :: assign field v ps

lemma assign_keys (field : Bytes) (v : VarT) (ps : List (Bytes × VarT)) :
    (assign field v ps).map (·.1) =
      if field ∈ ps.map (·.1) then ps.map (·.1) else ps.map (·.1) ++ [field] := by
  induction ps with
  | nil => rfl
  | cons p ps ih =>
    by_cases h : p.1 = field
    · simp [assign, h]
    · simp only [assign, if_neg h, List.map_cons, ih, List.mem_cons, Ne.symm h, false_or]
      split_ifs <;> rfl

/-- `values[field] = v`. -/
def set (m : Message) (field : Bytes) (v : VarT) : Message where
  table := m.table
  values := assign field v m.values
  nodup := by
    rw [assign_keys]
    split_ifs with h
    · exact m.nodup
    · exact List.Nodup.append m.nodup (List.nodup_singleton _) (by simpa using h)

lemma find_eq_some (m : Message) {field : Bytes} {v : VarT} :
    m.find field = some v ↔ (field, v) ∈ m.values := by
  have hnodup := m.nodup
  unfold find
  generalize m.values = ps at hnodup ⊢
  induction ps with
  | nil => simp
  | cons p ps ih =>
    obtain ⟨hp, hps⟩ := List.nodup_cons.mp hnodup
    have hp' : ∀ q ∈ ps, q.1 ≠ p.1 := fun q hq heq => hp (heq ▸ List.mem_map_of_mem hq)
    by_cases h : p.1 = field
    · subst h
      constructor
      · intro hv
        simp only [List.find?_cons, decide_true, Option.map_some, Option.some.injEq] at hv
        exact List.mem_cons.mpr (Or.inl (Prod.ext rfl hv.symm))
      · intro hv
        rcases List.mem_cons.mp hv with heq | hv
        · have hv' : p.2 = v := (congrArg Prod.snd heq).symm
          simp [hv']
        · exact absurd rfl (hp' (p.1, v) hv)
    · have hne : (field, v) ≠ p := fun heq => h (heq ▸ rfl)
      simpa [h, hne] using ih hps

lemma mem_keys (m : Message) {field : Bytes} : field ∈ m.keys ↔ ∃ v, m.find field = some v := by
  simp [keys, find_eq_some]

lemma find_assign (field : Bytes) (v : VarT) (ps : List (Bytes × VarT)) (f : Bytes) :
    ((assign field v ps).find? fun p => p.1 = f).map (·.2) =
      if field = f then some v else (ps.find? fun p => p.1 = f).map (·.2) := by
  induction ps with
  | nil => by_cases h : field = f <;> simp [assign, h]
  | cons p ps ih =>
    by_cases hp : p.1 = field
    · subst hp
      by_cases h : p.1 = f <;> simp [assign, h]
    · by_cases h : p.1 = f
      · subst h
        simp [assign, hp, Ne.symm hp]
      · simpa [assign, hp, h] using ih

@[simp] lemma find_set (m : Message) (field : Bytes) (v : VarT) (f : Bytes) :
    (m.set field v).find f = if field = f then some v else m.find f := find_assign field v m.values f

end Message

/-- The message that `addValueGeneric` makes; a field name is a C string. -/
def message (table : Bytes) (values : List (Bytes × VarT)) : Message :=
  values.foldl (fun msg v => msg.set (cstr v.1) v.2) ⟨table, [], List.nodup_nil⟩

/-- The value that was given last for a field. -/
def supplied (values : List (Bytes × VarT)) (field : Bytes) : Option VarT :=
  (values.reverse.find? fun v => cstr v.1 = field).map (·.2)

lemma message_set_table (values : List (Bytes × VarT)) (m : Message) :
    (values.foldl (fun msg v => msg.set (cstr v.1) v.2) m).table = m.table := by
  induction values generalizing m with
  | nil => rfl
  | cons v values ih => exact ih (m.set (cstr v.1) v.2)

@[simp] lemma message_table (table : Bytes) (values : List (Bytes × VarT)) :
    (message table values).table = table := message_set_table values _

/-- A message maps each field to the value that was given for it last. -/
theorem message_find (table : Bytes) (values : List (Bytes × VarT)) (field : Bytes) :
    (message table values).find field = supplied values field := by
  have hfold : ∀ m : Message, (values.foldl (fun msg v => msg.set (cstr v.1) v.2) m).find field =
      (supplied values field).or (m.find field) := by
    induction values with
    | nil => intro m; rfl
    | cons v values ih =>
      intro m
      rw [List.foldl_cons, ih (m.set (cstr v.1) v.2), Message.find_set]
      unfold supplied
      rw [List.reverse_cons, List.find?_append]
      cases values.reverse.find? fun v => decide (cstr v.1 = field) with
      | some u => rfl
      | none => by_cases h : cstr v.1 = field <;> simp [h]
  have hempty : (⟨table, [], List.nodup_nil⟩ : Message).find field = none := rfl
  rw [message, hfold, hempty, Option.or_none]

/-- A comma in front of all but the first item of a list. -/
def comma (first : Bool) : Bytes := if first then [] else ascii ","

/-- The column list of an `INSERT`. -/
def nameList : Bool → List Bytes → Bytes
  | _, [] => []
  | first, f :: fields => comma first ++ f ++ nameList false fields

/-- The placeholders of one row, counted from `ctr` on, and the count after them. -/
def markRow : Bool → ℕ → List Bytes → Bytes × ℕ
  | _, ctr, [] => ([], ctr)
  | first, ctr, _ :: fields =>
    (comma first ++ ascii "$" ++ decimal ctr ++ (markRow false (ctr + 1) fields).1,
      (markRow false (ctr + 1) fields).2)

/-- The placeholders of so many more rows. -/
def markRows (fields : List Bytes) : Bool → ℕ → ℕ → Bytes
  | _, _, 0 => []
  | first, ctr, n + 1 =>
    comma first ++ ascii "(" ++ (markRow true ctr fields).1 ++ ascii ")" ++
      markRows fields false (markRow true ctr fields).2 n

def insertText (table : Bytes) (fields : List Bytes) (rows : ℕ) : Bytes :=
  ascii "insert into " ++ table ++ ascii " (" ++ nameList true fields ++ ascii ") values " ++
    markRows fields true 1 rows

/-- The parameters of an `INSERT`, row by row. -/
def allstrings (fields : List Bytes) (work : List Message) : List (Option Bytes) :=
  work.flatMap fun m => fields.map fun f => (m.find f).map valueText

/-- The statements that the worker sends. -/
inductive Statement
  | begin
  | commit
  | schema (table : Bytes)
  | create (table name type : Bytes)
  | alter (table name type : Bytes)
  | insert (table : Bytes) (fields : List Bytes) (work : List Message)
  deriving DecidableEq, Repr

namespace Statement

def text : Statement → Bytes
  | .begin => ascii "begin"
  | .commit => ascii "commit"
  | .schema table =>
    ascii "SELECT column_name, udt_name FROM information_schema.columns where table_name='" ++ table ++
      ascii "'"
  | .create table name type =>
    ascii "create table if not exists " ++ table ++ ascii " ( " ++ name ++ ascii " " ++ type ++ ascii " )"
  | .alter table name type =>
    ascii "ALTER table \"" ++ table ++ ascii "\" add column \"" ++ name ++ ascii "\" " ++ type
  | .insert table fields work => insertText table fields work.length

/-- The parameters as C strings, for the statements that have any. -/
def params : Statement → Option (List (Option Bytes))
  | .insert _ fields work => some ((allstrings fields work).map (Option.map cstr))
  | _ => none

end Statement

abbrev Rows := List (List Bytes)

/-- A PostgreSQL server: how it answers `PQexec` and `PQexecParams`, with rows or a message. -/
structure Server where
  State : Type
  exec : State → Bytes → Except Bytes Rows × State
  execParams : State → Bytes → List (Option Bytes) → Except Bytes Rows × State

/-- Send a statement; libpq takes C strings. -/
def Server.answer (S : Server) (st : Statement) (db : S.State) : Except Bytes Rows × S.State :=
  match st.params with
  | none => S.exec db (cstr st.text)
  | some params => S.execParams db (cstr st.text) params

inductive Request
  | exec (st : Statement)
  | poll
  | read
  | time
  deriving DecidableEq, Repr

/-- How a `read` of the pipe ends: with a pointer, at end of file, with `EAGAIN` or another error. -/
inductive Read
  | message (m : Message)
  | eof
  | again
  | failed
  deriving DecidableEq, Repr

abbrev Reply : Request → Type
  | .exec _ => Except Bytes Rows
  | .poll => ℤ
  | .read => Read
  | .time => ℤ

/-- What the other threads do: a call of `addValue`, or the destructor's `close`. -/
inductive Event
  | addValue (table : Bytes) (values : List (Bytes × VarT))
  | close
  deriving DecidableEq, Repr

/-- What surrounds the worker. Before its `n`-th request the other threads do `arrivals n`; `sent`
lists the messages that were ever written to the pipe, `log` the statements with their answers. -/
@[ext] structure World (S : Server) where
  db : S.State
  log : List (Statement × Except Bytes Rows)
  pipe : List Message
  closed : Bool
  sent : List Message
  arrivals : ℕ → List Event
  polls : ℕ → ℤ
  clock : ℕ → ℤ
  now : ℕ

namespace World
variable {S : Server}

/-- A pointer to the message is written to the pipe, unless its write end is closed. -/
def event (w : World S) : Event → World S
  | .addValue table values =>
    if w.closed then w
    else { w with pipe := w.pipe ++ [message table values], sent := w.sent ++ [message table values] }
  | .close => { w with closed := true }

/-- The other threads act. -/
def arrive (w : World S) : World S :=
  { (w.arrivals w.now).foldl event w with now := w.now + 1 }

/-- A `read` of the pipe, which does not block. -/
def read (w : World S) : Read × World S :=
  match w.pipe with
  | m :: rest => (.message m, { w with pipe := rest })
  | [] => (if w.closed then .eof else .again, w)

/-- A statement is sent and logged. -/
def send (w : World S) (st : Statement) : Except Bytes Rows × World S :=
  ((S.answer st w.db).1,
    { w with db := (S.answer st w.db).2, log := w.log ++ [(st, (S.answer st w.db).1)] })

/-- The other threads act, then the request is answered. -/
def answer (S : Server) : (q : Request) → World S → Reply q × World S
  | .exec st, w => w.arrive.send st
  | .poll, w => (w.polls w.now, w.arrive)
  | .read, w => w.arrive.read
  | .time, w => (w.clock w.now, w.arrive)

end World
end SqliteWrite.Psql
