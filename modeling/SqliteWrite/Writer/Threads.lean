import SqliteWrite.Writer.MethodSpecs

/-! A writer in use: calls of any threads and passes of the commit thread, each a critical
section of the one mutex, in any order. -/
namespace SqliteWrite

/-- A call of `addValue`, or of `addOrReplaceValue` with `replace`. -/
structure Call where
  table : Bytes
  values : Fields
  replace : Bool
  deriving DecidableEq, Repr

/-- One critical section: a call, or one pass of the loop of `commitThread`. -/
inductive Event
  | call (k : Call)
  | poll
  deriving DecidableEq, Repr

/-- A writer, its connection, the counter of its commit thread, whether an exception has left a
thread function or a destructor, and the calls so far with their results. -/
structure Sys (E : Engine) where
  writer : SQLiteWriter
  conn : Conn E
  n : ℕ
  crashed : Bool
  history : List (Call × Except Bytes Unit)

namespace Call
variable {E : Engine}

def method (k : Call) : SQLiteWriter.M Unit :=
  SQLiteWriter.addValueGeneric k.table k.values k.replace

def names (k : Call) : List Bytes := k.values.map (·.1)

def run (k : Call) (w : SQLiteWriter) (c : Conn E) : Except Bytes Unit × SQLiteWriter × Conn E :=
  k.method.invoke (Conn.answer E) w c

/-- The requests of a call, each with the connection that it met. -/
def trace (k : Call) (w : SQLiteWriter) (c : Conn E) : List (Request × Conn E) :=
  (k.method.script w).trace (Conn.answer E) c

end Call

namespace Sys
variable {E : Engine}

def addCall (s : Sys E) (k : Call) : Sys E :=
  { s with
    writer := (k.run s.writer s.conn).2.1
    conn := (k.run s.writer s.conn).2.2
    history := s.history ++ [(k, (k.run s.writer s.conn).1)] }

/-- One pass of the loop of `commitThread`: every 20th pass cycles the transaction. -/
def commitThread (s : Sys E) : Sys E :=
  if s.n % 20 = 0 then
    let r := (SQLiteWriter.onDb MiniSQLite.cycle).invoke (Conn.answer E) s.writer s.conn
    { s with writer := r.2.1, conn := r.2.2, n := s.n + 1, crashed := !r.1.isOk }
  else { s with n := s.n + 1 }

/-- Only a writer in transaction mode has a commit thread. -/
def step (s : Sys E) (ev : Event) : Sys E :=
  if s.crashed then s
  else match ev with
    | .call k => s.addCall k
    | .poll => if s.writer.dFlag = .noFlag then s.commitThread else s

def run (s : Sys E) (evs : List Event) : Sys E := evs.foldl step s

/-- The destructors, after the commit thread has been joined. -/
def destroy (s : Sys E) : Sys E :=
  if s.crashed then s
  else
    let r := (SQLiteWriter.onDb MiniSQLite.destroy).invoke (Conn.answer E) s.writer s.conn
    { s with writer := r.2.1, conn := r.2.2, crashed := !r.1.isOk }

/-- A writer just constructed on a database. -/
def start (E : Engine) (flag : SQLWFlag) (columnMeta : Bytes → Bytes → Bytes) (db : E.Db) : Sys E :=
  let r := (SQLiteWriter.opened columnMeta).invoke (Conn.answer E) (SQLiteWriter.blank flag)
    ⟨db, db, true, none, ⟨0, 0⟩, [], false⟩
  ⟨r.2.1, r.2.2, 0, false, []⟩

@[simp] lemma run_nil (s : Sys E) : s.run [] = s := rfl

@[simp] lemma run_cons (s : Sys E) (ev : Event) (evs : List Event) :
    s.run (ev :: evs) = (s.step ev).run evs := rfl

/-- What every critical section preserves, a run preserves. -/
theorem run_preserves (I : Sys E → Prop) (step : ∀ s ev, I s → I (s.step ev)) (s : Sys E)
    (evs : List Event) (hs : I s) : I (s.run evs) := by
  induction evs generalizing s with
  | nil => exact hs
  | cons ev evs ih => exact ih (s.step ev) (step s ev hs)

lemma step_history (s : Sys E) (ev : Event) : ∃ rest, (s.step ev).history = s.history ++ rest := by
  unfold step
  by_cases hc : s.crashed = true
  · exact ⟨[], by simp [hc]⟩
  cases ev with
  | call k => exact ⟨[(k, (k.run s.writer s.conn).1)], by simp [hc, addCall]⟩
  | poll =>
    refine ⟨[], ?_⟩
    unfold commitThread
    split_ifs <;> simp

lemma start_eq (E : Engine) (flag : SQLWFlag) (columnMeta : Bytes → Bytes → Bytes) (db : E.Db) :
    start E flag columnMeta db =
      ⟨{ SQLiteWriter.blank flag with
          dDb := ⟨fun _ => none, decide (flag = .noFlag)⟩, dMeta := columnMeta },
        ⟨db, db, decide (flag ≠ .noFlag), none, ⟨0, 0⟩, [], false⟩, 0, false, []⟩ := by
  cases flag <;> rfl

end Sys
end SqliteWrite
