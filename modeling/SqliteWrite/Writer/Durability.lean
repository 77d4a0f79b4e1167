import SqliteWrite.Writer.Transactions

/-! What is committed. A writer in transaction mode is compared with one in which every statement
commits by itself: after each tick and at the end both have committed the same database, and it is
the one that the calls that returned have written. -/
namespace SqliteWrite
open Method

/-- What the schema queries and column definitions of a call on a table may do to a database. -/
inductive Defined (E : Engine) (table : Bytes) (db : E.Db) : E.Db → Prop
  | none : Defined E table db db
  | ok {db₁ db₂ : E.Db} {sql : Bytes} {rows : List (List (Option Bytes))} :
    Defined E table db db₁ → SQLiteWriter.CallRequest table (.exec sql) →
    E.exec db₁ sql = .ok rows db₂ → Defined E table db db₂
  | error {db₁ db₂ : E.Db} {sql msg : Bytes} :
    Defined E table db db₁ → SQLiteWriter.CallRequest table (.exec sql) →
    E.exec db₁ sql = .error msg db₂ → Defined E table db db₂

/-- The `INSERT` of a call, with its own values, done once. -/
structure Inserted (E : Engine) (k : Call) (db db' : E.Db) (vs : List Value) : Prop where
  bound : SQLiteWriter.boundValues E k.values = .ok vs
  length : vs.length = k.values.length
  finish : (E.step db (insertText k.replace k.table k.names)
    (SQLiteWriter.insertBinds E (insertText k.replace k.table k.names) vs) none).finish = .done db'

/-- The database that a history of calls makes, in order: every call defines its columns, and one
that returned inserts its row, once. -/
inductive Applied (E : Engine) (db : E.Db) : List (Call × Except Bytes Unit) → E.Db → Prop
  | nil : Applied E db [] db
  | threw {h : List (Call × Except Bytes Unit)} {k : Call} {e : Bytes} {db₁ db₂ : E.Db} :
    Applied E db h db₁ → Defined E k.table db₁ db₂ → Applied E db (h ++ [(k, .error e)]) db₂
  | returned {h : List (Call × Except Bytes Unit)} {k : Call} {vs : List Value}
    {db₁ db₂ db₃ : E.Db} :
    Applied E db h db₁ → Defined E k.table db₁ db₂ → Inserted E k db₂ db₃ vs →
    Applied E db (h ++ [(k, .ok ())]) db₃

namespace Conn
variable {E : Engine}

/-- The connection as it would be if every statement so far had been committed by itself. -/
def flat (c : Conn E) : Conn E := { c with committed := c.view, autocommit := true }

/-- A connection outside a transaction, with no progress handler. -/
structure Plain (c : Conn E) : Prop where
  autocommit : c.autocommit = true
  committed : c.committed = c.view
  progress : c.progress = none

lemma Plain.answer {c : Conn E} (h : c.Plain) {table : Bytes} {q : Request}
    (hq : SQLiteWriter.CallRequest table q) : (Conn.answer E q c).2.Plain := by
  obtain ⟨ha, hc, hp⟩ := h
  cases q with
  | exec sql =>
    change (c.exec sql).2.Plain
    rw [SQLiteWriter.exec_callRequest c table hq]
    unfold execText
    cases E.exec c.view sql with
    | ok rows db =>
      simp only
      split_ifs
      · exact ⟨ha, hc, hp⟩
      · exact ⟨ha, by simp [put, ha], hp⟩
    | error msg db => exact ⟨ha, by simp [put, ha], hp⟩
    | rollback msg => exact ⟨rfl, rfl, hp⟩
  | step sql binds rows =>
    change (c.step sql binds rows).2.Plain
    unfold Conn.step
    cases E.prepare c.view sql with
    | error msg => exact ⟨ha, hc, hp⟩
    | ok u =>
      simp only
      split_ifs
      · exact ⟨ha, hc, hp⟩
      · cases (E.step c.view sql binds c.progress).finish with
        | done db =>
          simp only
          split_ifs
          · exact ⟨ha, hc, hp⟩
          · exact ⟨ha, by simp [put, logged, ha], hp⟩
        | error rc => exact ⟨ha, hc, hp⟩
        | rollback rc => exact ⟨rfl, rfl, hp⟩
  | prepare sql => exact ⟨ha, hc, hp⟩
  | bind arg => exact ⟨ha, hc, hp⟩
  | clearNull => exact ⟨ha, hc, hp⟩
  | clock => exact hq.elim
  | progressHandler ttd => exact hq.elim

lemma Plain.defined {c : Conn E} (h : c.Plain) {table : Bytes} {q : Request} {db : E.Db}
    (hq : SQLiteWriter.SchemaRequest table q) (hd : Defined E table db c.view) :
    Defined E table db (Conn.answer E q c).2.view := by
  cases q with
  | exec sql =>
    change Defined E table db (c.exec sql).2.view
    rw [SQLiteWriter.exec_callRequest c table hq.1]
    unfold execText
    cases hx : E.exec c.view sql with
    | ok rows db' =>
      simp only
      split_ifs
      · exact hd
      · exact hd.ok hq.1 hx
    | error msg db' => exact hd.error hq.1 hx
    | rollback msg => exact (congrArg (Defined E table db) h.committed).mpr hd
  | step sql binds rows => exact absurd rfl (hq.2.2 sql binds rows)
  | prepare sql => exact hd
  | bind arg => exact hd
  | clearNull => exact hd
  | clock => exact hq.1.elim
  | progressHandler ttd => exact hq.1.elim

end Conn

namespace Call
open SQLiteWriter
variable {E : Engine} (k : Call) (w : SQLiteWriter) (c : Conn E)

/-- No request of the call leaves a deferred foreign key violated. -/
def Undeferred : Prop := ∀ p ∈ k.trace w c, E.deferred (Conn.answer E p.1 p.2).2.view = false

end Call

namespace Sys
variable {E : Engine}

/-- A writer in which every statement commits by itself: what is committed is what the history of
its calls makes. -/
structure Committing (db : E.Db) (t : Sys E) : Prop where
  dFlag : t.writer.dFlag = .noTransactions
  cacheOk : SQLiteWriter.CacheOk E t.writer
  plain : t.conn.Plain
  applied : Applied E db t.history t.conn.view

/-- The same state, but for the transaction. -/
structure Mirrors (s t : Sys E) : Prop where
  writer : t.writer = s.writer.inMode .noTransactions false
  conn : t.conn = s.conn.flat
  crashed : t.crashed = false
  history : t.history = s.history

def Undeferred (s : Sys E) : Event → Prop
  | .call k => k.Undeferred s.writer s.conn
  | .poll => True

/-- No statement of a run leaves a deferred foreign key violated: no table has one. -/
def UndeferredRun : Sys E → List Event → Prop
  | _, [] => True
  | s, ev :: evs => s.Undeferred ev ∧ (s.step ev).UndeferredRun evs

lemma UndeferredRun.prefix {s : Sys E} {evs evs' : List Event} (h : s.UndeferredRun (evs ++ evs')) :
    s.UndeferredRun evs := by
  induction evs generalizing s with
  | nil => trivial
  | cons ev evs ih => exact ⟨h.1, ih h.2⟩

/-- Two writers have committed the same, and it is what the calls that returned have written. -/
structure SettledAs (db : E.Db) (s t : Sys E) : Prop where
  history : s.history = t.history
  committed : s.conn.committed = t.conn.committed
  applied : Applied E db s.history s.conn.committed

lemma Mirrors.settled {db : E.Db} {s t u : Sys E} (h : s.Mirrors t) (ht : t.Committing db)
    (hh : u.history = s.history) (hc : u.conn.committed = s.conn.view) : u.SettledAs db t := by
  have hview : t.conn.view = s.conn.view := by rw [h.conn]; rfl
  have hcommitted : u.conn.committed = t.conn.committed := by
    rw [hc, ht.plain.committed, hview]
  refine ⟨hh.trans h.history.symm, hcommitted, ?_⟩
  have happ := ht.applied
  rw [h.history, hview] at happ
  rw [hh, hc]
  exact happ

end Sys
end SqliteWrite
