import SqliteWrite.Sqlite.Reference
import SqliteWrite.Writer.StatementCache

/-! The transaction of a writer in transaction mode: opened by the constructor, cycled by the
commit thread, and lost exactly when SQLite answers a statement by rolling all of it back. -/
namespace SqliteWrite
open Method

namespace Conn
variable {E : Engine} (c : Conn E)

lemma answer_autocommit {table : Bytes} {q : Request} (hq : SQLiteWriter.CallRequest table q) :
    (answer E q c).2.autocommit = (c.autocommit || c.rollsBack q) := by
  cases q with
  | exec sql =>
    change (c.exec sql).2.autocommit = _
    rw [SQLiteWriter.exec_callRequest c table hq]
    cases hx : E.exec c.view sql with
    | ok rows db =>
      simp only [execText, rollsBack, hx, Bool.or_false]
      split_ifs <;> rfl
    | error msg db => simp [execText, rollsBack, hx, put]
    | rollback msg => simp [execText, rollsBack, hx, rollback]
  | step sql binds rows =>
    change (c.step sql binds rows).2.autocommit = _
    cases hp : E.prepare c.view sql with
    | error msg => simp [step, rollsBack, hp]
    | ok u =>
      cases hf : (E.step c.view sql binds c.progress).finish with
      | done db =>
        simp only [step, rollsBack, hp, hf, Bool.or_false]
        split_ifs <;> rfl
      | error rc =>
        simp only [step, rollsBack, hp, hf, Bool.or_false]
        split_ifs <;> rfl
      | rollback rc =>
        simp only [step, rollsBack, hp, hf]
        cases rows <;> cases (E.step c.view sql binds c.progress).rows.isEmpty <;>
          simp [logged, rollback]
  | prepare sql => simp [answer, rollsBack]
  | bind arg => simp [answer, rollsBack]
  | clearNull => simp [answer, rollsBack]
  | clock => exact hq.elim
  | progressHandler ttd => exact hq.elim

lemma exec_cycle : c.exec (ascii "commit;begin") =
    if c.autocommit then (.error (ascii "cannot commit - no transaction is active"), c)
    else if E.deferred c.view then (.error foreignKeyFailed, c)
    else (.ok [], { c with committed := c.view }) := by
  have hc : control (ascii "commit;begin") = some .cycle := by simp [control, ascii]
  obtain ⟨view, committed, autocommit, progress, now, ran, fault⟩ := c
  cases autocommit with
  | true => simp [exec, hc, commit]
  | false => cases hd : E.deferred view <;> simp [exec, hc, commit, hd, begin]

end Conn

namespace Call
variable {E : Engine} (k : Call) (w : SQLiteWriter) (c : Conn E)

/-- No statement of the call is answered by rolling back the transaction. -/
def Steady : Prop := ∀ p ∈ k.trace w c, p.2.rollsBack p.1 = false

lemma run_autocommit : (k.run w c).2.2.autocommit = true ↔ c.autocommit = true ∨ ¬ k.Steady w c := by
  have hflag := Script.run_flag (Conn.answer E) (·.autocommit) (fun p => p.2.rollsBack p.1)
    (k.method.script w) c fun p hp => p.2.answer_autocommit
      ((SQLiteWriter.asks_addValueGeneric k.table k.values k.replace w).trace _ c p hp)
  have hany : (k.trace w c).any (fun p => p.2.rollsBack p.1) = true ↔ ¬ k.Steady w c := by
    simp only [Steady, List.any_eq_true, not_forall, Bool.not_eq_false]
    constructor
    · rintro ⟨p, hp, hr⟩
      exact ⟨p, hp, hr⟩
    · rintro ⟨p, hp, hr⟩
      exact ⟨p, hp, hr⟩
  rw [← hany, ← Bool.or_eq_true]
  exact Eq.congr hflag rfl

lemma run_mode (hw : w.dFlag ≠ .readOnly) : (k.run w c).2.1.dFlag = w.dFlag ∧
    (k.run w c).2.1.dDb.dIntransaction = w.dDb.dIntransaction := by
  have hs := SQLiteWriter.script_addValueGeneric_inMode w.dFlag w.dDb.dIntransaction hw w hw
    k.table k.values k.replace
  rw [SQLiteWriter.inMode_self _ _ rfl rfl] at hs
  have hr : (k.run w c).2.1 =
      SQLiteWriter.inMode w.dFlag w.dDb.dIntransaction (k.run w c).2.1 := by
    have hrun := congrArg (fun x => (x.run (Conn.answer E) c).1.2) hs
    simp only [Script.run_bind, Script.run_pure] at hrun
    exact hrun
  constructor
  · exact congrArg (·.dFlag) hr
  · exact congrArg (·.dDb.dIntransaction) hr

end Call

namespace Sys
variable {E : Engine}

/-- What keeps the transaction in one critical section: no statement is answered by rolling it
back, and no deferred foreign key is violated when the commit thread commits. -/
def Steady (s : Sys E) : Event → Prop
  | .call k => k.Steady s.writer s.conn
  | .poll => s.n % 20 = 0 → E.deferred s.conn.view = false

/-- Every critical section of a run keeps the transaction. -/
def SteadyRun : Sys E → List Event → Prop
  | _, [] => True
  | s, ev :: evs => s.Steady ev ∧ (s.step ev).SteadyRun evs

lemma commitThread_eq (s : Sys E) : s.commitThread =
    if s.n % 20 = 0 then
      if s.conn.autocommit = false ∧ E.deferred s.conn.view = false then
        { s with conn := { s.conn with committed := s.conn.view }, n := s.n + 1, crashed := false }
      else { s with n := s.n + 1, crashed := true }
    else { s with n := s.n + 1 } := by
  unfold commitThread
  by_cases hn : s.n % 20 = 0
  · rw [if_pos hn, if_pos hn]
    simp only [SQLiteWriter.invoke_onDb, MiniSQLite.invoke_cycle, Conn.exec_cycle]
    cases s.conn.autocommit with
    | true => simp [MiniSQLite.execResult, Except.map, Except.isOk, Except.toBool]
    | false =>
      cases E.deferred s.conn.view <;>
        simp [MiniSQLite.execResult, Except.map, Except.isOk, Except.toBool]
  · rw [if_neg hn, if_neg hn]

lemma SteadyRun.prefix {s : Sys E} {evs evs' : List Event} (h : s.SteadyRun (evs ++ evs')) :
    s.SteadyRun evs := by
  induction evs generalizing s with
  | nil => trivial
  | cons ev evs ih => exact ⟨h.1, ih h.2⟩

end Sys
end SqliteWrite
