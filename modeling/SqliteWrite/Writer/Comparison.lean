import SqliteWrite.Writer.Transactions

/-! Two runs compared. What a writer remembers of its statements, and the log of its connection,
are forgotten; two states that are then the same have the same calls return and write the same,
for every sequence of critical sections from there on. -/
namespace SqliteWrite
open Method

namespace Conn
variable {E : Engine}

/-- The connection without its log. -/
def quiet (c : Conn E) : Conn E := { c with ran := [] }

lemma exec_quiet (c : Conn E) (sql : Bytes) :
    c.quiet.exec sql = ((c.exec sql).1, (c.exec sql).2.quiet) := by
  unfold exec
  cases control sql with
  | none =>
    change c.quiet.execText sql = ((c.execText sql).1, (c.execText sql).2.quiet)
    have hv : c.quiet.view = c.view := rfl
    unfold execText
    rw [hv]
    cases E.exec c.view sql with
    | ok rows db =>
      have ha : c.quiet.autocommit = c.autocommit := rfl
      simp only [ha]
      split_ifs <;> rfl
    | error msg db => rfl
    | rollback msg => rfl
  | some ctl =>
    obtain ⟨view, committed, autocommit, progress, now, ran, fault⟩ := c
    cases ctl with
    | pragma rows => rfl
    | begin => cases autocommit <;> rfl
    | commit =>
      cases autocommit with
      | true => rfl
      | false => cases hd : E.deferred view <;> simp [commit, quiet, hd]
    | cycle =>
      cases autocommit with
      | true => rfl
      | false => cases hd : E.deferred view <;> simp [commit, begin, quiet, hd]

lemma step_quiet (c : Conn E) (sql : Bytes) (binds : List Value) (rows : Bool) :
    (c.quiet.step sql binds rows).1 = (c.step sql binds rows).1 ∧
      (c.quiet.step sql binds rows).2.quiet = (c.step sql binds rows).2.quiet := by
  have hv : c.quiet.view = c.view := rfl
  have hp : c.quiet.progress = c.progress := rfl
  have ha : c.quiet.autocommit = c.autocommit := rfl
  unfold step
  rw [hv, hp, ha]
  cases E.prepare c.view sql with
  | error msg => exact ⟨rfl, rfl⟩
  | ok u =>
    simp only
    split_ifs
    · exact ⟨rfl, rfl⟩
    · cases (E.step c.view sql binds c.progress).finish with
      | done db =>
        simp only
        split_ifs <;> exact ⟨rfl, rfl⟩
      | error rc => exact ⟨rfl, rfl⟩
      | rollback rc => exact ⟨rfl, rfl⟩

lemma answer_quiet (q : Request) (c c' : Conn E) (h : c.quiet = c'.quiet) :
    (answer E q c).1 = (answer E q c').1 ∧ (answer E q c).2.quiet = (answer E q c').2.quiet := by
  cases q with
  | exec sql =>
    have hc := exec_quiet c sql
    rw [h, exec_quiet c' sql] at hc
    exact ⟨(congrArg Prod.fst hc).symm, (congrArg Prod.snd hc).symm⟩
  | step sql binds rows =>
    obtain ⟨h1, h2⟩ := step_quiet c sql binds rows
    obtain ⟨h3, h4⟩ := step_quiet c' sql binds rows
    rw [h] at h1 h2
    exact ⟨h1.symm.trans h3, h2.symm.trans h4⟩
  | prepare sql =>
    have hview : c.view = c'.view := congrArg (·.view) h
    refine ⟨?_, h⟩
    simp only [answer, prepare, hview]
  | bind arg => exact ⟨rfl, h⟩
  | clearNull => exact ⟨rfl, congrArg (fun d : Conn E => { d with fault := true }) h⟩
  | clock => exact ⟨congrArg (·.now) h, h⟩
  | progressHandler ttd =>
    refine ⟨rfl, ?_⟩
    exact congrArg (fun d : Conn E => { d with progress := ttd }) h

end Conn

namespace SQLiteWriter
variable {E : Engine}

/-- The object with no statement held and no signature recorded. -/
def forget (w : SQLiteWriter) : SQLiteWriter :=
  { w with
    dDb := { w.dDb with dStmts := fun _ => none }
    dLastsig := fun _ => []
    dLastreplace := fun _ => false }

@[simp] lemma forget_setStmt (w : SQLiteWriter) (table : Bytes) (o : Option Stmt) :
    (w.setDb (w.dDb.setStmt table o)).forget = w.forget := rfl

@[simp] lemma forget_setSignature (w : SQLiteWriter) (table : Bytes) (sig : List Bytes)
    (replace : Bool) : (w.setSignature table sig replace).forget = w.forget := rfl

@[simp] lemma forget_discard (w : SQLiteWriter) (table : Bytes) : (w.discard table).forget = w.forget :=
  rfl

lemma keepsColumns_forget :
    KeepsColumns forget fun db => { db with dStmts := fun _ => none } :=
  ⟨fun _ => rfl, fun _ => rfl, fun _ => rfl, fun _ _ => rfl, fun _ _ _ => rfl⟩

/-- Two ends of a call that differ at most in the statements held. -/
structure SameEffect (x y : Except Bytes Unit × SQLiteWriter × Conn E) : Prop where
  result : x.1.isOk = y.1.isOk
  conn : x.2.2 = y.2.2
  writer : x.2.1.forget = y.2.1.forget

namespace SameEffect
variable {x y z : Except Bytes Unit × SQLiteWriter × Conn E}

lemma symm (h : SameEffect x y) : SameEffect y x := ⟨h.result.symm, h.conn.symm, h.writer.symm⟩

lemma trans (h : SameEffect x y) (k : SameEffect y z) : SameEffect x z :=
  ⟨h.result.trans k.result, h.conn.trans k.conn, h.writer.trans k.writer⟩

lemma ofSameCall {k : Call} (h : k.SameCall x y) : SameEffect x y := by
  have hforget := congrArg forget h.writer
  exact ⟨h.returns, h.conn, hforget⟩

end SameEffect

lemma finishCall_forget (table : Bytes) (values : Fields) {w v : SQLiteWriter} (c : Conn E) (s : Stmt)
    (h : w.forget = v.forget) :
    SameEffect (finishCall E table values w c s) (finishCall E table values v c s) := by
  unfold finishCall
  generalize bindAll E s.binds 1 values = r
  obtain ⟨x, binds⟩ := r
  cases x with
  | error e => exact ⟨rfl, rfl, by simpa using h⟩
  | ok u => exact ⟨rfl, rfl, by simpa using h⟩

/-- Building the statement from objects that differ in the statements held: it throws in both, or
both hold the same new statement. -/
lemma rebuild_forget (table : Bytes) (values : Fields) (replace : Bool) {w v : SQLiteWriter}
    (c : Conn E) (h : w.forget = v.forget) :
    (∃ e e' w₁ v₁ c₁, (rebuild table values replace).invoke (Conn.answer E) w c = (.error e, w₁, c₁) ∧
      (rebuild table values replace).invoke (Conn.answer E) v c = (.error e', v₁, c₁) ∧
      w₁.forget = v₁.forget) ∨
    (∃ w₁ v₁ c₁ s, (rebuild table values replace).invoke (Conn.answer E) w c = (.ok (), w₁, c₁) ∧
      (rebuild table values replace).invoke (Conn.answer E) v c = (.ok (), v₁, c₁) ∧
      w₁.forget = v₁.forget ∧ w₁.dDb.dStmts table = some s ∧ v₁.dDb.dStmts table = some s ∧
      s.busy = false) := by
  have hlw := (frame_columnLoop keepsColumns_forget table true (insertHead replace table) []
    values).invoke (Conn.answer E) w c
  have hlv := (frame_columnLoop keepsColumns_forget table true (insertHead replace table) []
    values).invoke (Conn.answer E) v c
  rw [h, hlv] at hlw
  unfold rebuild
  rw [invoke_bind, invoke_bind]
  generalize hr : (columnLoop table true (insertHead replace table) [] values).invoke
    (Conn.answer E) w c = r at hlw ⊢
  generalize (columnLoop table true (insertHead replace table) [] values).invoke
    (Conn.answer E) v c = r' at hlw ⊢
  obtain ⟨x, w₁, c₁⟩ := r
  obtain ⟨x', v₁, c₁'⟩ := r'
  simp only [Prod.mk.injEq] at hlw
  obtain ⟨rfl, hforget, rfl⟩ := hlw
  cases x' with
  | error e => exact Or.inl ⟨e, e, w₁, v₁, c₁', rfl, rfl, hforget.symm⟩
  | ok texts =>
    simp only [text_returned hr]
    rw [invoke_bind, invoke_bind, invoke_onDb, invoke_onDb]
    have hblank := blank_insertText replace table (values.map (·.1))
    cases hp : E.prepare c₁'.view (insertText replace table (values.map (·.1))) with
    | error e =>
      rw [MiniSQLite.invoke_prepare_error _ _ _ hblank hp, MiniSQLite.invoke_prepare_error _ _ _ hblank hp]
      exact Or.inl ⟨_, _, _, _, _, rfl, rfl, by simpa using hforget.symm⟩
    | ok u =>
      rw [MiniSQLite.invoke_prepare_ok _ _ _ hblank hp, MiniSQLite.invoke_prepare_ok _ _ _ hblank hp]
      simp only [invoke_modify]
      refine Or.inr ⟨_, _, c₁', ⟨insertText replace table (values.map (·.1)),
        List.replicate (E.params (insertText replace table (values.map (·.1)))) .null, false⟩,
        rfl, rfl, by simpa using hforget.symm, ?_, ?_, rfl⟩
      · simp only [setSignature_dDb, setDb_dDb, MiniSQLite.setStmt_dStmts, Function.update_self]
      · simp only [setSignature_dDb, setDb_dDb, MiniSQLite.setStmt_dStmts, Function.update_self]

end SQLiteWriter

namespace Call
open SQLiteWriter
variable {E : Engine} (k : Call) {w v : SQLiteWriter} (c : Conn E)

lemma run_uncached (hw : w.cached k.table k.values k.replace = false)
    (hv : v.cached k.table k.values k.replace = false) (h : w.forget = v.forget) :
    SameEffect (k.run w c) (k.run v c) := by
  by_cases hf : w.dFlag = .readOnly
  · have hf' : v.dFlag = .readOnly := (congrArg (·.dFlag) h).symm.trans hf
    rw [run_readOnly k w c hf, run_readOnly k v c hf']
    exact ⟨rfl, rfl, h⟩
  have hf' : v.dFlag ≠ .readOnly := fun hr => hf ((congrArg (·.dFlag) h).trans hr)
  rw [run_rebuild k w c hf hw, run_rebuild k v c hf' hv]
  rcases rebuild_forget k.table k.values k.replace c h with ⟨e, e', w₁, v₁, c₁, hw₁, hv₁, hforget⟩ |
    ⟨w₁, v₁, c₁, s, hw₁, hv₁, hforget, hsw, hsv, hb⟩
  · rw [hw₁, hv₁]
    exact ⟨rfl, rfl, hforget⟩
  · rw [hw₁, hv₁]
    simp only
    rw [invoke_finish k.table k.values w₁ c₁ hsw hb, invoke_finish k.table k.values v₁ c₁ hsv hb]
    exact finishCall_forget k.table k.values c₁ s hforget

/-- A call does the same from two objects that differ in the statements held. -/
theorem run_forget (hw : CacheOk E w) (hv : CacheOk E v) (h : w.forget = v.forget) :
    SameEffect (k.run w c) (k.run v c) := by
  have hdw : SameEffect (k.run w c) (k.run (w.discard k.table) c) := .ofSameCall (k.run_discard w c hw)
  have hdv : SameEffect (k.run v c) (k.run (v.discard k.table) c) := .ofSameCall (k.run_discard v c hv)
  have hcached : ∀ u : SQLiteWriter, (u.discard k.table).cached k.table k.values k.replace = false :=
    fun u => by simp [cached, MiniSQLite.isPrepared, SQLiteWriter.discard]
  have hmid := k.run_uncached c (hcached w) (hcached v) (by simpa using h)
  exact hdw.trans (hmid.trans hdv.symm)

lemma run_quiet (w : SQLiteWriter) {c c' : Conn E} (h : c.quiet = c'.quiet) :
    (k.run w c).1 = (k.run w c').1 ∧ (k.run w c).2.1 = (k.run w c').2.1 ∧
      (k.run w c).2.2.quiet = (k.run w c').2.2.quiet := by
  obtain ⟨hr, hc⟩ := Script.run_related (Conn.answer E) (Conn.answer E)
    (fun a b => a.quiet = b.quiet) (k.method.script w) c c' h
    fun p _ d hd => Conn.answer_quiet p.1 p.2 d hd
  have hresult := congrArg Prod.fst hr
  have hwriter := congrArg Prod.snd hr
  exact ⟨hresult, hwriter, hc⟩

end Call

namespace Sys
open SQLiteWriter
variable {E : Engine}

/-- Two states that differ in the statements held, the logs and the histories at most. -/
structure Alike (s t : Sys E) : Prop where
  writer : s.writer.forget = t.writer.forget
  conn : s.conn.quiet = t.conn.quiet
  n : s.n = t.n
  crashed : s.crashed = t.crashed

/-- The calls so far, and which of them returned. -/
def outcomes (s : Sys E) : List (Call × Bool) := s.history.map fun h => (h.1, h.2.isOk)

/-- From here on the same calls return, and the database is the same after each. -/
def SameFrom (s t : Sys E) : Prop := ∀ evs,
  (∃ h, (s.run evs).outcomes = s.outcomes ++ h ∧ (t.run evs).outcomes = t.outcomes ++ h) ∧
  (s.run evs).conn.view = (t.run evs).conn.view ∧
  (s.run evs).conn.committed = (t.run evs).conn.committed ∧
  (s.run evs).crashed = (t.run evs).crashed

variable {s t : Sys E}

lemma Alike.addCall (h : s.Alike t) {k : Call}
    (heff : SameEffect (k.run s.writer s.conn) (k.run t.writer s.conn)) :
    (s.addCall k).Alike (t.addCall k) ∧
      ∃ o, (s.addCall k).outcomes = s.outcomes ++ o ∧ (t.addCall k).outcomes = t.outcomes ++ o := by
  obtain ⟨h1, h2, h3⟩ := k.run_quiet t.writer h.conn
  refine ⟨⟨?_, ?_, h.n, h.crashed⟩, [(k, (k.run s.writer s.conn).1.isOk)], ?_, ?_⟩
  · exact heff.writer.trans (congrArg forget h2)
  · exact (congrArg Conn.quiet heff.conn).trans h3
  · simp [outcomes, Sys.addCall]
  · have hok : (k.run t.writer t.conn).1.isOk = (k.run s.writer s.conn).1.isOk :=
      (congrArg Except.isOk h1).symm.trans heff.result.symm
    simp [outcomes, Sys.addCall, hok]

lemma Alike.commitThread (h : s.Alike t) : s.commitThread.Alike t.commitThread ∧
    s.commitThread.outcomes = s.outcomes ∧ t.commitThread.outcomes = t.outcomes := by
  have hauto : t.conn.autocommit = s.conn.autocommit := (congrArg (·.autocommit) h.conn).symm
  have hview : t.conn.view = s.conn.view := (congrArg (·.view) h.conn).symm
  have hn : s.n + 1 = s.n + 1 := rfl
  rw [commitThread_eq, commitThread_eq, ← h.n, hauto, hview]
  split_ifs
  · refine ⟨⟨h.writer, ?_, hn, rfl⟩, rfl, rfl⟩
    exact congrArg (fun d : Conn E => { d with committed := s.conn.view }) h.conn
  · exact ⟨⟨h.writer, h.conn, hn, rfl⟩, rfl, rfl⟩
  · exact ⟨⟨h.writer, h.conn, hn, h.crashed⟩, rfl, rfl⟩

/-- One critical section keeps two states alike, and has the same outcome in both, when its calls
have the same effect in both. -/
lemma Alike.step (h : s.Alike t) (ev : Event)
    (heff : ∀ k, ev = .call k → SameEffect (k.run s.writer s.conn) (k.run t.writer s.conn)) :
    (s.step ev).Alike (t.step ev) ∧
      ∃ o, (s.step ev).outcomes = s.outcomes ++ o ∧ (t.step ev).outcomes = t.outcomes ++ o := by
  unfold Sys.step
  rw [← h.crashed]
  by_cases hc : s.crashed = true
  · simp only [hc, if_true]
    exact ⟨h, [], by simp, by simp⟩
  simp only [hc, Bool.false_eq_true, if_false]
  cases ev with
  | call k => exact h.addCall (heff k rfl)
  | poll =>
    have hflag : t.writer.dFlag = s.writer.dFlag := (congrArg (·.dFlag) h.writer).symm
    simp only [hflag]
    split_ifs
    · obtain ⟨hnext, ho, ho'⟩ := h.commitThread
      exact ⟨hnext, [], by rw [ho, List.append_nil], by rw [ho', List.append_nil]⟩
    · exact ⟨h, [], by simp, by simp⟩

/-- Two states that are alike have the same future. -/
theorem Alike.sameFrom (h : s.Alike t) (hs : CacheOk E s.writer) (ht : CacheOk E t.writer) :
    s.SameFrom t := by
  intro evs
  induction evs generalizing s t with
  | nil =>
    exact ⟨⟨[], by simp, by simp⟩, congrArg (·.view) h.conn, congrArg (·.committed) h.conn, h.crashed⟩
  | cons ev evs ih =>
    obtain ⟨hnext, o, ho, ho'⟩ := h.step ev fun k _ => k.run_forget s.conn hs ht h.writer
    obtain ⟨⟨os, hos, hos'⟩, hrest⟩ := ih hnext (step_cacheOk s ev hs) (step_cacheOk t ev ht)
    refine ⟨⟨o ++ os, ?_, ?_⟩, hrest⟩
    · rw [run_cons, hos, ho, List.append_assoc]
    · rw [run_cons, hos', ho', List.append_assoc]

end Sys
end SqliteWrite
