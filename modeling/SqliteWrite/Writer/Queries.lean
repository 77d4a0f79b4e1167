import SqliteWrite.Writer.Comparison
import SqliteWrite.Writer.Deadline
import SqliteWrite.Writer.Durability

/-! Queries between the calls of a writer. They hold their statement under the empty table name,
where a call on the table of that name looks for its own. -/
namespace SqliteWrite
open Method

namespace Sql

/-- The first word of a text is `SELECT`. -/
def isSelect (sql : Bytes) : Bool :=
  match (Tokens.feed closer .start (cstr sql)).1 with
  | .word b :: _ => fold b == ascii "select"
  | _ => false

lemma blank_of_isSelect {sql : Bytes} (h : isSelect sql = true) : blank sql = false := by
  unfold isSelect at h
  cases hts : (Tokens.feed closer .start (cstr sql)).1 with
  | nil => simp [hts] at h
  | cons t ts =>
    cases t with
    | word w => exact blank_of_word hts
    | quoted q b => simp [hts] at h
    | sym c => simp [hts] at h

lemma isSelect_insertText (replace : Bool) (table : Bytes) (names : List Bytes) :
    isSelect (insertText replace table names) = false := by
  have hhead : ∃ rest, insertText replace table names = ascii "insert " ++ rest := by
    refine ⟨?_, ?_⟩
    rotate_left
    · unfold insertText insertHead
      simp only [List.append_assoc]
      rfl
  obtain ⟨rest, hrest⟩ := hhead
  have hfeed : Tokens.feed closer .start (ascii "insert ") = ([.word (ascii "insert")], .start) := by
    decide
  have hnul : (0 : UInt8) ∉ ascii "insert " := by decide
  unfold isSelect
  rw [hrest, cstr_append hnul, Tokens.feed_append, hfeed]
  rfl

end Sql

/-- A query that only reads: it is a `SELECT`, and whatever becomes of it the database stays as it
is and the transaction is not rolled back. -/
structure Selects (E : Engine) (q : Bytes) : Prop where
  select : Sql.isSelect q = true
  reads : ∀ db binds ttd, match (E.step db q binds ttd).finish with
    | .done db' => db' = db
    | .error _ => True
    | .rollback _ => False

namespace Conn
variable {E : Engine} {c : Conn E}

/-- No handler is installed, and outside a transaction all is committed. -/
structure Current (c : Conn E) : Prop where
  progress : c.progress = none
  committed : c.autocommit = true → c.committed = c.view

lemma Plain.current (h : c.Plain) : c.Current := ⟨h.progress, fun _ => h.committed⟩

lemma Current.answer (h : c.Current) {table : Bytes} {q : Request}
    (hq : SQLiteWriter.CallRequest table q) : (Conn.answer E q c).2.Current := by
  by_cases ha : c.autocommit = true
  · exact (Plain.answer ⟨ha, h.committed ha, h.progress⟩ hq).current
  obtain ⟨view, committed, autocommit, progress, now, ran, fault⟩ := c
  obtain rfl : autocommit = false := by simpa using ha
  cases q with
  | exec sql =>
    change (Conn.exec _ sql).2.Current
    rw [SQLiteWriter.exec_callRequest _ table hq]
    unfold execText
    cases E.exec view sql with
    | ok rows db => exact ⟨h.progress, fun hauto => by simp [put] at hauto⟩
    | error msg db => exact ⟨h.progress, fun hauto => by simp [put] at hauto⟩
    | rollback msg => exact ⟨h.progress, fun _ => rfl⟩
  | step sql binds rows =>
    change (Conn.step _ sql binds rows).2.Current
    unfold Conn.step
    cases E.prepare view sql with
    | error msg => exact h
    | ok u =>
      simp only
      split_ifs
      · exact ⟨h.progress, fun hauto => by simp [logged] at hauto⟩
      · cases (E.step view sql binds progress).finish with
        | done db =>
          simp only [Bool.false_and, Bool.false_eq_true, if_false]
          exact ⟨h.progress, fun hauto => by simp [put, logged] at hauto⟩
        | error rc => exact ⟨h.progress, fun hauto => by simp [logged] at hauto⟩
        | rollback rc => exact ⟨h.progress, fun _ => rfl⟩
  | prepare sql => exact h
  | bind arg => exact h
  | clearNull => exact ⟨h.progress, h.committed⟩
  | clock => exact hq.elim
  | progressHandler ttd => exact hq.elim

lemma step_selects {q : Bytes} (hq : Selects E q) (hc : c.autocommit = true → c.committed = c.view)
    (binds : List Value) (rows : Bool) : (c.step q binds rows).2.quiet = c.quiet := by
  have hreads := hq.reads c.view binds c.progress
  unfold step
  cases E.prepare c.view q with
  | error msg => rfl
  | ok u =>
    simp only
    split_ifs
    · rfl
    · cases hf : (E.step c.view q binds c.progress).finish with
      | done db =>
        rw [hf] at hreads
        obtain rfl : db = c.view := hreads
        simp only
        split_ifs
        · rfl
        · cases ha : c.autocommit with
          | true => simp [put, quiet, logged, ha, hc ha]
          | false => simp [put, quiet, logged, ha]
      | error rc => rfl
      | rollback rc =>
        rw [hf] at hreads
        exact hreads.elim

end Conn

namespace SQLiteWriter
variable {E : Engine} (w : SQLiteWriter) (c : Conn E)

lemma bindQuery_eq (n : ℕ) (values : List VarT) :
    bindQuery n values = bindValues [] n (values.map fun v => ([], v)) := by
  induction values generalizing n with
  | nil => rfl
  | cons v values ih =>
    simp only [bindQuery, List.map_cons, bindValues, ih]

lemma execPrep_selects {q : Bytes} (hq : Selects E q) (hc : c.Current) (msec : UInt32)
    (db : MiniSQLite) {s : Stmt} (hs : db.dStmts [] = some s) (hsql : s.sql = q) :
    ((MiniSQLite.execPrep [] true msec).invoke (Conn.answer E) db c).2.1 =
      db.setStmt [] (some (MiniSQLite.resetStmt s)) ∧
    ((MiniSQLite.execPrep [] true msec).invoke (Conn.answer E) db c).2.2.quiet = c.quiet := by
  subst hsql
  by_cases hm : msec = 0
  · subst hm
    rw [MiniSQLite.invoke_execPrep _ _ _ _ hs]
    exact ⟨rfl, Conn.step_selects hq hc.committed _ _⟩
  · have hstep := Conn.step_selects (c := { c with progress := some (deadline c.now msec) }) hq
      hc.committed s.binds true
    unfold invoke
    rw [MiniSQLite.script_execPrep_timed true hm, hs]
    refine ⟨rfl, ?_⟩
    have hnone := congrArg (fun d : Conn E => { d with progress := none }) hstep
    refine hnone.trans ?_
    have hp := hc.progress
    obtain ⟨view, committed, autocommit, progress, now, ran, fault⟩ := c
    simp only at hp
    subst hp
    rfl

/-- What a query does: it leaves the connection as it is, up to the log, and it changes no
statement but the one of the empty name. -/
lemma queryGen_selects {q : Bytes} (hq : Selects E q) (hc : c.Current) (values : List VarT)
    (msec : UInt32) :
    ((queryGen q values msec).invoke (Conn.answer E) w c).2.2.quiet = c.quiet ∧
    (((queryGen q values msec).invoke (Conn.answer E) w c).2.1 = w ∨
      ∃ o, (∀ s, o = some s → s.sql = q) ∧
        ((queryGen q values msec).invoke (Conn.answer E) w c).2.1 =
          w.setDb (w.dDb.setStmt [] o)) := by
  unfold queryGen
  rw [invoke_bind, invoke_get]
  by_cases hm : msec ≠ 0 ∧ w.dFlag ≠ .readOnly
  · simp only [if_pos hm]
    rw [invoke_bind, invoke_throw]
    exact ⟨rfl, Or.inl rfl⟩
  simp only [if_neg hm]
  rw [invoke_bind, invoke_onDb]
  cases hp : E.prepare c.view q with
  | error e =>
    rw [MiniSQLite.invoke_prepare_error _ _ _ (Sql.blank_of_isSelect hq.select) hp]
    exact ⟨rfl, Or.inr ⟨none, by simp, rfl⟩⟩
  | ok u =>
    rw [MiniSQLite.invoke_prepare_ok _ _ _ (Sql.blank_of_isSelect hq.select) hp]
    simp only
    rw [invoke_bind, bindQuery_eq, invoke_bindValues _ _ _ _ _
      (s := ⟨q, List.replicate (E.params q) .null, false⟩) (by simp) rfl]
    generalize bindAll E _ 1 _ = r
    obtain ⟨x, binds⟩ := r
    cases x with
    | error e => exact ⟨rfl, Or.inr ⟨some ⟨q, binds, false⟩, by simp, by simp⟩⟩
    | ok u =>
      simp only
      rw [invoke_onDb]
      obtain ⟨hdb, hconn⟩ := execPrep_selects c hq hc msec
        (w.dDb.setStmt [] (some ⟨q, binds, false⟩)) (s := ⟨q, binds, false⟩) (by simp) rfl
      simp only [setDb_dDb, setDb_setDb, MiniSQLite.setStmt_setStmt]
      refine ⟨hconn, Or.inr ⟨some (MiniSQLite.resetStmt ⟨q, binds, false⟩), ?_, ?_⟩⟩
      · rintro s ⟨⟩
        rfl
      · rw [hdb, MiniSQLite.setStmt_setStmt]

/-- The invariant of the caches among queries: but for the statement of a query, which may be held
under the empty name, the caches are right. -/
inductive QueryOk (E : Engine) (w : SQLiteWriter) : Prop
  | written : CacheOk E w → QueryOk E w
  | queried (s : Stmt) : CacheOk E (w.discard []) → w.dDb.dStmts [] = some s →
    Sql.isSelect s.sql = true → QueryOk E w

lemma QueryOk.discard {w : SQLiteWriter} (h : QueryOk E w) : CacheOk E (w.discard []) := by
  cases h with
  | written h => exact h.discard []
  | queried s h => exact h

/-- A call on the empty table name takes the statement of a query for its own. -/
def TakesQuery (w : SQLiteWriter) (k : Call) : Prop :=
  k.table = [] ∧ w.cached [] k.values k.replace = true ∧
    ∀ s, w.dDb.dStmts [] = some s → s.sql ≠ insertText k.replace [] k.names

lemma QueryOk.query {w : SQLiteWriter} (h : QueryOk E w) {q : Bytes} (hq : Selects E q)
    {c : Conn E} (hc : c.Current) (values : List VarT) (msec : UInt32) :
    QueryOk E ((queryGen q values msec).invoke (Conn.answer E) w c).2.1 := by
  obtain ⟨-, hw | ⟨o, ho, hw⟩⟩ := queryGen_selects w c hq hc values msec
  · rw [hw]
    exact h
  · rw [hw]
    cases o with
    | none => exact .written h.discard
    | some s =>
      refine .queried s ?_ (by simp) ((ho s rfl) ▸ hq.select)
      have hd : (w.setDb (w.dDb.setStmt [] (some s))).discard [] = w.discard [] := by
        simp [SQLiteWriter.discard]
      rw [hd]
      exact h.discard

end SQLiteWriter

namespace Call
open SQLiteWriter
variable {E : Engine} (k : Call) (w : SQLiteWriter) (c : Conn E)

lemma run_setStmt {other : Bytes} (h : k.table ≠ other) (o : Option Stmt) :
    k.run (w.setDb (w.dDb.setStmt other o)) c = ((k.run w c).1,
      (k.run w c).2.1.setDb ((k.run w c).2.1.dDb.setStmt other o), (k.run w c).2.2) := by
  have hs := script_addValueGeneric_frame (keepsCall_setStmt h o) w Iff.rfl k.values k.replace
  unfold Call.run invoke method
  rw [hs, Script.run_bind, Script.run_pure]

/-- A call among queries that does not collide keeps the invariant, and it has the effect that it
has with the statement of the query discarded. -/
theorem run_queryOk (h : QueryOk E w) (hc : ¬ w.TakesQuery k) :
    QueryOk E (k.run w c).2.1 ∧ SameEffect (k.run w c) (k.run (w.discard []) c) := by
  cases h with
  | written h =>
    refine ⟨.written (k.run_cacheOk w c h), ?_⟩
    exact k.run_forget c h (h.discard []) (by simp)
  | queried s h hs hsel =>
    by_cases ht : k.table = []
    · have hcached : w.cached k.table k.values k.replace = false := by
        by_contra hyes
        refine hc ⟨ht, by simpa [ht] using hyes, fun s' hs' htext => ?_⟩
        rw [hs] at hs'
        cases hs'
        rw [htext, Sql.isSelect_insertText] at hsel
        cases hsel
      have hcd : (w.discard k.table).cached k.table k.values k.replace = false := by
        simp [cached, MiniSQLite.isPrepared, SQLiteWriter.discard]
      rw [ht] at hcd
      refine ⟨?_, k.run_uncached c hcached (by rw [ht]; exact hcd) (by simp)⟩
      by_cases hf : w.dFlag = .readOnly
      · rw [run_readOnly k w c hf]
        exact .queried s h hs hsel
      have hw := run_rebuild k w c hf hcached
      have hd := run_rebuild k (w.discard k.table) c hf (by rw [ht]; exact hcd)
      have hok : CacheOk E (k.run (w.discard k.table) c).2.1 :=
        k.run_cacheOk _ c (by rw [ht]; exact h)
      rcases rebuild_discard w h.sorted c k.table k.values k.replace with
        ⟨e, v, c₁, hr, hdb, hr'⟩ | hr
      · rw [hr] at hw
        rw [hr'] at hd
        rw [hd, ht] at hok
        rw [hw]
        exact .queried s hok (by rw [hdb, hs]) hsel
      · rw [hr, ← hd] at hw
        rw [hw]
        exact .written hok
    · have hdiscard := k.run_setStmt w c ht none
      have hkeep := k.run_setStmt w c ht (some s)
      rw [MiniSQLite.setStmt_self _ _ _ hs, setDb_self] at hkeep
      have hok := k.run_cacheOk (w.discard []) c h
      refine ⟨.queried s ?_ ?_ hsel, ?_⟩
      · unfold SQLiteWriter.discard at hok
        rw [hdiscard] at hok
        exact hok
      · have hstmt := congrArg (fun r => r.2.1.dDb.dStmts []) hkeep
        refine hstmt.trans ?_
        simp
      · unfold SQLiteWriter.discard
        rw [hdiscard]
        exact ⟨rfl, rfl, by simp⟩

lemma run_current (hc : c.Current) : (k.run w c).2.2.Current :=
  Asks.preserves (h := Conn.answer E) (asks_addValueGeneric k.table k.values k.replace) Conn.Current
    (fun _ _ hq hs => hs.answer hq) hc

end Call

/-- What the threads of a program do with a writer. -/
inductive Use
  | event (ev : Event)
  | query (q : Bytes) (values : List VarT) (msec : UInt32)
  deriving DecidableEq, Repr

/-- The calls and the passes of the commit thread. -/
def writes (us : List Use) : List Event :=
  us.filterMap fun
    | .event ev => some ev
    | .query _ _ _ => none

namespace Sys
open SQLiteWriter
variable {E : Engine}

/-- One use of the writer; a query is a critical section too. -/
def use (s : Sys E) : Use → Sys E
  | .event ev => s.step ev
  | .query q values msec =>
    if s.crashed then s
    else
      let r := (queryGen q values msec).invoke (Conn.answer E) s.writer s.conn
      { s with writer := r.2.1, conn := r.2.2 }

def uses (s : Sys E) (us : List Use) : Sys E := us.foldl use s

/-- No call of a run takes the statement of a query for its own. -/
def NoCollision : Sys E → List Use → Prop
  | _, [] => True
  | s, u :: us => (∀ k, u = .event (.call k) → ¬ s.writer.TakesQuery k) ∧ (s.use u).NoCollision us

lemma noCollision_of_tables (s : Sys E) (us : List Use)
    (h : ∀ k, .event (.call k) ∈ us → k.table ≠ []) : s.NoCollision us := by
  induction us generalizing s with
  | nil => trivial
  | cons u us ih =>
    refine ⟨?_, ih (s.use u) fun k hk => h k (List.mem_cons_of_mem u hk)⟩
    rintro k rfl hcol
    exact h k List.mem_cons_self hcol.1

/-- A run with queries beside one without. -/
structure Beside (s t : Sys E) : Prop where
  alike : s.Alike t
  queryOk : QueryOk E s.writer
  cacheOk : CacheOk E t.writer
  current : s.conn.Current

variable {s t : Sys E}

lemma step_queryOk (s : Sys E) (ev : Event) (h : QueryOk E s.writer)
    (hcol : ∀ k, ev = .call k → ¬ s.writer.TakesQuery k) : QueryOk E (s.step ev).writer := by
  unfold Sys.step
  by_cases hc : s.crashed = true
  · rw [if_pos hc]
    exact h
  rw [if_neg hc]
  cases ev with
  | call k => exact (k.run_queryOk s.writer s.conn h (hcol k rfl)).1
  | poll =>
    simp only [commitThread_eq]
    split_ifs <;> exact h

lemma step_current (s : Sys E) (ev : Event) (h : s.conn.Current) : (s.step ev).conn.Current := by
  unfold Sys.step
  by_cases hc : s.crashed = true
  · rw [if_pos hc]
    exact h
  rw [if_neg hc]
  cases ev with
  | call k => exact k.run_current s.writer s.conn h
  | poll =>
    simp only [commitThread_eq]
    split_ifs
    · exact ⟨h.progress, fun _ => rfl⟩
    all_goals exact h

lemma Beside.step (h : s.Beside t) (ev : Event) (hcol : ∀ k, ev = .call k → ¬ s.writer.TakesQuery k) :
    (s.step ev).Beside (t.step ev) ∧
      ∃ o, (s.step ev).outcomes = s.outcomes ++ o ∧ (t.step ev).outcomes = t.outcomes ++ o := by
  have heff : ∀ k, ev = .call k → SameEffect (k.run s.writer s.conn) (k.run t.writer s.conn) := by
    intro k hev
    refine (k.run_queryOk s.writer s.conn h.queryOk (hcol k hev)).2.trans ?_
    exact k.run_forget s.conn h.queryOk.discard h.cacheOk (by simpa using h.alike.writer)
  obtain ⟨halike, hout⟩ := h.alike.step ev heff
  refine ⟨⟨halike, ?_, step_cacheOk t ev h.cacheOk, ?_⟩, hout⟩
  · exact step_queryOk s ev h.queryOk hcol
  · exact step_current s ev h.current

lemma Beside.query (h : s.Beside t) {q : Bytes} (hq : Selects E q) (values : List VarT)
    (msec : UInt32) : (s.use (.query q values msec)).Beside t ∧
      (s.use (.query q values msec)).outcomes = s.outcomes := by
  unfold use
  simp only
  split_ifs
  · exact ⟨h, rfl⟩
  obtain ⟨hconn, hwriter⟩ := queryGen_selects s.writer s.conn hq h.current values msec
  refine ⟨⟨⟨?_, hconn.trans h.alike.conn, h.alike.n, h.alike.crashed⟩,
    h.queryOk.query hq h.current values msec, h.cacheOk, ?_⟩, rfl⟩
  · rcases hwriter with hw | ⟨o, -, hw⟩
    · simp only [hw]
      exact h.alike.writer
    · simp only [hw, forget_setStmt]
      exact h.alike.writer
  · constructor
    · exact (congrArg (·.progress) hconn).trans h.current.progress
    · intro hauto
      have ha : s.conn.autocommit = true := (congrArg (·.autocommit) hconn).symm.trans hauto
      exact (congrArg (·.committed) hconn).trans
        ((h.current.committed ha).trans (congrArg (·.view) hconn).symm)

lemma Beside.uses (h : s.Beside t) (us : List Use)
    (hread : ∀ q values msec, .query q values msec ∈ us → Selects E q) (hcol : s.NoCollision us) :
    (s.uses us).Beside (t.run (writes us)) ∧
      ∃ o, (s.uses us).outcomes = s.outcomes ++ o ∧
        (t.run (writes us)).outcomes = t.outcomes ++ o := by
  induction us generalizing s t with
  | nil => exact ⟨h, [], by simp [Sys.uses], by simp [writes]⟩
  | cons u us ih =>
    have hrest : ∀ q values msec, .query q values msec ∈ us → Selects E q :=
      fun q values msec hq => hread q values msec (List.mem_cons_of_mem u hq)
    obtain ⟨hnow, hlater⟩ := hcol
    cases u with
    | event ev =>
      obtain ⟨hnext, o, ho, ho'⟩ := h.step ev fun k hk => hnow k (congrArg Use.event hk)
      obtain ⟨hend, os, hos, hos'⟩ := ih hnext hrest hlater
      refine ⟨hend, o ++ os, ?_, ?_⟩
      · refine hos.trans ?_
        rw [← List.append_assoc, ← ho]
      · refine hos'.trans ?_
        rw [ho', List.append_assoc]
    | query q values msec =>
      obtain ⟨hnext, ho⟩ := h.query (hread q values msec List.mem_cons_self) values msec
      obtain ⟨hend, os, hos, hos'⟩ := ih hnext hrest hlater
      refine ⟨hend, os, ?_, hos'⟩
      refine hos.trans ?_
      rw [ho]

lemma start_beside (flag : SQLWFlag) (columnMeta : Bytes → Bytes → Bytes) (db : E.Db) :
    (start E flag columnMeta db).Beside (start E flag columnMeta db) := by
  have hcache := start_cacheOk (E := E) flag columnMeta db
  refine ⟨⟨rfl, rfl, rfl, rfl⟩, .written hcache, hcache, ?_⟩
  rw [start_eq]
  exact ⟨rfl, fun _ => rfl⟩

/-- However queries stand between the calls and the passes of the commit thread, the same calls
return and the database is the same as without them, as long as no call takes the statement of a
query, under the empty table name, for its own. -/
theorem queries_do_not_disturb (flag : SQLWFlag) (columnMeta : Bytes → Bytes → Bytes) (db : E.Db)
    (us : List Use) (hread : ∀ q values msec, .query q values msec ∈ us → Selects E q)
    (hcol : (start E flag columnMeta db).NoCollision us) :
    ((start E flag columnMeta db).uses us).outcomes =
      ((start E flag columnMeta db).run (writes us)).outcomes ∧
    ((start E flag columnMeta db).uses us).conn.view =
      ((start E flag columnMeta db).run (writes us)).conn.view ∧
    ((start E flag columnMeta db).uses us).conn.committed =
      ((start E flag columnMeta db).run (writes us)).conn.committed := by
  obtain ⟨hend, o, ho, ho'⟩ := (start_beside (E := E) flag columnMeta db).uses us hread hcol
  exact ⟨ho.trans ho'.symm, congrArg (·.view) hend.alike.conn, congrArg (·.committed) hend.alike.conn⟩

lemma selects_of_read {D : Decisions} {q : Bytes} (ref : TableRef)
    (hr : Sql.read q = some (.selectAll ref)) (hs : Sql.isSelect q = true) : Selects D.engine q := by
  have hstep : ∀ (db : Db) binds, (D.step db q binds).finish = .done db ∨
      (D.step db q binds).finish = .error 1 := by
    intro db binds
    unfold Decisions.step
    rw [hr]
    cases ht : db.resolve ref with
    | none => exact Or.inr (by simp only [ht])
    | some t => exact Or.inl (by simp only [ht])
  refine ⟨hs, fun db binds ttd => ?_⟩
  rcases hstep db binds with h | h
  · have hdone : (D.engine.step db q binds ttd).finish = .done db := h
    rw [hdone]
  · have herror : (D.engine.step db q binds ttd).finish = .error 1 := h
    rw [herror]
    trivial

/-- A row, a look at the table, and one more row. -/
theorem queries_do_not_disturb_oneTable :
    let us : List Use := [.event (.call ⟨ascii "data", [(ascii "a", .int32 1)], false⟩),
      .query (ascii "select * from \"data\"") [] 0, .event .poll,
      .event (.call ⟨ascii "data", [(ascii "a", .int32 2)], false⟩)]
    ((start Reference.engine .noFlag (fun _ _ => []) Db.empty).uses us).outcomes =
      ((start Reference.engine .noFlag (fun _ _ => []) Db.empty).run (writes us)).outcomes := by
  intro us
  refine (queries_do_not_disturb (E := Reference.engine) .noFlag (fun _ _ => []) Db.empty us ?_
    (noCollision_of_tables _ us ?_)).1
  · intro q values msec hq
    have hquery : q = ascii "select * from \"data\"" ∧ values = [] ∧ msec = 0 := by
      simpa [us] using hq
    rw [hquery.1]
    exact selects_of_read ⟨none, ascii "data"⟩ (by decide +kernel) (by decide +kernel)
  · intro k hk
    have hkt : k.table = ascii "data" := by
      rcases (by simpa [us] using hk : k = _ ∨ k = _) with rfl | rfl <;> rfl
    rw [hkt]
    decide

/-- A query between two calls on the table of the empty name makes the second one throw. -/
theorem query_breaks_empty_table :
    let first : Call := ⟨[], [(ascii "a", .int32 1)], false⟩
    let second : Call := ⟨[], [(ascii "a", .int32 2)], false⟩
    let us : List Use := [.event (.call first), .query (ascii "select * from \"\"") [] 0,
      .event (.call second)]
    Sql.isSelect (ascii "select * from \"\"") = true ∧
    ((start Reference.engine .noFlag (fun _ _ => []) Db.empty).uses us).outcomes =
      [(first, true), (second, false)] ∧
    ((start Reference.engine .noFlag (fun _ _ => []) Db.empty).run (writes us)).outcomes =
      [(first, true), (second, true)] := by
  decide +kernel

end Sys
end SqliteWrite
