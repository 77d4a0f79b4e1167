import SqliteWrite.Lib.Locking
import SqliteWrite.Writer.Queries

/-! The threads of a program that share a writer, and its commit thread. Each critical section of the
mutex is a sequence of requests, and between any two of them the scheduler may turn to another thread; the
runs of `Sys` take a critical section as one step. -/
namespace SqliteWrite
open Method

/-- What a thread of the program asks of the writer. -/
inductive Job
  | call (k : Call)
  | query (q : Bytes) (values : List VarT) (msec : UInt32)
  deriving DecidableEq, Repr

def Job.use : Job → Use
  | call k => .event (.call k)
  | query q values msec => .query q values msec

/-- How a use of the writer ends; `ticked` tells whether the pass of the commit thread returned, and
`gone` that the process had been terminated. -/
inductive Result
  | wrote (r : Except Bytes Unit)
  | read (r : Except Bytes (List (Bytes → Option OutVar)))
  | ticked (ok : Bool)
  | gone

/-- A thread of the program with its jobs and what has become of those that are done, or the commit
thread with its counter, which ends when an exception leaves it. -/
inductive Local
  | user (todo : List Job) (done : List (Use × Result))
  | committer (n : ℕ)
  | ended (n : ℕ)

/-- What the mutex protects. -/
structure Protected where
  writer : SQLiteWriter
  crashed : Bool

/-- The critical sections. -/
inductive Section
  | job (j : Job)
  | tick

namespace Section
open SQLiteWriter

/-- The code under the mutex, which is unlocked when the scope is left, also by an exception. -/
def body : Section → Protected → Script Request Reply (Result × Protected)
  | .job (.call k), o =>
    if o.crashed then pure (.gone, o)
    else k.method.script o.writer >>= fun r => pure (.wrote r.1, ⟨r.2, false⟩)
  | .job (.query q values msec), o =>
    if o.crashed then pure (.gone, o)
    else (queryGen q values msec).script o.writer >>= fun r => pure (.read r.1, ⟨r.2, false⟩)
  | .tick, o =>
    if o.crashed then pure (.gone, o)
    else (onDb MiniSQLite.cycle).script o.writer >>= fun r => pure (.ticked r.1.isOk, ⟨r.2, !r.1.isOk⟩)

end Section

namespace Local

def readOnlyError : Except Bytes Unit :=
  .error (ascii "Attempting to write to a read-only database instance")

def timeoutError : Except Bytes (List (Bytes → Option OutVar)) :=
  .error (ascii "Timeout only possible for read-only connections")

/-- What a thread does next. The checks of the flag are made before the mutex is locked; the passes of
the commit thread lock it every 20th time. -/
def act (flag : SQLWFlag) : Local → Act Local Result Section
  | .user [] _ => .halt
  | .user (.call k :: todo) done =>
    if flag = .readOnly then .move (.user todo (done ++ [(Job.use (.call k), .wrote readOnlyError)]))
    else .enter (.job (.call k)) fun r => .user todo (done ++ [(Job.use (.call k), r)])
  | .user (.query q values msec :: todo) done =>
    if msec ≠ 0 ∧ flag ≠ .readOnly then
      .move (.user todo (done ++ [(Job.use (.query q values msec), .read timeoutError)]))
    else .enter (.job (.query q values msec)) fun r => .user todo (done ++ [(Job.use (.query q values msec), r)])
  | .committer n =>
    if n % 20 = 0 then
      .enter .tick fun r => match r with
        | .ticked true => .committer (n + 1)
        | _ => .ended (n + 1)
    else .move (.committer (n + 1))
  | .ended _ => .halt

/-- The use of the writer that a thread is about to make. -/
def next : Local → Option Use
  | .user (j :: _) _ => some j.use
  | .committer _ => some (.event .poll)
  | _ => none

end Local

/-- The code of the threads of a writer. -/
def threads (flag : SQLWFlag) : Code Request Reply Local Protected Result Section := ⟨Local.act flag, Section.body⟩

namespace Sys
variable {E : Engine} {τ : Type} [DecidableEq τ]

/-- What a use of the writer returns. A time limit is refused before the mutex is locked. -/
def result (s : Sys E) : Use → Result
  | .event (.call k) => if s.crashed then .gone else .wrote (k.run s.writer s.conn).1
  | .event .poll => .ticked (!(s.use (.event .poll)).crashed)
  | .query q values msec =>
    if s.crashed ∧ ¬ (msec ≠ 0 ∧ s.writer.dFlag ≠ .readOnly) then .gone
    else .read ((SQLiteWriter.queryGen q values msec).invoke (Conn.answer E) s.writer s.conn).1

/-- The results of uses that are made one after the other, each by some thread. -/
def results {ι : Type} : Sys E → List (ι × Use) → List (ι × Use × Result)
  | _, [] => []
  | s, (i, u) :: us => (i, u, s.result u) :: (s.use u).results us

/-- A thread of the program for each `some t`, and the commit thread, which a writer in transaction mode
has. -/
def begin (E : Engine) (flag : SQLWFlag) (columnMeta : Bytes → Bytes → Bytes) (db : E.Db)
    (jobs : τ → List Job) : Shared (Option τ) Local Protected (Conn E) where
  locals
    | none => if flag = .noFlag then .committer 0 else .ended 0
    | some t => .user (jobs t) []
  object := ⟨(start E flag columnMeta db).writer, false⟩
  server := (start E flag columnMeta db).conn

end Sys

namespace Shared
variable {E : Engine} {ι : Type} [DecidableEq ι]

/-- The uses that the threads make when they take whole turns. -/
def uses (flag : SQLWFlag) : Shared ι Local Protected (Conn E) → List ι → List (ι × Use)
  | _, [] => []
  | x, i :: is =>
    ((x.locals i).next.map (i, ·)).toList ++ (x.turn (Conn.answer E) (threads flag) i).uses flag is

end Shared

namespace Sys
variable {E : Engine} {τ : Type} [DecidableEq τ] {flag : SQLWFlag} {jobs : τ → List Job}

/-- What a thread has made of the uses of a run. -/
def made {ι : Type} [DecidableEq ι] (us : List (ι × Use × Result)) (i : ι) : List (Use × Result) :=
  (us.filter fun e => e.1 = i).map (·.2)

@[simp] lemma made_snoc {ι : Type} [DecidableEq ι] (us : List (ι × Use × Result)) (i i' : ι) (e : Use × Result) :
    made (us ++ [(i, e)]) i' = made us i' ++ if i = i' then [e] else [] := by
  by_cases h : i = i' <;> simp [made, h]

/-- The threads between two critical sections, and the writer after the uses `us`. -/
structure Serial (flag : SQLWFlag) (jobs : τ → List Job) (x : Shared (Option τ) Local Protected (Conn E))
    (s : Sys E) (us : List (Option τ × Use × Result)) : Prop where
  writer : x.object.writer = s.writer
  conn : x.server = s.conn
  crashed : x.object.crashed = s.crashed
  dFlag : s.writer.dFlag = flag
  committer : (x.locals none = .committer s.n ∧ s.crashed = false ∧ flag = .noFlag) ∨
    (x.locals none = .ended s.n ∧ (s.crashed = true → flag = .noFlag))
  user : ∀ t, ∃ todo, x.locals (some t) = .user todo (made us (some t)) ∧
    (made us (some t)).map (·.1) ++ todo.map Job.use = (jobs t).map Job.use

end Sys

namespace SQLiteWriter
variable {E : Engine} (w : SQLiteWriter) (c : Conn E)

lemma queryGen_refused (q : Bytes) (values : List VarT) {msec : UInt32} (h : msec ≠ 0 ∧ w.dFlag ≠ .readOnly) :
    (queryGen q values msec).invoke (Conn.answer E) w c =
      (.error (ascii "Timeout only possible for read-only connections"), w, c) := by
  unfold queryGen
  rw [invoke_bind, invoke_get]
  simp only [if_pos h]
  rw [invoke_bind, invoke_throw]

lemma queryGen_dFlag (q : Bytes) (values : List VarT) (msec : UInt32) :
    ((queryGen q values msec).invoke (Conn.answer E) w c).2.1.dFlag = w.dFlag := by
  have hdb : ∀ {α : Type} (m : MiniSQLite.M α), Triple (Conn.answer E) (fun v _ => v.dFlag = w.dFlag) (onDb m)
      (fun _ v _ => v.dFlag = w.dFlag) fun _ v _ => v.dFlag = w.dFlag := by
    intro α m v s hv
    rw [invoke_onDb]
    cases (m.invoke (Conn.answer E) v.dDb s).1 <;> exact hv
  have hbind : ∀ n, Triple (Conn.answer E) (fun v _ => v.dFlag = w.dFlag) (bindQuery n values)
      (fun _ v _ => v.dFlag = w.dFlag) fun _ v _ => v.dFlag = w.dFlag := by
    induction values with
    | nil => exact fun n => Triple.pure fun _ _ h => h
    | cons p values ih => exact fun n => (hdb _).bind fun _ => ih (n + 1)
  have hquery : Triple (Conn.answer E) (fun v _ => v.dFlag = w.dFlag) (queryGen q values msec)
      (fun _ v _ => v.dFlag = w.dFlag) fun _ v _ => v.dFlag = w.dFlag := by
    unfold queryGen
    refine Triple.bind (R := fun (_ v : SQLiteWriter) (_ : Conn E) => v.dFlag = w.dFlag) (fun _ _ h => h) fun v => ?_
    have hrun := (hdb (MiniSQLite.prepare [] q)).bind fun _ =>
      (hbind 1).bind fun _ => hdb (MiniSQLite.execPrep [] true msec)
    split_ifs
    · exact (Triple.throw fun _ _ h => h).bind fun _ => hrun
    · exact hrun
  exact hquery.final rfl

end SQLiteWriter

namespace Sys
variable {E : Engine} {τ : Type} [DecidableEq τ] {flag : SQLWFlag} {jobs : τ → List Job}
  {x : Shared (Option τ) Local Protected (Conn E)} {s : Sys E} {us : List (Option τ × Use × Result)}

lemma use_job (s : Sys E) (j : Job) : (s.use j.use).writer.dFlag = s.writer.dFlag ∧ (s.use j.use).n = s.n ∧
    (s.use j.use).crashed = s.crashed := by
  cases j with
  | call k =>
    by_cases hc : s.crashed = true
    · simp [Job.use, use, step, hc]
    · have hstep : s.use (Job.call k).use = s.addCall k := by simp [Job.use, use, step, hc]
      rw [hstep]
      refine ⟨?_, rfl, rfl⟩
      by_cases hw : s.writer.dFlag = .readOnly
      · simp only [addCall, k.run_readOnly s.writer s.conn hw]
      · exact (k.run_mode s.writer s.conn hw).1
  | query q values msec =>
    unfold Job.use use
    simp only
    split_ifs
    · exact ⟨rfl, rfl, rfl⟩
    · exact ⟨SQLiteWriter.queryGen_dFlag s.writer s.conn q values msec, rfl, rfl⟩

lemma Serial.job (hx : Serial flag jobs x s us) {t : τ} {j : Job} {todo : List Job}
    (hjobs : (made us (some t)).map (·.1) ++ (j :: todo).map Job.use = (jobs t).map Job.use) :
    Serial flag jobs ⟨Function.update x.locals (some t) (.user todo
        (made us (some t) ++ [(j.use, s.result j.use)])),
      ⟨(s.use j.use).writer, (s.use j.use).crashed⟩, (s.use j.use).conn⟩ (s.use j.use)
      (us ++ [(some t, j.use, s.result j.use)]) := by
  obtain ⟨hflag, hn, hcrashed⟩ := s.use_job j
  constructor
  · rfl
  · rfl
  · rfl
  · exact hflag.trans hx.dFlag
  · rw [hn, hcrashed]
    exact hx.committer
  · intro t'
    by_cases ht : t = t'
    · subst ht
      exact ⟨todo, by simp, by simpa using hjobs⟩
    · have hne : some t ≠ some t' := fun h => ht (Option.some.inj h)
      obtain ⟨todo', huser, hdone⟩ := hx.user t'
      refine ⟨todo', ?_, ?_⟩
      · simp [Function.update_of_ne (Ne.symm hne), huser, ht]
      · simpa [ht] using hdone

lemma Serial.running (hx : Serial flag jobs x s us) (hflag : flag ≠ .noFlag) : s.crashed = false := by
  rcases hx.committer with ⟨-, h, -⟩ | ⟨-, h⟩
  · exact h
  · exact Bool.eq_false_iff.mpr fun hc => hflag (h hc)

/-- The step lemma for the threads of the program. -/
lemma Serial.turn_job (hx : Serial flag jobs x s us) {t : τ} {j : Job} {todo : List Job}
    {done : List (Use × Result)} (hlocal : x.locals (some t) = .user (j :: todo) done) :
    x.turn (Conn.answer E) (threads flag) (some t) =
      ⟨Function.update x.locals (some t) (.user todo (done ++ [(j.use, s.result j.use)])),
        ⟨(s.use j.use).writer, (s.use j.use).crashed⟩, (s.use j.use).conn⟩ := by
  have hrunning := hx.running
  have hdFlag := hx.dFlag
  have hwriter := hx.writer
  have hconn := hx.conn
  have hcrashed := hx.crashed
  obtain ⟨locals, ⟨writer, crashed⟩, server⟩ := x
  simp only at hwriter hconn hcrashed hlocal
  subst hwriter hconn hcrashed
  simp only [Shared.turn, threads, hlocal]
  cases j with
  | call k =>
    by_cases hro : flag = .readOnly
    · -- The call is refused before the mutex is locked.
      have hc := hrunning (by simp [hro])
      have hrun := k.run_readOnly s.writer s.conn (hdFlag.trans hro)
      simp only [Local.act, hro, if_true]
      simp [Job.use, use, step, addCall, result, hc, hrun, Local.readOnlyError]
    · simp only [Local.act, if_neg hro]
      by_cases hc : s.crashed = true
      · simp [Shared.finish, Section.body, Job.use, use, step, result, hc]
      · simp [-bind_pure_comp, Shared.finish, Section.body, Job.use, use, step, result, addCall, hc, Call.run,
          invoke]
  | query q values msec =>
    by_cases hm : msec ≠ 0 ∧ flag ≠ .readOnly
    · -- So is a time limit on a writer that is not read-only.
      have hrefused := SQLiteWriter.queryGen_refused s.writer s.conn q values ⟨hm.1, by rw [hdFlag]; exact hm.2⟩
      have huse : s.use (Use.query q values msec) = s := by
        simp [use, hrefused]
      have hresult : s.result (Use.query q values msec) = .read Local.timeoutError := by
        simp [result, hdFlag, hm, hrefused, Local.timeoutError]
      simp only [Local.act, if_pos hm, Job.use, huse, hresult]
    · simp only [Local.act, if_neg hm]
      by_cases hc : s.crashed = true
      · have hresult : s.result (.query q values msec) = .gone := by
          simp only [result, hdFlag]
          exact if_pos ⟨hc, hm⟩
        simp only [Shared.finish, Section.body, Job.use, use, hresult]
        simp [hc]
      · simp [-bind_pure_comp, Shared.finish, Section.body, Job.use, use, result, hc, invoke]

lemma Serial.user_poll (hx : Serial flag jobs x s us) (e : Use × Result) :
    ∀ t, ∃ todo, x.locals (some t) = .user todo (made (us ++ [(none, e)]) (some t)) ∧
      (made (us ++ [(none, e)]) (some t)).map (·.1) ++ todo.map Job.use = (jobs t).map Job.use := by
  intro t
  obtain ⟨todo, hlocal, hjobs⟩ := hx.user t
  refine ⟨todo, ?_, ?_⟩
  · simp [hlocal]
  · simpa using hjobs

/-- The step lemma for the commit thread. -/
lemma Serial.turn_poll (hx : Serial flag jobs x s us) (hlocal : x.locals none = .committer s.n)
    (hc : s.crashed = false) (hflag : flag = .noFlag) :
    Serial flag jobs (x.turn (Conn.answer E) (threads flag) none) (s.use (.event .poll))
      (us ++ [(none, .event .poll, s.result (.event .poll))]) := by
  have hdFlag := hx.dFlag
  have huser := hx.user_poll
  have hwriter := hx.writer
  have hconn := hx.conn
  have hcrashed := hx.crashed
  obtain ⟨locals, ⟨writer, crashed⟩, server⟩ := x
  simp only at hwriter hconn hcrashed hlocal huser
  subst hwriter hconn hcrashed hflag
  have huse : s.use (.event .poll) = s.commitThread := by simp [use, step, hc, hdFlag]
  simp only [Shared.turn, threads, hlocal, Local.act]
  rw [huse]
  by_cases hn : s.n % 20 = 0
  · have hbody : (Section.body .tick ⟨s.writer, s.crashed⟩).run (Conn.answer E) s.conn =
        ((.ticked (!s.commitThread.crashed), ⟨s.commitThread.writer, s.commitThread.crashed⟩),
          s.commitThread.conn) := by
      simp [-bind_pure_comp, Section.body, hc, commitThread, hn, invoke]
    have hstays : s.commitThread.writer.dFlag = .noFlag := by
      simp [commitThread, hn, hdFlag]
    have hnext : s.commitThread.n = s.n + 1 := by simp [commitThread, hn]
    simp only [if_pos hn, Shared.finish, hbody]
    constructor
    · rfl
    · rfl
    · rfl
    · exact hstays
    · cases hcrash : s.commitThread.crashed with
      | false => exact Or.inl ⟨by simp [hnext], rfl, rfl⟩
      | true => exact Or.inr ⟨by simp [hnext], fun _ => rfl⟩
    · exact huser _
  · simp only [if_neg hn, commitThread]
    constructor
    · rfl
    · rfl
    · rfl
    · exact hdFlag
    · exact Or.inl ⟨by simp, hc, rfl⟩
    · exact huser _

lemma Serial.turn (hx : Serial flag jobs x s us) (i : Option τ) :
    ((x.locals i).next = none ∧ x.turn (Conn.answer E) (threads flag) i = x) ∨
    ∃ u, (x.locals i).next = some u ∧ Serial flag jobs (x.turn (Conn.answer E) (threads flag) i) (s.use u)
      (us ++ [(i, u, s.result u)]) := by
  cases i with
  | none =>
    rcases hx.committer with ⟨hlocal, hc, hflag⟩ | ⟨hlocal, -⟩
    · exact Or.inr ⟨.event .poll, by rw [hlocal]; rfl, hx.turn_poll hlocal hc hflag⟩
    · refine Or.inl ⟨by rw [hlocal]; rfl, ?_⟩
      simp only [Shared.turn, threads, hlocal, Local.act]
  | some t =>
    obtain ⟨todo, hlocal, hjobs⟩ := hx.user t
    cases todo with
    | nil =>
      refine Or.inl ⟨by rw [hlocal]; rfl, ?_⟩
      simp only [Shared.turn, threads, hlocal, Local.act]
    | cons j todo =>
      refine Or.inr ⟨j.use, by rw [hlocal]; rfl, ?_⟩
      rw [hx.turn_job hlocal]
      exact hx.job hjobs

/-- The run lemma: whole turns of the threads make a run of uses. -/
lemma Serial.run (hx : Serial flag jobs x s us) (is : List (Option τ)) :
    Serial flag jobs (x.run (Conn.answer E) (threads flag) is) (s.uses ((x.uses flag is).map (·.2)))
      (us ++ s.results (x.uses flag is)) := by
  induction is generalizing x s us with
  | nil => simpa [Shared.run, Shared.uses, Sys.uses, results] using hx
  | cons i is ih =>
    rcases hx.turn i with ⟨hnext, hturn⟩ | ⟨u, hnext, hturn⟩
    · have huses : x.uses flag (i :: is) = x.uses flag is := by simp [Shared.uses, hnext, hturn]
      have hrun : x.run (Conn.answer E) (threads flag) (i :: is) = x.run (Conn.answer E) (threads flag) is := by
        simp [Shared.run, hturn]
      rw [huses, hrun]
      exact ih hx
    · have huses : x.uses flag (i :: is) =
          (i, u) :: (x.turn (Conn.answer E) (threads flag) i).uses flag is := by
        simp [Shared.uses, hnext]
      have hrest := ih hturn
      rw [List.append_assoc] at hrest
      rw [huses]
      exact hrest

lemma begin_serial (flag : SQLWFlag) (columnMeta : Bytes → Bytes → Bytes) (db : E.Db) (jobs : τ → List Job) :
    Serial flag jobs (begin E flag columnMeta db jobs) (start E flag columnMeta db) [] := by
  have hstart := start_eq E flag columnMeta db
  constructor
  · rfl
  · rfl
  · rw [hstart]
    rfl
  · rw [hstart]
    rfl
  · cases flag with
    | noFlag => exact Or.inl ⟨rfl, rfl, rfl⟩
    | readOnly => exact Or.inr ⟨rfl, fun h => by cases h⟩
    | noTransactions => exact Or.inr ⟨rfl, fun h => by cases h⟩
  · exact fun t => ⟨jobs t, rfl, rfl⟩

lemma uses_prefix (x : Shared (Option τ) Local Protected (Conn E)) (is js : List (Option τ)) :
    x.uses flag is <+: x.uses flag (is ++ js) := by
  induction is generalizing x with
  | nil => exact List.nil_prefix
  | cons i is ih =>
    apply (List.prefix_append_right_inj _).mpr
    exact ih _

lemma uses_sublist (x : Shared (Option τ) Local Protected (Conn E)) (is : List (Option τ)) :
    ((x.uses flag is).map (·.1)).Sublist is := by
  induction is generalizing x with
  | nil => exact List.Sublist.refl []
  | cons i is ih =>
    have hrest := ih (x.turn (Conn.answer E) (threads flag) i)
    unfold Shared.uses
    cases (x.locals i).next with
    | none => exact hrest.cons i
    | some u => exact hrest.cons_cons i

/-- A run of the threads, with the scheduler free to turn to another thread between any two requests. -/
def interleave (E : Engine) (flag : SQLWFlag) (columnMeta : Bytes → Bytes → Bytes) (db : E.Db)
    (jobs : τ → List Job) (is : List (Option τ)) : Locked (Option τ) Request Reply Local Protected Result (Conn E) :=
  Locked.run (Conn.answer E) (threads flag) ⟨begin E flag columnMeta db jobs, none⟩ is

/-- The uses that a run makes, in the order in which the mutex was locked. -/
def lockOrder (E : Engine) (flag : SQLWFlag) (columnMeta : Bytes → Bytes → Bytes) (db : E.Db)
    (jobs : τ → List Job) (is : List (Option τ)) : List (Option τ × Use) :=
  (begin E flag columnMeta db jobs).uses flag
    (Locked.order (Conn.answer E) (threads flag) ⟨begin E flag columnMeta db jobs, none⟩ is)

lemma interleave_serial (flag : SQLWFlag) (columnMeta : Bytes → Bytes → Bytes) (db : E.Db)
    (jobs : τ → List Job) (is : List (Option τ)) :
    Serial flag jobs ((interleave E flag columnMeta db jobs is).whole (Conn.answer E))
      ((start E flag columnMeta db).uses ((lockOrder E flag columnMeta db jobs is).map (·.2)))
      ((start E flag columnMeta db).results (lockOrder E flag columnMeta db jobs is)) := by
  unfold interleave
  rw [Locked.whole_run]
  exact (begin_serial flag columnMeta db jobs).run _

/-- Threads that share a writer, in any interleaving. What a run makes of the writer, of the database and
of every thread is what uses of the writer make that are one step each, in the order in which the mutex was
locked: each thread makes its uses in the order of its program, with the results that they have in that
order, and a use that is over comes in front of those that begin later. Every order of whole turns is the
order of some run. -/
theorem threads_linearize (flag : SQLWFlag) (columnMeta : Bytes → Bytes → Bytes) (db : E.Db)
    (jobs : τ → List Job) :
    (∀ is, Serial flag jobs ((interleave E flag columnMeta db jobs is).whole (Conn.answer E))
      ((start E flag columnMeta db).uses ((lockOrder E flag columnMeta db jobs is).map (·.2)))
      ((start E flag columnMeta db).results (lockOrder E flag columnMeta db jobs is))) ∧
    (∀ is js, lockOrder E flag columnMeta db jobs is <+: lockOrder E flag columnMeta db jobs (is ++ js)) ∧
    (∀ is, ((lockOrder E flag columnMeta db jobs is).map (·.1)).Sublist is) ∧
    ∀ is, ∃ js, interleave E flag columnMeta db jobs js =
      ⟨(begin E flag columnMeta db jobs).run (Conn.answer E) (threads flag) is, none⟩ := by
  refine ⟨interleave_serial flag columnMeta db jobs, ?_, ?_, ?_⟩
  · intro is js
    unfold lockOrder
    rw [Locked.order_append]
    exact uses_prefix _ _ _
  · intro is
    exact (uses_sublist _ _).trans (Locked.order_sublist _ is)
  · intro is
    exact Locked.run_reaches _ is

end Sys
end SqliteWrite
