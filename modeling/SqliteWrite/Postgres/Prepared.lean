import Mathlib.Data.List.Induction
import SqliteWrite.Postgres.Reading

/-! The prepared statements of `MiniPSQL`. It keeps the text of each table's statement and the parameters
bound for it, beside the session of the server, which keeps the statements themselves. -/
namespace SqliteWrite.Psql.Prepared
open Method

/-- `d_stmts` and `d_params`, by table name. -/
@[ext] structure MiniPSQL where
  dStmts : Bytes → Option Bytes
  dParams : Bytes → List Bytes

inductive Request
  | exec (query : Bytes)
  | prepare (name query : Bytes) (paramsize : ℕ)
  | execPrepared (name : Bytes) (params : List Bytes)
  deriving DecidableEq, Repr

abbrev Reply : Request → Type
  | .exec _ => Except Bytes Rows
  | .prepare _ _ _ => Except Bytes Unit
  | .execPrepared _ _ => Except Bytes Rows

abbrev M := Method Request Reply MiniPSQL

def procedureName (table : Bytes) : Bytes := ascii "procedure_" ++ table

namespace MiniPSQL

def isPrepared (c : MiniPSQL) (table : Bytes) : Bool := (c.dStmts table).isSome

def exec (query : Bytes) : M Rows := do
  match ← Method.ask (Request.exec (cstr query)) with
  | .ok rows => pure (rows.takeWhile fun row => !row.isEmpty)
  | .error msg => throw (ascii "query error: " ++ msg)

/-- `d_stmts[table]`, which makes an empty entry where there is none. -/
def stmtText (table : Bytes) : M Bytes := do
  modify fun c => { c with dStmts := Function.update c.dStmts table (some ((c.dStmts table).getD [])) }
  let c ← get
  pure ((c.dStmts table).getD [])

def prepare (table str : Bytes) (paramsize : ℕ) : M Unit := do
  let held ← stmtText table
  if !held.isEmpty then
    let _ ← exec (ascii "deallocate " ++ procedureName table)
  modify fun c =>
    ⟨Function.update c.dStmts table (some str), Function.update c.dParams table []⟩
  match ← Method.ask (Request.prepare (cstr (procedureName table)) (cstr str) paramsize) with
  | .ok _ => pure ()
  | .error msg => throw (ascii "prepare error: " ++ msg)

/-- The vector is made long enough, then the value is put into its place. -/
def setParam (params : List Bytes) (pos : ℕ) (value : Bytes) : List Bytes :=
  (params ++ List.replicate (pos + 1 - params.length) []).set pos value

/-- `bindPrep` with the index `pos + 1`; the indices count from 1. -/
def bindPrep (table : Bytes) (pos : ℕ) (value : Bytes) : M Unit :=
  modify fun c =>
    { c with dParams := Function.update c.dParams table (setParam (c.dParams table) pos value) }

def execPrep (table : Bytes) : M Unit := do
  let c ← get
  match ← Method.ask (Request.execPrepared (cstr (procedureName table)) ((c.dParams table).map cstr)) with
  | .ok _ => modify fun c => { c with dParams := Function.update c.dParams table [] }
  | .error msg => throw (ascii "prepared query error: " ++ msg)

end MiniPSQL

/-- A PostgreSQL server apart from its prepared statements: its key words, which texts it prepares, and
how it executes a prepared text and any other text, which may change the prepared statements too. -/
structure Backend where
  State : Type
  reserved : Bytes → Bool
  prepare : State → Bytes → ℕ → Except Bytes Unit
  execute : State → Bytes → List Bytes → Except Bytes Rows × State
  exec : State → (Bytes → Option Bytes) → Bytes → Except Bytes Rows × State × (Bytes → Option Bytes)

/-- A session: the database, and the texts of the prepared statements by their names. -/
@[ext] structure Session (B : Backend) where
  db : B.State
  stmts : Bytes → Option Bytes

/-- The statement that a text deallocates: an unquoted name is folded to lower case. -/
def deallocated (reserved : Bytes → Bool) (query : Bytes) : Option Bytes :=
  match Tokens.tokens Reading.closer query with
  | some [.word w, t] => if fold w = ascii "deallocate" then Reading.name reserved t else none
  | _ => none

def missing (name : Bytes) : Bytes :=
  ascii "prepared statement \"" ++ name ++ ascii "\" does not exist"

def present (name : Bytes) : Bytes :=
  ascii "prepared statement \"" ++ name ++ ascii "\" already exists"

/-- The server answers one request of a session. -/
def answer (B : Backend) : (q : Request) → Session B → Reply q × Session B
  | .exec query, s =>
    match deallocated B.reserved query with
    | some name =>
      if (s.stmts name).isSome then (.ok [], { s with stmts := Function.update s.stmts name none })
      else (.error (missing name), s)
    | none => ((B.exec s.db s.stmts query).1, ⟨(B.exec s.db s.stmts query).2.1, (B.exec s.db s.stmts query).2.2⟩)
  | .prepare name query paramsize, s =>
    if (s.stmts name).isSome then (.error (present name), s)
    else match B.prepare s.db query paramsize with
      | .ok _ => (.ok (), { s with stmts := Function.update s.stmts name (some query) })
      | .error e => (.error e, s)
  | .execPrepared name params, s =>
    match s.stmts name with
    | some query => ((B.execute s.db query params).1, { s with db := (B.execute s.db query params).2 })
    | none => (.error (missing name), s)

inductive Call
  | prepare (table str : Bytes) (paramsize : ℕ)
  | bindPrep (table : Bytes) (pos : ℕ) (value : Bytes)
  | execPrep (table : Bytes)
  | exec (query : Bytes)
  deriving DecidableEq, Repr

namespace Call

def method : Call → M Unit
  | prepare table str paramsize => MiniPSQL.prepare table str paramsize
  | bindPrep table pos value => MiniPSQL.bindPrep table pos value
  | execPrep table => MiniPSQL.execPrep table
  | exec query => do
    let _ ← MiniPSQL.exec query

/-- The text last passed to `prepare` for each table, after one more call. -/
def passed : Call → (Bytes → Option Bytes) → Bytes → Option Bytes
  | prepare table str _, texts => Function.update texts table (some str)
  | _, texts => texts

/-- The parameters bound for each table since the last `prepare` or attempt of `execPrep`. -/
def bound : Call → (Bytes → List Bytes) → Bytes → List Bytes
  | prepare table _ _, params => Function.update params table []
  | bindPrep table pos value, params =>
    Function.update params table (MiniPSQL.setParam (params table) pos value)
  | execPrep table, params => Function.update params table []
  | exec _, params => params

end Call

def lastText (calls : List Call) : Bytes → Option Bytes :=
  calls.foldl (fun texts call => call.passed texts) fun _ => none

def boundParams (calls : List Call) : Bytes → List Bytes :=
  calls.foldl (fun params call => call.bound params) fun _ => []

@[simp] lemma lastText_snoc (calls : List Call) (call : Call) :
    lastText (calls ++ [call]) = call.passed (lastText calls) := by
  simp [lastText]

@[simp] lemma boundParams_snoc (calls : List Call) (call : Call) :
    boundParams (calls ++ [call]) = call.bound (boundParams calls) := by
  simp [boundParams]

section Runs
variable {B : Backend}

/-- A call on an object and its session: what it returns or throws, and both afterwards. -/
def Call.run (call : Call) (x : MiniPSQL × Session B) : Except Bytes Unit × MiniPSQL × Session B :=
  call.method.invoke (answer B) x.1 x.2

/-- The requests that a call puts. -/
def Call.requests (call : Call) (x : MiniPSQL × Session B) : List Request :=
  ((call.method.script x.1).trace (answer B) x.2).map (·.1)

def run (x : MiniPSQL × Session B) (calls : List Call) : MiniPSQL × Session B :=
  calls.foldl (fun x call => (call.run x).2) x

/-- The record matches the session: a table is prepared exactly when the session has its statement with
the text last passed for it. -/
def Matches (calls : List Call) (x : MiniPSQL × Session B) : Prop :=
  ∀ table, x.1.isPrepared table = true ↔
    ∃ text, lastText calls table = some text ∧ x.2.stmts (procedureName table) = some text

/-- A `prepare` of valid text succeeds, and `execPrep` sends what was bound. -/
def Serves (calls : List Call) (x : MiniPSQL × Session B) : Call → Prop
  | .prepare table str paramsize => B.prepare x.2.db (cstr str) paramsize = .ok () →
    (Call.run (.prepare table str paramsize) x).1 = .ok ()
  | .execPrep table => Call.requests (.execPrep table) x =
    [.execPrepared (procedureName table) (boundParams calls table)]
  | _ => True

/-- A call that does no harm. The text to prepare is valid and not empty, and where the table has a
statement already, its name without quotes is read as it is; an execution is accepted unless nothing is
bound; other texts leave the statements of the tables alone; and no string holds a NUL. -/
def Met (x : MiniPSQL × Session B) : Call → Prop
  | .prepare table str paramsize => (0 : UInt8) ∉ table ∧ (0 : UInt8) ∉ str ∧ str ≠ [] ∧
    B.prepare x.2.db str paramsize = .ok () ∧ (x.1.isPrepared table = true →
      deallocated B.reserved (ascii "deallocate " ++ procedureName table) = some (procedureName table))
  | .bindPrep _ _ value => (0 : UInt8) ∉ value
  | .execPrep table => (0 : UInt8) ∉ table ∧ (x.1.dParams table = [] ∨
    ((answer B (.execPrepared (procedureName table) (x.1.dParams table)) x.2).1.isOk = true))
  | .exec query => ∀ table, (answer B (.exec (cstr query)) x.2).2.stmts (procedureName table) =
    x.2.stmts (procedureName table)

/-- No call of a run does harm in the state that it meets. -/
def AllMet : MiniPSQL × Session B → List Call → Prop
  | _, [] => True
  | x, call :: calls => Met x call ∧ AllMet (call.run x).2 calls

/-- A new object and its session. -/
structure Fresh (x : MiniPSQL × Session B) : Prop where
  dStmts : x.1.dStmts = fun _ => none
  dParams : x.1.dParams = fun _ => []
  stmts : ∀ table, x.2.stmts (procedureName table) = none

/-- The invariant: the record and the session both hold what was passed and bound. -/
structure Inv (calls : List Call) (x : MiniPSQL × Session B) : Prop where
  dStmts : x.1.dStmts = lastText calls
  dParams : x.1.dParams = boundParams calls
  stmts : ∀ table, x.2.stmts (procedureName table) = lastText calls table
  nonempty : ∀ table text, lastText calls table = some text → text ≠ []
  plain : ∀ table, ∀ p ∈ boundParams calls table, (0 : UInt8) ∉ p

lemma nul_procedureName {table : Bytes} (h : (0 : UInt8) ∉ table) : (0 : UInt8) ∉ procedureName table := by
  have hhead : (0 : UInt8) ∉ ascii "procedure_" := by decide
  intro hmem
  rcases List.mem_append.mp hmem with hmem | hmem
  · exact hhead hmem
  · exact h hmem

lemma procedureName_injective {table table' : Bytes} (h : procedureName table = procedureName table') :
    table = table' := List.append_cancel_left h

lemma update_procedureName (stmts : Bytes → Option Bytes) (table : Bytes) (text : Option Bytes)
    (other : Bytes) : Function.update stmts (procedureName table) text (procedureName other) =
      Function.update (fun t => stmts (procedureName t)) table text other := by
  by_cases h : other = table
  · subst h
    simp
  · have hne : procedureName other ≠ procedureName table := fun heq => h (procedureName_injective heq)
    simp [h, hne]

lemma setParam_plain {params : List Bytes} {pos : ℕ} {value : Bytes}
    (hparams : ∀ p ∈ params, (0 : UInt8) ∉ p) (hvalue : (0 : UInt8) ∉ value) :
    ∀ p ∈ MiniPSQL.setParam params pos value, (0 : UInt8) ∉ p := by
  intro p hp
  rcases List.mem_or_eq_of_mem_set hp with hp | rfl
  · rcases List.mem_append.mp hp with hp | hp
    · exact hparams p hp
    · rw [List.eq_of_mem_replicate hp]
      exact List.not_mem_nil
  · exact hvalue

variable {calls : List Call} {x : MiniPSQL × Session B}

lemma Inv.matches (h : Inv calls x) : Matches calls x := by
  intro table
  unfold MiniPSQL.isPrepared
  rw [h.dStmts, h.stmts table, Option.isSome_iff_exists]
  simp

lemma invoke_stmtText (table : Bytes) (c : MiniPSQL) (s : Session B) :
    (MiniPSQL.stmtText table).invoke (answer B) c s = (.ok ((c.dStmts table).getD []),
      { c with dStmts := Function.update c.dStmts table (some ((c.dStmts table).getD [])) }, s) := by
  unfold MiniPSQL.stmtText
  rw [invoke_bind, invoke_modify]
  simp only
  rw [invoke_bind, invoke_get]
  simp

lemma invoke_prepared {table str : Bytes} {paramsize : ℕ} {c : MiniPSQL} {s : Session B}
    (htable : (0 : UInt8) ∉ table) (hstr : (0 : UInt8) ∉ str)
    (hvalid : B.prepare s.db str paramsize = .ok ()) (hfree : s.stmts (procedureName table) = none) :
    (do
      modify fun c : MiniPSQL =>
        ⟨Function.update c.dStmts table (some str), Function.update c.dParams table []⟩
      match ← Method.ask (Request.prepare (cstr (procedureName table)) (cstr str) paramsize) with
      | .ok _ => pure ()
      | .error msg => throw (ascii "prepare error: " ++ msg) : M Unit).invoke (answer B) c s =
    (.ok (), ⟨Function.update c.dStmts table (some str), Function.update c.dParams table []⟩,
      { s with stmts := Function.update s.stmts (procedureName table) (some str) }) := by
  rw [invoke_bind, invoke_modify]
  simp only
  rw [invoke_bind, invoke_ask]
  simp [answer, cstr_eq_self (nul_procedureName htable), cstr_eq_self hstr, hfree, hvalid]

lemma Inv.run_prepare (h : Inv calls x) {table str : Bytes} {paramsize : ℕ}
    (hmet : Met x (.prepare table str paramsize)) : Call.run (.prepare table str paramsize) x =
      (.ok (), ⟨Function.update x.1.dStmts table (some str), Function.update x.1.dParams table []⟩,
        ⟨x.2.db, Function.update x.2.stmts (procedureName table) (some str)⟩) := by
  obtain ⟨htable, hstr, -, hvalid, hname⟩ := hmet
  unfold Call.run Call.method MiniPSQL.prepare
  rw [invoke_bind, invoke_stmtText]
  simp only
  cases hheld : x.1.dStmts table with
  | none =>
    have hfree : x.2.stmts (procedureName table) = none := by rw [h.stmts, ← h.dStmts, hheld]
    simp only [Option.getD_none, List.isEmpty_nil, Bool.not_true, Bool.false_eq_true, if_false]
    rw [invoke_prepared htable hstr hvalid hfree]
    simp
  | some text =>
    have hstmt : x.2.stmts (procedureName table) = some text := by rw [h.stmts, ← h.dStmts, hheld]
    have htext : text.isEmpty = false := by
      have hne := h.nonempty table text (by rw [← h.dStmts, hheld])
      simpa using hne
    have hread := hname (by simp [MiniPSQL.isPrepared, hheld])
    have hplain : (0 : UInt8) ∉ ascii "deallocate " ++ procedureName table := by
      have hhead : (0 : UInt8) ∉ ascii "deallocate " := by decide
      intro hmem
      rcases List.mem_append.mp hmem with hmem | hmem
      · exact hhead hmem
      · exact nul_procedureName htable hmem
    have hdealloc : ∀ c, (MiniPSQL.exec (ascii "deallocate " ++ procedureName table)).invoke (answer B) c
        x.2 = (.ok [], c, { x.2 with stmts := Function.update x.2.stmts (procedureName table) none }) := by
      intro c
      unfold MiniPSQL.exec
      rw [invoke_bind, invoke_ask, cstr_eq_self hplain]
      simp [answer, hread, hstmt]
    simp only [Option.getD_some, htext, Bool.not_false, if_true]
    rw [invoke_bind, hdealloc]
    simp only
    rw [invoke_prepared (s := ⟨x.2.db, Function.update x.2.stmts (procedureName table) none⟩) htable hstr
      hvalid (by simp)]
    simp

lemma run_bindPrep (table : Bytes) (pos : ℕ) (value : Bytes) (x : MiniPSQL × Session B) :
    Call.run (.bindPrep table pos value) x = (.ok (), { x.1 with
      dParams := Function.update x.1.dParams table (MiniPSQL.setParam (x.1.dParams table) pos value) },
      x.2) := rfl

lemma script_execPrep (table : Bytes) (c : MiniPSQL) : (MiniPSQL.execPrep table).script c =
    .ask (.execPrepared (cstr (procedureName table)) ((c.dParams table).map cstr))
      fun r : Except Bytes Rows => match r with
      | .ok _ => .done (.ok (), { c with dParams := Function.update c.dParams table [] })
      | .error msg => .done (.error (ascii "prepared query error: " ++ msg), c) := by
  unfold MiniPSQL.execPrep
  rw [script_get_bind, script_ask_bind]
  congr 1
  funext r
  cases r <;> rfl

lemma Inv.script_execPrep (h : Inv calls x) {table : Bytes} (htable : (0 : UInt8) ∉ table) :
    (MiniPSQL.execPrep table).script x.1 =
      .ask (.execPrepared (procedureName table) (boundParams calls table))
        fun r : Except Bytes Rows => match r with
        | .ok _ => .done (.ok (), { x.1 with dParams := Function.update x.1.dParams table [] })
        | .error msg => .done (.error (ascii "prepared query error: " ++ msg), x.1) := by
  have hparams : (x.1.dParams table).map cstr = boundParams calls table := by
    have hall : ∀ p ∈ boundParams calls table, cstr p = id p := fun p hp => cstr_eq_self (h.plain table p hp)
    rw [h.dParams, List.map_congr_left hall, List.map_id]
  rw [Prepared.script_execPrep, cstr_eq_self (nul_procedureName htable), hparams]

lemma answer_execPrepared (name : Bytes) (params : List Bytes) (s : Session B) :
    (answer B (.execPrepared name params) s).2.stmts = s.stmts := by
  simp only [answer]
  split <;> rfl

lemma Inv.run_execPrep (h : Inv calls x) {table : Bytes} (hmet : Met x (.execPrep table)) :
    ∃ s : Session B, (Call.run (.execPrep table) x).2 =
      ({ x.1 with dParams := Function.update x.1.dParams table [] }, s) ∧ s.stmts = x.2.stmts := by
  obtain ⟨htable, haccepted⟩ := hmet
  refine ⟨(answer B (.execPrepared (procedureName table) (x.1.dParams table)) x.2).2, ?_,
    answer_execPrepared _ _ _⟩
  unfold Call.run Call.method invoke
  rw [h.script_execPrep htable, ← h.dParams]
  simp only [Script.run]
  cases hr : (answer B (.execPrepared (procedureName table) (x.1.dParams table)) x.2).1 with
  | ok rows => rfl
  | error msg =>
    rw [hr] at haccepted
    have hnone : x.1.dParams table = [] := haccepted.resolve_right (by simp [Except.isOk, Except.toBool])
    have hself : Function.update x.1.dParams table [] = x.1.dParams := by
      rw [← hnone]
      exact Function.update_eq_self _ _
    rw [hself]
    rfl

lemma run_exec (query : Bytes) (x : MiniPSQL × Session B) : (Call.run (.exec query) x).2 =
    (x.1, (answer B (.exec (cstr query)) x.2).2) := by
  have hmethod : Call.method (.exec query) = MiniPSQL.exec query >>= fun _ => pure () := rfl
  unfold Call.run
  rw [hmethod, invoke_bind]
  unfold MiniPSQL.exec
  rw [invoke_bind, invoke_ask]
  simp only
  cases (answer B (.exec (cstr query)) x.2).1 <;> rfl

lemma Inv.of_params (h : Inv calls x) {call : Call} {y : MiniPSQL × Session B}
    (hpassed : call.passed (lastText calls) = lastText calls) (hstmts : y.1.dStmts = x.1.dStmts)
    (hparams : y.1.dParams = call.bound x.1.dParams)
    (hsession : ∀ table, y.2.stmts (procedureName table) = x.2.stmts (procedureName table))
    (hplain : ∀ table, ∀ p ∈ call.bound (boundParams calls) table, (0 : UInt8) ∉ p) :
    Inv (calls ++ [call]) y := by
  constructor
  · rw [lastText_snoc, hpassed, hstmts, h.dStmts]
  · rw [boundParams_snoc, hparams, h.dParams]
  · intro table
    rw [lastText_snoc, hpassed, hsession, h.stmts]
  · intro table text htext
    rw [lastText_snoc, hpassed] at htext
    exact h.nonempty table text htext
  · intro table
    rw [boundParams_snoc]
    exact hplain table

/-- The step lemma. -/
lemma Inv.step (h : Inv calls x) {call : Call} (hmet : Met x call) :
    Inv (calls ++ [call]) (call.run x).2 := by
  cases call with
  | prepare table str paramsize =>
    rw [h.run_prepare hmet]
    constructor
    · simp [Call.passed, h.dStmts]
    · simp [Call.bound, h.dParams]
    · intro other
      rw [lastText_snoc]
      simp only [update_procedureName, h.stmts]
      rfl
    · intro other text htext
      rw [lastText_snoc] at htext
      by_cases ht : other = table
      · subst ht
        have heq : some str = some text := by simpa [Call.passed] using htext
        exact Option.some.inj heq ▸ hmet.2.2.1
      · exact h.nonempty other text (by simpa [Call.passed, ht] using htext)
    · intro other p hp
      rw [boundParams_snoc] at hp
      by_cases ht : other = table
      · subst ht
        simp [Call.bound] at hp
      · exact h.plain other p (by simpa [Call.bound, ht] using hp)
  | bindPrep table pos value =>
    rw [run_bindPrep]
    refine h.of_params rfl rfl rfl (fun _ => rfl) fun other p hp => ?_
    by_cases ht : other = table
    · subst ht
      have hp' : p ∈ MiniPSQL.setParam (boundParams calls other) pos value := by
        simpa [Call.bound] using hp
      exact setParam_plain (h.plain other) hmet p hp'
    · exact h.plain other p (by simpa [Call.bound, ht] using hp)
  | execPrep table =>
    obtain ⟨s, hrun, hs⟩ := h.run_execPrep hmet
    rw [hrun]
    refine h.of_params rfl rfl rfl (fun other => congrFun hs _) fun other p hp => ?_
    by_cases ht : other = table
    · subst ht
      simp [Call.bound] at hp
    · exact h.plain other p (by simpa [Call.bound, ht] using hp)
  | exec query =>
    rw [run_exec]
    exact h.of_params rfl rfl rfl hmet h.plain

lemma Inv.serves (h : Inv calls x) {call : Call} (hmet : Met x call) : Serves calls x call := by
  cases call with
  | prepare table str paramsize =>
    intro _
    rw [h.run_prepare hmet]
  | execPrep table =>
    change (((MiniPSQL.execPrep table).script x.1).trace (answer B) x.2).map (·.1) =
      [.execPrepared (procedureName table) (boundParams calls table)]
    rw [h.script_execPrep hmet.1]
    simp only [Script.trace, List.map_cons]
    cases (answer B (.execPrepared (procedureName table) (boundParams calls table)) x.2).1 <;> rfl
  | bindPrep table pos value => trivial
  | exec query => trivial

lemma Fresh.inv (h : Fresh x) : Inv [] x := by
  refine ⟨h.dStmts, h.dParams, h.stmts, fun table text htext => ?_, fun table p hp => ?_⟩
  · cases htext
  · cases hp

/-- The run lemma. -/
lemma Inv.run (h : Inv calls x) {more : List Call} (hmet : AllMet x more) :
    Inv (calls ++ more) (run x more) := by
  induction more generalizing calls x with
  | nil => simpa [Prepared.run] using h
  | cons call more ih =>
    obtain ⟨hcall, hmore⟩ := hmet
    have hnext := ih (h.step hcall) hmore
    rwa [List.append_assoc] at hnext

lemma AllMet.split {before rest : List Call} {call : Call} (h : AllMet x (before ++ call :: rest)) :
    AllMet x before ∧ Met (run x before) call := by
  induction before generalizing x with
  | nil => exact ⟨trivial, h.1⟩
  | cons first before ih =>
    obtain ⟨hfirst, hrest⟩ := h
    obtain ⟨hbefore, hcall⟩ := ih hrest
    exact ⟨⟨hfirst, hbefore⟩, hcall⟩

/-- In every run whose calls all do no harm, the record matches the session after every call, every
`prepare` of valid text succeeds, and every `execPrep` sends exactly what was bound since the last
`prepare` or `execPrep` of its table. -/
theorem record_matches_session (hx : Fresh x) (calls : List Call) (hmet : AllMet x calls) :
    Matches calls (run x calls) ∧
      ∀ before call rest, calls = before ++ call :: rest →
        Matches before (run x before) ∧ Serves before (run x before) call := by
  refine ⟨(hx.inv.run hmet).matches, fun before call rest heq => ?_⟩
  subst heq
  obtain ⟨hbefore, hcall⟩ := hmet.split
  have hinv := hx.inv.run hbefore
  exact ⟨hinv.matches, hinv.serves hcall⟩

/-- A server that prepares any text but one with a slip, and executes with numbers only. -/
def plainBackend : Backend where
  State := Unit
  reserved := fun b => b == ascii "all"
  prepare := fun _ query _ =>
    if query = ascii "selec 1" then .error (ascii "syntax error at or near \"selec\"") else .ok ()
  execute := fun _ _ params =>
    (if params.all (·.all digitByte) then .ok [] else .error (ascii "invalid input syntax"), ())
  exec := fun _ stmts _ => (.ok [], (), stmts)

def connected : MiniPSQL × Session plainBackend := (⟨fun _ => none, fun _ => []⟩, ⟨(), fun _ => none⟩)

lemma connected_fresh : Fresh connected := ⟨rfl, rfl, fun _ => rfl⟩

theorem record_matches_session_twice :
    let insert := Call.prepare (ascii "data") (ascii "insert into data values ($1)") 1
    let calls := [insert, .bindPrep (ascii "data") 0 (ascii "1"), .execPrep (ascii "data"), .exec (ascii "begin"),
      insert]
    Matches calls (run connected calls) := by
  intro insert calls
  have hmet : AllMet connected calls := by
    have hvalue : (0 : UInt8) ∉ ascii "1" := by decide
    refine ⟨⟨?_, ?_, ?_, ?_, ?_⟩, hvalue, ⟨?_, Or.inr ?_⟩, fun _ => rfl, ⟨?_, ?_, ?_, ?_, ?_⟩, trivial⟩ <;>
      decide +kernel
  exact (record_matches_session connected_fresh calls hmet).1

/-- After a `prepare` that was rejected the table counts as prepared; the second `prepare` for a table
with a capital letter throws, because the statement to deallocate is not found; and what was bound for a
failed execution is sent again. -/
theorem failures_leave_record_behind :
    let slip := Call.prepare (ascii "data") (ascii "selec 1") 0
    let upper := Call.prepare (ascii "Data") (ascii "insert into data values ($1)") 1
    let failed := [Call.prepare (ascii "data") (ascii "insert into data values ($1)") 1,
      .bindPrep (ascii "data") 0 (ascii "x"), .execPrep (ascii "data")]
    ¬ Matches [slip] (run connected [slip]) ∧ ¬ Serves [upper] (run connected [upper]) upper ∧
      ¬ Serves failed (run connected failed) (.execPrep (ascii "data")) := by
  intro slip upper failed
  refine ⟨fun h => ?_, fun h => ?_, fun h => ?_⟩
  · obtain ⟨text, -, hstmt⟩ := (h (ascii "data")).mp (by decide +kernel)
    have hnone : (run connected [slip]).2.stmts (procedureName (ascii "data")) = none := by decide +kernel
    rw [hnone] at hstmt
    cases hstmt
  · have hok := h rfl
    revert hok
    decide +kernel
  · have hsent : Call.requests (.execPrep (ascii "data")) (run connected failed) =
        [.execPrepared (procedureName (ascii "data")) []] := h
    revert hsent
    decide +kernel

end Runs
end SqliteWrite.Psql.Prepared
