import SqliteWrite.Lib.RelyGuarantee
import SqliteWrite.Writer.StatementCache

/-! The rule for a call among other users of the database: what has to be shown of the search for a
column, of its creation, of the compilation and of the one step, to conclude it of the call. -/
namespace SqliteWrite
open Method

namespace MiniSQLite
variable {E : Engine} {e : Around Request (Conn E)} {table : Bytes}

lemma spec_exec {P : MiniSQLite → Conn E → Prop} {str : Bytes}
    {R : List (List Bytes) → MiniSQLite → Conn E → Prop} {F : Bytes → MiniSQLite → Conn E → Prop}
    (hp : ∀ db s s', P db s → e.rely s s' → e.assume (.exec str) s' → e.guarantee (.exec str) s' ∧
      match execResult str (s'.exec str).1 with
      | .ok rows => R rows db (s'.exec str).2
      | .error x => F x db (s'.exec str).2) :
    Spec (Conn.answer E) e P (exec str) R F := by
  refine Spec.bind (Spec.ask (R := fun r db s => match execResult str r with
    | .ok rows => R rows db s
    | .error x => F x db s) fun db s s' h hs ha => hp db s s' h hs ha) fun r => ?_
  cases r with
  | error x => exact Spec.throw fun _ _ h => h
  | ok rows =>
    simp only [execResult]
    cases rows.mapM (·.mapM id) with
    | none => exact Spec.throw fun _ _ h => h
    | some dRows => exact Spec.pure fun _ _ h => h

lemma spec_bindPrep {P : Conn E → Prop} (hP : ∀ s s', P s → e.rely s s' → P s')
    (hg : ∀ arg s, e.guarantee (.bind arg) s) (db₀ : MiniSQLite) {stmt : Stmt}
    (hs : db₀.dStmts table = some stmt) (hb : stmt.busy = false) (idx : ℕ) (arg : BindArg) :
    Spec (Conn.answer E) e (fun db s => db = db₀ ∧ P s) (bindPrep table idx arg)
      (fun _ db s => (bindOne E stmt.binds idx arg).1 = .ok () ∧
        db = db₀.setStmt table (some { stmt with binds := (bindOne E stmt.binds idx arg).2 }) ∧ P s)
      (fun _ db s => (∃ x, (bindOne E stmt.binds idx arg).1 = .error x) ∧
        db = db₀.setStmt table (some { stmt with binds := (bindOne E stmt.binds idx arg).2 }) ∧
          P s) := by
  obtain ⟨sql, binds, busy⟩ := stmt
  simp only at hb
  subst hb
  have hself := setStmt_self db₀ table _ hs
  refine Spec.get_bind fun db => ?_
  by_cases hdb : db = db₀
  swap
  · rintro v s ⟨rfl, rfl, -⟩
    exact absurd rfl hdb
  subst hdb
  simp only [hs, Bool.false_eq_true, if_false]
  unfold bindOne
  split_ifs with hi
  · refine Spec.throw ?_
    rintro v s ⟨rfl, -, hps⟩
    exact ⟨⟨_, rfl⟩, hself.symm, hps⟩
  · refine Spec.bind (Spec.ask (R := fun r v s => r = E.bind arg ∧ v = db ∧ P s) ?_) fun r => ?_
    · rintro v s s' ⟨rfl, -, hps⟩ hss -
      exact ⟨hg arg s', rfl, rfl, hP s s' hps hss⟩
    · cases r with
      | error x =>
        refine Spec.throw ?_
        rintro v s ⟨hr, rfl, hps⟩
        rw [← hr]
        exact ⟨⟨_, rfl⟩, hself.symm, hps⟩
      | ok value =>
        refine Spec.modify ?_
        rintro v s ⟨hr, rfl, hps⟩
        rw [← hr]
        exact ⟨rfl, rfl, hps⟩

lemma spec_execPrep {P : Conn E → Prop} (db₀ : MiniSQLite) {stmt : Stmt}
    (hs : db₀.dStmts table = some stmt) {R F : Conn E → Prop}
    (hp : ∀ s s', P s → e.rely s s' → e.assume (.step stmt.sql stmt.binds false) s' →
      e.guarantee (.step stmt.sql stmt.binds false) s' ∧
      match stepRows false (s'.step stmt.sql stmt.binds false).1 with
      | .ok _ => R (s'.step stmt.sql stmt.binds false).2
      | .error _ => F (s'.step stmt.sql stmt.binds false).2) :
    Spec (Conn.answer E) e (fun db s => db = db₀ ∧ P s) (execPrep table false 0)
      (fun _ db s => db = db₀.setStmt table (some (resetStmt stmt)) ∧ R s)
      (fun _ db s => db = db₀.setStmt table (some (resetStmt stmt)) ∧ F s) := by
  unfold execPrep
  simp only [ne_eq, not_true_eq_false, if_false]
  refine Spec.get_bind fun db => ?_
  by_cases hdb : db = db₀
  swap
  · rintro v s ⟨rfl, rfl, -⟩
    exact absurd rfl hdb
  subst hdb
  simp only [hs]
  refine Spec.bind (Spec.modify (R := fun _ v s =>
    v = db.setStmt table (some { stmt with busy := true }) ∧ P s) ?_) fun _ => ?_
  · rintro v s ⟨rfl, -, hps⟩
    exact ⟨rfl, hps⟩
  refine Spec.bind (Spec.ask (R := fun r v s =>
    v = db.setStmt table (some { stmt with busy := true }) ∧
      match stepRows false r with
      | .ok _ => R s
      | .error _ => F s) ?_) fun r => ?_
  · rintro v s s' ⟨rfl, hps⟩ hss ha
    obtain ⟨hg, hr⟩ := hp s s' hps hss ha
    exact ⟨hg, rfl, hr⟩
  refine Spec.bind (Spec.modify (R := fun _ v s =>
    v = db.setStmt table (some (resetStmt stmt)) ∧
      match stepRows false r with
      | .ok _ => R s
      | .error _ => F s) ?_) fun _ => ?_
  · rintro v s ⟨rfl, hr⟩
    exact ⟨by rw [setStmt_setStmt], hr⟩
  refine Spec.bind (Spec.pure (R := fun x v s =>
    v = db.setStmt table (some (resetStmt stmt)) ∧
      match x with
      | .ok _ => R s
      | .error _ => F s) fun _ _ h => h) fun x => ?_
  cases x with
  | error x => exact Spec.throw fun _ _ h => h
  | ok rows => exact Spec.pure fun _ _ h => h

end MiniSQLite

namespace SQLiteWriter
variable {E : Engine} {e : Around Request (Conn E)} {table : Bytes}

/-- The same caches over other statements, of which the held ones are again as they should be. -/
structure Rewired (E : Engine) (w v : SQLiteWriter) : Prop where
  dColumns : v.dColumns = w.dColumns
  dFlag : v.dFlag = w.dFlag
  dMeta : v.dMeta = w.dMeta
  cacheOk : CacheOk E v

/-- A condition on the caches and the database, whatever statements are held. -/
def Settled (E : Engine) (I : SQLiteWriter → E.Db → Prop) : Prop :=
  ∀ w v db, I w db → Rewired E w v → I v db

lemma spec_bindValues {P : Conn E → Prop} (hP : ∀ s s', P s → e.rely s s' → P s')
    (hg : ∀ arg s, e.guarantee (.bind arg) s) (values : Fields) (w₀ : SQLiteWriter) {stmt : Stmt}
    (hs : w₀.dDb.dStmts table = some stmt) (hb : stmt.busy = false) (n : ℕ) :
    Spec (Conn.answer E) e (fun w s => w = w₀ ∧ P s) (bindValues table n values)
      (fun _ w s => (bindAll E stmt.binds n values).1 = .ok () ∧
        w = w₀.setDb (w₀.dDb.setStmt table
          (some { stmt with binds := (bindAll E stmt.binds n values).2 })) ∧ P s)
      (fun _ w s => (∃ x, (bindAll E stmt.binds n values).1 = .error x) ∧
        w = w₀.setDb (w₀.dDb.setStmt table
          (some { stmt with binds := (bindAll E stmt.binds n values).2 })) ∧ P s) := by
  induction values generalizing w₀ stmt n with
  | nil =>
    refine Spec.pure ?_
    rintro w s ⟨rfl, hps⟩
    refine ⟨rfl, ?_, hps⟩
    simp only [bindAll]
    rw [MiniSQLite.setStmt_self _ _ _ hs, setDb_self]
  | cons p values ih =>
    simp only [bindAll]
    cases hone : MiniSQLite.bindOne E stmt.binds n (bindArg p.2) with
    | mk x binds =>
      have hbind : Spec (Conn.answer E) e (fun w s => w = w₀ ∧ P s)
          (onDb (MiniSQLite.bindPrep table n (bindArg p.2)))
          (fun _ w s => x = .ok () ∧
            w = w₀.setDb (w₀.dDb.setStmt table (some { stmt with binds := binds })) ∧ P s)
          (fun _ w s => (∃ y, x = .error y) ∧
            w = w₀.setDb (w₀.dDb.setStmt table (some { stmt with binds := binds })) ∧ P s) := by
        refine Spec.onMember fun w => ?_
        by_cases hw : w = w₀
        swap
        · rintro db s ⟨-, rfl, -⟩
          exact absurd rfl hw
        subst hw
        refine (MiniSQLite.spec_bindPrep hP hg w.dDb hs hb n (bindArg p.2)).weaken ?_ ?_ ?_
        · rintro db s ⟨rfl, -, hps⟩
          exact ⟨rfl, hps⟩
        · rintro _ db s ⟨h1, rfl, hps⟩
          rw [hone] at h1 ⊢
          exact ⟨h1, rfl, hps⟩
        · rintro _ db s ⟨h1, rfl, hps⟩
          rw [hone] at h1 ⊢
          exact ⟨h1, rfl, hps⟩
      refine Spec.bind (R := fun _ w s => x = .ok () ∧
        w = w₀.setDb (w₀.dDb.setStmt table (some { stmt with binds := binds })) ∧ P s)
        (hbind.weaken (fun _ _ h => h) (fun _ _ _ h => h) ?_) fun _ => ?_
      · rintro y w s ⟨⟨z, rfl⟩, rfl, hps⟩
        exact ⟨⟨z, rfl⟩, rfl, hps⟩
      · cases x with
        | error y =>
          rintro w s ⟨h, -⟩
          cases h
        | ok u =>
          have hheld : (w₀.setDb (w₀.dDb.setStmt table (some { stmt with binds := binds }))).dDb.dStmts
              table = some { stmt with binds := binds } := by simp
          refine (ih _ hheld hb (n + 1)).weaken ?_ ?_ ?_
          · rintro w s ⟨-, rfl, hps⟩
            exact ⟨rfl, hps⟩
          · rintro _ w s ⟨h, rfl, hps⟩
            exact ⟨h, by simp, hps⟩
          · rintro _ w s ⟨h, rfl, hps⟩
            exact ⟨h, by simp, hps⟩

/-- What has to be shown of the parts of a call. `I done` holds in the column loop after the fields
`done`, `Miss` between the search for a column that is not listed and its creation; the call returns
in `Post` and throws in `F`. -/
structure CallConditions (E : Engine) (e : Around Request (Conn E)) (table : Bytes)
    (values : Fields) (replace : Bool) (I : List Bytes → SQLiteWriter → E.Db → Prop)
    (Miss : List Bytes → Bytes × VarT → SQLiteWriter → E.Db → Prop)
    (Post F : SQLiteWriter → E.Db → Prop) : Prop where
  writable : ∀ done w db, I done w db → w.dFlag ≠ .readOnly
  cacheOk : ∀ done w db, I done w db → CacheOk E w
  listed : ∀ w db, I (values.map (·.1)) w db → ∀ p ∈ values, w.Lists table p.1
  cached : ∀ w db, I [] w db → (∀ p ∈ values, w.Lists table p.1) → I (values.map (·.1)) w db
  stable : ∀ w s s', I (values.map (·.1)) w s.view → e.rely s s' → I (values.map (·.1)) w s'.view
  settled : Settled E (I (values.map (·.1)))
  settledPost : Settled E Post
  settledF : Settled E F
  search : ∀ done, ∀ p ∈ values, Spec (Conn.answer E) e (fun w s => I done w s.view)
    (haveColumn table p.1)
    (fun known w s => if known = true then I (done ++ [p.1]) w s.view else Miss done p w s.view)
    (fun _ w s => F w s.view)
  create : ∀ done, ∀ p ∈ values, Spec (Conn.answer E) e (fun w s => Miss done p w s.view)
    (createColumn table p) (fun _ w s => I (done ++ [p.1]) w s.view) (fun _ w s => F w s.view)
  compile : ∀ w s, I (values.map (·.1)) w s.view →
    e.assume (.prepare (insertText replace table (values.map (·.1)))) s →
    e.guarantee (.prepare (insertText replace table (values.map (·.1)))) s ∧
      ∀ x, E.prepare s.view (insertText replace table (values.map (·.1))) = .error x → F w s.view
  bindGuarantee : ∀ arg s, e.guarantee (.bind arg) s
  bindFails : ∀ x w db, I (values.map (·.1)) w db →
    (bindAll E (List.replicate (E.params (insertText replace table (values.map (·.1)))) .null) 1
      values).1 = .error x → F w db
  step : ∀ vs w s, boundValues E values = .ok vs → vs.length = values.length →
    I (values.map (·.1)) w s.view →
    e.assume (.step (insertText replace table (values.map (·.1)))
      (insertBinds E (insertText replace table (values.map (·.1))) vs) false) s →
    e.guarantee (.step (insertText replace table (values.map (·.1)))
      (insertBinds E (insertText replace table (values.map (·.1))) vs) false) s ∧
    match MiniSQLite.stepRows false (s.step (insertText replace table (values.map (·.1)))
      (insertBinds E (insertText replace table (values.map (·.1))) vs) false).1 with
    | .ok _ => Post w (s.step (insertText replace table (values.map (·.1)))
      (insertBinds E (insertText replace table (values.map (·.1))) vs) false).2.view
    | .error _ => F w (s.step (insertText replace table (values.map (·.1)))
      (insertBinds E (insertText replace table (values.map (·.1))) vs) false).2.view

namespace CallConditions
variable {values : Fields} {replace : Bool} {I : List Bytes → SQLiteWriter → E.Db → Prop}
  {Miss : List Bytes → Bytes × VarT → SQLiteWriter → E.Db → Prop} {Post F : SQLiteWriter → E.Db → Prop}

/-- The column loop, from any of its rounds on. -/
lemma columnLoop (hc : CallConditions E e table values replace I Miss Post F) (rest : Fields)
    (done : List Bytes) (hrest : ∀ p ∈ rest, p ∈ values) (first : Bool) (q qmarks : Bytes) :
    Spec (Conn.answer E) e (fun w s => I done w s.view)
      (SQLiteWriter.columnLoop table first q qmarks rest)
      (fun r w s => I (done ++ rest.map (·.1)) w s.view ∧
        r = (q ++ columnList first (rest.map (·.1)), qmarks ++ markList first (rest.map (·.1))))
      (fun _ w s => F w s.view) := by
  induction rest generalizing done first q qmarks with
  | nil =>
    refine Spec.pure fun w s h => ⟨by simpa using h, ?_⟩
    simp [columnList, markList]
  | cons p rest ih =>
    have hp : p ∈ values := hrest p (by simp)
    have hnext := (ih (done ++ [p.1]) (fun p' hp' => hrest p' (by simp [hp'])) false
      (q ++ listSep first ++ ascii "'" ++ p.1 ++ ascii "'") (qmarks ++ listSep first ++ ascii "?"))
    have hgo : Spec (Conn.answer E) e (fun w s => I (done ++ [p.1]) w s.view)
        (SQLiteWriter.columnLoop table false (q ++ listSep first ++ ascii "'" ++ p.1 ++ ascii "'")
          (qmarks ++ listSep first ++ ascii "?") rest)
        (fun r w s => I (done ++ (p :: rest).map (·.1)) w s.view ∧
          r = (q ++ columnList first ((p :: rest).map (·.1)),
            qmarks ++ markList first ((p :: rest).map (·.1))))
        (fun _ w s => F w s.view) := by
      refine hnext.weaken (fun _ _ h => h) ?_ (fun _ _ _ h => h)
      rintro r w s ⟨h, rfl⟩
      refine ⟨by simpa using h, ?_⟩
      simp [columnList, markList]
    unfold SQLiteWriter.columnLoop
    refine Spec.bind (hc.search done p hp) fun known => ?_
    cases known with
    | true => exact hgo.weaken (fun _ _ h => by simpa using h) (fun _ _ _ h => h) (fun _ _ _ h => h)
    | false =>
      refine Spec.bind ((hc.create done p hp).weaken (fun _ _ h => by simpa using h)
        (fun _ _ _ h => h) (fun _ _ _ h => h)) fun _ => hgo

lemma rebuild (hc : CallConditions E e table values replace I Miss Post F) :
    Spec (Conn.answer E) e (fun w s => I [] w s.view) (SQLiteWriter.rebuild table values replace)
      (fun _ w s => I (values.map (·.1)) w s.view ∧ w.cached table values replace = true)
      (fun _ w s => F w s.view) := by
  unfold SQLiteWriter.rebuild
  refine Spec.bind (hc.columnLoop values [] (fun _ h => h) true _ _) fun r => ?_
  obtain ⟨q, qmarks⟩ := r
  by_cases hr : (q, qmarks) = (insertHead replace table ++ columnList true (values.map (·.1)),
      [] ++ markList true (values.map (·.1)))
  swap
  · rintro w s ⟨-, h⟩
    exact absurd h hr
  obtain ⟨rfl, rfl⟩ := Prod.ext_iff.mp hr
  have htext : insertHead replace table ++ columnList true (values.map (·.1)) ++ ascii ") values (" ++
      ([] ++ markList true (values.map (·.1))) ++ ascii ")" =
      insertText replace table (values.map (·.1)) := by
    simp [insertText]
  simp only [htext]
  refine Spec.bind (R := fun _ w s => ∃ w₀, I (values.map (·.1)) w₀ s.view ∧
    w = w₀.setDb (w₀.dDb.setStmt table (some ⟨insertText replace table (values.map (·.1)),
      List.replicate (E.params (insertText replace table (values.map (·.1)))) .null, false⟩)))
    ?_ fun _ => ?_
  · refine Spec.onMember fun w => ?_
    unfold MiniSQLite.prepare
    refine Spec.bind (Spec.modify (R := fun _ db s => db = w.dDb.setStmt table none ∧
      I (values.map (·.1)) w s.view) ?_) fun _ => ?_
    · rintro db s ⟨rfl, h, -⟩
      exact ⟨rfl, h⟩
    refine Spec.bind (Spec.ask (R := fun r db s => db = w.dDb.setStmt table none ∧
      I (values.map (·.1)) w s.view ∧ (∀ x, r = .error x → F w s.view) ∧
        ∀ n, r = .ok n → n = some (E.params (insertText replace table (values.map (·.1))))) ?_) fun r => ?_
    · rintro db s s' ⟨rfl, h⟩ hs ha
      have h' := hc.stable w s s' h hs
      obtain ⟨hg, hf⟩ := hc.compile w s' h' ha
      refine ⟨hg, rfl, h', ?_, ?_⟩
      · intro x hx
        simp only [Conn.answer, Conn.prepare_insert] at hx
        cases hp : E.prepare s'.view (insertText replace table (values.map (·.1))) with
        | error y => exact hf y hp
        | ok u =>
          rw [hp] at hx
          cases hx
      · intro n hn
        simp only [Conn.answer, Conn.prepare_insert] at hn
        cases hp : E.prepare s'.view (insertText replace table (values.map (·.1))) with
        | error y =>
          rw [hp] at hn
          cases hn
        | ok u =>
          rw [hp] at hn
          cases hn
          rfl
    cases r with
    | error x =>
      refine Spec.throw ?_
      rintro db s ⟨rfl, h, hf, -⟩
      exact hc.settledF w _ _ (hf x rfl) ⟨rfl, rfl, rfl, (hc.cacheOk _ w _ h).discard table⟩
    | ok n =>
      by_cases hn : n = some (E.params (insertText replace table (values.map (·.1))))
      swap
      · rintro db s ⟨-, -, -, hall⟩
        exact absurd (hall n rfl) hn
      subst hn
      refine Spec.modify ?_
      rintro db s ⟨rfl, h, -, -⟩
      exact ⟨w, h, by rw [MiniSQLite.setStmt_setStmt]⟩
  · refine Spec.modify ?_
    rintro w s ⟨w₀, h, rfl⟩
    have hok := hc.cacheOk _ w₀ _ h
    refine ⟨hc.settled w₀ _ _ h ⟨rfl, rfl, rfl, ?_⟩, ?_⟩
    · exact hok.built table values replace (hc.listed w₀ _ h)
    · simp [SQLiteWriter.cached, MiniSQLite.isPrepared]

lemma finish (hc : CallConditions E e table values replace I Miss Post F) :
    Spec (Conn.answer E) e
      (fun w s => I (values.map (·.1)) w s.view ∧ w.cached table values replace = true)
      (do bindValues table 1 values
          let _ ← onDb (MiniSQLite.execPrep table false 0) : M Unit)
      (fun _ w s => Post w s.view) (fun _ w s => F w s.view) := by
  rintro w s ⟨h, hcached⟩
  have hok := hc.cacheOk _ w _ h
  obtain ⟨⟨sql, binds, busy⟩, hs, hsql, hb, hp, hclear, -, hsig, -⟩ := held_of_cached hok hcached
  simp only at hsql hb hp hclear
  subst hb
  -- The statement may hold any parameters that are clear behind those of the call.
  have hrewired : ∀ b : List Value, b.length = binds.length →
      (∀ v ∈ b.drop values.length, v = .null) →
      Rewired E w (w.setDb (w.dDb.setStmt table (some ⟨sql, b, false⟩))) := by
    intro b hlen hnull
    refine ⟨rfl, rfl, rfl, hok.setStmt table _ ?_⟩
    rintro u ⟨⟩
    have hheld := hok.held table _ hs
    refine ⟨hheld.sql, rfl, hlen.trans hheld.params, ?_, hheld.listed⟩
    rw [hsig, List.length_map]
    exact hnull
  have hdrop := bindAll_drop (E := E) binds 0 values
  rw [Nat.zero_add] at hdrop
  have hlen := bindAll_length (E := E) binds 1 values
  have hbound := hrewired (bindAll E binds 1 values).2 hlen fun v hv => hclear v (hdrop ▸ hv)
  have hreset := hrewired (List.replicate (bindAll E binds 1 values).2.length .null)
    (by simpa using hlen) fun v hv => List.eq_of_mem_replicate (List.mem_of_mem_drop hv)
  have hI : ∀ s s' : Conn E, I (values.map (·.1)) w s.view → e.rely s s' →
      I (values.map (·.1)) w s'.view := fun s s' h hss => hc.stable w s s' h hss
  refine (Spec.bind (R := fun _ w' s' => (bindAll E binds 1 values).1 = .ok () ∧
    w' = w.setDb (w.dDb.setStmt table (some ⟨sql, (bindAll E binds 1 values).2, false⟩)) ∧
    I (values.map (·.1)) w s'.view) ((spec_bindValues (P := fun s => I (values.map (·.1)) w s.view)
      hI hc.bindGuarantee values w hs rfl 1).weaken
      (fun _ _ h => h) (fun _ _ _ h => h) ?_) fun _ => ?_) w s ⟨rfl, h⟩
  · rintro x w' s' ⟨⟨y, hy⟩, rfl, h'⟩
    have hres := bindAll_result (E := E) binds
      (List.replicate (E.params (insertText replace table (values.map (·.1)))) .null) 1 values
      (by rw [hp, hsql, List.length_replicate])
    exact hc.settledF w _ _ (hc.bindFails y w _ h' (hres ▸ hy)) hbound
  · by_cases hb : (bindAll E binds 1 values).1 = .ok ()
    swap
    · rintro w' s' ⟨h', -⟩
      exact absurd h' hb
    obtain ⟨vs, hvs, hvlen, hbinds⟩ := finishCall_bound (s := ⟨sql, binds, false⟩) hp hclear hb
    refine Spec.bind (R := fun _ w' s' => Post w' s'.view) (Spec.onMember fun w' => ?_) fun _ =>
      Spec.pure fun _ _ h => h
    by_cases hw' : w' = w.setDb (w.dDb.setStmt table (some ⟨sql, (bindAll E binds 1 values).2, false⟩))
    swap
    · rintro db s' ⟨-, -, h', -⟩
      exact absurd h' hw'
    subst hw'
    have hheld : (w.dDb.setStmt table (some ⟨sql, (bindAll E binds 1 values).2, false⟩)).dStmts table =
        some ⟨sql, (bindAll E binds 1 values).2, false⟩ := by simp
    refine (MiniSQLite.spec_execPrep (P := fun s => I (values.map (·.1)) w s.view) _ hheld
      (R := fun s => Post w s.view) (F := fun s => F w s.view) ?_).weaken ?_ ?_ ?_
    · intro s s' h' hss ha
      rw [hbinds] at ha ⊢
      subst hsql
      exact hc.step vs w s' hvs hvlen (hI s s' h' hss) ha
    · rintro db s' ⟨rfl, -, -, h'⟩
      exact ⟨rfl, h'⟩
    · rintro _ db s' ⟨rfl, h'⟩
      refine hc.settledPost w _ _ h' ?_
      simpa [MiniSQLite.resetStmt] using hreset
    · rintro _ db s' ⟨rfl, h'⟩
      refine hc.settledF w _ _ h' ?_
      simpa [MiniSQLite.resetStmt] using hreset

/-- The rule for a call. -/
theorem spec (hc : CallConditions E e table values replace I Miss Post F) :
    Spec (Conn.answer E) e (fun w s => I [] w s.view) (addValueGeneric table values replace)
      (fun _ w s => Post w s.view) (fun _ w s => F w s.view) := by
  unfold addValueGeneric
  refine Spec.get_bind fun v => ?_
  by_cases hv : v.dFlag = .readOnly
  · rintro w s ⟨rfl, h⟩
    exact absurd hv (hc.writable _ w _ h)
  simp only [hv, if_false]
  cases hcached : v.cached table values replace with
  | true =>
    refine hc.finish.weaken ?_ (fun _ _ _ h => h) (fun _ _ _ h => h)
    rintro w s ⟨rfl, h⟩
    obtain ⟨-, -, -, -, -, -, hlisted, -⟩ := held_of_cached (hc.cacheOk _ w _ h) hcached
    exact ⟨hc.cached w _ h hlisted, hcached⟩
  | false =>
    refine Spec.bind (hc.rebuild.weaken ?_ (fun _ _ _ h => h) (fun _ _ _ h => h)) fun _ => hc.finish
    rintro w s ⟨-, h⟩
    exact h

end CallConditions
end SQLiteWriter
end SqliteWrite
