import SqliteWrite.Sqlite.Reference
import SqliteWrite.Writer.Frames
import SqliteWrite.Writer.Threads

/-! The prepared-statement cache. In every reachable state a statement held for a table is the
one of the recorded signature, so taking it has the effect of building it again. -/
namespace SqliteWrite
open Method
namespace SQLiteWriter
variable {E : Engine}

/-- The lists of the column cache can be searched. -/
def Sorted (w : SQLiteWriter) : Prop := ∀ table, SortedByFirst (w.dColumns table)

/-- The column cache may have grown; all else of the object is as before. -/
structure Grows (w v : SQLiteWriter) : Prop where
  dDb : v.dDb = w.dDb
  dLastsig : v.dLastsig = w.dLastsig
  dLastreplace : v.dLastreplace = w.dLastreplace
  dFlag : v.dFlag = w.dFlag
  dMeta : v.dMeta = w.dMeta
  lists : ∀ table name, w.Lists table name → v.Lists table name
  sorted : w.Sorted → v.Sorted

lemma Grows.refl (w : SQLiteWriter) : w.Grows w :=
  ⟨rfl, rfl, rfl, rfl, rfl, fun _ _ h => h, id⟩

lemma Grows.trans {w v u : SQLiteWriter} (h : w.Grows v) (k : v.Grows u) : w.Grows u :=
  ⟨k.dDb.trans h.dDb, k.dLastsig.trans h.dLastsig, k.dLastreplace.trans h.dLastreplace,
    k.dFlag.trans h.dFlag, k.dMeta.trans h.dMeta,
    fun t n hl => k.lists t n (h.lists t n hl), fun hs => k.sorted (h.sorted hs)⟩

lemma grows_setColumns (w : SQLiteWriter) (table : Bytes) (cols : List (Bytes × Bytes))
    (hk : ∀ p ∈ w.dColumns table, p ∈ cols) (hs : SortedByFirst cols) :
    w.Grows (w.setColumns table cols) := by
  refine ⟨rfl, rfl, rfl, rfl, rfl, ?_, ?_⟩
  · rintro t n ⟨p, hp, rfl⟩
    refine ⟨p, ?_, rfl⟩
    by_cases ht : t = table
    · subst ht
      simpa using hk p hp
    · simpa [Function.update_of_ne ht] using hp
  · intro hw t
    by_cases ht : t = table
    · subst ht
      simpa using hs
    · simpa [Function.update_of_ne ht] using hw t

lemma binarySearch_lists {w : SQLiteWriter} (hw : w.Sorted) (table name : Bytes) :
    binarySearch firstLt (w.dColumns table) (name, []) = true ↔ w.Lists table name :=
  binarySearch_iff _ (hw table) _

lemma lists_congr {w v : SQLiteWriter} (hv : v.dColumns = w.dColumns) {t n : Bytes} :
    v.Lists t n ↔ w.Lists t n := by
  unfold Lists
  rw [hv]

instance (w : SQLiteWriter) (table name : Bytes) : Decidable (w.Lists table name) :=
  inferInstanceAs (Decidable (∃ p ∈ w.dColumns table, p.1 = name))

lemma lists_setColumns {w : SQLiteWriter} {table : Bytes} {cols : List (Bytes × Bytes)} {t n : Bytes} :
    (w.setColumns table cols).Lists t n ↔
      if t = table then (∃ p ∈ cols, p.1 = n) else w.Lists t n := by
  unfold Lists
  by_cases ht : t = table
  · simp [ht]
  · simp [ht]

lemma lists_withColumn {w : SQLiteWriter} {table : Bytes} {p : Bytes × VarT} {t n : Bytes} :
    (w.withColumn table p).Lists t n ↔ w.Lists t n ∨ (t = table ∧ p.1 = n) := by
  unfold withColumn
  rw [lists_setColumns]
  unfold Lists
  by_cases ht : t = table
  · subst ht
    simp [sortPairs, or_and_right, exists_or]
  · simp [ht]

lemma getSchema_sorted {c c' : Conn E} {db db' : MiniSQLite} {table : Bytes}
    {schema : List (Bytes × Bytes)}
    (h : (MiniSQLite.getSchema table).invoke (Conn.answer E) db c = (.ok schema, db', c')) :
    SortedByFirst schema := by
  rw [MiniSQLite.invoke_getSchema] at h
  have h1 := (Prod.ext_iff.mp h).1
  simp only at h1
  cases hx : MiniSQLite.execResult (schemaText table) (c.exec (schemaText table)).1 with
  | error e =>
    rw [hx] at h1
    cases h1
  | ok rows =>
    rw [hx] at h1
    cases h1
    exact sortByFirst_sorted _

lemma haveColumn_spec (w₀ : SQLiteWriter) (hw : w₀.Sorted) (table name : Bytes) :
    Triple (Conn.answer E) (fun v _ => w₀.Grows v) (haveColumn table name)
      (fun known v _ => w₀.Grows v ∧ (known = true ↔ v.Lists table name)) (fun _ v _ => w₀.Grows v) := by
  intro v c hv
  have hvs : v.Sorted := hv.sorted hw
  by_cases hempty : v.dColumns table = []
  · cases hg : (MiniSQLite.getSchema table).invoke (Conn.answer E) v.dDb c with
    | mk x r =>
      obtain ⟨db, c₁⟩ := r
      have hdb : db = v.dDb := by
        rw [MiniSQLite.invoke_getSchema] at hg
        exact (Prod.ext_iff.mp (Prod.ext_iff.mp hg).2).1.symm
      subst hdb
      cases x with
      | error e =>
        rw [invoke_haveColumn_load_error v c table name hempty hg]
        exact hv
      | ok schema =>
        have hgrow := grows_setColumns v table schema (by simp [hempty]) (getSchema_sorted hg)
        rw [invoke_haveColumn_load_ok v c table name hempty hg]
        refine ⟨hv.trans hgrow, ?_⟩
        have hb := binarySearch_lists (hgrow.sorted hvs) table name
        simpa using hb
  · rw [invoke_haveColumn_loaded v c table name hempty]
    exact ⟨hv, binarySearch_lists hvs table name⟩

lemma createColumn_spec (w₀ : SQLiteWriter) (table : Bytes) (p : Bytes × VarT) :
    Triple (Conn.answer E) (fun v _ => w₀.Grows v) (createColumn table p)
      (fun _ v _ => w₀.Grows v ∧ v.Lists table p.1) (fun _ v _ => w₀.Grows v) := by
  intro v c hv
  rw [invoke_createColumn]
  generalize (MiniSQLite.addColumn table p.1 (columnType p.2) (v.dMeta table p.1)).invoke
    (Conn.answer E) v.dDb c = r
  obtain ⟨x, db, c₁⟩ := r
  cases x with
  | error e => exact hv
  | ok u =>
    refine ⟨hv.trans (grows_setColumns v table _ ?_ (sortPairs_sorted _)), ?_⟩
    · intro q hq
      simp [hq]
    · exact ⟨(p.1, columnType p.2), by simp [withColumn], rfl⟩

lemma columnLoop_spec (w₀ : SQLiteWriter) (hw : w₀.Sorted) (table : Bytes) (first : Bool)
    (q qmarks : Bytes) (values : Fields) :
    Triple (Conn.answer E) (fun v _ => w₀.Grows v) (columnLoop table first q qmarks values)
      (fun r v _ => w₀.Grows v ∧ (∀ p ∈ values, v.Lists table p.1) ∧
        r = (q ++ columnList first (values.map (·.1)), qmarks ++ markList first (values.map (·.1))))
      (fun _ v _ => w₀.Grows v) := by
  induction values generalizing w₀ first q qmarks with
  | nil =>
    refine Triple.pure fun v _ hv => ⟨hv, by simp, ?_⟩
    simp [columnList, markList]
  | cons p values ih =>
    unfold columnLoop
    refine Triple.bind (haveColumn_spec w₀ hw table p.1) fun known => ?_
    have hrest : Triple (Conn.answer E) (fun v _ => w₀.Grows v ∧ v.Lists table p.1)
        (columnLoop table false (q ++ listSep first ++ ascii "'" ++ p.1 ++ ascii "'")
          (qmarks ++ listSep first ++ ascii "?") values)
        (fun r v _ => w₀.Grows v ∧ (∀ p' ∈ p :: values, v.Lists table p'.1) ∧
          r = (q ++ columnList first ((p :: values).map (·.1)),
            qmarks ++ markList first ((p :: values).map (·.1))))
        (fun _ v _ => w₀.Grows v) := by
      rintro v c ⟨hv, hp⟩
      refine Triple.weaken (ih v (hv.sorted hw) false _ _) (K := fun u _ => u = v)
        (by rintro _ _ rfl; exact Grows.refl _) ?_ ?_ v c rfl
      · rintro r u t ⟨hu, hall, rfl⟩
        refine ⟨hv.trans hu, ?_, ?_⟩
        · intro p' hp'
          rcases List.mem_cons.mp hp' with rfl | hp'
          · exact hu.lists _ _ hp
          · exact hall p' hp'
        · simp [columnList, markList]
      · rintro e u t hu
        exact hv.trans hu
    cases known with
    | true =>
      simp only [Bool.not_true, Bool.false_eq_true, if_false]
      exact hrest.weaken (fun v _ h => ⟨h.1, h.2.mp trivial⟩) (fun _ _ _ h => h) (fun _ _ _ h => h)
    | false =>
      simp only [Bool.not_false, if_true]
      refine Triple.bind ((createColumn_spec w₀ table p).weaken (fun v _ h => h.1)
        (fun _ _ _ h => h) (fun _ _ _ h => h)) fun _ => ?_
      exact hrest

/-- The statement held for a table is the one of its recorded signature: it is reset, its
parameters beyond those of the signature are clear, and the cache lists all its columns. -/
structure Held (E : Engine) (w : SQLiteWriter) (table : Bytes) (s : Stmt) : Prop where
  sql : s.sql = insertText (w.dLastreplace table) table (w.dLastsig table)
  reset : s.busy = false
  params : s.binds.length = E.params s.sql
  clear : ∀ v ∈ s.binds.drop (w.dLastsig table).length, v = .null
  listed : ∀ name ∈ w.dLastsig table, w.Lists table name

/-- The invariant of the caches between two calls. -/
structure CacheOk (E : Engine) (w : SQLiteWriter) : Prop where
  sorted : w.Sorted
  held : ∀ table s, w.dDb.dStmts table = some s → Held E w table s

lemma Held.grows {w v : SQLiteWriter} {table : Bytes} {s : Stmt} (h : Held E w table s)
    (hg : w.Grows v) : Held E v table s where
  sql := by rw [hg.dLastreplace, hg.dLastsig]; exact h.sql
  reset := h.reset
  params := h.params
  clear := by rw [hg.dLastsig]; exact h.clear
  listed := by rw [hg.dLastsig]; exact fun n hn => hg.lists _ _ (h.listed n hn)

lemma CacheOk.grows {w v : SQLiteWriter} (h : CacheOk E w) (hg : w.Grows v) : CacheOk E v :=
  ⟨hg.sorted h.sorted, fun t s hs => (h.held t s (hg.dDb ▸ hs)).grows hg⟩

lemma CacheOk.setColumns {w : SQLiteWriter} {table : Bytes} (h : CacheOk E w) {cols : List (Bytes × Bytes)}
    (hn : w.dColumns table = []) (hs : SortedByFirst cols) : CacheOk E (w.setColumns table cols) :=
  h.grows (grows_setColumns w table cols (by simp [hn]) hs)

lemma CacheOk.withColumn {w : SQLiteWriter} {table : Bytes} (h : CacheOk E w) (p : Bytes × VarT) :
    CacheOk E (w.withColumn table p) :=
  h.grows (grows_setColumns w table _ (fun q hq => by simp [sortPairs, hq]) (sortPairs_sorted _))

lemma CacheOk.setStmt {w : SQLiteWriter} (h : CacheOk E w) (table : Bytes) (o : Option Stmt)
    (ho : ∀ s, o = some s → Held E w table s) : CacheOk E (w.setDb (w.dDb.setStmt table o)) := by
  refine ⟨h.sorted, fun t s hs => ?_⟩
  have hkeep : Held E w t s := by
    by_cases ht : t = table
    · subst ht
      exact ho s (by simpa using hs)
    · exact h.held t s (by simpa [Function.update_of_ne ht] using hs)
  exact ⟨hkeep.sql, hkeep.reset, hkeep.params, hkeep.clear, hkeep.listed⟩

/-- The cached statement of a table is discarded. -/
def discard (w : SQLiteWriter) (table : Bytes) : SQLiteWriter :=
  w.setDb (w.dDb.setStmt table none)

lemma CacheOk.discard {w : SQLiteWriter} (h : CacheOk E w) (table : Bytes) :
    CacheOk E (w.discard table) := h.setStmt table none (by simp)

lemma CacheOk.built {w : SQLiteWriter} (h : CacheOk E w) (table : Bytes) (values : Fields)
    (replace : Bool) (hl : ∀ p ∈ values, w.Lists table p.1) :
    CacheOk E ((w.setDb (w.dDb.setStmt table (some ⟨insertText replace table (values.map (·.1)),
      List.replicate (E.params (insertText replace table (values.map (·.1)))) .null, false⟩))).setSignature
        table (values.map (·.1)) replace) := by
  refine ⟨h.sorted, fun t s hs => ?_⟩
  by_cases ht : t = table
  · subst ht
    obtain rfl : s = ⟨insertText replace t (values.map (·.1)),
      List.replicate (E.params (insertText replace t (values.map (·.1)))) .null, false⟩ := by
      simpa using hs.symm
    refine ⟨by simp, rfl, by simp, ?_, ?_⟩
    · intro v hv
      exact List.eq_of_mem_replicate (List.mem_of_mem_drop hv)
    · intro n hn
      simp only [setSignature_dLastsig, Function.update_self, List.mem_map] at hn
      obtain ⟨p, hp, rfl⟩ := hn
      exact hl p hp
  · have hk := h.held t s (by simpa [Function.update_of_ne ht] using hs)
    refine ⟨?_, hk.reset, hk.params, ?_, ?_⟩
    · simpa [Function.update_of_ne ht] using hk.sql
    · simpa [Function.update_of_ne ht] using hk.clear
    · intro n hn
      exact hk.listed n (by simpa [Function.update_of_ne ht] using hn)

lemma rebuild_spec (w₀ : SQLiteWriter) (h₀ : CacheOk E w₀) (table : Bytes) (values : Fields)
    (replace : Bool) :
    Triple (Conn.answer E) (fun v _ => v = w₀) (rebuild table values replace)
      (fun _ v _ => CacheOk E v ∧ v.dFlag = w₀.dFlag ∧ v.cached table values replace = true)
      (fun _ v _ => CacheOk E v ∧ v.dFlag = w₀.dFlag) := by
  unfold rebuild
  refine Triple.bind ((columnLoop_spec w₀ h₀.sorted table true (insertHead replace table) []
    values).weaken (by rintro v _ rfl; exact Grows.refl _) (fun _ _ _ h => h)
    (fun _ v _ h => ⟨h₀.grows h, h.dFlag⟩)) fun r => ?_
  rintro v c ⟨hv, hall, rfl⟩
  have hok := h₀.grows hv
  have htext : insertHead replace table ++ columnList true (values.map (·.1)) ++ ascii ") values (" ++
      ([] ++ markList true (values.map (·.1))) ++ ascii ")" =
      insertText replace table (values.map (·.1)) := by
    simp [insertText]
  simp only [htext]
  rw [invoke_bind, invoke_onDb]
  cases hp : E.prepare c.view (insertText replace table (values.map (·.1))) with
  | error e =>
    rw [MiniSQLite.invoke_prepare_error _ _ _ (blank_insertText _ _ _) hp]
    exact ⟨hok.discard table, hv.dFlag⟩
  | ok u =>
    rw [MiniSQLite.invoke_prepare_ok _ _ _ (blank_insertText _ _ _) hp]
    simp only [invoke_modify]
    refine ⟨hok.built table values replace hall, hv.dFlag, ?_⟩
    simp [cached, MiniSQLite.isPrepared]

lemma held_of_cached {w : SQLiteWriter} (h : CacheOk E w) {table : Bytes} {values : Fields}
    {replace : Bool} (hc : w.cached table values replace = true) :
    ∃ s, w.dDb.dStmts table = some s ∧ s.sql = insertText replace table (values.map (·.1)) ∧
      s.busy = false ∧ s.binds.length = E.params s.sql ∧
      (∀ v ∈ s.binds.drop values.length, v = .null) ∧ (∀ p ∈ values, w.Lists table p.1) ∧
      w.dLastsig table = values.map (·.1) ∧ w.dLastreplace table = replace := by
  simp only [cached, MiniSQLite.isPrepared, Bool.and_eq_true, beq_iff_eq,
    Option.isSome_iff_exists] at hc
  obtain ⟨⟨⟨s, hs⟩, hr⟩, hsig⟩ := hc
  obtain ⟨h1, h2, h3, h4, h5⟩ := h.held table s hs
  rw [← hsig, hr] at h1
  rw [← hsig] at h4 h5
  refine ⟨s, hs, h1, h2, h3, by simpa using h4, ?_, hsig.symm, hr⟩
  intro p hp
  exact h5 _ (List.mem_map_of_mem hp)

/-- The second half of a call, from a held statement: bind the values and step. -/
def finishCall (E : Engine) (table : Bytes) (values : Fields) (w : SQLiteWriter) (c : Conn E)
    (s : Stmt) : Except Bytes Unit × SQLiteWriter × Conn E :=
  match bindAll E s.binds 1 values with
  | (.error e, binds) => (.error e, w.setDb (w.dDb.setStmt table (some { s with binds := binds })), c)
  | (.ok _, binds) =>
    ((MiniSQLite.stepRows false (c.step s.sql binds false).1).map fun _ => (),
      w.setDb (w.dDb.setStmt table (some (MiniSQLite.resetStmt { s with binds := binds }))),
      (c.step s.sql binds false).2)

lemma invoke_finish (table : Bytes) (values : Fields) (w : SQLiteWriter) (c : Conn E) {s : Stmt}
    (h : w.dDb.dStmts table = some s) (hs : s.busy = false) :
    (do bindValues table 1 values
        let _ ← onDb (MiniSQLite.execPrep table false 0) : M Unit).invoke (Conn.answer E) w c =
      finishCall E table values w c s := by
  rw [invoke_bind, invoke_bindValues w c table 1 values h hs]
  unfold finishCall
  generalize bindAll E s.binds 1 values = r
  obtain ⟨x, binds⟩ := r
  cases x with
  | error e => rfl
  | ok u =>
    simp only
    rw [invoke_bind, invoke_onDb, MiniSQLite.invoke_execPrep _ _ _ _ (by simp; rfl)]
    cases MiniSQLite.stepRows false (c.step s.sql binds false).1 <;> simp [Except.map]

/-- The parameters of an `INSERT` whose first ones are bound to given values. -/
def insertBinds (E : Engine) (text : Bytes) (vs : List Value) : List Value :=
  vs ++ List.replicate (E.params text - vs.length) .null

lemma finishCall_bound {values : Fields} {s : Stmt}
    (hp : s.binds.length = E.params s.sql) (hc : ∀ v ∈ s.binds.drop values.length, v = .null)
    (hb : (bindAll E s.binds 1 values).1 = .ok ()) :
    ∃ vs, boundValues E values = .ok vs ∧ vs.length = values.length ∧
      (bindAll E s.binds 1 values).2 = insertBinds E s.sql vs := by
  obtain ⟨vs, hvs, hlen, hbinds⟩ := bindAll_ok s.binds 0 values hb
  refine ⟨vs, hvs, hlen, ?_⟩
  have hdrop : s.binds.drop (0 + values.length) =
      List.replicate (E.params s.sql - vs.length) .null := by
    apply List.eq_replicate_iff.mpr
    refine ⟨by simp [hp, hlen], fun v hv => hc v (by simpa using hv)⟩
  rw [hbinds, hdrop]
  simp [insertBinds]

/-- The two statements of one text that may be held give the same call; they differ afterwards only
where a value did not bind. -/
lemma finishCall_congr (table : Bytes) (values : Fields) (w : SQLiteWriter) (c : Conn E)
    {s u : Stmt} (hsql : s.sql = u.sql)
    (hsp : s.binds.length = E.params s.sql) (hup : u.binds.length = E.params u.sql)
    (hsc : ∀ v ∈ s.binds.drop values.length, v = .null)
    (huc : ∀ v ∈ u.binds.drop values.length, v = .null) :
    (finishCall E table values w c s).1 = (finishCall E table values w c u).1 ∧
    (finishCall E table values w c s).2.2 = (finishCall E table values w c u).2.2 ∧
    (finishCall E table values w c s).2.1.discard table =
      (finishCall E table values w c u).2.1.discard table ∧
    ((finishCall E table values w c s).1 = .ok () →
      (finishCall E table values w c s).2.1 = (finishCall E table values w c u).2.1) := by
  have hres := bindAll_result (E := E) s.binds u.binds 1 values (by rw [hsp, hup, hsql])
  cases hb : (bindAll E s.binds 1 values).1 with
  | error e =>
    have hb' := hres.symm.trans hb
    have hx : bindAll E s.binds 1 values = (.error e, (bindAll E s.binds 1 values).2) :=
      Prod.ext hb rfl
    have hy : bindAll E u.binds 1 values = (.error e, (bindAll E u.binds 1 values).2) :=
      Prod.ext hb' rfl
    unfold finishCall
    rw [hx, hy]
    simp [discard]
  | ok x =>
    have hb' := hres.symm.trans hb
    obtain ⟨vs, hvs, -, hx⟩ := finishCall_bound hsp hsc hb
    obtain ⟨us, hus, -, hy⟩ := finishCall_bound hup huc hb'
    obtain rfl : vs = us := by
      rw [hvs] at hus
      exact Except.ok.inj hus
    have hx : bindAll E s.binds 1 values = (.ok x, insertBinds E s.sql vs) := Prod.ext hb hx
    have hy : bindAll E u.binds 1 values = (.ok x, insertBinds E s.sql vs) :=
      Prod.ext hb' (by rw [hy, hsql])
    unfold finishCall
    rw [hx, hy, hsql]
    exact ⟨rfl, rfl, rfl, fun _ => rfl⟩

lemma finishCall_holds (table : Bytes) (values : Fields) (w : SQLiteWriter) (c : Conn E) {s : Stmt}
    (hb : s.busy = false) : ∃ s', (finishCall E table values w c s).2.1.dDb.dStmts table = some s' ∧
      s'.sql = s.sql ∧ s'.busy = false := by
  unfold finishCall
  generalize bindAll E s.binds 1 values = r
  obtain ⟨x, binds⟩ := r
  cases x with
  | error e => exact ⟨{ s with binds := binds }, by simp, rfl, hb⟩
  | ok u => exact ⟨MiniSQLite.resetStmt { s with binds := binds }, by simp, rfl, rfl⟩

lemma finishCall_setStmt (table : Bytes) (values : Fields) (w : SQLiteWriter) (c : Conn E)
    (o : Option Stmt) (s : Stmt) :
    finishCall E table values (w.setDb (w.dDb.setStmt table o)) c s =
      finishCall E table values w c s := by
  unfold finishCall
  generalize bindAll E s.binds 1 values = r
  obtain ⟨x, binds⟩ := r
  cases x <;> simp

lemma columnLoop_setDb (w : SQLiteWriter) (db : MiniSQLite) (c : Conn E) (table : Bytes)
    (first : Bool) (q qmarks : Bytes) (values : Fields) :
    (columnLoop table first q qmarks values).invoke (Conn.answer E) (w.setDb db) c =
      (((columnLoop table first q qmarks values).invoke (Conn.answer E) w c).1,
        ((columnLoop table first q qmarks values).invoke (Conn.answer E) w c).2.1.setDb db,
        ((columnLoop table first q qmarks values).invoke (Conn.answer E) w c).2.2) :=
  (frame_columnLoop (keepsColumns_setDb db) table first q qmarks values).invoke _ w c

lemma columnLoop_listed (w : SQLiteWriter) (hw : w.Sorted) (c : Conn E) (table : Bytes)
    (first : Bool) (q qmarks : Bytes) (values : Fields) (hl : ∀ p ∈ values, w.Lists table p.1) :
    (columnLoop table first q qmarks values).invoke (Conn.answer E) w c =
      (.ok (q ++ columnList first (values.map (·.1)), qmarks ++ markList first (values.map (·.1))),
        w, c) := by
  induction values generalizing first q qmarks with
  | nil => simp [columnLoop, columnList, markList]
  | cons p values ih =>
    have hp := hl p (by simp)
    have hne : w.dColumns table ≠ [] := by
      obtain ⟨x, hx, -⟩ := hp
      exact List.ne_nil_of_mem hx
    unfold columnLoop
    rw [invoke_bind, invoke_haveColumn_loaded w c table p.1 hne, (binarySearch_lists hw _ _).mpr hp]
    simp only [Bool.not_true, Bool.false_eq_true, if_false]
    rw [ih false _ _ fun p' hp' => hl p' (by simp [hp'])]
    simp [columnList, markList]

lemma rebuild_listed (w : SQLiteWriter) (hw : w.Sorted) (c : Conn E) (table : Bytes)
    (values : Fields) (replace : Bool) (hl : ∀ p ∈ values, w.Lists table p.1) :
    (rebuild table values replace).invoke (Conn.answer E) w c =
      match E.prepare c.view (insertText replace table (values.map (·.1))) with
      | .error e =>
        (.error (ascii "Unable to prepare query " ++ insertText replace table (values.map (·.1)) ++
          ascii ": " ++ e), w.discard table, c)
      | .ok _ =>
        (.ok (), (w.setDb (w.dDb.setStmt table (some ⟨insertText replace table (values.map (·.1)),
          List.replicate (E.params (insertText replace table (values.map (·.1)))) .null,
          false⟩))).setSignature table (values.map (·.1)) replace, c) := by
  unfold rebuild
  rw [invoke_bind, columnLoop_listed w hw c table true _ _ values hl]
  have htext : insertHead replace table ++ columnList true (values.map (·.1)) ++ ascii ") values (" ++
      ([] ++ markList true (values.map (·.1))) ++ ascii ")" =
      insertText replace table (values.map (·.1)) := by
    simp [insertText]
  simp only [htext]
  rw [invoke_bind, invoke_onDb]
  cases hp : E.prepare c.view (insertText replace table (values.map (·.1))) with
  | error e =>
    rw [MiniSQLite.invoke_prepare_error _ _ _ (blank_insertText _ _ _) hp]
    rfl
  | ok u =>
    rw [MiniSQLite.invoke_prepare_ok _ _ _ (blank_insertText _ _ _) hp]
    rfl

lemma columnLoop_grows (w : SQLiteWriter) (hw : w.Sorted) (c : Conn E) (table : Bytes)
    (first : Bool) (q qmarks : Bytes) (values : Fields) :
    w.Grows ((columnLoop table first q qmarks values).invoke (Conn.answer E) w c).2.1 :=
  Triple.final (I := fun v _ => w.Grows v) ((columnLoop_spec w hw table first q qmarks values).weaken
    (fun _ _ h => h) (fun _ _ _ h => h.1) fun _ _ _ h => h) (Grows.refl w)

/-- Building the statement of a table starts by discarding the one that is held, unless the column
loop has thrown before. -/
lemma rebuild_discard (w : SQLiteWriter) (hw : w.Sorted) (c : Conn E) (table : Bytes) (values : Fields)
    (replace : Bool) :
    (∃ e v c₁, (rebuild table values replace).invoke (Conn.answer E) w c = (.error e, v, c₁) ∧
      v.dDb = w.dDb ∧ (rebuild table values replace).invoke (Conn.answer E) (w.discard table) c =
        (.error e, v.discard table, c₁)) ∨
    (rebuild table values replace).invoke (Conn.answer E) w c =
      (rebuild table values replace).invoke (Conn.answer E) (w.discard table) c := by
  have hdb : ((columnLoop table true (insertHead replace table) [] values).invoke
      (Conn.answer E) w c).2.1.dDb = w.dDb := (columnLoop_grows w hw c table true _ _ values).dDb
  unfold rebuild discard
  rw [invoke_bind, invoke_bind, columnLoop_setDb]
  generalize hr : (columnLoop table true (insertHead replace table) [] values).invoke
    (Conn.answer E) w c = r at hdb ⊢
  obtain ⟨x, v, c₁⟩ := r
  simp only at hdb
  cases x with
  | error e => exact Or.inl ⟨e, v, c₁, rfl, hdb, by simp [hdb]⟩
  | ok texts =>
    simp only [text_returned hr]
    rw [invoke_bind, invoke_bind, invoke_onDb, invoke_onDb]
    have hblank := blank_insertText replace table (values.map (·.1))
    cases hp : E.prepare c₁.view (insertText replace table (values.map (·.1))) with
    | error e =>
      rw [MiniSQLite.invoke_prepare_error _ _ _ hblank hp, MiniSQLite.invoke_prepare_error _ _ _ hblank hp]
      exact Or.inr (by simp [hdb])
    | ok u =>
      rw [MiniSQLite.invoke_prepare_ok _ _ _ hblank hp, MiniSQLite.invoke_prepare_ok _ _ _ hblank hp]
      exact Or.inr (by simp [hdb])

lemma finishCall_cacheOk {w : SQLiteWriter} (h : CacheOk E w) (c : Conn E) {table : Bytes}
    {values : Fields} {replace : Bool} (hc : w.cached table values replace = true) {s : Stmt}
    (hs : w.dDb.dStmts table = some s) : CacheOk E (finishCall E table values w c s).2.1 := by
  have hk := h.held table s hs
  obtain ⟨-, -, -, -, -, -, -, hsig, -⟩ := held_of_cached h hc
  have hlen := bindAll_length (E := E) s.binds 1 values
  have hdrop := bindAll_drop (E := E) s.binds 0 values
  unfold finishCall
  generalize bindAll E s.binds 1 values = r at hlen hdrop ⊢
  obtain ⟨x, binds⟩ := r
  simp only at hlen hdrop
  cases x with
  | error e =>
    refine h.setStmt table _ ?_
    rintro u ⟨⟩
    refine ⟨hk.sql, hk.reset, hlen.trans hk.params, ?_, hk.listed⟩
    have hclear := hk.clear
    rw [hsig, List.length_map] at hclear ⊢
    rw [Nat.zero_add] at hdrop
    rw [hdrop]
    exact hclear
  | ok y =>
    refine h.setStmt table _ ?_
    rintro u ⟨⟩
    refine ⟨hk.sql, rfl, ?_, ?_, hk.listed⟩
    · simpa [MiniSQLite.resetStmt] using hlen.trans hk.params
    · intro v hv
      exact List.eq_of_mem_replicate (List.mem_of_mem_drop hv)

end SQLiteWriter

namespace Call
open SQLiteWriter
variable {E : Engine} (k : Call) (w : SQLiteWriter) (c : Conn E)

lemma run_readOnly (hf : w.dFlag = .readOnly) : k.run w c =
    (.error (ascii "Attempting to write to a read-only database instance"), w, c) := by
  unfold run method addValueGeneric
  rw [invoke_bind, invoke_get]
  simp only [hf, if_true]
  rfl

lemma run_cached (hf : w.dFlag ≠ .readOnly) (hc : w.cached k.table k.values k.replace = true)
    {s : Stmt} (hs : w.dDb.dStmts k.table = some s) (hb : s.busy = false) :
    k.run w c = finishCall E k.table k.values w c s := by
  rw [← invoke_finish k.table k.values w c hs hb]
  unfold run method addValueGeneric
  rw [invoke_bind, invoke_get]
  simp only [hf, hc, if_false, Bool.not_true, Bool.false_eq_true]

lemma run_rebuild (hf : w.dFlag ≠ .readOnly) (hc : w.cached k.table k.values k.replace = false) :
    k.run w c = match (rebuild k.table k.values k.replace).invoke (Conn.answer E) w c with
      | (.ok _, v, c₁) => (do bindValues k.table 1 k.values
                              let _ ← onDb (MiniSQLite.execPrep k.table false 0) : M Unit).invoke
          (Conn.answer E) v c₁
      | (.error e, v, c₁) => (.error e, v, c₁) := by
  unfold run method addValueGeneric
  rw [invoke_bind, invoke_get]
  simp only [hf, hc, if_false, Bool.not_false, if_true]
  rw [invoke_bind]
  generalize (rebuild k.table k.values k.replace).invoke (Conn.answer E) w c = r
  obtain ⟨x, v, c₁⟩ := r
  cases x <;> rfl

/-- A call that does not take the cached statement: the rebuilding throws, or it leaves the
statement of the call, from which the call is finished. -/
lemma run_rebuild_cases (h : CacheOk E w) (hf : w.dFlag ≠ .readOnly)
    (hc : w.cached k.table k.values k.replace = false) :
    (∃ e v c₁, (rebuild k.table k.values k.replace).invoke (Conn.answer E) w c = (.error e, v, c₁) ∧
      CacheOk E v ∧ v.dFlag = w.dFlag ∧ k.run w c = (.error e, v, c₁)) ∨
    (∃ v c₁ s, (rebuild k.table k.values k.replace).invoke (Conn.answer E) w c = (.ok (), v, c₁) ∧
      CacheOk E v ∧ v.dFlag = w.dFlag ∧ v.cached k.table k.values k.replace = true ∧
      v.dDb.dStmts k.table = some s ∧ k.run w c = finishCall E k.table k.values v c₁ s) := by
  have hr := rebuild_spec w h k.table k.values k.replace w c rfl
  have hrun := run_rebuild k w c hf hc
  generalize (rebuild k.table k.values k.replace).invoke (Conn.answer E) w c = r at hr hrun
  obtain ⟨x, v, c₁⟩ := r
  cases x with
  | error e => exact Or.inl ⟨e, v, c₁, rfl, hr.1, hr.2, hrun⟩
  | ok u =>
    obtain ⟨hv, hflag, hcv⟩ := hr
    obtain ⟨s, hs, -, hb, -⟩ := held_of_cached hv hcv
    refine Or.inr ⟨v, c₁, s, rfl, hv, hflag, hcv, hs, ?_⟩
    rw [hrun]
    exact invoke_finish k.table k.values v c₁ hs hb

/-- Every exit of a call keeps the invariant of the caches. -/
theorem run_cacheOk (h : CacheOk E w) : CacheOk E (k.run w c).2.1 := by
  by_cases hf : w.dFlag = .readOnly
  · rw [run_readOnly k w c hf]
    exact h
  cases hc : w.cached k.table k.values k.replace with
  | true =>
    obtain ⟨s, hs, -, hb, -⟩ := held_of_cached h hc
    rw [run_cached k w c hf hc hs hb]
    exact finishCall_cacheOk h c hc hs
  | false =>
    rcases run_rebuild_cases k w c h hf hc with ⟨e, v, c₁, -, hv, -, hrun⟩ |
      ⟨v, c₁, s, -, hv, -, hcv, hs, hrun⟩
    · rw [hrun]
      exact hv
    · rw [hrun]
      exact finishCall_cacheOk hv c₁ hcv hs

/-- Two runs of a call have the same effect: both return or both throw, the database and the
statements that ran are the same, and so is the object up to the statement held for the table. -/
structure SameCall (x y : Except Bytes Unit × SQLiteWriter × Conn E) : Prop where
  returns : x.1.isOk = y.1.isOk
  conn : x.2.2 = y.2.2
  writer : x.2.1.discard k.table = y.2.1.discard k.table

/-- They have the same result too, whose text includes. A run that returns leaves the same object, and
wherever the second holds a statement at its end, the first holds the same one. -/
structure Alike (x y : Except Bytes Unit × SQLiteWriter × Conn E) : Prop extends k.SameCall x y where
  result : x.1 = y.1
  object : x.1 = .ok () → x.2.1 = y.2.1
  held : ∀ u, y.2.1.dDb.dStmts k.table = some u →
    ∃ s, x.2.1.dDb.dStmts k.table = some s ∧ s.sql = u.sql ∧ s.busy = u.busy

/-- The call takes the statement held for its table, which SQLite does not compile any more. -/
structure Stale (e : Bytes) : Prop where
  writable : w.dFlag ≠ .readOnly
  cached : w.cached k.table k.values k.replace = true
  uncompiled : E.prepare c.view (insertText k.replace k.table k.names) = .error e

/-- With such a statement a call throws when it binds or steps it, and keeps it; without it, the call
throws when it prepares its statement, and the table is left without one. -/
structure Refused (e : Bytes) (x y : Except Bytes Unit × SQLiteWriter × Conn E) : Prop
    extends k.SameCall x y where
  steps : (∃ m, x.1 = .error (MiniSQLite.bindFailed m)) ∨ x.1 = .error (MiniSQLite.stepFailed 1)
  keeps : x.2.1.dDb.isPrepared k.table = true
  prepares : y.1 = .error (ascii "Unable to prepare query " ++ insertText k.replace k.table k.names ++
    ascii ": " ++ e)
  loses : y.2.1.dDb.isPrepared k.table = false
  unchanged : x.2.2 = c

lemma step_uncompiled {sql : Bytes} {e : Bytes} (h : E.prepare c.view sql = .error e)
    (binds : List Value) : c.step sql binds false = (⟨[], some 1⟩, c) := by
  simp [Conn.step, h]

lemma finishCall_uncompiled {s : Stmt} {e : Bytes} (h : E.prepare c.view s.sql = .error e) :
    ((∃ m, (finishCall E k.table k.values w c s).1 = .error (MiniSQLite.bindFailed m)) ∨
      (finishCall E k.table k.values w c s).1 = .error (MiniSQLite.stepFailed 1)) ∧
    (finishCall E k.table k.values w c s).2.2 = c ∧
    (finishCall E k.table k.values w c s).2.1.discard k.table = w.discard k.table := by
  have herror := bindAll_error (E := E) s.binds 1 k.values
  unfold finishCall
  generalize bindAll E s.binds 1 k.values = r at herror ⊢
  obtain ⟨x, binds⟩ := r
  cases x with
  | error e =>
    obtain ⟨m, rfl⟩ := herror e rfl
    exact ⟨Or.inl ⟨m, rfl⟩, rfl, by simp [SQLiteWriter.discard]⟩
  | ok u =>
    have hstep := step_uncompiled (c := c) h binds
    refine ⟨Or.inr ?_, ?_, by simp [SQLiteWriter.discard]⟩
    · simp only [hstep]
      rfl
    · simp only [hstep]

lemma run_discard_cached (h : CacheOk E w) (hf : w.dFlag ≠ .readOnly)
    (hc : w.cached k.table k.values k.replace = true) :
    (∃ e, k.Stale w c e ∧ k.Refused c e (k.run w c) (k.run (w.discard k.table) c)) ∨
    (∀ e, ¬ k.Stale w c e) ∧ k.Alike (k.run w c) (k.run (w.discard k.table) c) := by
  have hcd : (w.discard k.table).cached k.table k.values k.replace = false := by
    simp [cached, MiniSQLite.isPrepared, SQLiteWriter.discard]
  obtain ⟨s, hs, hsql, hb, hp, hclear, hlist, hsig, hrep⟩ := held_of_cached h hc
  have hd := run_rebuild k (w.discard k.table) c hf hcd
  rw [run_cached k w c hf hc hs hb, hd,
    rebuild_listed (w.discard k.table) h.sorted c k.table k.values k.replace hlist]
  obtain ⟨s', hheld, hsql', hb'⟩ := finishCall_holds (E := E) k.table k.values w c hb
  cases hprep : E.prepare c.view (insertText k.replace k.table (k.values.map (·.1))) with
  | error e =>
    obtain ⟨f1, f2, f3⟩ := finishCall_uncompiled k w c (s := s) (hsql.symm ▸ hprep)
    have hthrows : (finishCall E k.table k.values w c s).1.isOk = false := by
      rcases f1 with ⟨m, hm⟩ | hm <;> rw [hm] <;> rfl
    refine Or.inl ⟨e, ⟨hf, hc, hprep⟩, ⟨⟨hthrows, f2, f3.trans (by simp [SQLiteWriter.discard])⟩, f1,
      ?_, rfl, ?_, f2⟩⟩
    · simp [MiniSQLite.isPrepared, hheld]
    · simp [MiniSQLite.isPrepared, SQLiteWriter.discard]
  | ok u =>
    have hcompiles : ∀ e, ¬ k.Stale w c e := by
      intro e he
      have hu := hprep.symm.trans he.uncompiled
      cases hu
    simp only
    rw [invoke_finish _ _ _ _ (s := ⟨insertText k.replace k.table (k.values.map (·.1)),
      List.replicate (E.params (insertText k.replace k.table (k.values.map (·.1)))) .null, false⟩)
      (by simp) rfl, setSignature_self _ k.table _ _ (by simpa [SQLiteWriter.discard] using hsig)
      (by simpa [SQLiteWriter.discard] using hrep)]
    obtain ⟨g1, g2, g3, g4⟩ := finishCall_congr k.table k.values w c (s := s)
      (u := ⟨insertText k.replace k.table (k.values.map (·.1)),
        List.replicate (E.params (insertText k.replace k.table (k.values.map (·.1)))) .null, false⟩)
      hsql hp (by simp) hclear (fun v hv => List.eq_of_mem_replicate (List.mem_of_mem_drop hv))
    have hw : (w.discard k.table).setDb ((w.discard k.table).dDb.setStmt k.table
        (some ⟨insertText k.replace k.table (k.values.map (·.1)), List.replicate
          (E.params (insertText k.replace k.table (k.values.map (·.1)))) .null, false⟩)) =
        w.setDb (w.dDb.setStmt k.table (some ⟨insertText k.replace k.table (k.values.map (·.1)),
          List.replicate (E.params (insertText k.replace k.table (k.values.map (·.1)))) .null,
          false⟩)) := by
      simp [SQLiteWriter.discard]
    rw [hw, finishCall_setStmt]
    refine Or.inr ⟨hcompiles, ⟨⟨congrArg Except.isOk g1, g2, g3⟩, g1, g4, ?_⟩⟩
    intro u hu
    obtain ⟨u', hheld', husql, hub⟩ := finishCall_holds (E := E) k.table k.values w c
      (s := ⟨insertText k.replace k.table (k.values.map (·.1)),
        List.replicate (E.params (insertText k.replace k.table (k.values.map (·.1)))) .null, false⟩) rfl
    obtain rfl : u = u' := Option.some.inj (hu.symm.trans hheld')
    exact ⟨s', hheld, hsql'.trans (hsql.trans husql.symm), hb'.trans hub.symm⟩

/-- What discarding the statement held for its table changes for a call: the text of the exception
when the call would have taken that statement and SQLite compiles it no more, and nothing else. -/
theorem run_discard_cases (h : CacheOk E w) :
    (∃ e, k.Stale w c e ∧ k.Refused c e (k.run w c) (k.run (w.discard k.table) c)) ∨
    (∀ e, ¬ k.Stale w c e) ∧ k.Alike (k.run w c) (k.run (w.discard k.table) c) := by
  have hnone : (w.discard k.table).dDb.dStmts k.table = none := by simp [SQLiteWriter.discard]
  by_cases hf : w.dFlag = .readOnly
  · rw [run_readOnly k w c hf, run_readOnly k (w.discard k.table) c hf]
    refine Or.inr ⟨fun e he => he.writable hf, ⟨⟨rfl, rfl, by simp [SQLiteWriter.discard]⟩, rfl, ?_, ?_⟩⟩
    · intro hok
      cases hok
    · intro u hu
      simp [hnone] at hu
  cases hc : w.cached k.table k.values k.replace with
  | true => exact run_discard_cached k w c h hf hc
  | false =>
    have hfresh : ∀ e, ¬ k.Stale w c e := fun e he => Bool.false_ne_true (hc.symm.trans he.cached)
    have hcd : (w.discard k.table).cached k.table k.values k.replace = false := by
      simp [cached, MiniSQLite.isPrepared, SQLiteWriter.discard]
    have hw := run_rebuild k w c hf hc
    have hd := run_rebuild k (w.discard k.table) c hf hcd
    rcases rebuild_discard w h.sorted c k.table k.values k.replace with
      ⟨e, v, c₁, hr, hv, hr'⟩ | hr
    · rw [hr] at hw
      rw [hr'] at hd
      rw [hw, hd]
      refine Or.inr ⟨hfresh, ⟨⟨rfl, rfl, by simp [SQLiteWriter.discard]⟩, rfl, ?_, ?_⟩⟩
      · intro hok
        cases hok
      · intro u hu
        simp [SQLiteWriter.discard] at hu
    · rw [hr, ← hd] at hw
      rw [hw]
      exact Or.inr ⟨hfresh, ⟨⟨rfl, rfl, rfl⟩, rfl, fun _ => rfl, fun u hu => ⟨u, hu, rfl, rfl⟩⟩⟩

/-- Discarding the cached statement before a call does not change its effect. -/
theorem run_discard (h : CacheOk E w) : k.SameCall (k.run w c) (k.run (w.discard k.table) c) := by
  rcases run_discard_cases k w c h with ⟨e, -, hrefused⟩ | ⟨-, halike⟩
  · exact hrefused.toSameCall
  · exact halike.toSameCall

lemma answer_ran {table : Bytes} {q : Request} (hq : SchemaRequest table q) :
    (Conn.answer E q c).2.ran = c.ran := by
  obtain ⟨hq, -, hstep⟩ := hq
  cases q with
  | exec sql =>
    change (c.exec sql).2.ran = c.ran
    rw [exec_callRequest c table hq, Conn.execText_ran]
  | prepare sql => rfl
  | bind arg => rfl
  | step sql binds rows => exact absurd rfl (hstep sql binds rows)
  | clearNull => rfl
  | clock => rfl
  | progressHandler ttd => rfl

/-- The connection when the statement of a call is at hand: as before for a cached statement. -/
def prepared : Conn E :=
  if w.cached k.table k.values k.replace then c
  else ((rebuild k.table k.values k.replace).invoke (Conn.answer E) w c).2.2

/-- What a call does to the connection: it prepares its statement, and then it throws or it runs
this one statement with its own values, and with `NULL` at every other position. -/
structure Ran (vs : List Value) : Prop where
  bound : boundValues E k.values = .ok vs
  length : vs.length = k.values.length
  result : (k.run w c).1 = (MiniSQLite.stepRows false ((k.prepared w c).step
    (insertText k.replace k.table k.names)
    (insertBinds E (insertText k.replace k.table k.names) vs) false).1).map fun _ => ()
  conn : (k.run w c).2.2 = ((k.prepared w c).step (insertText k.replace k.table k.names)
    (insertBinds E (insertText k.replace k.table k.names) vs) false).2

lemma finishCall_cases {s : Stmt} (hsql : s.sql = insertText k.replace k.table k.names)
    (hp : s.binds.length = E.params s.sql) (hc : ∀ v ∈ s.binds.drop k.values.length, v = .null) :
    (∃ e, (bindAll E s.binds 1 k.values).1 = .error e ∧
      (finishCall E k.table k.values w c s).1 = .error e ∧
      (finishCall E k.table k.values w c s).2.2 = c) ∨
    ∃ vs, boundValues E k.values = .ok vs ∧ vs.length = k.values.length ∧
      (finishCall E k.table k.values w c s).1 = (MiniSQLite.stepRows false (c.step
        (insertText k.replace k.table k.names)
        (insertBinds E (insertText k.replace k.table k.names) vs) false).1).map (fun _ => ()) ∧
      (finishCall E k.table k.values w c s).2.2 = (c.step (insertText k.replace k.table k.names)
        (insertBinds E (insertText k.replace k.table k.names) vs) false).2 := by
  cases hb : (bindAll E s.binds 1 k.values).1 with
  | error e =>
    have hx : bindAll E s.binds 1 k.values = (.error e, (bindAll E s.binds 1 k.values).2) :=
      Prod.ext hb rfl
    refine Or.inl ⟨e, rfl, ?_, ?_⟩ <;> unfold finishCall <;> rw [hx]
  | ok u =>
    obtain ⟨vs, hvs, hlen, hx⟩ := finishCall_bound hp hc hb
    have hx : bindAll E s.binds 1 k.values = (.ok u, insertBinds E s.sql vs) := Prod.ext hb hx
    refine Or.inr ⟨vs, hvs, hlen, ?_, ?_⟩ <;> unfold finishCall <;> rw [hx, ← hsql]

theorem run_cases (h : CacheOk E w) (hf : w.dFlag ≠ .readOnly) :
    (∃ e, (k.run w c).1 = .error e ∧ (k.run w c).2.2 = k.prepared w c) ∨
    ∃ vs, k.Ran w c vs := by
  cases hc : w.cached k.table k.values k.replace with
  | true =>
    obtain ⟨s, hs, hsql, hb, hp, hclear, -⟩ := held_of_cached h hc
    have hrun := run_cached k w c hf hc hs hb
    have hprep : k.prepared w c = c := by simp [prepared, hc]
    rcases finishCall_cases k w c hsql hp hclear with ⟨e, -, h1, h2⟩ | ⟨vs, h1, h2, h3, h4⟩
    · exact Or.inl ⟨e, hrun ▸ h1, by rw [hrun, h2, hprep]⟩
    · exact Or.inr ⟨vs, h1, h2, by rw [hrun, h3, hprep], by rw [hrun, h4, hprep]⟩
  | false =>
    rcases run_rebuild_cases k w c h hf hc with ⟨e, v, c₁, hr, -, -, hrun⟩ |
      ⟨v, c₁, s, hr, hv, -, hcv, hs, hrun⟩
    · exact Or.inl ⟨e, by rw [hrun], by simp [hrun, prepared, hc, hr]⟩
    · have hprep : k.prepared w c = c₁ := by simp [prepared, hc, hr]
      obtain ⟨s', hs', hsql, -, hp, hclear, -⟩ := held_of_cached hv hcv
      obtain rfl : s = s' := Option.some.inj (hs.symm.trans hs')
      rcases finishCall_cases k v c₁ hsql hp hclear with ⟨e, -, h1, h2⟩ | ⟨vs, h1, h2, h3, h4⟩
      · exact Or.inl ⟨e, hrun ▸ h1, by rw [hrun, h2, hprep]⟩
      · exact Or.inr ⟨vs, h1, h2, by rw [hrun, h3, hprep], by rw [hrun, h4, hprep]⟩

lemma prepared_ran : (k.prepared w c).ran = c.ran := by
  unfold prepared
  split_ifs
  · rfl
  · exact Asks.preserves (h := Conn.answer E) (asks_rebuild k.table k.values k.replace)
      (fun c' => c'.ran = c.ran) (fun q s hq hs => (answer_ran s hq).trans hs) rfl

lemma step_compiled {sql : Bytes} (binds : List Value) {u : Unit} (h : E.prepare c.view sql = .ok u) :
    (c.step sql binds false).2.ran = c.ran ++ [(sql, binds)] := by
  unfold Conn.step
  rw [h]
  simp only
  split_ifs
  · rfl
  · cases (E.step c.view sql binds c.progress).finish with
    | done db =>
      simp only
      split_ifs <;> rfl
    | error rc => rfl
    | rollback rc => rfl

lemma step_ran (sql : Bytes) (binds : List Value) :
    (c.step sql binds false).2.ran = c.ran ∨
      (c.step sql binds false).2.ran = c.ran ++ [(sql, binds)] := by
  cases hp : E.prepare c.view sql with
  | error e => exact Or.inl (by rw [step_uncompiled c hp])
  | ok u => exact Or.inr (step_compiled c binds hp)

lemma step_ran_ok {sql : Bytes} {binds : List Value}
    (h : (MiniSQLite.stepRows false (c.step sql binds false).1).isOk = true) :
    (c.step sql binds false).2.ran = c.ran ++ [(sql, binds)] := by
  cases hp : E.prepare c.view sql with
  | error e =>
    rw [step_uncompiled c hp] at h
    cases h
  | ok u => exact step_compiled c binds hp

/-- A call runs at most one statement: the `INSERT` of its own fields, whose parameters are its
own values followed by `NULL`, so none is left over from an earlier call. -/
theorem run_ran (h : CacheOk E w) : (k.run w c).2.2.ran = c.ran ∨
    ∃ vs, boundValues E k.values = .ok vs ∧ vs.length = k.values.length ∧
      (k.run w c).2.2.ran = c.ran ++ [(insertText k.replace k.table k.names,
        insertBinds E (insertText k.replace k.table k.names) vs)] := by
  by_cases hf : w.dFlag = .readOnly
  · rw [run_readOnly k w c hf]
    exact Or.inl rfl
  rcases run_cases k w c h hf with ⟨e, -, hconn⟩ | ⟨vs, hran⟩
  · rw [hconn, prepared_ran]
    exact Or.inl rfl
  · rw [hran.conn]
    rcases step_ran (k.prepared w c) (insertText k.replace k.table k.names)
      (insertBinds E (insertText k.replace k.table k.names) vs) with hs | hs
    · rw [hs, prepared_ran]
      exact Or.inl rfl
    · rw [hs, prepared_ran]
      exact Or.inr ⟨vs, hran.bound, hran.length, rfl⟩

/-- A call that returns has run exactly one statement. -/
theorem run_returned (h : CacheOk E w) (hok : (k.run w c).1.isOk = true) :
    ∃ vs, boundValues E k.values = .ok vs ∧ vs.length = k.values.length ∧
      (k.run w c).2.2.ran = c.ran ++ [(insertText k.replace k.table k.names,
        insertBinds E (insertText k.replace k.table k.names) vs)] := by
  by_cases hf : w.dFlag = .readOnly
  · rw [run_readOnly k w c hf] at hok
    cases hok
  rcases run_cases k w c h hf with ⟨e, herror, -⟩ | ⟨vs, hran⟩
  · rw [herror] at hok
    cases hok
  · have hstep : (MiniSQLite.stepRows false ((k.prepared w c).step (insertText k.replace k.table k.names)
        (insertBinds E (insertText k.replace k.table k.names) vs) false).1).isOk = true := by
      rw [hran.result] at hok
      generalize MiniSQLite.stepRows false _ = r at hok ⊢
      cases r with
      | error e => cases hok
      | ok rows => rfl
    refine ⟨vs, hran.bound, hran.length, ?_⟩
    rw [hran.conn, step_ran_ok _ hstep, prepared_ran]

end Call

namespace Sys
variable {E : Engine}

lemma step_cacheOk (s : Sys E) (ev : Event) (h : SQLiteWriter.CacheOk E s.writer) :
    SQLiteWriter.CacheOk E (s.step ev).writer := by
  unfold step
  by_cases hc : s.crashed = true
  · simpa [hc] using h
  simp only [hc, Bool.false_eq_true, if_false]
  cases ev with
  | call k => exact k.run_cacheOk s.writer s.conn h
  | poll =>
    simp only [commitThread]
    split_ifs
    · simpa [MiniSQLite.invoke_cycle] using h
    · exact h
    · exact h

lemma start_cacheOk (flag : SQLWFlag) (columnMeta : Bytes → Bytes → Bytes) (db : E.Db) :
    SQLiteWriter.CacheOk E (start E flag columnMeta db).writer := by
  rw [start_eq]
  exact ⟨fun t => List.Pairwise.nil, by simp⟩

theorem reachable_cacheOk (flag : SQLWFlag) (columnMeta : Bytes → Bytes → Bytes) (db : E.Db)
    (evs : List Event) : SQLiteWriter.CacheOk E ((start E flag columnMeta db).run evs).writer :=
  run_preserves (fun s => SQLiteWriter.CacheOk E s.writer) step_cacheOk
    (start E flag columnMeta db) evs (start_cacheOk flag columnMeta db)

/-- In every state that calls and commit passes can reach: the next call does the same with the
statement held for its table as after that statement has been discarded, unless it is the statement of
the call and SQLite compiles it no more, when both throw; the call runs no statement but the `INSERT` of
its own fields with its own values, and exactly this one if it returns; and a statement held for a table
is the one built from the recorded signature, is reset, and has all its columns in the column cache. -/
theorem statement_cache_transparent (flag : SQLWFlag) (columnMeta : Bytes → Bytes → Bytes)
    (db : E.Db) (evs : List Event) (k : Call) :
    let s := (start E flag columnMeta db).run evs
    let kept := k.run s.writer s.conn
    let discarded := k.run (s.writer.discard k.table) s.conn
    let insert := fun vs => (insertText k.replace k.table k.names,
      SQLiteWriter.insertBinds E (insertText k.replace k.table k.names) vs)
    ((∃ e, k.Stale s.writer s.conn e ∧ k.Refused s.conn e kept discarded) ∨
      (∀ e, ¬ k.Stale s.writer s.conn e) ∧ k.Alike kept discarded) ∧
    (kept.2.2.ran = s.conn.ran ∨ ∃ vs, SQLiteWriter.boundValues E k.values = .ok vs ∧
      vs.length = k.values.length ∧ kept.2.2.ran = s.conn.ran ++ [insert vs]) ∧
    (kept.1.isOk = true → ∃ vs, SQLiteWriter.boundValues E k.values = .ok vs ∧
      vs.length = k.values.length ∧ kept.2.2.ran = s.conn.ran ++ [insert vs]) ∧
    ∀ table stmt, s.writer.dDb.dStmts table = some stmt →
      SQLiteWriter.Held E s.writer table stmt := by
  have h := reachable_cacheOk (E := E) flag columnMeta db evs
  exact ⟨k.run_discard_cases _ _ h, k.run_ran _ _ h, k.run_returned _ _ h, h.held⟩

/-- A column that rolls back on conflict. -/
def conflictMeta (table name : Bytes) : Bytes :=
  if table = ascii "data" ∧ name = ascii "a" then ascii "NOT NULL ON CONFLICT ROLLBACK" else []

/-- The second call here rolls back the transaction that created the table. The third takes the
statement still held and throws when it steps it; with that statement discarded, it throws when it
prepares another, and none is left. -/
theorem uncompiled_statement_shows :
    let s := (start Reference.engine .noFlag conflictMeta Db.empty).run
      [.call ⟨ascii "data", [(ascii "a", .int32 1)], false⟩,
        .call ⟨ascii "data", [(ascii "a", .null)], false⟩]
    let k : Call := ⟨ascii "data", [(ascii "a", .int32 2)], false⟩
    let kept := k.run s.writer s.conn
    let discarded := k.run (s.writer.discard (ascii "data")) s.conn
    kept.1 = .error (ascii "Sqlite error 1: SQL logic error") ∧
    discarded.1 = .error (ascii
      "Unable to prepare query insert into \"data\" ('a') values (?): no such table: data") ∧
    kept.2.1.dDb.isPrepared (ascii "data") = true ∧
    discarded.2.1.dDb.isPrepared (ascii "data") = false := by
  decide +kernel

end Sys
end SqliteWrite
