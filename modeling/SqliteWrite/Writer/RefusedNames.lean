import SqliteWrite.Writer.Naming
import SqliteWrite.Writer.Queries
import SqliteWrite.Writer.Refinement

/-! Calls with any names. What SQLite makes of the texts that its parser takes is open; a text that it
refuses has no effect. A call whose names hold quotes or NUL throws in time exactly if SQLite refuses
its schema query, or all that the call may send behind it. -/
namespace SqliteWrite
open Method SQLiteWriter

namespace Sql

/-- Outside of quotes and comments the text holds no semicolon. -/
def lone (sql : Bytes) : Bool := !(Tokens.feed closer .start (cstr sql)).1.contains (.sym 59)

/-- The text is one statement, in which a quote stays open. -/
def opened (sql : Bytes) : Bool := lone sql && (Tokens.tokens closer sql).isNone

lemma isSelect_word {w rest : Bytes} {m : Tokens.Mode} (h0 : 0 ∉ w) {b : Bytes}
    (hw : Tokens.feed closer .start w = ([.word b], m)) :
    isSelect (w ++ rest) = (fold b == ascii "select") := by
  unfold isSelect
  rw [cstr_append h0, Tokens.feed_append, hw]
  rfl

lemma isSelect_schemaText (table : Bytes) : isSelect (schemaText table) = true := by
  have hw : Tokens.feed closer .start (ascii "SELECT ") = ([.word (ascii "SELECT")], .start) := rfl
  have htext : ∃ rest, schemaText table = ascii "SELECT " ++ rest := by
    unfold schemaText
    exact ⟨_, List.append_assoc (ascii "SELECT ")
      (ascii "cid,name,type FROM pragma_table_xinfo('" ++ (splitTable table).2 ++ ascii "', '" ++
        (splitTable table).1) _⟩
  obtain ⟨rest, hrest⟩ := htext
  rw [hrest, isSelect_word (by decide) hw]
  rfl

lemma isSelect_createText (table name type columnMeta : Bytes) :
    isSelect (createText table name type columnMeta) = false := by
  have hw : Tokens.feed closer .start (ascii "create ") = ([.word (ascii "create")], .start) := rfl
  unfold createText
  rw [show ascii "create table if not exists " = ascii "create " ++ ascii "table if not exists " from rfl]
  simp only [List.append_assoc]
  rw [isSelect_word (by decide) hw]
  rfl

lemma isSelect_alterText (table name type columnMeta : Bytes) :
    isSelect (alterText table name type columnMeta) = false := by
  have hw : Tokens.feed closer .start (ascii "ALTER ") = ([.word (ascii "ALTER")], .start) := rfl
  unfold alterText
  rw [show ascii "ALTER table " = ascii "ALTER " ++ ascii "table " from rfl]
  simp only [List.append_assoc]
  rw [isSelect_word (by decide) hw]
  rfl

end Sql

/-- What SQLite's parser takes: the texts whose first statement it refuses, among them those that are
one statement with an open quote. -/
structure Grammar where
  refuses : Bytes → Bool
  opened : ∀ sql, Sql.opened sql = true → refuses sql = true

/-- The names up to the first one with a NUL, which is the name of no column. -/
def untilNul : List Bytes → List Bytes
  | [] => []
  | n :: ns => n :: if 0 ∈ n then [] else untilNul ns

lemma mem_untilNul_head (n : Bytes) (ns : List Bytes) : n ∈ untilNul (n :: ns) := by simp [untilNul]

lemma mem_untilNul_tail {n m : Bytes} {ns : List Bytes} (hn : 0 ∉ n) (hm : m ∈ untilNul ns) :
    m ∈ untilNul (n :: ns) := by
  simp [untilNul, hn, hm]

lemma untilNul_subset {n : Bytes} {names : List Bytes} (h : n ∈ untilNul names) : n ∈ names := by
  induction names with
  | nil => cases h
  | cons m names ih =>
    simp only [untilNul, List.mem_cons] at h
    rcases h with rfl | h
    · exact List.mem_cons_self
    · split_ifs at h
      · cases h
      · exact List.mem_cons_of_mem _ (ih h)

lemma untilNul_free {names : List Bytes} (h : ∀ n ∈ untilNul names, 0 ∉ n) : ∀ n ∈ names, 0 ∉ n := by
  induction names with
  | nil => simp
  | cons m names ih =>
    have hm := h m (mem_untilNul_head m names)
    rintro n (_ | ⟨_, hn⟩)
    · exact hm
    · exact ih (fun n hn => h n (mem_untilNul_tail hm hn)) n hn

lemma untilNul_split {n : Bytes} {names : List Bytes} (h : n ∈ untilNul names) :
    ∃ before after, names = before ++ n :: after ∧ n ∉ before ∧ ∀ m ∈ before, 0 ∉ m := by
  induction names with
  | nil => cases h
  | cons m names ih =>
    by_cases hmn : n = m
    · subst hmn
      exact ⟨[], names, rfl, by simp, by simp⟩
    · simp only [untilNul, List.mem_cons, hmn, false_or] at h
      split_ifs at h with h0
      · cases h
      · obtain ⟨before, after, rfl, hnot, hnul⟩ := ih h
        exact ⟨m :: before, after, rfl, by simp [hmn, hnot], by simpa [h0] using hnul⟩

namespace Grammar
variable (G : Grammar)

/-- An engine that goes by the grammar: a text whose first statement is refused neither compiles nor has
an effect, a single `SELECT` changes nothing, and the cells of an answer are C strings. -/
structure Rules (E : Engine) : Prop where
  refused : ∀ db sql, G.refuses sql = true → ∃ e, E.exec db sql = .error e db
  uncompiled : ∀ db sql, G.refuses sql = true → ∃ e, E.prepare db sql = .error e
  selects : ∀ db sql, Sql.isSelect sql = true → Sql.lone sql = true →
    (∃ rows, E.exec db sql = .ok rows db) ∨ ∃ e, E.exec db sql = .error e db
  cells : ∀ db sql rows db', E.exec db sql = .ok rows db' → ∀ row ∈ rows, ∀ b, some b ∈ row → 0 ∉ b

/-- Behind a schema query that changes nothing, SQLite refuses every column definition that a call with
these names may send, and its `INSERT`. -/
structure Undefinable (table : Bytes) (names : List Bytes) : Prop where
  lone : Sql.lone (schemaText table) = true
  definitions : ∀ n ∈ untilNul names, ∀ v, G.refuses (createText table n (columnType v) []) = true ∧
    G.refuses (alterText table n (columnType v) []) = true
  insert : (∀ n ∈ names, 0 ∉ n) → ∀ replace, G.refuses (insertText replace table names) = true

end Grammar

namespace Conn
variable {E : Engine} {c : Conn E}

lemma put_same (h : c.autocommit = true → c.committed = c.view) : c.put c.view = c := by
  have hcommitted : (if c.autocommit then c.view else c.committed) = c.committed := by
    split_ifs with ha
    · exact (h ha).symm
    · rfl
  simp only [put, hcommitted]

lemma exec_error {sql : Bytes} (h : c.autocommit = true → c.committed = c.view)
    (hn : control sql = none) {e : Bytes} (he : E.exec c.view sql = .error e c.view) :
    c.exec sql = (.error e, c) := by
  simp [exec, hn, execText, he, put_same h]

end Conn

namespace Grammar
variable {G : Grammar} {E : Engine} {c : Conn E} {table : Bytes}

lemma Rules.exec_refused (hG : G.Rules E) (hc : c.Current) {sql : Bytes} (hn : Conn.control sql = none)
    (h : G.refuses sql = true) : ∃ e, c.exec sql = (.error e, c) := by
  obtain ⟨e, he⟩ := hG.refused c.view sql h
  exact ⟨e, Conn.exec_error hc.committed hn he⟩

lemma Rules.taken (hG : G.Rules E) {sql : Bytes} (hn : Conn.control sql = none)
    {rows : List (List (Option Bytes))} (h : (c.exec sql).1 = .ok rows) : G.refuses sql = false := by
  by_contra hr
  obtain ⟨e, he⟩ := hG.refused c.view sql (by simpa using hr)
  simp [Conn.exec, hn, Conn.execText, he] at h

lemma Rules.exec_schema (hG : G.Rules E) (hc : c.Current) (hl : Sql.lone (schemaText table) = true) :
    (c.exec (schemaText table)).2 = c := by
  have hn := control_schemaText table
  rcases hG.selects c.view _ (Sql.isSelect_schemaText table) hl with ⟨rows, hrows⟩ | ⟨e, he⟩
  · simp only [Conn.exec, hn, Conn.execText, hrows]
    split_ifs
    · rfl
    · exact Conn.put_same hc.committed
  · rw [Conn.exec_error hc.committed hn he]

lemma schema_rows {db : MiniSQLite} {schema : List (Bytes × Bytes)} {c₁ : Conn E}
    (h : (MiniSQLite.getSchema table).invoke (Conn.answer E) db c = (.ok schema, db, c₁)) :
    ∃ rows dRows, (c.exec (schemaText table)).1 = .ok rows ∧ rows.mapM (·.mapM id) = some dRows ∧
      schema = MiniSQLite.schemaOf dRows ∧ c₁ = (c.exec (schemaText table)).2 := by
  rw [MiniSQLite.invoke_getSchema] at h
  obtain ⟨h1, h2⟩ := Prod.ext_iff.mp h
  have hconn : (c.exec (schemaText table)).2 = c₁ := (Prod.ext_iff.mp h2).2
  simp only at h1
  cases hx : (c.exec (schemaText table)).1 with
  | error e =>
    rw [hx] at h1
    cases h1
  | ok rows =>
    rw [hx] at h1
    simp only [MiniSQLite.execResult] at h1
    cases hm : rows.mapM (·.mapM id) with
    | none =>
      rw [hm] at h1
      cases h1
    | some dRows =>
      rw [hm] at h1
      cases h1
      exact ⟨rows, dRows, rfl, hm, rfl, hconn.symm⟩

lemma mapM_id_mem {row : List (Option Bytes)} {cells : List Bytes} (h : row.mapM id = some cells)
    {b : Bytes} (hb : b ∈ cells) : some b ∈ row := by
  induction row generalizing cells with
  | nil =>
    cases h
    cases hb
  | cons cell row ih =>
    simp only [List.mapM_cons, Option.bind_eq_bind, Option.bind_eq_some_iff, id] at h
    obtain ⟨x, rfl, xs, hxs, hcells⟩ := h
    cases hcells
    rcases List.mem_cons.mp hb with rfl | hb
    · exact List.mem_cons_self
    · exact List.mem_cons_of_mem _ (ih hxs hb)

lemma mapM_mem {rows : List (List (Option Bytes))} {dRows : List (List Bytes)}
    (h : rows.mapM (·.mapM id) = some dRows) {cells : List Bytes} (hc : cells ∈ dRows) :
    ∃ row ∈ rows, row.mapM id = some cells := by
  induction rows generalizing dRows with
  | nil =>
    cases h
    cases hc
  | cons row rows ih =>
    simp only [List.mapM_cons, Option.bind_eq_bind, Option.bind_eq_some_iff] at h
    obtain ⟨x, hx, xs, hxs, hd⟩ := h
    cases hd
    rcases List.mem_cons.mp hc with rfl | hc
    · exact ⟨row, List.mem_cons_self, hx⟩
    · obtain ⟨r, hr, hcells⟩ := ih hxs hc
      exact ⟨r, List.mem_cons_of_mem _ hr, hcells⟩

lemma Rules.schema_names (hG : G.Rules E) {rows : List (List (Option Bytes))} {dRows : List (List Bytes)}
    (h : (c.exec (schemaText table)).1 = .ok rows) (hm : rows.mapM (·.mapM id) = some dRows)
    {p : Bytes × Bytes} (hp : p ∈ MiniSQLite.schemaOf dRows) : 0 ∉ p.1 := by
  obtain ⟨db, hexec⟩ : ∃ db, E.exec c.view (schemaText table) = .ok rows db := by
    simp only [Conn.exec, control_schemaText, Conn.execText] at h
    cases hx : E.exec c.view (schemaText table) with
    | ok rows' db =>
      rw [hx] at h
      simp only at h
      split_ifs at h
      cases h
      exact ⟨db, rfl⟩
    | error e db =>
      rw [hx] at h
      cases h
    | rollback e =>
      rw [hx] at h
      cases h
  simp only [MiniSQLite.schemaOf, mem_sortByFirst, List.mem_map] at hp
  obtain ⟨cells, hcells, rfl⟩ := hp
  obtain ⟨row, hrow, hid⟩ := mapM_mem hm hcells
  rw [List.getD_eq_getElem?_getD]
  cases hget : cells[1]? with
  | none => exact List.not_mem_nil
  | some b => exact hG.cells _ _ _ _ hexec row hrow b (mapM_id_mem hid (List.mem_of_getElem? hget))

/-- What a writer without column metadata keeps of a table after answers of such an engine: no list if
the schema query is refused, no name with a NUL unless SQLite took its definition, and no statement that
it refused. -/
structure Knows (G : Grammar) (table : Bytes) (w : SQLiteWriter) : Prop where
  unloaded : G.refuses (schemaText table) = true → w.dColumns table = []
  listed : ∀ n, w.Lists table n → 0 ∈ n → ∃ v, G.refuses (createText table n (columnType v) []) = false ∨
    G.refuses (alterText table n (columnType v) []) = false
  held : ∀ s, w.dDb.dStmts table = some s → G.refuses s.sql = false
  dMeta : w.dMeta = noMeta

namespace Knows
variable {w : SQLiteWriter}

lemma load (h : G.Knows table w) (hG : G.Rules E) {t : Bytes} {schema : List (Bytes × Bytes)}
    {c₁ : Conn E} (hs : (MiniSQLite.getSchema t).invoke (Conn.answer E) w.dDb c = (.ok schema, w.dDb, c₁)) :
    G.Knows table (w.setColumns t schema) := by
  obtain ⟨rows, dRows, hexec, hm, rfl, -⟩ := schema_rows hs
  by_cases ht : table = t
  · subst ht
    have htaken := hG.taken (control_schemaText table) hexec
    refine ⟨fun hr => absurd (htaken.symm.trans hr) (by decide), fun n hn h0 => ?_, h.held, h.dMeta⟩
    rw [lists_setColumns, if_pos rfl] at hn
    obtain ⟨p, hp, rfl⟩ := hn
    exact absurd h0 (hG.schema_names hexec hm hp)
  · refine ⟨fun hr => ?_, fun n hn => ?_, h.held, h.dMeta⟩
    · simpa [Function.update_of_ne ht] using h.unloaded hr
    · rw [lists_setColumns, if_neg ht] at hn
      exact h.listed n hn

lemma create (h : G.Knows table w) (hG : G.Rules E) {t : Bytes} {p : Bytes × VarT} {db : MiniSQLite}
    {c₁ : Conn E} (hadd : (MiniSQLite.addColumn t p.1 (columnType p.2) []).invoke (Conn.answer E) w.dDb c =
      (.ok (), db, c₁)) : G.Knows table (w.withColumn t p) := by
  have hresult := (Prod.ext_iff.mp hadd).1
  simp only at hresult
  cases hx : (c.exec (schemaText t)).1 with
  | error e =>
    rw [MiniSQLite.invoke_addColumn_error w.dDb c t p.1 _ _ (by rw [MiniSQLite.invoke_exec, hx]; rfl)] at hresult
    cases hresult
  | ok rows =>
    have hschema := hG.taken (control_schemaText t) hx
    cases hd : MiniSQLite.execResult (schemaText t) (c.exec (schemaText t)).1 with
    | error e =>
      rw [MiniSQLite.invoke_addColumn_error w.dDb c t p.1 _ _ (by rw [MiniSQLite.invoke_exec, hd])] at hresult
      cases hresult
    | ok dRows =>
      rw [MiniSQLite.invoke_addColumn_ok w.dDb c t p.1 _ _ (by rw [MiniSQLite.invoke_exec, hd])] at hresult
      have htext : G.refuses (createText t p.1 (columnType p.2) []) = false ∨
          G.refuses (alterText t p.1 (columnType p.2) []) = false := by
        simp only [MiniSQLite.columnText] at hresult
        split_ifs at hresult with hnew
        · cases hy : ((c.exec (schemaText t)).2.exec (createText t p.1 (columnType p.2) [])).1 with
          | error e =>
            rw [hy] at hresult
            cases hresult
          | ok r => exact Or.inl (hG.taken (control_createText t _ _ _) hy)
        · cases hy : ((c.exec (schemaText t)).2.exec (alterText t p.1 (columnType p.2) [])).1 with
          | error e =>
            rw [hy] at hresult
            cases hresult
          | ok r => exact Or.inr (hG.taken (control_alterText t _ _ _) hy)
      refine ⟨fun hr => ?_, fun n hn h0 => ?_, h.held, h.dMeta⟩
      · by_cases ht : table = t
        · subst ht
          exact absurd (hschema.symm.trans hr) (by decide)
        · simpa [withColumn, Function.update_of_ne ht] using h.unloaded hr
      · rcases lists_withColumn.mp hn with hn | ⟨rfl, rfl⟩
        · exact h.listed n hn h0
        · exact ⟨p.2, htext⟩

lemma haveColumn (hG : G.Rules E) (t name : Bytes) : Triple (Conn.answer E) (fun v _ => G.Knows table v)
    (haveColumn t name) (fun _ v _ => G.Knows table v) fun _ v _ => G.Knows table v := by
  intro v c hv
  by_cases hnil : v.dColumns t = []
  · cases hs : (MiniSQLite.getSchema t).invoke (Conn.answer E) v.dDb c with
    | mk x r =>
      obtain ⟨db, c₁⟩ := r
      obtain rfl : db = v.dDb := by
        rw [MiniSQLite.invoke_getSchema] at hs
        exact (Prod.ext_iff.mp (Prod.ext_iff.mp hs).2).1.symm
      cases x with
      | error e =>
        rw [invoke_haveColumn_load_error v c t name hnil hs]
        exact hv
      | ok schema =>
        rw [invoke_haveColumn_load_ok v c t name hnil hs]
        exact hv.load hG hs
  · rw [invoke_haveColumn_loaded v c t name hnil]
    exact hv

lemma createColumn (hG : G.Rules E) (t : Bytes) (p : Bytes × VarT) :
    Triple (Conn.answer E) (fun v _ => G.Knows table v) (createColumn t p)
      (fun _ v _ => G.Knows table v) fun _ v _ => G.Knows table v := by
  intro v c hv
  rw [invoke_createColumn, show v.dMeta t p.1 = [] by rw [hv.dMeta]]
  cases hadd : (MiniSQLite.addColumn t p.1 (columnType p.2) []).invoke (Conn.answer E) v.dDb c with
  | mk x r =>
    obtain ⟨db, c₁⟩ := r
    cases x with
    | error e => exact hv
    | ok u => exact hv.create hG hadd

lemma columnLoop (hG : G.Rules E) (t : Bytes) (first : Bool) (q qmarks : Bytes) (values : Fields) :
    Triple (Conn.answer E) (fun v _ => G.Knows table v) (columnLoop t first q qmarks values)
      (fun _ v _ => G.Knows table v) fun _ v _ => G.Knows table v := by
  induction values generalizing first q qmarks with
  | nil => exact Triple.pure fun _ _ h => h
  | cons p values ih =>
    apply Triple.bind (haveColumn hG t p.1)
    intro known
    cases known with
    | true => exact ih _ _ _
    | false =>
      apply Triple.bind (createColumn hG t p)
      exact fun _ => ih _ _ _

lemma prepare (hG : G.Rules E) (t str : Bytes) : Triple (Conn.answer E) (fun v _ => G.Knows table v)
    (onDb (MiniSQLite.prepare t str)) (fun _ v _ => G.Knows table v) fun _ v _ => G.Knows table v := by
  intro v c hv
  have hknows : G.Knows table (v.setDb (v.dDb.setStmt t ((c.prepare str).toOption.join.map fun params =>
      ⟨str, List.replicate params .null, false⟩))) := by
    refine ⟨hv.unloaded, hv.listed, fun s hs => ?_, hv.dMeta⟩
    by_cases ht : table = t
    · subst ht
      simp only [setDb_dDb, MiniSQLite.setStmt_dStmts, Function.update_self, Option.map_eq_some_iff] at hs
      obtain ⟨params, hparams, rfl⟩ := hs
      by_contra hr
      obtain ⟨e, he⟩ := hG.uncompiled c.view str (by simpa using hr)
      simp only [Conn.prepare, he, Except.map] at hparams
      split_ifs at hparams <;> simp [Except.toOption] at hparams
    · exact hv.held s (by simpa [Function.update_of_ne ht] using hs)
  rw [invoke_onDb, MiniSQLite.invoke_prepare]
  cases hx : c.prepare str with
  | error e =>
    rw [hx] at hknows
    exact hknows
  | ok params =>
    rw [hx] at hknows
    exact hknows

lemma rebuild (hG : G.Rules E) (t : Bytes) (values : Fields) (replace : Bool) :
    Triple (Conn.answer E) (fun v _ => G.Knows table v) (rebuild t values replace)
      (fun _ v _ => G.Knows table v) fun _ v _ => G.Knows table v := by
  apply Triple.bind (columnLoop hG t true (insertHead replace t) [] values)
  intro texts
  apply Triple.bind (prepare hG t _)
  intro _ v c hv
  exact ⟨hv.unloaded, hv.listed, hv.held, hv.dMeta⟩

lemma finish (h : G.Knows table w) (t : Bytes) (values : Fields) (c : Conn E) {s : Stmt}
    (hs : w.dDb.dStmts t = some s) : G.Knows table (finishCall E t values w c s).2.1 := by
  have hset : ∀ s', s'.sql = s.sql → G.Knows table (w.setDb (w.dDb.setStmt t (some s'))) := by
    intro s' hsql
    refine ⟨h.unloaded, h.listed, fun u hu => ?_, h.dMeta⟩
    by_cases ht : table = t
    · subst ht
      obtain rfl : s' = u := by simpa using hu
      rw [hsql]
      exact h.held s hs
    · exact h.held u (by simpa [Function.update_of_ne ht] using hu)
  unfold finishCall
  generalize bindAll E s.binds 1 values = r
  obtain ⟨x, binds⟩ := r
  cases x with
  | error e => exact hset _ rfl
  | ok u => exact hset _ rfl

lemma run (h : G.Knows table w) (hG : G.Rules E) (hw : CacheOk E w) (k : Call) (c : Conn E) :
    G.Knows table (k.run w c).2.1 := by
  by_cases hf : w.dFlag = .readOnly
  · rw [Call.run_readOnly k w c hf]
    exact h
  cases hc : w.cached k.table k.values k.replace with
  | true =>
    obtain ⟨s, hs, -, hb, -⟩ := held_of_cached hw hc
    rw [Call.run_cached k w c hf hc hs hb]
    exact h.finish k.table k.values c hs
  | false =>
    have hbuild := rebuild hG k.table k.values k.replace w c h
    rcases Call.run_rebuild_cases k w c hw hf hc with ⟨e, v, c₁, hr, -, -, hrun⟩ |
      ⟨v, c₁, s, hr, -, -, -, hs, hrun⟩
    · rw [hr] at hbuild
      rw [hrun]
      exact hbuild
    · rw [hr] at hbuild
      rw [hrun]
      exact hbuild.finish k.table k.values c₁ hs

end Knows
end Grammar

/-- A writer without column metadata in use on a file that others use too: between its critical
sections, where it has no transaction open, they may leave any database. -/
inductive Sys.Reached (E : Engine) (flag : SQLWFlag) : Sys E → Prop
  | start (db : E.Db) : Reached E flag (Sys.start E flag noMeta db)
  | step {s : Sys E} (h : Reached E flag s) (ev : Event) : Reached E flag (s.step ev)
  | others {s : Sys E} (h : Reached E flag s) (ha : s.conn.autocommit = true) (db : E.Db) :
    Reached E flag { s with conn := s.conn.put db }

namespace Sys
variable {G : Grammar} {E : Engine} {flag : SQLWFlag} {s : Sys E}

lemma Reached.cacheOk (h : Reached E flag s) : CacheOk E s.writer := by
  induction h with
  | start db => exact start_cacheOk flag noMeta db
  | step h ev ih => exact step_cacheOk _ ev ih
  | others h ha db ih => exact ih

lemma Reached.current (h : Reached E flag s) : s.conn.Current := by
  induction h with
  | start db =>
    rw [start_eq]
    exact ⟨rfl, fun _ => rfl⟩
  | step h ev ih => exact step_current _ ev ih
  | others h ha db ih => exact ⟨ih.progress, fun _ => by simp [Conn.put, ha]⟩

lemma Reached.knows (h : Reached E flag s) (hG : G.Rules E) (table : Bytes) : G.Knows table s.writer := by
  induction h with
  | start db =>
    rw [start_eq]
    refine ⟨fun _ => rfl, ?_, ?_, rfl⟩
    · rintro n ⟨p, hp, -⟩
      cases hp
    · intro s hs
      cases hs
  | @step s h ev ih =>
    unfold Sys.step
    by_cases hc : s.crashed = true
    · rwa [if_pos hc]
    rw [if_neg hc]
    cases ev with
    | call k => exact ih.run hG h.cacheOk k s.conn
    | poll =>
      simp only [commitThread_eq]
      split_ifs <;> exact ih
  | others h ha db ih => exact ih

end Sys

namespace Grammar
variable {G : Grammar} {E : Engine} {table : Bytes} {names : List Bytes}

/-- Every call for the table with these fields throws, and it leaves the connection as it was. -/
def Throws (G : Grammar) (table : Bytes) (names : List Bytes) : Prop :=
  ∀ E, G.Rules E → ∀ flag s, Sys.Reached E flag s → ∀ k : Call, k.table = table → k.names = names →
    (k.run s.writer s.conn).1.isOk = false ∧ (k.run s.writer s.conn).2.2 = s.conn

lemma not_cached {w : SQLiteWriter} (hw : CacheOk E w) {values : Fields} {replace : Bool}
    {p : Bytes × VarT} (hp : p ∈ values) (hl : ¬ w.Lists table p.1) : w.cached table values replace = false := by
  by_contra hc
  obtain ⟨-, -, -, -, -, -, hlist, -⟩ := held_of_cached hw (by simpa using hc)
  exact hl (hlist p hp)

lemma rebuild_refused (hG : G.Rules E) {c : Conn E} (hc : c.Current)
    (h : G.refuses (schemaText table) = true) {w : SQLiteWriter} (hnil : w.dColumns table = [])
    {values : Fields} (hne : values ≠ []) (replace : Bool) :
    ∃ e, (rebuild table values replace).invoke (Conn.answer E) w c = (.error e, w, c) := by
  obtain ⟨e, he⟩ := hG.exec_refused hc (control_schemaText table) h
  have hschema : ∃ e, (MiniSQLite.getSchema table).invoke (Conn.answer E) w.dDb c = (.error e, w.dDb, c) := by
    rw [MiniSQLite.invoke_getSchema, he]
    exact ⟨_, rfl⟩
  obtain ⟨e', hschema⟩ := hschema
  cases values with
  | nil => exact absurd rfl hne
  | cons p values =>
    refine ⟨e', ?_⟩
    unfold rebuild columnLoop
    rw [invoke_bind, invoke_bind, invoke_haveColumn_load_error w c table p.1 hnil hschema]

lemma throws_of_refused (hne : names ≠ []) (h : G.refuses (schemaText table) = true) :
    G.Throws table names := by
  rintro E hG flag s hs k rfl rfl
  by_cases hf : s.writer.dFlag = .readOnly
  · rw [Call.run_readOnly k _ _ hf]
    exact ⟨rfl, rfl⟩
  have hnil := (hs.knows hG k.table).unloaded h
  have hvalues : k.values ≠ [] := fun hv => hne (by simp [Call.names, hv])
  obtain ⟨p, hp⟩ := List.exists_mem_of_ne_nil _ hvalues
  have hcached : s.writer.cached k.table k.values k.replace = false := by
    apply not_cached hs.cacheOk hp
    rintro ⟨q, hq, -⟩
    rw [hnil] at hq
    cases hq
  obtain ⟨e, he⟩ := rebuild_refused hG hs.current h hnil hvalues k.replace
  rw [Call.run_rebuild k _ _ hf hcached, he]
  exact ⟨rfl, rfl⟩

section Loop
variable {c₀ : Conn E}

lemma haveColumn_unchanged (hG : G.Rules E) (hc : c₀.Current) (hl : Sql.lone (schemaText table) = true)
    (name : Bytes) : Triple (Conn.answer E) (fun v c => c = c₀ ∧ G.Knows table v ∧ v.Sorted)
      (haveColumn table name)
      (fun known v c => (c = c₀ ∧ G.Knows table v ∧ v.Sorted) ∧ (known = true ↔ v.Lists table name))
      (fun _ _ c => c = c₀) := by
  rintro v c ⟨rfl, hv, hsorted⟩
  by_cases hnil : v.dColumns table = []
  · cases hs : (MiniSQLite.getSchema table).invoke (Conn.answer E) v.dDb c with
    | mk x r =>
      obtain ⟨db, c₁⟩ := r
      have hsame := hs
      rw [MiniSQLite.invoke_getSchema, hG.exec_schema hc hl] at hsame
      obtain ⟨rfl, rfl⟩ := Prod.mk.inj (Prod.ext_iff.mp hsame).2
      cases x with
      | error e =>
        rw [invoke_haveColumn_load_error v c table name hnil hs]
      | ok schema =>
        have hgrows := grows_setColumns v table schema (by simp [hnil]) (getSchema_sorted hs)
        rw [invoke_haveColumn_load_ok v c table name hnil hs]
        refine ⟨⟨rfl, hv.load hG hs, hgrows.sorted hsorted⟩, ?_⟩
        simpa using binarySearch_lists (hgrows.sorted hsorted) table name
  · rw [invoke_haveColumn_loaded v c table name hnil]
    exact ⟨⟨rfl, hv, hsorted⟩, binarySearch_lists hsorted table name⟩

lemma createColumn_refused (hG : G.Rules E) (hc : c₀.Current) (hl : Sql.lone (schemaText table) = true)
    {p : Bytes × VarT} (hcreate : G.refuses (createText table p.1 (columnType p.2) []) = true)
    (halter : G.refuses (alterText table p.1 (columnType p.2) []) = true) :
    Triple (Conn.answer E) (fun v c => c = c₀ ∧ v.dMeta = noMeta) (createColumn table p)
      (fun _ _ _ => False) (fun _ _ c => c = c₀) := by
  rintro v c ⟨rfl, hmeta⟩
  have hsame := hG.exec_schema hc hl
  rw [invoke_createColumn, show v.dMeta table p.1 = [] by rw [hmeta]]
  cases hd : MiniSQLite.execResult (schemaText table) (c.exec (schemaText table)).1 with
  | error e =>
    have hquery : (MiniSQLite.exec (schemaText table)).invoke (Conn.answer E) v.dDb c = (.error e, v.dDb, c) := by
      rw [MiniSQLite.invoke_exec, hd, hsame]
    rw [MiniSQLite.invoke_addColumn_error v.dDb c table p.1 _ _ hquery]
  | ok rows =>
    have hquery : (MiniSQLite.exec (schemaText table)).invoke (Conn.answer E) v.dDb c = (.ok rows, v.dDb, c) := by
      rw [MiniSQLite.invoke_exec, hd, hsame]
    rw [MiniSQLite.invoke_addColumn_ok v.dDb c table p.1 _ _ hquery]
    have htext : ∃ e, c.exec (MiniSQLite.columnText (!(MiniSQLite.schemaOf rows).isEmpty) table p.1
        (columnType p.2) []) = (.error e, c) := by
      unfold MiniSQLite.columnText
      split_ifs
      · exact hG.exec_refused hc (control_createText table _ _ _) hcreate
      · exact hG.exec_refused hc (control_alterText table _ _ _) halter
    obtain ⟨e, he⟩ := htext
    rw [he]
    rfl

/-- Where every definition that it may send is refused, the loop over the fields changes nothing, and it
returns only if each field is listed and none has a name with a NUL. -/
lemma columnLoop_refused (hG : G.Rules E) (hc : c₀.Current) (hl : Sql.lone (schemaText table) = true)
    (first : Bool) (q qmarks : Bytes) (values : Fields)
    (hd : ∀ n ∈ untilNul (values.map (·.1)), ∀ v, G.refuses (createText table n (columnType v) []) = true ∧
      G.refuses (alterText table n (columnType v) []) = true) :
    Triple (Conn.answer E) (fun v c => c = c₀ ∧ G.Knows table v ∧ v.Sorted)
      (columnLoop table first q qmarks values)
      (fun _ _ c => c = c₀ ∧ ∀ n ∈ values.map (·.1), 0 ∉ n) (fun _ _ c => c = c₀) := by
  induction values generalizing first q qmarks with
  | nil => exact Triple.pure fun _ _ h => ⟨h.1, by simp⟩
  | cons p values ih =>
    have hp := hd p.1 (mem_untilNul_head _ _)
    apply Triple.bind (haveColumn_unchanged hG hc hl p.1)
    intro known
    cases known with
    | false =>
      apply Triple.bind ((createColumn_refused hG hc hl (hp p.2).1 (hp p.2).2).weaken
        (fun v c h => ⟨h.1.1, h.1.2.1.dMeta⟩) (fun _ _ _ h => h) (fun _ _ _ h => h))
      exact fun _ _ _ h => h.elim
    | true =>
      rintro v c ⟨hpre, hlists⟩
      have h0 : 0 ∉ p.1 := by
        intro h0
        obtain ⟨u, hu⟩ := hpre.2.1.listed p.1 (hlists.mp rfl) h0
        simp [(hp u).1, (hp u).2] at hu
      refine (ih false _ _ fun n hn => hd n (mem_untilNul_tail h0 hn)).weaken (fun _ _ h => h) ?_
        (fun _ _ _ h => h) v c hpre
      rintro r u d ⟨hsame, hnul⟩
      exact ⟨hsame, by simpa [h0] using hnul⟩

end Loop

lemma throws_of_undefinable (h : G.Undefinable table names) : G.Throws table names := by
  rintro E hG flag s hs k rfl rfl
  by_cases hf : s.writer.dFlag = .readOnly
  · rw [Call.run_readOnly k _ _ hf]
    exact ⟨rfl, rfl⟩
  have hbuild : Triple (Conn.answer E) (fun v c => c = s.conn ∧ G.Knows k.table v ∧ v.Sorted)
      (rebuild k.table k.values k.replace) (fun _ _ _ => False) (fun _ _ c => c = s.conn) := by
    intro v c hpre
    have hloop := columnLoop_refused hG hs.current h.lone true (insertHead k.replace k.table) [] k.values
      h.definitions v c hpre
    unfold rebuild
    rw [invoke_bind]
    generalize hr : (columnLoop k.table true (insertHead k.replace k.table) [] k.values).invoke
      (Conn.answer E) v c = r at hloop ⊢
    obtain ⟨x, u, c₁⟩ := r
    cases x with
    | error e => exact hloop
    | ok texts =>
      obtain ⟨rfl, hnul⟩ := hloop
      have hinsert : G.refuses (insertText k.replace k.table (k.values.map (·.1))) = true :=
        h.insert hnul k.replace
      obtain ⟨e, he⟩ := hG.uncompiled s.conn.view _ hinsert
      simp only [text_returned hr]
      rw [invoke_bind, invoke_onDb, MiniSQLite.invoke_prepare_error _ _ _ (blank_insertText _ _ _) he]
  have hknows := hs.knows hG k.table
  have hcached : s.writer.cached k.table k.values k.replace = false := by
    by_contra hc
    obtain ⟨u, hu, hsql, -, -, -, hlist, -⟩ := held_of_cached hs.cacheOk (by simpa using hc)
    have hnul : ∀ n ∈ k.names, 0 ∉ n := by
      apply untilNul_free
      intro n hn h0
      obtain ⟨p, hp, rfl⟩ := List.mem_map.mp (untilNul_subset hn)
      obtain ⟨v, hv⟩ := hknows.listed p.1 (hlist p hp) h0
      simp [h.definitions p.1 hn v] at hv
    have hr : G.refuses (insertText k.replace k.table (k.values.map (·.1))) = true :=
      h.insert hnul k.replace
    rw [← hsql, hknows.held u hu] at hr
    cases hr
  have hpost := hbuild s.writer s.conn ⟨rfl, hknows, hs.cacheOk.sorted⟩
  rw [Call.run_rebuild k _ _ hf hcached]
  generalize (rebuild k.table k.values k.replace).invoke (Conn.answer E) s.writer s.conn = r at hpost ⊢
  obtain ⟨x, v, c₁⟩ := r
  cases x with
  | error e => exact ⟨rfl, hpost⟩
  | ok u => exact hpost.elim

/-! The other way round: an engine that takes what SQLite's parser does not refuse. -/

/-- An engine that takes all that the grammar does not refuse, and counts it. It shows every table with
the columns `cols` until it has taken something, and every text has `params` parameters. -/
def counting (G : Grammar) (cols : List Bytes) (params : ℕ) : Engine where
  Db := ℕ
  exec db sql :=
    if G.refuses sql then .error [] db
    else if Sql.isSelect sql && Sql.lone sql then
      .ok ((if db = 0 then cols else []).map fun n => [some [], some n, some []]) db
    else .ok [] (db + 1)
  prepare _ sql := if G.refuses sql then .error [] else .ok ()
  params _ := params
  bind _ := .ok .null
  step db _ _ _ := ⟨[], .done (db + 1)⟩
  deferred _ := false

lemma counting_rules (G : Grammar) {cols : List Bytes} (params : ℕ) (hcols : ∀ n ∈ cols, 0 ∉ n) :
    G.Rules (G.counting cols params) where
  refused db sql h := ⟨[], by simp [counting, h]⟩
  uncompiled db sql h := ⟨[], by simp [counting, h]⟩
  selects db sql hq hl := by
    by_cases h : G.refuses sql = true
    · exact Or.inr ⟨[], by simp [counting, h]⟩
    · exact Or.inl ⟨_, by simp [counting, h, hq, hl]; rfl⟩
  cells db sql rows db' h row hrow b hb := by
    simp only [counting] at h
    split_ifs at h
    · cases h
      obtain ⟨n, hn, rfl⟩ := List.mem_map.mp hrow
      simp only [List.mem_cons, Option.some.injEq, List.not_mem_nil, or_false] at hb
      rcases hb with rfl | rfl | rfl
      · exact List.not_mem_nil
      · exact hcols _ hn
      · exact List.not_mem_nil
    · cases h
      cases hrow
    · cases h
      cases hrow

section Counting
variable {cols L : List Bytes} {params : ℕ} {c₀ : Conn (G.counting cols params)}

/-- How much has been taken. -/
def taken (c : Conn (G.counting cols params)) : ℕ := c.view

/-- The columns that the engine shows. -/
def shown (c : Conn (G.counting cols params)) : List Bytes := if taken c = 0 then cols else []

lemma exec_taken (c₀ : Conn (G.counting cols params)) {sql : Bytes} (hn : Conn.control sql = none)
    (hr : G.refuses sql = false) (hq : (Sql.isSelect sql && Sql.lone sql) = false) :
    (c₀.exec sql).1 = .ok [] ∧ taken (c₀.exec sql).2 = taken c₀ + 1 := by
  have hexec : (G.counting cols params).exec c₀.view sql = .ok [] (taken c₀ + 1) := by
    simp only [counting, hr, hq, Bool.false_eq_true, if_false]
    rfl
  have hd : (G.counting cols params).deferred (taken c₀ + 1) = false := rfl
  simp only [Conn.exec, hn, Conn.execText, hexec, hd, Bool.and_false, Bool.false_eq_true, if_false]
  exact ⟨trivial, rfl⟩

lemma taken_answer {t : Bytes} {q : Request} (hq : CallRequest t q) :
    taken c₀ ≤ taken (Conn.answer (G.counting cols params) q c₀).2 := by
  cases q with
  | exec sql =>
    change taken c₀ ≤ taken (c₀.exec sql).2
    have hd : ∀ db, (G.counting cols params).deferred db = false := fun _ => rfl
    rw [exec_callRequest c₀ t hq]
    by_cases hr : G.refuses sql = true
    · have hexec : (G.counting cols params).exec c₀.view sql = .error [] c₀.view := by simp [counting, hr]
      simp only [Conn.execText, hexec]
      exact le_rfl
    by_cases hs : (Sql.isSelect sql && Sql.lone sql) = true
    · have hexec : ∃ rows, (G.counting cols params).exec c₀.view sql = .ok rows c₀.view :=
        ⟨_, by simp only [counting, hr, hs, if_true, Bool.false_eq_true, if_false]; rfl⟩
      obtain ⟨rows, hexec⟩ := hexec
      simp only [Conn.execText, hexec, hd, Bool.and_false, Bool.false_eq_true, if_false]
      exact le_rfl
    · have hn : Conn.control sql = none := by
        rcases hq with rfl | ⟨n, t, m, rfl⟩ | ⟨n, t, m, rfl⟩
        · exact control_schemaText _
        · exact control_createText _ n t m
        · exact control_alterText _ n t m
      have htaken := (exec_taken c₀ hn (by simpa using hr) (by simpa using hs)).2
      rw [← exec_callRequest c₀ t hq, htaken]
      exact Nat.le_succ _
  | step sql binds rows =>
    change taken c₀ ≤ taken (c₀.step sql binds rows).2
    have hd : ∀ db, (G.counting cols params).deferred db = false := fun _ => rfl
    have hstep : (G.counting cols params).step c₀.view sql binds c₀.progress = ⟨[], .done (taken c₀ + 1)⟩ := rfl
    unfold Conn.step
    cases (G.counting cols params).prepare c₀.view sql with
    | error e => exact le_rfl
    | ok u =>
      simp only [hstep, List.isEmpty_nil, Bool.not_true, Bool.and_false, Bool.false_eq_true, if_false, hd]
      exact Nat.le_succ _
  | clock => exact hq.elim
  | progressHandler ttd => exact hq.elim
  | _ => exact le_rfl

lemma taken_stays {α : Type} {t : Bytes} {m : M α} (hm : m.Asks (CallRequest t)) (d : ℕ) :
    Triple (Conn.answer (G.counting cols params)) (fun _ c => d < taken c) m (fun _ _ c => d < taken c)
      fun _ _ c => d < taken c := by
  intro w c hd
  have hfinal := hm.preserves (h := Conn.answer (G.counting cols params)) (fun c => d < taken c)
    (fun q c hq hc => lt_of_lt_of_le hc (taken_answer hq)) (w := w) hd
  generalize m.invoke (Conn.answer (G.counting cols params)) w c = r at hfinal ⊢
  obtain ⟨x, v, c₁⟩ := r
  cases x <;> exact hfinal

lemma mapM_shown (names : List Bytes) : (names.map fun n => [some [], some n, some []]).mapM (·.mapM id) =
    some (names.map fun n => [[], n, []]) := by
  induction names with
  | nil => rfl
  | cons n names ih =>
    simp only [List.map_cons, List.mapM_cons, ih]
    rfl

lemma exec_shown (hc : c₀.Current) (hr : G.refuses (schemaText table) = false)
    (hl : Sql.lone (schemaText table) = true) : c₀.exec (schemaText table) =
      (.ok ((shown c₀).map fun n => [some [], some n, some []]), c₀) := by
  have hexec : (G.counting cols params).exec c₀.view (schemaText table) =
      .ok ((shown c₀).map fun n => [some [], some n, some []]) c₀.view := by
    simp only [counting, hr, hl, Sql.isSelect_schemaText, Bool.and_self, Bool.false_eq_true, if_false, if_true]
    rfl
  have hd : (G.counting cols params).deferred c₀.view = false := rfl
  simp only [Conn.exec, control_schemaText, Conn.execText, hexec, hd, Bool.and_false, Bool.false_eq_true,
    if_false, Conn.put_same hc.committed]

lemma schema_shown (hc : c₀.Current) (hr : G.refuses (schemaText table) = false)
    (hl : Sql.lone (schemaText table) = true) : MiniSQLite.execResult (schemaText table)
      (c₀.exec (schemaText table)).1 = .ok ((shown c₀).map fun n => [[], n, []]) := by
  rw [exec_shown hc hr hl]
  simp only [MiniSQLite.execResult, mapM_shown]

lemma mem_schemaOf {names : List Bytes} {n : Bytes} :
    (∃ p ∈ MiniSQLite.schemaOf (names.map fun n => [[], n, []]), p.1 = n) ↔ n ∈ names := by
  simp [MiniSQLite.schemaOf]

/-- The list that the writer keeps of the table, or that it will load, is `L`. -/
structure Showing (table : Bytes) (L : List Bytes) (v : SQLiteWriter) (c : Conn (G.counting cols params)) :
    Prop where
  sorted : v.Sorted
  dMeta : v.dMeta = noMeta
  listed : v.dColumns table ≠ [] → ∀ n, v.Lists table n ↔ n ∈ L
  unlisted : v.dColumns table = [] → ∀ n, n ∈ shown c ↔ n ∈ L

lemma haveColumn_shown (hc : c₀.Current) (hr : G.refuses (schemaText table) = false)
    (hl : Sql.lone (schemaText table) = true) (name : Bytes) :
    Triple (Conn.answer (G.counting cols params)) (fun v c => c = c₀ ∧ Showing table L v c₀)
      (haveColumn table name)
      (fun known v c => (c = c₀ ∧ Showing table L v c₀ ∧ ∀ n, v.Lists table n ↔ n ∈ L) ∧ (known = true ↔ name ∈ L))
      (fun _ _ _ => False) := by
  rintro v c ⟨rfl, hv⟩
  by_cases hnil : v.dColumns table = []
  · have hs : (MiniSQLite.getSchema table).invoke (Conn.answer (G.counting cols params)) v.dDb c =
        (.ok (MiniSQLite.schemaOf ((shown c).map fun n => [[], n, []])), v.dDb, c) := by
      rw [MiniSQLite.invoke_getSchema, schema_shown hc hr hl, exec_shown hc hr hl]
      rfl
    have hsorted := getSchema_sorted hs
    have hlists : ∀ n, (v.setColumns table (MiniSQLite.schemaOf ((shown c).map fun n => [[], n, []]))).Lists
        table n ↔ n ∈ L := by
      intro n
      rw [lists_setColumns, if_pos rfl, mem_schemaOf]
      exact hv.unlisted hnil n
    have hgrows := (grows_setColumns v table _ (by simp [hnil]) hsorted).sorted hv.sorted
    rw [invoke_haveColumn_load_ok v c table name hnil hs]
    refine ⟨⟨rfl, ⟨hgrows, hv.dMeta, fun _ => hlists, fun _ => hv.unlisted hnil⟩, hlists⟩, ?_⟩
    rw [← hlists name]
    simpa using binarySearch_lists hgrows table name
  · rw [invoke_haveColumn_loaded v c table name hnil]
    exact ⟨⟨rfl, hv, hv.listed hnil⟩, (binarySearch_lists hv.sorted table name).trans (hv.listed hnil name)⟩

/-- The text that creates a column of a table that the engine shows. -/
def definitionText (c : Conn (G.counting cols params)) (table : Bytes) (p : Bytes × VarT) : Bytes :=
  if (shown c).isEmpty then createText table p.1 (columnType p.2) []
  else alterText table p.1 (columnType p.2) []

lemma createColumn_taken (hc : c₀.Current) (hr : G.refuses (schemaText table) = false)
    (hl : Sql.lone (schemaText table) = true) {p : Bytes × VarT}
    (hp : G.refuses (definitionText c₀ table p) = false) :
    Triple (Conn.answer (G.counting cols params)) (fun v c => c = c₀ ∧ v.dMeta = noMeta)
      (createColumn table p) (fun _ _ c => taken c₀ < taken c) (fun _ _ _ => False) := by
  rintro v c ⟨rfl, hmeta⟩
  have hempty : (MiniSQLite.schemaOf ((shown c).map fun n => [[], n, []])).isEmpty = (shown c).isEmpty := by
    rw [Bool.eq_iff_iff, List.isEmpty_iff, List.isEmpty_iff, List.eq_nil_iff_forall_not_mem,
      List.eq_nil_iff_forall_not_mem]
    constructor
    · intro h n hn
      obtain ⟨q, hq, -⟩ := mem_schemaOf.mpr hn
      exact h q hq
    · intro h q hq
      exact h q.1 (mem_schemaOf.mp ⟨q, hq, rfl⟩)
  have htext : MiniSQLite.columnText (!(MiniSQLite.schemaOf ((shown c).map fun n => [[], n, []])).isEmpty) table
      p.1 (columnType p.2) [] = definitionText c table p := by
    rw [hempty]
    unfold MiniSQLite.columnText definitionText
    cases (shown c).isEmpty <;> rfl
  have hquery : Conn.control (definitionText c table p) = none ∧
      (Sql.isSelect (definitionText c table p) && Sql.lone (definitionText c table p)) = false := by
    unfold definitionText
    split_ifs
    · exact ⟨control_createText table _ _ _, by simp [Sql.isSelect_createText]⟩
    · exact ⟨control_alterText table _ _ _, by simp [Sql.isSelect_alterText]⟩
  obtain ⟨hok, hmore⟩ := exec_taken c hquery.1 hp hquery.2
  have hschema : (MiniSQLite.exec (schemaText table)).invoke (Conn.answer (G.counting cols params)) v.dDb c =
      (.ok ((shown c).map fun n => [[], n, []]), v.dDb, c) := by
    rw [MiniSQLite.invoke_exec, schema_shown hc hr hl, exec_shown hc hr hl]
  rw [invoke_createColumn, show v.dMeta table p.1 = [] by rw [hmeta],
    MiniSQLite.invoke_addColumn_ok v.dDb c table p.1 _ _ hschema, htext, hok]
  have hlt : taken c < taken (c.exec (definitionText c table p)).2 := by omega
  exact hlt

lemma columnLoop_shown (hc : c₀.Current) (hr : G.refuses (schemaText table) = false)
    (hl : Sql.lone (schemaText table) = true) (first : Bool) (q qmarks : Bytes) (values : Fields)
    (hvalues : ∀ n ∈ values.map (·.1), n ∈ L) :
    Triple (Conn.answer (G.counting cols params)) (fun v c => c = c₀ ∧ Showing table L v c₀)
      (columnLoop table first q qmarks values)
      (fun _ v c => c = c₀ ∧ (values ≠ [] → ∀ n, v.Lists table n ↔ n ∈ L)) (fun _ _ _ => False) := by
  induction values generalizing first q qmarks with
  | nil => exact Triple.pure fun _ _ h => ⟨h.1, fun hne => absurd rfl hne⟩
  | cons p values ih =>
    obtain ⟨hp, hrest⟩ := List.forall_mem_cons.mp hvalues
    apply Triple.bind (haveColumn_shown hc hr hl p.1)
    intro known
    cases known with
    | false => exact fun v c h => absurd (h.2.mpr hp) (by decide)
    | true =>
      rintro v c ⟨⟨hsame, hv, hlists⟩, -⟩
      cases values with
      | nil => exact ⟨hsame, fun _ => hlists⟩
      | cons p' values =>
        exact (ih false _ _ hrest).weaken (fun _ _ h => h)
          (fun _ _ _ h => ⟨h.1, fun _ => h.2 (List.cons_ne_nil _ _)⟩) (fun _ _ _ h => h) v c ⟨hsame, hv⟩

lemma columnLoop_taken (hc : c₀.Current) (hr : G.refuses (schemaText table) = false)
    (hl : Sql.lone (schemaText table) = true) (first : Bool) (q qmarks : Bytes) (before : Fields)
    (p : Bytes × VarT) (after : Fields) (hbefore : ∀ n ∈ before.map (·.1), n ∈ L) (hnot : p.1 ∉ L)
    (hp : G.refuses (definitionText c₀ table p) = false) :
    Triple (Conn.answer (G.counting cols params)) (fun v c => c = c₀ ∧ Showing table L v c₀)
      (columnLoop table first q qmarks (before ++ p :: after))
      (fun _ _ c => taken c₀ < taken c) (fun _ _ c => taken c₀ < taken c) := by
  induction before generalizing first q qmarks with
  | nil =>
    apply Triple.bind ((haveColumn_shown hc hr hl p.1).weaken (fun _ _ h => h) (fun _ _ _ h => h)
      (fun _ _ _ h => h.elim))
    intro known
    cases known with
    | true => exact fun v c h => absurd (h.2.mp rfl) hnot
    | false =>
      apply Triple.bind ((createColumn_taken hc hr hl hp).weaken (fun v c h => ⟨h.1.1, h.1.2.1.dMeta⟩)
        (fun _ _ _ h => h) (fun _ _ _ h => h.elim))
      intro _
      exact taken_stays (Asks.ofSchema table (asks_columnLoop table false _ _ after)) (taken c₀)
  | cons p' before ih =>
    obtain ⟨hp', hrest⟩ := List.forall_mem_cons.mp hbefore
    apply Triple.bind ((haveColumn_shown hc hr hl p'.1).weaken (fun _ _ h => h) (fun _ _ _ h => h)
      (fun _ _ _ h => h.elim))
    intro known
    cases known with
    | false => exact fun v c h => absurd (h.2.mpr hp') (by decide)
    | true =>
      rintro v c ⟨⟨hsame, hv, -⟩, -⟩
      exact ih false _ _ hrest v c ⟨hsame, hv⟩

lemma rebuild_shown (hc : c₀.Current) (hr : G.refuses (schemaText table) = false)
    (hl : Sql.lone (schemaText table) = true) {values : Fields} (replace : Bool)
    (hvalues : ∀ n ∈ values.map (·.1), n ∈ L) (hne : values ≠ []) :
    Triple (Conn.answer (G.counting cols params)) (fun v c => c = c₀ ∧ Showing table L v c₀)
      (rebuild table values replace) (fun _ v c => c = c₀ ∧ ∀ n, v.Lists table n ↔ n ∈ L)
      (fun _ v _ => (∀ n, v.Lists table n ↔ n ∈ L) ∧
        G.refuses (insertText replace table (values.map (·.1))) = true) := by
  intro v c hv
  have hloop := columnLoop_shown hc hr hl true (insertHead replace table) [] values hvalues v c hv
  unfold rebuild
  rw [invoke_bind]
  generalize hx : (columnLoop table true (insertHead replace table) [] values).invoke
    (Conn.answer (G.counting cols params)) v c = r at hloop ⊢
  obtain ⟨x, u, c₁⟩ := r
  cases x with
  | error e => exact hloop.elim
  | ok texts =>
    obtain ⟨rfl, hlists⟩ := hloop
    simp only [text_returned hx]
    rw [invoke_bind, invoke_onDb]
    by_cases hi : G.refuses (insertText replace table (values.map (·.1))) = true
    · have hprep : (G.counting cols params).prepare c₁.view (insertText replace table (values.map (·.1))) =
          .error [] := by simp [counting, hi]
      rw [MiniSQLite.invoke_prepare_error _ _ _ (blank_insertText _ _ _) hprep]
      exact ⟨hlists hne, hi⟩
    · have hprep : (G.counting cols params).prepare c₁.view (insertText replace table (values.map (·.1))) =
          .ok () := by simp [counting, hi]
      rw [MiniSQLite.invoke_prepare_ok _ _ _ (blank_insertText _ _ _) hprep]
      exact ⟨rfl, hlists hne⟩

lemma run_lists (hc : c₀.Current) (hr : G.refuses (schemaText table) = false)
    (hl : Sql.lone (schemaText table) = true) {w : SQLiteWriter} (hw : CacheOk (G.counting cols params) w)
    (hf : w.dFlag ≠ .readOnly) (hs : Showing table L w c₀) (values : Fields) (replace : Bool)
    (hvalues : ∀ n ∈ values.map (·.1), n ∈ L) (hne : values ≠ [])
    (hcached : w.cached table values replace = false) :
    (Call.run ⟨table, values, replace⟩ w c₀).2.1.dFlag = w.dFlag ∧
      ∀ n, (Call.run ⟨table, values, replace⟩ w c₀).2.1.Lists table n ↔ n ∈ L := by
  have hbuild := rebuild_shown hc hr hl replace hvalues hne w c₀ ⟨rfl, hs⟩
  rcases Call.run_rebuild_cases ⟨table, values, replace⟩ w c₀ hw hf hcached with ⟨e, v, c₁, hx, -, hflag, hrun⟩ |
    ⟨v, c₁, s, hx, -, hflag, -, -, hrun⟩
  · simp only at hx
    rw [hx] at hbuild
    rw [hrun]
    exact ⟨hflag, hbuild.1⟩
  · simp only at hx
    rw [hx] at hbuild
    have hcols : (finishCall (G.counting cols params) table values v c₁ s).2.1.dColumns = v.dColumns ∧
        (finishCall (G.counting cols params) table values v c₁ s).2.1.dFlag = v.dFlag := by
      unfold finishCall
      generalize bindAll (G.counting cols params) s.binds 1 values = r
      obtain ⟨x, binds⟩ := r
      cases x <;> exact ⟨rfl, rfl⟩
    rw [hrun]
    exact ⟨hcols.2.trans hflag, fun n => (lists_congr hcols.1).trans (hbuild.2 n)⟩

lemma run_insert_taken (hc : c₀.Current) (hr : G.refuses (schemaText table) = false)
    (hl : Sql.lone (schemaText table) = true) {w : SQLiteWriter} (hw : CacheOk (G.counting cols params) w)
    (hf : w.dFlag ≠ .readOnly) (hs : Showing table L w c₀) {values : Fields} {replace : Bool}
    (hvalues : ∀ n ∈ values.map (·.1), n ∈ L) (hne : values ≠ []) (hlen : values.length = params)
    (hcached : w.cached table values replace = false)
    (hi : G.refuses (insertText replace table (values.map (·.1))) = false) :
    taken c₀ < taken (Call.run ⟨table, values, replace⟩ w c₀).2.2 := by
  have hbuild := rebuild_shown hc hr hl replace hvalues hne w c₀ ⟨rfl, hs⟩
  rcases Call.run_rebuild_cases ⟨table, values, replace⟩ w c₀ hw hf hcached with ⟨e, v, c₁, hx, -⟩ |
    ⟨v, c₁, s, hx, hv, -, hcv, hsv, hrun⟩
  · simp only at hx
    rw [hx] at hbuild
    exact absurd (hi.symm.trans hbuild.2) (by decide)
  · simp only at hx hcv hsv
    rw [hx] at hbuild
    obtain ⟨rfl, -⟩ := hbuild
    obtain ⟨s', hs', hsql, -, hp, -⟩ := held_of_cached hv hcv
    obtain rfl : s = s' := Option.some.inj (hsv.symm.trans hs')
    have hbinds : (bindAll (G.counting cols params) s.binds 1 values).1 = .ok () := by
      apply (bindAll_isOk s.binds 0 values ?_).mpr
      · exact fun _ _ => rfl
      · rw [Nat.zero_add, hlen]
        exact hp.ge
    have hprep : (G.counting cols params).prepare c₁.view s.sql = .ok () := by
      rw [hsql]
      simp [counting, hi]
    have hstep : ∀ binds, taken (c₁.step s.sql binds false).2 = taken c₁ + 1 := by
      intro binds
      have hfinish : (G.counting cols params).step c₁.view s.sql binds c₁.progress =
        ⟨[], .done (taken c₁ + 1)⟩ := rfl
      have hd : (G.counting cols params).deferred (taken c₁ + 1) = false := rfl
      simp only [Conn.step, hprep, hfinish, List.isEmpty_nil, Bool.not_true, Bool.and_false,
        Bool.false_eq_true, if_false, hd]
      rfl
    rw [hrun]
    unfold finishCall
    generalize bindAll (G.counting cols params) s.binds 1 values = r at hbinds
    obtain ⟨x, binds⟩ := r
    simp only at hbinds
    subst hbinds
    simp only [hstep]
    exact Nat.lt_succ_self _

lemma run_taken {w : SQLiteWriter} (hf : w.dFlag ≠ .readOnly) {values : Fields} {replace : Bool}
    {P : SQLiteWriter → Prop} (hw : P w) (hcached : w.cached table values replace = false)
    (hloop : Triple (Conn.answer (G.counting cols params)) (fun v c => c = c₀ ∧ P v)
      (columnLoop table true (insertHead replace table) [] values)
      (fun _ _ c => taken c₀ < taken c) (fun _ _ c => taken c₀ < taken c)) :
    taken c₀ < taken (Call.run ⟨table, values, replace⟩ w c₀).2.2 := by
  have hbuild : Triple (Conn.answer (G.counting cols params)) (fun v c => c = c₀ ∧ P v)
      (rebuild table values replace) (fun _ _ c => taken c₀ < taken c) (fun _ _ c => taken c₀ < taken c) := by
    apply Triple.bind hloop
    intro texts
    apply taken_stays (t := table)
    exact Asks.bind (Asks.onMember (MiniSQLite.asks_prepare table trivial)) fun _ => Asks.modify _
  have hpost := hbuild w c₀ ⟨rfl, hw⟩
  rw [Call.run_rebuild ⟨table, values, replace⟩ w c₀ hf hcached]
  simp only
  generalize (rebuild table values replace).invoke (Conn.answer (G.counting cols params)) w c₀ = r at hpost ⊢
  obtain ⟨x, v, c₁⟩ := r
  cases x with
  | error e => exact hpost
  | ok u =>
    exact Triple.final (I := fun _ c => taken c₀ < taken c)
      (taken_stays (asks_finish table values) (taken c₀)) hpost

end Counting

lemma not_throws {cols : List Bytes} {params : ℕ} (hcols : ∀ n ∈ cols, 0 ∉ n) {flag : SQLWFlag}
    {s : Sys (G.counting cols params)} (hs : Sys.Reached (G.counting cols params) flag s) {values : Fields}
    (hvalues : values.map (·.1) = names) (replace : Bool)
    (h : taken s.conn < taken (Call.run ⟨table, values, replace⟩ s.writer s.conn).2.2) :
    ¬ G.Throws table names := by
  intro ht
  obtain ⟨-, hsame⟩ := ht _ (counting_rules G params hcols) flag s hs ⟨table, values, replace⟩ rfl hvalues
  rw [hsame] at h
  exact lt_irrefl _ h

/-- A writer without transactions just opened on the counting engine. -/
def countingStart (G : Grammar) (cols : List Bytes) (params : ℕ) : Sys (G.counting cols params) :=
  Sys.start (G.counting cols params) .noTransactions noMeta (0 : ℕ)

lemma countingStart_reached (cols : List Bytes) (params : ℕ) :
    Sys.Reached (G.counting cols params) .noTransactions (G.countingStart cols params) := .start _

lemma countingStart_writable {cols : List Bytes} {params : ℕ} :
    (G.countingStart cols params).writer.dFlag ≠ .readOnly := fun h => SQLWFlag.noConfusion h

lemma countingStart_showing (cols : List Bytes) (params : ℕ) :
    Showing table cols (G.countingStart cols params).writer (G.countingStart cols params).conn :=
  ⟨(countingStart_reached cols params).cacheOk.sorted, rfl, fun h => absurd rfl h, fun _ _ => Iff.rfl⟩

lemma names_of_fields (names : List Bytes) (v : VarT) : (names.map fun n => (n, v)).map (·.1) = names := by
  simp [Function.comp_def]

lemma lone_of_throws (hne : names ≠ []) (h : G.Throws table names) (hr : G.refuses (schemaText table) = false) :
    Sql.lone (schemaText table) = true := by
  by_contra hl
  refine not_throws (by simp) (countingStart_reached [] 0) (names_of_fields names .null) false ?_ h
  refine run_taken (P := fun v => v.dColumns table = []) countingStart_writable rfl rfl ?_
  cases names with
  | nil => exact absurd rfl hne
  | cons n names =>
    unfold columnLoop
    have hload : Triple (Conn.answer (G.counting [] 0)) (fun v c => c = (G.countingStart [] 0).conn ∧ v.dColumns table = [])
        (haveColumn table n) (fun _ _ c => taken (G.countingStart [] 0).conn < taken c) (fun _ _ _ => False) := by
      rintro v c ⟨rfl, hnil⟩
      obtain ⟨hok, hmore⟩ := exec_taken (G.countingStart [] 0).conn (control_schemaText table) hr (by simp [hl])
      have hs : (MiniSQLite.getSchema table).invoke (Conn.answer (G.counting [] 0)) v.dDb (G.countingStart [] 0).conn =
          (.ok [], v.dDb, ((G.countingStart [] 0).conn.exec (schemaText table)).2) := by
        rw [MiniSQLite.invoke_getSchema, hok]
        rfl
      have hlt : taken (G.countingStart [] 0).conn < taken ((G.countingStart [] 0).conn.exec (schemaText table)).2 := by
        omega
      rw [invoke_haveColumn_load_ok v _ table n hnil hs]
      exact hlt
    apply Triple.bind (hload.weaken (fun _ _ h => h) (fun _ _ _ h => h) (fun _ _ _ h => h.elim))
    intro known
    apply taken_stays (t := table)
    cases known with
    | true => exact Asks.ofSchema table (asks_columnLoop table _ _ _ _)
    | false => exact Asks.bind (Asks.ofSchema table (asks_createColumn table _)) fun _ =>
        Asks.ofSchema table (asks_columnLoop table _ _ _ _)

lemma not_throws_definition {cols : List Bytes} {params : ℕ} (hcols : ∀ n ∈ cols, 0 ∉ n) {flag : SQLWFlag}
    {s : Sys (G.counting cols params)} (hs : Sys.Reached (G.counting cols params) flag s)
    (hf : s.writer.dFlag ≠ .readOnly) (hr : G.refuses (schemaText table) = false)
    (hl : Sql.lone (schemaText table) = true) {L : List Bytes} (hshow : Showing table L s.writer s.conn)
    {before after : List Bytes} {n : Bytes} {v : VarT} (hbefore : ∀ m ∈ before, m ∈ L) (hnot : n ∉ L)
    (hp : G.refuses (definitionText s.conn table (n, v)) = false) :
    ¬ G.Throws table (before ++ n :: after) := by
  have hfields : (before.map (fun n => (n, v)) ++ (n, v) :: after.map fun n => (n, v)).map (·.1) =
      before ++ n :: after := by simp [Function.comp_def]
  apply not_throws hcols hs hfields false
  apply run_taken (P := fun w => Showing table L w s.conn) hf hshow
  · apply not_cached hs.cacheOk (p := (n, v)) (by simp)
    rintro ⟨p, hmem, hname⟩
    exact hnot ((hshow.listed (List.ne_nil_of_mem hmem) n).mp ⟨p, hmem, hname⟩)
  · apply columnLoop_taken hs.current hr hl
    · rw [names_of_fields]
      exact hbefore
    · exact hnot
    · exact hp

lemma exists_loaded {first : Bytes} {cols : List Bytes} (hcols : ∀ n ∈ first :: cols, 0 ∉ n)
    (hr : G.refuses (schemaText table) = false) (hl : Sql.lone (schemaText table) = true) :
    ∃ s : Sys (G.counting (first :: cols) 0), Sys.Reached (G.counting (first :: cols) 0) .noTransactions s ∧
      s.writer.dFlag ≠ .readOnly ∧ Showing table (first :: cols) s.writer s.conn ∧ taken s.conn = 1 := by
  have hstart := countingStart_reached (G := G) (first :: cols) 0
  have hplain : (G.countingStart (first :: cols) 0).conn.Plain := ⟨rfl, rfl, rfl⟩
  -- a call with the first field loads the list
  obtain ⟨hflag, hlists⟩ := run_lists hstart.current hr hl hstart.cacheOk countingStart_writable
    (countingStart_showing (first :: cols) 0) [(first, .null)] false (by simp) (by simp) rfl
  have hafter := Asks.preserves (h := Conn.answer (G.counting (first :: cols) 0))
    (asks_addValueGeneric table [(first, .null)] false) Conn.Plain (fun _ _ hq hs => hs.answer hq)
    (w := (G.countingStart (first :: cols) 0).writer) hplain
  have hcall : (G.countingStart (first :: cols) 0).step (.call ⟨table, [(first, .null)], false⟩) =
      (G.countingStart (first :: cols) 0).addCall ⟨table, [(first, .null)], false⟩ := rfl
  have hstep := hstart.step (.call ⟨table, [(first, .null)], false⟩)
  rw [hcall] at hstep
  have hreached := hstep.others hafter.autocommit (1 : ℕ)
  generalize hs : (G.countingStart (first :: cols) 0).addCall ⟨table, [(first, .null)], false⟩ = s at hreached
  have hwriter : s.writer = (Call.run ⟨table, [(first, .null)], false⟩
      (G.countingStart (first :: cols) 0).writer (G.countingStart (first :: cols) 0).conn).2.1 := by
    rw [← hs]
    rfl
  rw [← hwriter] at hflag hlists
  refine ⟨_, hreached, ?_, ⟨hreached.cacheOk.sorted, (hreached.knows (counting_rules G 0 hcols) table).dMeta,
    fun _ => hlists, fun hnil => ?_⟩, rfl⟩
  · intro hf
    exact countingStart_writable (hflag.symm.trans hf)
  · obtain ⟨p, hp, -⟩ := (hlists first).mpr List.mem_cons_self
    have hlist : p ∈ ([] : List (Bytes × Bytes)) := hnil ▸ hp
    cases hlist

lemma alter_of_throws (h : G.Throws table names) (hr : G.refuses (schemaText table) = false)
    (hl : Sql.lone (schemaText table) = true) {n : Bytes} (hn : n ∈ untilNul names) (v : VarT) :
    G.refuses (alterText table n (columnType v) []) = true := by
  by_contra halter
  obtain ⟨before, after, rfl, hnot, hnul⟩ := untilNul_split hn
  obtain ⟨other, hother, hne⟩ : ∃ other : Bytes, 0 ∉ other ∧ n ≠ other := by
    by_cases hnil : n = []
    · exact ⟨[120], by decide, by simp [hnil]⟩
    · exact ⟨[], by decide, hnil⟩
  refine not_throws_definition (by simpa [hother] using hnul) (countingStart_reached (other :: before) 0)
    countingStart_writable hr hl (countingStart_showing (other :: before) 0) (v := v)
    (fun m hm => List.mem_cons_of_mem _ hm) (by simp [hne, hnot]) ?_ h
  have htext : definitionText (G.countingStart (other :: before) 0).conn table (n, v) =
      alterText table n (columnType v) [] := rfl
  rw [htext]
  simpa using halter

/-- The first column of a table. Where the fields in front of it are listed, the table has been there
before. -/
lemma create_of_throws (h : G.Throws table names) (hr : G.refuses (schemaText table) = false)
    (hl : Sql.lone (schemaText table) = true) {n : Bytes} (hn : n ∈ untilNul names) (v : VarT) :
    G.refuses (createText table n (columnType v) []) = true := by
  by_contra hcreate
  obtain ⟨before, after, rfl, hnot, hnul⟩ := untilNul_split hn
  have htext : ∀ {cols : List Bytes} {params : ℕ} (c : Conn (G.counting cols params)), shown c = [] →
      G.refuses (definitionText c table (n, v)) = false := by
    intro cols params c hc
    simpa [definitionText, hc] using hcreate
  cases before with
  | nil =>
    exact not_throws_definition (by simp) (countingStart_reached [] 0) countingStart_writable hr hl
      (countingStart_showing [] 0) (by simp) (by simp) (htext (G.countingStart [] 0).conn rfl) h
  | cons first before =>
    obtain ⟨s, hs, hf, hshow, htaken⟩ := exists_loaded hnul hr hl
    exact not_throws_definition hnul hs hf hr hl hshow (fun m hm => hm) hnot
      (htext s.conn (by simp [shown, htaken])) h

lemma insert_of_throws (hne : names ≠ []) (h : G.Throws table names) (hr : G.refuses (schemaText table) = false)
    (hl : Sql.lone (schemaText table) = true) (hnul : ∀ n ∈ names, 0 ∉ n) (replace : Bool) :
    G.refuses (insertText replace table names) = true := by
  by_contra hinsert
  have hreached := countingStart_reached (G := G) names names.length
  refine not_throws hnul hreached (names_of_fields names .null) replace ?_ h
  apply run_insert_taken hreached.current hr hl hreached.cacheOk countingStart_writable
    (countingStart_showing names names.length)
  · rw [names_of_fields]
    exact fun n hn => hn
  · simpa using hne
  · simp
  · rfl
  · rw [names_of_fields]
    simpa using hinsert

lemma refused_of_throws (hne : names ≠ []) (h : G.Throws table names) :
    G.refuses (schemaText table) = true ∨ G.Undefinable table names := by
  cases hr : G.refuses (schemaText table) with
  | true => exact Or.inl rfl
  | false =>
    have hl := lone_of_throws hne h hr
    exact Or.inr ⟨hl, fun n hn v => ⟨create_of_throws h hr hl hn v, alter_of_throws h hr hl hn v⟩,
      insert_of_throws hne h hr hl⟩

/-- For a table name and a list of columns, the texts of the writer name exactly what the caller named,
or each call with them throws before it has changed anything, if and only if no name holds an
apostrophe, a quotation mark or NUL, or SQLite refuses the schema query of the call or all that the call
may send behind it. -/
theorem names_or_throws_iff (G : Grammar) (table : Bytes) {names : List Bytes} (hne : names ≠ []) :
    NamesExactly table names ∨ G.Throws table names ↔
      (PlainName table ∧ ∀ n ∈ names, PlainName n) ∨ G.refuses (schemaText table) = true ∨
        G.Undefinable table names := by
  constructor
  · rintro (h | h)
    · exact Or.inl ((namesExactly_iff table hne).mp h)
    · exact Or.inr (refused_of_throws hne h)
  · rintro (h | h | h)
    · exact Or.inl ((namesExactly_iff table hne).mpr h)
    · exact Or.inr (throws_of_refused hne h)
    · exact Or.inr (throws_of_undefinable h)

/-- The grammar that refuses open quotes and nothing else. -/
def openQuotes : Grammar := ⟨Sql.opened, fun _ h => h⟩

/-- One apostrophe in the table name leaves a quote of the schema query open. -/
theorem names_or_throws_iff_apostrophe :
    openQuotes.Throws (ascii "it's") [ascii "a"] ∧
    ¬ (NamesExactly (ascii "t") [ascii "a", ascii "b\"c"] ∨
      openQuotes.Throws (ascii "t") [ascii "a", ascii "b\"c"]) := by
  constructor
  · have hprop := (names_or_throws_iff openQuotes (ascii "it's") (List.cons_ne_nil (ascii "a") [])).mpr
      (Or.inr (Or.inl (by decide +kernel)))
    refine hprop.resolve_left fun h => ?_
    have hschema := h.schema
    revert hschema
    decide +kernel
  · intro h
    rcases (names_or_throws_iff openQuotes (ascii "t") (by decide)).mp h with ⟨-, hplain⟩ | hr | hu
    · exact absurd (hplain _ (List.mem_cons_of_mem _ List.mem_cons_self)) (by decide)
    · exact absurd hr (by decide +kernel)
    · exact absurd (hu.definitions (ascii "a") List.mem_cons_self .null).1 (by decide +kernel)

end Grammar

/-- A quotation mark in a later column: the table has been created with the first one when the call
throws. -/
theorem quote_breaks_definition :
    let k : Call := ⟨ascii "t", [(ascii "a", .int32 1), (ascii "b\"c", .int32 2)], false⟩
    let s := Sys.start Reference.engine .noTransactions (fun _ _ => []) Db.empty
    ¬ NamesExactly k.table k.names ∧ (k.run s.writer s.conn).1.isOk = false ∧
      (Db.lookup s.conn.view Db.mainSchema (ascii "t")).isSome = false ∧
      (Db.lookup (k.run s.writer s.conn).2.2.view Db.mainSchema (ascii "t")).isSome = true := by
  refine ⟨fun h => ?_, ?_⟩
  · have halter := h.alter (ascii "b\"c") (by decide) .null
    revert halter
    decide +kernel
  · decide +kernel

end SqliteWrite
