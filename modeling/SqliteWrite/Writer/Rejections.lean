import SqliteWrite.Writer.ColumnRules
import SqliteWrite.Writer.Comparison

/-! A call whose `INSERT` is rejected. No row is added and none changes; what remains of the call
are the columns that it created, and later calls are as if it had only created them. -/
namespace SqliteWrite
open Method

namespace Db

/-- The tables and their rows are still there, each row with its values in front, and no other
table has rows. -/
structure RowsKept (db db' : Db) : Prop where
  there : ∀ s n t, db.tables s n = some t → ∃ t' f, db'.tables s n = some t' ∧
    t.columns <+: t'.columns ∧ t'.rows = t.rows.map f ∧ ∀ r, r <+: f r
  fresh : ∀ s n t', db.tables s n = none → db'.tables s n = some t' → t'.rows = []

variable {db db' : Db}

lemma RowsKept.refl (db : Db) : db.RowsKept db := by
  refine ⟨fun s n t ht => ⟨t, id, ht, List.prefix_rfl, by simp, fun r => List.prefix_rfl⟩, ?_⟩
  intro s n t' hn ht
  rw [hn] at ht
  cases ht

lemma RowsKept.trans {db'' : Db} (h : db.RowsKept db') (k : db'.RowsKept db'') :
    db.RowsKept db'' := by
  constructor
  · intro s n t ht
    obtain ⟨t', f, ht', hcols, hrows, hf⟩ := h.there s n t ht
    obtain ⟨t'', g, ht'', hcols', hrows', hg⟩ := k.there s n t' ht'
    refine ⟨t'', g ∘ f, ht'', hcols.trans hcols', ?_, fun r => (hf r).trans (hg (f r))⟩
    rw [hrows', hrows, List.map_map]
  · intro s n t'' hn ht''
    cases hm : db'.tables s n with
    | none => exact k.fresh s n t'' hm ht''
    | some t' =>
      obtain ⟨u, g, hu, -, hrows, -⟩ := k.there s n t' hm
      rw [ht''] at hu
      cases hu
      rw [hrows, h.fresh s n t' hn hm, List.map_nil]

lemma rowsKept_put {schema name : Bytes} {t' : Table}
    (hsome : ∀ t, db.lookup schema name = some t → t.columns <+: t'.columns ∧
      ∃ f, t'.rows = t.rows.map f ∧ ∀ r, r <+: f r)
    (hnone : db.lookup schema name = none → t'.rows = []) : db.RowsKept (db.put schema name t') := by
  have hput : ∀ s n, (db.put schema name t').tables s n =
      if s = fold schema ∧ n = fold name then some t' else db.tables s n := by
    intro s n
    unfold put
    by_cases hs : s = fold schema
    · subst hs
      by_cases hn : n = fold name
      · simp [hn]
      · simp [hn]
    · simp [hs]
  constructor
  · intro s n t ht
    rw [hput]
    by_cases hsn : s = fold schema ∧ n = fold name
    · obtain ⟨rfl, rfl⟩ := hsn
      obtain ⟨hcols, f, hrows, hf⟩ := hsome t ht
      exact ⟨t', f, by simp, hcols, hrows, hf⟩
    · rw [if_neg hsn]
      exact ⟨t, id, ht, List.prefix_rfl, by simp, fun r => List.prefix_rfl⟩
  · intro s n u hn hu
    rw [hput] at hu
    by_cases hsn : s = fold schema ∧ n = fold name
    · obtain ⟨rfl, rfl⟩ := hsn
      rw [if_pos ⟨rfl, rfl⟩] at hu
      cases hu
      exact hnone hn
    · rw [if_neg hsn, hn] at hu
      cases hu

lemma fold_of_find {table schema : Bytes} {t : Table} (ho : db.own table = some t)
    (hf : db.find (tableRef table) = some schema) : fold schema = schema := by
  unfold find at hf
  cases hs : (tableRef table).schema with
  | some s =>
    rw [hs] at hf
    simp only at hf
    split_ifs at hf
    cases hf
    exact fold_fold s
  | none =>
    rw [hs] at hf
    have hmain : (db.tables mainSchema (fold (tableRef table).name)).isSome = true := by
      have hfold : fold mainSchema = mainSchema := by decide
      have ho' : db.tables mainSchema (fold (tableRef table).name) = some t := by
        simpa [own, schemaKey, nameKey, hs, hfold] using ho
      rw [ho']
      rfl
    simp only [searchOrder, List.find?_cons, hmain] at hf
    split at hf <;> cases hf <;> decide

end Db

lemma Taken.rowsKept {D : Decisions} {db db' : Db} {known : Bool} {table : Bytes} {col : Column}
    (h : Taken D db known table col db') (hk : known = (db.own table).isSome) : db.RowsKept db' := by
  cases h with
  | there t hfalse ho => exact Db.RowsKept.refl db
  | created hfalse ho =>
    refine Db.rowsKept_put (fun t ht => ?_) fun _ => rfl
    have hnone : db.lookup _ _ = none := ho
    rw [ht] at hnone
    cases hnone
  | added schema t u htrue hf hr hnot hadd =>
    rw [htrue] at hk
    obtain ⟨t₀, ho⟩ := Option.isSome_iff_exists.mp hk.symm
    have hfold := Db.fold_of_find ho hf
    have hlook : db.lookup schema (tableRef table).name = some t := by
      simpa only [Db.resolve, hf, Option.bind_some, Db.lookup, hfold] using hr
    refine Db.rowsKept_put (fun t' ht' => ?_) fun hn => ?_
    · rw [hlook] at ht'
      cases ht'
      exact ⟨⟨[col], rfl⟩, (· ++ [u]), rfl, fun r => ⟨[u], rfl⟩⟩
    · rw [hlook] at hn
      cases hn

namespace Call
variable {E : Engine} (k : Call) (w : SQLiteWriter) (c : Conn E)

/-- The call throws because SQLite rejects its `INSERT`: that statement ran, and its failure undid
the statement alone. -/
structure Rejected : Prop where
  threw : (k.run w c).1.isOk = false
  tried : (k.run w c).2.2.ran ≠ c.ran
  steady : k.Steady w c

end Call

namespace SQLiteWriter
variable {D : Decisions} {columnMeta : Bytes → Bytes → Bytes} {db₀ : Db} {k : Call}

/-- What holds in the column loop of a call after the fields `done`: the rows are kept. -/
structure Keeping (D : Decisions) (columnMeta : Bytes → Bytes → Bytes) (db₀ : Db) (table : Bytes)
    (done : List Bytes) (w : SQLiteWriter) (db : Db) : Prop where
  writable : w.dFlag ≠ .readOnly
  cacheOk : CacheOk D.engine w
  dMeta : w.dMeta = columnMeta
  done : ∀ n ∈ done, w.Lists table n
  kept : db₀.RowsKept db

/-- The writer is alone, and no statement is answered by a rollback. -/
def withoutRollback (D : Decisions) : Around Request (Conn D.engine) where
  rely := Eq
  assume := fun q c => c.rollsBack q = false
  guarantee := fun _ _ => True

lemma search_keeping (ht : PlainName k.table) (done : List Bytes) (name : Bytes) :
    Spec (Conn.answer D.engine) (withoutRollback D)
      (fun w s => Keeping D columnMeta db₀ k.table done w s.view) (haveColumn k.table name)
      (fun known w s => if known = true then Keeping D columnMeta db₀ k.table (done ++ [name]) w s.view
        else Keeping D columnMeta db₀ k.table done w s.view)
      (fun _ _ s => db₀.RowsKept s.view) := by
  have hfound : ∀ w db, Keeping D columnMeta db₀ k.table done w db →
      (w.Lists k.table name → Keeping D columnMeta db₀ k.table (done ++ [name]) w db) ∧
      (¬ w.Lists k.table name → Keeping D columnMeta db₀ k.table done w db) := by
    refine fun w db h => ⟨fun hl => ⟨h.writable, h.cacheOk, h.dMeta, ?_, h.kept⟩, fun _ => h⟩
    simpa [or_imp, forall_and] using ⟨h.done, hl⟩
  refine spec_haveColumn ht (fun w db h => h.cacheOk.sorted) (fun w db h _ => hfound w db h) ?_
  intro w s s' h hnil hs _
  obtain rfl : s = s' := hs
  refine ⟨trivial, fun _ => h.kept, fun _ => hfound _ _ ⟨h.writable,
    h.cacheOk.setColumns hnil (sortByFirst_sorted _), h.dMeta, fun n hn => ?_, h.kept⟩⟩
  obtain ⟨p, hp, -⟩ := h.done n hn
  rw [hnil] at hp
  cases hp

lemma create_keeping (hk : k.Readable columnMeta) (done : List Bytes) {p : Bytes × VarT}
    (hp : p ∈ k.values) : Spec (Conn.answer D.engine) (withoutRollback D)
      (fun w s => Keeping D columnMeta db₀ k.table done w s.view) (createColumn k.table p)
      (fun _ w s => Keeping D columnMeta db₀ k.table (done ++ [p.1]) w s.view)
      (fun _ _ s => db₀.RowsKept s.view) := by
  have hname : p.1 ∈ k.names := List.mem_map_of_mem hp
  obtain ⟨xs, hxs⟩ := Option.isSome_iff_exists.mp (hk.metas p.1 hname)
  refine spec_createColumn (J := fun known w db => Keeping D columnMeta db₀ k.table done w db ∧
    known = (db.own k.table).isSome) hk.table (hk.names _ hname) (fun w db h => h.dMeta ▸ hxs) ?_ ?_
  · intro w s s' h hs _
    obtain rfl : s = s' := hs
    exact ⟨trivial, fun _ => h.kept, fun _ => ⟨h, rfl⟩⟩
  · rintro known w s s' ⟨h, hknown⟩ hs ha
    obtain rfl : s = s' := hs
    refine ⟨trivial, fun r hr => ?_⟩
    cases hr with
    | taken c' htaken _ =>
      refine ⟨h.writable, h.cacheOk.withColumn p, h.dMeta, fun n hn => ?_,
        h.kept.trans (htaken.rowsKept hknown)⟩
      rw [lists_withColumn]
      rcases List.mem_append.mp hn with hn | hn
      · exact Or.inl (h.done n hn)
      · exact Or.inr ⟨rfl, (List.mem_singleton.mp hn).symm⟩
    | failed x c' _ hv =>
      rcases hv with hv | ⟨-, hroll⟩
      · simp only [hv]
        exact h.kept
      · rw [ha] at hroll
        cases hroll

/-- A call that throws without a rollback keeps the rows. -/
theorem callConditions_keeping (hk : k.Readable columnMeta) :
    CallConditions D.engine (withoutRollback D) k.table k.values k.replace
      (Keeping D columnMeta db₀ k.table) (fun done _ => Keeping D columnMeta db₀ k.table done)
      (fun _ _ => True) (fun _ db => db₀.RowsKept db) where
  writable _ _ _ h := h.writable
  cacheOk _ _ _ h := h.cacheOk
  listed _ _ h p hp := h.done p.1 (List.mem_map_of_mem hp)
  cached w db h hl := by
    refine ⟨h.writable, h.cacheOk, h.dMeta, fun n hn => ?_, h.kept⟩
    obtain ⟨p, hp, rfl⟩ := List.mem_map.mp hn
    exact hl p hp
  stable w s s' h hs := by
    obtain rfl : s = s' := hs
    exact h
  settled w v db h hr := ⟨hr.dFlag ▸ h.writable, hr.cacheOk, hr.dMeta.trans h.dMeta,
    fun n hn => (lists_congr hr.dColumns).mpr (h.done n hn), h.kept⟩
  settledPost _ _ _ _ _ := trivial
  settledF _ _ _ h _ := h
  search done p _ := search_keeping hk.table done p.1
  create done p hp := create_keeping hk done hp
  compile _ _ h _ := ⟨trivial, fun _ _ => h.kept⟩
  bindGuarantee _ _ := trivial
  bindFails _ _ _ h _ := h.kept
  step vs w s _ _ h ha := by
    refine ⟨trivial, ?_⟩
    refine stepped_insertText s (P := fun _ => True) (Q := fun db => db₀.RowsKept db) hk.table hk.names
      (fun _ _ => trivial) h.kept fun hroll => ?_
    have hno : s.rollsBack _ = false := ha
    cases hno.symm.trans hroll

end SQLiteWriter

namespace Call
open SQLiteWriter

/-- A rejected call adds no row and changes none. -/
theorem Rejected.rowsKept {D : Decisions} {k : Call} {w : SQLiteWriter} {c : Conn D.engine}
    (h : k.Rejected w c) (hw : CacheOk D.engine w) (hk : k.Readable w.dMeta) :
    Db.RowsKept c.view (k.run w c).2.2.view := by
  by_cases hf : w.dFlag = .readOnly
  · rw [run_readOnly k w c hf]
    exact Db.RowsKept.refl c.view
  have hstart : Keeping D w.dMeta c.view k.table [] w c.view :=
    ⟨hf, hw, rfl, by simp, Db.RowsKept.refl c.view⟩
  obtain ⟨hends, -⟩ := (callConditions_keeping hk).spec.invoke (fun _ => rfl) hstart h.steady
  have hthrew := h.threw
  change Ends _ _ ((k.run w c).1, (k.run w c).2.1) (k.run w c).2.2 at hends
  generalize k.run w c = r at hends hthrew ⊢
  obtain ⟨x, v, t⟩ := r
  cases x with
  | ok u => cases hthrew
  | error x => exact hends

section Trace
variable {E : Engine} (k : Call) (w : SQLiteWriter) (c : Conn E)

lemma trace_finish {s : Stmt} (hs : w.dDb.dStmts k.table = some s) (hb : s.busy = false)
    (hok : (bindAll E s.binds 1 k.values).1 = .ok ()) :
    (.step s.sql (bindAll E s.binds 1 k.values).2 false, c) ∈
      ((do bindValues k.table 1 k.values
           let _ ← onDb (MiniSQLite.execPrep k.table false 0) : M Unit).script w).trace
        (Conn.answer E) c := by
  have hbind := invoke_bindValues (E := E) w c k.table 1 k.values hs hb
  rw [hok] at hbind
  refine trace_bind_ok (Conn.answer E) w c hbind ?_
  rw [script_bind, Script.trace_bind]
  apply List.mem_append_left
  change _ ∈ Script.trace (Conn.answer E) (((MiniSQLite.execPrep k.table false 0).script _) >>= _) c
  rw [Script.trace_bind, MiniSQLite.script_execPrep]
  simp [Script.trace]

/-- A call throws before it has its statement, or it is finished from the statement it holds. -/
lemma run_held (h : CacheOk E w) (hf : w.dFlag ≠ .readOnly) :
    (∃ e, (k.run w c).1 = .error e ∧ (k.run w c).2.2 = k.prepared w c) ∨
    ∃ v s, CacheOk E v ∧ v.cached k.table k.values k.replace = true ∧ v.dDb.dStmts k.table = some s ∧
      k.run w c = finishCall E k.table k.values v (k.prepared w c) s ∧
      ∀ p ∈ ((do bindValues k.table 1 k.values
                 let _ ← onDb (MiniSQLite.execPrep k.table false 0) : M Unit).script v).trace
        (Conn.answer E) (k.prepared w c), p ∈ k.trace w c := by
  cases hc : w.cached k.table k.values k.replace with
  | true =>
    obtain ⟨s, hs, -, hb, -⟩ := held_of_cached h hc
    have hprep : k.prepared w c = c := by simp [prepared, hc]
    refine Or.inr ⟨w, s, h, hc, hs, ?_, fun p hp => ?_⟩
    · rw [hprep]
      exact run_cached k w c hf hc hs hb
    · rw [hprep] at hp
      unfold trace method addValueGeneric
      rw [script_get_bind]
      simpa only [hf, hc, if_false, Bool.not_true, Bool.false_eq_true] using hp
  | false =>
    rcases run_rebuild_cases k w c h hf hc with ⟨e, v, c₁, hr, -, -, hrun⟩ |
      ⟨v, c₁, s, hr, hv, -, hcv, hs, hrun⟩
    · exact Or.inl ⟨e, by rw [hrun], by simp [hrun, prepared, hc, hr]⟩
    · have hprep : k.prepared w c = c₁ := by simp [prepared, hc, hr]
      refine Or.inr ⟨v, s, hv, hcv, hs, ?_, fun p hp => ?_⟩
      · rw [hprep]
        exact hrun
      · rw [hprep] at hp
        unfold trace method addValueGeneric
        rw [script_get_bind]
        simp only [hf, hc, if_false, Bool.not_false, if_true]
        exact trace_bind_ok (Conn.answer E) w c hr hp

lemma run_tried (h : CacheOk E w) (hran : (k.run w c).2.2.ran ≠ c.ran) :
    ∃ vs, k.Ran w c vs ∧ (.step (insertText k.replace k.table k.names)
      (insertBinds E (insertText k.replace k.table k.names) vs) false, k.prepared w c) ∈
        k.trace w c := by
  have hf : w.dFlag ≠ .readOnly := fun hf => hran (by rw [run_readOnly k w c hf])
  rcases run_held k w c h hf with ⟨e, -, hconn⟩ | ⟨v, s, hv, hcv, hs, hrun, htrace⟩
  · rw [hconn, prepared_ran] at hran
    exact absurd rfl hran
  obtain ⟨s', hs', hsql, hb, hp, hclear, -⟩ := held_of_cached hv hcv
  obtain rfl : s = s' := Option.some.inj (hs.symm.trans hs')
  cases hbind : (bindAll E s.binds 1 k.values).1 with
  | error e =>
    have hx : bindAll E s.binds 1 k.values = (.error e, (bindAll E s.binds 1 k.values).2) :=
      Prod.ext hbind rfl
    rw [hrun] at hran
    unfold finishCall at hran
    rw [hx] at hran
    exact absurd (k.prepared_ran w c) hran
  | ok u =>
    obtain ⟨vs, hvs, hlen, hbinds⟩ := finishCall_bound hp hclear hbind
    have hx : bindAll E s.binds 1 k.values = (.ok u, insertBinds E s.sql vs) := Prod.ext hbind hbinds
    have hmem := htrace _ (k.trace_finish v (k.prepared w c) hs hb hbind)
    rw [hbinds, hsql] at hmem
    refine ⟨vs, ⟨hvs, hlen, ?_, ?_⟩, hmem⟩
    · rw [hrun]
      unfold finishCall
      rw [hx, hsql]
      rfl
    · rw [hrun]
      unfold finishCall
      rw [hx, hsql]
      rfl

/-- The object and the connection after the column loop of the call alone. -/
def columnsMade : Except Bytes (Bytes × Bytes) × SQLiteWriter × Conn E :=
  (columnLoop k.table true (insertHead k.replace k.table) [] k.values).invoke (Conn.answer E) w c

lemma columnsMade_listed (hw : w.Sorted) (hl : ∀ p ∈ k.values, w.Lists k.table p.1) :
    (k.columnsMade w c).2 = (w, c) := by
  unfold columnsMade
  rw [columnLoop_listed w hw c k.table true _ _ k.values hl]

lemma rebuild_columnsMade :
    ((rebuild k.table k.values k.replace).invoke (Conn.answer E) w c).2.2 = (k.columnsMade w c).2.2 ∧
    ((rebuild k.table k.values k.replace).invoke (Conn.answer E) w c).2.1.forget =
      (k.columnsMade w c).2.1.forget := by
  unfold rebuild columnsMade
  rw [invoke_bind]
  generalize hr : (columnLoop k.table true (insertHead k.replace k.table) [] k.values).invoke
    (Conn.answer E) w c = r
  obtain ⟨x, v, c₁⟩ := r
  cases x with
  | error e => exact ⟨rfl, rfl⟩
  | ok texts =>
    simp only [text_returned hr]
    rw [invoke_bind, invoke_onDb]
    cases hp : E.prepare c₁.view (insertText k.replace k.table (k.values.map (·.1))) with
    | error e =>
      rw [MiniSQLite.invoke_prepare_error _ _ _ (blank_insertText _ _ _) hp]
      exact ⟨rfl, rfl⟩
    | ok u =>
      rw [MiniSQLite.invoke_prepare_ok _ _ _ (blank_insertText _ _ _) hp]
      exact ⟨rfl, rfl⟩

lemma prepared_columnsMade (h : CacheOk E w) : k.prepared w c = (k.columnsMade w c).2.2 := by
  unfold prepared
  cases hc : w.cached k.table k.values k.replace with
  | true =>
    obtain ⟨-, -, -, -, -, -, hl, -⟩ := held_of_cached h hc
    rw [columnsMade_listed k w c h.sorted hl, if_pos rfl]
  | false => exact (k.rebuild_columnsMade w c).1

lemma run_forget_columnsMade (h : CacheOk E w) (hf : w.dFlag ≠ .readOnly) :
    (k.run w c).2.1.forget = (k.columnsMade w c).2.1.forget := by
  have hfin : ∀ v c₁ s, (finishCall E k.table k.values v c₁ s).2.1.forget = v.forget := by
    intro v c₁ s
    unfold finishCall
    generalize bindAll E s.binds 1 k.values = r
    obtain ⟨x, binds⟩ := r
    cases x <;> rfl
  cases hc : w.cached k.table k.values k.replace with
  | true =>
    obtain ⟨s, hs, -, hb, -, -, hl, -⟩ := held_of_cached h hc
    rw [run_cached k w c hf hc hs hb, hfin, columnsMade_listed k w c h.sorted hl]
  | false =>
    have hmade := (k.rebuild_columnsMade w c).2
    rcases run_rebuild_cases k w c h hf hc with ⟨e, v, c₁, hr, -, -, hrun⟩ |
      ⟨v, c₁, s, hr, -, -, -, -, hrun⟩
    · rw [hr] at hmade
      rw [hrun]
      exact hmade
    · rw [hr] at hmade
      rw [hrun, hfin]
      exact hmade

lemma step_failed_quiet (sql : Bytes) (binds : List Value)
    (hroll : c.rollsBack (.step sql binds false) = false)
    (hfail : (MiniSQLite.stepRows false (c.step sql binds false).1).isOk = false) :
    (c.step sql binds false).2.quiet = c.quiet := by
  unfold Conn.step Conn.rollsBack at *
  cases hp : E.prepare c.view sql with
  | error msg => rfl
  | ok u =>
    simp only [hp] at hroll hfail ⊢
    by_cases hrows : (!false && !(E.step c.view sql binds c.progress).rows.isEmpty) = true
    · rw [if_pos hrows]
      rfl
    · rw [if_neg hrows] at hfail ⊢
      cases hfin : (E.step c.view sql binds c.progress).finish with
      | done db =>
        simp only [hfin] at hfail ⊢
        by_cases hd : (c.autocommit && E.deferred db) = true
        · rw [if_pos hd]
          rfl
        · rw [if_neg hd] at hfail
          simp only [MiniSQLite.stepRows, if_neg hrows] at hfail
          cases hfail
      | error rc => rfl
      | rollback rc =>
        simp only [hfin, Bool.false_or] at hroll
        simp [hroll] at hrows

/-- A rejected call leaves what its column loop leaves, up to the statements held and the log. -/
theorem Rejected.leaves_columns (hk : k.Rejected w c) (h : CacheOk E w) :
    (k.run w c).2.1.forget = (k.columnsMade w c).2.1.forget ∧
      (k.run w c).2.2.quiet = (k.columnsMade w c).2.2.quiet := by
  have hf : w.dFlag ≠ .readOnly := fun hf => hk.tried (by rw [run_readOnly k w c hf])
  refine ⟨k.run_forget_columnsMade w c h hf, ?_⟩
  obtain ⟨vs, hran, hmem⟩ := k.run_tried w c h hk.tried
  have hroll := hk.steady _ hmem
  have hthrew := hk.threw
  rw [hran.result] at hthrew
  rw [hran.conn, ← k.prepared_columnsMade w c h]
  refine step_failed_quiet _ _ _ hroll ?_
  generalize MiniSQLite.stepRows false _ = x at hthrew ⊢
  cases x with
  | error e => rfl
  | ok rows => cases hthrew

end Trace
end Call

namespace Sys
open SQLiteWriter
variable {E : Engine}

/-- The state in which the call had only gone through its fields and created the missing columns. -/
def makeColumns (s : Sys E) (k : Call) : Sys E :=
  { s with writer := (k.columnsMade s.writer s.conn).2.1, conn := (k.columnsMade s.writer s.conn).2.2 }

/-- From any state of a writer, the future of a rejected call is that of its columns alone. -/
lemma rejected_sameFrom (s : Sys E) (k : Call) (h : CacheOk E s.writer)
    (hk : k.Rejected s.writer s.conn) : (s.addCall k).SameFrom (s.makeColumns k) := by
  obtain ⟨hwriter, hconn⟩ := hk.leaves_columns k s.writer s.conn h
  have hmade : CacheOk E (s.makeColumns k).writer :=
    h.grows (columnLoop_grows s.writer h.sorted s.conn k.table true _ [] k.values)
  exact Alike.sameFrom ⟨hwriter, hconn, rfl, rfl⟩ (k.run_cacheOk s.writer s.conn h) hmade

/-- A rejected call adds no row and changes none, and all that remains of it are the columns that
it created: whatever calls and commit passes follow, the same of them return and the database is the
same as if it had only created these. If all its fields were in the column cache already, it is as
if it had never been made. -/
theorem rejected_call_leaves_columns {D : Decisions} (flag : SQLWFlag)
    (columnMeta : Bytes → Bytes → Bytes) (db : Db) (evs : List Event) (k : Call)
    (hk : k.Rejected ((start D.engine flag columnMeta db).run evs).writer
      ((start D.engine flag columnMeta db).run evs).conn) :
    let s := (start D.engine flag columnMeta db).run evs
    (k.Readable s.writer.dMeta → Db.RowsKept s.conn.view (s.addCall k).conn.view) ∧
    (s.addCall k).SameFrom (s.makeColumns k) ∧
    ((∀ p ∈ k.values, s.writer.Lists k.table p.1) → (s.addCall k).SameFrom s) := by
  have h := reachable_cacheOk (E := D.engine) flag columnMeta db evs
  generalize (start D.engine flag columnMeta db).run evs = s at hk h
  refine ⟨hk.rowsKept h, s.rejected_sameFrom k h hk, fun hl => ?_⟩
  have hsame : s.makeColumns k = s := by
    unfold makeColumns
    rw [k.columnsMade_listed s.writer s.conn h.sorted hl]
  have hfuture := s.rejected_sameFrom k h hk
  rw [hsame] at hfuture
  exact hfuture

/-- A column that may not be null, in a table of two. -/
def notNullMeta (table name : Bytes) : Bytes :=
  if table = ascii "data" ∧ name = ascii "a" then ascii "NOT NULL" else []

instance {k : Call} {w : SQLiteWriter} {c : Conn E} : Decidable (k.Steady w c) :=
  inferInstanceAs (Decidable (∀ p ∈ k.trace w c, p.2.rollsBack p.1 = false))

instance {k : Call} {w : SQLiteWriter} {c : Conn E} : Decidable (k.Rejected w c) :=
  decidable_of_iff ((k.run w c).1.isOk = false ∧ (k.run w c).2.2.ran ≠ c.ran ∧ k.Steady w c)
    ⟨fun h => ⟨h.1, h.2.1, h.2.2⟩, fun h => ⟨h.1, h.2, h.3⟩⟩

/-- A row, and a second one that breaks the constraint. -/
theorem rejected_call_leaves_columns_notNull :
    let s := (start Reference.decisions.engine .noFlag notNullMeta Db.empty).run
      [.call ⟨ascii "data", [(ascii "a", .int32 1)], false⟩]
    (s.addCall ⟨ascii "data", [(ascii "a", .null)], false⟩).SameFrom s ∧
      Db.RowsKept s.conn.view (s.addCall ⟨ascii "data", [(ascii "a", .null)], false⟩).conn.view := by
  have hall := rejected_call_leaves_columns (D := Reference.decisions) .noFlag notNullMeta Db.empty
    [.call ⟨ascii "data", [(ascii "a", .int32 1)], false⟩]
    ⟨ascii "data", [(ascii "a", .null)], false⟩ (by decide +kernel)
  exact ⟨hall.2.2 (by decide +kernel), hall.1 (by decide +kernel)⟩

/-- The rejected call gives the column `b` its type: the text that a later call stores there is
refused, and is taken when the rejected call was never made. -/
theorem rejected_call_types_column :
    let s := (start Reference.engine .noFlag (fun _ _ => []) Db.empty).run
      [.call ⟨ascii "data", [(ascii "a", .int32 1)], false⟩]
    let k : Call := ⟨ascii "data", [(ascii "b", .int32 2), (ascii "a", .string (ascii "x"))], false⟩
    let later : Call := ⟨ascii "data", [(ascii "b", .string (ascii "y"))], false⟩
    k.Rejected s.writer s.conn ∧
      ((s.addCall k).run [.call later]).outcomes = (s.addCall k).outcomes ++ [(later, false)] ∧
      (s.run [.call later]).outcomes = s.outcomes ++ [(later, true)] := by
  decide +kernel

end Sys
end SqliteWrite
