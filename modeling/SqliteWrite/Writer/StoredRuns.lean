import SqliteWrite.Writer.Refinement

/-! Runs of a writer on a database of plain tables and the store of rows: the same calls return, and a
query for a table reads the rows of the store. -/
namespace SqliteWrite
open Method

/-- The calls among some critical sections. -/
def callsOf (evs : List Event) : List Call :=
  evs.filterMap fun ev => match ev with
    | .call k => some k
    | .poll => none

lemma foldl_update {α β : Type} (f : Bytes → α) (cells : List (Bytes × β)) (g : Bytes → Option α)
    (n : Bytes) : cells.foldl (fun (row : Bytes → Option α) c => Function.update row c.1 (some (f c.1))) g n =
      if n ∈ cells.map (·.1) then some (f n) else g n := by
  induction cells generalizing g with
  | nil => rfl
  | cons c cells ih =>
    rw [List.foldl_cons, ih]
    by_cases hmem : n ∈ cells.map (·.1)
    · rw [if_pos hmem, if_pos (by simp [hmem])]
    · rw [if_neg hmem]
      by_cases hn : n = c.1
      · rw [hn, Function.update_self, if_pos (by simp)]
      · rw [Function.update_of_ne hn, if_neg (by simpa [hn] using hmem)]

lemma Shelf.decode {s : Shelf} {t : Table} (hcols : t.columns.map (·.name) = s.columns.map (·.1))
    (hrows : t.rows = s.rows.map fun r => s.columns.map fun c => r c.1) :
    (t.rows.map t.cells).map decodeRow = s.read := by
  unfold Shelf.read
  rw [hrows, List.map_map, List.map_map]
  apply List.map_congr_left
  intro r _
  have hcells : t.cells (s.columns.map fun c => r c.1) = s.columns.map fun c => (c.1, r c.1) := by
    unfold Table.cells
    rw [hcols, List.zip_map']
  funext n
  simp only [Function.comp_apply, hcells, decodeRow, List.foldl_map, Shelf.shown]
  exact foldl_update (fun c => outvar (r c)) s.columns (fun _ => none) n

lemma Shelved.decode {s : Shelf} {db : Db} {table : Bytes} (h : Shelved s db table) {t : Table}
    (ho : db.own table = some t) : (t.rows.map t.cells).map decodeRow = s.read := by
  have hcols := h.columns
  have hrows := h.rows
  rw [Db.ownColumns_some ho] at hcols
  rw [Db.ownRows_some ho] at hrows
  apply Shelf.decode _ hrows
  rw [hcols, List.map_map]
  rfl

namespace SQLiteWriter
variable {D : Decisions} {ks : List Call} {σ : RowStore} {k : Call}

lemma queryT_selectText {table : Bytes} (hplain : PlainName table) (hdot : 46 ∉ table) (w : SQLiteWriter)
    {c : Conn D.engine} (hmain : Db.OnlyMain c.view) (hdeferred : D.deferred c.view = false) {t : Table}
    (ho : Db.own c.view table = some t) :
    ((queryT (selectText table) [] 0).invoke (Conn.answer D.engine) w c).1 =
      .ok ((t.rows.map t.cells).map decodeRow) := by
  have hresolve : Db.resolve c.view ⟨none, table⟩ = some t := by
    have hmeans := (hmain.unshadowed hdot).means.resolve ho
    rwa [tableRef_undotted hdot] at hmeans
  obtain ⟨hread, hparams⟩ := read_selectText hplain
  have hprepare : D.engine.prepare c.view (selectText table) = .ok () := by
    change D.prepare c.view _ = _
    unfold Decisions.prepare
    simp only [hread, hresolve]
  have hstep : D.engine.step c.view (selectText table) [] c.progress =
      ⟨t.rows.map t.cells, .done c.view⟩ := by
    change D.step c.view _ [] = _
    unfold Decisions.step
    simp only [hread, hresolve]
    rfl
  have hengine : D.engine.deferred c.view = false := hdeferred
  have hbinds : List.replicate (D.engine.params (selectText table)) Value.null = [] := by
    change List.replicate (Sql.params _) _ = _
    rw [hparams, List.replicate_zero]
  have hrows : (c.step (selectText table) [] true).1 = ⟨t.rows.map t.cells, none⟩ := by
    unfold Conn.step
    simp [hprepare, hstep, hengine]
  unfold queryT queryGen
  rw [invoke_bind, invoke_get]
  simp only [ne_eq, not_true_eq_false, false_and, if_false]
  rw [invoke_bind, invoke_onDb, MiniSQLite.invoke_prepare_ok _ _ _ (Sql.blank_of_read hread) hprepare, hbinds]
  simp only [bindQuery]
  rw [invoke_bind, invoke_pure]
  simp only
  rw [invoke_onDb, MiniSQLite.invoke_execPrep _ _ _ _ (s := ⟨selectText table, [], false⟩) (by simp)]
  simp only [hrows, MiniSQLite.stepRows, Bool.not_true, Bool.false_and, Bool.false_eq_true, if_false]

lemma queryT_stored (hdoc : D.Documented) (hp : Proper D ks) (hk : k ∈ ks) (w : SQLiteWriter)
    {c : Conn D.engine} (h : Stored ks σ c.view) (hne : (σ k.table).columns ≠ []) :
    ((queryT (selectText k.table) [] 0).invoke (Conn.answer D.engine) w c).1 =
      .ok (σ k.table).read := by
  obtain ⟨hplain, hdot⟩ := hp.tables k hk
  have hshelved := h.shelved k hk
  obtain ⟨col, hcol⟩ := List.exists_mem_of_ne_nil _ hne
  obtain ⟨col', hcol', -⟩ := hshelved.ownsName.mpr (List.mem_map_of_mem hcol)
  obtain ⟨t, ho, -⟩ := Db.own_of_mem hcol'
  rw [queryT_selectText hplain hdot w h.onlyMain (hdoc.deferred _ h.plain) ho, hshelved.decode ho]

end SQLiteWriter

namespace Sys
open SQLiteWriter
variable {D : Decisions} {ks : List Call} {σ₀ : RowStore}

/-- The process runs, the caches list what the tables have, and the database holds what the store
does after the calls so far. -/
structure Keeps (D : Decisions) (ks : List Call) (σ₀ : RowStore) (s : Sys D.engine) : Prop where
  running : s.crashed = false
  writable : s.writer.dFlag ≠ .readOnly
  transaction : s.writer.dFlag = .noFlag → s.conn.autocommit = false
  cacheOk : CacheOk D.engine s.writer
  dMeta : s.writer.dMeta = noMeta
  finds : ∀ k ∈ ks, ∀ c, Finds s.writer s.conn.view k.table c ↔ Db.OwnsName s.conn.view k.table c
  stored : Stored ks (σ₀.afterAll D.convert s.calls) s.conn.view
  results : s.history.map (·.2.isOk) = σ₀.results D.convert s.calls

lemma start_keeps {flag : SQLWFlag} (hflag : flag ≠ .readOnly) {db : Db} (hdb : Stored ks σ₀ db) :
    (start D.engine flag noMeta db).Keeps D ks σ₀ := by
  have hcache := start_cacheOk (E := D.engine) flag noMeta db
  rw [start_eq D.engine flag noMeta db] at hcache ⊢
  refine ⟨rfl, hflag, fun hf => ?_, hcache, rfl, fun k _ c => ?_, hdb, rfl⟩
  · have hno : flag = .noFlag := hf
    simp [hno]
  · simp [SQLiteWriter.blank, Finds]

lemma Keeps.wellSpelled {s : Sys D.engine} (h : s.Keeps D ks σ₀) (hp : Proper D ks) {k : Call}
    (hk : k ∈ ks) : WellSpelled noMeta k s.writer s.conn.view where
  table := (hp.tables k hk).1
  names := hp.names k hk
  metas _ _ := rfl
  unshadowed := h.stored.onlyMain.unshadowed (hp.tables k hk).2
  spelled n hn col hcol hf := by
    have hmay := h.stored.may k hk col.name ((h.stored.shelved k hk).ownsName.mp ⟨col, hcol, rfl⟩)
    obtain ⟨k', hk', ht, hn'⟩ := hmay
    exact hp.namesApart k' hk' k hk ht col.name hn' n hn hf
  alike m hm n hn := hp.namesApart k hk k hk rfl m hm n hn
  found _ _ := h.finds k hk _

lemma call_keeps (hdoc : D.Documented) (hp : Proper D ks) {s : Sys D.engine} (h : s.Keeps D ks σ₀)
    {k : Call} (hk : k ∈ ks) : (s.addCall k).Keeps D ks σ₀ := by
  have hs := h.wellSpelled hp hk
  have hstart : Midway D ks (σ₀.afterAll D.convert s.calls) k s.writer s.conn.view [] s.writer
      s.conn.view := by
    refine ⟨by simp, ?_, rfl, h.cacheOk, h.dMeta, hs.unshadowed, by simp, by simp, fun _ _ => rfl,
      fun _ _ => rfl, by simp⟩
    rw [RowStore.naming_nil]
    exact h.stored
  obtain ⟨hends, hsteady⟩ := (callConditions_stored hdoc hp hk hs h.writable).spec.invoke
    (fun _ => rfl) hstart fun _ _ => trivial
  have hfinished : Finished D ks (σ₀.afterAll D.convert s.calls) k s.writer s.conn.view
      (k.run s.writer s.conn).1.isOk (s.addCall k).writer (s.addCall k).conn.view := by
    change Finished D ks _ k _ _ (k.run s.writer s.conn).1.isOk (k.run s.writer s.conn).2.1
      (k.run s.writer s.conn).2.2.view
    change Ends _ _ ((k.run s.writer s.conn).1, (k.run s.writer s.conn).2.1)
      (k.run s.writer s.conn).2.2 at hends
    unfold Ends at hends
    cases hx : (k.run s.writer s.conn).1 <;> rw [hx] at hends <;> exact hends
  have hcalls : (s.addCall k).calls = s.calls ++ [k] := by simp [calls, addCall]
  have hloop := hfinished.spelled
  refine ⟨h.running, hloop.dFlag ▸ h.writable, ?_, hloop.cacheOk, hloop.dMeta, ?_, ?_, ?_⟩
  · intro hf
    have hauto := k.run_autocommit s.writer s.conn
    have hopen : ¬ (k.run s.writer s.conn).2.2.autocommit = true := by
      rw [hauto, not_or, not_not]
      exact ⟨by simp [h.transaction (hloop.dFlag.symm.trans hf)], hsteady⟩
    simpa [addCall] using hopen
  · intro k' hk' c
    by_cases ht : k'.table = k.table
    · rw [ht, hloop.finds, hloop.columns, h.finds k hk]
    · have hother : ¬ SamePlace k'.table k.table := fun hsame =>
        ht ((Stored.samePlace_iff hp hk hk').mp hsame)
      have hcols := hloop.otherTables _ hother
      have hlists := hloop.otherLists _ ht
      have howns : Db.OwnsName (s.addCall k).conn.view k'.table c ↔ Db.OwnsName s.conn.view k'.table c := by
        unfold Db.OwnsName
        rw [hcols]
      have hfinds : Finds (s.addCall k).writer (s.addCall k).conn.view k'.table c ↔
          Finds s.writer s.conn.view k'.table c := by
        simp only [Finds, SQLiteWriter.Lists, hlists, howns]
      rw [hfinds, howns, h.finds k' hk']
  · rw [hcalls, RowStore.afterAll_append]
    exact hfinished.stored
  · rw [hcalls, RowStore.results_append, ← h.results, ← hfinished.returns]
    simp [addCall]

lemma poll_keeps (hdoc : D.Documented) {s : Sys D.engine} (h : s.Keeps D ks σ₀)
    (hf : s.writer.dFlag = .noFlag) : s.commitThread.Keeps D ks σ₀ := by
  have hdeferred : D.engine.deferred s.conn.view = false := hdoc.deferred _ h.stored.plain
  rw [commitThread_eq, if_pos (show _ ∧ _ from ⟨h.transaction hf, hdeferred⟩)]
  split_ifs
  · exact ⟨rfl, h.writable, h.transaction, h.cacheOk, h.dMeta, h.finds, h.stored, h.results⟩
  · exact ⟨h.running, h.writable, h.transaction, h.cacheOk, h.dMeta, h.finds, h.stored, h.results⟩

theorem run_keeps (hdoc : D.Documented) (hp : Proper D ks) (s : Sys D.engine) (evs : List Event)
    (h : s.Keeps D ks σ₀) (hks : ∀ k ∈ callsOf evs, k ∈ ks) :
    (s.run evs).Keeps D ks σ₀ ∧ (s.run evs).calls = s.calls ++ callsOf evs := by
  induction evs generalizing s with
  | nil => exact ⟨h, by simp [callsOf]⟩
  | cons ev evs ih =>
    have hstep : (s.step ev).Keeps D ks σ₀ ∧ (s.step ev).calls = s.calls ++ callsOf [ev] := by
      unfold step
      rw [if_neg (by simp [h.running])]
      cases ev with
      | call k => exact ⟨call_keeps hdoc hp h (hks k (by simp [callsOf])), by simp [calls, addCall, callsOf]⟩
      | poll =>
        simp only
        split_ifs with hf
        · refine ⟨poll_keeps hdoc h hf, ?_⟩
          rw [commitThread_eq]
          split_ifs <;> simp [calls, callsOf]
        · exact ⟨h, by simp [callsOf]⟩
    have hcons : callsOf (ev :: evs) = callsOf [ev] ++ callsOf evs := by
      cases ev <;> simp [callsOf]
    rw [hcons] at hks ⊢
    obtain ⟨hrun, hcalls⟩ := ih (s.step ev) hstep.1 fun k hk => hks k (List.mem_append_right _ hk)
    exact ⟨hrun, by rw [run_cons, hcalls, hstep.2, List.append_assoc]⟩

lemma started_keeps (hdoc : D.Documented) {flag : SQLWFlag} (hflag : flag ≠ .readOnly) (hp : Proper D ks)
    {db : Db} (hdb : Stored ks σ₀ db) (evs : List Event) (hks : ∀ k ∈ callsOf evs, k ∈ ks) :
    ((start D.engine flag noMeta db).run evs).Keeps D ks σ₀ ∧
      ((start D.engine flag noMeta db).run evs).calls = callsOf evs := by
  obtain ⟨hkeeps, hcalls⟩ := run_keeps hdoc hp _ evs (start_keeps hflag hdb) hks
  have hnone : calls (start D.engine flag noMeta db) = [] :=
    congrArg calls (start_eq D.engine flag noMeta db)
  rw [hnone, List.nil_append] at hcalls
  exact ⟨hkeeps, hcalls⟩

lemma stored_empty : Stored ks RowStore.empty Db.empty :=
  ⟨Db.plain_empty, fun _ _ _ => rfl, fun _ _ => ⟨rfl, rfl⟩, fun _ _ _ hn => nomatch hn⟩

/-- The writer refines the store of rows. After every run of calls with proper names and values on
an empty database, the calls that returned are those that the store takes, and the query for all
rows of a table reads one row for each of them, in their order: under every column of the table
the value that the call supplied, converted to the type of the first value under that name, and
`NULL` where it supplied none. -/
theorem refines_row_store (hdoc : D.Documented) {flag : SQLWFlag} (hflag : flag ≠ .readOnly)
    (evs : List Event) (hp : Proper D (callsOf evs)) :
    ((start D.engine flag noMeta Db.empty).run evs).crashed = false ∧
    ((start D.engine flag noMeta Db.empty).run evs).calls = callsOf evs ∧
    ((start D.engine flag noMeta Db.empty).run evs).history.map (·.2.isOk) =
      RowStore.results D.convert RowStore.empty (callsOf evs) ∧
    ∀ k ∈ callsOf evs, k.values ≠ [] →
      ((queryT (selectText k.table) [] 0).invoke (Conn.answer D.engine)
        ((start D.engine flag noMeta Db.empty).run evs).writer
        ((start D.engine flag noMeta Db.empty).run evs).conn).1 =
      .ok ((RowStore.returned D.convert (callsOf evs) k.table).map fun k' =>
        (RowStore.after D.convert (callsOf evs) k.table).shown
          ((RowStore.after D.convert (callsOf evs) k.table).row D.convert k'.values)) := by
  obtain ⟨hkeeps, hcalls⟩ := started_keeps hdoc hflag hp stored_empty evs fun _ hk => hk
  refine ⟨hkeeps.running, hcalls, hcalls ▸ hkeeps.results, fun k hk hne => ?_⟩
  obtain ⟨p, hmem⟩ := List.exists_mem_of_ne_nil _ hne
  have hstored : Stored (callsOf evs) (RowStore.after D.convert (callsOf evs)) _ := hcalls ▸ hkeeps.stored
  have hcolumns : (RowStore.after D.convert (callsOf evs) k.table).columns ≠ [] := by
    have hnamed := Shelf.type?_isSome.mp (RowStore.named_after D.convert hk hmem)
    exact fun hnil => by simp [hnil] at hnamed
  rw [queryT_stored hdoc hp hk _ hstored hcolumns, Shelf.read, RowStore.rows_after, List.map_map]
  rfl

/-- Calls on two tables: one with a new column, one without fields, and one with a value that its
column does not take. -/
def mixedCalls : List Event :=
  [.call ⟨ascii "t", [(ascii "a", .int32 1)], false⟩, .poll,
    .call ⟨ascii "t", [(ascii "b", .string (ascii "x")), (ascii "a", .uint32 7)], true⟩,
    .call ⟨ascii "u", [], false⟩, .call ⟨ascii "u", [(ascii "a", .blob [])], false⟩,
    .call ⟨ascii "t", [(ascii "c", .null), (ascii "a", .string (ascii "y"))], false⟩]

theorem refines_row_store_mixedCalls :
    RowStore.results Reference.decisions.convert RowStore.empty (callsOf mixedCalls) =
      [true, true, false, true, false] ∧
    ((start Reference.decisions.engine .noFlag noMeta Db.empty).run mixedCalls).history.map (·.2.isOk) =
      [true, true, false, true, false] := by
  have hproper : Proper Reference.decisions (callsOf mixedCalls) := by
    refine ⟨?_, ?_, ?_, ?_, ?_, ?_, Reference.decisions_takes _⟩ <;> decide +kernel
  have hresults : RowStore.results Reference.decisions.convert RowStore.empty (callsOf mixedCalls) =
      [true, true, false, true, false] := by decide +kernel
  obtain ⟨-, -, hhistory, -⟩ := refines_row_store Reference.decisions_documented
    (show SQLWFlag.noFlag ≠ .readOnly by decide) mixedCalls hproper
  exact ⟨hresults, hhistory.trans hresults⟩

/-- A supplied number that is not one is read back as `NULL`. -/
theorem nan_reads_null :
    let s := (start Reference.engine .noFlag noMeta Db.empty).run
      [.call ⟨ascii "t", [(ascii "a", .double 0x7ff8000000000000)], false⟩]
    s.AllReturned ∧
    ((queryT (selectText (ascii "t")) [] 0).invoke (Conn.answer Reference.engine) s.writer s.conn).1.map
      (·.map (· (ascii "a"))) = .ok [some .null] := by
  decide +kernel

end Sys
end SqliteWrite
