import SqliteWrite.Writer.ColumnRules
import SqliteWrite.Writer.Transactions

/-! The column cache after a failure: a listed column exists as long as no statement is answered by
rolling back a table or a column that the writer has used since the last commit. -/
namespace SqliteWrite
open Method

namespace Db
variable {db db' : Db} {table : Bytes}

/-- A name without a schema is not taken by a temporary table. -/
def Untaken (db : Db) (table : Bytes) : Prop :=
  (tableRef table).schema = none → db.tables tempSchema (nameKey table) = none

instance decidableUntaken (db : Db) (table : Bytes) : Decidable (db.Untaken table) :=
  inferInstanceAs (Decidable ((tableRef table).schema = none → _ = none))

/-- The columns of a table are there in another database too, where its name means the same. -/
structure KeptIn (db db' : Db) (table : Bytes) : Prop where
  columns : ∀ col ∈ db.ownColumns table, ∃ col' ∈ db'.ownColumns table, col'.name = col.name
  untaken : db.Untaken table → db'.Untaken table

instance decidableKeptIn (db db' : Db) (table : Bytes) : Decidable (db.KeptIn db' table) :=
  decidable_of_iff ((∀ col ∈ db.ownColumns table, ∃ col' ∈ db'.ownColumns table, col'.name = col.name) ∧
    (db.Untaken table → db'.Untaken table)) ⟨fun h => ⟨h.1, h.2⟩, fun h => ⟨h.1, h.2⟩⟩

lemma Untaken.means (h : db.Untaken table) : db.Means table := by
  intro t ho
  unfold Db.find
  cases hs : (tableRef table).schema with
  | some s =>
    have hl : db.lookup s (tableRef table).name = some t := by
      simpa [own, schemaKey, nameKey, hs, lookup] using ho
    simp [hl, schemaKey, hs]
  | none =>
    have hmain : fold mainSchema = mainSchema := by decide
    have htemp : db.tables tempSchema (fold (tableRef table).name) = none := h hs
    have hown : db.tables mainSchema (fold (tableRef table).name) = some t := by
      simpa [own, schemaKey, nameKey, hs, hmain] using ho
    simp [searchOrder, htemp, hown, schemaKey, hs, hmain]

lemma keptIn_setRows (f : Bytes → Bytes → List (List Value)) (u : Bytes) : db.KeptIn (db.setRows f) u := by
  constructor
  · intro col hcol
    obtain ⟨t, ho, hc⟩ := own_of_mem hcol
    refine ⟨col, ?_, rfl⟩
    have ho' : (db.setRows f).own u = some { t with rows := f (schemaKey u) (nameKey u) } := by
      change ((db.own u).map _) = _
      rw [ho]
      rfl
    rw [ownColumns_some ho']
    exact hc
  · intro h hs
    simp [setRows, h hs]

lemma keptIn_put {t : Table} {u : Bytes}
    (hcols : ∀ col ∈ db.ownColumns table, ∃ col' ∈ t.columns, col'.name = col.name)
    (hu : (tableRef u).schema = none → ¬ (schemaKey table = tempSchema ∧ nameKey table = nameKey u)) :
    db.KeptIn (db.put ((tableRef table).schema.getD mainSchema) (tableRef table).name t) u := by
  constructor
  · intro col hcol
    by_cases hp : SamePlace u table
    · rw [ownColumns_some (own_put_same t hp)]
      have hsame : db.ownColumns u = db.ownColumns table := by
        simp only [ownColumns, own, hp.1, hp.2]
      exact hcols col (hsame ▸ hcol)
    · refine ⟨col, ?_, rfl⟩
      simpa only [ownColumns, own_put_other t hp] using hcol
  · intro h hs
    have hne := hu hs
    simp only [put]
    change Function.update db.tables (schemaKey table) _ _ _ = none
    by_cases hsch : tempSchema = schemaKey table
    · have hn : nameKey u ≠ nameKey table := fun hn => hne ⟨hsch.symm, hn.symm⟩
      rw [hsch, Function.update_self]
      change Function.update (db.tables (schemaKey table)) (nameKey table) _ _ = none
      rw [Function.update_of_ne hn, ← hsch]
      exact h hs
    · rw [Function.update_of_ne hsch]
      exact h hs

end Db

/-- The table and the columns of a request are there: a statement compiles, and a column is added
to a table that is found. -/
def Meets {D : Decisions} (c : Conn D.engine) : Request → Prop
  | .exec sql => ∀ ref col, Sql.read sql = some (.addColumn ref col) → c.view.resolve ref ≠ none
  | .prepare sql | .step sql _ _ => D.engine.prepare c.view sql = .ok ()
  | _ => True

namespace SQLiteWriter
variable {D : Decisions}

/-- The column cache is right about the tables in use. -/
structure ListedOk (used : List Bytes) (w : SQLiteWriter) (db : Db) : Prop where
  inUse : ∀ table name, w.Lists table name → table ∈ used
  present : ∀ table name, w.Lists table name → ∃ col ∈ db.ownColumns table, col.name = name
  untaken : ∀ table ∈ used, db.Untaken table

variable {used : List Bytes} {w : SQLiteWriter} {db db' : Db} {table : Bytes}

lemma ListedOk.hasColumn (h : ListedOk used w db) {name : Bytes} (hl : w.Lists table name) :
    ∃ t, db.own table = some t ∧ db.resolve (tableRef table) = some t ∧ t.Has name := by
  obtain ⟨col, hcol, rfl⟩ := h.present _ _ hl
  obtain ⟨t, ho, hc⟩ := Db.own_of_mem hcol
  exact ⟨t, ho, (h.untaken _ (h.inUse _ _ hl)).means.resolve ho, col, hc, rfl⟩

lemma ListedOk.kept (h : ListedOk used w db) (hk : ∀ t ∈ used, db.KeptIn db' t) :
    ListedOk used w db' := by
  refine ⟨h.inUse, fun t n hl => ?_, fun t ht => (hk t ht).untaken (h.untaken t ht)⟩
  obtain ⟨col, hcol, rfl⟩ := h.present t n hl
  exact (hk t (h.inUse t _ hl)).columns col hcol

lemma ListedOk.same {v : SQLiteWriter} (h : ListedOk used w db) (hv : v.dColumns = w.dColumns) :
    ListedOk used v db :=
  ⟨fun t n hl => h.inUse t n ((lists_congr hv).mp hl),
    fun t n hl => h.present t n ((lists_congr hv).mp hl), h.untaken⟩

lemma ListedOk.setColumns (h : ListedOk used w db) (ht : table ∈ used) {cols : List (Bytes × Bytes)}
    (hc : ∀ p ∈ cols, ∃ col ∈ db.ownColumns table, col.name = p.1) :
    ListedOk used (w.setColumns table cols) db := by
  refine ⟨fun t n hl => ?_, fun t n hl => ?_, h.untaken⟩
  all_goals
    rw [lists_setColumns] at hl
    split_ifs at hl with htt
  · exact htt ▸ ht
  · exact h.inUse t n hl
  · obtain ⟨p, hp, rfl⟩ := hl
    exact htt ▸ hc p hp
  · exact h.present t n hl

lemma ListedOk.withColumn (h : ListedOk used w db) (ht : table ∈ used) {p : Bytes × VarT}
    (hc : ∃ col ∈ db.ownColumns table, col.name = p.1) : ListedOk used (w.withColumn table p) db := by
  refine ⟨fun t n hl => ?_, fun t n hl => ?_, h.untaken⟩
  all_goals rcases lists_withColumn.mp hl with hl | ⟨rfl, rfl⟩
  · exact h.inUse t n hl
  · exact ht
  · exact h.present t n hl
  · exact hc

lemma listed_withColumn {p : Bytes × VarT} {done : List Bytes} (h : ∀ n ∈ done, w.Lists table n) :
    ∀ n ∈ done ++ [p.1], (w.withColumn table p).Lists table n := by
  intro n hn
  rw [lists_withColumn]
  rcases List.mem_append.mp hn with hn | hn
  · exact Or.inl (h n hn)
  · exact Or.inr ⟨rfl, (List.mem_singleton.mp hn).symm⟩

/-- What holds in the column loop of a call on `table` after the fields `done`. -/
structure LoopOk (D : Decisions) (columnMeta : Bytes → Bytes → Bytes) (used : List Bytes)
    (table : Bytes) (done : List Bytes) (w : SQLiteWriter) (db : Db) : Prop where
  writable : w.dFlag ≠ .readOnly
  cacheOk : CacheOk D.engine w
  dMeta : w.dMeta = columnMeta
  listed : ListedOk used w db
  done : ∀ n ∈ done, w.Lists table n

variable {columnMeta : Bytes → Bytes → Bytes} {done : List Bytes}

lemma LoopOk.kept (h : LoopOk D columnMeta used table done w db)
    (hk : ∀ t ∈ used, db.KeptIn db' t) : LoopOk D columnMeta used table done w db' :=
  ⟨h.writable, h.cacheOk, h.dMeta, h.listed.kept hk, h.done⟩

lemma LoopOk.undone (h : LoopOk D columnMeta used table done w db) :
    LoopOk D columnMeta used table [] w db :=
  ⟨h.writable, h.cacheOk, h.dMeta, h.listed, by simp⟩

lemma settled_loopOk : Settled D.engine (LoopOk D columnMeta used table done) := by
  intro w v db h hr
  exact ⟨hr.dFlag ▸ h.writable, hr.cacheOk, hr.dMeta.trans h.dMeta, h.listed.same hr.dColumns,
    fun n hn => (lists_congr hr.dColumns).mpr (h.done n hn)⟩

/-- Nobody else changes the database, and a rollback costs no column of the tables in use. -/
def soundly (D : Decisions) (used : List Bytes) (k : Call) : Around Request (Conn D.engine) where
  rely := Eq
  assume := fun q c => c.rollsBack q = true → ∀ t ∈ used, c.view.KeptIn c.committed t
  guarantee := fun q c => k.values ≠ [] → Meets c q

/-- A call that is read as it is meant and whose table takes no name that was used without a
schema. -/
structure Named (columnMeta : Bytes → Bytes → Bytes) (used : List Bytes) (k : Call) : Prop
    extends k.Readable columnMeta where
  apart : ∀ t ∈ used, (tableRef t).schema = none →
    ¬ (schemaKey k.table = Db.tempSchema ∧ nameKey k.table = nameKey t)

instance (used : List Bytes) (k : Call) : Decidable (Named columnMeta used k) :=
  decidable_of_iff (k.Readable columnMeta ∧ ∀ t ∈ used, (tableRef t).schema = none →
      ¬ (schemaKey k.table = Db.tempSchema ∧ nameKey k.table = nameKey t))
    ⟨fun h => ⟨h.1, h.2⟩, fun h => ⟨h.1, h.2⟩⟩

variable {k : Call}

lemma search_sound (hk : Named columnMeta used k) (ht : k.table ∈ used) (done : List Bytes)
    (name : Bytes) : Spec (Conn.answer D.engine) (soundly D used k)
      (fun w s => LoopOk D columnMeta used k.table done w s.view) (haveColumn k.table name)
      (fun known w s => if known = true then LoopOk D columnMeta used k.table (done ++ [name]) w s.view
        else LoopOk D columnMeta used k.table done w s.view)
      (fun _ w s => LoopOk D columnMeta used k.table [] w s.view) := by
  have hfound : ∀ w db, LoopOk D columnMeta used k.table done w db →
      (w.Lists k.table name → LoopOk D columnMeta used k.table (done ++ [name]) w db) ∧
      (¬ w.Lists k.table name → LoopOk D columnMeta used k.table done w db) := by
    refine fun w db h => ⟨fun hl => ⟨h.writable, h.cacheOk, h.dMeta, h.listed, ?_⟩, fun _ => h⟩
    simpa [or_imp, forall_and] using ⟨h.done, hl⟩
  refine spec_haveColumn hk.table (fun w db h => h.cacheOk.sorted) (fun w db h _ => hfound w db h) ?_
  intro w s s' h hnil hs _
  obtain rfl : s = s' := hs
  refine ⟨fun _ ref col hread => ?_, fun _ => h.undone, fun _ => hfound _ _ ?_⟩
  · rw [read_schemaText hk.table] at hread
    cases hread
  · refine ⟨h.writable, h.cacheOk.setColumns hnil (sortByFirst_sorted _), h.dMeta,
      h.listed.setColumns ht ?_, fun n hn => ?_⟩
    · intro p hp
      simp only [columnsOf, mem_sortByFirst, List.mem_map] at hp
      obtain ⟨col, hcol, rfl⟩ := hp
      exact ⟨col, hcol, rfl⟩
    · obtain ⟨p, hp, -⟩ := h.done n hn
      rw [hnil] at hp
      cases hp

lemma LoopOk.defined (hk : Named columnMeta used k) (ht : k.table ∈ used) {p : Bytes × VarT}
    {t : Table} (h : LoopOk D columnMeta used k.table done w db)
    (hcols : ∀ col ∈ db.ownColumns k.table, col ∈ t.columns) (hp : ∃ col ∈ t.columns, col.name = p.1) :
    LoopOk D columnMeta used k.table (done ++ [p.1]) (w.withColumn k.table p)
      (db.put ((tableRef k.table).schema.getD Db.mainSchema) (tableRef k.table).name t) := by
  have hkept : ∀ u ∈ used, db.KeptIn
      (db.put ((tableRef k.table).schema.getD Db.mainSchema) (tableRef k.table).name t) u :=
    fun u hu => Db.keptIn_put (fun col hcol => ⟨col, hcols col hcol, rfl⟩) (hk.apart u hu)
  refine ⟨h.writable, h.cacheOk.withColumn p, h.dMeta,
    (h.listed.kept hkept).withColumn ht ?_, listed_withColumn h.done⟩
  rw [Db.ownColumns_some (Db.own_put_self t)]
  exact hp

lemma create_sound (hk : Named columnMeta used k) (ht : k.table ∈ used) (done : List Bytes)
    {p : Bytes × VarT} (hp : p ∈ k.values) : Spec (Conn.answer D.engine) (soundly D used k)
      (fun w s => LoopOk D columnMeta used k.table done w s.view) (createColumn k.table p)
      (fun _ w s => LoopOk D columnMeta used k.table (done ++ [p.1]) w s.view)
      (fun _ w s => LoopOk D columnMeta used k.table [] w s.view) := by
  have hname : p.1 ∈ k.names := List.mem_map_of_mem hp
  obtain ⟨xs, hxs⟩ := Option.isSome_iff_exists.mp (hk.metas p.1 hname)
  refine spec_createColumn (J := fun known w db => LoopOk D columnMeta used k.table done w db ∧
    known = (db.own k.table).isSome) hk.table (hk.names _ hname)
    (fun w db h => h.dMeta ▸ hxs) ?_ ?_
  · intro w s s' h hs _
    obtain rfl : s = s' := hs
    refine ⟨fun _ ref col hread => ?_, fun _ => h.undone, fun _ => ⟨h, rfl⟩⟩
    rw [read_schemaText hk.table] at hread
    cases hread
  · rintro known w s s' ⟨h, hknown⟩ hs ha
    obtain rfl : s = s' := hs
    have hmeta : Sql.constraints (w.dMeta k.table p.1) = some xs := h.dMeta ▸ hxs
    have hmeans := (h.listed.untaken _ ht).means
    refine ⟨fun _ ref col hread => ?_, fun r hr => ?_⟩
    · -- A column is added only when the table was found.
      cases known with
      | false =>
        change Sql.read (createText _ _ _ _) = _ at hread
        rw [read_createText hk.table (hk.names _ hname) hmeta] at hread
        cases hread
      | true =>
        change Sql.read (alterText _ _ _ _) = _ at hread
        rw [read_alterText hk.table (hk.names _ hname) hmeta] at hread
        cases hread
        obtain ⟨t, ho⟩ := Option.isSome_iff_exists.mp hknown.symm
        exact fun hnone => Option.some_ne_none t ((hmeans.resolve ho).symm.trans hnone)
    · cases hr with
      | taken c' htaken _ =>
        obtain ⟨t, u, hv, hcols, -⟩ := htaken.cases hmeans hknown
        simp only [hv]
        exact h.defined hk ht (fun col hcol => hcols ▸ List.mem_append_left _ hcol)
          ⟨_, hcols ▸ List.mem_append_right _ (List.mem_singleton_self _), rfl⟩
      | failed x c' _ hv =>
        rcases hv with hv | ⟨hv, hroll⟩
        · simp only [hv]
          exact h.undone
        · simp only [hv]
          exact h.undone.kept (ha hroll)

lemma LoopOk.compiles (hk : Named columnMeta used k) (h : LoopOk D columnMeta used k.table k.names w db)
    (hne : k.values ≠ []) : D.engine.prepare db (insertText k.replace k.table k.names) = .ok () := by
  rw [prepare_insertText k.replace hk.table hk.names]
  have hns : k.names ≠ [] := by simpa [Call.names] using hne
  obtain ⟨n, hn⟩ := List.exists_mem_of_ne_nil _ hns
  obtain ⟨t, ho, hr, -⟩ := h.listed.hasColumn (h.done n hn)
  refine compileInsert_ok hns hr fun n' hn' => ?_
  obtain ⟨t', ho', -, hhas⟩ := h.listed.hasColumn (h.done n' hn')
  rw [ho] at ho'
  cases ho'
  exact hhas

/-- A call whose rollbacks cost nothing keeps the column cache right, however it ends, and finds
its table and its columns. -/
theorem callConditions_sound (hk : Named columnMeta used k) (ht : k.table ∈ used) :
    CallConditions D.engine (soundly D used k) k.table k.values k.replace
      (LoopOk D columnMeta used k.table) (fun done _ => LoopOk D columnMeta used k.table done)
      (LoopOk D columnMeta used k.table []) (LoopOk D columnMeta used k.table []) where
  writable _ _ _ h := h.writable
  cacheOk _ _ _ h := h.cacheOk
  listed _ _ h p hp := h.done p.1 (List.mem_map_of_mem hp)
  cached w db h hl := by
    refine ⟨h.writable, h.cacheOk, h.dMeta, h.listed, fun n hn => ?_⟩
    obtain ⟨p, hp, rfl⟩ := List.mem_map.mp hn
    exact hl p hp
  stable w s s' h hs := by
    obtain rfl : s = s' := hs
    exact h
  settled := settled_loopOk
  settledPost := settled_loopOk
  settledF := settled_loopOk
  search done p _ := search_sound hk ht done p.1
  create done p hp := create_sound hk ht done hp
  compile w s h _ := ⟨h.compiles hk, fun _ _ => h.undone⟩
  bindGuarantee _ _ _ := trivial
  bindFails _ _ _ h _ := h.undone
  step vs w s _ _ h ha := by
    refine ⟨h.compiles hk, ?_⟩
    exact stepped_insertText s (P := fun db => LoopOk D columnMeta used k.table [] w db)
      (Q := fun db => LoopOk D columnMeta used k.table [] w db) hk.table hk.names
      (fun f _ => h.undone.kept fun u _ => Db.keptIn_setRows f u) h.undone
      fun hroll => h.undone.kept (ha hroll)

end SQLiteWriter

namespace Sys
open SQLiteWriter
variable {D : Decisions} {columnMeta : Bytes → Bytes → Bytes}

/-- The spellings of the tables of all calls so far. -/
def used {E : Engine} (s : Sys E) : List Bytes := s.history.map (·.1.table)

/-- A call whose texts say what they should, whose table is not hidden by a temporary one, and in
which SQLite rolls back no schema change of a table in use. -/
structure SoundCall (s : Sys D.engine) (k : Call) : Prop where
  named : Named s.writer.dMeta (s.used ++ [k.table]) k
  untaken : Db.Untaken s.conn.view k.table
  kept : ∀ p ∈ k.trace s.writer s.conn, p.2.rollsBack p.1 = true →
    ∀ t ∈ s.used ++ [k.table], Db.KeptIn p.2.view p.2.committed t

instance (s : Sys D.engine) (k : Call) : Decidable (s.SoundCall k) :=
  have := fun (c : Conn D.engine) t => Db.decidableKeptIn c.view c.committed t
  have := Db.decidableUntaken s.conn.view k.table
  decidable_of_iff (Named s.writer.dMeta (s.used ++ [k.table]) k ∧ Db.Untaken s.conn.view k.table ∧
    ∀ p ∈ k.trace s.writer s.conn, p.2.rollsBack p.1 = true →
      ∀ t ∈ s.used ++ [k.table], Db.KeptIn p.2.view p.2.committed t)
    ⟨fun h => ⟨h.1, h.2.1, h.2.2⟩, fun h => ⟨h.1, h.2, h.3⟩⟩

def Sound (s : Sys D.engine) : Event → Prop
  | .call k => s.SoundCall k
  | .poll => True

instance (s : Sys D.engine) : (ev : Event) → Decidable (s.Sound ev)
  | .call k => inferInstanceAs (Decidable (s.SoundCall k))
  | .poll => inferInstanceAs (Decidable True)

def SoundRun : Sys D.engine → List Event → Prop
  | _, [] => True
  | s, ev :: evs => s.Sound ev ∧ (s.step ev).SoundRun evs

instance decidableSoundRun : (evs : List Event) → (s : Sys D.engine) → Decidable (s.SoundRun evs)
  | [], _ => inferInstanceAs (Decidable True)
  | ev :: evs, s =>
    have := decidableSoundRun evs (s.step ev)
    inferInstanceAs (Decidable (s.Sound ev ∧ (s.step ev).SoundRun evs))

/-- The invariant between two critical sections. -/
structure ColumnsOk (columnMeta : Bytes → Bytes → Bytes) (s : Sys D.engine) : Prop where
  writable : s.writer.dFlag ≠ .readOnly
  cacheOk : CacheOk D.engine s.writer
  dMeta : s.writer.dMeta = columnMeta
  listed : ListedOk s.used s.writer s.conn.view

lemma start_columnsOk (flag : SQLWFlag) (hflag : flag ≠ .readOnly) (db : Db) :
    (start D.engine flag columnMeta db).ColumnsOk columnMeta := by
  have hcache := start_cacheOk (E := D.engine) flag columnMeta db
  rw [start_eq D.engine flag columnMeta db] at hcache ⊢
  refine ⟨hflag, hcache, rfl, ?_, ?_, ?_⟩
  · rintro t n ⟨p, hp, -⟩
    cases hp
  · rintro t n ⟨p, hp, -⟩
    cases hp
  · rintro t ht
    cases ht

lemma ColumnsOk.loopOk {s : Sys D.engine} (h : s.ColumnsOk columnMeta) {k : Call}
    (hk : s.SoundCall k) :
    LoopOk D columnMeta (s.used ++ [k.table]) k.table [] s.writer s.conn.view := by
  refine ⟨h.writable, h.cacheOk, h.dMeta, ⟨fun t n hl => ?_, h.listed.present, fun t ht => ?_⟩, by simp⟩
  · exact List.mem_append_left _ (h.listed.inUse t n hl)
  · rcases List.mem_append.mp ht with ht | ht
    · exact h.listed.untaken t ht
    · exact List.mem_singleton.mp ht ▸ hk.untaken

lemma call_columnsOk {s : Sys D.engine} (h : s.ColumnsOk columnMeta) {k : Call} (hk : s.SoundCall k) :
    (s.addCall k).ColumnsOk columnMeta ∧
      ∀ p ∈ k.trace s.writer s.conn, k.values ≠ [] → Meets p.2 p.1 := by
  have hused : k.table ∈ s.used ++ [k.table] := by simp
  have hspec := (callConditions_sound (D := D) (h.dMeta ▸ hk.named) hused).spec
  obtain ⟨hends, hmeets⟩ := hspec.invoke (fun _ => rfl) (h.loopOk hk) hk.kept
  have hafter : LoopOk D columnMeta (s.used ++ [k.table]) k.table [] (s.addCall k).writer
      (s.addCall k).conn.view := Ends.final hends
  refine ⟨⟨hafter.writable, hafter.cacheOk, hafter.dMeta, ?_⟩, hmeets⟩
  have hhistory : (s.addCall k).used = s.used ++ [k.table] := by simp [used, addCall]
  rw [hhistory]
  exact hafter.listed

lemma step_columnsOk (s : Sys D.engine) (ev : Event) (h : s.ColumnsOk columnMeta) (hev : s.Sound ev) :
    (s.step ev).ColumnsOk columnMeta := by
  unfold step
  by_cases hc : s.crashed = true
  · rw [if_pos hc]
    exact h
  rw [if_neg hc]
  cases ev with
  | call k => exact (call_columnsOk h hev).1
  | poll =>
    simp only [commitThread_eq]
    split_ifs <;> exact ⟨h.writable, h.cacheOk, h.dMeta, h.listed⟩

theorem run_columnsOk (s : Sys D.engine) (evs : List Event) (h : s.ColumnsOk columnMeta)
    (hs : s.SoundRun evs) : (s.run evs).ColumnsOk columnMeta := by
  induction evs generalizing s with
  | nil => exact h
  | cons ev evs ih => exact ih (s.step ev) (step_columnsOk s ev h hs.1) hs.2

lemma SoundRun.prefix {s : Sys D.engine} {evs evs' : List Event} (h : s.SoundRun (evs ++ evs')) :
    s.SoundRun evs := by
  induction evs generalizing s with
  | nil => trivial
  | cons ev evs ih => exact ⟨h.1, ih h.2⟩

/-- In every state of a run in which no statement is answered by rolling back a schema change of a
table in use, each listed column exists in the table that SQLite finds; so a further call with any
fields finds its table and its columns, or creates them. -/
theorem listed_columns_exist (columnMeta : Bytes → Bytes → Bytes) (db : Db) (evs : List Event)
    (h : (start D.engine .noFlag columnMeta db).SoundRun evs) :
    ∀ evs', evs' <+: evs →
      (∀ table name, ((start D.engine .noFlag columnMeta db).run evs').writer.Lists table name →
        Db.HasColumn ((start D.engine .noFlag columnMeta db).run evs').conn.view table name) ∧
      ∀ k, ((start D.engine .noFlag columnMeta db).run evs').SoundCall k → k.values ≠ [] →
        ∀ p ∈ k.trace ((start D.engine .noFlag columnMeta db).run evs').writer
          ((start D.engine .noFlag columnMeta db).run evs').conn, Meets p.2 p.1 := by
  rintro evs' ⟨evs'', rfl⟩
  have hok := run_columnsOk _ evs' (start_columnsOk .noFlag (by decide) db) h.prefix
  refine ⟨fun table name hl => ?_, fun k hk hne p hp => (call_columnsOk hok hk).2 p hp hne⟩
  obtain ⟨t, -, hr, hhas⟩ := hok.listed.hasColumn hl
  exact ⟨t, hr, hhas⟩

/-- A row, a tick, a row that is rolled back, and one more row. -/
def recoveredRun : List Event :=
  [.call ⟨ascii "data", [(ascii "a", .int32 1)], false⟩, .poll,
    .call ⟨ascii "data", [(ascii "a", .null)], false⟩,
    .call ⟨ascii "data", [(ascii "a", .int32 2), (ascii "b", .int32 3)], false⟩]

theorem listed_columns_exist_recoveredRun :
    (start Reference.decisions.engine .noFlag conflictMeta Db.empty).SoundRun recoveredRun ∧
    ∀ evs', evs' <+: recoveredRun →
      ∀ table name, ((start Reference.decisions.engine .noFlag conflictMeta Db.empty).run
        evs').writer.Lists table name →
        Db.HasColumn ((start Reference.decisions.engine .noFlag conflictMeta Db.empty).run
          evs').conn.view table name := by
  have hsound : (start Reference.decisions.engine .noFlag conflictMeta Db.empty).SoundRun
      recoveredRun := by decide +kernel
  exact ⟨hsound, fun evs' hevs =>
    (listed_columns_exist (D := Reference.decisions) conflictMeta Db.empty recoveredRun hsound
      evs' hevs).1⟩

/-- Without the tick the rollback undoes the table too; its column stays listed, and a later call
with that column alone does not create it again. -/
theorem rollback_loses_listed_column :
    let s := (start Reference.engine .noFlag conflictMeta Db.empty).run
      [.call ⟨ascii "data", [(ascii "a", .int32 1)], false⟩,
        .call ⟨ascii "data", [(ascii "a", .null)], false⟩]
    s.writer.Lists (ascii "data") (ascii "a") ∧
    ¬ Db.HasColumn s.conn.view (ascii "data") (ascii "a") ∧
    (Call.run ⟨ascii "data", [(ascii "a", .int32 2)], false⟩ s.writer s.conn).1 =
      .error (MiniSQLite.stepFailed 1) := by
  refine ⟨by decide +kernel, ?_, by decide +kernel⟩
  rintro ⟨t, ht, -⟩
  have hnone : Db.resolve ((start Reference.engine .noFlag conflictMeta Db.empty).run
      [.call ⟨ascii "data", [(ascii "a", .int32 1)], false⟩,
        .call ⟨ascii "data", [(ascii "a", .null)], false⟩]).conn.view
      (tableRef (ascii "data")) = none := by decide +kernel
  rw [hnone] at ht
  cases ht

end Sys

end SqliteWrite
