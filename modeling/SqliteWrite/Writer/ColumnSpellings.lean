import SqliteWrite.Writer.ColumnRules
import SqliteWrite.Writer.Transactions

/-! The column cache under several spellings of tables and columns: a column is defined only when
it is missing, as long as every call spells it as the table does and no other spelling of the table
has brought it since this one is in use. -/
namespace SqliteWrite
open Method

namespace Db
variable {db : Db} {table : Bytes}

/-- The table that the schema query of a name reads has a column of exactly this name. -/
def OwnsName (db : Db) (table name : Bytes) : Prop := ∃ col ∈ db.ownColumns table, col.name = name

instance decidableOwnsName (db : Db) (table name : Bytes) : Decidable (db.OwnsName table name) :=
  inferInstanceAs (Decidable (∃ col ∈ db.ownColumns table, col.name = name))

instance decidableUnshadowed (db : Db) (table : Bytes) : Decidable (db.Unshadowed table) :=
  decidable_of_iff ((db.find (tableRef table)).all (· = schemaKey table) = true) (by
    unfold Unshadowed
    cases db.find (tableRef table) <;> simp)

lemma ownColumns_congr {u : Bytes} (h : SamePlace u table) : db.ownColumns u = db.ownColumns table := by
  simp only [ownColumns, own, h.1, h.2]

lemma Unshadowed.hasColumn_iff (h : db.Unshadowed table) {name : Bytes} :
    db.HasColumn table name ↔ ∃ col ∈ db.ownColumns table, fold col.name = fold name := by
  unfold HasColumn
  rw [resolve_own h]
  constructor
  · rintro ⟨t, ho, hh⟩
    rw [ownColumns_some ho]
    exact hh
  · rintro ⟨col, hcol, hf⟩
    obtain ⟨t, ho, hc⟩ := own_of_mem hcol
    exact ⟨t, ho, col, hc, hf⟩

lemma Unshadowed.put (h : db.Unshadowed table) (t : Table) :
    (db.put ((tableRef table).schema.getD mainSchema) (tableRef table).name t).Unshadowed table := by
  intro s hf
  unfold Db.find at hf
  cases hs : (tableRef table).schema with
  | some s' =>
    rw [hs] at hf
    simp only at hf
    split_ifs at hf
    cases hf
    simp [schemaKey, hs]
  | none =>
    have hmain : fold mainSchema = mainSchema := by decide
    have hkey : schemaKey table = mainSchema := by simp [schemaKey, hs, hmain]
    rw [hs] at hf
    have hne : tempSchema ≠ mainSchema := by decide
    simp only [searchOrder, Option.getD_none, List.find?_cons, Db.put] at hf
    rw [hmain, Function.update_of_ne hne] at hf
    cases htemp : (db.tables tempSchema (fold (tableRef table).name)).isSome with
    | true =>
      -- A temporary table would have shadowed the name before.
      have hold := h tempSchema (by simp [Db.find, hs, searchOrder, htemp])
      exact absurd (hold.trans hkey) hne
    | false =>
      rw [htemp] at hf
      simp only [Function.update_self, Option.isSome_some, Option.some.injEq] at hf
      rw [← hf, hkey]

lemma find_setRows (f : Bytes → Bytes → List (List Value)) (ref : TableRef) :
    (db.setRows f).find ref = db.find ref := by
  obtain ⟨schema, name⟩ := ref
  unfold Db.find
  cases schema with
  | none => simp [searchOrder, Db.setRows]
  | some s => cases ho : db.tables (fold s) (fold name) <;> simp [lookup, Db.setRows, ho]

lemma Unshadowed.setRows (h : db.Unshadowed table) (f : Bytes → Bytes → List (List Value)) :
    (db.setRows f).Unshadowed table := by
  intro s hf
  rw [find_setRows] at hf
  exact h s hf

lemma ownColumns_setRows (f : Bytes → Bytes → List (List Value)) (u : Bytes) :
    (db.setRows f).ownColumns u = db.ownColumns u := by
  simp only [ownColumns, own, Db.setRows, Option.map_map]
  rfl

end Db

/-- A definition meets no column of its name in the table that SQLite finds. -/
def DefinesMissing {D : Decisions} (c : Conn D.engine) : Request → Prop
  | .exec sql => ∀ ref col, Sql.read sql = some (.createTable ref col) ∨
      Sql.read sql = some (.addColumn ref col) → ∀ t, c.view.resolve ref = some t → ¬ t.Has col.name
  | _ => True

namespace SQLiteWriter
variable {D : Decisions} {columnMeta : Bytes → Bytes → Bytes} {w w₀ : SQLiteWriter} {db db₀ : Db}
  {table : Bytes} {done : List Bytes} {k : Call}

/-- The columns that a search in the cache will find: a list that is empty is read first. -/
def Finds (w : SQLiteWriter) (db : Db) (table name : Bytes) : Prop :=
  if w.dColumns table = [] then db.OwnsName table name else w.Lists table name

/-- What a call asks of its names: SQLite takes no two of them for the same column, nor one of them
for a column of another spelling, and a column that is there is one that the cache will find. -/
structure WellSpelled (columnMeta : Bytes → Bytes → Bytes) (k : Call) (w : SQLiteWriter) (db : Db) :
    Prop extends k.Readable columnMeta where
  unshadowed : db.Unshadowed k.table
  spelled : ∀ n ∈ k.names, ∀ col ∈ db.ownColumns k.table, fold col.name = fold n → col.name = n
  alike : ∀ m ∈ k.names, ∀ n ∈ k.names, fold m = fold n → m = n
  found : ∀ n ∈ k.names, Finds w db k.table n ↔ db.OwnsName k.table n

/-- What holds in the column loop of a call on `table` after the fields `done`, given the object
and the database before the call. -/
structure SpellLoop (D : Decisions) (columnMeta : Bytes → Bytes → Bytes) (w₀ : SQLiteWriter) (db₀ : Db)
    (table : Bytes) (done : List Bytes) (w : SQLiteWriter) (db : Db) : Prop where
  dFlag : w.dFlag = w₀.dFlag
  cacheOk : CacheOk D.engine w
  dMeta : w.dMeta = columnMeta
  unshadowed : db.Unshadowed table
  columns : ∀ c, db.OwnsName table c ↔ db₀.OwnsName table c ∨ c ∈ done
  finds : ∀ c, Finds w db table c ↔ Finds w₀ db₀ table c ∨ c ∈ done
  otherTables : ∀ u, ¬ SamePlace u table → db.ownColumns u = db₀.ownColumns u
  otherLists : ∀ u, u ≠ table → w.dColumns u = w₀.dColumns u
  loaded : done ≠ [] → w.dColumns table ≠ []

lemma finds_of_ne_nil (h : w.dColumns table ≠ []) {n : Bytes} :
    Finds w db table n ↔ w.Lists table n := by
  simp [Finds, h]

lemma finds_load (h : w.dColumns table = []) {n : Bytes} :
    (w.setColumns table (columnsOf (db.own table))).Lists table n ↔ Finds w db table n := by
  rw [lists_setColumns, if_pos rfl]
  simp only [Finds, h, if_true, Db.OwnsName, Db.ownColumns, columnsOf, mem_sortByFirst, List.mem_map]
  constructor
  · rintro ⟨p, ⟨col, hcol, rfl⟩, rfl⟩
    exact ⟨col, hcol, rfl⟩
  · rintro ⟨col, hcol, rfl⟩
    exact ⟨_, ⟨col, hcol, rfl⟩, rfl⟩

lemma finds_setColumns_load (h : w.dColumns table = []) {n : Bytes} :
    Finds (w.setColumns table (columnsOf (db.own table))) db table n ↔ Finds w db table n := by
  by_cases hc : columnsOf (db.own table) = []
  · simp [Finds, h, hc]
  · rw [finds_of_ne_nil (by simpa using hc)]
    exact finds_load h

lemma withColumn_ne_nil {p : Bytes × VarT} : (w.withColumn table p).dColumns table ≠ [] := by
  have hl : (w.withColumn table p).Lists table p.1 := lists_withColumn.mpr (Or.inr ⟨rfl, rfl⟩)
  obtain ⟨q, hq, -⟩ := hl
  exact List.ne_nil_of_mem hq

lemma finds_withColumn (h : w.dColumns table = [] → db.own table = none) (p : Bytes × VarT) (db' : Db)
    {n : Bytes} : Finds (w.withColumn table p) db' table n ↔ Finds w db table n ∨ n = p.1 := by
  rw [finds_of_ne_nil withColumn_ne_nil, lists_withColumn]
  by_cases hw : w.dColumns table = []
  · have hl : ¬ w.Lists table n := by rintro ⟨q, hq, -⟩; simp [hw] at hq
    have hf : ¬ Finds w db table n := by simp [Finds, hw, Db.OwnsName, Db.ownColumns, h hw]
    simp [hl, hf, eq_comm]
  · rw [finds_of_ne_nil hw]
    simp [eq_comm]

lemma SpellLoop.finds_owns (hk : WellSpelled columnMeta k w₀ db₀)
    (h : SpellLoop D columnMeta w₀ db₀ k.table done w db) {n : Bytes} (hn : n ∈ k.names) :
    Finds w db k.table n ↔ db.OwnsName k.table n := by
  rw [h.finds, h.columns, hk.found n hn]

/-- Among the names of the call, the table has a column exactly when the cache will find it. -/
lemma SpellLoop.finds_iff (hk : WellSpelled columnMeta k w₀ db₀)
    (h : SpellLoop D columnMeta w₀ db₀ k.table done w db) (hd : ∀ n ∈ done, n ∈ k.names) {n : Bytes}
    (hn : n ∈ k.names) : Finds w db k.table n ↔ db.HasColumn k.table n := by
  rw [h.finds_owns hk hn, h.unshadowed.hasColumn_iff]
  constructor
  · rintro ⟨col, hcol, rfl⟩
    exact ⟨col, hcol, rfl⟩
  · rintro ⟨col, hcol, hf⟩
    refine ⟨col, hcol, ?_⟩
    rcases (h.columns col.name).mp ⟨col, hcol, rfl⟩ with ⟨col', hcol', he⟩ | hdone
    · rw [← he] at hf ⊢
      exact hk.spelled n hn col' hcol' hf
    · exact hk.alike _ (hd _ hdone) n hn hf

lemma SpellLoop.found (hk : WellSpelled columnMeta k w₀ db₀)
    (h : SpellLoop D columnMeta w₀ db₀ k.table done w db) {n : Bytes} (hn : n ∈ k.names)
    (hl : w.Lists k.table n) : SpellLoop D columnMeta w₀ db₀ k.table (done ++ [n]) w db := by
  have hne : w.dColumns k.table ≠ [] := by
    obtain ⟨q, hq, -⟩ := hl
    exact List.ne_nil_of_mem hq
  have hfinds : Finds w db k.table n := (finds_of_ne_nil hne).mpr hl
  have howns := (h.finds_owns hk hn).mp hfinds
  have hmem : ∀ c, c ∈ done ++ [n] ↔ c ∈ done ∨ c = n := by simp
  refine ⟨h.dFlag, h.cacheOk, h.dMeta, h.unshadowed, fun c => ?_, fun c => ?_, h.otherTables,
    h.otherLists, fun _ => hne⟩
  · rw [hmem, ← or_assoc, ← h.columns, or_iff_left_of_imp]
    rintro rfl
    exact howns
  · rw [hmem, ← or_assoc, ← h.finds, or_iff_left_of_imp]
    rintro rfl
    exact hfinds

lemma settled_spellLoop : Settled D.engine (SpellLoop D columnMeta w₀ db₀ table done) := by
  intro w v db h hr
  refine ⟨hr.dFlag.trans h.dFlag, hr.cacheOk, hr.dMeta.trans h.dMeta, h.unshadowed, h.columns,
    fun c => ?_, h.otherTables, fun u hu => (congrFun hr.dColumns u).trans (h.otherLists u hu),
    fun hd => hr.dColumns ▸ h.loaded hd⟩
  have hfinds : Finds v db table c ↔ Finds w db table c := by
    simp only [Finds, hr.dColumns, lists_congr hr.dColumns]
  exact hfinds.trans (h.finds c)

lemma definesMissing_schema {c : Conn D.engine} (ht : PlainName table) :
    DefinesMissing c (.exec (schemaText table)) := by
  rintro ref col (hread | hread)
  all_goals
    rw [read_schemaText ht] at hread
    cases hread

/-- A column that is about to be created: the table has none that SQLite takes for it, and a list
that is empty is so because the table is not there. -/
structure Missing (table name : Bytes) (w : SQLiteWriter) (db : Db) : Prop where
  noColumn : ¬ db.HasColumn table name
  loaded : w.dColumns table = [] → db.own table = none

lemma definesMissing_definition {c : Conn D.engine} {name m : Bytes} {v : VarT} {xs : List Token}
    (ht : PlainName table) (hn : PlainName name) (hm : Sql.constraints m = some xs)
    (hno : ¬ Db.HasColumn c.view table name) (known : Bool) :
    DefinesMissing c (.exec (definitionText known table name v m)) := by
  intro ref col hread t hr hh
  have hcol : ref = tableRef table ∧ col.name = name := by
    cases known with
    | false =>
      change Sql.read (createText _ _ _ _) = _ ∨ Sql.read (createText _ _ _ _) = _ at hread
      rw [read_createText ht hn hm] at hread
      rcases hread with h | h <;> cases h
      exact ⟨rfl, rfl⟩
    | true =>
      change Sql.read (alterText _ _ _ _) = _ ∨ Sql.read (alterText _ _ _ _) = _ at hread
      rw [read_alterText ht hn hm] at hread
      rcases hread with h | h <;> cases h
      exact ⟨rfl, rfl⟩
  obtain ⟨rfl, rfl⟩ := hcol
  exact hno ⟨t, hr, hh⟩

lemma SpellLoop.defined (h : SpellLoop D columnMeta w₀ db₀ table done w db) {p : Bytes × VarT}
    (hload : w.dColumns table = [] → db.own table = none) {t : Table} {col : Column}
    (hcols : t.columns = db.ownColumns table ++ [col]) (hname : col.name = p.1) :
    SpellLoop D columnMeta w₀ db₀ table (done ++ [p.1]) (w.withColumn table p)
      (db.put ((tableRef table).schema.getD Db.mainSchema) (tableRef table).name t) := by
  refine ⟨h.dFlag, h.cacheOk.withColumn p, h.dMeta, h.unshadowed.put t, fun c => ?_, fun c => ?_, ?_, ?_,
    fun _ => withColumn_ne_nil⟩
  · have hown : Db.OwnsName (db.put ((tableRef table).schema.getD Db.mainSchema) (tableRef table).name t)
        table c ↔ db.OwnsName table c ∨ c = p.1 := by
      unfold Db.OwnsName
      rw [Db.ownColumns_some (Db.own_put_self t), hcols, ← hname]
      simp [or_and_right, exists_or, eq_comm]
    rw [hown, h.columns, List.mem_append, List.mem_singleton, or_assoc]
  · rw [finds_withColumn hload, h.finds, List.mem_append, List.mem_singleton, or_assoc]
  · intro u hu
    have hsame : (db.put ((tableRef table).schema.getD Db.mainSchema) (tableRef table).name t).ownColumns u =
        db.ownColumns u := by
      simp only [Db.ownColumns, Db.own_put_other t hu]
    exact hsame.trans (h.otherTables u hu)
  · intro u hu
    unfold withColumn
    rw [setColumns_dColumns, Function.update_of_ne hu]
    exact h.otherLists u hu

section Rules
variable {e : Around Request (Conn D.engine)} {B C : Db → Prop} {F : SQLiteWriter → Db → Prop}

lemma search_spelled (hk : WellSpelled columnMeta k w₀ db₀) (he : ∀ s s', e.rely s s' → s = s')
    (hg : ∀ s, e.guarantee (.exec (schemaText k.table)) s) (hd : ∀ n ∈ done, n ∈ k.names)
    {name : Bytes} (hn : name ∈ k.names)
    (hfails : ∀ w (s : Conn D.engine), C s.view → SpellLoop D columnMeta w₀ db₀ k.table done w s.view →
      SchemaFails s k.table → F w s.view) :
    Spec (Conn.answer D.engine) e
      (fun w s => C s.view ∧ SpellLoop D columnMeta w₀ db₀ k.table done w s.view)
      (haveColumn k.table name)
      (fun known w s => if known = true then C s.view ∧ Db.HasColumn s.view k.table name ∧
          SpellLoop D columnMeta w₀ db₀ k.table (done ++ [name]) w s.view
        else C s.view ∧ Missing k.table name w s.view ∧
          SpellLoop D columnMeta w₀ db₀ k.table done w s.view)
      (fun _ w s => F w s.view) := by
  refine spec_haveColumn (I := fun w d => C d ∧ SpellLoop D columnMeta w₀ db₀ k.table done w d)
    (H := fun w d => C d ∧ Db.HasColumn d k.table name ∧
      SpellLoop D columnMeta w₀ db₀ k.table (done ++ [name]) w d)
    (N := fun w d => C d ∧ Missing k.table name w d ∧
      SpellLoop D columnMeta w₀ db₀ k.table done w d)
    hk.table (fun w d h => h.2.cacheOk.sorted) ?_ ?_
  · intro w d h hne
    obtain ⟨hC, h⟩ := h
    have hiff := h.finds_iff hk hd hn
    rw [finds_of_ne_nil hne] at hiff
    exact ⟨fun hl => ⟨hC, hiff.mp hl, h.found hk hn hl⟩,
      fun hl => ⟨hC, ⟨fun hc => hl (hiff.mpr hc), fun hnil => absurd hnil hne⟩, h⟩⟩
  · intro w s s' h hnil hs _
    obtain ⟨hC, h⟩ := h
    obtain rfl := he s s' hs
    refine ⟨hg s, hfails w s hC h, fun _ => ?_⟩
    have hiff := (finds_load hnil).trans (h.finds_iff hk hd hn)
    have hnext : SpellLoop D columnMeta w₀ db₀ k.table done
        (w.setColumns k.table (columnsOf (Db.own s.view k.table))) s.view := by
      refine ⟨h.dFlag, h.cacheOk.setColumns hnil (sortByFirst_sorted _), h.dMeta, h.unshadowed,
        h.columns, fun c => (finds_setColumns_load hnil).trans (h.finds c), h.otherTables, ?_,
        fun hdone => absurd hnil (h.loaded hdone)⟩
      intro u hu
      rw [setColumns_dColumns, Function.update_of_ne hu]
      exact h.otherLists u hu
    refine ⟨fun hl => ⟨hC, hiff.mp hl, hnext.found hk hn hl⟩,
      fun hl => ⟨hC, ⟨fun hc => hl (hiff.mpr hc), fun hcols => ?_⟩, hnext⟩⟩
    exact columnsOf_eq_nil.mp (by simpa using hcols)

lemma create_spelled (done : List Bytes) (hk : WellSpelled columnMeta k w₀ db₀) (he : ∀ s s', e.rely s s' → s = s')
    (hg : ∀ s, e.guarantee (.exec (schemaText k.table)) s) {p : Bytes × VarT} (hp : p ∈ k.values)
    (hfails : ∀ w (s : Conn D.engine), C s.view → SpellLoop D columnMeta w₀ db₀ k.table done w s.view →
      SchemaFails s k.table → F w s.view)
    (hdefine : ∀ w (s : Conn D.engine) known xs, C s.view → Missing k.table p.1 w s.view →
      SpellLoop D columnMeta w₀ db₀ k.table done w s.view → known = (Db.own s.view k.table).isSome →
      Sql.constraints (columnMeta k.table p.1) = some xs →
      e.guarantee (.exec (definitionText known k.table p.1 p.2 (columnMeta k.table p.1))) s ∧
      ∀ r, Definition s known k.table (Decisions.columnOf p.1 p.2 xs)
        (definitionText known k.table p.1 p.2 (columnMeta k.table p.1)) r →
      match r.1 with
      | .ok _ => B r.2.view
      | .error _ => F w r.2.view) :
    Spec (Conn.answer D.engine) e
      (fun w s => C s.view ∧ Missing k.table p.1 w s.view ∧
        SpellLoop D columnMeta w₀ db₀ k.table done w s.view)
      (createColumn k.table p)
      (fun _ w s => B s.view ∧ SpellLoop D columnMeta w₀ db₀ k.table (done ++ [p.1]) w s.view)
      (fun _ w s => F w s.view) := by
  have hname : p.1 ∈ k.names := List.mem_map_of_mem hp
  obtain ⟨xs, hxs⟩ := Option.isSome_iff_exists.mp (hk.metas p.1 hname)
  refine spec_createColumn
    (N := fun w d => C d ∧ Missing k.table p.1 w d ∧ SpellLoop D columnMeta w₀ db₀ k.table done w d)
    (H := fun w d => B d ∧ SpellLoop D columnMeta w₀ db₀ k.table (done ++ [p.1]) w d)
    (J := fun known w d => C d ∧ Missing k.table p.1 w d ∧
      SpellLoop D columnMeta w₀ db₀ k.table done w d ∧ known = (Db.own d k.table).isSome)
    hk.table (hk.names _ hname) (fun w d h => h.2.2.dMeta ▸ hxs) ?_ ?_
  · intro w s s' h hs _
    obtain ⟨hC, hmiss, h⟩ := h
    obtain rfl := he s s' hs
    exact ⟨hg s, hfails w s hC h, fun _ => ⟨hC, hmiss, h, rfl⟩⟩
  · intro known w s s' h hs _
    obtain ⟨hC, hmiss, h, hknown⟩ := h
    obtain rfl := he s s' hs
    rw [h.dMeta]
    obtain ⟨hguar, hends⟩ := hdefine w s known xs hC hmiss h hknown hxs
    refine ⟨hguar, fun r hr => ?_⟩
    have hend := hends r hr
    cases hr with
    | taken c' htaken hroll =>
      obtain ⟨t, u, hv, hcols, -⟩ := htaken.cases h.unshadowed.means hknown
      refine ⟨hend, ?_⟩
      simp only [hv]
      exact h.defined hmiss.loaded hcols rfl
    | failed x c' hrefused hv => exact hend

end Rules

lemma SpellLoop.setRows (h : SpellLoop D columnMeta w₀ db₀ table done w db)
    (f : Bytes → Bytes → List (List Value)) :
    SpellLoop D columnMeta w₀ db₀ table done w (db.setRows f) := by
  have hown : ∀ u c, Db.OwnsName (db.setRows f) u c ↔ db.OwnsName u c := by
    intro u c
    unfold Db.OwnsName
    rw [Db.ownColumns_setRows]
  refine ⟨h.dFlag, h.cacheOk, h.dMeta, h.unshadowed.setRows f, fun c => (hown _ c).trans (h.columns c),
    fun c => ?_, fun u hu => (Db.ownColumns_setRows f u).trans (h.otherTables u hu), h.otherLists,
    h.loaded⟩
  have hfinds : Finds w (db.setRows f) table c ↔ Finds w db table c := by
    simp only [Finds, hown]
  exact hfinds.trans (h.finds c)

lemma SpellLoop.lists (h : SpellLoop D columnMeta w₀ db₀ table done w db) {n : Bytes} (hn : n ∈ done) :
    w.Lists table n :=
  (finds_of_ne_nil (h.loaded (List.ne_nil_of_mem hn))).mp ((h.finds n).mpr (Or.inr hn))

lemma SpellLoop.all (hk : WellSpelled columnMeta k w₀ db₀)
    (h : SpellLoop D columnMeta w₀ db₀ k.table [] w db) (hl : ∀ p ∈ k.values, w.Lists k.table p.1) :
    SpellLoop D columnMeta w₀ db₀ k.table k.names w db := by
  have hprefix : ∀ ns : List Bytes, (∀ n ∈ ns, n ∈ k.names) → ∀ done,
      SpellLoop D columnMeta w₀ db₀ k.table done w db →
      SpellLoop D columnMeta w₀ db₀ k.table (done ++ ns) w db := by
    intro ns
    induction ns with
    | nil => exact fun _ done h => by simpa using h
    | cons n ns ih =>
      intro hns done h
      obtain ⟨p, hp, rfl⟩ := List.mem_map.mp (hns n (by simp))
      have hnext := ih (fun n' hn' => hns n' (by simp [hn'])) (done ++ [p.1])
        (h.found hk (hns _ (by simp)) (hl p hp))
      simpa using hnext
  exact hprefix k.names (fun _ hn => hn) [] h

/-- Nobody else changes the database, and every column that is defined is missing. -/
def spelling (D : Decisions) : Around Request (Conn D.engine) where
  rely := Eq
  assume := fun _ _ => True
  guarantee := fun q c => DefinesMissing c q

/-- A well spelled call defines only columns that are missing. -/
theorem callConditions_spelled (hk : WellSpelled columnMeta k w₀ db₀) (hw : w₀.dFlag ≠ .readOnly) :
    CallConditions D.engine (spelling D) k.table k.values k.replace
      (fun done w d => (∀ n ∈ done, n ∈ k.names) ∧ SpellLoop D columnMeta w₀ db₀ k.table done w d)
      (fun done p w d => (∀ n ∈ done, n ∈ k.names) ∧ Missing k.table p.1 w d ∧
        SpellLoop D columnMeta w₀ db₀ k.table done w d)
      (fun w d => k.values ≠ [] ∧ SpellLoop D columnMeta w₀ db₀ k.table k.names w d)
      (fun _ _ => True) where
  writable _ _ _ h := h.2.dFlag ▸ hw
  cacheOk _ _ _ h := h.2.cacheOk
  listed w d h p hp := h.2.lists (List.mem_map_of_mem hp)
  cached w d h hl := ⟨fun _ hn => hn, h.2.all hk hl⟩
  stable w s s' h hs := by
    obtain rfl : s = s' := hs
    exact h
  settled := fun w v d h hr => ⟨h.1, settled_spellLoop w v d h.2 hr⟩
  settledPost := fun w v d h hr => ⟨h.1, settled_spellLoop w v d h.2 hr⟩
  settledF := fun _ _ _ _ _ => trivial
  search done p hp := by
    have hname : p.1 ∈ k.names := List.mem_map_of_mem hp
    intro w s h
    have hsearch := search_spelled (e := spelling D) (C := fun _ => True) (F := fun _ _ => True) hk
      (fun _ _ h => h) (fun _ => definesMissing_schema hk.table) h.1 hname fun _ _ _ _ _ => trivial
    refine (hsearch w s ⟨trivial, h.2⟩).weaken fun r t hx => ?_
    obtain ⟨x, v⟩ := r
    cases x with
    | error x => trivial
    | ok known =>
      cases known with
      | true => exact ⟨by simpa [or_imp, forall_and] using ⟨h.1, hname⟩, hx.2.2⟩
      | false => exact ⟨h.1, hx.2⟩
  create done p hp := by
    have hname : p.1 ∈ k.names := List.mem_map_of_mem hp
    intro w s h
    have hcreate := create_spelled (e := spelling D) (C := fun _ => True) (B := fun _ => True)
      (F := fun _ _ => True) done hk (fun _ _ h => h) (fun _ => definesMissing_schema hk.table) hp
      (fun _ _ _ _ _ => trivial) fun w s known xs _ hmiss _ _ hxs =>
        ⟨definesMissing_definition hk.table (hk.names _ hname) hxs hmiss.noColumn known, fun r _ => by
          cases r.1 <;> trivial⟩
    refine (hcreate w s ⟨trivial, h.2⟩).weaken fun r t hx => ?_
    obtain ⟨x, v⟩ := r
    cases x with
    | error x => trivial
    | ok u => exact ⟨by simpa [or_imp, forall_and] using ⟨h.1, hname⟩, hx.2⟩
  compile w s h _ := ⟨trivial, fun _ _ => trivial⟩
  bindGuarantee _ _ := trivial
  bindFails _ _ _ _ _ := trivial
  step vs w s _ _ h _ := by
    refine ⟨trivial, ?_⟩
    refine stepped_insertText s
      (P := fun db => k.values ≠ [] ∧ SpellLoop D columnMeta w₀ db₀ k.table k.names w db)
      (Q := fun _ => True) hk.table hk.names (fun f hcomp => ⟨fun hnil => ?_, h.2.setRows f⟩) trivial
      fun _ => trivial
    simp [hnil, Decisions.compileInsert] at hcomp

end SQLiteWriter

/-- What the calls so far mean for a column under one spelling of its table: whether the spelling
is in use, whether the table has the column, and whether it came under another spelling when this
one was in use. -/
structure Sighting where
  inUse : Bool
  present : Bool
  missed : Bool

namespace Sighting

def step (t c : Bytes) (g : Sighting) (k : Call) : Sighting where
  inUse := g.inUse || k.table = t
  present := g.present || (SamePlace t k.table ∧ c ∈ k.names)
  missed := g.missed || (SamePlace t k.table ∧ c ∈ k.names ∧ k.table ≠ t) && g.inUse && !g.present

/-- The sighting after calls on a database. -/
def after (db : Db) (t c : Bytes) (ks : List Call) : Sighting :=
  ks.foldl (step t c) ⟨false, db.OwnsName t c, false⟩

/-- The sighting says what the cache and the database hold. -/
structure Right (g : Sighting) (w : SQLiteWriter) (db : Db) (t c : Bytes) : Prop where
  inUse : g.inUse = true ↔ w.dColumns t ≠ []
  present : g.present = true ↔ db.OwnsName t c
  finds : SQLiteWriter.Finds w db t c ↔ g.present = true ∧ g.missed = false
  missed : g.missed = true → g.inUse = true

variable {D : Decisions} {columnMeta : Bytes → Bytes → Bytes} {w w₀ : SQLiteWriter} {db db₀ : Db}
  {k : Call} {g : Sighting} {t c : Bytes}

lemma Right.self (hr : g.Right w₀ db₀ k.table c) (hm : c ∈ k.names → g.missed = false)
    (hne : k.values ≠ []) (h : SQLiteWriter.SpellLoop D columnMeta w₀ db₀ k.table k.names w db) :
    (g.step k.table c k).Right w db k.table c := by
  have hnames : k.names ≠ [] := by simpa [Call.names] using hne
  have hplace : SamePlace k.table k.table := ⟨rfl, rfl⟩
  refine ⟨?_, ?_, ?_, ?_⟩
  · simpa [step] using h.loaded hnames
  · rw [h.columns, ← hr.present]
    simp [step, hplace]
  · rw [h.finds, hr.finds]
    simp only [step, hplace]
    by_cases hc : c ∈ k.names
    · simp [hc, hm hc]
    · simp [hc]
  · simp [step]

lemma Right.other (hr : g.Right w₀ db₀ t c) (ht : t ≠ k.table)
    (h : SQLiteWriter.SpellLoop D columnMeta w₀ db₀ k.table k.names w db) :
    (g.step t c k).Right w db t c := by
  have hlist := h.otherLists t ht
  have hne : k.table ≠ t := Ne.symm ht
  have hinUse : (g.step t c k).inUse = g.inUse := by simp [step, hne]
  have hpresent : (g.step t c k).present = true ↔ db.OwnsName t c := by
    by_cases hp : SamePlace t k.table
    · have hcols := h.columns c
      unfold Db.OwnsName at hcols
      have hbefore : db₀.ownColumns t = db₀.ownColumns k.table := Db.ownColumns_congr hp
      rw [← Db.ownColumns_congr hp, ← hbefore] at hcols
      have hiff : db.OwnsName t c ↔ db₀.OwnsName t c ∨ c ∈ k.names := hcols
      rw [hiff, ← hr.present]
      simp [step, hp]
    · have hiff : db.OwnsName t c ↔ db₀.OwnsName t c := by
        unfold Db.OwnsName
        rw [h.otherTables t hp]
      rw [hiff, ← hr.present]
      simp [step, hp]
  refine ⟨?_, hpresent, ?_, ?_⟩
  · rw [hinUse, hr.inUse, hlist]
  · by_cases hnil : w₀.dColumns t = []
    · -- The list will be read when the spelling is first used.
      have huse : g.inUse = false := by simpa [hnil] using hr.inUse
      have hmiss : g.missed = false := by
        by_contra hm
        simp [hr.missed (by simpa using hm)] at huse
      have hstep : (g.step t c k).missed = false := by simp [step, huse, hmiss]
      rw [SQLiteWriter.Finds, hlist, if_pos hnil, ← hpresent, hstep]
      simp
    · have huse : g.inUse = true := hr.inUse.mpr hnil
      have hfinds : SQLiteWriter.Finds w db t c ↔ SQLiteWriter.Finds w₀ db₀ t c := by
        have hl : w.Lists t c ↔ w₀.Lists t c := by
          unfold SQLiteWriter.Lists
          rw [hlist]
        rw [SQLiteWriter.finds_of_ne_nil (by rwa [hlist]), SQLiteWriter.finds_of_ne_nil hnil, hl]
      rw [hfinds, hr.finds]
      simp only [step, huse]
      cases g.present <;> cases g.missed <;> simp [hne]
  · rw [hinUse]
    intro hm
    simp only [step, Bool.or_eq_true, Bool.and_eq_true] at hm
    rcases hm with hm | hm
    · exact hr.missed hm
    · exact hm.1.2

end Sighting

namespace Sys
open SQLiteWriter
variable {D : Decisions} {columnMeta : Bytes → Bytes → Bytes} {db : Db}

def calls {E : Engine} (s : Sys E) : List Call := s.history.map (·.1)

/-- A call whose texts say what they should, under a table name that nothing shadows, with its
fields spelled as the columns that are there, and none of them brought to the table under another
spelling since this one is in use. -/
structure SpelledCall (db : Db) (s : Sys D.engine) (k : Call) : Prop where
  readable : k.Readable s.writer.dMeta
  unshadowed : Db.Unshadowed s.conn.view k.table
  spelled : ∀ n ∈ k.names, ∀ col ∈ Db.ownColumns s.conn.view k.table,
    fold col.name = fold n → col.name = n
  alike : ∀ m ∈ k.names, ∀ n ∈ k.names, fold m = fold n → m = n
  seen : ∀ n ∈ k.names, (Sighting.after db k.table n s.calls).missed = false

instance (s : Sys D.engine) (k : Call) : Decidable (s.SpelledCall db k) :=
  have := Db.decidableUnshadowed s.conn.view k.table
  decidable_of_iff (k.Readable s.writer.dMeta ∧ Db.Unshadowed s.conn.view k.table ∧
    (∀ n ∈ k.names, ∀ col ∈ Db.ownColumns s.conn.view k.table, fold col.name = fold n → col.name = n) ∧
    (∀ m ∈ k.names, ∀ n ∈ k.names, fold m = fold n → m = n) ∧
    ∀ n ∈ k.names, (Sighting.after db k.table n s.calls).missed = false)
    ⟨fun h => ⟨h.1, h.2.1, h.2.2.1, h.2.2.2.1, h.2.2.2.2⟩, fun h => ⟨h.1, h.2, h.3, h.4, h.5⟩⟩

def Spelled (db : Db) (s : Sys D.engine) : Event → Prop
  | .call k => s.SpelledCall db k
  | .poll => True

instance (s : Sys D.engine) : (ev : Event) → Decidable (s.Spelled db ev)
  | .call k => inferInstanceAs (Decidable (s.SpelledCall db k))
  | .poll => inferInstanceAs (Decidable True)

def SpelledRun (db : Db) : Sys D.engine → List Event → Prop
  | _, [] => True
  | s, ev :: evs => s.Spelled db ev ∧ SpelledRun db (s.step ev) evs

instance decidableSpelledRun (db : Db) :
    (evs : List Event) → (s : Sys D.engine) → Decidable (s.SpelledRun db evs)
  | [], _ => inferInstanceAs (Decidable True)
  | ev :: evs, s =>
    have := decidableSpelledRun db evs (s.step ev)
    inferInstanceAs (Decidable (s.Spelled db ev ∧ SpelledRun db (s.step ev) evs))

/-- Every call so far returned. -/
def AllReturned {E : Engine} (s : Sys E) : Prop := ∀ p ∈ s.history, p.2 = .ok ()

instance {E : Engine} (s : Sys E) : Decidable s.AllReturned :=
  inferInstanceAs (Decidable (∀ p ∈ s.history, p.2 = .ok ()))

/-- The sightings of all columns under all spellings are right. -/
structure ColumnsRight (columnMeta : Bytes → Bytes → Bytes) (db : Db) (s : Sys D.engine) : Prop where
  cacheOk : CacheOk D.engine s.writer
  dMeta : s.writer.dMeta = columnMeta
  right : ∀ t c, (Sighting.after db t c s.calls).Right s.writer s.conn.view t c

lemma start_columnsRight (flag : SQLWFlag) :
    (start D.engine flag columnMeta db).ColumnsRight columnMeta db := by
  have hcache := start_cacheOk (E := D.engine) flag columnMeta db
  rw [start_eq D.engine flag columnMeta db] at hcache ⊢
  refine ⟨hcache, rfl, fun t c => ⟨?_, ?_, ?_, ?_⟩⟩
  all_goals simp [Sighting.after, calls, SQLiteWriter.blank, Finds]

lemma SpelledCall.wellSpelled {s : Sys D.engine} (h : s.ColumnsRight columnMeta db) {k : Call}
    (hk : s.SpelledCall db k) : WellSpelled columnMeta k s.writer s.conn.view where
  toReadable := h.dMeta ▸ hk.readable
  unshadowed := hk.unshadowed
  spelled := hk.spelled
  alike := hk.alike
  found n hn := by
    have hr := h.right k.table n
    exact hr.finds.trans ((and_iff_left (hk.seen n hn)).trans hr.present)

lemma SpelledCall.loop {s : Sys D.engine} (h : s.ColumnsRight columnMeta db) {k : Call}
    (hk : s.SpelledCall db k) :
    SpellLoop D columnMeta s.writer s.conn.view k.table [] s.writer s.conn.view :=
  ⟨rfl, h.cacheOk, h.dMeta, hk.unshadowed, by simp, by simp, fun _ _ => rfl, fun _ _ => rfl, by simp⟩

lemma call_columnsRight {s : Sys D.engine} (h : s.ColumnsRight columnMeta db)
    (hw : s.writer.dFlag ≠ .readOnly) {k : Call} (hk : s.SpelledCall db k) :
    ((k.run s.writer s.conn).1 = .ok () → (s.addCall k).ColumnsRight columnMeta db) ∧
      ∀ p ∈ k.trace s.writer s.conn, DefinesMissing p.2 p.1 := by
  have hspec := (callConditions_spelled (D := D) (hk.wellSpelled h) hw).spec
  obtain ⟨hends, hmissing⟩ := hspec.invoke (fun _ => rfl) ⟨by simp, hk.loop h⟩ fun _ _ => trivial
  refine ⟨fun hok => ?_, hmissing⟩
  have hafter : k.values ≠ [] ∧ SpellLoop D columnMeta s.writer s.conn.view k.table k.names
      (s.addCall k).writer (s.addCall k).conn.view := by
    have hresult : (Method.invoke (Conn.answer D.engine) (addValueGeneric k.table k.values k.replace)
      s.writer s.conn).1 = .ok () := hok
    unfold Ends at hends
    rw [hresult] at hends
    exact hends
  refine ⟨hafter.2.cacheOk, hafter.2.dMeta, fun t c => ?_⟩
  have hcalls : Sighting.after db t c (s.addCall k).calls =
      (Sighting.after db t c s.calls).step t c k := by
    simp [Sighting.after, calls, addCall]
  rw [hcalls]
  by_cases ht : t = k.table
  · subst ht
    exact (h.right _ c).self (fun hc => hk.seen c hc) hafter.1 hafter.2
  · exact (h.right t c).other ht hafter.2

lemma step_columnsRight (s : Sys D.engine) (ev : Event) (h : s.ColumnsRight columnMeta db)
    (hev : s.Spelled db ev) (hok : (s.step ev).AllReturned) :
    (s.step ev).ColumnsRight columnMeta db := by
  unfold step at hok ⊢
  by_cases hc : s.crashed = true
  · rw [if_pos hc]
    exact h
  rw [if_neg hc] at hok ⊢
  cases ev with
  | call k =>
    have hresult : (k.run s.writer s.conn).1 = .ok () := hok (k, _) (by simp [addCall])
    have hw : s.writer.dFlag ≠ .readOnly := by
      intro hf
      rw [k.run_readOnly s.writer s.conn hf] at hresult
      cases hresult
    exact (call_columnsRight h hw hev).1 hresult
  | poll =>
    have hpoll : s.commitThread.writer = s.writer ∧ s.commitThread.conn.view = s.conn.view ∧
        s.commitThread.history = s.history := by
      rw [commitThread_eq]
      split_ifs <;> exact ⟨rfl, rfl, rfl⟩
    obtain ⟨h1, h2, h3⟩ := hpoll
    simp only
    split_ifs with hf
    · refine ⟨h1 ▸ h.cacheOk, h1 ▸ h.dMeta, ?_⟩
      rw [h1, h2, calls, h3]
      exact h.right
    · exact h

lemma step_allReturned {E : Engine} (s : Sys E) (ev : Event) (h : (s.step ev).AllReturned) :
    s.AllReturned := by
  obtain ⟨rest, hrest⟩ := step_history s ev
  exact fun p hp => h p (hrest ▸ List.mem_append_left _ hp)

lemma run_allReturned {E : Engine} (s : Sys E) (evs : List Event) (h : (s.run evs).AllReturned) :
    s.AllReturned := by
  induction evs generalizing s with
  | nil => exact h
  | cons ev evs ih => exact step_allReturned s ev (ih _ h)

theorem run_columnsRight (s : Sys D.engine) (evs : List Event) (h : s.ColumnsRight columnMeta db)
    (hs : s.SpelledRun db evs) (hok : (s.run evs).AllReturned) :
    (s.run evs).ColumnsRight columnMeta db := by
  induction evs generalizing s with
  | nil => exact h
  | cons ev evs ih =>
    exact ih (s.step ev) (step_columnsRight s ev h hs.1 (run_allReturned _ evs hok)) hs.2 hok

/-- After a run of well spelled calls that returned, a well spelled call defines only columns that
the table SQLite finds does not have, and the search for each of its columns finds it exactly when
the table has it. -/
theorem only_missing_columns_added (flag : SQLWFlag) (columnMeta : Bytes → Bytes → Bytes) (db : Db)
    (evs : List Event) (k : Call) (hs : (start D.engine flag columnMeta db).SpelledRun db evs)
    (hok : ((start D.engine flag columnMeta db).run evs).AllReturned)
    (hk : ((start D.engine flag columnMeta db).run evs).SpelledCall db k) :
    (∀ p ∈ k.trace ((start D.engine flag columnMeta db).run evs).writer
      ((start D.engine flag columnMeta db).run evs).conn, DefinesMissing p.2 p.1) ∧
    ∀ n ∈ k.names, ∀ known, ((haveColumn k.table n).invoke (Conn.answer D.engine)
        ((start D.engine flag columnMeta db).run evs).writer
        ((start D.engine flag columnMeta db).run evs).conn).1 = .ok known →
      (known = true ↔
        Db.HasColumn ((start D.engine flag columnMeta db).run evs).conn.view k.table n) := by
  have hright := run_columnsRight _ evs (start_columnsRight flag) hs hok
  generalize (start D.engine flag columnMeta db).run evs = s at *
  constructor
  · by_cases hw : s.writer.dFlag = .readOnly
    · have htrace : k.trace s.writer s.conn = [] := by
        unfold Call.trace Call.method addValueGeneric
        rw [script_get_bind]
        simp only [hw, if_true]
        rfl
      simp [htrace]
    · exact (call_columnsRight hright hw hk).2
  · intro n hn known hresult
    have hsearch := search_spelled (e := spelling D) (C := (· = s.conn.view)) (F := fun _ _ => True)
      (hk.wellSpelled hright) (fun _ _ h => h) (fun _ => definesMissing_schema hk.readable.table)
      (fun _ h => absurd h List.not_mem_nil) hn fun _ _ _ _ _ => trivial
    obtain ⟨hends, -⟩ := hsearch.invoke (fun _ => rfl) ⟨rfl, hk.loop hright⟩ fun _ _ => trivial
    unfold Ends at hends
    rw [hresult] at hends
    cases known with
    | true =>
      obtain ⟨hview, hhas, -⟩ := hends
      simp only [hview] at hhas
      exact iff_of_true rfl hhas
    | false =>
      obtain ⟨hview, hmiss, -⟩ := hends
      have hno := hmiss.noColumn
      simp only [hview] at hno
      exact iff_of_false (by simp) hno

/-- Calls under two spellings of a table, which keep to their own new columns. -/
def twoSpellings : List Event :=
  [.call ⟨ascii "x", [(ascii "a", .int32 1)], false⟩,
    .call ⟨ascii "main.x", [(ascii "a", .int32 2), (ascii "b", .int32 3)], false⟩,
    .call ⟨ascii "x", [(ascii "c", .int32 4)], true⟩]

theorem only_missing_columns_added_twoSpellings :
    (start Reference.decisions.engine .noFlag (fun _ _ => []) Db.empty).SpelledRun Db.empty twoSpellings ∧
    ∀ p ∈ (⟨ascii "main.x", [(ascii "b", .int32 5), (ascii "d", .int32 6)], false⟩ : Call).trace
      ((start Reference.decisions.engine .noFlag (fun _ _ => []) Db.empty).run twoSpellings).writer
      ((start Reference.decisions.engine .noFlag (fun _ _ => []) Db.empty).run twoSpellings).conn,
      DefinesMissing p.2 p.1 := by
  have hspelled : (start Reference.decisions.engine .noFlag (fun _ _ => []) Db.empty).SpelledRun
      Db.empty twoSpellings := by decide +kernel
  exact ⟨hspelled, (only_missing_columns_added .noFlag (fun _ _ => []) Db.empty twoSpellings _ hspelled
    (by decide +kernel) (by decide +kernel)).1⟩

/-- A field that differs from a column of the table in case alone is searched for in vain; SQLite
refuses to add it, and so does every later call with it fail. -/
theorem spelling_adds_column_again :
    let s := (start Reference.engine .noFlag (fun _ _ => []) Db.empty).run
      [.call ⟨ascii "x", [(ascii "a", .int32 1)], false⟩]
    s.AllReturned ∧
    ((haveColumn (ascii "x") (ascii "A")).invoke (Conn.answer Reference.engine) s.writer s.conn).1 =
      .ok false ∧
    Db.HasColumn s.conn.view (ascii "x") (ascii "A") ∧
    (Call.run ⟨ascii "x", [(ascii "A", .int32 2)], false⟩ s.writer s.conn).1 =
      .error (ascii "Error executing sqlite3 query '" ++
        alterText (ascii "x") (ascii "A") (ascii "INT") [] ++ ascii "': duplicate column name: A") := by
  refine ⟨by decide +kernel, by decide +kernel, ?_, by decide +kernel⟩
  exact ⟨⟨[⟨ascii "a", ascii "INT", []⟩], [[.integer 1]], List.cons_ne_nil _ _⟩, by decide +kernel, by decide +kernel⟩

end Sys

end SqliteWrite
