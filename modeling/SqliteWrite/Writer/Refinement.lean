import Mathlib.Data.List.Find
import SqliteWrite.Sqlite.PlainTables
import SqliteWrite.Writer.ColumnSpellings
import SqliteWrite.Writer.RowStore

/-! The writer refines the store of rows: over runs of calls on plain tables, a call returns exactly
when the store takes it, and a query reads what the store holds. -/
namespace SqliteWrite
open Method

/-- A string or a blob that SQLite takes. -/
def Fits (D : Decisions) : VarT → Prop
  | .string b | .blob b => b.length ≤ D.lengthLimit ∧ b.length < 2 ^ 31
  | _ => True

instance (D : Decisions) : (v : VarT) → Decidable (Fits D v)
  | .string b => inferInstanceAs (Decidable (b.length ≤ D.lengthLimit ∧ b.length < 2 ^ 31))
  | .blob b => inferInstanceAs (Decidable (b.length ≤ D.lengthLimit ∧ b.length < 2 ^ 31))
  | .double _ | .int32 _ | .uint32 _ | .int64 _ | .null => inferInstanceAs (Decidable True)

lemma toNatClampNeg_length {b : Bytes} (h : b.length < 2 ^ 31) :
    ¬ Int32.ofNat b.length < 0 ∧ (Int32.ofNat b.length).toNatClampNeg = b.length := by
  constructor
  · rw [Int32.lt_iff_toInt_lt, Int32.toInt_ofNat_of_lt (by omega)]
    simp
  · exact Int32.toNatClampNeg_ofNat_of_lt (by omega)

lemma bind_bindArg {D : Decisions} {v : VarT} (h : Fits D v) :
    D.engine.bind (bindArg v) = .ok (stored v) := by
  change D.bind (bindArg v) = _
  cases v with
  | string b =>
    obtain ⟨hneg, hlen⟩ := toNatClampNeg_length h.2
    simp only [bindArg, Decisions.bind, if_neg hneg, hlen, List.take_length, Decisions.bind.sized,
      if_pos h.1, stored]
  | blob b =>
    obtain ⟨hneg, hlen⟩ := toNatClampNeg_length h.2
    cases hb : b.isEmpty with
    | true =>
      obtain rfl : b = [] := by simpa using hb
      simp [bindArg, Decisions.bind, Decisions.bind.sized, stored]
    | false =>
      simp only [bindArg, hb, Bool.false_eq_true, if_false, Decisions.bind, if_neg hneg, hlen,
        List.take_length, Decisions.bind.sized, if_pos h.1, stored]
  | double bits => rfl
  | int32 v => rfl
  | uint32 v => rfl
  | int64 v => rfl
  | null => rfl

lemma boundValues_stored {D : Decisions} {values : Fields} (h : ∀ p ∈ values, Fits D p.2) :
    SQLiteWriter.boundValues D.engine values = .ok (values.map fun p => stored p.2) := by
  unfold SQLiteWriter.boundValues
  induction values with
  | nil => rfl
  | cons p values ih =>
    rw [List.mapM_cons, bind_bindArg (h p (by simp)), ih fun q hq => h q (by simp [hq])]
    rfl

lemma bindAll_fits {D : Decisions} {values : Fields} (h : ∀ p ∈ values, Fits D p.2)
    (binds : List Value) (n : ℕ) (hn : n + values.length ≤ binds.length) :
    (SQLiteWriter.bindAll D.engine binds (n + 1) values).1 = .ok () := by
  apply (SQLiteWriter.bindAll_isOk binds n values hn).mpr
  intro p hp
  rw [bind_bindArg (h p hp)]
  rfl

/-- The text of the query for all rows of a table. -/
def selectText (table : Bytes) : Bytes := ascii "select * from \"" ++ table ++ ascii "\""

lemma read_selectText {table : Bytes} (h : PlainName table) :
    Sql.read (selectText table) = some (.selectAll ⟨none, table⟩) ∧ Sql.params (selectText table) = 0 := by
  have h1 : Tokens.feed Sql.closer .start (ascii "select * from \"") =
      ([.word (ascii "select"), .sym 42, .word (ascii "from")], .quote 34 34 []) := rfl
  have h3 : Tokens.feed Sql.closer (.quote 34 34 table) (ascii "\"") = ([], .closing 34 34 table) := rfl
  have hfeed := Tokens.feed_append_of (Tokens.feed_append_of h1 (Texts.feed_inside h.1)) h3
  have hnul : (0 : UInt8) ∉ selectText table := by simp [selectText, ascii, h.2.2]
  have htokens : Tokens.tokens Sql.closer (selectText table) =
      some [.word (ascii "select"), .sym 42, .word (ascii "from"), .quoted 34 table] :=
    Tokens.tokens_of_feed hnul hfeed rfl
  unfold Sql.read Sql.params
  rw [htokens]
  exact ⟨rfl, by simp⟩

/-- A table of the database holds what a table of the store says. -/
structure Shelved (s : Shelf) (db : Db) (table : Bytes) : Prop where
  columns : db.ownColumns table = s.columns.map fun c => ⟨c.1, c.2, []⟩
  rows : db.ownRows table = s.rows.map fun r => s.columns.map fun c => r c.1

namespace Shelved
variable {s : Shelf} {db db' : Db} {table : Bytes} {p : Bytes × VarT}

lemma ownsName (h : Shelved s db table) {n : Bytes} :
    db.OwnsName table n ↔ n ∈ s.columns.map (·.1) := by
  unfold Db.OwnsName
  rw [h.columns]
  simp only [List.mem_map]
  constructor
  · rintro ⟨col, ⟨c, hc, rfl⟩, rfl⟩
    exact ⟨c, hc, rfl⟩
  · rintro ⟨c, hc, rfl⟩
    exact ⟨_, ⟨c, hc, rfl⟩, rfl⟩

lemma congr (h : Shelved s db table) (hc : db'.ownColumns table = db.ownColumns table)
    (hr : db'.ownRows table = db.ownRows table) : Shelved s db' table :=
  ⟨hc.trans h.columns, hr.trans h.rows⟩

lemma define (h : Shelved s db table) (hn : p.1 ∉ s.columns.map (·.1)) {t : Table} {u : Value}
    (ho : db'.own table = some t) (hcols : t.columns = db.ownColumns table ++ [⟨p.1, columnType p.2, []⟩])
    (hrows : t.rows = (db.ownRows table).map (· ++ [u])) (hu : db.own table ≠ none → u = .null) :
    Shelved (s.name p) db' table := by
  refine ⟨?_, ?_⟩
  · rw [Db.ownColumns_some ho, hcols, h.columns, Shelf.name_columns hn]
    simp
  · rw [Db.ownRows_some ho, hrows, h.rows, Shelf.name_columns hn, Shelf.name_rows, List.map_map]
    apply List.map_congr_left
    intro r hr
    have hnull : u = r p.1 := by
      rw [s.unnamed r hr p.1 hn]
      refine hu fun hnone => ?_
      -- A table that is not there has no rows.
      have hempty := h.rows
      rw [Db.ownRows, hnone] at hempty
      simp only [Option.map_none, Option.getD_none] at hempty
      rw [List.map_eq_nil_iff.mp hempty.symm] at hr
      cases hr
    simp [hnull]

end Shelved

section Insert
variable {s : Shelf} {t : Table} {convert : Bytes → Value → Option Value} {values : Fields}

/-- What a call binds, under its names. -/
def bound (values : Fields) : List (Bytes × Value) := values.map fun p => (p.1, stored p.2)

lemma zip_bound (values : Fields) :
    (values.map (·.1)).zip (values.map fun p => stored p.2) = bound values := by
  simp [bound, List.zip_map']

lemma cell_bound (hnull : ∀ type, convert type .null = some .null)
    (hapart : ∀ p ∈ values, ∀ c ∈ s.columns, fold p.1 = fold c.1 → p.1 = c.1) {c : Bytes × Bytes}
    (hc : c ∈ s.columns) : Table.cell convert (bound values) ⟨c.1, c.2, []⟩ =
      match values.find? (·.1 = c.1) with
      | some p => s.held convert p
      | none => some .null := by
  have hfind : (bound values).find? (fun p => fold p.1 = fold c.1) =
      (values.find? (·.1 = c.1)).map fun p => (p.1, stored p.2) := by
    unfold bound
    rw [List.find?_map]
    congr 1
    apply List.find?_congr
    intro p hp
    simp only [Function.comp_apply, decide_eq_decide]
    exact ⟨hapart p hp c hc, fun heq => by rw [heq]⟩
  unfold Table.cell
  simp only [hfind]
  cases hv : values.find? (·.1 = c.1) with
  | none => simpa using hnull c.2
  | some p =>
    have hname : p.1 = c.1 := by simpa using List.find?_some hv
    simp [Shelf.held, hname, Shelf.type?_eq hc]

variable (hnull : ∀ type, convert type .null = some .null)
  (hapart : ∀ p ∈ values, ∀ c ∈ s.columns, fold p.1 = fold c.1 → p.1 = c.1)
  (ht : t.columns = s.columns.map fun c => ⟨c.1, c.2, []⟩)
include hnull hapart ht

lemma converts_iff (hd : (values.map (·.1)).Nodup) (hn : ∀ p ∈ values, p.1 ∈ s.columns.map (·.1)) :
    t.Converts convert (bound values) ↔ ∀ p ∈ values, (s.held convert p).isSome = true := by
  unfold Table.Converts
  rw [ht]
  constructor
  · intro h p hp
    obtain ⟨c, hc, hname⟩ := List.mem_map.mp (hn p hp)
    have hcell := h _ (List.mem_map_of_mem hc)
    rw [cell_bound hnull hapart hc, hname, Shelf.find?_self hd hp] at hcell
    exact hcell
  · intro h col hcol
    obtain ⟨c, hc, rfl⟩ := List.mem_map.mp hcol
    rw [cell_bound hnull hapart hc]
    cases hv : values.find? (·.1 = c.1) with
    | none => rfl
    | some p => exact h p (List.mem_of_find?_eq_some hv)

lemma newRow_bound : t.newRow convert (bound values) = s.columns.map fun c => s.row convert values c.1 := by
  unfold Table.newRow
  rw [ht, List.map_map]
  apply List.map_congr_left
  intro c hc
  simp only [Function.comp_apply, cell_bound hnull hapart hc, Shelf.row]
  cases values.find? (·.1 = c.1) <;> rfl

end Insert

/-- The columns that the calls name for a table. -/
def May (ks : List Call) (table n : Bytes) : Prop := ∃ k ∈ ks, k.table = table ∧ n ∈ k.names

/-- The names and the values of some calls: each text is one statement, no two spellings denote one
table or one of its columns, and SQLite takes the columns and the values. -/
structure Proper (D : Decisions) (ks : List Call) : Prop where
  tables : ∀ k ∈ ks, PlainName k.table ∧ 46 ∉ k.table
  names : ∀ k ∈ ks, ∀ n ∈ k.names, PlainName n
  distinct : ∀ k ∈ ks, k.names.Nodup
  tablesApart : ∀ k ∈ ks, ∀ k' ∈ ks, fold k.table = fold k'.table → k.table = k'.table
  namesApart : ∀ k ∈ ks, ∀ k' ∈ ks, k.table = k'.table →
    ∀ n ∈ k.names, ∀ n' ∈ k'.names, fold n = fold n' → n = n'
  fits : ∀ k ∈ ks, ∀ p ∈ k.values, Fits D p.2
  takes : D.Takes (May ks)

lemma tableRef_undotted {table : Bytes} (h : 46 ∉ table) : tableRef table = ⟨none, table⟩ := by
  have hfind : table.findIdx? (· == 46) = none := by
    rw [List.findIdx?_eq_none_iff]
    intro b hb
    rw [beq_eq_false_iff_ne]
    rintro rfl
    exact h hb
  simp only [tableRef, hfind]

namespace Db
variable {db : Db} {table : Bytes}

/-- All tables are in the main schema. -/
def OnlyMain (db : Db) : Prop := ∀ schema name, schema ≠ mainSchema → db.tables schema name = none

lemma fold_mainSchema : fold mainSchema = mainSchema := by decide

lemma schemaKey_undotted (h : 46 ∉ table) : schemaKey table = mainSchema ∧ nameKey table = fold table := by
  unfold schemaKey nameKey
  rw [tableRef_undotted h]
  exact ⟨fold_mainSchema, rfl⟩

lemma OnlyMain.unshadowed (h : db.OnlyMain) (hd : 46 ∉ table) : db.Unshadowed table := by
  intro s hf
  rw [tableRef_undotted hd] at hf
  have hsome : (db.tables s (fold table)).isSome = true := by
    simp only [Db.find] at hf
    have hfound := List.find?_some hf
    exact hfound
  rw [(schemaKey_undotted hd).1]
  by_contra hs
  rw [h s _ hs] at hsome
  cases hsome

lemma OnlyMain.put (h : db.OnlyMain) (name : Bytes) (t : Table) : (db.put mainSchema name t).OnlyMain := by
  intro s n hs
  have hne : s ≠ fold mainSchema := by rwa [fold_mainSchema]
  simpa [Db.put, Function.update_of_ne hne] using h s n hs

lemma OnlyMain.setRows (h : db.OnlyMain) (f : Bytes → Bytes → List (List Value)) :
    (db.setRows f).OnlyMain := by
  intro s n hs
  simp [Db.setRows, h s n hs]

end Db

/-- The database holds what the store says, in plain tables of the main schema. -/
structure Stored (ks : List Call) (σ : RowStore) (db : Db) : Prop where
  plain : db.Plain
  onlyMain : db.OnlyMain
  shelved : ∀ k ∈ ks, Shelved (σ k.table) db k.table
  may : ∀ k ∈ ks, ∀ n ∈ (σ k.table).columns.map (·.1), May ks k.table n

namespace Stored
variable {D : Decisions} {ks : List Call} {σ : RowStore} {db : Db} {k : Call}

lemma samePlace_iff (hp : Proper D ks) {k' : Call} (hk : k ∈ ks) (hk' : k' ∈ ks) :
    SamePlace k'.table k.table ↔ k'.table = k.table := by
  obtain ⟨h1, h2⟩ := Db.schemaKey_undotted (hp.tables k hk).2
  obtain ⟨h1', h2'⟩ := Db.schemaKey_undotted (hp.tables k' hk').2
  unfold SamePlace
  rw [h1, h2, h1', h2']
  exact ⟨fun h => hp.tablesApart k' hk' k hk h.2, fun h => ⟨rfl, congrArg fold h⟩⟩

lemma define (h : Stored ks σ db) (hp : Proper D ks) (hk : k ∈ ks) {p : Bytes × VarT}
    (hmem : p ∈ k.values) (hn : p.1 ∉ (σ k.table).columns.map (·.1)) {t : Table} {u : Value}
    (hcols : t.columns = db.ownColumns k.table ++ [⟨p.1, columnType p.2, []⟩])
    (hrows : t.rows = (db.ownRows k.table).map (· ++ [u])) (hu : db.own k.table ≠ none → u = .null) :
    Stored ks (Function.update σ k.table ((σ k.table).name p))
      (db.put ((tableRef k.table).schema.getD Db.mainSchema) (tableRef k.table).name t) := by
  have hshelved := h.shelved k hk
  refine ⟨?_, ?_, ?_, ?_⟩
  · apply h.plain.put
    intro col hcol
    rw [hcols, hshelved.columns] at hcol
    simp only [List.mem_append, List.mem_map, List.mem_singleton] at hcol
    obtain ⟨c, -, rfl⟩ | rfl := hcol <;> rfl
  · rw [tableRef_undotted (hp.tables k hk).2]
    exact h.onlyMain.put _ t
  · intro k' hk'
    by_cases heq : k'.table = k.table
    · rw [heq, Function.update_self]
      exact hshelved.define hn (Db.own_put_self t) hcols hrows hu
    · rw [Function.update_of_ne heq]
      have hother : (db.put ((tableRef k.table).schema.getD Db.mainSchema) (tableRef k.table).name t).own
          k'.table = db.own k'.table :=
        Db.own_put_other t fun hsame => heq ((samePlace_iff hp hk hk').mp hsame)
      apply (h.shelved k' hk').congr
      · simp only [Db.ownColumns, hother]
      · simp only [Db.ownRows, hother]
  · intro k' hk' n hmay
    by_cases heq : k'.table = k.table
    · rw [heq, Function.update_self, Shelf.mem_name] at hmay
      rw [heq]
      rcases hmay with hmay | rfl
      · exact h.may k hk n hmay
      · exact ⟨k, hk, rfl, List.mem_map_of_mem hmem⟩
    · rw [Function.update_of_ne heq] at hmay
      exact h.may k' hk' n hmay

lemma insert (h : Stored ks σ db) (hp : Proper D ks) (hk : k ∈ ks) (convert : Bytes → Value → Option Value)
    {s : Shelf} (hs : σ k.table = s) (hn : ∀ p ∈ k.values, p.1 ∈ s.columns.map (·.1)) {t : Table}
    (ho : db.own k.table = some t) :
    Stored ks (Function.update σ k.table (s.addRow convert k.values hn))
      (db.setRows (db.appendRow Db.mainSchema k.table
        (s.columns.map fun c => s.row convert k.values c.1))) := by
  subst hs
  obtain ⟨hschema, hname⟩ := Db.schemaKey_undotted (hp.tables k hk).2
  refine ⟨h.plain.setRows _, h.onlyMain.setRows _, ?_, ?_⟩
  · intro k' hk'
    have hown : ∀ f, (db.setRows f).own k'.table =
        (db.own k'.table).map fun t => { t with rows := f (schemaKey k'.table) (nameKey k'.table) } :=
      fun _ => rfl
    have hrowsOf : ∀ t', db.own k'.table = some t' →
        db.rows (schemaKey k'.table) (nameKey k'.table) = t'.rows := by
      intro t' ht'
      have htables : db.tables (schemaKey k'.table) (nameKey k'.table) = some t' := ht'
      simp [Db.rows, htables]
    by_cases heq : k'.table = k.table
    · rw [heq] at hown hrowsOf ⊢
      rw [Function.update_self]
      have hshelved := h.shelved k hk
      refine ⟨(Db.ownColumns_setRows _ _).trans hshelved.columns, ?_⟩
      have hrows := hshelved.rows
      rw [Db.ownRows_some ho] at hrows
      rw [Db.ownRows, hown, ho]
      simp only [Option.map_some, Option.getD_some, Db.appendRow, hschema, hname, Db.fold_mainSchema,
        and_self, if_true]
      rw [← hschema, ← hname, hrowsOf t ho, hrows]
      simp [Shelf.addRow]
    · rw [Function.update_of_ne heq]
      have hother : ¬ (schemaKey k'.table = fold Db.mainSchema ∧ nameKey k'.table = fold k.table) := by
        intro hsame
        apply heq
        rw [← samePlace_iff hp hk hk']
        exact ⟨hsame.1.trans (Db.fold_mainSchema.trans hschema.symm), hsame.2.trans hname.symm⟩
      apply (h.shelved k' hk').congr (Db.ownColumns_setRows _ _)
      rw [Db.ownRows, Db.ownRows, hown]
      cases ho' : db.own k'.table with
      | none => rfl
      | some t' =>
        simp only [Option.map_some, Option.getD_some, Db.appendRow, if_neg hother]
        exact hrowsOf t' ho'
  · intro k' hk' n hmay
    by_cases heq : k'.table = k.table
    · rw [heq, Function.update_self] at hmay
      rw [heq]
      exact h.may k hk n hmay
    · rw [Function.update_of_ne heq] at hmay
      exact h.may k' hk' n hmay

end Stored

lemma columnType_mem (v : VarT) : columnType v ∈ strictTypes := by
  cases v <;> simp [columnType, strictTypes]

/-- No column has a meta. -/
abbrev noMeta : Bytes → Bytes → Bytes := fun _ _ => []

namespace SQLiteWriter
variable {D : Decisions} {ks : List Call} {σ : RowStore} {w w₀ : SQLiteWriter} {db db₀ : Db} {k : Call}
  {done : List Bytes}

/-- Nobody else changes the database, and no statement is answered by a rollback. -/
def steadily (D : Decisions) : Around Request (Conn D.engine) where
  rely := Eq
  assume := fun _ _ => True
  guarantee := fun q c => c.rollsBack q = false

lemma schema_steady (hp : PlainName k.table) (c : Conn D.engine) :
    c.rollsBack (.exec (schemaText k.table)) = false := by
  have hexec : D.engine.exec c.view (schemaText k.table) = _ := D.exec_schemaText hp
  simp only [Conn.rollsBack, hexec]
  cases Db.knows c.view ((tableRef k.table).schema.getD Db.mainSchema) <;> rfl

lemma knows_main (db : Db) (hd : 46 ∉ k.table) :
    db.knows ((tableRef k.table).schema.getD Db.mainSchema) = true := by
  rw [tableRef_undotted hd]
  simp [Db.knows, Db.searchOrder, Db.fold_mainSchema]

lemma schema_succeeds (hdoc : D.Documented) (hd : 46 ∉ k.table) {c : Conn D.engine}
    (h : Db.Plain c.view) : ¬ SchemaFails c k.table := by
  intro hf
  rcases hf with hf | hf
  · exact Bool.false_ne_true (hf.symm.trans (knows_main _ hd))
  · exact Bool.false_ne_true ((hdoc.deferred _ h).symm.trans hf.2)

lemma add_accepted (hp : Proper D ks) (hk : k ∈ ks) {p : Bytes × VarT} (hmem : p ∈ k.values)
    (h : Stored ks σ db) {t : Table} (ho : db.own k.table = some t) (hnot : ¬ t.Has p.1) :
    D.add db (schemaKey k.table) (tableRef k.table).name (Decisions.columnOf p.1 p.2 []) =
      .accept .null := by
  obtain ⟨hplain, hdot⟩ := hp.tables k hk
  have hschema := (Db.schemaKey_undotted hdot).1
  have hlookup : db.lookup (schemaKey k.table) (tableRef k.table).name = some t := by
    unfold Db.lookup
    rw [hschema, Db.fold_mainSchema, ← hschema]
    exact ho
  rw [hschema, tableRef_undotted hdot] at hlookup ⊢
  apply hp.takes.add _ _ _ _ _ t h.plain Db.fold_mainSchema ⟨k, hk, rfl, List.mem_map_of_mem hmem⟩
    (columnType_mem _) hlookup _ hnot
  intro col hcol
  have hcols := (h.shelved k hk).columns
  rw [Db.ownColumns_some ho] at hcols
  rw [hcols] at hcol
  obtain ⟨n, hn, rfl⟩ := List.mem_map.mp hcol
  exact h.may k hk n.1 (List.mem_map_of_mem hn)

/-- A definition does not fail that finds its table if it looks for it, and there no column of its
name: it defines the column, or leaves alone a table that has come since it was looked for. -/
lemma define_stored (hdoc : D.Documented) (hp : Proper D ks) (hk : k ∈ ks) {p : Bytes × VarT}
    (hmem : p ∈ k.values) {c : Conn D.engine} (h : Stored ks σ c.view) {known : Bool}
    (hknown : known = true → (Db.own c.view k.table).isSome = true)
    (hmiss : known = true → ¬ Db.HasColumn c.view k.table p.1) {sql : Bytes}
    {r : Except Bytes (List (List (Option Bytes))) × Conn D.engine}
    (hr : Definition c known k.table (Decisions.columnOf p.1 p.2 []) sql r) :
    c.rollsBack (.exec sql) = false ∧ ∃ c', r = (.ok [], c') ∧
      ((known = false ∧ (Db.own c.view k.table).isSome = true ∧ c'.view = c.view) ∨
        Stored ks (Function.update σ k.table ((σ k.table).name p)) c'.view) := by
  obtain ⟨hplain, hdot⟩ := hp.tables k hk
  have hmeans := (h.onlyMain.unshadowed hdot).means
  have hnot : known = true → ∀ t, Db.own c.view k.table = some t → ¬ t.Has p.1 :=
    fun htrue t ho hh => hmiss htrue ⟨t, hmeans.resolve ho, hh⟩
  -- What a definition that is taken makes of the database.
  have htaken : ∀ db', Taken D c.view known k.table (Decisions.columnOf p.1 p.2 []) db' →
      (known = false ∧ (Db.own c.view k.table).isSome = true ∧ db' = c.view) ∨
        Stored ks (Function.update σ k.table ((σ k.table).name p)) db' := by
    intro db' ht
    by_cases hsame : known = (Db.own c.view k.table).isSome
    · obtain ⟨t, u, rfl, hcols, hrows, hu⟩ := ht.cases hmeans hsame
      have hunnamed : p.1 ∉ (σ k.table).columns.map (·.1) := by
        rw [← (h.shelved k hk).ownsName]
        rintro ⟨col, hcol, hname⟩
        obtain ⟨t', ho, hc⟩ := Db.own_of_mem hcol
        rw [ho] at hsame
        exact hnot hsame t' ho ⟨col, hc, congrArg fold hname⟩
      refine Or.inr (h.define hp hk hmem hunnamed hcols hrows fun hne => ?_)
      obtain ⟨t', ho⟩ := Option.ne_none_iff_exists'.mp hne
      have haccept := hu hne
      rw [ho] at hsame
      rw [add_accepted hp hk hmem h ho (hnot hsame t' ho)] at haccept
      cases haccept
      rfl
    · cases ht with
      | there t hfalse ho => exact Or.inl ⟨hfalse, by rw [ho]; rfl, rfl⟩
      | created hfalse ho =>
        rw [hfalse, ho] at hsame
        exact absurd rfl hsame
      | added schema t u htrue => exact absurd (htrue.trans (hknown htrue).symm) hsame
  cases hr with
  | taken c' ht hroll => exact ⟨hroll, c', rfl, htaken _ ht⟩
  | failed x c' hrefused hv =>
    exfalso
    cases hrefused with
    | unknownSchema hf => exact Bool.false_ne_true (hf.symm.trans (knows_main _ hdot))
    | noTable htrue hf =>
      obtain ⟨t, ho⟩ := Option.isSome_iff_exists.mp (hknown htrue)
      rw [hmeans t ho] at hf
      cases hf
    | duplicate htrue hhas => exact hmiss htrue hhas
    | create hfalse ho hrej =>
      apply hrej ()
      rw [tableRef_undotted hdot]
      exact hp.takes.create _ _ _ _ _ h.plain Db.fold_mainSchema ⟨k, hk, rfl, List.mem_map_of_mem hmem⟩
        (columnType_mem _)
    | add schema htrue hf hrej =>
      obtain ⟨t, ho⟩ := Option.isSome_iff_exists.mp (hknown htrue)
      have hfind := hmeans t ho
      rw [hf] at hfind
      cases hfind
      exact hrej .null (add_accepted hp hk hmem h ho (hnot htrue t ho))
    | deferred db' ht ha hd =>
      have hplain' : db'.Plain := by
        rcases htaken db' ht with ⟨-, -, rfl⟩ | hstored
        · exact h.plain
        · exact hstored.plain
      exact Bool.false_ne_true ((hdoc.deferred _ hplain').symm.trans hd)

lemma search_stored (hdoc : D.Documented) (hp : Proper D ks) (hk : k ∈ ks)
    (hs : WellSpelled noMeta k w₀ db₀) (hd : ∀ n ∈ done, n ∈ k.names) {p : Bytes × VarT}
    (hmem : p ∈ k.values) {F : SQLiteWriter → Db → Prop} :
    Spec (Conn.answer D.engine) (steadily D)
      (fun w s => Stored ks (σ.naming k done) s.view ∧
        SpellLoop D noMeta w₀ db₀ k.table done w s.view)
      (haveColumn k.table p.1)
      (fun known w s => if known = true then Stored ks (σ.naming k (done ++ [p.1])) s.view ∧
          SpellLoop D noMeta w₀ db₀ k.table (done ++ [p.1]) w s.view
        else Stored ks (σ.naming k done) s.view ∧ Missing k.table p.1 w s.view ∧
          SpellLoop D noMeta w₀ db₀ k.table done w s.view)
      (fun _ w s => F w s.view) := by
  obtain ⟨hplain, hdot⟩ := hp.tables k hk
  have hname : p.1 ∈ k.names := List.mem_map_of_mem hmem
  refine (search_spelled (e := steadily D) (C := Stored ks (σ.naming k done)) (F := F) hs
    (fun _ _ h => h) (schema_steady hplain) hd hname fun w s h _ hf =>
      absurd hf (schema_succeeds hdoc hdot h.plain)).weaken (fun _ _ h => h) ?_ (fun _ _ _ h => h)
  intro known w s h
  cases known with
  | false => exact h
  | true =>
    obtain ⟨hstored, -, hloop⟩ := h
    refine ⟨?_, hloop⟩
    have howns : Db.OwnsName s.view k.table p.1 := (hloop.columns p.1).mpr (Or.inr (by simp))
    rw [(hstored.shelved k hk).ownsName] at howns
    rw [RowStore.naming_append (hp.distinct k hk) done hmem, Shelf.name_self howns,
      Function.update_eq_self]
    exact hstored

lemma create_stored (done : List Bytes) (hdoc : D.Documented) (hp : Proper D ks) (hk : k ∈ ks)
    (hs : WellSpelled noMeta k w₀ db₀) {p : Bytes × VarT} (hmem : p ∈ k.values)
    {F : SQLiteWriter → Db → Prop} : Spec (Conn.answer D.engine) (steadily D)
      (fun w s => Stored ks (σ.naming k done) s.view ∧ Missing k.table p.1 w s.view ∧
        SpellLoop D noMeta w₀ db₀ k.table done w s.view)
      (createColumn k.table p)
      (fun _ w s => Stored ks (σ.naming k (done ++ [p.1])) s.view ∧
        SpellLoop D noMeta w₀ db₀ k.table (done ++ [p.1]) w s.view)
      (fun _ w s => F w s.view) := by
  obtain ⟨hplain, hdot⟩ := hp.tables k hk
  have hname : p.1 ∈ k.names := List.mem_map_of_mem hmem
  refine create_spelled (e := steadily D) (C := Stored ks (σ.naming k done))
    (B := Stored ks (σ.naming k (done ++ [p.1]))) (F := F) done hs (fun _ _ h => h)
    (schema_steady hplain) hmem
    (fun w s h _ hf => absurd hf (schema_succeeds hdoc hdot h.plain)) ?_
  intro w s known xs h hmiss _ hknown hxs
  obtain rfl : xs = [] := by
    have hnone : Sql.constraints [] = some [] := rfl
    rw [hnone] at hxs
    exact (Option.some.inj hxs).symm
  have hdefine : ∀ r, Definition s known k.table (Decisions.columnOf p.1 p.2 [])
      (definitionText known k.table p.1 p.2 (noMeta k.table p.1)) r → _ :=
    fun r hr => define_stored hdoc hp hk hmem h (fun htrue => hknown.symm.trans htrue)
      (fun _ => hmiss.noColumn) hr
  have hexec := exec_definition s known (v := p.2) hplain (hp.names k hk p.1 hname) hxs
  refine ⟨(hdefine _ hexec).1, fun r hr => ?_⟩
  obtain ⟨-, c', rfl, ⟨hfalse, hsome, -⟩ | hstored⟩ := hdefine r hr
  · rw [hknown, hsome] at hfalse
    cases hfalse
  · rw [RowStore.naming_append (hp.distinct k hk) done hmem]
    exact hstored

lemma insert_nothing (hne : k.values = []) {c : Conn D.engine} {binds : List Value}
    (h : Stored ks (σ.naming k k.names) c.view) {sql : Bytes}
    {r : Except Bytes (List (Bytes → Option OutVar)) × Conn D.engine}
    (hr : Insertion c k.table k.replace k.names binds sql r) :
    c.rollsBack (.step sql binds false) = false ∧
      r.1.isOk = σ.returns D.convert k ∧ Stored ks (σ.call D.convert k) r.2.view := by
  have hnames : k.names = [] := by simp [Call.names, hne]
  have hcall : σ.call D.convert k = σ ∧ σ.returns D.convert k = false := by
    simp [RowStore.returns, RowStore.call, hne, Shelf.call_nil]
  have huncompiled : Decisions.compileInsert c.view (tableRef k.table) k.names k.names.length ≠ .ok () := by
    simp [Decisions.compileInsert, hnames]
  rw [hnames, RowStore.naming_nil] at h
  rw [hcall.1, hcall.2]
  cases hr with
  | inserted schema f c' hcomp => exact absurd hcomp huncompiled
  | failed x c' hnot hv hroll => exact ⟨hroll, rfl, hv ▸ h⟩
  | rolledBack x schema rc msg c' hcomp => exact absurd hcomp huncompiled

/-- The table of a call whose columns are all named, as the `INSERT` meets it. -/
structure Ready (k : Call) (s : Shelf) (c : Conn D.engine) (t : Table) : Prop where
  own : Db.own c.view k.table = some t
  columns : t.columns = s.columns.map fun col => ⟨col.1, col.2, []⟩
  found : ∀ schema, Db.find c.view (tableRef k.table) = some schema → schema = Db.mainSchema
  lookup : Db.lookup c.view Db.mainSchema k.table = some t
  has : ∀ p ∈ bound k.values, t.Has p.1
  compiles : Decisions.compileInsert c.view (tableRef k.table) k.names k.names.length = .ok ()
  apart : ∀ p ∈ k.values, ∀ col ∈ s.columns, fold p.1 = fold col.1 → p.1 = col.1

lemma ready_of_stored (hp : Proper D ks) (hk : k ∈ ks) (hne : k.values ≠ []) {c : Conn D.engine}
    (h : Stored ks σ c.view) (hnamed : ∀ p ∈ k.values, p.1 ∈ (σ k.table).columns.map (·.1)) :
    ∃ t, Ready k (σ k.table) c t := by
  obtain ⟨hplain, hdot⟩ := hp.tables k hk
  obtain ⟨hschema, hkey⟩ := Db.schemaKey_undotted hdot
  have hshelved := h.shelved k hk
  obtain ⟨p₀, hp₀⟩ := List.exists_mem_of_ne_nil _ hne
  obtain ⟨col₀, hcol₀, -⟩ := hshelved.ownsName.mpr (hnamed p₀ hp₀)
  obtain ⟨t, ho, -⟩ := Db.own_of_mem hcol₀
  have hmeans := (h.onlyMain.unshadowed hdot).means
  have hcols : t.columns = (σ k.table).columns.map fun c => ⟨c.1, c.2, []⟩ := by
    rw [← hshelved.columns, Db.ownColumns_some ho]
  have hhas : ∀ p ∈ k.values, t.Has p.1 := by
    intro p hmem
    obtain ⟨c, hc, hname⟩ := List.mem_map.mp (hnamed p hmem)
    exact ⟨_, hcols ▸ List.mem_map_of_mem hc, congrArg fold hname⟩
  refine ⟨t, ho, hcols, ?_, ?_, ?_, ?_, ?_⟩
  · intro schema hf
    rw [hmeans t ho] at hf
    rw [← Option.some.inj hf]
    exact hschema
  · unfold Db.lookup
    rw [Db.fold_mainSchema, ← hschema, ← hkey]
    exact ho
  · intro p hmem
    obtain ⟨q, hq, rfl⟩ := List.mem_map.mp hmem
    exact hhas q hq
  · apply compileInsert_ok (by simpa [Call.names] using hne) (hmeans.resolve ho)
    intro n hn
    obtain ⟨p, hmem, rfl⟩ := List.mem_map.mp hn
    exact hhas p hmem
  · intro p hmem c hc
    obtain ⟨k', hk', ht, hn'⟩ := h.may k hk c.1 (List.mem_map_of_mem hc)
    exact hp.namesApart k hk k' hk' ht.symm p.1 (List.mem_map_of_mem hmem) c.1 hn'

lemma insert_row (hdoc : D.Documented) (hp : Proper D ks) (hk : k ∈ ks) (hne : k.values ≠ [])
    {c : Conn D.engine} (h : Stored ks σ c.view) {s : Shelf} (hs : σ k.table = s)
    (hnamed : ∀ p ∈ k.values, p.1 ∈ s.columns.map (·.1)) {sql : Bytes}
    {r : Except Bytes (List (Bytes → Option OutVar)) × Conn D.engine}
    (hr : Insertion c k.table k.replace k.names (k.values.map fun p => stored p.2) sql r) :
    c.rollsBack (.step sql (k.values.map fun p => stored p.2) false) = false ∧
    (((∀ p ∈ k.values, (s.held D.convert p).isSome = true) ∧ r.1.isOk = true ∧
      Stored ks (Function.update σ k.table (s.addRow D.convert k.values hnamed)) r.2.view) ∨
    ((¬ ∀ p ∈ k.values, (s.held D.convert p).isSome = true) ∧ r.1.isOk = false ∧
      r.2.view = c.view)) := by
  subst hs
  obtain ⟨hplain, hdot⟩ := hp.tables k hk
  obtain ⟨t, hready⟩ := ready_of_stored hp hk hne h hnamed
  have hbound : k.names.zip (k.values.map fun p => stored p.2) = bound k.values := zip_bound k.values
  have hname : (tableRef k.table).name = k.table := by rw [tableRef_undotted hdot]
  have hconverts := converts_iff hdoc.convert_null hready.apart hready.columns (hp.distinct k hk) hnamed
  -- The decision of SQLite on the row is about the main schema.
  have hdecides : ∀ schema, Db.find c.view (tableRef k.table) = some schema →
      D.insert c.view schema (tableRef k.table).name k.replace
        (k.names.zip (k.values.map fun p => stored p.2)) =
      D.insert c.view Db.mainSchema k.table k.replace (bound k.values) := by
    intro schema hf
    rw [hready.found schema hf, hname, hbound]
  by_cases hall : ∀ p ∈ k.values, ((σ k.table).held D.convert p).isSome = true
  · have hinsert := hdoc.inserted c.view Db.mainSchema k.table t k.replace (bound k.values) h.plain
      hready.lookup hready.has (hconverts.mpr hall)
    rw [newRow_bound hdoc.convert_null hready.apart hready.columns] at hinsert
    have hafter := h.insert hp hk D.convert rfl hnamed hready.own
    cases hr with
    | inserted schema f c' hcomp hf hins hv hroll =>
      rw [hdecides schema hf, hinsert] at hins
      cases hins
      refine ⟨hroll, Or.inl ⟨hall, rfl, ?_⟩⟩
      simp only [hv]
      exact hafter
    | failed x c' hnot hv hroll =>
      exfalso
      cases hnot with
      | uncompiled x hx =>
        rw [hready.compiles] at hx
        cases hx
      | refused schema hf hrej =>
        apply hrej
        rw [hdecides schema hf]
        exact hinsert
      | deferred schema f hf hins ha hd =>
        exact Bool.false_ne_true ((hdoc.deferred _ (h.plain.setRows f)).symm.trans hd)
    | rolledBack x schema rc msg c' hcomp hf hins hv hroll =>
      rw [hdecides schema hf, hinsert] at hins
      cases hins
  · obtain ⟨rc, msg, hinsert⟩ := hdoc.rejected c.view Db.mainSchema k.table t k.replace (bound k.values)
      h.plain hready.lookup hready.has fun hc => hall (hconverts.mp hc)
    cases hr with
    | inserted schema f c' hcomp hf hins hv hroll =>
      rw [hdecides schema hf, hinsert] at hins
      cases hins
    | failed x c' hnot hv hroll => exact ⟨hroll, Or.inr ⟨hall, rfl, hv⟩⟩
    | rolledBack x schema rc' msg' c' hcomp hf hins hv hroll =>
      rw [hdecides schema hf, hinsert] at hins
      cases hins

lemma insert_stored (hdoc : D.Documented) (hp : Proper D ks) (hk : k ∈ ks) {c : Conn D.engine}
    (h : Stored ks (σ.naming k k.names) c.view) {sql : Bytes}
    {r : Except Bytes (List (Bytes → Option OutVar)) × Conn D.engine}
    (hr : Insertion c k.table k.replace k.names (k.values.map fun p => stored p.2) sql r) :
    c.rollsBack (.step sql (k.values.map fun p => stored p.2) false) = false ∧
      r.1.isOk = σ.returns D.convert k ∧ Stored ks (σ.call D.convert k) r.2.view := by
  by_cases hne : k.values = []
  · exact insert_nothing hne h hr
  rw [RowStore.naming_names (hp.distinct k hk)] at h
  obtain ⟨hroll, hrow⟩ := insert_row hdoc hp hk hne h (Function.update_self _ _ _) Shelf.named_nameAll hr
  refine ⟨hroll, ?_⟩
  unfold RowStore.returns RowStore.call
  rcases hrow with ⟨hall, hok, hstored⟩ | ⟨hall, hok, hview⟩
  · rw [Shelf.call_converts D.convert hne hall]
    rw [Function.update_idem] at hstored
    exact ⟨hok, hstored⟩
  · rw [Shelf.call_rejects D.convert hne hall, hview]
    exact ⟨hok, h⟩

lemma params_proper (hp : Proper D ks) (hk : k ∈ ks) :
    D.engine.params (insertText k.replace k.table (k.values.map (·.1))) = k.values.length := by
  have hcount := params_insertText k.replace (hp.tables k hk).1 (hp.names k hk)
  rwa [Call.names, List.length_map] at hcount

lemma bindAll_proper (hp : Proper D ks) (hk : k ∈ ks) :
    (bindAll D.engine (List.replicate (D.engine.params (insertText k.replace k.table
      (k.values.map (·.1)))) .null) 1 k.values).1 = .ok () := by
  have hok := bindAll_fits (hp.fits k hk)
    (List.replicate (D.engine.params (insertText k.replace k.table (k.values.map (·.1)))) .null) 0
    (by rw [List.length_replicate, params_proper hp hk, Nat.zero_add])
  rwa [Nat.zero_add] at hok

lemma insertBinds_proper (hp : Proper D ks) (hk : k ∈ ks) {vs : List Value}
    (hvs : boundValues D.engine k.values = .ok vs) :
    insertBinds D.engine (insertText k.replace k.table (k.values.map (·.1))) vs =
      k.values.map fun p => stored p.2 := by
  obtain rfl : (k.values.map fun p => stored p.2) = vs :=
    Except.ok.inj ((boundValues_stored (hp.fits k hk)).symm.trans hvs)
  unfold insertBinds
  rw [params_proper hp hk, List.length_map, Nat.sub_self, List.replicate_zero, List.append_nil]

/-- The state in the column loop of a call, after the fields `done`. -/
structure Midway (D : Decisions) (ks : List Call) (σ : RowStore) (k : Call) (w₀ : SQLiteWriter) (db₀ : Db)
    (done : List Bytes) (w : SQLiteWriter) (db : Db) : Prop where
  names : ∀ n ∈ done, n ∈ k.names
  stored : Stored ks (σ.naming k done) db
  spelled : SpellLoop D noMeta w₀ db₀ k.table done w db

/-- The state after a call, of which the store says whether it returns. -/
structure Finished (D : Decisions) (ks : List Call) (σ : RowStore) (k : Call) (w₀ : SQLiteWriter)
    (db₀ : Db) (returned : Bool) (w : SQLiteWriter) (db : Db) : Prop where
  returns : returned = σ.returns D.convert k
  stored : Stored ks (σ.call D.convert k) db
  spelled : SpellLoop D noMeta w₀ db₀ k.table k.names w db

lemma Midway.all (hp : Proper D ks) (hk : k ∈ ks) (hs : WellSpelled noMeta k w₀ db₀)
    (h : Midway D ks σ k w₀ db₀ [] w db) (hl : ∀ p ∈ k.values, w.Lists k.table p.1) :
    Midway D ks σ k w₀ db₀ k.names w db := by
  have hall := h.spelled.all hs hl
  refine ⟨fun _ hn => hn, ?_, hall⟩
  have hstored := h.stored
  rw [RowStore.naming_nil] at hstored
  have hnames : (σ k.table).nameAll k.values = σ k.table := by
    apply Shelf.nameAll_self
    intro p hmem
    rw [← (hstored.shelved k hk).ownsName]
    exact (hall.columns p.1).mpr (Or.inr (List.mem_map_of_mem hmem))
  rw [RowStore.naming_names (hp.distinct k hk), hnames, Function.update_eq_self]
  exact hstored

/-- A call keeps the database and the store together. -/
theorem callConditions_stored (hdoc : D.Documented) (hp : Proper D ks) (hk : k ∈ ks)
    (hs : WellSpelled noMeta k w₀ db₀) (hw : w₀.dFlag ≠ .readOnly) :
    CallConditions D.engine (steadily D) k.table k.values k.replace (Midway D ks σ k w₀ db₀)
      (fun done p w d => (∀ n ∈ done, n ∈ k.names) ∧ Stored ks (σ.naming k done) d ∧
        Missing k.table p.1 w d ∧ SpellLoop D noMeta w₀ db₀ k.table done w d)
      (Finished D ks σ k w₀ db₀ true) (Finished D ks σ k w₀ db₀ false) where
  writable _ _ _ h := h.spelled.dFlag ▸ hw
  cacheOk _ _ _ h := h.spelled.cacheOk
  listed w d h p hmem := h.spelled.lists (List.mem_map_of_mem hmem)
  cached w d h hl := h.all hp hk hs hl
  stable w s s' h hss := by
    obtain rfl : s = s' := hss
    exact h
  settled := fun w v d h hr => ⟨h.names, h.stored, settled_spellLoop w v d h.spelled hr⟩
  settledPost := fun w v d h hr => ⟨h.returns, h.stored, settled_spellLoop w v d h.spelled hr⟩
  settledF := fun w v d h hr => ⟨h.returns, h.stored, settled_spellLoop w v d h.spelled hr⟩
  search done p hmem := by
    have hname : p.1 ∈ k.names := List.mem_map_of_mem hmem
    intro w s h
    have hsearch := search_stored (σ := σ) (F := Finished D ks σ k w₀ db₀ false) hdoc hp hk hs h.names hmem
    refine (hsearch w s ⟨h.stored, h.spelled⟩).weaken fun r t hx => ?_
    obtain ⟨x, v⟩ := r
    cases x with
    | error x => exact hx
    | ok known =>
      cases known with
      | true => exact ⟨by simpa [or_imp, forall_and] using ⟨h.names, hname⟩, hx.1, hx.2⟩
      | false => exact ⟨h.names, hx⟩
  create done p hmem := by
    have hname : p.1 ∈ k.names := List.mem_map_of_mem hmem
    intro w s h
    have hcreate := create_stored (σ := σ) (F := Finished D ks σ k w₀ db₀ false) done hdoc hp hk hs hmem
    refine (hcreate w s h.2).weaken fun r t hx => ?_
    obtain ⟨x, v⟩ := r
    cases x with
    | error x => exact hx
    | ok u => exact ⟨by simpa [or_imp, forall_and] using ⟨h.1, hname⟩, hx.1, hx.2⟩
  compile w s h _ := by
    refine ⟨rfl, fun x hx => ?_⟩
    obtain ⟨hplain, -⟩ := hp.tables k hk
    have hcompile : D.engine.prepare s.view (insertText k.replace k.table k.names) = _ :=
      prepare_insertText k.replace hplain (hp.names k hk)
    have hcomp := hcompile.symm.trans hx
    have hstored : Stored ks (σ.naming k k.names) s.view := h.stored
    have hloop : SpellLoop D noMeta w₀ db₀ k.table k.names w s.view := h.spelled
    by_cases hne : k.values = []
    · have hnames : k.names = [] := by simp [Call.names, hne]
      have hcall : σ.call D.convert k = σ ∧ σ.returns D.convert k = false := by
        simp [RowStore.returns, RowStore.call, hne, Shelf.call_nil]
      rw [hnames, RowStore.naming_nil] at hstored
      exact ⟨hcall.2.symm, hcall.1.symm ▸ hstored, hloop⟩
    · rw [RowStore.naming_names (hp.distinct k hk)] at hstored
      obtain ⟨t, hready⟩ := ready_of_stored hp hk hne hstored (by
        rw [Function.update_self]
        exact Shelf.named_nameAll)
      rw [hready.compiles] at hcomp
      cases hcomp
  bindGuarantee _ _ := rfl
  bindFails x w d h hx := by
    rw [bindAll_proper hp hk] at hx
    cases hx
  step vs w s hvs hlen h _ := by
    obtain ⟨hplain, -⟩ := hp.tables k hk
    rw [insertBinds_proper hp hk hvs]
    have hinsertion := step_insertText s k.replace (k.values.map fun p => stored p.2) hplain (hp.names k hk)
    obtain ⟨hroll, hreturns, hstored⟩ := insert_stored hdoc hp hk h.stored hinsertion
    have hloop : ∀ r, Insertion s k.table k.replace k.names (k.values.map fun p => stored p.2)
        (insertText k.replace k.table k.names) r → SpellLoop D noMeta w₀ db₀ k.table k.names w r.2.view := by
      intro r hr
      cases hr with
      | inserted schema f c' hcomp hf hins hv =>
        simp only [hv]
        exact h.spelled.setRows f
      | failed x c' hnot hv =>
        simp only [hv]
        exact h.spelled
      | rolledBack x schema rc msg c' hcomp hf hins hv hrolled =>
        rw [hroll] at hrolled
        cases hrolled
    have hspelled := hloop _ hinsertion
    refine ⟨hroll, ?_⟩
    simp only at hreturns
    generalize hresult : MiniSQLite.stepRows false (s.step (insertText k.replace k.table k.names)
      (k.values.map fun p => stored p.2) false).1 = x at hreturns
    rw [Call.names] at hresult
    rw [hresult]
    cases x with
    | ok rows => exact ⟨hreturns, hstored, hspelled⟩
    | error x => exact ⟨hreturns, hstored, hspelled⟩

end SQLiteWriter

end SqliteWrite
