import SqliteWrite.Writer.KeyedStore
import SqliteWrite.Writer.Ledgers

/-! Runs of a writer whose tables have keys: a call returns exactly when the log of the calls before it
admits it, and a query for a table reads the last row that was written under each key. -/
namespace SqliteWrite
open Method

/-- A column of a shelf as a column of a table. -/
def keyedColumn (columnMeta : Bytes → Bytes → Bytes) (table : Bytes) (c : Bytes × Bytes) : Column :=
  ⟨c.1, c.2, (Sql.constraints (columnMeta table c.1)).getD []⟩

/-- The table without its constraints. -/
def Table.bare (t : Table) : Table :=
  ⟨t.columns.map fun col => ⟨col.name, col.type, []⟩, t.rows, by simpa using t.nonempty⟩

lemma Table.bare_columns (t : Table) : t.bare.columns = t.columns.map fun col => ⟨col.name, col.type, []⟩ := rfl

lemma Table.newRow_bare (t : Table) (convert : Bytes → Value → Option Value) (named : List (Bytes × Value)) :
    t.bare.newRow convert named = t.newRow convert named := by
  unfold Table.newRow Table.bare
  rw [List.map_map]
  rfl

lemma Table.converts_bare (t : Table) (convert : Bytes → Value → Option Value) (named : List (Bytes × Value)) :
    t.bare.Converts convert named ↔ t.Converts convert named := by
  unfold Table.Converts Table.bare
  rw [List.forall_mem_map]
  rfl

/-- Calls on tables with keys: each text is one statement, no two spellings denote one table or one of its
columns, a table begins with its key, which is its only column with a meta, and every call supplies a value
for it; SQLite takes the columns and the values. -/
structure KeyedCalls (D : Decisions) (columnMeta : Bytes → Bytes → Bytes) (key : Bytes → Bytes)
    (ks : List Call) : Prop where
  readable : ∀ k ∈ ks, k.Readable columnMeta
  undotted : ∀ k ∈ ks, 46 ∉ k.table
  distinct : ∀ k ∈ ks, k.names.Nodup
  tablesApart : ∀ k ∈ ks, ∀ k' ∈ ks, fold k.table = fold k'.table → k.table = k'.table
  namesApart : ∀ k ∈ ks, ∀ k' ∈ ks, k.table = k'.table →
    ∀ n ∈ k.names, ∀ n' ∈ k'.names, fold n = fold n' → n = n'
  fits : ∀ k ∈ ks, ∀ p ∈ k.values, Fits D p.2
  leads : ∀ k ∈ ks, ∀ n ∈ ((ks.filter (·.table = k.table)).flatMap (·.names)).head?, n = key k.table
  keyed : ∀ k ∈ ks, k.values ≠ [] → ∃ p ∈ k.values, p.1 = key k.table ∧ stored p.2 ≠ .null
  isKey : ∀ k ∈ ks, (keyedColumn columnMeta k.table (key k.table, [])).IsKey
  plain : ∀ k ∈ ks, ∀ n ∈ k.names, n ≠ key k.table → Sql.constraints (columnMeta k.table n) = some []
  takes : D.TakesKeyed (May ks)

namespace KeyedCalls
variable {D : Decisions} {columnMeta : Bytes → Bytes → Bytes} {key : Bytes → Bytes} {ks : List Call} {k k' : Call}
  {n : Bytes}

lemma place (hp : KeyedCalls D columnMeta key ks) (hk : k ∈ ks) :
    schemaKey k.table = Db.mainSchema ∧ nameKey k.table = fold k.table :=
  Db.schemaKey_undotted (hp.undotted k hk)

lemma samePlace (hp : KeyedCalls D columnMeta key ks) (hk : k ∈ ks) (hk' : k' ∈ ks)
    (h : SamePlace k.table k'.table) : k.table = k'.table := by
  apply hp.tablesApart k hk k' hk'
  rw [← (hp.place hk).2, ← (hp.place hk').2]
  exact h.2

lemma apart (hp : KeyedCalls D columnMeta key ks) : Apart (ks.map (·.table)) := by
  constructor
  · intro t ht u hu h
    obtain ⟨k, hk, rfl⟩ := List.mem_map.mp ht
    obtain ⟨k', hk', rfl⟩ := List.mem_map.mp hu
    exact hp.samePlace hk hk' h
  · intro t ht u hu _ h
    obtain ⟨k, hk, rfl⟩ := List.mem_map.mp ht
    obtain ⟨k', hk', rfl⟩ := List.mem_map.mp hu
    apply hp.samePlace hk hk'
    exact ⟨(hp.place hk).1.trans (hp.place hk').1.symm, h⟩

lemma named_apart (hp : KeyedCalls D columnMeta key ks) (hk : k ∈ ks) {m : Bytes} (hm : May ks k.table m)
    (hn : n ∈ k.names) (h : fold n = fold m) : n = m := by
  obtain ⟨k', hk', ht, hm'⟩ := hm
  exact hp.namesApart k hk k' hk' ht.symm n hn m hm' h

lemma constraints_nil (hp : KeyedCalls D columnMeta key ks) (hn : May ks k.table n) (hne : n ≠ key k.table)
    (type : Bytes) : (keyedColumn columnMeta k.table (n, type)).constraints = [] := by
  obtain ⟨k', hk', ht, hmem⟩ := hn
  rw [← ht] at hne ⊢
  have hplain := hp.plain k' hk' n hmem hne
  simp only [keyedColumn, hplain, Option.getD_some]

lemma simple (hp : KeyedCalls D columnMeta key ks) (hk : k ∈ ks) (hn : May ks k.table n) (type : Bytes) :
    (keyedColumn columnMeta k.table (n, type)).Simple := by
  by_cases hkey : n = key k.table
  · rw [hkey]
    exact Or.inr (hp.isKey k hk)
  · exact Or.inl (hp.constraints_nil hn hkey type)

end KeyedCalls

/-- The database holds what the shelves say, in tables of the main schema that begin with their keys. -/
structure Stocked (columnMeta : Bytes → Bytes → Bytes) (key : Bytes → Bytes) (ks : List Call) (σ : RowStore)
    (db : Db) : Prop where
  simple : db.Simple
  onlyMain : db.OnlyMain
  columns : ∀ k ∈ ks, db.ownColumns k.table = (σ k.table).columns.map (keyedColumn columnMeta k.table)
  rows : ∀ k ∈ ks, db.ownRows k.table = (σ k.table).rows.map fun r => (σ k.table).columns.map fun c => r c.1
  leads : ∀ k ∈ ks, ∀ c ∈ (σ k.table).columns.head?, c.1 = key k.table
  may : ∀ k ∈ ks, ∀ n ∈ (σ k.table).columns.map (·.1), May ks k.table n

namespace Stocked
variable {D : Decisions} {columnMeta : Bytes → Bytes → Bytes} {key : Bytes → Bytes} {ks : List Call}
  {σ : RowStore} {db : Db} {k : Call} {p : Bytes × VarT} {t : Table} {n : Bytes}

lemma ownsName (h : Stocked columnMeta key ks σ db) (hk : k ∈ ks) :
    db.OwnsName k.table n ↔ n ∈ (σ k.table).columns.map (·.1) := by
  unfold Db.OwnsName
  rw [h.columns k hk]
  simp only [List.mem_map]
  constructor
  · rintro ⟨col, ⟨c, hc, rfl⟩, rfl⟩
    exact ⟨c, hc, rfl⟩
  · rintro ⟨c, hc, rfl⟩
    exact ⟨_, ⟨c, hc, rfl⟩, rfl⟩

lemma own_columns (h : Stocked columnMeta key ks σ db) (hk : k ∈ ks) (ho : db.own k.table = some t) : t.columns = (σ k.table).columns.map (keyedColumn columnMeta k.table) ∧
      ∃ type rest, (σ k.table).columns = (key k.table, type) :: rest ∧
        ∀ c ∈ rest, c.1 ≠ key k.table := by
  have hcols := h.columns k hk
  rw [Db.ownColumns_some ho] at hcols
  refine ⟨hcols, ?_⟩
  have hne : (σ k.table).columns ≠ [] := by
    intro hnil
    rw [hnil] at hcols
    exact t.nonempty hcols
  obtain ⟨c, rest, hrest⟩ := List.exists_cons_of_ne_nil hne
  have hlead := h.leads k hk c (by rw [hrest]; rfl)
  have hnodup := (σ k.table).nodup
  rw [hrest, List.map_cons, List.nodup_cons, hlead] at hnodup
  refine ⟨c.2, rest, by rw [hrest, ← hlead], ?_⟩
  intro c' hc' heq
  exact hnodup.1 (heq ▸ List.mem_map_of_mem hc')

lemma keyFirst (h : Stocked columnMeta key ks σ db) (hp : KeyedCalls D columnMeta key ks) (hk : k ∈ ks)
    (ho : db.own k.table = some t) : ∃ type, (key k.table, type) ∈ (σ k.table).columns ∧
      t.KeyFirst (keyedColumn columnMeta k.table (key k.table, type)) := by
  obtain ⟨hcols, type, rest, hrest, hothers⟩ := h.own_columns hk ho
  refine ⟨type, by simp [hrest], hp.isKey k hk, rest.map (keyedColumn columnMeta k.table), ?_, ?_⟩
  · rw [hcols, hrest, List.map_cons]
  · intro col hcol
    obtain ⟨c, hc, rfl⟩ := List.mem_map.mp hcol
    apply hp.constraints_nil (h.may k hk c.1 _) (hothers c hc)
    rw [hrest]
    exact List.mem_map_of_mem (List.mem_cons_of_mem _ hc)

lemma own_none (h : Stocked columnMeta key ks σ db) (hk : k ∈ ks) :
    db.own k.table = none ↔ (σ k.table).columns = [] := by
  have hcols := h.columns k hk
  cases ho : db.own k.table with
  | none =>
    rw [Db.ownColumns, ho] at hcols
    exact ⟨fun _ => List.map_eq_nil_iff.mp hcols.symm, fun _ => rfl⟩
  | some t =>
    rw [Db.ownColumns_some ho] at hcols
    constructor
    · intro hno
      cases hno
    · intro hnil
      rw [hnil] at hcols
      exact absurd hcols t.nonempty

lemma put (h : Stocked columnMeta key ks σ db) (hp : KeyedCalls D columnMeta key ks) (hk : k ∈ ks)
    (hmem : p ∈ k.values) (hn : p.1 ∉ (σ k.table).columns.map (·.1))
    (hlead : (σ k.table).columns = [] → p.1 = key k.table) {u : Value}
    (hcols : t.columns = db.ownColumns k.table ++ [fieldColumn columnMeta k.table p])
    (hrows : t.rows = (db.ownRows k.table).map (· ++ [u])) (hu : db.own k.table ≠ none → u = .null) :
    Stocked columnMeta key ks (Function.update σ k.table ((σ k.table).name p))
      (db.put ((tableRef k.table).schema.getD Db.mainSchema) (tableRef k.table).name t) := by
  have hmay : May ks k.table p.1 := ⟨k, hk, rfl, List.mem_map_of_mem hmem⟩
  have hother : ∀ k' ∈ ks, k'.table ≠ k.table →
      (db.put ((tableRef k.table).schema.getD Db.mainSchema) (tableRef k.table).name t).own k'.table =
        db.own k'.table :=
    fun k' hk' hne => Db.own_put_other t fun hsame => hne (hp.samePlace hk' hk hsame)
  rw [h.columns k hk] at hcols
  rw [h.rows k hk] at hrows
  refine ⟨?_, ?_, fun k' hk' => ?_, fun k' hk' => ?_, fun k' hk' => ?_, fun k' hk' => ?_⟩
  · apply h.simple.put
    intro col hcol
    rw [hcols] at hcol
    rcases List.mem_append.mp hcol with hcol | hcol
    · obtain ⟨c, hc, rfl⟩ := List.mem_map.mp hcol
      exact hp.simple hk (h.may k hk c.1 (List.mem_map_of_mem hc)) c.2
    · rw [List.mem_singleton.mp hcol]
      exact hp.simple hk hmay (columnType p.2)
  · rw [tableRef_undotted (hp.undotted k hk)]
    exact h.onlyMain.put _ t
  · by_cases heq : k'.table = k.table
    · rw [heq, Function.update_self, Db.ownColumns_some (Db.own_put_self t), hcols, Shelf.name_columns hn,
        List.map_append]
      rfl
    · rw [Function.update_of_ne heq, Db.ownColumns, hother k' hk' heq]
      exact h.columns k' hk'
  · by_cases heq : k'.table = k.table
    · rw [heq, Function.update_self, Db.ownRows_some (Db.own_put_self t), hrows, Shelf.name_columns hn,
        Shelf.name_rows, List.map_map]
      apply List.map_congr_left
      intro r hr
      have hnull : u = r p.1 := by
        rw [(σ k.table).unnamed r hr p.1 hn]
        apply hu
        -- A table that is not there has no rows.
        intro hnone
        have hempty := h.rows k hk
        rw [Db.ownRows, hnone] at hempty
        rw [List.map_eq_nil_iff.mp hempty.symm] at hr
        cases hr
      simp [hnull]
    · rw [Function.update_of_ne heq, Db.ownRows, hother k' hk' heq]
      exact h.rows k' hk'
  · by_cases heq : k'.table = k.table
    · rw [heq, Function.update_self, Shelf.name_columns hn]
      cases hnil : (σ k.table).columns with
      | nil => simpa using hlead hnil
      | cons c rest =>
        have hleads := h.leads k hk
        rw [hnil] at hleads
        simpa using hleads
    · rw [Function.update_of_ne heq]
      exact h.leads k' hk'
  · intro n hn'
    by_cases heq : k'.table = k.table
    · rw [heq, Function.update_self, Shelf.mem_name] at hn'
      rw [heq]
      rcases hn' with hn' | rfl
      · exact h.may k hk n hn'
      · exact hmay
    · rw [Function.update_of_ne heq] at hn'
      exact h.may k' hk' n hn'

lemma define (h : Stocked columnMeta key ks σ db) (hp : KeyedCalls D columnMeta key ks) (hk : k ∈ ks)
    (hmem : p ∈ k.values) (hn : p.1 ∉ (σ k.table).columns.map (·.1))
    (hlead : (σ k.table).columns = [] → p.1 = key k.table) : ∃ db',
      D.define columnMeta k.table p db = .accept db' ∧
      Stocked columnMeta key ks (Function.update σ k.table ((σ k.table).name p)) db' := by
  have hmay : May ks k.table p.1 := ⟨k, hk, rfl, List.mem_map_of_mem hmem⟩
  have hschema := (hp.place hk).1
  have href := tableRef_undotted (hp.undotted k hk)
  have hadd : ∀ t, db.own k.table = some t → ¬ t.Has p.1 ∧
      D.add db (schemaKey k.table) (tableRef k.table).name (fieldColumn columnMeta k.table p) = .accept .null := by
    intro t ho
    obtain ⟨hcols, type, rest, hrest, -⟩ := h.own_columns hk ho
    have hfind : ∀ col ∈ t.columns, ∃ c ∈ (σ k.table).columns, col.name = c.1 := by
      intro col hcol
      rw [hcols] at hcol
      obtain ⟨c, hc, rfl⟩ := List.mem_map.mp hcol
      exact ⟨c, hc, rfl⟩
    have hnot : ¬ t.Has p.1 := by
      rintro ⟨col, hcol, hfold⟩
      obtain ⟨c, hc, hname⟩ := hfind col hcol
      rw [hname] at hfold
      have hsame := hp.named_apart hk (h.may k hk c.1 (List.mem_map_of_mem hc)) (List.mem_map_of_mem hmem)
        hfold.symm
      exact hn (hsame ▸ List.mem_map_of_mem hc)
    have hkey : p.1 ≠ key k.table := by
      intro heq
      apply hn
      rw [heq, hrest]
      simp
    have hfield : fieldColumn columnMeta k.table p = ⟨p.1, columnType p.2, []⟩ := by
      have hnil := hp.constraints_nil hmay hkey (columnType p.2)
      simp only [keyedColumn] at hnil
      simp only [fieldColumn, Decisions.columnOf, hnil]
    have hlookup : db.lookup (schemaKey k.table) (tableRef k.table).name = some t := by
      unfold Db.lookup
      rw [hschema, Db.fold_mainSchema, ← hschema]
      exact ho
    refine ⟨hnot, ?_⟩
    rw [hfield]
    rw [hschema, href] at hlookup ⊢
    apply hp.takes.add _ _ _ _ _ t h.simple Db.fold_mainSchema hmay (columnType_mem _) hlookup _ hnot
    intro col hcol
    obtain ⟨c, hc, hname⟩ := hfind col hcol
    rw [hname]
    exact h.may k hk c.1 (List.mem_map_of_mem hc)
  have haccept : ∃ db', D.define columnMeta k.table p db = .accept db' := by
    unfold Decisions.define
    cases ho : db.own k.table with
    | none =>
      have hkey : p.1 = key k.table := hlead ((h.own_none hk).mp ho)
      have hisKey : (fieldColumn columnMeta k.table p).IsKey := by
        have hkeyed := hp.isKey k hk
        rw [← hkey] at hkeyed
        exact hkeyed
      rw [href]
      have hcreate := hp.takes.create db Db.mainSchema k.table (fieldColumn columnMeta k.table p) h.simple
        Db.fold_mainSchema hmay (columnType_mem _) hisKey
      simp only [Option.getD_none, hcreate]
      exact ⟨_, rfl⟩
    | some t =>
      obtain ⟨hnot, hnull⟩ := hadd t ho
      simp only [if_neg hnot, hnull]
      exact ⟨_, rfl⟩
  obtain ⟨db', hdefine⟩ := haccept
  obtain ⟨t, u, rfl, hcols, hrows, hu⟩ := Decisions.define_accept hdefine
  refine ⟨_, hdefine, h.put hp hk hmem hn hlead hcols hrows fun hne => ?_⟩
  obtain ⟨t₀, ho⟩ := Option.ne_none_iff_exists'.mp hne
  have hu₀ := hu t₀ ho
  rw [(hadd t₀ ho).2] at hu₀
  cases hu₀
  rfl

lemma defineAll (hp : KeyedCalls D columnMeta key ks) (hk : k ∈ ks) {values : Fields}
    (hvalues : ∀ p ∈ values, p ∈ k.values) (h : Stocked columnMeta key ks σ db)
    (hlead : (σ k.table).columns = [] → ∀ p ∈ values.head?, p.1 = key k.table) : ∃ db',
      D.defineAll columnMeta k.table values db = .returned db' ∧
      Stocked columnMeta key ks (Function.update σ k.table ((σ k.table).nameAll values)) db' := by
  induction values generalizing σ db with
  | nil =>
    refine ⟨db, rfl, ?_⟩
    have hself : Function.update σ k.table ((σ k.table).nameAll []) = σ := Function.update_eq_self _ _
    rw [hself]
    exact h
  | cons p values ih =>
    have hmem : p ∈ k.values := hvalues p (by simp)
    have hrest : ∀ q ∈ values, q ∈ k.values := fun q hq => hvalues q (by simp [hq])
    have hnext : (σ k.table).nameAll (p :: values) = ((σ k.table).name p).nameAll values := rfl
    rw [hnext]
    by_cases howns : db.OwnsName k.table p.1
    · have hthere := (h.ownsName hk).mp howns
      rw [Decisions.defineAll_found howns, Shelf.name_self hthere]
      apply ih hrest h
      intro hnil
      rw [hnil] at hthere
      cases hthere
    · have hn : p.1 ∉ (σ k.table).columns.map (·.1) := fun hin => howns ((h.ownsName hk).mpr hin)
      obtain ⟨db', hdefine, hput⟩ := h.define hp hk hmem hn fun hnil => hlead hnil p rfl
      rw [Decisions.defineAll_missing howns, hdefine]
      obtain ⟨db'', hall, hstocked⟩ := ih hrest hput fun hnil => by
        rw [Function.update_self, Shelf.name_columns hn] at hnil
        simp at hnil
      refine ⟨db'', hall, ?_⟩
      rw [Function.update_self, Function.update_idem] at hstocked
      exact hstocked

/-- The table of a call whose columns are all there, as its `INSERT` meets it. -/
structure Meets (D : Decisions) (key : Bytes) (k : Call) (s : Shelf) (t : Table) : Prop where
  has : ∀ p ∈ bound k.values, t.Has p.1
  converts : t.Converts D.convert (bound k.values) ↔ ∀ p ∈ k.values, (s.held D.convert p).isSome = true
  newRow : t.newRow D.convert (bound k.values) = s.columns.map fun c => s.row D.convert k.values c.1
  keyed : ∃ col, t.KeyFirst col ∧ Table.cell D.convert (bound k.values) col ≠ some .null
  clash : (∀ r ∈ t.rows, (r.headD .null).same ((t.newRow D.convert (bound k.values)).headD .null) = false) ↔
    ∀ r ∈ s.rows, Shelf.byKey key r (s.row D.convert k.values) = false

lemma meets (h : Stocked columnMeta key ks σ db) (hdoc : D.KeysDocumented)
    (hp : KeyedCalls D columnMeta key ks) (hk : k ∈ ks) (hne : k.values ≠ [])
    (hnamed : ∀ p ∈ k.values, p.1 ∈ (σ k.table).columns.map (·.1)) (ho : db.own k.table = some t) :
    Meets D (key k.table) k (σ k.table) t := by
  obtain ⟨hcols, type, rest, hrest, -⟩ := h.own_columns hk ho
  have hbare : t.bare.columns = (σ k.table).columns.map fun c => ⟨c.1, c.2, []⟩ := by
    rw [Table.bare_columns, hcols, List.map_map]
    rfl
  have hapart : ∀ p ∈ k.values, ∀ c ∈ (σ k.table).columns, fold p.1 = fold c.1 → p.1 = c.1 := fun p hmem c hc =>
    hp.named_apart hk (h.may k hk c.1 (List.mem_map_of_mem hc)) (List.mem_map_of_mem hmem)
  have hnewRow : t.newRow D.convert (bound k.values) =
      (σ k.table).columns.map fun c => (σ k.table).row D.convert k.values c.1 :=
    (t.newRow_bare _ _).symm.trans (newRow_bound hdoc.convert_null hapart hbare)
  refine ⟨?_, ?_, hnewRow, ?_, ?_⟩
  · intro q hq
    obtain ⟨p, hmem, rfl⟩ := List.mem_map.mp hq
    obtain ⟨c, hc, hname⟩ := List.mem_map.mp (hnamed p hmem)
    exact ⟨_, hcols ▸ List.mem_map_of_mem hc, congrArg fold hname⟩
  · rw [← Table.converts_bare]
    exact converts_iff hdoc.convert_null hapart hbare (hp.distinct k hk) hnamed
  · obtain ⟨type', htype, hfirst⟩ := h.keyFirst hp hk ho
    refine ⟨_, hfirst, ?_⟩
    obtain ⟨p, hmem, hpkey, hvalue⟩ := hp.keyed k hk hne
    have hcell : Table.cell D.convert (bound k.values) (keyedColumn columnMeta k.table (key k.table, type')) = _ :=
      cell_bound hdoc.convert_null hapart htype
    have hheld : (σ k.table).held D.convert p = D.convert type' (stored p.2) := by
      have htypeAt : (σ k.table).type? (key k.table) = some type' := Shelf.type?_eq htype
      unfold Shelf.held
      rw [hpkey, htypeAt, Option.bind_some]
    rw [hcell, ← hpkey, Shelf.find?_self (hp.distinct k hk) hmem]
    simp only
    rw [hheld]
    intro hnull
    exact hvalue (hdoc.convert_value _ _ hnull)
  · have hrows := h.rows k hk
    rw [Db.ownRows_some ho, hrest] at hrows
    rw [hnewRow, hrows, hrest, List.forall_mem_map]
    rfl

lemma insertRow (h : Stocked columnMeta key ks σ db) (hdoc : D.KeysDocumented)
    (hp : KeyedCalls D columnMeta key ks) (hk : k ∈ ks) (hne : k.values ≠ [])
    (hnamed : ∀ p ∈ k.values, p.1 ∈ (σ k.table).columns.map (·.1)) :
    D.insertRow k db = if (∀ p ∈ k.values, ((σ k.table).held D.convert p).isSome = true) ∧
        (k.replace = true ∨ ∀ r ∈ (σ k.table).rows,
          Shelf.byKey (key k.table) r ((σ k.table).row D.convert k.values) = false)
      then .returned (db.setRows (db.replaceRow Db.mainSchema k.table
        ((σ k.table).columns.map fun c => (σ k.table).row D.convert k.values c.1)))
      else .threw db := by
  obtain ⟨p₀, hp₀⟩ := List.exists_mem_of_ne_nil _ hne
  obtain ⟨col₀, hcol₀, -⟩ := (h.ownsName hk).mpr (hnamed p₀ hp₀)
  obtain ⟨t, ho, -⟩ := Db.own_of_mem hcol₀
  obtain ⟨hhas, hconverts, hnewRow, ⟨col, hfirst, hcell⟩, hclash⟩ := h.meets hdoc hp hk hne hnamed ho
  have hlookup : db.lookup Db.mainSchema k.table = some t := by
    unfold Db.lookup
    rw [Db.fold_mainSchema, ← (hp.place hk).1, ← (hp.place hk).2]
    exact ho
  have hzip : k.names.zip (k.values.map fun p => stored p.2) = bound k.values := zip_bound k.values
  unfold Decisions.insertRow
  rw [boundValues_stored (hp.fits k hk), (hp.place hk).1, tableRef_undotted (hp.undotted k hk)]
  simp only [hzip]
  by_cases hall : t.Converts D.convert (bound k.values)
  · by_cases hput : k.replace = true ∨ ∀ r ∈ (σ k.table).rows,
        Shelf.byKey (key k.table) r ((σ k.table).row D.convert k.values) = false
    · rw [hdoc.stored db Db.mainSchema k.table t col k.replace (bound k.values) h.simple hlookup hfirst hhas hall
        hcell (hput.imp_right hclash.mpr), if_pos ⟨hconverts.mp hall, hput⟩, hnewRow]
    · rw [not_or, Bool.not_eq_true] at hput
      have hsame : ∃ r ∈ t.rows,
          (r.headD .null).same ((t.newRow D.convert (bound k.values)).headD .null) = true := by
        by_contra hno
        push Not at hno
        exact hput.2 (hclash.mp fun r hr => by simpa using hno r hr)
      obtain ⟨rc, msg, hrefused⟩ := hdoc.refused db Db.mainSchema k.table t col (bound k.values) h.simple hlookup
        hfirst hhas hall hcell hsame
      rw [hput.1, hrefused, if_neg (by simp [hput.2])]
  · obtain ⟨rc, msg, hrejected⟩ := hdoc.rejected db Db.mainSchema k.table t col k.replace (bound k.values)
      h.simple hlookup hfirst hhas hall hcell
    rw [hrejected, if_neg fun hand => hall (hconverts.mpr hand.1)]

lemma replace (h : Stocked columnMeta key ks σ db) (hp : KeyedCalls D columnMeta key ks) (hk : k ∈ ks)
    (hne : (σ k.table).columns ≠ []) {r : Bytes → Value} {s : Shelf} (hcols : s.columns = (σ k.table).columns)
    (hrows : s.rows = putOver (Shelf.byKey (key k.table)) (σ k.table).rows r) :
    Stocked columnMeta key ks (Function.update σ k.table s)
      (db.setRows (db.replaceRow Db.mainSchema k.table ((σ k.table).columns.map fun c => r c.1))) := by
  obtain ⟨hschema, hname⟩ := hp.place hk
  have hown : ∀ f u, (db.setRows f).ownRows u =
      ((db.own u).map fun _ => f (schemaKey u) (nameKey u)).getD [] := by
    intro f u
    simp only [Db.ownRows, Db.own, Db.setRows, Option.map_map]
    rfl
  have hthere : ∀ u, db.rows (schemaKey u) (nameKey u) = db.ownRows u := fun _ => rfl
  refine ⟨h.simple.setRows _, h.onlyMain.setRows _, fun k' hk' => ?_, fun k' hk' => ?_, fun k' hk' => ?_,
    fun k' hk' => ?_⟩
  · rw [Db.ownColumns_setRows]
    by_cases heq : k'.table = k.table
    · rw [heq, Function.update_self, hcols]
      exact h.columns k hk
    · rw [Function.update_of_ne heq]
      exact h.columns k' hk'
  · rw [hown]
    by_cases heq : k'.table = k.table
    · rw [heq, Function.update_self]
      obtain ⟨t, ho⟩ := Option.ne_none_iff_exists'.mp fun hnone => hne ((h.own_none hk).mp hnone)
      obtain ⟨-, type, rest, hrest, -⟩ := h.own_columns hk ho
      have hrow := h.rows k hk
      rw [ho, Option.map_some, Option.getD_some, Db.replaceRow, if_pos ⟨hschema.trans Db.fold_mainSchema.symm, hname⟩,
        hthere, hrow, hrows, hcols, hrest]
      exact (map_putOver (fun r r' => (r.headD Value.null).same (r'.headD .null))
        (fun r => ((key k.table, type) :: rest).map fun c => r c.1) _ r).symm
    · have hother : ¬ (schemaKey k'.table = fold Db.mainSchema ∧ nameKey k'.table = fold k.table) :=
        fun hand => heq (hp.samePlace hk' hk ⟨(hp.place hk').1.trans hschema.symm, hand.2.trans hname.symm⟩)
      rw [Function.update_of_ne heq, Db.replaceRow, if_neg hother, hthere, ← h.rows k' hk']
      cases ho' : db.own k'.table with
      | none => simp [Db.ownRows, ho']
      | some t' => rfl
  · by_cases heq : k'.table = k.table
    · rw [heq, Function.update_self, hcols]
      exact h.leads k hk
    · rw [Function.update_of_ne heq]
      exact h.leads k' hk'
  · by_cases heq : k'.table = k.table
    · rw [heq, Function.update_self, hcols]
      exact h.may k hk
    · rw [Function.update_of_ne heq]
      exact h.may k' hk'

lemma effect {log : CallLog} (h : Stocked columnMeta key ks (log.shelves D.convert key) db)
    (hdoc : D.KeysDocumented) (hp : KeyedCalls D columnMeta key ks) (hk : k ∈ ks)
    (hlead : (log.head k.table).columns = [] → ∀ p ∈ k.values.head?, p.1 = key k.table) : ∃ db',
      D.effect columnMeta k db = (if log.Admits D.convert key k then .returned db' else .threw db') ∧
      Stocked columnMeta key ks
        (CallLog.shelves D.convert (log ++ [(k, decide (log.Admits D.convert key k))]) key) db' := by
  by_cases hne : k.values = []
  · have hno : ¬ log.Admits D.convert key k := fun hand => hand.1 hne
    refine ⟨db, ?_, ?_⟩
    · rw [Decisions.effect_idle (Or.inl hne), if_neg hno]
    · rw [decide_eq_false hno, CallLog.shelves_snoc, CallLog.shelf_threw, hne]
      have hself : Function.update (log.shelves D.convert key) k.table
          ((log.shelf D.convert (key k.table) k.table).nameAll []) = log.shelves D.convert key :=
        Function.update_eq_self _ _
      rw [hself]
      exact h
  obtain ⟨db', hall, hstocked⟩ := h.defineAll hp hk (fun _ hq => hq) hlead
  have hmid := Function.update_self k.table
    (((log.shelves D.convert key) k.table).nameAll k.values) (log.shelves D.convert key)
  have hinsert := hstocked.insertRow hdoc hp hk hne (by
    rw [hmid]
    exact Shelf.named_nameAll)
  rw [hmid] at hinsert
  have hadmits : log.Admits D.convert key k ↔ _ := CallLog.admits_iff rfl
  rw [Decisions.effect_active hne (SQLiteWriter.knows_main db (hp.undotted k hk)), hall]
  by_cases hadm : log.Admits D.convert key k
  · have hrow := hinsert.trans (if_pos (hadmits.mp hadm).2)
    refine ⟨_, hrow.trans (if_pos hadm).symm, ?_⟩
    have hthere : (((log.shelves D.convert key) k.table).nameAll k.values).columns ≠ [] := by
      obtain ⟨p, hmem⟩ := List.exists_mem_of_ne_nil _ hne
      have hnamed := Shelf.named_nameAll (s := (log.shelves D.convert key) k.table) p hmem
      intro hnil
      rw [hnil] at hnamed
      cases hnamed
    have hput := hstocked.replace hp hk (hmid.symm ▸ hthere)
      (s := CallLog.shelf D.convert (key k.table) (log ++ [(k, true)]) k.table)
      (hmid.symm ▸ CallLog.shelf_snoc_columns k true)
      (r := (((log.shelves D.convert key) k.table).nameAll k.values).row D.convert k.values)
      (by
        rw [hmid, CallLog.shelf_returned_rows, Shelf.nameAll_rows]
        rfl)
    rw [hmid, Function.update_idem] at hput
    rw [decide_eq_true hadm, CallLog.shelves_snoc]
    exact hput
  · have hrow := hinsert.trans (if_neg fun hand => hadm (hadmits.mpr ⟨hne, hand⟩))
    refine ⟨db', hrow.trans (if_neg hadm).symm, ?_⟩
    rw [decide_eq_false hadm, CallLog.shelves_snoc, CallLog.shelf_threw]
    exact hstocked

end Stocked

/-- The ledger after some calls holds what their log says. -/
structure Ledger.Stocks (D : Decisions) (columnMeta : Bytes → Bytes → Bytes) (key : Bytes → Bytes)
    (ks done : List Call) (l : Ledger) : Prop where
  stocked : Stocked columnMeta key ks ((CallLog.outcomes D.convert key done).shelves D.convert key) l.view
  crashed : l.crashed = false
  results : l.results = (CallLog.outcomes D.convert key done).map (·.2)

namespace Ledger
variable {D : Decisions} {columnMeta : Bytes → Bytes → Bytes} {key : Bytes → Bytes} {ks done : List Call}
  {l : Ledger} {k : Call}

lemma opened_stocks : (opened Db.empty).Stocks D columnMeta key ks [] := by
  refine ⟨⟨Db.simple_empty, fun _ _ _ => rfl, fun _ _ => rfl, fun _ _ => rfl, fun _ _ c hc => ?_,
    fun _ _ n hn => ?_⟩, rfl, rfl⟩
  · cases hc
  · cases hn

lemma leads_first (hp : KeyedCalls D columnMeta key ks) {rest : List Call} (hks : ks = done ++ k :: rest)
    (hnil : ((CallLog.outcomes D.convert key done).head k.table).columns = []) :
    ∀ p ∈ k.values.head?, p.1 = key k.table := by
  intro p hmem
  apply hp.leads k (by simp [hks])
  have hnames : (done.filter (·.table = k.table)).flatMap (·.names) = [] := by
    rw [List.flatMap_eq_nil_iff]
    intro k' hk'
    rw [Call.names, List.map_eq_nil_iff]
    by_contra hne
    obtain ⟨q, hq⟩ := List.exists_mem_of_ne_nil _ hne
    obtain ⟨hdone, htable⟩ := List.mem_filter.mp hk'
    have hcolumn := CallLog.outcomes_named D.convert key hdone hq
    rw [of_decide_eq_true htable, hnil] at hcolumn
    cases hcolumn
  rw [hks, List.filter_append, List.flatMap_append, hnames, List.nil_append, List.filter_cons_of_pos (by simp),
    List.flatMap_cons]
  cases hvalues : k.values with
  | nil =>
    rw [hvalues] at hmem
    cases hmem
  | cons q values =>
    rw [hvalues] at hmem
    cases hmem
    simp [Call.names, hvalues]

lemma Stocks.step (h : l.Stocks D columnMeta key ks done) (hdoc : D.KeysDocumented)
    (hp : KeyedCalls D columnMeta key ks) (ev : Event) {rest : List Call}
    (hks : ks = done ++ callsOf [ev] ++ rest) : ∃ l', l.step D columnMeta ev = some l' ∧
      l'.Stocks D columnMeta key ks (done ++ callsOf [ev]) := by
  unfold Ledger.step
  rw [h.crashed]
  cases ev with
  | call k =>
    have hks' : ks = done ++ k :: rest := by simpa [callsOf] using hks
    obtain ⟨db', heffect, hstocked⟩ := h.stocked.effect hdoc hp (k := k) (by simp [hks'])
      (leads_first hp hks')
    have hsnoc := CallLog.outcomes_snoc D.convert key done k
    have hcalls : callsOf [.call k] = [k] := rfl
    rw [hcalls]
    simp only [Bool.false_eq_true, if_false, Ledger.call, heffect]
    by_cases hadm : (CallLog.outcomes D.convert key done).Admits D.convert key k
    · rw [if_pos hadm]
      refine ⟨_, rfl, ?_, h.crashed, ?_⟩
      · rw [hsnoc]
        exact hstocked
      · simp [hsnoc, h.results, hadm]
    · rw [if_neg hadm]
      refine ⟨_, rfl, ?_, h.crashed, ?_⟩
      · rw [hsnoc]
        exact hstocked
      · simp [hsnoc, h.results, hadm]
  | poll =>
    have hdeferred : D.deferred l.view = false := hdoc.deferred _ h.stocked.simple
    have hcalls : callsOf [.poll] = [] := rfl
    rw [hcalls, List.append_nil]
    refine ⟨_, rfl, ?_⟩
    unfold Ledger.poll
    rw [if_pos hdeferred]
    split_ifs
    · exact ⟨h.stocked, h.crashed, h.results⟩
    · exact ⟨h.stocked, h.crashed, h.results⟩

lemma Stocks.run (h : l.Stocks D columnMeta key ks done) (hdoc : D.KeysDocumented)
    (hp : KeyedCalls D columnMeta key ks) (evs : List Event) (hks : ks = done ++ callsOf evs) :
    ∃ l', l.run D columnMeta evs = some l' ∧ l'.Stocks D columnMeta key ks ks := by
  induction evs generalizing l done with
  | nil =>
    have hdone : done = ks := by simpa [callsOf] using hks.symm
    exact ⟨l, rfl, hdone ▸ h⟩
  | cons ev evs ih =>
    have hcons : callsOf (ev :: evs) = callsOf [ev] ++ callsOf evs := by
      cases ev <;> simp [callsOf]
    rw [hcons, ← List.append_assoc] at hks
    obtain ⟨l', hstep, hl'⟩ := h.step hdoc hp ev hks
    obtain ⟨l'', hrun, hl''⟩ := ih hl' hks
    unfold Ledger.run
    rw [hstep, Option.bind_some]
    exact ⟨l'', hrun, hl''⟩

end Ledger

namespace Sys
variable {D : Decisions} {columnMeta : Bytes → Bytes → Bytes} {key : Bytes → Bytes}

lemma run_crashed {E : Engine} {s : Sys E} (h : s.crashed = true) (evs : List Event) : s.run evs = s := by
  induction evs with
  | nil => rfl
  | cons ev evs ih =>
    have hstep : s.step ev = s := if_pos h
    rw [run_cons, hstep, ih]

lemma run_calls {E : Engine} {s : Sys E} {evs : List Event} (h : (s.run evs).crashed = false) :
    (s.run evs).calls = s.calls ++ callsOf evs := by
  induction evs generalizing s with
  | nil => simp [callsOf]
  | cons ev evs ih =>
    have hcons : callsOf (ev :: evs) = callsOf [ev] ++ callsOf evs := by
      cases ev <;> simp [callsOf]
    have hstep : (s.step ev).calls = s.calls ++ callsOf [ev] := by
      have hc : s.crashed = false := by
        by_contra hc
        rw [Bool.not_eq_false] at hc
        rw [run_crashed hc, hc] at h
        cases h
      unfold step
      rw [if_neg (by simp [hc])]
      cases ev with
      | call k => simp [calls, addCall, callsOf]
      | poll =>
        simp only
        split_ifs
        · rw [commitThread_eq]
          split_ifs <;> simp [calls, callsOf]
        · simp [callsOf]
    rw [run_cons] at h ⊢
    rw [ih h, hstep, hcons, List.append_assoc]

/-- Tables with keys hold the last row under each key. After every run of a writer in transaction mode on an
empty database, a call has returned exactly when its values can be converted to the types of their columns
and it replaces, or no call that returned before it from its table had its key. The query for all rows of a
table reads, for every key, the row of the last call that returned with it, in the order of these calls. -/
theorem keeps_last_rows (hdoc : D.KeysDocumented) (evs : List Event)
    (hp : KeyedCalls D columnMeta key (callsOf evs)) :
    ((start D.engine .noFlag columnMeta Db.empty).run evs).crashed = false ∧
    ((start D.engine .noFlag columnMeta Db.empty).run evs).history.map (fun e => (e.1, e.2.isOk)) =
      CallLog.outcomes D.convert key (callsOf evs) ∧
    ∀ k ∈ callsOf evs, k.values ≠ [] →
      ((SQLiteWriter.queryT (selectText k.table) [] 0).invoke (Conn.answer D.engine)
        ((start D.engine .noFlag columnMeta Db.empty).run evs).writer
        ((start D.engine .noFlag columnMeta Db.empty).run evs).conn).1 =
      .ok ((CallLog.outcomes D.convert key (callsOf evs)).shelves D.convert key k.table).read := by
  obtain ⟨l, hrun, hstocks⟩ := Ledger.opened_stocks.run hdoc hp evs (List.nil_append _).symm
  have hmain : Db.empty.OnlyMain := fun _ _ _ => rfl
  have hstart : (start D.engine .noFlag columnMeta Db.empty).Tracks columnMeta ((callsOf evs).map (·.table))
      (Ledger.opened Db.empty) := by
    apply start_tracks
    intro u hu
    obtain ⟨k, hk, rfl⟩ := List.mem_map.mp hu
    exact hmain.unshadowed (hp.undotted k hk)
  have htracks := run_tracks hstart hp.apart evs fun k hk => ⟨List.mem_map_of_mem hk, hp.readable k hk⟩
  rw [hrun] at htracks
  have hfollows := htracks.toFollows
  generalize hs : (start D.engine .noFlag columnMeta Db.empty).run evs = s at hfollows ⊢
  have hcrashed : s.crashed = false := hfollows.crashed.trans hstocks.crashed
  have hcalls : s.calls = callsOf evs := by
    have hempty : (start D.engine .noFlag columnMeta Db.empty).calls = [] :=
      congrArg calls (start_eq D.engine .noFlag columnMeta Db.empty)
    have hall := run_calls (hs.symm ▸ hcrashed)
    rwa [hempty, List.nil_append, hs] at hall
  refine ⟨hcrashed, ?_, fun k hk hne => ?_⟩
  · have hfst : (s.history.map fun e => (e.1, e.2.isOk)).map Prod.fst = callsOf evs := by
      rw [List.map_map, ← hcalls]
      rfl
    have hsnd : (s.history.map fun e => (e.1, e.2.isOk)).map Prod.snd =
        (CallLog.outcomes D.convert key (callsOf evs)).map Prod.snd := by
      rw [List.map_map, ← hstocks.results, ← hfollows.results]
      rfl
    rw [List.zip_of_prod hfst hsnd]
    exact (List.zip_of_prod (CallLog.outcomes_calls D.convert key (callsOf evs)) rfl).symm
  · have hstocked := hstocks.stocked
    rw [← hfollows.view] at hstocked
    have hthere : Db.own s.conn.view k.table ≠ none := by
      intro hnone
      obtain ⟨p, hmem⟩ := List.exists_mem_of_ne_nil _ hne
      have hnamed := CallLog.outcomes_named D.convert key hk hmem
      have hnil : ((CallLog.outcomes D.convert key (callsOf evs)).head k.table).columns = [] :=
        (hstocked.own_none hk).mp hnone
      rw [hnil] at hnamed
      cases hnamed
    obtain ⟨t, ho⟩ := Option.ne_none_iff_exists'.mp hthere
    obtain ⟨hcols, -⟩ := hstocked.own_columns hk ho
    have hrows := hstocked.rows k hk
    rw [Db.ownRows_some ho] at hrows
    rw [SQLiteWriter.queryT_selectText (hp.readable k hk).table (hp.undotted k hk) s.writer hstocked.onlyMain
      (hdoc.deferred _ hstocked.simple) ho]
    apply congrArg Except.ok
    apply Shelf.decode _ hrows
    rw [hcols, List.map_map]
    rfl

/-- The key of a table is its column `id`. -/
def idMeta (_ name : Bytes) : Bytes := if name = ascii "id" then ascii "PRIMARY KEY" else []

/-- Rows with two keys. A second row with the first one is refused, then replaces it, and so does a third one
with a new column; a row is refused again. -/
def upsertRun : List Event :=
  [.call ⟨ascii "data", [(ascii "id", .int32 1), (ascii "user", .string (ascii "ahu"))], false⟩, .poll,
    .call ⟨ascii "data", [(ascii "id", .int32 1), (ascii "user", .string (ascii "jhu"))], false⟩,
    .call ⟨ascii "data", [(ascii "user", .string (ascii "bert")), (ascii "id", .uint32 2)], true⟩,
    .call ⟨ascii "data", [(ascii "id", .int64 1), (ascii "user", .string (ascii "harry")), (ascii "n", .null)], true⟩,
    .call ⟨ascii "data", [(ascii "id", .int32 1), (ascii "user", .string (ascii "jhu"))], false⟩]

theorem keeps_last_rows_upsertRun :
    let s := (start Reference.keyed.engine .noFlag idMeta Db.empty).run upsertRun
    s.history.map (·.2.isOk) = [true, false, true, true, false] ∧
    ((SQLiteWriter.queryT (selectText (ascii "data")) [] 0).invoke (Conn.answer Reference.keyed.engine) s.writer
      s.conn).1.map (·.map (· (ascii "user"))) =
      .ok [some (.string (ascii "bert")), some (.string (ascii "harry"))] := by
  have hcalls : KeyedCalls Reference.keyed idMeta (fun _ => ascii "id") (callsOf upsertRun) := by
    refine ⟨?_, ?_, ?_, ?_, ?_, ?_, ?_, ?_, ?_, ?_, Reference.keyed_takes _⟩ <;> decide +kernel
  obtain ⟨-, hhistory, hquery⟩ := keeps_last_rows Reference.keyed_documented upsertRun hcalls
  constructor
  · have hlog := congrArg (List.map Prod.snd) hhistory
    rw [List.map_map] at hlog
    refine hlog.trans ?_
    decide +kernel
  · have hread := hquery ⟨ascii "data", [(ascii "id", .int32 1), (ascii "user", .string (ascii "ahu"))], false⟩
      (by decide +kernel) (by simp)
    dsimp only at hread ⊢
    rw [hread]
    decide +kernel

end Sys
end SqliteWrite
