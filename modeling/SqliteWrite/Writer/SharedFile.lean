import SqliteWrite.Writer.ListedColumns
import SqliteWrite.Writer.Refinement

/-! A call among the calls of other writers on the same file, every statement of which commits by
itself: unless another writer has got ahead of one of its column definitions, it adds its row, or
throws for a reason of its own. -/
namespace SqliteWrite
open Method

/-- A column definition that others have got ahead of: the table has come without the column since
it was looked for, or the column has come. -/
def Overtaken (db : Db) : Statement → Prop
  | .createTable ref col => ∃ t ∈ db.resolve ref, ¬ t.Has col.name
  | .addColumn ref col => ∃ t ∈ db.resolve ref, t.Has col.name
  | _ => False

instance decidableOvertaken (db : Db) : (st : Statement) → Decidable (Overtaken db st)
  | .createTable ref col => inferInstanceAs (Decidable (∃ t ∈ db.resolve ref, ¬ t.Has col.name))
  | .addColumn ref col => inferInstanceAs (Decidable (∃ t ∈ db.resolve ref, t.Has col.name))
  | .tableXinfo _ _ | .insert _ _ _ _ | .selectAll _ => inferInstanceAs (Decidable False)

def Collides {D : Decisions} : Request → Conn D.engine → Prop
  | .exec sql, c => ∃ st ∈ Sql.read sql, Overtaken c.view st
  | _, _ => False

instance {D : Decisions} : (q : Request) → (c : Conn D.engine) → Decidable (Collides q c)
  | .exec sql, c =>
    have := decidableOvertaken c.view
    inferInstanceAs (Decidable (∃ st ∈ Sql.read sql, Overtaken c.view st))
  | .prepare _, _ | .bind _, _ | .step _ _ _, _ | .clearNull, _ | .clock, _ | .progressHandler _, _ =>
    inferInstanceAs (Decidable False)

/-- What a request of a call does to the store: stepping the `INSERT` adds the row of the call when
it succeeds, and another request defines at most one of its columns. -/
def Effect (D : Decisions) (k : Call) (σ σ' : RowStore) : (q : Request) → Reply q → Prop
  | .step _ _ rows, r =>
    if (MiniSQLite.stepRows rows r).isOk = true then
      ∃ h, σ' = Function.update σ k.table ((σ k.table).addRow D.convert k.values h)
    else σ' = σ
  | _, _ => σ' = σ ∨ ∃ p ∈ k.values, σ' = Function.update σ k.table ((σ k.table).name p)

/-- Why a call throws when no definition of it collides: it has no fields, or one of its values has
no conversion to the type of its column. -/
def Rejected (D : Decisions) (db : Db) (k : Call) : Prop :=
  k.values = [] ∨ ∃ p ∈ k.values, ∃ col ∈ db.ownColumns k.table, col.name = p.1 ∧
    D.convert col.type (stored p.2) = none

/-- The columns of all tables in use are in another database too. -/
def Grown (ks : List Call) (db db' : Db) : Prop :=
  ∀ k ∈ ks, ∀ col ∈ db.ownColumns k.table, col ∈ db'.ownColumns k.table

/-- The database holds plain tables. -/
def Holds (ks : List Call) (db : Db) : Prop := ∃ σ, Stored ks σ db

/-- The tables that some calls use. -/
abbrev tablesOf (ks : List Call) : List Bytes := ks.map (·.table)

section Growth
variable {D : Decisions} {ks : List Call} {k : Call} {σ σ' : RowStore} {db db' : Db}

lemma columns_grow (q : Request) (r : Reply q) (h : Effect D k σ σ' q r) (table : Bytes) :
    ∀ c ∈ (σ table).columns, c ∈ (σ' table).columns := by
  have hname : ∀ p, σ' = Function.update σ k.table ((σ k.table).name p) →
      ∀ c ∈ (σ table).columns, c ∈ (σ' table).columns := by
    rintro p rfl c hc
    by_cases ht : table = k.table
    · subst ht
      rw [Function.update_self]
      unfold Shelf.name
      split_ifs
      · exact hc
      · exact List.mem_append_left _ hc
    · rwa [Function.update_of_ne ht]
  have hother : (σ' = σ ∨ ∃ p ∈ k.values, σ' = Function.update σ k.table ((σ k.table).name p)) →
      ∀ c ∈ (σ table).columns, c ∈ (σ' table).columns := by
    rintro (rfl | ⟨p, -, heq⟩)
    · exact fun _ hc => hc
    · exact hname p heq
  cases q with
  | step sql binds rows =>
    simp only [Effect] at h
    split_ifs at h
    · obtain ⟨hn, rfl⟩ := h
      intro c hc
      by_cases ht : table = k.table
      · subst ht
        rwa [Function.update_self]
      · rwa [Function.update_of_ne ht]
    · exact h ▸ fun _ hc => hc
  | exec sql => exact hother h
  | prepare sql => exact hother h
  | bind arg => exact hother h
  | clearNull => exact hother h
  | clock => exact hother h
  | progressHandler ttd => exact hother h

lemma grown_of_columns (h : Stored ks σ db) (h' : Stored ks σ' db')
    (hc : ∀ table, ∀ c ∈ (σ table).columns, c ∈ (σ' table).columns) : Grown ks db db' := by
  intro k hk col hcol
  rw [(h.shelved k hk).columns] at hcol
  rw [(h'.shelved k hk).columns]
  obtain ⟨c, hmem, rfl⟩ := List.mem_map.mp hcol
  exact List.mem_map_of_mem (hc _ c hmem)

lemma Grown.kept (h : Grown ks db db') (hh : Holds ks db') :
    ∀ t ∈ tablesOf ks, db.KeptIn db' t := by
  intro t ht
  obtain ⟨k, hk, rfl⟩ := List.mem_map.mp ht
  obtain ⟨σ, hσ⟩ := hh
  refine ⟨fun col hcol => ⟨col, h k hk col hcol, rfl⟩, fun _ _ => ?_⟩
  exact hσ.onlyMain _ _ (by decide)

lemma Grown.own (h : Grown ks db db') (hk : k ∈ ks) (ho : (db.own k.table).isSome = true) :
    (db'.own k.table).isSome = true := by
  obtain ⟨t, ht⟩ := Option.isSome_iff_exists.mp ho
  obtain ⟨col, hcol⟩ := List.exists_mem_of_ne_nil _ t.nonempty
  obtain ⟨t', ht', -⟩ := Db.own_of_mem (h k hk col (by rwa [Db.ownColumns_some ht]))
  rw [ht']
  rfl

lemma Grown.rejected (h : Grown ks db db') (hk : k ∈ ks) (hr : Rejected D db k) : Rejected D db' k := by
  rcases hr with hnil | ⟨p, hp, col, hcol, hrest⟩
  · exact Or.inl hnil
  · exact Or.inr ⟨p, hp, col, h k hk col hcol, hrest⟩

end Growth

namespace SQLiteWriter
variable {D : Decisions} {ks : List Call} {w : SQLiteWriter} {db db' : Db} {k : Call} {done : List Bytes}
  {columnMeta : Bytes → Bytes → Bytes}

/-- What a writer asserts in the column loop of a call, after the fields `done`: its caches list
what is there, in a database with plain tables. -/
structure Abreast (D : Decisions) (columnMeta : Bytes → Bytes → Bytes) (ks : List Call) (table : Bytes)
    (done : List Bytes) (w : SQLiteWriter) (db : Db) : Prop where
  loop : LoopOk D columnMeta (tablesOf ks) table done w db
  holds : Holds ks db

/-- No field of the call has metadata. -/
def Bare (columnMeta : Bytes → Bytes → Bytes) (k : Call) : Prop :=
  ∀ n ∈ k.names, columnMeta k.table n = []

instance (columnMeta : Bytes → Bytes → Bytes) (k : Call) : Decidable (Bare columnMeta k) :=
  inferInstanceAs (Decidable (∀ n ∈ k.names, columnMeta k.table n = []))

/-- The others keep the tables plain and all columns where they are. -/
def Aside (D : Decisions) (ks : List Call) (s t : Conn D.engine) : Prop :=
  Holds ks s.view → Holds ks t.view ∧ Grown ks s.view t.view

/-- A request of a call has its effect on the store, and no other. -/
def Keeps (D : Decisions) (ks : List Call) (k : Call) (q : Request) (s : Conn D.engine) : Prop :=
  ∀ σ, Stored ks σ s.view → ∃ σ', Stored ks σ' (Conn.answer D.engine q s).2.view ∧
    Effect D k σ σ' q (Conn.answer D.engine q s).1

/-- The surroundings of a call: no definition of it collides. -/
def sharing (D : Decisions) (ks : List Call) (k : Call) : Around Request (Conn D.engine) where
  rely := Aside D ks
  assume := fun q s => ¬ Collides q s
  guarantee := Keeps D ks k

lemma Abreast.aside {table : Bytes} {s t : Conn D.engine} (h : Abreast D columnMeta ks table done w s.view)
    (hst : Aside D ks s t) : Abreast D columnMeta ks table done w t.view := by
  obtain ⟨hholds, hgrown⟩ := hst h.holds
  exact ⟨h.loop.kept (hgrown.kept hholds), hholds⟩

lemma Abreast.undone {table table' : Bytes} (h : Abreast D columnMeta ks table done w db) :
    Abreast D columnMeta ks table' [] w db :=
  ⟨⟨h.loop.writable, h.loop.cacheOk, h.loop.dMeta, h.loop.listed, by simp⟩, h.holds⟩

lemma named_of_proper (hp : Proper D ks) (hk : k ∈ ks) (hb : Bare columnMeta k) :
    Named columnMeta (tablesOf ks) k where
  table := (hp.tables k hk).1
  names := hp.names k hk
  metas n hn := by
    rw [hb n hn]
    rfl
  apart t _ _ := by
    rintro ⟨hschema, -⟩
    have hne : Db.mainSchema ≠ Db.tempSchema := by decide
    exact hne ((Db.schemaKey_undotted (hp.tables k hk).2).1.symm.trans hschema)

lemma keeps_same {q : Request} {s : Conn D.engine} (hv : (Conn.answer D.engine q s).2.view = s.view)
    (hq : ∀ sql binds rows, q ≠ .step sql binds rows) : Keeps D ks k q s := by
  intro σ h
  refine ⟨σ, by rw [hv]; exact h, ?_⟩
  cases q with
  | step sql binds rows => exact absurd rfl (hq sql binds rows)
  | exec sql => exact Or.inl rfl
  | prepare sql => exact Or.inl rfl
  | bind arg => exact Or.inl rfl
  | clearNull => exact Or.inl rfl
  | clock => exact Or.inl rfl
  | progressHandler ttd => exact Or.inl rfl

lemma keeps_schema (hp : Proper D ks) (hk : k ∈ ks) (s : Conn D.engine) :
    Keeps D ks k (.exec (schemaText k.table)) s :=
  keeps_same (exec_schema s (hp.tables k hk).1).1 (by simp)

lemma search_shared (hdoc : D.Documented) (hp : Proper D ks) (hk : k ∈ ks) (done : List Bytes)
    (name : Bytes) {F : SQLiteWriter → Db → Prop} : Spec (Conn.answer D.engine) (sharing D ks k)
      (fun w s => Abreast D columnMeta ks k.table done w s.view) (haveColumn k.table name)
      (fun known w s => if known = true then Abreast D columnMeta ks k.table (done ++ [name]) w s.view
        else Abreast D columnMeta ks k.table done w s.view)
      (fun _ w s => F w s.view) := by
  obtain ⟨hplain, hdot⟩ := hp.tables k hk
  have hfound : ∀ w db, Abreast D columnMeta ks k.table done w db →
      (w.Lists k.table name → Abreast D columnMeta ks k.table (done ++ [name]) w db) ∧
      (¬ w.Lists k.table name → Abreast D columnMeta ks k.table done w db) := by
    refine fun w db h => ⟨fun hl => ⟨⟨h.loop.writable, h.loop.cacheOk, h.loop.dMeta, h.loop.listed, ?_⟩,
      h.holds⟩, fun _ => h⟩
    simpa [or_imp, forall_and] using ⟨h.loop.done, hl⟩
  refine spec_haveColumn hplain (fun w db h => h.loop.cacheOk.sorted) (fun w db h _ => hfound w db h) ?_
  intro w s s' h hnil hs _
  have h' := h.aside hs
  obtain ⟨σ, hσ⟩ := h'.holds
  refine ⟨keeps_schema hp hk s', fun hf => absurd hf (schema_succeeds hdoc hdot hσ.plain),
    fun _ => hfound _ _ ⟨⟨h'.loop.writable, h'.loop.cacheOk.setColumns hnil (sortByFirst_sorted _),
      h'.loop.dMeta, h'.loop.listed.setColumns (List.mem_map_of_mem hk) ?_, fun n hn => ?_⟩, h'.holds⟩⟩
  · intro p hmem
    simp only [columnsOf, mem_sortByFirst, List.mem_map] at hmem
    obtain ⟨col, hcol, rfl⟩ := hmem
    exact ⟨col, hcol, rfl⟩
  · obtain ⟨p, hmem, -⟩ := h'.loop.done n hn
    rw [hnil] at hmem
    cases hmem

/-- A definition that does not collide looks for a table in vain, or finds in it no column of its
name; a table that has come since has the column. -/
lemma not_collides (hp : Proper D ks) (hk : k ∈ ks) {p : Bytes × VarT} (hmem : p ∈ k.values)
    {c : Conn D.engine} {known : Bool}
    (h : ¬ Collides (.exec (definitionText known k.table p.1 p.2 [])) c) :
    (known = true → ¬ Db.HasColumn c.view k.table p.1) ∧
    (known = false → ∀ t, Db.resolve c.view (tableRef k.table) = some t → t.Has p.1) := by
  have hplain := (hp.tables k hk).1
  have hname := hp.names k hk p.1 (List.mem_map_of_mem hmem)
  have hmeta : Sql.constraints [] = some [] := rfl
  cases known with
  | false =>
    refine ⟨(by simp), fun _ t hr => ?_⟩
    by_contra hnot
    exact h ⟨_, read_createText hplain hname hmeta, t, hr, hnot⟩
  | true =>
    refine ⟨fun _ hhas => ?_, by simp⟩
    obtain ⟨t, hr, hh⟩ := hhas
    exact h ⟨_, read_alterText hplain hname hmeta, t, hr, hh⟩

lemma owns_of_has (hp : Proper D ks) (hk : k ∈ ks) {p : Bytes × VarT} (hmem : p ∈ k.values)
    {σ : RowStore} (h : Stored ks σ db) {t : Table} (ho : db.own k.table = some t) (hh : t.Has p.1) :
    db.OwnsName k.table p.1 := by
  obtain ⟨col, hcol, hf⟩ := hh
  rw [← Db.ownColumns_some ho] at hcol
  have hmay := h.may k hk col.name ((h.shelved k hk).ownsName.mp ⟨col, hcol, rfl⟩)
  obtain ⟨k', hk', ht, hn'⟩ := hmay
  exact ⟨col, hcol, hp.namesApart k' hk' k hk ht col.name hn' p.1 (List.mem_map_of_mem hmem) hf⟩

lemma create_shared (hdoc : D.Documented) (hp : Proper D ks) (hk : k ∈ ks) (hb : Bare columnMeta k)
    (done : List Bytes) {p : Bytes × VarT} (hmem : p ∈ k.values) {F : SQLiteWriter → Db → Prop} :
    Spec (Conn.answer D.engine) (sharing D ks k)
      (fun w s => Abreast D columnMeta ks k.table done w s.view) (createColumn k.table p)
      (fun _ w s => Abreast D columnMeta ks k.table (done ++ [p.1]) w s.view) (fun _ w s => F w s.view) := by
  obtain ⟨hplain, hdot⟩ := hp.tables k hk
  have hname : p.1 ∈ k.names := List.mem_map_of_mem hmem
  have hmeta : ∀ w db, Abreast D columnMeta ks k.table done w db → Sql.constraints (w.dMeta k.table p.1) = some [] := by
    intro w db h
    rw [h.loop.dMeta, hb p.1 hname]
    rfl
  refine spec_createColumn (J := fun known w d => Abreast D columnMeta ks k.table done w d ∧
    (known = true → (Db.own d k.table).isSome = true)) hplain (hp.names k hk _ hname) hmeta ?_ ?_
  · intro w s s' h hs _
    have h' := h.aside hs
    obtain ⟨σ, hσ⟩ := h'.holds
    exact ⟨keeps_schema hp hk s', fun hf => absurd hf (schema_succeeds hdoc hdot hσ.plain),
      fun _ => ⟨h', id⟩⟩
  · rintro known w s s' ⟨h, hknown⟩ hs ha
    have h' := h.aside hs
    have hknown' : known = true → (Db.own s'.view k.table).isSome = true :=
      fun htrue => (hs h.holds).2.own hk (hknown htrue)
    have hdMeta : w.dMeta k.table p.1 = [] := by rw [h.loop.dMeta, hb p.1 hname]
    rw [hdMeta] at ha ⊢
    obtain ⟨hmiss, hthere⟩ := not_collides hp hk hmem ha
    have hconstraints : Sql.constraints [] = some [] := rfl
    have hdefine : ∀ σ, Stored ks σ s'.view → ∀ r, Definition s' known k.table
        (Decisions.columnOf p.1 p.2 []) (definitionText known k.table p.1 p.2 []) r → _ :=
      fun σ hσ r hr => define_stored hdoc hp hk hmem hσ hknown' hmiss hr
    have hexec := exec_definition s' known (v := p.2) hplain (hp.names k hk p.1 hname) hconstraints
    refine ⟨fun σ hσ => ?_, fun r hr => ?_⟩
    · obtain ⟨-, c', hc', ⟨-, -, hview⟩ | hstored⟩ := hdefine σ hσ _ hexec
      · exact ⟨σ, by rw [show (Conn.answer D.engine (.exec _) s').2 = c' from congrArg (·.2) hc', hview];
                     exact hσ, Or.inl rfl⟩
      · exact ⟨_, by rw [show (Conn.answer D.engine (.exec _) s').2 = c' from congrArg (·.2) hc'];
                     exact hstored, Or.inr ⟨p, hmem, rfl⟩⟩
    · obtain ⟨σ, hσ⟩ := h'.holds
      obtain ⟨-, c', rfl, ⟨hfalse, hsome, hview⟩ | hstored⟩ := hdefine σ hσ r hr
      · -- The table has come since, and with it the column.
        obtain ⟨t, ho⟩ := Option.isSome_iff_exists.mp hsome
        have hh := hthere hfalse t ((hσ.onlyMain.unshadowed hdot).means.resolve ho)
        simp only [hview]
        exact ⟨⟨h'.loop.writable, h'.loop.cacheOk.withColumn p, h'.loop.dMeta,
          h'.loop.listed.withColumn (List.mem_map_of_mem hk) (owns_of_has hp hk hmem hσ ho hh),
          listed_withColumn h'.loop.done⟩, h'.holds⟩
      · have heffect : Effect D k σ (Function.update σ k.table ((σ k.table).name p))
            .clearNull () := Or.inr ⟨p, hmem, rfl⟩
        have hgrown := grown_of_columns hσ hstored (columns_grow _ _ heffect)
        have hkept := h'.loop.kept (hgrown.kept ⟨_, hstored⟩)
        refine ⟨⟨hkept.writable, hkept.cacheOk.withColumn p, hkept.dMeta,
          hkept.listed.withColumn (List.mem_map_of_mem hk) ?_, listed_withColumn hkept.done⟩, _, hstored⟩
        have howns := (hstored.shelved k hk).ownsName (n := p.1)
        rw [Function.update_self] at howns
        exact howns.mpr (Shelf.mem_name.mpr (Or.inr rfl))

lemma Abreast.named (h : Abreast D columnMeta ks k.table k.names w db) (hk : k ∈ ks) {σ : RowStore}
    (hσ : Stored ks σ db) : ∀ p ∈ k.values, p.1 ∈ (σ k.table).columns.map (·.1) := by
  intro p hmem
  rw [← (hσ.shelved k hk).ownsName]
  exact h.loop.listed.present _ _ (h.loop.done p.1 (List.mem_map_of_mem hmem))

lemma insert_shared (hdoc : D.Documented) (hp : Proper D ks) (hk : k ∈ ks) {s : Conn D.engine}
    (h : Abreast D columnMeta ks k.table k.names w s.view) {sql : Bytes}
    {r : Except Bytes (List (Bytes → Option OutVar)) × Conn D.engine}
    (hr : Insertion s k.table k.replace k.names (k.values.map fun p => stored p.2) sql r) :
    (∀ σ, Stored ks σ s.view → ∃ σ', Stored ks σ' r.2.view ∧
      if r.1.isOk = true then
        ∃ h, σ' = Function.update σ k.table ((σ k.table).addRow D.convert k.values h)
      else σ' = σ) ∧
    (r.1.isOk = false → r.2.view = s.view ∧ Rejected D s.view k) := by
  by_cases hne : k.values = []
  · have huncompiled : Decisions.compileInsert s.view (tableRef k.table) k.names k.names.length ≠ .ok () := by
      simp [Decisions.compileInsert, Call.names, hne]
    cases hr with
    | inserted schema f c' hcomp => exact absurd hcomp huncompiled
    | failed x c' hnot hv hroll =>
      refine ⟨fun σ hσ => ⟨σ, ?_, ?_⟩, fun _ => ⟨hv, Or.inl hne⟩⟩
      · simp only [hv]
        exact hσ
      · rfl
    | rolledBack x schema rc msg c' hcomp => exact absurd hcomp huncompiled
  refine ⟨fun σ hσ => ?_, fun hfail => ?_⟩
  · obtain ⟨-, ⟨-, hok, hstored⟩ | ⟨-, hok, hview⟩⟩ :=
      insert_row hdoc hp hk hne hσ rfl (h.named hk hσ) hr
    · exact ⟨_, hstored, by rw [if_pos hok]; exact ⟨_, rfl⟩⟩
    · exact ⟨σ, hview ▸ hσ, by rw [hok]; rfl⟩
  · obtain ⟨σ, hσ⟩ := h.holds
    obtain ⟨-, ⟨-, hok, -⟩ | ⟨hall, -, hview⟩⟩ := insert_row hdoc hp hk hne hσ rfl (h.named hk hσ) hr
    · rw [hfail] at hok
      cases hok
    · refine ⟨hview, Or.inr ?_⟩
      simp only [not_forall, exists_prop] at hall
      obtain ⟨p, hmem, hnone⟩ := hall
      obtain ⟨c, hc, hname⟩ := List.mem_map.mp (h.named hk hσ p hmem)
      refine ⟨p, hmem, ⟨c.1, c.2, []⟩, ?_, hname, ?_⟩
      · rw [(hσ.shelved k hk).columns]
        exact List.mem_map_of_mem hc
      · rw [Shelf.held, ← hname, Shelf.type?_eq hc] at hnone
        simpa using hnone

/-- The state after a call that threw. -/
structure Declined (D : Decisions) (columnMeta : Bytes → Bytes → Bytes) (ks : List Call) (k : Call)
    (w : SQLiteWriter) (db : Db) : Prop where
  abreast : Abreast D columnMeta ks k.table [] w db
  rejected : Rejected D db k

/-- A call of which no definition collides returns, or is rejected. -/
theorem callConditions_shared (hdoc : D.Documented) (hp : Proper D ks) (hk : k ∈ ks)
    (hb : Bare columnMeta k) :
    CallConditions D.engine (sharing D ks k) k.table k.values k.replace (Abreast D columnMeta ks k.table)
      (fun done _ w db => Abreast D columnMeta ks k.table done w db) (Abreast D columnMeta ks k.table [])
      (Declined D columnMeta ks k) where
  writable _ _ _ h := h.loop.writable
  cacheOk _ _ _ h := h.loop.cacheOk
  listed _ _ h p hmem := h.loop.done p.1 (List.mem_map_of_mem hmem)
  cached w db h hl := by
    refine ⟨⟨h.loop.writable, h.loop.cacheOk, h.loop.dMeta, h.loop.listed, fun n hn => ?_⟩, h.holds⟩
    obtain ⟨p, hmem, rfl⟩ := List.mem_map.mp hn
    exact hl p hmem
  stable w s s' h hs := h.aside hs
  settled := fun w v db h hr => ⟨settled_loopOk w v db h.loop hr, h.holds⟩
  settledPost := fun w v db h hr => ⟨settled_loopOk w v db h.loop hr, h.holds⟩
  settledF := fun w v db h hr => ⟨⟨settled_loopOk w v db h.abreast.loop hr, h.abreast.holds⟩, h.rejected⟩
  search done p _ := search_shared (F := Declined D columnMeta ks k) hdoc hp hk done p.1
  create done p hmem := by
    intro w s h
    exact create_shared (F := Declined D columnMeta ks k) hdoc hp hk hb done hmem w s h
  compile w s h _ := by
    refine ⟨keeps_same rfl (by simp), fun x hx => ⟨h.undone, ?_⟩⟩
    by_cases hne : k.values = []
    · exact Or.inl hne
    · have hcompiles := h.loop.compiles (named_of_proper hp hk hb) hne
      cases hx.symm.trans hcompiles
  bindGuarantee arg s := keeps_same rfl (by simp)
  bindFails x w db h hx := by
    rw [bindAll_proper hp hk] at hx
    cases hx
  step vs w s hvs hlen h _ := by
    obtain ⟨hplain, -⟩ := hp.tables k hk
    rw [insertBinds_proper hp hk hvs]
    have hinsertion := step_insertText s k.replace (k.values.map fun p => stored p.2) hplain (hp.names k hk)
    obtain ⟨hkeeps, hfails⟩ := insert_shared hdoc hp hk h hinsertion
    refine ⟨hkeeps, ?_⟩
    simp only at hfails
    have hrejected : (MiniSQLite.stepRows false (s.step (insertText k.replace k.table k.names)
        (k.values.map fun p => stored p.2) false).1).isOk = false → Rejected D
        (s.step (insertText k.replace k.table k.names) (k.values.map fun p => stored p.2) false).2.view k := by
      intro hf
      obtain ⟨hsame, hrej⟩ := hfails hf
      rw [hsame]
      exact hrej
    have hview : Abreast D columnMeta ks k.table [] w
        (s.step (insertText k.replace k.table k.names) (k.values.map fun p => stored p.2) false).2.view := by
      obtain ⟨σ, hσ⟩ := h.holds
      obtain ⟨σ', hσ', heffect⟩ := hkeeps σ hσ
      have hgrown := grown_of_columns hσ hσ' (columns_grow
        (.step (insertText k.replace k.table k.names) (k.values.map fun p => stored p.2) false) _ heffect)
      have hundone : Abreast D columnMeta ks k.table [] w s.view := h.undone
      exact ⟨hundone.loop.kept (hgrown.kept ⟨σ', hσ'⟩), σ', hσ'⟩
    generalize hresult : MiniSQLite.stepRows false (s.step (insertText k.replace k.table k.names)
      (k.values.map fun p => stored p.2) false).1 = x at hrejected
    rw [Call.names] at hresult hview hrejected
    rw [hresult]
    cases x with
    | ok rows => exact hview
    | error x => exact ⟨hview, hrejected rfl⟩

end SQLiteWriter
end SqliteWrite
