import SqliteWrite.Sqlite.Constraints
import SqliteWrite.Writer.ColumnSpellings

/-! A call on a table that is not there: the first field creates the table, and every further one
alters it. -/
namespace SqliteWrite
open Method

/-- The column that a field defines when it is missing. -/
def fieldColumn (columnMeta : Bytes → Bytes → Bytes) (table : Bytes) (p : Bytes × VarT) : Column :=
  Decisions.columnOf p.1 p.2 ((Sql.constraints (columnMeta table p.1)).getD [])

/-- The table that some fields make, one column after the other. -/
def fieldTable (columnMeta : Bytes → Bytes → Bytes) (table : Bytes) (ps : Fields) (h : ps ≠ []) : Table :=
  ⟨ps.map (fieldColumn columnMeta table), [], by simpa using h⟩

namespace Db
variable {db : Db} {columnMeta : Bytes → Bytes → Bytes} {table : Bytes} {ps : Fields}

lemma put_put (schema name : Bytes) (t u : Table) : (db.put schema name t).put schema name u =
    db.put schema name u := by
  simp [put]

/-- The database in which some fields have made their table. -/
def made (db : Db) (columnMeta : Bytes → Bytes → Bytes) (table : Bytes) (ps : Fields) : Db :=
  if h : ps = [] then db
  else db.put ((tableRef table).schema.getD mainSchema) (tableRef table).name
    (fieldTable columnMeta table ps h)

@[simp] lemma made_nil : db.made columnMeta table [] = db := by
  simp [made]

lemma made_of_ne_nil (h : ps ≠ []) : db.made columnMeta table ps =
    db.put ((tableRef table).schema.getD mainSchema) (tableRef table).name
      (fieldTable columnMeta table ps h) := by
  simp [made, h]

@[simp] lemma knows_made (schema : Bytes) : (db.made columnMeta table ps).knows schema = db.knows schema := by
  unfold made
  split_ifs <;> rfl

lemma own_made (h : ps ≠ []) :
    (db.made columnMeta table ps).own table = some (fieldTable columnMeta table ps h) := by
  rw [made_of_ne_nil h]
  exact own_put_self _

lemma unshadowed_made (h : db.resolve (tableRef table) = none) :
    (db.made columnMeta table ps).Unshadowed table := by
  have hfind : db.Unshadowed table := fun s hs => absurd h (resolve_ne_none hs)
  by_cases hps : ps = []
  · rw [hps, made_nil]
    exact hfind
  · rw [made_of_ne_nil hps]
    exact hfind.put _

lemma find_made (hr : db.resolve (tableRef table) = none) (h : ps ≠ []) :
    (db.made columnMeta table ps).find (tableRef table) = some (schemaKey table) :=
  (unshadowed_made hr).means _ (own_made h)

lemma resolve_made (hr : db.resolve (tableRef table) = none) (h : ps ≠ []) :
    (db.made columnMeta table ps).resolve (tableRef table) = some (fieldTable columnMeta table ps h) :=
  (unshadowed_made hr).means.resolve (own_made h)

lemma put_made (h : ps ≠ []) (p : Bytes × VarT) (u : Value) :
    (db.made columnMeta table ps).put (schemaKey table) (tableRef table).name
        ((fieldTable columnMeta table ps h).addColumn (fieldColumn columnMeta table p) u) =
      db.made columnMeta table (ps ++ [p]) := by
  have htable : (fieldTable columnMeta table ps h).addColumn (fieldColumn columnMeta table p) u =
      fieldTable columnMeta table (ps ++ [p]) (by simp) := by
    simp [fieldTable, Table.addColumn]
  rw [made_of_ne_nil h, made_of_ne_nil (by simp), htable]
  exact (put_fold _ _ _).trans (put_put _ _ _ _)

lemma resolve_setRows_made (columnMeta : Bytes → Bytes → Bytes) (hr : db.resolve (tableRef table) = none) (h : ps ≠ [])
    (f : Bytes → Bytes → List (List Value)) :
    ((db.made columnMeta table ps).setRows f).resolve (tableRef table) =
      some { fieldTable columnMeta table ps h with rows := f (schemaKey table) (nameKey table) } := by
  have hown : (db.made columnMeta table ps).tables (schemaKey table) (nameKey table) = _ := own_made h
  unfold resolve
  rw [find_setRows, find_made hr h, Option.bind_some]
  simp only [setRows]
  rw [← nameKey, hown]
  rfl

lemma has_made {h : ps ≠ []} {n : Bytes} :
    (fieldTable columnMeta table ps h).Has n ↔ fold n ∈ ps.map fun p => fold p.1 := by
  simp only [Table.Has, fieldTable, List.mem_map]
  constructor
  · rintro ⟨col, ⟨p, hp, rfl⟩, hf⟩
    exact ⟨p, hp, hf⟩
  · rintro ⟨p, hp, hf⟩
    exact ⟨_, ⟨p, hp, rfl⟩, hf⟩

end Db

/-- SQLite takes the columns of these fields for a new table. -/
structure Decisions.Documents.Takes {D : Decisions} (R : D.Documents)
    (columnMeta : Bytes → Bytes → Bytes) (table : Bytes) (db : Db) (autocommit : Bool) (ps : Fields) :
    Prop where
  known : db.knows ((tableRef table).schema.getD Db.mainSchema) = true
  settled : autocommit = true → D.deferred db = false
  nameable : R.nameable db ((tableRef table).schema.getD Db.mainSchema) (tableRef table).name
  definable : ∀ p ∈ ps, R.definable (fieldColumn columnMeta table p)
  alike : (ps.map fun p => fold p.1).Nodup
  narrow : ps.length ≤ R.width

/-- SQLite takes the columns one by one: the first one creates the table, and `ALTER TABLE` takes the
others. -/
structure Decisions.Documents.Chain {D : Decisions} (R : D.Documents)
    (columnMeta : Bytes → Bytes → Bytes) (table : Bytes) (db : Db) (autocommit : Bool) (ps : Fields) :
    Prop extends R.Takes columnMeta table db autocommit ps where
  unkeyed : ∀ p ∈ ps.tail, ¬ (fieldColumn columnMeta table p).Keyed

namespace Decisions.Documents
variable {D : Decisions} {R : D.Documents} {columnMeta : Bytes → Bytes → Bytes} {table : Bytes}
  {db : Db} {autocommit : Bool} {ps qs : Fields} {p : Bytes × VarT}

lemma Takes.perm (h : R.Takes columnMeta table db autocommit ps) (hp : ps.Perm qs) : R.Takes columnMeta table db autocommit qs :=
  ⟨h.known, h.settled, h.nameable, fun q hq => h.definable q (hp.mem_iff.mpr hq),
    (hp.map _).nodup_iff.mp h.alike, hp.length_eq ▸ h.narrow⟩

lemma Chain.of_append (h : R.Chain columnMeta table db autocommit (ps ++ qs)) : R.Chain columnMeta table db autocommit ps where
  known := h.known
  settled := h.settled
  nameable := h.nameable
  definable q hq := h.definable q (List.mem_append_left qs hq)
  alike := (List.nodup_append.mp (List.map_append ▸ h.alike)).1
  narrow := by
    have hall := h.narrow
    rw [List.length_append] at hall
    omega
  unkeyed q hq := by
    apply h.unkeyed
    cases ps with
    | nil => cases hq
    | cons r ps => exact List.mem_append_left qs hq

lemma chain_singleton : R.Chain columnMeta table db autocommit [p] ↔
    db.knows ((tableRef table).schema.getD Db.mainSchema) = true ∧
    (autocommit = true → D.deferred db = false) ∧
    R.nameable db ((tableRef table).schema.getD Db.mainSchema) (tableRef table).name ∧
    R.definable (fieldColumn columnMeta table p) := by
  constructor
  · intro h
    exact ⟨h.known, h.settled, h.nameable, h.definable p (by simp)⟩
  · rintro ⟨hk, hs, hn, hd⟩
    exact ⟨⟨hk, hs, hn, by simpa using hd, by simp, R.wide⟩, by simp⟩

lemma chain_snoc (hne : ps ≠ []) : R.Chain columnMeta table db autocommit (ps ++ [p]) ↔
    R.Chain columnMeta table db autocommit ps ∧ R.definable (fieldColumn columnMeta table p) ∧
    fold p.1 ∉ ps.map (fun p => fold p.1) ∧ ps.length < R.width ∧
    ¬ (fieldColumn columnMeta table p).Keyed := by
  have htail : (ps ++ [p]).tail = ps.tail ++ [p] := List.tail_append_of_ne_nil hne
  constructor
  · intro h
    have halike := h.alike
    have hnarrow := h.narrow
    rw [List.map_append, List.nodup_append] at halike
    rw [List.length_append, List.length_singleton] at hnarrow
    refine ⟨h.of_append, h.definable p (by simp), fun hmem => ?_, hnarrow, h.unkeyed p (by simp [htail])⟩
    exact halike.2.2 _ hmem _ (by simp) rfl
  · rintro ⟨h, hd, hnew, hw, hk⟩
    refine ⟨⟨h.known, h.settled, h.nameable, ?_, ?_, ?_⟩, ?_⟩
    · intro q hq
      rcases List.mem_append.mp hq with hq | hq
      · exact h.definable q hq
      · rw [List.mem_singleton.mp hq]
        exact hd
    · rw [List.map_append, List.nodup_append]
      refine ⟨h.alike, by simp, ?_⟩
      intro a ha b hb hab
      rw [List.map_singleton, List.mem_singleton] at hb
      exact hnew (hb ▸ hab ▸ ha)
    · rw [List.length_append, List.length_singleton]
      exact hw
    · rw [htail]
      intro q hq
      rcases List.mem_append.mp hq with hq | hq
      · exact h.unkeyed q hq
      · rw [List.mem_singleton.mp hq]
        exact hk

lemma deferred_made (R : D.Documents) (hcol : ∀ q ∈ ps, (fieldColumn columnMeta table q).Constrained)
    (hd : D.deferred db = false) : D.deferred (db.made columnMeta table ps) = false := by
  by_cases hps : ps = []
  · rw [hps, Db.made_nil]
    exact hd
  · rw [Db.made_of_ne_nil hps]
    apply R.made db _ _ _ _ rfl hd
    intro col hcol'
    obtain ⟨q, hq, rfl⟩ := List.mem_map.mp hcol'
    exact hcol q hq

lemma deferred_inserted (R : D.Documents) (hcol : ∀ q ∈ ps, (fieldColumn columnMeta table q).Constrained)
    (hne : ps ≠ []) (hd : D.deferred db = false) {replace : Bool} {named : List (Bytes × Value)}
    {f : Bytes → Bytes → List (List Value)}
    (hins : D.insert (db.made columnMeta table ps) (schemaKey table) (tableRef table).name replace named =
      .accept f) : D.deferred ((db.made columnMeta table ps).setRows f) = false := by
  have hmade := R.deferred_made hcol hd
  rw [Db.made_of_ne_nil hne, ← Db.put_fold] at hins hmade ⊢
  apply R.inserted db _ _ _ _ _ f _ rfl hmade hins
  intro col hcol'
  obtain ⟨q, hq, rfl⟩ := List.mem_map.mp hcol'
  exact hcol q hq

lemma insert_perm (R : D.Documents) (hcol : ∀ q ∈ ps, (fieldColumn columnMeta table q).Constrained)
    (hne : ps ≠ []) (hne' : qs ≠ []) (hp : ps.Perm qs) {replace : Bool}
    {named named' : List (Bytes × Value)} (hn : named.Perm named')
    (hnodup : (named.map fun p => fold p.1).Nodup) {f : Bytes → Bytes → List (List Value)}
    (hf : D.insert (db.made columnMeta table ps) (schemaKey table) (tableRef table).name replace named =
      .accept f) :
    ∃ f', D.insert (db.made columnMeta table qs) (schemaKey table) (tableRef table).name replace named' =
        .accept f' ∧ SameCells (fieldTable columnMeta table ps hne) (fieldTable columnMeta table qs hne')
        (f (schemaKey table) (nameKey table)) (f' (schemaKey table) (nameKey table)) := by
  have hkey : fold (schemaKey table) = schemaKey table := fold_fold _
  have hcols : ∀ col ∈ (fieldTable columnMeta table ps hne).columns, col.Constrained := by
    intro col hcol'
    obtain ⟨q, hq, rfl⟩ := List.mem_map.mp hcol'
    exact hcol q hq
  rw [Db.made_of_ne_nil hne, ← Db.put_fold] at hf
  obtain ⟨f', hf', hcells⟩ := R.insert db (schemaKey table) (tableRef table).name _
    (fieldTable columnMeta table qs hne') replace named named' hcols (hp.map _) rfl rfl hn hnodup f hf
  rw [hkey] at hcells
  refine ⟨f', ?_, hcells⟩
  rw [Db.made_of_ne_nil hne', ← Db.put_fold]
  exact hf'

end Decisions.Documents

namespace Conn
variable {D : Decisions} (c : Conn D.engine) {table : Bytes}

lemma exec_schema_autocommit (ht : PlainName table) :
    (c.exec (schemaText table)).2.autocommit = c.autocommit := by
  have hauto : (c.exec (schemaText table)).2.autocommit =
      (c.autocommit || c.rollsBack (.exec (schemaText table))) :=
    c.answer_autocommit (q := .exec (schemaText table)) (Or.inl rfl)
  have hexec : D.engine.exec c.view (schemaText table) = _ := D.exec_schemaText ht
  have hroll : c.rollsBack (.exec (schemaText table)) = false := by
    simp only [rollsBack, hexec]
    split_ifs <;> rfl
  rw [hroll, Bool.or_false] at hauto
  exact hauto

/-- A text that SQLite decides on: it is taken, or it fails for want of an acceptance or for a
deferred foreign key. -/
lemma execText_answer {α : Type} (sql : Bytes) (verdict : Verdict α) (f : α → Db)
    (he : D.exec c.view sql = Decisions.answer verdict c.view f) :
    (∃ a c', verdict = .accept a ∧ c.execText sql = (.ok [], c') ∧ c'.view = f a ∧
      c'.autocommit = c.autocommit) ∨
    (∃ x c', c.execText sql = (.error x, c') ∧ ∀ a, verdict = .accept a →
      c.autocommit = true ∧ D.deferred (f a) = true) := by
  have hexec : D.engine.exec c.view sql = _ := he
  unfold execText
  rw [hexec]
  cases verdict with
  | accept a =>
    simp only [Decisions.answer]
    by_cases hd : (c.autocommit && D.engine.deferred (f a)) = true
    · rw [if_pos hd]
      refine Or.inr ⟨_, c, rfl, fun b hb => ?_⟩
      cases hb
      exact Bool.and_eq_true_iff.mp hd
    · rw [if_neg hd]
      exact Or.inl ⟨a, c.put (f a), rfl, rfl, rfl, rfl⟩
  | error rc msg => exact Or.inr ⟨msg, c.put c.view, rfl, by simp⟩
  | rollback rc msg => exact Or.inr ⟨msg, c.rollback, rfl, by simp⟩

end Conn

namespace SQLiteWriter
variable {D : Decisions} {R : D.Documents} {columnMeta : Bytes → Bytes → Bytes} {table : Bytes}
  {w₀ w : SQLiteWriter} {db₀ : Db}
  {autocommit : Bool} {c : Conn D.engine} {ps : Fields} {p : Bytes × VarT}

/-- A call on a new table after the fields `ps`, given the object and the database before it. -/
structure Halfway (columnMeta : Bytes → Bytes → Bytes) (table : Bytes) (w₀ : SQLiteWriter) (db₀ : Db)
    (autocommit : Bool) (ps : Fields) (w : SQLiteWriter) (c : Conn D.engine) : Prop where
  view : c.view = db₀.made columnMeta table ps
  mode : c.autocommit = autocommit
  dMeta : w.dMeta = columnMeta
  sorted : w.Sorted
  lists : ∀ n, w.Lists table n ↔ w₀.Lists table n ∨ n ∈ ps.map (·.1)

/-- What a call says of the table and of each of its fields: they can be read, and what is required of
a column are constraints. -/
structure Legible (columnMeta : Bytes → Bytes → Bytes) (table : Bytes) (ps : Fields) : Prop where
  plain : PlainName table
  names : ∀ p ∈ ps, PlainName p.1
  metas : ∀ p ∈ ps, (Sql.constraints (columnMeta table p.1)).isSome
  constrained : ∀ p ∈ ps, (fieldColumn columnMeta table p).Constrained

lemma Legible.of_append {qs : Fields} (h : Legible columnMeta table (ps ++ qs)) :
    Legible columnMeta table ps :=
  ⟨h.plain, fun q hq => h.names q (List.mem_append_left qs hq),
    fun q hq => h.metas q (List.mem_append_left qs hq),
    fun q hq => h.constrained q (List.mem_append_left qs hq)⟩

/-- A schema query fails only where no column of the table can be defined. -/
lemma Halfway.schemaFails (h : Halfway columnMeta table w₀ db₀ autocommit ps w c) (hl : Legible columnMeta table ps)
    (hf : SchemaFails c table) (qs : Fields) : ¬ R.Chain columnMeta table db₀ autocommit qs := by
  intro hchain
  cases hf with
  | inl hk =>
    rw [h.view, Db.knows_made, hchain.known] at hk
    cases hk
  | inr hd =>
    obtain ⟨ha, hdef⟩ := hd
    have hnot := R.deferred_made hl.constrained (hchain.settled (h.mode ▸ ha))
    rw [h.view, hnot] at hdef
    cases hdef

/-- The outcomes of defining the last of some columns: it is taken, or SQLite does not take them one by
one. -/
inductive Defined (R : D.Documents) (columnMeta : Bytes → Bytes → Bytes) (table : Bytes) (db₀ : Db)
    (autocommit : Bool) (ps : Fields) : Except Bytes (List (List (Option Bytes))) × Conn D.engine → Prop
  | taken (c : Conn D.engine) : c.view = db₀.made columnMeta table ps → c.autocommit = autocommit →
    R.Chain columnMeta table db₀ autocommit ps → Defined R columnMeta table db₀ autocommit ps (.ok [], c)
  | failed (x : Bytes) (c : Conn D.engine) : ¬ R.Chain columnMeta table db₀ autocommit ps →
    Defined R columnMeta table db₀ autocommit ps (.error x, c)

lemma Halfway.defined {α : Type} {qs : Fields} (h : Halfway columnMeta table w₀ db₀ autocommit ps w c)
    (hl : ∀ q ∈ qs, (fieldColumn columnMeta table q).Constrained) (sql : Bytes) (verdict : Verdict α)
    (f : α → Db) (he : D.exec c.view sql = Decisions.answer verdict c.view f)
    (hmade : ∀ a, f a = db₀.made columnMeta table qs)
    (htaken : ∀ a, verdict = .accept a → R.Chain columnMeta table db₀ autocommit qs)
    (hrefused : R.Chain columnMeta table db₀ autocommit qs → ∃ a, verdict = .accept a) :
    Defined R columnMeta table db₀ autocommit qs (c.execText sql) := by
  rcases c.execText_answer sql verdict f he with ⟨a, c', ha, hx, hv, hauto⟩ | ⟨x, c', hx, hfail⟩
  · rw [hx]
    exact .taken c' (hv.trans (hmade a)) (hauto.trans h.mode) (htaken a ha)
  · rw [hx]
    refine .failed x c' fun hchain => ?_
    obtain ⟨a, ha⟩ := hrefused hchain
    obtain ⟨hauto, hdef⟩ := hfail a ha
    -- None of the constraints is deferred, so that making the table violates nothing.
    have hnot := R.deferred_made hl (hchain.settled (h.mode ▸ hauto))
    rw [hmade, hnot] at hdef
    cases hdef

lemma Halfway.define_first (h : Halfway columnMeta table w₀ db₀ autocommit [] w c)
    (hr : db₀.resolve (tableRef table) = none) (hl : Legible columnMeta table [p])
    (hs : ¬ SchemaFails c table) : Defined R columnMeta table db₀ autocommit [p]
      (c.exec (definitionText (c.view.own table).isSome table p.1 p.2 (columnMeta table p.1))) := by
  obtain ⟨xs, hxs⟩ := Option.isSome_iff_exists.mp (hl.metas p (by simp))
  have hfield : Decisions.columnOf p.1 p.2 xs = fieldColumn columnMeta table p := by
    simp [fieldColumn, hxs]
  obtain ⟨hknown, hsettled⟩ := not_or.mp hs
  rw [Bool.not_eq_false] at hknown
  have hview : c.view = db₀ := by
    rw [h.view]
    exact Db.made_nil
  have hown : c.view.own table = none := by
    rw [hview]
    cases hf : db₀.find (tableRef table) with
    | none => exact Db.find_none_own hf
    | some s => exact absurd hr (Db.resolve_ne_none hf)
  have hexec : D.exec c.view (definitionText false table p.1 p.2 (columnMeta table p.1)) = _ :=
    D.exec_createText hl.plain (hl.names p (by simp)) hxs
  have hcreate := R.create db₀ ((tableRef table).schema.getD Db.mainSchema) (tableRef table).name
    (fieldColumn columnMeta table p) (hl.constrained p (by simp))
  rw [hown, if_pos hknown, hfield] at hexec
  rw [hown, Option.isSome_none, exec_definitionText]
  refine h.defined hl.constrained _ _ _ hexec (fun u => ?_) (fun u hu => ?_) fun hchain => ?_
  · rw [hview]
    exact (Db.made_of_ne_nil (List.cons_ne_nil p [])).symm
  · rw [hview] at hu hknown
    obtain ⟨hn, hd⟩ := hcreate.mp ⟨u, hu⟩
    refine Decisions.Documents.chain_singleton.mpr ⟨hknown, fun hauto => ?_, hn, hd⟩
    rw [← hview]
    exact Bool.eq_false_iff.mpr fun hdef => hsettled ⟨h.mode.trans hauto, hdef⟩
  · obtain ⟨-, -, hn, hd⟩ := Decisions.Documents.chain_singleton.mp hchain
    rw [hview]
    exact hcreate.mpr ⟨hn, hd⟩

lemma Halfway.define_next (h : Halfway columnMeta table w₀ db₀ autocommit ps w c) (hne : ps ≠ [])
    (hr : db₀.resolve (tableRef table) = none) (hl : Legible columnMeta table (ps ++ [p]))
    (hchain : R.Chain columnMeta table db₀ autocommit ps) :
    Defined R columnMeta table db₀ autocommit (ps ++ [p])
      (c.exec (definitionText (c.view.own table).isSome table p.1 p.2 (columnMeta table p.1))) := by
  obtain ⟨xs, hxs⟩ := Option.isSome_iff_exists.mp (hl.metas p (by simp))
  have hfield : Decisions.columnOf p.1 p.2 xs = fieldColumn columnMeta table p := by
    simp [fieldColumn, hxs]
  have hown : c.view.own table = some (fieldTable columnMeta table ps hne) := by
    rw [h.view]
    exact Db.own_made hne
  have hexec : D.exec c.view (definitionText true table p.1 p.2 (columnMeta table p.1)) = _ :=
    D.exec_alterText hl.plain (hl.names p (by simp)) hxs
  have hfind : c.view.find (tableRef table) = some (schemaKey table) := by
    rw [h.view]
    exact Db.find_made hr hne
  have hres : c.view.resolve (tableRef table) = some (fieldTable columnMeta table ps hne) := by
    rw [h.view]
    exact Db.resolve_made hr hne
  rw [hfind, hres, hfield] at hexec
  simp only at hexec
  rw [hown, Option.isSome_some, exec_definitionText]
  by_cases hhas : (fieldTable columnMeta table ps hne).Has p.1
  · rw [if_pos hhas] at hexec
    have hengine : D.engine.exec c.view _ = _ := hexec
    unfold Conn.execText
    rw [hengine]
    refine .failed _ _ fun hall => ?_
    obtain ⟨-, -, hnew, -⟩ := (Decisions.Documents.chain_snoc hne).mp hall
    exact hnew (Db.has_made.mp hhas)
  · rw [if_neg hhas] at hexec
    have hadd := R.add c.view (schemaKey table) (tableRef table).name (fieldTable columnMeta table ps hne)
      (fieldColumn columnMeta table p) (by simpa [Db.lookup, schemaKey, Db.own, nameKey] using hown) rfl
      (hl.constrained p (by simp))
    have hlen : (fieldTable columnMeta table ps hne).columns.length = ps.length := by
      simp [fieldTable]
    rw [hlen] at hadd
    refine h.defined hl.constrained _ _ _ hexec (fun u => ?_) (fun u hu => ?_) fun hall => ?_
    · rw [h.view]
      exact Db.put_made hne p u
    · obtain ⟨hd, hk, hw⟩ := hadd.mp ⟨u, hu⟩
      exact (Decisions.Documents.chain_snoc hne).mpr
        ⟨hchain, hd, fun hmem => hhas (Db.has_made.mpr hmem), hw, hk⟩
    · obtain ⟨-, hd, -, hw, hk⟩ := (Decisions.Documents.chain_snoc hne).mp hall
      exact hadd.mpr ⟨hd, hk, hw⟩

lemma Halfway.define (h : Halfway columnMeta table w₀ db₀ autocommit ps w c)
    (hr : db₀.resolve (tableRef table) = none) (hl : Legible columnMeta table (ps ++ [p]))
    (hchain : ps ≠ [] → R.Chain columnMeta table db₀ autocommit ps) (hs : ¬ SchemaFails c table) :
    Defined R columnMeta table db₀ autocommit (ps ++ [p])
      (c.exec (definitionText (c.view.own table).isSome table p.1 p.2 (columnMeta table p.1))) := by
  cases ps with
  | nil => exact h.define_first hr hl hs
  | cons q ps => exact h.define_next (by simp) hr hl (hchain (by simp))

lemma setColumns_self (w : SQLiteWriter) (table : Bytes) : w.setColumns table (w.dColumns table) = w := by
  simp [setColumns]

lemma lists_none (h : w.dColumns table = []) (n : Bytes) : ¬ w.Lists table n := by
  rintro ⟨q, hq, -⟩
  rw [h] at hq
  cases hq

/-- As long as the list in the cache is empty, no field has made the table. -/
lemma Halfway.unlisted (h : Halfway columnMeta table w₀ db₀ autocommit ps w c) (hw : w.dColumns table = []) :
    ps = [] := by
  cases ps with
  | nil => rfl
  | cons q ps => exact absurd ((h.lists q.1).mpr (Or.inr (by simp))) (lists_none hw q.1)

lemma Halfway.search (h : Halfway columnMeta table w₀ db₀ autocommit ps w c)
    (hr : db₀.resolve (tableRef table) = none) (hl : Legible columnMeta table ps) {name : Bytes}
    (hnew : ¬ w₀.Lists table name) (hname : name ∉ ps.map (·.1)) :
    (∃ v c', (haveColumn table name).invoke (Conn.answer D.engine) w c = (.ok false, v, c') ∧
      Halfway columnMeta table w₀ db₀ autocommit ps v c') ∨
    (∃ x v c', (haveColumn table name).invoke (Conn.answer D.engine) w c = (.error x, v, c') ∧
      ∀ qs, ¬ R.Chain columnMeta table db₀ autocommit qs) := by
  have hmiss : binarySearch firstLt (w.dColumns table) (name, []) = false := by
    apply Bool.eq_false_iff.mpr
    intro hfound
    rcases (h.lists name).mp ((binarySearch_lists h.sorted table name).mp hfound) with hold | hdone
    · exact hnew hold
    · exact hname hdone
  by_cases hw : w.dColumns table = []
  · obtain ⟨hview, hfails, hok⟩ := exec_schema c hl.plain
    have hinvoke := MiniSQLite.invoke_getSchema w.dDb c table
    by_cases hs : SchemaFails c table
    · obtain ⟨x, hx⟩ := hfails hs
      rw [hx] at hinvoke
      exact Or.inr ⟨_, w, _, invoke_haveColumn_load_error w c table name hw hinvoke,
        h.schemaFails hl hs⟩
    · have hown : c.view.own table = none := by
        rw [h.view, h.unlisted hw, Db.made_nil]
        cases hf : db₀.find (tableRef table) with
        | none => exact Db.find_none_own hf
        | some s => exact absurd hr (Db.resolve_ne_none hf)
      have hempty : columnsOf (c.view.own table) = w.dColumns table := by
        rw [hown, hw]
        exact columnsOf_eq_nil.mpr rfl
      rw [hok hs, hempty] at hinvoke
      refine Or.inl ⟨w, (c.exec (schemaText table)).2, ?_, ?_⟩
      · rw [invoke_haveColumn_load_ok w c table name hw hinvoke, hmiss, setColumns_self]
      · exact ⟨hview.trans h.view, (c.exec_schema_autocommit hl.plain).trans h.mode, h.dMeta, h.sorted, h.lists⟩
  · exact Or.inl ⟨w, c, by rw [invoke_haveColumn_loaded w c table name hw, hmiss], h⟩

lemma Halfway.create (h : Halfway columnMeta table w₀ db₀ autocommit ps w c)
    (hr : db₀.resolve (tableRef table) = none) (hl : Legible columnMeta table (ps ++ [p]))
    (hchain : ps ≠ [] → R.Chain columnMeta table db₀ autocommit ps) :
    (∃ v c', (createColumn table p).invoke (Conn.answer D.engine) w c = (.ok (), v, c') ∧
      Halfway columnMeta table w₀ db₀ autocommit (ps ++ [p]) v c' ∧
      R.Chain columnMeta table db₀ autocommit (ps ++ [p])) ∨
    (∃ x v c', (createColumn table p).invoke (Conn.answer D.engine) w c = (.error x, v, c') ∧
      ¬ R.Chain columnMeta table db₀ autocommit (ps ++ [p])) := by
  obtain ⟨hview, hfails, hok⟩ := exec_schema c hl.plain
  have hmode := c.exec_schema_autocommit hl.plain
  have hinvoke := MiniSQLite.invoke_exec w.dDb c (schemaText table)
  rw [invoke_createColumn, h.dMeta]
  by_cases hs : SchemaFails c table
  · obtain ⟨x, hx⟩ := hfails hs
    rw [hx] at hinvoke
    rw [MiniSQLite.invoke_addColumn_error _ _ _ _ _ _ hinvoke]
    exact Or.inr ⟨_, w, _, rfl, h.schemaFails hl.of_append hs _⟩
  · have hrows := hok hs
    cases hx : MiniSQLite.execResult (schemaText table) (c.exec (schemaText table)).1 with
    | error x =>
      rw [hx] at hrows
      cases hrows
    | ok rows =>
      rw [hx] at hrows hinvoke
      have hcols : MiniSQLite.schemaOf rows = columnsOf (c.view.own table) := Except.ok.inj hrows
      rw [MiniSQLite.invoke_addColumn_ok _ _ _ _ _ _ hinvoke, hcols, columnsOf_isEmpty, ← hview]
      generalize (c.exec (schemaText table)).2 = c₁ at hview hmode ⊢
      have h₁ : Halfway columnMeta table w₀ db₀ autocommit ps w c₁ :=
        ⟨hview.trans h.view, hmode.trans h.mode, h.dMeta, h.sorted, h.lists⟩
      have hs₁ : ¬ SchemaFails c₁ table := by
        unfold SchemaFails
        rw [hview, hmode]
        exact hs
      have hdefine := h₁.define (R := R) hr hl hchain hs₁
      generalize c₁.exec _ = r at hdefine ⊢
      cases hdefine with
      | taken c' hv ha hch =>
        refine Or.inl ⟨_, c', rfl, ⟨hv, ha, h.dMeta, ?_, fun n => ?_⟩, hch⟩
        · exact (grows_setColumns w table _ (fun q hq => by simp [sortPairs, hq])
            (sortPairs_sorted _)).sorted h.sorted
        · rw [lists_withColumn, h.lists, List.map_append, List.mem_append, List.map_singleton,
            List.mem_singleton, or_assoc, eq_comm (a := n)]
          simp
      | failed x c' hch => exact Or.inr ⟨_, w, c', rfl, hch⟩

/-- The column loop on a new table, from any of its rounds on. -/
theorem Halfway.columnLoop {rest : Fields} (h : Halfway columnMeta table w₀ db₀ autocommit ps w c)
    (hr : db₀.resolve (tableRef table) = none) (hl : Legible columnMeta table (ps ++ rest))
    (hnodup : ((ps ++ rest).map (·.1)).Nodup) (hnew : ∀ q ∈ rest, ¬ w₀.Lists table q.1)
    (hchain : ps ≠ [] → R.Chain columnMeta table db₀ autocommit ps) (first : Bool) (q qmarks : Bytes) :
    (∃ r v c', (SQLiteWriter.columnLoop table first q qmarks rest).invoke (Conn.answer D.engine) w c =
        (.ok r, v, c') ∧ Halfway columnMeta table w₀ db₀ autocommit (ps ++ rest) v c' ∧
        (ps ++ rest ≠ [] → R.Chain columnMeta table db₀ autocommit (ps ++ rest))) ∨
    (∃ x v c', (SQLiteWriter.columnLoop table first q qmarks rest).invoke (Conn.answer D.engine) w c =
        (.error x, v, c') ∧ ¬ R.Chain columnMeta table db₀ autocommit (ps ++ rest)) := by
  induction rest generalizing ps w c first q qmarks with
  | nil =>
    rw [List.append_nil]
    exact Or.inl ⟨_, w, c, rfl, h, hchain⟩
  | cons p rest ih =>
    have hsplit : ps ++ p :: rest = (ps ++ [p]) ++ rest := by simp
    have hname : p.1 ∉ ps.map (·.1) := by
      rw [List.map_append, List.nodup_append] at hnodup
      exact fun hmem => hnodup.2.2 _ hmem _ (by simp) rfl
    unfold SQLiteWriter.columnLoop
    rw [invoke_bind]
    rcases h.search (R := R) hr hl.of_append (hnew p (by simp)) hname with
      ⟨v, c₁, hsearch, h₁⟩ | ⟨x, v, c₁, hsearch, hno⟩
    swap
    · rw [hsearch]
      exact Or.inr ⟨x, v, c₁, rfl, hno _⟩
    rw [hsearch]
    simp only [Bool.not_false, if_true]
    rw [invoke_bind]
    rw [hsplit] at hl hnodup ⊢
    rcases h₁.create (R := R) hr hl.of_append hchain with ⟨u, c₂, hcreate, h₂, hch⟩ | ⟨x, u, c₂, hcreate, hno⟩
    · rw [hcreate]
      exact ih h₂ hl hnodup (fun q' hq' => hnew q' (by simp [hq'])) (fun _ => hch) false _ _
    · rw [hcreate]
      exact Or.inr ⟨x, u, c₂, rfl, fun hall => hno hall.of_append⟩

end SQLiteWriter

end SqliteWrite
