import SqliteWrite.Writer.NewTables

/-! The order of the fields of a call on a table that is not there. It decides whether the call
succeeds only where exactly one of several columns is `UNIQUE` or `PRIMARY KEY`: `CREATE TABLE` takes
such a column and `ALTER TABLE` does not. -/
namespace SqliteWrite
open Method SQLiteWriter

/-- What SQLite stores for a field, where it takes the value. -/
def boundField (D : Decisions) (p : Bytes × VarT) : Bytes × Value :=
  match D.bind (bindArg p.2) with
  | .ok v => (p.1, v)
  | .error _ => (p.1, .null)

lemma boundValues_cons {D : Decisions} {p : Bytes × VarT} {values : Fields} {vs : List Value}
    (h : boundValues D.engine (p :: values) = .ok vs) :
    ∃ v us, D.bind (bindArg p.2) = .ok v ∧ boundValues D.engine values = .ok us ∧ vs = v :: us := by
  unfold boundValues at h
  rw [List.mapM_cons] at h
  cases hp : D.engine.bind (bindArg p.2) with
  | error e =>
    rw [hp] at h
    cases h
  | ok v =>
    rw [hp] at h
    cases hrest : boundValues D.engine values with
    | error e =>
      unfold boundValues at hrest
      rw [hrest] at h
      cases h
    | ok us =>
      refine ⟨v, us, hp, rfl, ?_⟩
      unfold boundValues at hrest
      rw [hrest] at h
      cases h
      rfl

lemma map_boundField {D : Decisions} {values : Fields} {vs : List Value}
    (h : boundValues D.engine values = .ok vs) :
    (values.map (·.1)).zip vs = values.map (boundField D) := by
  induction values generalizing vs with
  | nil => rfl
  | cons p values ih =>
    obtain ⟨v, us, hp, hus, rfl⟩ := boundValues_cons h
    simp only [List.map_cons, List.zip_cons_cons, ih hus, boundField, hp]

lemma binds_of_boundValues {D : Decisions} {values : Fields} {vs : List Value}
    (h : boundValues D.engine values = .ok vs) : ∀ p ∈ values, (D.bind (bindArg p.2)).isOk = true := by
  induction values generalizing vs with
  | nil => simp
  | cons p values ih =>
    obtain ⟨v, us, hp, hus, rfl⟩ := boundValues_cons h
    rw [List.forall_mem_cons, hp]
    exact ⟨rfl, ih hus⟩

namespace Call
variable {D : Decisions}

/-- The table of the call does not exist yet: SQLite finds none, and the writer knows none of the
columns. What the call says can be read. -/
structure OnNewTable (k : Call) (w : SQLiteWriter) (c : Conn D.engine) : Prop where
  resolve : c.view.resolve (tableRef k.table) = none
  unlisted : ∀ n ∈ k.names, ¬ w.Lists k.table n
  legible : Legible w.dMeta k.table k.values
  distinct : k.names.Nodup

/-- The database with the table that the fields of a call make, in their order. -/
def madeTable (k : Call) (w : SQLiteWriter) (db : Db) : Db := db.made w.dMeta k.table k.values

/-- The row of the call is one that SQLite takes in a table with the columns of its fields. -/
structure Storable (R : D.Documents) (k : Call) (w : SQLiteWriter) (c : Conn D.engine) : Prop extends
    R.Takes w.dMeta k.table c.view c.autocommit k.values where
  writable : w.dFlag ≠ .readOnly
  binds : ∀ p ∈ k.values, (D.bind (bindArg p.2)).isOk = true
  accepted : ∃ f, D.insert (k.madeTable w c.view) (schemaKey k.table) (tableRef k.table).name k.replace
    (k.values.map (boundField D)) = .accept f

lemma OnNewTable.rebuild {R : D.Documents} {k : Call} {w : SQLiteWriter} {c : Conn D.engine}
    (h : k.OnNewTable w c) (hw : CacheOk D.engine w) (hne : k.values ≠ []) :
    (∃ v c', (SQLiteWriter.rebuild k.table k.values k.replace).invoke (Conn.answer D.engine) w c = (.ok (), v, c') ∧
      c'.view = k.madeTable w c.view ∧ c'.autocommit = c.autocommit ∧
      R.Chain w.dMeta k.table c.view c.autocommit k.values) ∨
    (∃ x v c', (SQLiteWriter.rebuild k.table k.values k.replace).invoke (Conn.answer D.engine) w c =
        (.error x, v, c') ∧ ¬ R.Chain w.dMeta k.table c.view c.autocommit k.values) := by
  have hstart : Halfway w.dMeta k.table w c.view c.autocommit [] w c :=
    ⟨Db.made_nil.symm, rfl, rfl, hw.sorted, by simp⟩
  have hspec := columnLoop_spec w hw.sorted k.table true (insertHead k.replace k.table) [] k.values w c
    (Grows.refl w)
  unfold SQLiteWriter.rebuild
  rw [invoke_bind]
  have hlegible : Legible w.dMeta k.table ([] ++ k.values) := h.legible
  have hdistinct : (([] ++ k.values).map Prod.fst).Nodup := h.distinct
  rcases hstart.columnLoop (R := R) h.resolve hlegible hdistinct
    (fun q hq => h.unlisted q.1 (List.mem_map_of_mem hq)) (by simp) true
    (insertHead k.replace k.table) [] with ⟨r, v, c', hloop, hend, hchain⟩ | ⟨x, v, c', hloop, hno⟩
  · rw [List.nil_append] at hend hchain
    rw [hloop] at hspec ⊢
    obtain ⟨-, -, rfl⟩ := hspec
    have htext : insertHead k.replace k.table ++ columnList true (k.values.map (·.1)) ++ ascii ") values (" ++
        ([] ++ markList true (k.values.map (·.1))) ++ ascii ")" =
        insertText k.replace k.table (k.values.map (·.1)) := by
      simp [insertText]
    have hplain : ∀ n ∈ k.values.map (·.1), PlainName n := by
      intro n hn
      obtain ⟨p, hp, rfl⟩ := List.mem_map.mp hn
      exact h.legible.names p hp
    have hprepare : D.engine.prepare c'.view (insertText k.replace k.table (k.values.map (·.1))) = _ :=
      prepare_insertText k.replace h.legible.plain hplain
    have hcompile : D.engine.prepare c'.view (insertText k.replace k.table (k.values.map (·.1))) = .ok () := by
      rw [hprepare, hend.view]
      apply compileInsert_ok (by simpa using hne) (Db.resolve_made h.resolve hne)
      intro n hn
      obtain ⟨p, hp, rfl⟩ := List.mem_map.mp hn
      exact Db.has_made.mpr (List.mem_map_of_mem hp)
    simp only [htext]
    rw [invoke_bind, invoke_onDb, MiniSQLite.invoke_prepare_ok _ _ _ (blank_insertText _ _ _) hcompile]
    exact Or.inl ⟨_, c', rfl, hend.view, hend.mode, hchain hne⟩
  · rw [List.nil_append] at hno
    rw [hloop]
    exact Or.inr ⟨x, v, c', rfl, hno⟩

/-- The outcomes of a call on a new table. -/
inductive NewRow (R : D.Documents) (k : Call) (w : SQLiteWriter) (c : Conn D.engine) :
    Except Bytes Unit × SQLiteWriter × Conn D.engine → Prop
  | stored (f : Bytes → Bytes → List (List Value)) (v : SQLiteWriter) (c' : Conn D.engine) :
    k.Storable R w c → (∀ p ∈ k.values.tail, ¬ (fieldColumn w.dMeta k.table p).Keyed) →
    D.insert (k.madeTable w c.view) (schemaKey k.table) (tableRef k.table).name k.replace
      (k.values.map (boundField D)) = .accept f →
    c'.view = (k.madeTable w c.view).setRows f → NewRow R k w c (.ok (), v, c')
  | failed (x : Bytes) (v : SQLiteWriter) (c' : Conn D.engine) :
    ¬ (k.Storable R w c ∧ ∀ p ∈ k.values.tail, ¬ (fieldColumn w.dMeta k.table p).Keyed) →
    NewRow R k w c (.error x, v, c')

section Run
variable {R : D.Documents} {k : Call} {w : SQLiteWriter} {c : Conn D.engine}

lemma OnNewTable.plain (h : k.OnNewTable w c) : ∀ n ∈ k.names, PlainName n := by
  intro n hn
  obtain ⟨p, hp, rfl⟩ := List.mem_map.mp hn
  exact h.legible.names p hp

lemma OnNewTable.not_cached (h : k.OnNewTable w c) (hw : CacheOk D.engine w) (hne : k.values ≠ []) :
    w.cached k.table k.values k.replace = false := by
  apply Bool.eq_false_iff.mpr
  intro hc
  obtain ⟨s, -, -, -, -, -, hlisted, -⟩ := held_of_cached hw hc
  obtain ⟨p, hp⟩ := List.exists_mem_of_ne_nil _ hne
  exact h.unlisted p.1 (List.mem_map_of_mem hp) (hlisted p hp)

lemma OnNewTable.step (h : k.OnNewTable w c) (hne : k.values ≠ []) {c' : Conn D.engine}
    (hview : c'.view = k.madeTable w c.view) (hmode : c'.autocommit = c.autocommit)
    (hchain : R.Chain w.dMeta k.table c.view c.autocommit k.values) (hf : w.dFlag ≠ .readOnly)
    {vs : List Value} (hvs : boundValues D.engine k.values = .ok vs) (v : SQLiteWriter) :
    NewRow R k w c ((MiniSQLite.stepRows false (c'.step (insertText k.replace k.table k.names) vs false).1).map
      (fun _ => ()), v, (c'.step (insertText k.replace k.table k.names) vs false).2) := by
  have hnamed : k.names.zip vs = k.values.map (boundField D) := map_boundField hvs
  have hfind : c'.view.find (tableRef k.table) = some (schemaKey k.table) := by
    rw [hview]
    exact Db.find_made h.resolve hne
  have hcompile : Decisions.compileInsert c'.view (tableRef k.table) k.names k.names.length = .ok () := by
    rw [hview]
    apply compileInsert_ok (by simpa [names] using hne) (Db.resolve_made h.resolve hne)
    intro n hn
    obtain ⟨p, hp, rfl⟩ := List.mem_map.mp hn
    exact Db.has_made.mpr (List.mem_map_of_mem hp)
  have hstep := step_insertText c' k.replace vs h.legible.plain h.plain
  generalize MiniSQLite.stepRows false (c'.step (insertText k.replace k.table k.names) vs false).1 = x at hstep ⊢
  generalize (c'.step (insertText k.replace k.table k.names) vs false).2 = c'' at hstep ⊢
  cases hstep with
  | inserted schema f _ _ hs hins hv _ =>
    rw [hfind] at hs
    cases hs
    rw [hview, hnamed] at hins
    rw [hview] at hv
    exact .stored f v c'' ⟨hchain.toTakes, hf, binds_of_boundValues hvs, f, hins⟩ hchain.unkeyed hins hv
  | failed x _ hnot _ _ =>
    refine .failed x v c'' fun hall => ?_
    obtain ⟨f, haccept⟩ := hall.1.accepted
    cases hnot with
    | uncompiled y hy =>
      rw [hcompile] at hy
      cases hy
    | refused schema hs hno =>
      rw [hfind] at hs
      cases hs
      rw [hview, hnamed] at hno
      exact hno f haccept
    | deferred schema g hs hins hauto hdef =>
      rw [hfind] at hs
      cases hs
      rw [hview, hnamed] at hins
      have hnot := R.deferred_inserted h.legible.constrained hne (hchain.settled (hmode ▸ hauto)) hins
      rw [hview] at hdef
      cases hnot.symm.trans hdef
  | rolledBack x schema rc msg _ _ hs hins _ _ =>
    refine .failed x v c'' fun hall => ?_
    obtain ⟨f, haccept⟩ := hall.1.accepted
    rw [hfind] at hs
    cases hs
    rw [hview, hnamed, haccept] at hins
    cases hins

/-- A call on a new table succeeds exactly when SQLite takes its row and no field behind the first one
has a column that is `UNIQUE` or `PRIMARY KEY`. -/
theorem OnNewTable.run (h : k.OnNewTable w c) (hw : CacheOk D.engine w) (hne : k.values ≠ []) :
    NewRow R k w c (k.run w c) := by
  by_cases hf : w.dFlag = .readOnly
  · rw [run_readOnly k w c hf]
    exact .failed _ _ _ fun hall => hall.1.writable hf
  rcases run_rebuild_cases k w c hw hf (h.not_cached hw hne) with ⟨e, v, c₁, hr, -, -, hrun⟩ |
    ⟨v, c₁, s, hr, hv, -, hcv, hs, hrun⟩
  · rw [hrun]
    refine .failed _ _ _ fun hall => ?_
    rcases h.rebuild (R := R) hw hne with ⟨v', c', hr', -⟩ | ⟨x, v', c', -, hno⟩
    · rw [hr] at hr'
      cases hr'
    · exact hno ⟨hall.1.toTakes, hall.2⟩
  · rcases h.rebuild (R := R) hw hne with ⟨v', c', hr', hview, hmode, hchain⟩ | ⟨x, v', c', hr', -⟩
    swap
    · rw [hr] at hr'
      cases hr'
    rw [hr] at hr'
    cases hr'
    obtain ⟨s', hs', hsql, -, hp, hclear, -⟩ := held_of_cached hv hcv
    obtain rfl : s = s' := Option.some.inj (hs.symm.trans hs')
    have hcount : D.engine.params s.sql = k.values.length := by
      rw [hsql]
      exact (params_insertText k.replace h.legible.plain h.plain).trans (List.length_map _)
    have hbind := bindAll_isOk (E := D.engine) s.binds 0 k.values (by rw [hp, hcount, Nat.zero_add])
    rcases finishCall_cases k v c₁ hsql hp hclear with ⟨e, hx, hres, -⟩ | ⟨vs, hvs, hlen, hres, hconn⟩
    · rw [hrun]
      generalize finishCall D.engine k.table k.values v c₁ s = r at hres
      obtain ⟨x, v', c'⟩ := r
      simp only at hres
      subst hres
      refine .failed _ _ _ fun hall => ?_
      rw [hbind.mpr hall.1.binds] at hx
      cases hx
    · have hbinds : insertBinds D.engine (insertText k.replace k.table k.names) vs = vs := by
        have hparams : D.engine.params (insertText k.replace k.table k.names) = k.values.length :=
          hsql ▸ hcount
        simp [insertBinds, hparams, hlen]
      rw [hbinds] at hres hconn
      have hstep := h.step hne hview hmode hchain hf hvs (finishCall D.engine k.table k.values v c₁ s).2.1
      rw [← hres, ← hconn] at hstep
      rw [hrun]
      exact hstep

end Run

/-- The same call with its fields in another order. -/
def reorder (k : Call) (values : Fields) : Call := { k with values := values }

/-- Two runs both return or both throw, and when they return, the tables of that name have the same
columns, with their types and constraints, and rows of the same cells. -/
structure SameRow (table : Bytes) (x y : Except Bytes Unit × SQLiteWriter × Conn D.engine) : Prop where
  result : x.1.isOk = y.1.isOk
  stored : x.1.isOk = true → ∃ t t' : Table, x.2.2.view.resolve (tableRef table) = some t ∧
    y.2.2.view.resolve (tableRef table) = some t' ∧ t.columns.Perm t'.columns ∧
    Decisions.SameCells t t' t.rows t'.rows

/-- The order of the fields of a call does not matter. -/
def OrderFree (k : Call) (w : SQLiteWriter) (c : Conn D.engine) : Prop :=
  ∀ values, k.values.Perm values → SameRow k.table (k.run w c) ((k.reorder values).run w c)

/-- Exactly one of several columns of the call is `UNIQUE` or `PRIMARY KEY`. -/
def OneKeyed (columnMeta : Bytes → Bytes → Bytes) (k : Call) : Prop :=
  2 ≤ k.values.length ∧ (k.values.countP fun p => (fieldColumn columnMeta k.table p).Keyed) = 1

section Order
variable {R : D.Documents} {k : Call} {w : SQLiteWriter} {c : Conn D.engine} {values : Fields}

lemma OnNewTable.reorder (h : k.OnNewTable w c) (hp : k.values.Perm values) :
    (k.reorder values).OnNewTable w c where
  resolve := h.resolve
  unlisted n hn := h.unlisted n ((hp.map (·.1)).mem_iff.mpr hn)
  legible := ⟨h.legible.plain, fun p hp' => h.legible.names p (hp.mem_iff.mpr hp'),
    fun p hp' => h.legible.metas p (hp.mem_iff.mpr hp'),
    fun p hp' => h.legible.constrained p (hp.mem_iff.mpr hp')⟩
  distinct := (hp.map Prod.fst).nodup_iff.mp h.distinct

lemma OnNewTable.insert_reorder (R : D.Documents) (h : k.OnNewTable w c) (hp : k.values.Perm values)
    (hne : k.values ≠ []) (hne' : values ≠ []) (halike : (k.values.map fun p => fold p.1).Nodup)
    {f : Bytes → Bytes → List (List Value)}
    (hf : D.insert (k.madeTable w c.view) (schemaKey k.table) (tableRef k.table).name k.replace
      (k.values.map (boundField D)) = .accept f) :
    ∃ f', D.insert ((k.reorder values).madeTable w c.view) (schemaKey k.table) (tableRef k.table).name
        k.replace (values.map (boundField D)) = .accept f' ∧
      Decisions.SameCells (fieldTable w.dMeta k.table k.values hne) (fieldTable w.dMeta k.table values hne')
        (f (schemaKey k.table) (nameKey k.table)) (f' (schemaKey k.table) (nameKey k.table)) := by
  apply R.insert_perm h.legible.constrained hne hne' hp (hp.map _) ?_ hf
  have hnames : ((k.values.map (boundField D)).map fun p => fold p.1) = k.values.map fun p => fold p.1 := by
    rw [List.map_map]
    apply List.map_congr_left
    intro p _
    simp only [Function.comp_apply, boundField]
    cases D.bind (bindArg p.2) <;> rfl
  rw [hnames]
  exact halike

lemma Storable.reorder (hs : k.Storable R w c) (h : k.OnNewTable w c) (hp : k.values.Perm values)
    (hne : k.values ≠ []) : (k.reorder values).Storable R w c := by
  have hne' : values ≠ [] := fun hnil => hne (List.Perm.eq_nil (hnil ▸ hp))
  obtain ⟨f, hf⟩ := hs.accepted
  obtain ⟨f', hf', -⟩ := h.insert_reorder R hp hne hne' hs.alike hf
  exact ⟨hs.toTakes.perm hp, hs.writable, fun q hq => hs.binds q (hp.mem_iff.mpr hq), f', hf'⟩

lemma OnNewTable.sameRow (h : k.OnNewTable w c) (hw : CacheOk D.engine w) (hp : k.values.Perm values)
    (hne : k.values ≠ [])
    (hiff : (k.Storable R w c ∧ ∀ p ∈ k.values.tail, ¬ (fieldColumn w.dMeta k.table p).Keyed) ↔
      ((k.reorder values).Storable R w c ∧ ∀ p ∈ values.tail, ¬ (fieldColumn w.dMeta k.table p).Keyed)) :
    SameRow k.table (k.run w c) ((k.reorder values).run w c) := by
  have hne' : values ≠ [] := fun hnil => hne (List.Perm.eq_nil (hnil ▸ hp))
  have hrun : NewRow R k w c (k.run w c) := h.run hw hne
  have hrun' : NewRow R (k.reorder values) w c ((k.reorder values).run w c) := (h.reorder hp).run hw hne'
  generalize k.run w c = x at hrun ⊢
  generalize (k.reorder values).run w c = y at hrun' ⊢
  cases hrun with
  | stored f v c₁ hs hk hf hv =>
    cases hrun' with
    | stored f' v' c₂ hs' hk' hf' hv' =>
      refine ⟨rfl, fun _ => ?_⟩
      obtain ⟨g, hg, hcells⟩ := h.insert_reorder R hp hne hne' hs.alike hf
      have heq : f' = g := Verdict.accept.inj (hf'.symm.trans hg)
      subst heq
      have ht := Db.resolve_setRows_made w.dMeta h.resolve hne f
      have ht' := Db.resolve_setRows_made w.dMeta h.resolve hne' f'
      simp only [hv, hv']
      exact ⟨_, _, ht, ht', hp.map _, hcells⟩
    | failed x' v' c₂ hno => exact absurd (hiff.mp ⟨hs, hk⟩) hno
  | failed x v c₁ hno =>
    cases hrun' with
    | stored f' v' c₂ hs' hk' hf' hv' => exact absurd (hiff.mpr ⟨hs', hk'⟩) hno
    | failed x' v' c₂ hno' => exact ⟨rfl, by simp [Except.isOk, Except.toBool]⟩

lemma OnNewTable.run_empty (h : k.OnNewTable w c) (hw : CacheOk D.engine w) (hnil : k.values = []) :
    (k.run w c).1.isOk = false := by
  by_cases hf : w.dFlag = .readOnly
  · rw [run_readOnly k w c hf]
    rfl
  have hnames : k.names = [] := by simp [names, hnil]
  rcases k.run_cases w c hw hf with ⟨e, he, -⟩ | ⟨vs, hran⟩
  · rw [he]
    rfl
  · have hprepare : D.engine.prepare (k.prepared w c).view (insertText k.replace k.table []) =
        .error (ascii "near \")\": syntax error") :=
      prepare_insertText k.replace h.legible.plain (by simp)
    rw [hran.result, hnames, step_uncompiled _ hprepare]
    rfl

lemma forall_tail_iff {α : Type} {P : α → Prop} [DecidablePred P] {l : List α}
    (h : (l.countP fun a => P a) ≠ 1) : (∀ a ∈ l.tail, ¬ P a) ↔ (l.countP fun a => P a) = 0 := by
  rw [List.countP_eq_zero]
  cases l with
  | nil => simp
  | cons a l =>
    constructor
    · intro hl
      have htail : (l.countP fun a => P a) = 0 := List.countP_eq_zero.mpr fun b hb => by simpa using hl b hb
      rw [List.countP_cons, htail] at h
      intro b hb
      rcases List.mem_cons.mp hb with rfl | hb
      · intro hP
        simp [hP] at h
      · simpa using hl b hb
    · intro hl b hb
      simpa using hl b (List.mem_cons_of_mem a hb)

/-- The order of the fields does not matter, unless SQLite would take the row and exactly one of several
columns is `UNIQUE` or `PRIMARY KEY`: it must come first then. -/
theorem OnNewTable.orderFree_iff (R : D.Documents) (h : k.OnNewTable w c) (hw : CacheOk D.engine w) :
    k.OrderFree w c ↔ ¬ (k.Storable R w c ∧ k.OneKeyed w.dMeta) := by
  constructor
  · rintro hfree ⟨hs, hlen, hone⟩
    have hne : k.values ≠ [] := by
      intro hnil
      simp [hnil] at hlen
    -- The field with the key, and the others.
    obtain ⟨p, hp, hkey⟩ := List.countP_pos_iff.mp (Nat.lt_of_lt_of_eq Nat.one_pos hone.symm)
    obtain ⟨l, l', hsplit⟩ := List.append_of_mem hp
    have hfirst : k.values.Perm (p :: (l ++ l')) := hsplit ▸ List.perm_middle
    have hlast : k.values.Perm ((l ++ l') ++ [p]) := hfirst.trans (List.perm_append_singleton p _).symm
    rw [hfirst.length_eq, List.length_cons] at hlen
    rw [hfirst.countP_eq, List.countP_cons, if_pos hkey, Nat.add_eq_right, List.countP_eq_zero] at hone
    have hrest : l ++ l' ≠ [] := by
      intro hnil
      simp [hnil] at hlen
    have hin : NewRow R (k.reorder (p :: (l ++ l'))) w c _ := (h.reorder hfirst).run hw (List.cons_ne_nil _ _)
    have hout : NewRow R (k.reorder ((l ++ l') ++ [p])) w c _ :=
      (h.reorder hlast).run hw (List.append_ne_nil_of_right_ne_nil _ (by simp))
    have hsame := (hfree _ hfirst).result.symm.trans (hfree _ hlast).result
    generalize (k.reorder (p :: (l ++ l'))).run w c = x at hin hsame
    generalize (k.reorder ((l ++ l') ++ [p])).run w c = y at hout hsame
    cases hin with
    | failed e v c₁ hno =>
      apply hno
      exact ⟨hs.reorder h hfirst hne, fun q hq => of_decide_eq_false (Bool.eq_false_iff.mpr (hone q hq))⟩
    | stored f v c₁ _ _ _ _ =>
      cases hout with
      | failed e v' c₂ _ => cases hsame
      | stored f' v' c₂ _ hk _ _ =>
        apply hk p
        · change p ∈ ((l ++ l') ++ [p]).tail
          rw [List.tail_append_of_ne_nil hrest]
          simp
        · exact of_decide_eq_true hkey
  · intro hnot values hp
    by_cases hlen : k.values.length ≤ 1
    · -- There is no other order.
      have heq : values = k.values := by
        cases hk : k.values with
        | nil =>
          rw [hk] at hp
          exact hp.nil_eq.symm
        | cons p rest =>
          rw [hk, List.length_cons] at hlen
          have hnil : rest = [] := List.eq_nil_of_length_eq_zero (by omega)
          rw [hk, hnil] at hp
          rw [hnil]
          exact hp.singleton_eq.symm
      subst heq
      by_cases hne : k.values = []
      · have hfails := h.run_empty hw hne
        exact ⟨rfl, fun hok => absurd (hok.symm.trans hfails) (by simp)⟩
      · exact h.sameRow (R := R) hw (List.Perm.refl _) hne Iff.rfl
    · have hne : k.values ≠ [] := by
        intro hnil
        simp [hnil] at hlen
      have hne' : values ≠ [] := fun hnil => hne (List.Perm.eq_nil (hnil ▸ hp))
      apply h.sameRow (R := R) hw hp hne
      have hstorable : k.Storable R w c ↔ (k.reorder values).Storable R w c :=
        ⟨fun hs => hs.reorder h hp hne, fun hs => hs.reorder (h.reorder hp) hp.symm hne'⟩
      rw [← hstorable]
      apply and_congr_right
      intro hs
      have hcount : (k.values.countP fun p => (fieldColumn w.dMeta k.table p).Keyed) ≠ 1 :=
        fun hone => hnot ⟨hs, by omega, hone⟩
      rw [forall_tail_iff hcount, forall_tail_iff (hp.countP_eq _ ▸ hcount), hp.countP_eq]

end Order

end Call

namespace Sys
variable {D : Decisions}

/-- In every state that calls and commit passes can reach, the order of the fields of a call on a table
that does not exist yet matters exactly when SQLite would take the row of the call and exactly one of
several columns is `UNIQUE` or `PRIMARY KEY`. -/
theorem field_order_iff (R : D.Documents) (flag : SQLWFlag) (columnMeta : Bytes → Bytes → Bytes) (db : Db)
    (evs : List Event) (k : Call) :
    let s := (start D.engine flag columnMeta db).run evs
    k.OnNewTable s.writer s.conn →
      (k.OrderFree s.writer s.conn ↔ ¬ (k.Storable R s.writer s.conn ∧ k.OneKeyed s.writer.dMeta)) := by
  intro s h
  have hw : CacheOk D.engine s.writer := reachable_cacheOk (E := D.engine) flag columnMeta db evs
  clear_value s
  exact h.orderFree_iff R hw

/-- One constraint for the column `user` of every table. -/
def userMeta (constraint : Bytes) (_ name : Bytes) : Bytes := if name = ascii "user" then constraint else []

def userCall : Call := ⟨ascii "data", [(ascii "user", .string (ascii "ahu")), (ascii "test", .int32 1)], false⟩

theorem field_order_iff_not_null : userCall.OrderFree
    (start Reference.constrained.engine .noFlag (userMeta (ascii "NOT NULL")) Db.empty).writer
    (start Reference.constrained.engine .noFlag (userMeta (ascii "NOT NULL")) Db.empty).conn := by
  refine (field_order_iff Reference.constrainedDocuments .noFlag (userMeta (ascii "NOT NULL")) Db.empty []
    userCall ⟨by decide +kernel, by decide +kernel, ?_, by decide +kernel⟩).mpr fun h => ?_
  · exact ⟨by decide +kernel, by decide +kernel, by decide +kernel, by decide +kernel⟩
  · exact absurd h.2.2 (by decide +kernel)

/-- With the other field in front of it, a `UNIQUE` column is not created and the call throws. -/
theorem unique_field_must_come_first :
    let s := start Reference.constrained.engine .noFlag (userMeta (ascii "UNIQUE")) Db.empty
    userCall.OnNewTable s.writer s.conn ∧ (userCall.run s.writer s.conn).1.isOk = true ∧
    ((userCall.reorder userCall.values.reverse).run s.writer s.conn).1.isOk = false ∧
    ¬ userCall.OrderFree s.writer s.conn := by
  intro s
  have hfirst : (userCall.run s.writer s.conn).1.isOk = true := by decide +kernel
  have hlast : ((userCall.reorder userCall.values.reverse).run s.writer s.conn).1.isOk = false := by
    decide +kernel
  refine ⟨⟨by decide +kernel, by decide +kernel, ?_, by decide +kernel⟩, hfirst, hlast, fun hfree => ?_⟩
  · exact ⟨by decide +kernel, by decide +kernel, by decide +kernel, by decide +kernel⟩
  · have hsame := (hfree _ (List.reverse_perm userCall.values).symm).result
    rw [hfirst, hlast] at hsame
    cases hsame

end Sys

end SqliteWrite
