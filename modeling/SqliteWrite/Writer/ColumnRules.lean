import SqliteWrite.Writer.CallRules
import SqliteWrite.Writer.Statements

/-! The rules for the search for a column and for its creation on a relational database. -/
namespace SqliteWrite
open Method

/-- The texts of a call are one statement each, about its table and its columns. -/
structure Call.Readable (columnMeta : Bytes → Bytes → Bytes) (k : Call) : Prop where
  table : PlainName k.table
  names : ∀ n ∈ k.names, PlainName n
  metas : ∀ n ∈ k.names, (Sql.constraints (columnMeta k.table n)).isSome

instance (columnMeta : Bytes → Bytes → Bytes) (k : Call) : Decidable (k.Readable columnMeta) :=
  decidable_of_iff (PlainName k.table ∧ (∀ n ∈ k.names, PlainName n) ∧
    ∀ n ∈ k.names, (Sql.constraints (columnMeta k.table n)).isSome)
    ⟨fun h => ⟨h.1, h.2.1, h.2.2⟩, fun h => ⟨h.1, h.2, h.3⟩⟩

namespace SQLiteWriter
variable {D : Decisions} {e : Around Request (Conn D.engine)} {table name m : Bytes}

lemma spec_getSchema {P : MiniSQLite → Conn D.engine → Prop}
    {R : List (Bytes × Bytes) → MiniSQLite → Conn D.engine → Prop}
    {F : Bytes → MiniSQLite → Conn D.engine → Prop} (ht : PlainName table)
    (hp : ∀ db s s' s'', P db s → e.rely s s' → e.assume (.exec (schemaText table)) s' →
      s''.view = s'.view → e.guarantee (.exec (schemaText table)) s' ∧
      (SchemaFails s' table → ∀ x, F x db s'') ∧
      (¬ SchemaFails s' table → R (columnsOf (s'.view.own table)) db s'')) :
    Spec (Conn.answer D.engine) e P (MiniSQLite.getSchema table) R F := by
  refine Spec.bind (MiniSQLite.spec_exec (R := fun rows db s => R (MiniSQLite.schemaOf rows) db s)
    (F := F) ?_) fun rows => Spec.pure fun _ _ h => h
  intro db s s' h hs ha
  obtain ⟨hview, hfails, hok⟩ := exec_schema s' ht
  obtain ⟨hg, hF, hR⟩ := hp db s s' _ h hs ha hview
  refine ⟨hg, ?_⟩
  by_cases hsf : SchemaFails s' table
  · obtain ⟨x, hx⟩ := hfails hsf
    rw [hx]
    exact hF hsf _
  · have hrows := hok hsf
    cases hx : MiniSQLite.execResult (schemaText table) (s'.exec (schemaText table)).1 with
    | error x =>
      rw [hx] at hrows
      cases hrows
    | ok rows =>
      rw [hx] at hrows
      have hcols : MiniSQLite.schemaOf rows = columnsOf (s'.view.own table) := Except.ok.inj hrows
      simp only [hcols]
      exact hR hsf

/-- The rule for the search for a column: in a list that is loaded, or that is loaded for it. -/
theorem spec_haveColumn {I H N F : SQLiteWriter → Db → Prop} (ht : PlainName table)
    (sorted : ∀ w db, I w db → w.Sorted)
    (loaded : ∀ w db, I w db → w.dColumns table ≠ [] →
      (w.Lists table name → H w db) ∧ (¬ w.Lists table name → N w db))
    (load : ∀ w s s', I w s.view → w.dColumns table = [] → e.rely s s' →
      e.assume (.exec (schemaText table)) s' → e.guarantee (.exec (schemaText table)) s' ∧
      (SchemaFails s' table → F w s'.view) ∧
      (¬ SchemaFails s' table →
        let v := w.setColumns table (columnsOf (s'.view.own table))
        (v.Lists table name → H v s'.view) ∧ (¬ v.Lists table name → N v s'.view))) :
    Spec (Conn.answer D.engine) e (fun w s => I w s.view) (haveColumn table name)
      (fun known w s => if known = true then H w s.view else N w s.view)
      (fun _ w s => F w s.view) := by
  -- The search in the list as it is then.
  have hsearch : Spec (Conn.answer D.engine) e
      (fun w s => w.Sorted ∧ (w.Lists table name → H w s.view) ∧
        (¬ w.Lists table name → N w s.view))
      (do let w ← get
          pure (binarySearch firstLt (w.dColumns table) (name, [])) : M Bool)
      (fun known w s => if known = true then H w s.view else N w s.view)
      (fun _ w s => F w s.view) := by
    refine Spec.get_bind fun v => Spec.pure ?_
    rintro w s ⟨rfl, hw, hhit, hmiss⟩
    have hiff := binarySearch_lists hw table name
    by_cases hl : w.Lists table name
    · rw [hiff.mpr hl, if_pos rfl]
      exact hhit hl
    · rw [if_neg fun hb => hl (hiff.mp hb)]
      exact hmiss hl
  refine Spec.get_bind fun v => ?_
  cases hv : (v.dColumns table).isEmpty with
  | true =>
    refine Spec.bind (R := fun schema w s => w.Sorted ∧ SortedByFirst schema ∧
      ((w.setColumns table schema).Lists table name → H (w.setColumns table schema) s.view) ∧
      (¬ (w.setColumns table schema).Lists table name → N (w.setColumns table schema) s.view))
      (Spec.onMember fun w => spec_getSchema ht ?_) fun schema => ?_
    · rintro db s s' s'' ⟨rfl, rfl, h⟩ hs ha hview
      have hempty : w.dColumns table = [] := by simpa using hv
      obtain ⟨hg, hf, hok⟩ := load w s s' h hempty hs ha
      refine ⟨hg, fun hsf x => ?_, fun hsf => ?_⟩
      · rw [hview]
        exact hf hsf
      · rw [hview]
        exact ⟨sorted w _ h, sortByFirst_sorted _, hok hsf⟩
    · refine Spec.bind (Spec.modify (R := fun _ w s => w.Sorted ∧
        (w.Lists table name → H w s.view) ∧ (¬ w.Lists table name → N w s.view)) ?_) fun _ =>
          hsearch
      rintro w s ⟨hw, hsch, h⟩
      refine ⟨fun t => ?_, h⟩
      by_cases htt : t = table
      · subst htt
        simpa using hsch
      · simpa [Function.update_of_ne htt] using hw t
  | false =>
    refine hsearch.weaken ?_ (fun _ _ _ h => h) (fun _ _ _ h => h)
    rintro w s ⟨rfl, h⟩
    have hne : w.dColumns table ≠ [] := by
      intro hnil
      simp [hnil] at hv
    exact ⟨sorted w _ h, loaded w _ h hne⟩

/-- The rule for the creation of a column, with a state `J` between its two statements. -/
theorem spec_createColumn {N H F : SQLiteWriter → Db → Prop}
    {J : Bool → SQLiteWriter → Db → Prop} {p : Bytes × VarT} {xs : List Token}
    (ht : PlainName table) (hn : PlainName p.1)
    (hm : ∀ w db, N w db → Sql.constraints (w.dMeta table p.1) = some xs)
    (schema : ∀ w s s', N w s.view → e.rely s s' → e.assume (.exec (schemaText table)) s' →
      e.guarantee (.exec (schemaText table)) s' ∧ (SchemaFails s' table → F w s'.view) ∧
      (¬ SchemaFails s' table → J (s'.view.own table).isSome w s'.view))
    (define : ∀ known w s s', J known w s.view → e.rely s s' →
      e.assume (.exec (definitionText known table p.1 p.2 (w.dMeta table p.1))) s' →
      e.guarantee (.exec (definitionText known table p.1 p.2 (w.dMeta table p.1))) s' ∧
      ∀ r, Definition s' known table (Decisions.columnOf p.1 p.2 xs)
        (definitionText known table p.1 p.2 (w.dMeta table p.1)) r →
      match r.1 with
      | .ok _ => H (w.withColumn table p) r.2.view
      | .error _ => F w r.2.view) :
    Spec (Conn.answer D.engine) e (fun w s => N w s.view) (createColumn table p)
      (fun _ w s => H w s.view) (fun _ w s => F w s.view) := by
  refine Spec.get_bind fun v => ?_
  refine Spec.bind (R := fun _ w s => H (w.withColumn table p) s.view) (Spec.onMember fun w => ?_)
    fun _ => Spec.modify fun w s h => h
  by_cases hvw : w = v
  swap
  · rintro db s ⟨-, rfl, -⟩
    exact absurd rfl hvw
  subst hvw
  by_cases hmeta : Sql.constraints (w.dMeta table p.1) = some xs
  swap
  · rintro db s ⟨-, -, h⟩
    exact absurd (hm w _ h) hmeta
  have hdefine : ∀ known, Spec (Conn.answer D.engine) e
      (fun db s => db = w.dDb ∧ J known w s.view)
      (MiniSQLite.exec (definitionText known table p.1 p.2 (w.dMeta table p.1)))
      (fun _ db s => db = w.dDb ∧ H (w.withColumn table p) s.view)
      (fun _ db s => db = w.dDb ∧ F w s.view) := by
    intro known
    refine MiniSQLite.spec_exec ?_
    rintro db s s' ⟨rfl, h⟩ hs ha
    obtain ⟨hg, hd⟩ := define known w s s' h hs ha
    refine ⟨hg, ?_⟩
    have hr := hd _ (exec_definition s' known ht hn hmeta)
    have hcases := exec_definition s' (v := p.2) known ht hn hmeta
    generalize s'.exec (definitionText known table p.1 p.2 (w.dMeta table p.1)) = r at hr hcases ⊢
    cases hcases <;> exact ⟨rfl, hr⟩
  unfold MiniSQLite.addColumn
  refine Spec.bind (R := fun known db s => db = w.dDb ∧ J known w s.view) ?_ fun known => ?_
  · unfold MiniSQLite.haveTable
    refine Spec.bind (spec_getSchema (R := fun rows db s => db = w.dDb ∧ J (!rows.isEmpty) w s.view)
      ht ?_) fun rows => Spec.pure fun _ _ h => h
    rintro db s s' s'' ⟨rfl, -, h⟩ hs ha hview
    obtain ⟨hg, hf, hok⟩ := schema w s s' h hs ha
    refine ⟨hg, fun hsf x => ?_, fun hsf => ?_⟩
    · rw [hview]
      exact hf hsf
    · rw [hview, columnsOf_isEmpty]
      exact ⟨rfl, hok hsf⟩
  · have hlast : ∀ k, Spec (Conn.answer D.engine) e (fun db s => db = w.dDb ∧ J k w s.view)
        (do let _ ← MiniSQLite.exec (definitionText k table p.1 p.2 (w.dMeta table p.1)) :
          MiniSQLite.M Unit)
        (fun _ db s => H ((w.setDb db).withColumn table p) s.view)
        (fun _ db s => F (w.setDb db) s.view) := by
      intro k
      refine Spec.bind ((hdefine k).weaken (fun _ _ h => h) (fun _ _ _ h => h) ?_) fun _ =>
        Spec.pure ?_
      · rintro _ db s ⟨rfl, h⟩
        exact h
      · rintro db s ⟨rfl, h⟩
        exact h
    cases known with
    | true => exact hlast true
    | false => exact hlast false

end SQLiteWriter
end SqliteWrite
