import SqliteWrite.Sqlite.Reference

/-! Tables without constraints: what SQLite documents about definitions and rows there. -/
namespace SqliteWrite

namespace Table
variable (t : Table)

def Plain : Prop := ∀ col ∈ t.columns, col.constraints = []

/-- What a new row gets in a column: the value given for it, or `NULL`, converted to its type. -/
def cell (convert : Bytes → Value → Option Value) (named : List (Bytes × Value)) (col : Column) :
    Option Value :=
  convert col.type (((named.find? fun p => fold p.1 = fold col.name).map (·.2)).getD .null)

/-- A new row, when all its values can be converted. -/
def newRow (convert : Bytes → Value → Option Value) (named : List (Bytes × Value)) : List Value :=
  t.columns.map fun col => (cell convert named col).getD .null

def Converts (convert : Bytes → Value → Option Value) (named : List (Bytes × Value)) : Prop :=
  ∀ col ∈ t.columns, (cell convert named col).isSome = true

end Table

namespace Db

/-- All tables are without constraints. -/
def Plain (db : Db) : Prop := ∀ schema name t, db.tables schema name = some t → t.Plain

variable {db : Db}

lemma plain_empty : empty.Plain := by
  intro schema name t h
  cases h

lemma Plain.put (h : db.Plain) (schema name : Bytes) {t : Table} (ht : t.Plain) :
    (db.put schema name t).Plain := by
  intro s n u hu
  by_cases hs : s = fold schema
  · by_cases hn : n = fold name
    · subst hs hn
      have htu : t = u := by simpa [Db.put] using hu
      exact htu ▸ ht
    · exact h s n u (by simpa [Db.put, hs, Function.update_of_ne hn] using hu)
  · exact h s n u (by simpa [Db.put, Function.update_of_ne hs] using hu)

lemma Plain.setRows (h : db.Plain) (f : Bytes → Bytes → List (List Value)) : (db.setRows f).Plain := by
  intro s n u hu
  simp only [Db.setRows, Option.map_eq_some_iff] at hu
  obtain ⟨t, ht, rfl⟩ := hu
  exact h s n t ht

end Db

/-- The types that the writer gives to columns. -/
def strictTypes : List Bytes := [ascii "INT", ascii "REAL", ascii "TEXT", ascii "BLOB"]

namespace Decisions

/-- What SQLite documents about tables without constraints: a row is appended when its values can
be converted to the types of a STRICT table, and is an error otherwise; `NULL` is of every type;
there are no foreign keys. -/
structure Documented (D : Decisions) : Prop where
  deferred : ∀ db, db.Plain → D.deferred db = false
  convert_null : ∀ type, D.convert type .null = some .null
  inserted : ∀ db schema name t replace named, db.Plain → db.lookup schema name = some t →
    (∀ p ∈ named, t.Has p.1) → t.Converts D.convert named →
    D.insert db schema name replace named =
      .accept (db.appendRow schema name (t.newRow D.convert named))
  rejected : ∀ db schema name t replace named, db.Plain → db.lookup schema name = some t →
    (∀ p ∈ named, t.Has p.1) → ¬ t.Converts D.convert named →
    ∃ rc msg, D.insert db schema name replace named = .error rc msg

/-- SQLite takes the definitions of plain columns with these names for tables with these names:
they are not reserved and within its limits. -/
structure Takes (D : Decisions) (may : Bytes → Bytes → Prop) : Prop where
  create : ∀ db schema table name type, db.Plain → fold schema = Db.mainSchema → may table name →
    type ∈ strictTypes → D.create db schema table ⟨name, type, []⟩ = .accept ()
  add : ∀ db schema table name type t, db.Plain → fold schema = Db.mainSchema → may table name →
    type ∈ strictTypes → db.lookup schema table = some t → (∀ col ∈ t.columns, may table col.name) →
    ¬ t.Has name → D.add db schema table ⟨name, type, []⟩ = .accept .null

end Decisions

namespace Reference

lemma notNull_plain {col : Column} (h : col.constraints = []) : notNull col = false := by
  simp [notNull, h, hasWords]

lemma cell_plain (named : List (Bytes × Value)) {col : Column} (h : col.constraints = []) :
    cell named col = match Table.cell convert named col with
      | none => .error 3091 (ascii "cannot store value in column " ++ col.name)
      | some u => .accept u := by
  have hn := notNull_plain h
  unfold cell Table.cell
  dsimp only
  cases convert col.type (((named.find? fun p => fold p.1 = fold col.name).map (·.2)).getD .null) with
  | none => rfl
  | some u => simp [hn]

lemma row_plain (named : List (Bytes × Value)) (cols : List Column)
    (h : ∀ col ∈ cols, col.constraints = []) :
    ((∀ col ∈ cols, (Table.cell convert named col).isSome = true) ∧
      row named cols = .accept (cols.map fun col => (Table.cell convert named col).getD .null)) ∨
    ((¬ ∀ col ∈ cols, (Table.cell convert named col).isSome = true) ∧
      ∃ rc msg, row named cols = .error rc msg) := by
  induction cols with
  | nil => exact Or.inl ⟨by simp, rfl⟩
  | cons col cols ih =>
    have hcol := cell_plain named (h col (by simp))
    have hrest := ih fun c hc => h c (by simp [hc])
    cases hx : Table.cell convert named col with
    | none =>
      rw [hx] at hcol
      refine Or.inr ⟨fun hall => ?_, 3091, ascii "cannot store value in column " ++ col.name, ?_⟩
      · have hsome := hall col (by simp)
        rw [hx] at hsome
        cases hsome
      · simp only [row, hcol]
    | some u =>
      rw [hx] at hcol
      rcases hrest with ⟨hall, hrow⟩ | ⟨hnot, rc, msg, hrow⟩
      · left
        refine ⟨?_, ?_⟩
        · intro c hc
          rcases List.mem_cons.mp hc with rfl | hc
          · simp [hx]
          · exact hall c hc
        · simp only [row, hcol, hrow, List.map_cons, hx, Option.getD_some]
      · right
        refine ⟨fun hall => hnot fun c hc => hall c (by simp [hc]), rc, msg, ?_⟩
        simp only [row, hcol, hrow]

theorem decisions_documented : decisions.Documented where
  deferred _ _ := rfl
  convert_null _ := rfl
  inserted db schema name t replace named hp ht _ hc := by
    have hplain : t.Plain := hp _ _ _ ht
    change insert db schema name replace named = _
    unfold insert
    rcases row_plain named t.columns hplain with ⟨-, hrow⟩ | ⟨hnot, -⟩
    · simp only [ht, hrow]
      rfl
    · exact absurd hc hnot
  rejected db schema name t replace named hp ht _ hc := by
    have hplain : t.Plain := hp _ _ _ ht
    change ∃ rc msg, insert db schema name replace named = .error rc msg
    unfold insert
    rcases row_plain named t.columns hplain with ⟨hall, -⟩ | ⟨-, rc, msg, hrow⟩
    · exact absurd hall hc
    · exact ⟨rc, msg, by simp only [ht, hrow]⟩

theorem decisions_takes (may : Bytes → Bytes → Prop) : decisions.Takes may where
  create _ _ _ _ _ _ _ _ _ := rfl
  add db schema table name type t _ _ _ _ _ _ _ := by
    simp [decisions, add, notNull_plain]

end Reference
end SqliteWrite
