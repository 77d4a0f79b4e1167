import SqliteWrite.Lib.LastWrites
import SqliteWrite.Sqlite.Constraints
import SqliteWrite.Sqlite.PlainTables

/-! Tables with a key: what SQLite documents about rows of tables whose first column is `UNIQUE` or
`PRIMARY KEY`, and about `INSERT OR REPLACE` there. -/
namespace SqliteWrite

namespace Value

/-- The comparison of two keys, of which `NULL` is none: numbers by their values, text and blobs byte by
byte. -/
def same : Value → Value → Bool
  | .integer i, .integer j => i == j
  | .real x, .real y => x == y || (x <<< 1 == 0 && y <<< 1 == 0)
  | .text a, .text b => a == b
  | .blob a, .blob b => a == b
  | _, _ => false

@[simp] lemma same_null (v : Value) : v.same .null = false := by
  cases v <;> rfl

@[simp] lemma null_same (v : Value) : null.same v = false := rfl

lemma sameKey : SameKey same := by
  constructor
  · intro v u h
    cases v <;> cases u <;> grind [same]
  · intro v u t h1 h2
    cases v <;> cases u <;> cases t <;> grind [same]

end Value

namespace Column

/-- The column is declared a key, and at most `NOT NULL` besides. -/
def IsKey (col : Column) : Prop :=
  col.Keyed ∧ (col.read.getD []).Nodup ∧ ∀ c ∈ col.read.getD [], c = .unique ∨ c = .primaryKey ∨ c = .notNull

instance (col : Column) : Decidable col.IsKey := inferInstanceAs (Decidable (_ ∧ _ ∧ _))

/-- A key, or a column without constraints. -/
def Simple (col : Column) : Prop := col.constraints = [] ∨ col.IsKey

lemma not_keyed {col : Column} (h : col.constraints = []) : ¬ col.Keyed := by
  simp [Keyed, read, h, Constraint.readAll]

end Column

/-- The first column of a table is a key, and it is the only column with constraints. -/
structure Table.KeyFirst (t : Table) (key : Column) : Prop where
  isKey : key.IsKey
  columns : ∃ rest, t.columns = key :: rest ∧ ∀ col ∈ rest, col.constraints = []

namespace Db
variable {db : Db}

/-- No table has constraints other than keys. -/
def Simple (db : Db) : Prop := ∀ schema name t, db.tables schema name = some t → ∀ col ∈ t.columns, col.Simple

lemma simple_empty : empty.Simple := by
  intro schema name t h
  cases h

lemma Simple.put (h : db.Simple) (schema name : Bytes) {t : Table} (ht : ∀ col ∈ t.columns, col.Simple) :
    (db.put schema name t).Simple := by
  intro s n u hu
  by_cases hs : s = fold schema
  · by_cases hn : n = fold name
    · subst hs hn
      have htu : t = u := by simpa [Db.put] using hu
      exact htu ▸ ht
    · exact h s n u (by simpa [Db.put, hs, Function.update_of_ne hn] using hu)
  · exact h s n u (by simpa [Db.put, Function.update_of_ne hs] using hu)

lemma Simple.setRows (h : db.Simple) (f : Bytes → Bytes → List (List Value)) : (db.setRows f).Simple := by
  intro s n u hu
  simp only [Db.setRows, Option.map_eq_some_iff] at hu
  obtain ⟨t, ht, rfl⟩ := hu
  exact h s n t ht

/-- The rows of all tables, of which one gets a row in place of those that begin with the same key. -/
def replaceRow (db : Db) (schema name : Bytes) (row : List Value) (s n : Bytes) : List (List Value) :=
  if s = fold schema ∧ n = fold name then
    putOver (fun r r' => (r.headD .null).same (r'.headD .null)) (db.rows s n) row
  else db.rows s n

end Db

namespace Decisions

/-- What SQLite documents about tables with a key and no other constraints, and rows with a value in it: a
row that can be converted is stored unless its key is there, or in place of the row with its key by
`INSERT OR REPLACE`; a conversion yields `NULL` for `NULL` alone, and there are no foreign keys. -/
structure KeysDocumented (D : Decisions) : Prop where
  deferred : ∀ db, db.Simple → D.deferred db = false
  convert_null : ∀ type, D.convert type .null = some .null
  convert_value : ∀ type v, D.convert type v = some .null → v = .null
  stored : ∀ db schema name t key replace named, db.Simple → db.lookup schema name = some t →
    t.KeyFirst key → (∀ p ∈ named, t.Has p.1) → t.Converts D.convert named →
    Table.cell D.convert named key ≠ some .null →
    (replace = true ∨ ∀ r ∈ t.rows, (r.headD .null).same ((t.newRow D.convert named).headD .null) = false) →
    D.insert db schema name replace named = .accept (db.replaceRow schema name (t.newRow D.convert named))
  refused : ∀ db schema name t key named, db.Simple → db.lookup schema name = some t →
    t.KeyFirst key → (∀ p ∈ named, t.Has p.1) → t.Converts D.convert named →
    Table.cell D.convert named key ≠ some .null →
    (∃ r ∈ t.rows, (r.headD .null).same ((t.newRow D.convert named).headD .null) = true) →
    ∃ rc msg, D.insert db schema name false named = .error rc msg
  rejected : ∀ db schema name t key replace named, db.Simple → db.lookup schema name = some t →
    t.KeyFirst key → (∀ p ∈ named, t.Has p.1) → ¬ t.Converts D.convert named →
    Table.cell D.convert named key ≠ some .null →
    ∃ rc msg, D.insert db schema name replace named = .error rc msg

/-- SQLite takes these columns for these tables: a new table begins with its key, and the columns that are
added have no constraints. -/
structure TakesKeyed (D : Decisions) (may : Bytes → Bytes → Prop) : Prop where
  create : ∀ db schema table col, db.Simple → fold schema = Db.mainSchema → may table col.name →
    col.type ∈ strictTypes → col.IsKey → D.create db schema table col = .accept ()
  add : ∀ db schema table name type t, db.Simple → fold schema = Db.mainSchema → may table name →
    type ∈ strictTypes → db.lookup schema table = some t → (∀ col ∈ t.columns, may table col.name) →
    ¬ t.Has name → D.add db schema table ⟨name, type, []⟩ = .accept .null

end Decisions

namespace Reference

/-- Two rows agree in a key. -/
def collide (t : Table) (vs us : List Value) : Bool :=
  (t.columns.zip (vs.zip us)).any fun x => decide x.1.Keyed && x.2.1.same x.2.2

def insertKeyed (db : Db) (schema name : Bytes) (replace : Bool) (named : List (Bytes × Value)) :
    Verdict (Bytes → Bytes → List (List Value)) :=
  match db.lookup schema name with
  | none => .error 1 (Decisions.noSuchTable name)
  | some t =>
    match row named t.columns with
    | .accept vs =>
      if !replace && t.rows.any fun r => collide t r vs then .error 1555 (ascii "UNIQUE constraint failed")
      else .accept fun s n =>
        if s = fold schema ∧ n = fold name then (db.rows s n).filter (fun r => !collide t r vs) ++ [vs]
        else db.rows s n
    | .error rc msg => .error rc msg
    | .rollback rc msg => .rollback rc msg

/-- `ALTER TABLE` refuses a key. -/
def addUnkeyed (db : Db) (schema name : Bytes) (col : Column) : Verdict Value :=
  if col.Keyed then .error 1 (ascii "Cannot add a UNIQUE column") else add db schema name col

/-- The small SQLite with keys. -/
def keyed : Decisions := { decisions with add := addUnkeyed, insert := insertKeyed }

variable {t : Table} {key : Column} {named : List (Bytes × Value)}

lemma collide_keyFirst (h : t.KeyFirst key) (vs us : List Value) :
    collide t vs us = (vs.headD .null).same (us.headD .null) := by
  obtain ⟨rest, hcols, hrest⟩ := h.columns
  have hkey : key.Keyed := h.isKey.1
  unfold collide
  rw [hcols]
  cases vs with
  | nil => simp
  | cons v vs =>
    cases us with
    | nil => simp
    | cons u us =>
      have hother : ((rest.zip (vs.zip us)).any fun x => decide x.1.Keyed && x.2.1.same x.2.2) = false := by
        rw [List.any_eq_false]
        rintro x hx
        have hnot := Column.not_keyed (hrest x.1 (List.of_mem_zip hx).1)
        simp [hnot]
      simp [hkey, hother]

lemma cell_some {col : Column} {u : Value} (h : Table.cell convert named col = some u) (hu : u ≠ .null) :
    cell named col = .accept u := by
  unfold Table.cell at h
  unfold cell
  simp only [h, hu, false_and, if_false]

lemma cell_none {col : Column} (h : Table.cell convert named col = none) :
    ∃ rc msg, cell named col = .error rc msg := by
  unfold Table.cell at h
  unfold cell
  simp only [h]
  exact ⟨_, _, rfl⟩

lemma row_keyFirst (h : t.KeyFirst key) (hkey : Table.cell convert named key ≠ some .null) :
    (t.Converts convert named ∧ row named t.columns = .accept (t.newRow convert named)) ∨
      (¬ t.Converts convert named ∧ ∃ rc msg, row named t.columns = .error rc msg) := by
  obtain ⟨rest, hcols, hrest⟩ := h.columns
  unfold Table.Converts Table.newRow
  rw [hcols, row, List.forall_mem_cons, List.map_cons]
  cases hk : Table.cell convert named key with
  | none =>
    obtain ⟨rc, msg, hcell⟩ := cell_none hk
    rw [hcell]
    exact Or.inr ⟨by simp, rc, msg, rfl⟩
  | some u =>
    have hu : u ≠ .null := fun hnull => hkey (hnull ▸ hk)
    rw [cell_some hk hu]
    rcases row_plain named rest hrest with ⟨hall, hrow⟩ | ⟨hnot, rc, msg, hrow⟩
    · rw [hrow]
      exact Or.inl ⟨⟨rfl, hall⟩, rfl⟩
    · rw [hrow]
      exact Or.inr ⟨fun hand => hnot hand.2, rc, msg, rfl⟩

theorem keyed_documented : keyed.KeysDocumented where
  deferred _ _ := rfl
  convert_null _ := rfl
  convert_value type v h := by
    change convert type v = some .null at h
    cases v with
    | null => rfl
    | _ =>
      simp only [convert] at h
      split_ifs at h
      cases h
  stored db schema name t key replace named _ ht hk _ hc hkey hfree := by
    change insertKeyed db schema name replace named = _
    have hcollide : collide t = fun r r' => (r.headD .null).same (r'.headD .null) := by
      funext r r'
      exact collide_keyFirst hk r r'
    unfold insertKeyed
    rcases row_keyFirst hk hkey with ⟨-, hrow⟩ | ⟨hnot, -⟩
    · have hno : (!replace && t.rows.any fun r => collide t r (t.newRow convert named)) = false := by
        cases hfree with
        | inl hreplace =>
          rw [hreplace]
          rfl
        | inr hfree =>
          have hany : (t.rows.any fun r => collide t r (t.newRow convert named)) = false := by
            rw [List.any_eq_false]
            intro r hr
            rw [collide_keyFirst hk, Bool.not_eq_true]
            exact hfree r hr
          rw [hany, Bool.and_false]
      simp only [ht, hrow, hno, Bool.false_eq_true, if_false]
      rw [hcollide]
      rfl
    · exact absurd hc hnot
  refused db schema name t key named _ ht hk _ hc hkey hclash := by
    obtain ⟨r, hr, hsame⟩ := hclash
    change ∃ rc msg, insertKeyed db schema name false named = .error rc msg
    unfold insertKeyed
    rcases row_keyFirst hk hkey with ⟨-, hrow⟩ | ⟨hnot, -⟩
    · have hany : (t.rows.any fun r => collide t r (t.newRow convert named)) = true := by
        rw [List.any_eq_true]
        exact ⟨r, hr, (collide_keyFirst hk r _).trans hsame⟩
      simp only [ht, hrow, hany, Bool.not_false, Bool.and_self, if_true]
      exact ⟨_, _, rfl⟩
    · exact absurd hc hnot
  rejected db schema name t key replace named _ ht hk _ hc hkey := by
    change ∃ rc msg, insertKeyed db schema name replace named = .error rc msg
    unfold insertKeyed
    rcases row_keyFirst hk hkey with ⟨hconverts, -⟩ | ⟨-, rc, msg, hrow⟩
    · exact absurd hconverts hc
    · simp only [ht, hrow]
      exact ⟨rc, msg, rfl⟩

theorem keyed_takes (may : Bytes → Bytes → Prop) : keyed.TakesKeyed may where
  create _ _ _ _ _ _ _ _ _ := rfl
  add db schema table name type t _ _ _ _ _ _ _ := by
    have hnot : ¬ Column.Keyed ⟨name, type, []⟩ := Column.not_keyed rfl
    change addUnkeyed db schema table ⟨name, type, []⟩ = _
    unfold addUnkeyed
    rw [if_neg hnot]
    simp [add, notNull_plain]

end Reference
end SqliteWrite
