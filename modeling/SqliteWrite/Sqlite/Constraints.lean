import SqliteWrite.Sqlite.Reference

/-! Column constraints, and what SQLite documents of the statements that make a table column by column and
put its first row into it. -/
namespace SqliteWrite

/-- A constraint of a column, without a conflict clause and never deferred. -/
inductive Constraint
  | unique
  | primaryKey
  | notNull
  | collate (sequence : Bytes)
  | references (parent : Bytes) (column : Option Bytes)
  | onEvent (event action : Bytes)
  deriving DecidableEq, Repr

namespace Constraint

/-- A name, quoted or not. -/
def name : List Token → Option (Bytes × List Token)
  | .word b :: ts => some (b, ts)
  | ts => Sql.ident ts

/-- `REFERENCES`, the table that is referred to, and perhaps a column of it. -/
def reference (ts : List Token) : Option (Constraint × List Token) := do
  let ts ← Sql.keyword (ascii "references") ts
  let (parent, ts) ← name ts
  match Sql.symbol 40 ts with
  | none => some (.references parent none, ts)
  | some ts => do
    let (column, ts) ← name ts
    let ts ← Sql.symbol 41 ts
    some (.references parent (some column), ts)

/-- What a foreign key does on an event: two words, or one. -/
def action (ts : List Token) : Option (Bytes × List Token) :=
  (Sql.keywords [ascii "set", ascii "null"] ts).map (ascii "set null", ·) <|>
    (Sql.keywords [ascii "no", ascii "action"] ts).map (ascii "no action", ·) <|>
    (Sql.keyword (ascii "cascade") ts).map (ascii "cascade", ·) <|>
    (Sql.keyword (ascii "restrict") ts).map (ascii "restrict", ·)

def event (ts : List Token) : Option (Constraint × List Token) := do
  let ts ← Sql.keyword (ascii "on") ts
  let (event, ts) ← (Sql.keyword (ascii "delete") ts).map (ascii "delete", ·) <|>
    (Sql.keyword (ascii "update") ts).map (ascii "update", ·)
  let (action, ts) ← action ts
  some (.onEvent event action, ts)

/-- The first constraint of a list. -/
def read (ts : List Token) : Option (Constraint × List Token) :=
  (Sql.keyword (ascii "unique") ts).map (.unique, ·) <|>
    (Sql.keywords [ascii "primary", ascii "key"] ts).map (.primaryKey, ·) <|>
    (Sql.keywords [ascii "not", ascii "null"] ts).map (.notNull, ·) <|>
    ((Sql.keyword (ascii "collate") ts).bind name).map (fun x => (.collate x.1, x.2)) <|>
    reference ts <|> event ts

/-- A list of constraints, of which there are no more than tokens. -/
def readAll : ℕ → List Token → Option (List Constraint)
  | _, [] => some []
  | 0, _ => none
  | fuel + 1, ts => do
    let (c, ts) ← read ts
    let cs ← readAll fuel ts
    some (c :: cs)

end Constraint

namespace Column

/-- The constraints of a column, where its tokens are nothing else. -/
def read (col : Column) : Option (List Constraint) :=
  Constraint.readAll col.constraints.length col.constraints

def Constrained (col : Column) : Prop := col.read.isSome

/-- The column is declared `UNIQUE` or `PRIMARY KEY`. -/
def Keyed (col : Column) : Prop :=
  Constraint.unique ∈ col.read.getD [] ∨ Constraint.primaryKey ∈ col.read.getD []

instance (col : Column) : Decidable col.Constrained := inferInstanceAs (Decidable (_ = true))

instance (col : Column) : Decidable col.Keyed := inferInstanceAs (Decidable (_ ∨ _))

end Column

namespace Decisions

/-- Two lists of rows of two tables hold the same cells. -/
def SameCells (t t' : Table) (rows rows' : List (List Value)) : Prop :=
  List.Forall₂ (fun r r' => (t.cells r).Perm (t'.cells r')) rows rows'

/-- What SQLite documents. It decides on the name of a table and on each column definition by itself;
`ALTER TABLE` takes the same definitions as `CREATE TABLE` as long as the table has no rows and is not too
wide, but none that is `UNIQUE` or `PRIMARY KEY`. An `INSERT` that names its columns does not depend on
their order. None of the constraints is deferred. -/
structure Documents (D : Decisions) where
  nameable : Db → Bytes → Bytes → Prop
  definable : Column → Prop
  width : ℕ
  wide : 0 < width
  create : ∀ (db : Db) (schema name : Bytes) (col : Column), col.Constrained →
    ((∃ u, D.create db schema name col = .accept u) ↔ nameable db schema name ∧ definable col)
  add : ∀ (db : Db) (schema name : Bytes) (t : Table) (col : Column),
    db.lookup schema name = some t → t.rows = [] → col.Constrained →
    ((∃ v, D.add db schema name col = .accept v) ↔ definable col ∧ ¬ col.Keyed ∧ t.columns.length < width)
  insert : ∀ (db : Db) (schema name : Bytes) (t t' : Table) (replace : Bool)
    (named named' : List (Bytes × Value)), (∀ col ∈ t.columns, col.Constrained) →
    t.columns.Perm t'.columns → t.rows = [] → t'.rows = [] → named.Perm named' →
    (named.map fun p => fold p.1).Nodup →
    ∀ f, D.insert (db.put schema name t) schema name replace named = .accept f →
      ∃ f', D.insert (db.put schema name t') schema name replace named' = .accept f' ∧
        SameCells t t' (f (fold schema) (fold name)) (f' (fold schema) (fold name))
  made : ∀ (db : Db) (schema name : Bytes) (t : Table), (∀ col ∈ t.columns, col.Constrained) →
    t.rows = [] → D.deferred db = false → D.deferred (db.put schema name t) = false
  inserted : ∀ (db : Db) (schema name : Bytes) (t : Table) (replace : Bool)
    (named : List (Bytes × Value)) (f : Bytes → Bytes → List (List Value)),
    (∀ col ∈ t.columns, col.Constrained) → t.rows = [] → D.deferred (db.put schema name t) = false →
    D.insert (db.put schema name t) schema name replace named = .accept f →
    D.deferred ((db.put schema name t).setRows f) = false

end Decisions

namespace Reference

/-- `ALTER TABLE` refuses a column that is `UNIQUE` or `PRIMARY KEY`, and one too many. -/
def addConstrained (db : Db) (schema name : Bytes) (col : Column) : Verdict Value :=
  if Constraint.primaryKey ∈ col.read.getD [] then .error 1 (ascii "Cannot add a PRIMARY KEY column")
  else if Constraint.unique ∈ col.read.getD [] then .error 1 (ascii "Cannot add a UNIQUE column")
  else if 2000 ≤ ((db.lookup schema name).map (·.columns.length)).getD 0 then
    .error 1 (ascii "too many columns on " ++ name)
  else add db schema name col

/-- The small SQLite with constraints that only `CREATE TABLE` takes. -/
def constrained : Decisions := { decisions with add := addConstrained }

lemma find?_perm {α : Type} {P : α → Bool} {l l' : List α} (h : l.Perm l')
    (huniq : ∀ a ∈ l, ∀ b ∈ l, P a = true → P b = true → a = b) : l.find? P = l'.find? P := by
  cases hf : l.find? P with
  | none =>
    symm
    rw [List.find?_eq_none] at hf ⊢
    exact fun a ha => hf a (h.mem_iff.mpr ha)
  | some a =>
    have ha := List.mem_of_find?_eq_some hf
    have hP := List.find?_some hf
    cases hf' : l'.find? P with
    | none => exact absurd hP (List.find?_eq_none.mp hf' a (h.mem_iff.mp ha))
    | some b =>
      have hb := List.mem_of_find?_eq_some hf'
      rw [huniq a ha b (h.mem_iff.mpr hb) hP (List.find?_some hf')]

lemma cell_perm {named named' : List (Bytes × Value)} (h : named.Perm named')
    (hnodup : (named.map fun p => fold p.1).Nodup) (col : Column) : cell named col = cell named' col := by
  have hfind : named.find? (fun p => fold p.1 = fold col.name) =
      named'.find? fun p => fold p.1 = fold col.name := by
    apply find?_perm h
    intro a ha b hb hPa hPb
    apply List.inj_on_of_nodup_map hnodup ha hb
    exact (of_decide_eq_true hPa).trans (of_decide_eq_true hPb).symm
  unfold cell
  rw [hfind]

/-- The value of a column in a new row, where it has one. -/
def cellValue (named : List (Bytes × Value)) (col : Column) : Value :=
  match cell named col with
  | .accept v => v
  | _ => .null

lemma row_accept {named : List (Bytes × Value)} {cols : List Column} {vs : List Value} :
    row named cols = .accept vs ↔
      (∀ col ∈ cols, ∃ v, cell named col = .accept v) ∧ vs = cols.map (cellValue named) := by
  induction cols generalizing vs with
  | nil => simp [row, eq_comm]
  | cons col cols ih =>
    unfold row
    cases hc : cell named col with
    | accept v =>
      have hv : cellValue named col = v := by simp [cellValue, hc]
      cases hr : row named cols with
      | accept us =>
        obtain ⟨hall, rfl⟩ := ih.mp hr
        simp only [List.map_cons, List.forall_mem_cons, hc, hv, Verdict.accept.injEq, exists_eq',
          true_and]
        exact ⟨fun h => ⟨hall, h.symm⟩, fun h => h.2.symm⟩
      | error rc msg =>
        refine ⟨fun h => (by cases h), fun h => ?_⟩
        have hrow := ih.mpr ⟨(List.forall_mem_cons.mp h.1).2, rfl⟩
        rw [hr] at hrow
        cases hrow
      | rollback rc msg =>
        refine ⟨fun h => (by cases h), fun h => ?_⟩
        have hrow := ih.mpr ⟨(List.forall_mem_cons.mp h.1).2, rfl⟩
        rw [hr] at hrow
        cases hrow
    | error rc msg => simp [hc]
    | rollback rc msg => simp [hc]

lemma insert_put (replace : Bool) {db : Db} {schema name : Bytes} {t : Table}
    {named : List (Bytes × Value)} {f : Bytes → Bytes → List (List Value)} :
    insert (db.put schema name t) schema name replace named = .accept f ↔
      (∀ col ∈ t.columns, ∃ v, cell named col = .accept v) ∧
        f = (db.put schema name t).appendRow schema name (t.columns.map (cellValue named)) := by
  have hlookup : (db.put schema name t).lookup schema name = some t := by simp [Db.lookup, Db.put]
  unfold insert
  rw [hlookup]
  constructor
  · intro h
    cases hr : row named t.columns with
    | accept vs =>
      obtain ⟨hall, rfl⟩ := row_accept.mp hr
      simp only [hr] at h
      exact ⟨hall, (Verdict.accept.inj h).symm⟩
    | error rc msg =>
      simp only [hr] at h
      cases h
    | rollback rc msg =>
      simp only [hr] at h
      cases h
  · rintro ⟨hall, rfl⟩
    simp only [row_accept.mpr ⟨hall, rfl⟩]

lemma appendRow_put (db : Db) (schema name : Bytes) {t : Table} (ht : t.rows = []) (row : List Value) :
    (db.put schema name t).appendRow schema name row (fold schema) (fold name) = [row] := by
  simp [Db.appendRow, Db.rows, Db.put, ht]

/-- What is documented holds of the small SQLite. -/
def constrainedDocuments : constrained.Documents where
  nameable _ _ _ := True
  definable _ := True
  width := 2000
  wide := by decide
  create db schema name col _ := by simp [constrained, decisions]
  add db schema name t col ho ht _ := by
    change (∃ v, addConstrained db schema name col = .accept v) ↔ _
    unfold addConstrained add Column.Keyed
    rw [ho]
    by_cases hp : Constraint.primaryKey ∈ col.read.getD [] <;>
      by_cases hu : Constraint.unique ∈ col.read.getD [] <;>
      by_cases hw : 2000 ≤ t.columns.length <;> simp [hp, hu, hw, ht]
    omega
  insert db schema name t t' replace named named' _ hcols ht ht' hn hnodup f hf := by
    obtain ⟨hall, rfl⟩ := (insert_put replace).mp hf
    have hcell : cell named = cell named' := by
      funext col
      exact cell_perm hn hnodup col
    have hall' : ∀ col ∈ t'.columns, ∃ v, cell named' col = .accept v := by
      intro col hcol
      rw [← hcell]
      exact hall col (hcols.mem_iff.mpr hcol)
    refine ⟨_, (insert_put replace).mpr ⟨hall', rfl⟩, ?_⟩
    rw [appendRow_put _ _ _ ht, appendRow_put _ _ _ ht']
    have hvalue : cellValue named = cellValue named' := by
      funext col
      simp only [cellValue, hcell]
    refine .cons ?_ .nil
    unfold Table.cells
    rw [← hvalue, List.zip_map', List.zip_map']
    exact hcols.map _
  made _ _ _ _ _ _ _ := rfl
  inserted _ _ _ _ _ _ _ _ _ _ _ := rfl

end Reference
end SqliteWrite
