import SqliteWrite.Lib.LastWrites
import SqliteWrite.Sqlite.KeyedTables
import SqliteWrite.Writer.RowStore

/-! What the writer is for when tables have keys, as a function of the calls and their outcomes: under each
key a table holds the row of the last call that returned with it. -/
namespace SqliteWrite

namespace Shelf
variable {convert : Bytes → Value → Option Value} {s s' : Shelf} {values : Fields}

/-- Whether two rows have the same key. -/
def byKey (key : Bytes) (r r' : Bytes → Value) : Bool := (r key).same (r' key)

lemma sameKey_byKey (key : Bytes) : SameKey (byKey key) :=
  Value.sameKey.comap fun r : Bytes → Value => r key

lemma eq_of (hc : s.columns = s'.columns) (hr : s.rows = s'.rows) : s = s' := by
  cases s
  cases s'
  cases hc
  cases hr
  rfl

@[simp] lemma nameAll_rows : (s.nameAll values).rows = s.rows := by
  unfold nameAll
  induction values generalizing s with
  | nil => rfl
  | cons p values ih =>
    rw [List.foldl_cons, ih]
    exact name_rows

lemma nameAll_append (ps qs : Fields) : s.nameAll (ps ++ qs) = (s.nameAll ps).nameAll qs := List.foldl_append

lemma name_columns_congr (h : s.columns = s'.columns) (p : Bytes × VarT) :
    (s.name p).columns = (s'.name p).columns := by
  by_cases hp : p.1 ∈ s.columns.map (·.1)
  · rw [name_self hp, name_self (h ▸ hp), h]
  · rw [name_columns hp, name_columns (h ▸ hp), h]

lemma nameAll_columns_congr (h : s.columns = s'.columns) (values : Fields) :
    (s.nameAll values).columns = (s'.nameAll values).columns := by
  unfold nameAll
  induction values generalizing s s' with
  | nil => exact h
  | cons p values ih =>
    rw [List.foldl_cons, List.foldl_cons]
    exact ih (name_columns_congr h p)

lemma type?_congr (h : s.columns = s'.columns) : s.type? = s'.type? := by
  funext n
  simp only [type?, h]

lemma held_congr (h : s.columns = s'.columns) : s.held convert = s'.held convert := by
  funext p
  simp only [held, type?_congr h]

lemma row_of_columns (h : s.columns = s'.columns) (values : Fields) :
    s.row convert values = s'.row convert values :=
  row_congr convert fun p _ => congrFun (type?_congr h) p.1

lemma row_nameAll {ps : Fields} (h : ∀ p ∈ ps, p.1 ∈ s.columns.map (·.1)) :
    (s.nameAll values).row convert ps = s.row convert ps := by
  apply row_congr
  intro p hp
  obtain ⟨type, htype⟩ := Option.isSome_iff_exists.mp (type?_isSome.mpr (h p hp))
  rw [type?_nameAll, htype, Option.some_or]

end Shelf

/-- Calls, and whether each of them returned. -/
abbrev CallLog := List (Call × Bool)

namespace CallLog
variable (convert : Bytes → Value → Option Value) (key : Bytes) (log : CallLog)

/-- What the calls supply for a table. -/
def fields (table : Bytes) : Fields := ((log.map (·.1)).filter (·.table = table)).flatMap (·.values)

/-- The columns of a table, each of the type of the first value under its name; there are no rows. -/
def head (table : Bytes) : Shelf := Shelf.empty.nameAll (log.fields table)

/-- The calls that returned from a table. -/
def returned (table : Bytes) : List Call := (log.filter fun e => e.1.table = table ∧ e.2 = true).map (·.1)

/-- Their rows. -/
def writes (table : Bytes) : List (Bytes → Value) :=
  (log.returned table).map fun k => (log.head table).row convert k.values

variable {log} {convert key} {table : Bytes}

lemma returned_named {k : Call} (h : k ∈ log.returned table) :
    ∀ p ∈ k.values, p.1 ∈ (log.head table).columns.map (·.1) := by
  intro p hp
  obtain ⟨e, he, rfl⟩ := List.mem_map.mp h
  obtain ⟨hlog, hand⟩ := List.mem_filter.mp he
  have htable : e.1.table = table ∧ e.2 = true := by simpa using hand
  apply Shelf.mem_nameAll.mpr
  right
  apply List.mem_map_of_mem
  apply List.mem_flatMap.mpr
  exact ⟨e.1, List.mem_filter.mpr ⟨List.mem_map_of_mem hlog, by simpa using htable.1⟩, hp⟩

variable (convert key log) in
/-- A table: the last write under each key. -/
def shelf (table : Bytes) : Shelf :=
  { log.head table with
    rows := lastWrites (Shelf.byKey key) (log.writes convert table)
    unnamed := by
      intro r hr n hn
      obtain ⟨k, hk, rfl⟩ := List.mem_map.mp (List.pwFilter_subset _ hr)
      have hmem : (log.head table).row convert k.values ∈ ((log.head table).addRow convert k.values
          (returned_named hk)).rows := List.mem_append_right _ (List.mem_singleton_self _)
      exact Shelf.unnamed _ _ hmem n hn }

lemma shelf_columns : (log.shelf convert key table).columns = (log.head table).columns := rfl

lemma shelf_rows : (log.shelf convert key table).rows =
    lastWrites (Shelf.byKey key) (log.writes convert table) := rfl

variable (convert log) in
/-- A call returns when it has fields, all its values can be converted, and it replaces what is there under
its key or no call that returned had the key. -/
def Admits (key : Bytes → Bytes) (k : Call) : Prop :=
  k.values ≠ [] ∧
  (∀ p ∈ k.values, (((log.head k.table).nameAll k.values).held convert p).isSome = true) ∧
  (k.replace = true ∨ ∀ r ∈ log.writes convert k.table,
    Shelf.byKey (key k.table) r (((log.head k.table).nameAll k.values).row convert k.values) = false)

instance (key : Bytes → Bytes) (k : Call) : Decidable (log.Admits convert key k) :=
  inferInstanceAs (Decidable (_ ∧ _ ∧ _))

variable (convert) in
/-- The log of some calls. -/
def outcomes (key : Bytes → Bytes) (ks : List Call) : CallLog :=
  ks.foldl (fun log k => log ++ [(k, decide (log.Admits convert key k))]) []

variable (convert) in
lemma outcomes_snoc (key : Bytes → Bytes) (ks : List Call) (k : Call) :
    outcomes convert key (ks ++ [k]) =
      outcomes convert key ks ++ [(k, decide ((outcomes convert key ks).Admits convert key k))] := by
  unfold outcomes
  rw [List.foldl_append]
  rfl

variable (convert) in
lemma outcomes_calls (key : Bytes → Bytes) (ks : List Call) : (outcomes convert key ks).map (·.1) = ks := by
  induction ks using List.reverseRecOn with
  | nil => rfl
  | append_singleton ks k ih => rw [outcomes_snoc, List.map_append, ih, List.map_singleton]

variable (convert) in
lemma outcomes_named (key : Bytes → Bytes) {ks : List Call} {k : Call} (hk : k ∈ ks) {p : Bytes × VarT}
    (hp : p ∈ k.values) : p.1 ∈ ((outcomes convert key ks).head k.table).columns.map (·.1) := by
  apply Shelf.mem_nameAll.mpr
  right
  apply List.mem_map_of_mem
  unfold fields
  rw [outcomes_calls]
  exact List.mem_flatMap.mpr ⟨k, List.mem_filter.mpr ⟨hk, by simp⟩, hp⟩

section Snoc
variable (k : Call) (b : Bool)

lemma head_snoc : head (log ++ [(k, b)]) k.table = (log.head k.table).nameAll k.values := by
  unfold head
  rw [← Shelf.nameAll_append]
  congr 1
  simp [fields, List.filter_append]

lemma head_snoc_other (ht : k.table ≠ table) : head (log ++ [(k, b)]) table = log.head table := by
  unfold head
  congr 1
  simp [fields, List.filter_append, ht]

lemma returned_snoc : returned (log ++ [(k, b)]) k.table = log.returned k.table ++ if b then [k] else [] := by
  unfold returned
  rw [List.filter_append, List.map_append, List.filter_singleton]
  cases b <;> simp

lemma returned_snoc_other (ht : k.table ≠ table) : returned (log ++ [(k, b)]) table = log.returned table := by
  unfold returned
  rw [List.filter_append, List.map_append, List.filter_singleton]
  simp [ht]

/-- A column keeps its type, so what is written stays. -/
lemma writes_snoc : writes convert (log ++ [(k, b)]) k.table = log.writes convert k.table ++
    if b then [((log.head k.table).nameAll k.values).row convert k.values] else [] := by
  unfold writes
  rw [returned_snoc, head_snoc, List.map_append]
  congr 1
  · apply List.map_congr_left
    intro k' hk'
    exact Shelf.row_nameAll (returned_named hk')
  · cases b <;> rfl

lemma writes_snoc_other (ht : k.table ≠ table) :
    writes convert (log ++ [(k, b)]) table = log.writes convert table := by
  unfold writes
  rw [returned_snoc_other k b ht, head_snoc_other k b ht]

lemma shelf_snoc_columns : (shelf convert key (log ++ [(k, b)]) k.table).columns =
    ((log.shelf convert key k.table).nameAll k.values).columns := by
  rw [shelf_columns, head_snoc]
  exact Shelf.nameAll_columns_congr shelf_columns.symm k.values

lemma shelf_threw : shelf convert key (log ++ [(k, false)]) k.table =
    (log.shelf convert key k.table).nameAll k.values := by
  apply Shelf.eq_of (shelf_snoc_columns k false)
  rw [Shelf.nameAll_rows, shelf_rows, shelf_rows, writes_snoc]
  simp

lemma shelf_returned_rows : (shelf convert key (log ++ [(k, true)]) k.table).rows =
    putOver (Shelf.byKey key) (log.shelf convert key k.table).rows
      (((log.shelf convert key k.table).nameAll k.values).row convert k.values) := by
  have hcolumns : ((log.shelf convert key k.table).nameAll k.values).columns =
      ((log.head k.table).nameAll k.values).columns := Shelf.nameAll_columns_congr shelf_columns k.values
  rw [shelf_rows, writes_snoc, if_pos rfl, (Shelf.sameKey_byKey key).lastWrites_snoc, shelf_rows,
    Shelf.row_of_columns hcolumns]

lemma shelf_other (ht : k.table ≠ table) :
    shelf convert key (log ++ [(k, b)]) table = log.shelf convert key table := by
  apply Shelf.eq_of
  · rw [shelf_columns, shelf_columns, head_snoc_other k b ht]
  · rw [shelf_rows, shelf_rows, writes_snoc_other k b ht]

variable (convert log) in
/-- All tables. -/
def shelves (key : Bytes → Bytes) : RowStore := fun table => log.shelf convert (key table) table

lemma shelves_snoc (key : Bytes → Bytes) : shelves convert (log ++ [(k, b)]) key =
    Function.update (log.shelves convert key) k.table
      (shelf convert (key k.table) (log ++ [(k, b)]) k.table) := by
  funext table
  by_cases ht : k.table = table
  · rw [← ht, Function.update_self]
    rfl
  · rw [Function.update_of_ne (Ne.symm ht)]
    exact shelf_other k b ht

end Snoc

lemma admits_iff {key : Bytes → Bytes} {k : Call} {s : Shelf}
    (hs : s = (log.shelf convert (key k.table) k.table).nameAll k.values) : log.Admits convert key k ↔
      k.values ≠ [] ∧ (∀ p ∈ k.values, (s.held convert p).isSome = true) ∧
      (k.replace = true ∨ ∀ r ∈ s.rows, Shelf.byKey (key k.table) r (s.row convert k.values) = false) := by
  have hcolumns : s.columns = ((log.head k.table).nameAll k.values).columns :=
    hs ▸ Shelf.nameAll_columns_congr shelf_columns k.values
  have hrows : s.rows = lastWrites (Shelf.byKey (key k.table)) (log.writes convert k.table) := by
    rw [hs, Shelf.nameAll_rows, shelf_rows]
  have hexists := (Shelf.sameKey_byKey (key k.table)).exists_lastWrites (log.writes convert k.table)
    (s.row convert k.values)
  have hnone : (∀ r ∈ s.rows, Shelf.byKey (key k.table) r (s.row convert k.values) = false) ↔
      ∀ r ∈ log.writes convert k.table, Shelf.byKey (key k.table) r (s.row convert k.values) = false := by
    rw [hrows]
    have hneg := not_congr hexists
    push Not at hneg
    simpa only [ne_eq, Bool.not_eq_true] using hneg
  rw [hnone, Shelf.held_congr hcolumns, Shelf.row_of_columns hcolumns]
  rfl

end CallLog
end SqliteWrite
