import Mathlib.Data.List.Induction
import SqliteWrite.Sqlite.Relational
import SqliteWrite.Writer.Threads

/-! What the writer is for: a store of rows under names. A column begins with the first call that
names it and keeps the type of that value; a row holds what its call supplied and nothing else. -/
namespace SqliteWrite

/-- The value that SQLite keeps for one that a caller supplies; it has none for "not a number". -/
def stored : VarT → Value
  | .double bits => if Decisions.bind.isNan bits then .null else .real bits
  | .int32 v => .integer v.toInt64
  | .uint32 v => .integer (Int64.ofNat v.toNat)
  | .int64 v => .integer v
  | .string b => .text b
  | .blob b => .blob b
  | .null => .null

/-- One table: its columns with their types in the order in which they were first named, and its
rows, each a value for every name, `NULL` for a name that is no column. -/
structure Shelf where
  columns : List (Bytes × Bytes)
  rows : List (Bytes → Value)
  nodup : (columns.map (·.1)).Nodup
  unnamed : ∀ r ∈ rows, ∀ n, n ∉ columns.map (·.1) → r n = .null

namespace Shelf

def empty : Shelf := ⟨[], [], by simp, by simp⟩

/-- The first value under a name makes a column of its type. -/
def name (s : Shelf) (p : Bytes × VarT) : Shelf :=
  if h : p.1 ∈ s.columns.map (·.1) then s
  else
    { columns := s.columns ++ [(p.1, columnType p.2)]
      rows := s.rows
      nodup := by
        rw [List.map_append, List.nodup_append]
        refine ⟨s.nodup, by simp, ?_⟩
        intro a ha b hb hab
        obtain rfl : b = p.1 := by simpa using hb
        exact h (hab ▸ ha)
      unnamed := fun r hr n hn => s.unnamed r hr n fun hc => hn (by simp [hc]) }

def nameAll (s : Shelf) (values : Fields) : Shelf := values.foldl name s

def type? (s : Shelf) (n : Bytes) : Option Bytes := (s.columns.find? (·.1 = n)).map (·.2)

variable (convert : Bytes → Value → Option Value)

/-- A supplied value, converted to the type of its column. -/
def held (s : Shelf) (p : Bytes × VarT) : Option Value :=
  (s.type? p.1).bind fun type => convert type (stored p.2)

/-- The row of a call: the supplied values under their names. -/
def row (s : Shelf) (values : Fields) (n : Bytes) : Value :=
  ((values.find? (·.1 = n)).bind (s.held convert)).getD .null

/-- One more row of values under columns that are there. -/
def addRow (s : Shelf) (values : Fields) (h : ∀ p ∈ values, p.1 ∈ s.columns.map (·.1)) : Shelf :=
  { s with
    rows := s.rows ++ [s.row convert values]
    unnamed := by
      intro r hr n hn
      rcases List.mem_append.mp hr with hr | hr
      · exact s.unnamed r hr n hn
      · obtain rfl : r = s.row convert values := by simpa using hr
        have hfind : values.find? (·.1 = n) = none := by
          rw [List.find?_eq_none]
          rintro p hp hpn
          exact hn (of_decide_eq_true hpn ▸ h p hp)
        simp [row, hfind] }

variable {s : Shelf} {p : Bytes × VarT} {values : Fields} {n : Bytes}

lemma name_self (h : p.1 ∈ s.columns.map (·.1)) : s.name p = s := dif_pos h

lemma name_columns (h : p.1 ∉ s.columns.map (·.1)) :
    (s.name p).columns = s.columns ++ [(p.1, columnType p.2)] := by
  unfold name
  rw [dif_neg h]

@[simp] lemma name_rows : (s.name p).rows = s.rows := by
  unfold name
  split_ifs <;> rfl

lemma mem_name : n ∈ (s.name p).columns.map (·.1) ↔ n ∈ s.columns.map (·.1) ∨ n = p.1 := by
  unfold name
  split_ifs with h
  · refine ⟨Or.inl, ?_⟩
    rintro (hn | rfl)
    · exact hn
    · exact h
  · simp

lemma mem_nameAll : n ∈ (s.nameAll values).columns.map (·.1) ↔
    n ∈ s.columns.map (·.1) ∨ n ∈ values.map (·.1) := by
  induction values generalizing s with
  | nil => simp [nameAll]
  | cons p values ih =>
    have hrec := ih (s := s.name p)
    unfold nameAll at hrec ⊢
    rw [List.foldl_cons, hrec, mem_name, List.map_cons, List.mem_cons, or_assoc]

lemma named_nameAll : ∀ p ∈ values, p.1 ∈ (s.nameAll values).columns.map (·.1) :=
  fun _ hp => mem_nameAll.mpr (Or.inr (List.mem_map_of_mem hp))

lemma nameAll_self (h : ∀ p ∈ values, p.1 ∈ s.columns.map (·.1)) : s.nameAll values = s := by
  unfold nameAll
  induction values with
  | nil => rfl
  | cons p values ih =>
    rw [List.foldl_cons, name_self (h p (by simp))]
    exact ih fun q hq => h q (by simp [hq])

/-- The column of one of the names of a call. -/
def nameAt (values : Fields) (s : Shelf) (n : Bytes) : Shelf :=
  match values.find? (·.1 = n) with
  | some p => s.name p
  | none => s

lemma find?_self (hd : (values.map (·.1)).Nodup) {p : Bytes × VarT} (hp : p ∈ values) :
    values.find? (·.1 = p.1) = some p := by
  induction values with
  | nil => cases hp
  | cons q values ih =>
    rw [List.map_cons, List.nodup_cons] at hd
    rcases List.mem_cons.mp hp with rfl | hp
    · simp
    · have hne : q.1 ≠ p.1 := fun heq => hd.1 (heq ▸ List.mem_map_of_mem hp)
      rw [List.find?_cons_of_neg (by simpa using hne)]
      exact ih hd.2 hp

lemma nameAt_self (hd : (values.map (·.1)).Nodup) (hp : p ∈ values) :
    nameAt values s p.1 = s.name p := by
  unfold nameAt
  rw [find?_self hd hp]

lemma foldl_nameAt (hd : (values.map (·.1)).Nodup) :
    (values.map (·.1)).foldl (nameAt values) s = s.nameAll values := by
  have hrest : ∀ rest : Fields, (∀ p ∈ rest, p ∈ values) → ∀ s : Shelf,
      (rest.map (·.1)).foldl (nameAt values) s = rest.foldl name s := by
    intro rest
    induction rest with
    | nil => exact fun _ _ => rfl
    | cons p rest ih =>
      intro hmem s
      rw [List.map_cons, List.foldl_cons, nameAt_self hd (hmem p (by simp)), List.foldl_cons]
      exact ih (fun q hq => hmem q (by simp [hq])) _
  exact hrest values (fun _ hp => hp) s

/-- One call on a table: whether it returns, and the table after it. A call with no fields does
nothing; the others name their columns, and add their row when every value can be converted. -/
def call (s : Shelf) (values : Fields) : Bool × Shelf :=
  if values = [] then (false, s)
  else if values.all fun p => ((s.nameAll values).held convert p).isSome then
    (true, (s.nameAll values).addRow convert values named_nameAll)
  else (false, s.nameAll values)

lemma call_nil : s.call convert [] = (false, s) := rfl

lemma call_converts (hne : values ≠ [])
    (hall : ∀ p ∈ values, ((s.nameAll values).held convert p).isSome = true) :
    s.call convert values = (true, (s.nameAll values).addRow convert values named_nameAll) := by
  unfold call
  rw [if_neg hne, if_pos (by simpa using hall)]

lemma call_rejects (hne : values ≠ [])
    (hall : ¬ ∀ p ∈ values, ((s.nameAll values).held convert p).isSome = true) :
    s.call convert values = (false, s.nameAll values) := by
  unfold call
  rw [if_neg hne, if_neg (by simpa using hall)]

/-- A row as a map from the names of the columns. -/
def shown (s : Shelf) (r : Bytes → Value) (n : Bytes) : Option OutVar :=
  if n ∈ s.columns.map (·.1) then some (outvar (r n)) else none

/-- All rows, in order. -/
def read (s : Shelf) : List (Bytes → Option OutVar) := s.rows.map s.shown

lemma type?_eq {c : Bytes × Bytes} (h : c ∈ s.columns) : s.type? c.1 = some c.2 := by
  unfold type?
  have hnodup := s.nodup
  generalize s.columns = cols at h hnodup
  induction cols with
  | nil => cases h
  | cons d cols ih =>
    rw [List.map_cons, List.nodup_cons] at hnodup
    rcases List.mem_cons.mp h with rfl | h
    · simp
    · have hne : d.1 ≠ c.1 := fun heq => hnodup.1 (heq ▸ List.mem_map_of_mem h)
      rw [List.find?_cons_of_neg (by simpa using hne)]
      exact ih h hnodup.2

lemma type?_isSome : (s.type? n).isSome = true ↔ n ∈ s.columns.map (·.1) := by
  simp [type?]

lemma type?_name : (s.name p).type? n =
    (s.type? n).or (if p.1 = n then some (columnType p.2) else none) := by
  by_cases h : p.1 ∈ s.columns.map (·.1)
  · rw [name_self h]
    split_ifs with hn
    · obtain ⟨type, ht⟩ := Option.isSome_iff_exists.mp (type?_isSome.mpr (hn ▸ h))
      rw [ht, Option.some_or]
    · rw [Option.or_none]
  · unfold type?
    rw [name_columns h, List.find?_append, Option.map_or]
    by_cases hn : p.1 = n <;> simp [hn]

lemma type?_nameAll : (s.nameAll values).type? n =
    (s.type? n).or ((values.find? (·.1 = n)).map fun p => columnType p.2) := by
  induction values generalizing s with
  | nil => simp [nameAll]
  | cons p values ih =>
    have hrec := ih (s := s.name p)
    unfold nameAll at hrec ⊢
    rw [List.foldl_cons, hrec, type?_name, Option.or_assoc]
    by_cases hn : p.1 = n <;> simp [hn]

lemma type?_call : (s.call convert values).2.type? n =
    (s.type? n).or ((values.find? (·.1 = n)).map fun p => columnType p.2) := by
  rw [← type?_nameAll]
  unfold call
  split_ifs with hne
  · simp [hne, nameAll]
  · rfl
  · rfl

lemma row_congr {s' : Shelf} (h : ∀ p ∈ values, s'.type? p.1 = s.type? p.1) :
    s'.row convert values = s.row convert values := by
  funext n
  unfold row
  cases hv : values.find? (·.1 = n) with
  | none => rfl
  | some p => simp only [Option.bind_some, held, h p (List.mem_of_find?_eq_some hv)]

lemma call_rows : (s.call convert values).2.rows =
    s.rows ++ if (s.call convert values).1 = true then [(s.call convert values).2.row convert values]
      else [] := by
  have hnames : ∀ values : Fields, ∀ s : Shelf, (s.nameAll values).rows = s.rows := by
    intro values
    induction values with
    | nil => exact fun _ => rfl
    | cons p values ih => exact fun s => (ih (s.name p)).trans name_rows
  by_cases hne : values = []
  · simp [hne, call_nil]
  by_cases hall : ∀ p ∈ values, ((s.nameAll values).held convert p).isSome = true
  · rw [call_converts convert hne hall]
    simp only [addRow, if_true, hnames]
    rfl
  · rw [call_rejects convert hne hall]
    simp [hnames]

end Shelf

/-- A store: its tables under their names. -/
abbrev RowStore := Bytes → Shelf

namespace RowStore
variable (convert : Bytes → Value → Option Value)

def empty : RowStore := fun _ => Shelf.empty

def returns (s : RowStore) (k : Call) : Bool := ((s k.table).call convert k.values).1

def call (s : RowStore) (k : Call) : RowStore :=
  Function.update s k.table ((s k.table).call convert k.values).2

/-- The store in the middle of a call, with some of its columns named. -/
def naming (s : RowStore) (k : Call) (done : List Bytes) : RowStore :=
  Function.update s k.table (done.foldl (Shelf.nameAt k.values) (s k.table))

/-- The store after some more calls. -/
def afterAll (s : RowStore) (ks : List Call) : RowStore := ks.foldl (call convert) s

/-- The store after a list of calls. -/
def after (ks : List Call) : RowStore := ks.foldl (call convert) empty

/-- Which calls of a list return. -/
def results (s : RowStore) : List Call → List Bool
  | [] => []
  | k :: ks => s.returns convert k :: (s.call convert k).results ks

/-- The calls among some more that return from a table, in order. -/
def returnedFrom (s : RowStore) (ks : List Call) (table : Bytes) : List Call :=
  ((ks.zip (s.results convert ks)).filter fun p => p.1.table = table ∧ p.2 = true).map (·.1)

/-- The calls of a list that return from a table, in order. -/
def returned (ks : List Call) (table : Bytes) : List Call :=
  ((ks.zip (results convert empty ks)).filter fun p => p.1.table = table ∧ p.2 = true).map (·.1)

variable {s : RowStore} {k : Call}

lemma naming_nil : s.naming k [] = s := Function.update_eq_self _ _

lemma naming_append (hd : k.names.Nodup) (done : List Bytes) {p : Bytes × VarT} (hp : p ∈ k.values) :
    s.naming k (done ++ [p.1]) =
      Function.update (s.naming k done) k.table ((s.naming k done k.table).name p) := by
  unfold naming
  rw [List.foldl_append, Function.update_self, Function.update_idem, List.foldl_cons, List.foldl_nil,
    Shelf.nameAt_self hd hp]

lemma naming_names (hd : k.names.Nodup) :
    s.naming k k.names = Function.update s k.table ((s k.table).nameAll k.values) := by
  unfold naming
  rw [Call.names, Shelf.foldl_nameAt hd]

variable {convert} {ks : List Call} {table n : Bytes}

lemma afterAll_cons : s.afterAll convert (k :: ks) = (s.call convert k).afterAll convert ks := rfl

lemma afterAll_append : s.afterAll convert (ks ++ [k]) = (s.afterAll convert ks).call convert k := by
  simp [afterAll]

lemma results_append : s.results convert (ks ++ [k]) =
    s.results convert ks ++ [(s.afterAll convert ks).returns convert k] := by
  induction ks generalizing s with
  | nil => rfl
  | cons k' ks ih => rw [List.cons_append, results, ih, results, List.cons_append, afterAll_cons]

lemma results_length : (s.results convert ks).length = ks.length := by
  induction ks generalizing s with
  | nil => rfl
  | cons k ks ih => rw [results, List.length_cons, ih, List.length_cons]

lemma returnedFrom_append : s.returnedFrom convert (ks ++ [k]) table = s.returnedFrom convert ks table ++
    if k.table = table ∧ (s.afterAll convert ks).returns convert k = true then [k] else [] := by
  unfold returnedFrom
  rw [results_append, List.zip_append results_length.symm, List.filter_append, List.map_append]
  congr 1
  rw [List.zip_cons_cons, List.zip_nil_left, List.filter_singleton]
  by_cases hk : k.table = table ∧ (s.afterAll convert ks).returns convert k = true
  · simp [hk]
  · rw [if_neg hk, decide_eq_false hk]
    rfl

/-- A column has the type that it had, or else that of the first value under its name. -/
theorem type?_afterAll : (s.afterAll convert ks table).type? n = ((s table).type? n).or
    ((((ks.filter (·.table = table)).flatMap (·.values)).find? (·.1 = n)).map fun p => columnType p.2) := by
  induction ks using List.reverseRecOn with
  | nil => exact (Option.or_none).symm
  | append_singleton ks k ih =>
    rw [afterAll_append, List.filter_append, List.flatMap_append, List.find?_append, Option.map_or,
      ← Option.or_assoc, ← ih]
    unfold call
    by_cases ht : k.table = table
    · subst ht
      rw [Function.update_self, Shelf.type?_call]
      simp
    · rw [Function.update_of_ne (Ne.symm ht)]
      simp [ht]

variable (s convert) in
lemma named_afterAll (hk : k ∈ ks) {p : Bytes × VarT} (hp : p ∈ k.values) :
    ((s.afterAll convert ks k.table).type? p.1).isSome = true := by
  rw [type?_afterAll, Option.isSome_or, Bool.or_eq_true, Option.isSome_map, List.find?_isSome]
  refine Or.inr ⟨p, ?_, by simp⟩
  rw [List.mem_flatMap]
  exact ⟨k, by simpa using hk, hp⟩

lemma mem_of_returnedFrom (h : k ∈ s.returnedFrom convert ks table) : k ∈ ks ∧ k.table = table := by
  unfold returnedFrom at h
  obtain ⟨⟨k', b⟩, hmem, rfl⟩ := List.mem_map.mp h
  obtain ⟨hzip, ht⟩ := List.mem_filter.mp hmem
  simp only [decide_eq_true_eq] at ht
  exact ⟨(List.of_mem_zip hzip).1, ht.1⟩

/-- A table holds the rows that it had, and one row for each call that returned from it, in the order of the
calls. -/
theorem rows_afterAll : (s.afterAll convert ks table).rows = (s table).rows ++
    (s.returnedFrom convert ks table).map fun k => (s.afterAll convert ks table).row convert k.values := by
  induction ks using List.reverseRecOn with
  | nil => exact (List.append_nil _).symm
  | append_singleton ks k ih =>
    rw [afterAll_append, returnedFrom_append]
    unfold call
    by_cases ht : k.table = table
    · subst ht
      rw [Function.update_self, Shelf.call_rows, ih, List.map_append, List.append_assoc]
      congr 2
      · apply List.map_congr_left
        intro k' hk'
        obtain ⟨hmem, htable⟩ := mem_of_returnedFrom hk'
        refine (Shelf.row_congr convert fun p hp => ?_).symm
        have hnamed := named_afterAll convert s hmem hp
        rw [htable] at hnamed
        obtain ⟨type, htype⟩ := Option.isSome_iff_exists.mp hnamed
        rw [Shelf.type?_call, htype, Option.some_or]
      · simp only [true_and, returns]
        split_ifs <;> rfl
    · rw [Function.update_of_ne (Ne.symm ht), ih]
      simp [ht]

/-- The type of a column is that of the first value under its name. -/
theorem type?_after : (after convert ks table).type? n =
    (((ks.filter (·.table = table)).flatMap (·.values)).find? (·.1 = n)).map
      fun p => columnType p.2 := (type?_afterAll (s := empty)).trans (Option.none_or)

variable (convert) in
lemma named_after (hk : k ∈ ks) {p : Bytes × VarT} (hp : p ∈ k.values) :
    ((after convert ks k.table).type? p.1).isSome = true := named_afterAll convert empty hk hp

/-- A table holds one row for each call that returned from it, in the order of the calls. -/
theorem rows_after : (after convert ks table).rows =
    (returned convert ks table).map fun k => (after convert ks table).row convert k.values :=
  (rows_afterAll (s := empty)).trans (List.nil_append _)

end RowStore
end SqliteWrite
