import SqliteWrite.Lib.Json
import SqliteWrite.Writer.StepLoop

/-! `packResultsJson`: the rows of a query as JSON, by any library for JSON values. The element of a row is
built column by column, so that its kind depends on whether any column of the row is assigned at all. -/
namespace SqliteWrite

section Pack
variable (L : JsonLibrary)

/-- What a value becomes when it is assigned to a JSON value. -/
def toJson : OutVar → L.Value
  | .double bits => L.scalar (.float bits)
  | .int64 i => L.scalar (.integer i)
  | .string b => L.scalar (.string b)
  | .blob b => L.scalar (.bytes b)
  | .null => L.null

/-- The visitor of one column. -/
def packColumn (fillnull : Bool) (j : L.Value) (col : Bytes × OutVar) : Except Bytes L.Value :=
  match col.2 with
  | .null => if fillnull then L.assign j col.1 (L.scalar (.string [])) else pure j
  | arg => L.assign j col.1 (toJson L arg)

def packRow (fillnull : Bool) (row : ResultRow) : Except Bytes L.Value :=
  row.cells.foldlM (packColumn L fillnull) L.null

def packResultsJson (result : List ResultRow) (fillnull : Bool) : Except Bytes L.Value :=
  result.foldlM (fun arr row => do
    let j ← packRow L fillnull row
    L.append arr j) (L.array [])

/-- What stands for a value in the object of its row, if anything does. -/
def packed (fillnull : Bool) : OutVar → Option L.Value
  | .null => if fillnull then some (L.scalar (.string [])) else none
  | x => some (toJson L x)

/-- The JSON value is an object whose members are the columns of the row that are to be shown. -/
def Describes (fillnull : Bool) (row : Bytes → Option OutVar) (j : L.Value) : Prop :=
  L.members j = some fun name => (row name).bind (packed L fillnull)

/-- The member that some columns give under a name. -/
def shown (fillnull : Bool) (cells : List (Bytes × OutVar)) (name : Bytes) : Option L.Value :=
  ((cells.find? fun cell => cell.1 = name).map (·.2)).bind (packed L fillnull)

end Pack

section Rows
variable {L : JsonLibrary} {fillnull : Bool}

lemma packed_eq_none {x : OutVar} : packed L fillnull x = none ↔ fillnull = false ∧ x = .null := by
  cases x with
  | null => cases fillnull <;> simp [packed]
  | _ => simp [packed]

lemma find_fresh {cells : List (Bytes × OutVar)} {name : Bytes} (h : name ∉ cells.map (·.1)) :
    (cells.find? fun cell => cell.1 = name) = none := by
  rw [List.find?_eq_none]
  intro cell hcell heq
  exact h (of_decide_eq_true heq ▸ List.mem_map_of_mem hcell)

lemma shown_fresh {cells : List (Bytes × OutVar)} {name : Bytes} (h : name ∉ cells.map (·.1)) :
    shown L fillnull cells name = none := by
  rw [shown, find_fresh h]
  rfl

/-- A column with a new name changes what is shown under this name. -/
lemma shown_snoc {cells : List (Bytes × OutVar)} {col : Bytes × OutVar} (hcol : col.1 ∉ cells.map (·.1)) :
    shown L fillnull (cells ++ [col]) =
      Function.update (shown L fillnull cells) col.1 (packed L fillnull col.2) := by
  funext name
  unfold shown
  rw [List.find?_append]
  by_cases h : name = col.1
  · subst h
    rw [find_fresh hcol, Function.update_self]
    simp
  · rw [Function.update_of_ne h]
    simp [Ne.symm h]

/-- The step lemma: one more column. -/
lemma packColumn_built {cells : List (Bytes × OutVar)} {j : L.Value} (h : L.Built (shown L fillnull cells) j)
    {col : Bytes × OutVar} (hcol : col.1 ∉ cells.map (·.1)) :
    ∃ j', packColumn L fillnull j col = .ok j' ∧ L.Built (shown L fillnull (cells ++ [col])) j' := by
  rw [shown_snoc hcol]
  cases hp : packed L fillnull col.2 with
  | none =>
    obtain ⟨rfl, hnull⟩ := packed_eq_none.mp hp
    refine ⟨j, ?_, ?_⟩
    · simp [packColumn, hnull, pure, Except.pure]
    · rwa [← shown_fresh hcol, Function.update_eq_self]
  | some v =>
    have hassign : packColumn L fillnull j col = L.assign j col.1 v := by
      unfold packColumn
      cases hx : col.2 with
      | null =>
        rw [hx] at hp
        cases fillnull with
        | true => simp only [packed, if_true, Option.some.injEq] at hp; simp [hp]
        | false => simp [packed] at hp
      | _ =>
        rw [hx] at hp
        simp only [packed, Option.some.injEq] at hp
        simp [hp]
    obtain ⟨j', hj', hbuilt⟩ := h.assign col.1 v
    exact ⟨j', hassign.trans hj', hbuilt⟩

lemma packColumns_built (seen cols : List (Bytes × OutVar)) {j : L.Value}
    (h : L.Built (shown L fillnull seen) j) (hnodup : ((seen ++ cols).map (·.1)).Nodup) :
    ∃ j', cols.foldlM (packColumn L fillnull) j = .ok j' ∧ L.Built (shown L fillnull (seen ++ cols)) j' := by
  induction cols generalizing seen j with
  | nil => exact ⟨j, rfl, by simpa using h⟩
  | cons col cols ih =>
    have hfresh : col.1 ∉ seen.map (·.1) := by
      rw [List.map_append, List.map_cons, List.nodup_append] at hnodup
      intro hmem
      exact hnodup.2.2 col.1 hmem col.1 List.mem_cons_self rfl
    obtain ⟨j₁, hj₁, hbuilt⟩ := packColumn_built h hfresh
    obtain ⟨j', hj', hbuilt'⟩ := ih (seen ++ [col]) hbuilt (by simpa using hnodup)
    refine ⟨j', ?_, by simpa using hbuilt'⟩
    rw [List.foldlM_cons, hj₁]
    exact hj'

lemma packRow_built (row : ResultRow) :
    ∃ j, packRow L fillnull row = .ok j ∧ L.Built (shown L fillnull row.cells) j := by
  have hnone : L.Built (shown L fillnull []) L.null := .fresh
  obtain ⟨j, hj, hbuilt⟩ := packColumns_built [] row.cells hnone row.nodup
  exact ⟨j, hj, hbuilt⟩

variable (L fillnull) in
lemma packRows_built (result : List ResultRow) (elements : List L.Value) :
    ∃ more, result.foldlM (fun arr row => do
        let j ← packRow L fillnull row
        L.append arr j) (L.array elements) = .ok (L.array (elements ++ more)) ∧
      List.Forall₂ (fun row j => L.Built (shown L fillnull row.cells) j) result more := by
  induction result generalizing elements with
  | nil => exact ⟨[], by simp [pure, Except.pure], List.Forall₂.nil⟩
  | cons row result ih =>
    obtain ⟨j, hj, hbuilt⟩ := packRow_built row
    obtain ⟨more, hmore, hall⟩ := ih (elements ++ [j])
    refine ⟨j :: more, ?_, List.Forall₂.cons hbuilt hall⟩
    rw [List.foldlM_cons, hj]
    simp only [bind, Except.bind, L.append_array]
    refine hmore.trans ?_
    simp

lemma shown_iff {row : ResultRow} (hcols : row.cells ≠ []) : (∃ name, shown L fillnull row.cells name ≠ none) ↔
    fillnull = true ∨ ∃ name x, row.find name = some x ∧ x ≠ .null := by
  have hcell : ∀ name x, row.find name = some x →
      shown L fillnull row.cells name = packed L fillnull x := by
    intro name x hx
    change (row.find name).bind (packed L fillnull) = _
    rw [hx, Option.bind_some]
  constructor
  · rintro ⟨name, hname⟩
    cases hx : row.find name with
    | none => exact absurd (congrArg (Option.bind · (packed L fillnull)) hx) hname
    | some x =>
      rw [hcell name x hx, ne_eq, packed_eq_none, not_and_or] at hname
      exact hname.imp (by simp) fun hnull => ⟨name, x, hx, hnull⟩
  · rintro (rfl | ⟨name, x, hx, hnull⟩)
    · obtain ⟨cell, hmem⟩ := List.exists_mem_of_ne_nil _ hcols
      refine ⟨cell.1, ?_⟩
      rw [hcell cell.1 cell.2 (row.find_eq_some.mpr hmem)]
      simp [packed_eq_none]
    · refine ⟨name, ?_⟩
      rw [hcell name x hx]
      simp [packed_eq_none, hnull]

end Rows

/-- The result is an array with an object for each row, which shows this row. -/
def OneObjectPerRow (L : JsonLibrary) (fillnull : Bool) (result : List ResultRow) (j : Except Bytes L.Value) :
    Prop :=
  ∃ elements, j = .ok (L.array elements) ∧
    List.Forall₂ (fun row j => Describes L fillnull row.find j) result elements

/-- There is one object for each row if and only if nulls are filled or every row has a column that is
not null; the element of any other row is null. -/
theorem packResultsJson_objects_iff (L : JsonLibrary) (result : List ResultRow)
    (hcols : ∀ row ∈ result, row.cells ≠ []) (fillnull : Bool) :
    OneObjectPerRow L fillnull result (packResultsJson L result fillnull) ↔
      fillnull = true ∨ ∀ row ∈ result, ∃ name x, row.find name = some x ∧ x ≠ .null := by
  obtain ⟨elements, hpack, hall⟩ := packRows_built L fillnull result []
  have hresult : packResultsJson L result fillnull = .ok (L.array elements) := hpack
  have hobjects : List.Forall₂ (fun row j => Describes L fillnull row.find j) result elements ↔
      ∀ row ∈ result, ∃ name, shown L fillnull row.cells name ≠ none := by
    clear hpack hresult hcols
    induction hall with
    | nil => simp
    | cons hbuilt _ ih =>
      rw [List.forall₂_cons, List.forall_mem_cons, ih]
      exact and_congr_left fun _ => hbuilt.object_iff
  unfold OneObjectPerRow
  rw [hresult]
  constructor
  · intro h
    obtain ⟨elements', heq, hdescribes⟩ := h
    obtain rfl : elements = elements' := L.array_injective (Except.ok.inj heq)
    by_cases hf : fillnull = true
    · exact Or.inl hf
    · refine Or.inr fun row hrow => ?_
      have hshow := (shown_iff (hcols row hrow)).mp (hobjects.mp hdescribes row hrow)
      exact hshow.resolve_left hf
  · intro h
    refine ⟨elements, rfl, hobjects.mpr fun row hrow => ?_⟩
    exact (shown_iff (hcols row hrow)).mpr (h.imp id fun h => h row hrow)

/-- Two rows, of which the second has a null beside a number. -/
theorem packResultsJson_objects_iff_twoRows :
    let result : List ResultRow := [
      ⟨[(ascii "id", .int64 1), (ascii "user", .string (ascii "ahu"))], by decide⟩,
      ⟨[(ascii "user", .null), (ascii "id", .int64 2)], by decide⟩]
    OneObjectPerRow Json.library false result (packResultsJson Json.library result false) := by
  intro result
  refine (packResultsJson_objects_iff Json.library result (by simp [result]) false).mpr (Or.inr ?_)
  simp only [result, List.forall_mem_cons]
  exact ⟨⟨ascii "id", .int64 1, rfl, by simp⟩, ⟨ascii "id", .int64 2, rfl, by simp⟩, by simp⟩

/-- A row whose only column is null becomes null and no object, where nulls are left out. -/
theorem all_null_row_is_no_object :
    let result : List ResultRow := [⟨[(ascii "user", .null)], by decide⟩]
    packResultsJson Json.library result false = .ok (Json.array [Json.null]) ∧
      ¬ OneObjectPerRow Json.library false result (packResultsJson Json.library result false) := by
  intro result
  have hpack : packResultsJson Json.library result false = .ok (Json.array [Json.null]) := rfl
  refine ⟨hpack, fun h => ?_⟩
  obtain ⟨elements, heq, hall⟩ := h
  obtain rfl : [Json.null] = elements := Json.array.inj (Except.ok.inj (hpack.symm.trans heq))
  obtain ⟨hnull, -⟩ := List.forall₂_cons.mp hall
  cases hnull

end SqliteWrite
