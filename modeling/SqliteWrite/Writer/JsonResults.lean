import SqliteWrite.Writer.JsonHelper
import SqliteWrite.Writer.StoredRuns

/-! What the JSON of a result tells. Two results with the same JSON have the same rows, up to what becomes
of a null; and the JSON of a table shows the calls that stored its rows. -/
namespace SqliteWrite

/-- What JSON tells of a column: a null cannot be told from an empty text, where nulls are filled, or from
no column, where they are left out. -/
def told (fillnull : Bool) : Option OutVar → Option OutVar
  | some .null => if fillnull then some (.string []) else none
  | x => x

section Told
variable {L : JsonLibrary} {fillnull : Bool}

lemma toJson_injective : Function.Injective (toJson L) := by
  intro x y h
  cases x with
  | null => cases y <;> first | rfl | exact absurd h.symm (L.scalar_ne_null _)
  | _ =>
    cases y with
    | null => exact absurd h (L.scalar_ne_null _)
    | _ => cases L.scalar_injective h <;> rfl

lemma packed_told (x : Option OutVar) : x.bind (packed L fillnull) = (told fillnull x).map (toJson L) := by
  cases x with
  | none => rfl
  | some x =>
    cases x with
    | null => cases fillnull <;> rfl
    | _ => rfl

lemma shown_told {row : ResultRow} :
    shown L fillnull row.cells = fun name => (told fillnull (row.find name)).map (toJson L) :=
  funext fun name => packed_told (row.find name)

lemma built_told {row row' : ResultRow} {j j' : L.Value} (h : L.Built (shown L fillnull row.cells) j)
    (h' : L.Built (shown L fillnull row'.cells) j') :
    j = j' ↔ ∀ name, told fillnull (row.find name) = told fillnull (row'.find name) := by
  rw [h.eq_iff h', shown_told, shown_told, funext_iff]
  apply forall_congr'
  intro name
  exact (Option.map_injective toJson_injective).eq_iff

end Told

/-- Two results have the same JSON if and only if they have as many rows, of whose columns JSON tells the
same. The order in which the columns of a row are walked does not matter. -/
theorem packResultsJson_eq_iff (L : JsonLibrary) (fillnull : Bool) (result result' : List ResultRow) :
    packResultsJson L result fillnull = packResultsJson L result' fillnull ↔
      List.Forall₂ (fun row row' => ∀ name, told fillnull (row.find name) = told fillnull (row'.find name))
        result result' := by
  obtain ⟨elements, hpack, hall⟩ := packRows_built L fillnull result []
  obtain ⟨elements', hpack', hall'⟩ := packRows_built L fillnull result' []
  have hresult : packResultsJson L result fillnull = .ok (L.array elements) := hpack
  have hresult' : packResultsJson L result' fillnull = .ok (L.array elements') := hpack'
  have harrays : packResultsJson L result fillnull = packResultsJson L result' fillnull ↔
      elements = elements' := by
    rw [hresult, hresult', Except.ok.injEq]
    exact L.array_injective.eq_iff
  rw [harrays]
  clear hpack hpack' hresult hresult' harrays
  induction hall generalizing result' elements' with
  | nil =>
    cases hall' with
    | nil => simp
    | cons _ _ => simp
  | cons hbuilt _ ih =>
    cases hall' with
    | nil => simp
    | cons hbuilt' hrest =>
      rw [List.cons.injEq, List.forall₂_cons]
      exact and_congr (built_told hbuilt hbuilt') (ih _ _ hrest)

/-- The JSON value is built of the columns of a row that are to be shown: an object with a member for each,
or null if there is none. -/
def Renders (L : JsonLibrary) (fillnull : Bool) (row : Bytes → Option OutVar) (j : L.Value) : Prop :=
  L.Built (fun name => (row name).bind (packed L fillnull)) j

lemma packResultsJson_renders (L : JsonLibrary) (fillnull : Bool) (result : List ResultRow) :
    ∃ elements, packResultsJson L result fillnull = .ok (L.array elements) ∧
      List.Forall₂ (Renders L fillnull) (result.map ResultRow.find) elements := by
  obtain ⟨elements, hpack, hall⟩ := packRows_built L fillnull result []
  exact ⟨elements, hpack, List.forall₂_map_left_iff.mpr hall⟩

namespace Sys
open SQLiteWriter Method
variable {D : Decisions}

/-- After every run of calls with proper names and values on an empty database: the JSON of the query for
all rows of a table is an array with one element for each call on it that returned, in their order, and the
element renders the row that the call stored. -/
theorem stored_calls_as_json (hdoc : D.Documented) {flag : SQLWFlag} (hflag : flag ≠ .readOnly)
    (evs : List Event) (hp : Proper D (callsOf evs)) (P : Presenter) (L : JsonLibrary) (fillnull : Bool) :
    let s := (start D.engine flag noMeta Db.empty).run evs
    ∀ k ∈ callsOf evs, k.values ≠ [] → ∃ rows elements,
      ((queryTLoop P (selectText k.table) [] 0).invoke (Conn.answer D.engine) s.writer s.conn).1 = .ok rows ∧
      packResultsJson L rows fillnull = .ok (L.array elements) ∧
      List.Forall₂ (fun k' j => Renders L fillnull ((RowStore.after D.convert (callsOf evs) k.table).shown
        ((RowStore.after D.convert (callsOf evs) k.table).row D.convert k'.values)) j)
        (RowStore.returned D.convert (callsOf evs) k.table) elements := by
  intro s k hk hne
  obtain ⟨hkeeps, hcalls⟩ := started_keeps hdoc hflag hp stored_empty evs fun _ hk => hk
  have hstored : Stored (callsOf evs) (RowStore.after D.convert (callsOf evs)) _ := hcalls ▸ hkeeps.stored
  obtain ⟨p, hmem⟩ := List.exists_mem_of_ne_nil _ hne
  have hcolumns : (RowStore.after D.convert (callsOf evs) k.table).columns ≠ [] := by
    have hnamed := Shelf.type?_isSome.mp (RowStore.named_after D.convert hk hmem)
    intro hnil
    simp [hnil] at hnamed
  have hquery := queryT_stored hdoc hp hk s.writer hstored hcolumns
  rw [queryT_refined P] at hquery
  cases hloop : ((queryTLoop P (selectText k.table) [] 0).invoke (Conn.answer D.engine) s.writer s.conn).1 with
  | error e =>
    rw [hloop] at hquery
    cases hquery
  | ok rows =>
    rw [hloop] at hquery
    have hfind : rows.map ResultRow.find = (RowStore.after D.convert (callsOf evs) k.table).read :=
      Except.ok.inj hquery
    obtain ⟨elements, hpack, hall⟩ := packResultsJson_renders L fillnull rows
    rw [hfind, Shelf.read, RowStore.rows_after, List.map_map] at hall
    exact ⟨rows, elements, rfl, hpack, List.forall₂_map_left_iff.mp hall⟩

theorem stored_calls_as_json_mixedCalls :
    let s := (start Reference.decisions.engine .noFlag noMeta Db.empty).run mixedCalls
    ∃ rows elements, ((queryTLoop presented (selectText (ascii "t")) [] 0).invoke
        (Conn.answer Reference.decisions.engine) s.writer s.conn).1 = .ok rows ∧
      packResultsJson Json.library rows false = .ok (Json.array elements) ∧ elements.length = 2 := by
  intro s
  have hproper : Proper Reference.decisions (callsOf mixedCalls) := by
    refine ⟨?_, ?_, ?_, ?_, ?_, ?_, Reference.decisions_takes _⟩ <;> decide +kernel
  obtain ⟨rows, elements, hrows, hpack, hall⟩ := stored_calls_as_json Reference.decisions_documented
    (show SQLWFlag.noFlag ≠ .readOnly by decide) mixedCalls hproper presented Json.library false
    ⟨ascii "t", [(ascii "a", .int32 1)], false⟩ (by decide) (by decide)
  have hreturned : (RowStore.returned Reference.decisions.convert (callsOf mixedCalls) (ascii "t")).length = 2 := by
    decide +kernel
  exact ⟨rows, elements, hrows, hpack, hall.length_eq.symm.trans hreturned⟩

end Sys
end SqliteWrite
