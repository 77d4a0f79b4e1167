import SqliteWrite.Lib.Trimming
import SqliteWrite.Postgres.Server
import SqliteWrite.Writer.StepLoop

/-! The two ways to read a result as text. `MiniSQLite::exec` copies the C strings that SQLite makes of
the cells; `SQLiteWriter::query` decodes the cells by their types and prints them itself. -/
namespace SqliteWrite
open Method

/-- SQLite's text of a real, of which no more is used than how it looks: a decimal fraction without zeros at
its end, or a numeral with an exponent, or no numeral at all. The sign of a zero need not be written. -/
structure RealTexts where
  text : UInt64 → Bytes
  finite : ∀ bits, realSpecial bits = false →
    (∃ s t, text bits = s ++ ascii "e" ++ t) ∨
      ∃ sign places n, (sign = [] ∨ sign = ascii "-") ∧ text bits = sign ++ trim (fixedPoint places n)
  special : ∀ bits, realSpecial bits = true →
    text bits = realSign bits ++ ascii "Inf" ∨ text bits = ascii "NaN"

section Reals
variable (T : RealTexts) (bits : UInt64)

/-- SQLite writes the real with exactly six digits behind the point, which are its millionths. -/
def SixPlaces : Prop :=
  realSpecial bits = false ∧ ¬ 10 ∣ millionths bits ∧ ∃ places, 6 ≤ places ∧
    T.text bits = realSign bits ++ trim (fixedPoint places (millionths bits * 10 ^ (places - 6)))

lemma exponent_ne {s t : Bytes} {n : ℕ} : s ++ ascii "e" ++ t ≠ realSign bits ++ fixedPoint 6 n := by
  intro h
  have hmem : (101 : UInt8) ∈ s ++ ascii "e" ++ t := by simp [ascii]
  rw [h] at hmem
  rcases List.mem_append.mp hmem with hsign | hfixed
  · unfold realSign at hsign
    revert hsign
    split_ifs <;> decide
  · rcases mem_fixedPoint hfixed with hdigit | hpoint
    · revert hdigit
      decide
    · revert hpoint
      decide

lemma minus_not_mem {places n : ℕ} : (45 : UInt8) ∉ fixedPoint places n := by
  intro hmem
  rcases mem_fixedPoint hmem with h | h <;> revert h <;> decide

lemma minus_not_mem_trim {places n : ℕ} : (45 : UInt8) ∉ trim (fixedPoint places n) := by
  intro hmem
  rcases mem_trim hmem with hfixed | hzero
  · exact minus_not_mem hfixed
  · revert hzero
    decide

/-- The sign is the one before the digits. -/
lemma sign_eq {sign : Bytes} {places n m : ℕ} (hsign : sign = [] ∨ sign = ascii "-")
    (h : sign ++ trim (fixedPoint places n) = realSign bits ++ fixedPoint 6 m) : sign = realSign bits := by
  unfold realSign at h ⊢
  rcases hsign with rfl | rfl
  · split_ifs at h ⊢
    · have hminus : (45 : UInt8) ∈ trim (fixedPoint places n) := by
        rw [show trim (fixedPoint places n) = ascii "-" ++ fixedPoint 6 m from h]
        exact List.mem_cons_self
      exact absurd hminus minus_not_mem_trim
    · rfl
  · split_ifs at h ⊢
    · rfl
    · have hminus : (45 : UInt8) ∈ fixedPoint 6 m := by
        rw [← show ascii "-" ++ trim (fixedPoint places n) = fixedPoint 6 m from h]
        exact List.mem_cons_self
      exact absurd hminus minus_not_mem

/-- The two texts of a real are the same if and only if it has six places. -/
theorem realText_eq_iff : T.text bits = Psql.doubleText bits ↔ SixPlaces T bits := by
  rw [Psql.doubleText_eq]
  unfold SixPlaces
  by_cases hspecial : realSpecial bits = true
  · simp only [hspecial, if_true, Bool.true_eq_false, false_and, iff_false]
    rcases T.special bits hspecial with h | h
    · rw [h]
      unfold realSign
      split_ifs <;> decide
    · rw [h]
      unfold realSign
      split_ifs <;> decide
  have hfinite : realSpecial bits = false := by simpa using hspecial
  rw [if_neg hspecial]
  constructor
  · intro h
    rcases T.finite bits hfinite with ⟨s, t, hs⟩ | ⟨sign, places, n, hsign, hn⟩
    · exact absurd (hs.symm.trans h) (exponent_ne bits)
    · obtain rfl := sign_eq bits hsign (hn.symm.trans h)
      have htrim := List.append_cancel_left (hn.symm.trans h)
      obtain ⟨hle, rfl, hten⟩ := (trim_fixedPoint_iff (by omega) n (millionths bits)).mp htrim
      exact ⟨hfinite, hten, places, hle, hn⟩
  · intro h
    obtain ⟨-, hten, places, hle, htext⟩ := h
    rw [htext, (trim_fixedPoint_iff (by omega) _ (millionths bits)).mpr ⟨hle, rfl, hten⟩]

end Reals

/-- `sqlite3_column_text`, as a C string; a null pointer for a `NULL`. -/
def cellText (T : RealTexts) : Value → Option Bytes
  | .null => none
  | .integer i => some (decimalInt i.toInt)
  | .real bits => some (T.text bits)
  | .text b => some (cstr b)
  | .blob b => some (cstr b)

/-- The visitor of `query`. -/
def outText : OutVar → Bytes
  | .string b => b
  | .null => []
  | .blob _ => ascii "<blob>"
  | .double bits => Psql.doubleText bits
  | .int64 i => decimalInt i.toInt

namespace SQLiteWriter

def query (P : Presenter) (q : Bytes) (values : List VarT) : M (List (Bytes → Option Bytes)) := do
  let res ← queryTLoop P q values 0
  pure (res.map fun rowin name => (rowin.find name).map outText)

end SQLiteWriter

/-- A `SELECT` that SQLite runs to its end on a database, with these rows, by whichever interface: the
columns of a row have distinct names, and the database stays as it is. -/
structure Yielding (T : RealTexts) (E : Engine) (db : E.Db) (q : Bytes) (rows : List (List (Bytes × Value))) : Prop where
  select : Sql.isSelect q = true
  names : ∀ row ∈ rows, (row.map (·.1)).Nodup
  prepared : E.prepare db q = .ok ()
  stepped : E.step db q (List.replicate (E.params q) .null) none = ⟨rows, .done db⟩
  executed : E.exec db q = .ok (rows.map fun row => row.map fun cell => cellText T cell.2) db

/-- No call is running on the connection, and outside a transaction no constraint is deferred. -/
structure Conn.Idle {E : Engine} (c : Conn E) : Prop where
  progress : c.progress = none
  deferred : c.autocommit = true → E.deferred c.view = false

/-- The cells that the two texts are compared for. -/
def Compared : Value → Prop
  | .text b => (0 : UInt8) ∉ b
  | .blob _ => False
  | _ => True

/-- The item in a row and a column. -/
def cellAt {α : Type} (rows : List (List α)) (i j : ℕ) : Option α := rows[i]?.bind fun row => row[j]?

/-- Both ways return, with as many rows, and for each row and column the same text. -/
def Agree (rows : List (List (Bytes × Value))) (x : Except Bytes (List (List Bytes)))
    (y : Except Bytes (List (Bytes → Option Bytes))) : Prop :=
  ∃ xs ys, x = .ok xs ∧ y = .ok ys ∧ xs.length = rows.length ∧ ys.length = rows.length ∧
    ∀ i j name v, cellAt rows i j = some (name, v) → Compared v →
      ∃ s, cellAt xs i j = some s ∧ (ys[i]?.bind fun row => row name) = some s

/-- A cell that both ways give the same text. -/
def Alike (T : RealTexts) : Value → Prop
  | .null => False
  | .real bits => SixPlaces T bits
  | _ => True

section Cells
variable {T : RealTexts}

lemma cellText_of_alike {v : Value} (h : Alike T v) (hc : Compared v) :
    cellText T v = some (outText (outvar v)) := by
  cases v with
  | null => exact h.elim
  | integer i => rfl
  | real bits => exact congrArg some ((realText_eq_iff T bits).mpr h)
  | text b => exact congrArg some (cstr_eq_self hc)
  | blob b => exact hc.elim

lemma alike_of_texts {v : Value} {s : Bytes} (hexec : cellText T v = some s)
    (hquery : Compared v → outText (outvar v) = s) : Alike T v := by
  cases v with
  | null => cases hexec
  | real bits =>
    apply (realText_eq_iff T bits).mp
    have htext : T.text bits = s := Option.some.inj hexec
    exact htext.trans (hquery trivial).symm
  | _ => trivial

end Cells

lemma mapM_id_iff {α : Type} {xs : List (Option α)} {ys : List α} :
    xs.mapM id = some ys ↔ xs = ys.map some := by
  induction xs generalizing ys with
  | nil => cases ys <;> simp
  | cons x xs ih =>
    rw [List.mapM_cons]
    cases x with
    | none => cases ys <;> simp
    | some a =>
      cases ys with
      | nil => cases xs.mapM id <;> simp
      | cons y ys =>
        cases h : xs.mapM id with
        | none => simp [h, ← ih]
        | some zs => simp [h, ← ih]

lemma mapM_rows_iff {xss : List (List (Option Bytes))} {yss : List (List Bytes)} :
    xss.mapM (·.mapM id) = some yss ↔ xss = yss.map (List.map some) := by
  induction xss generalizing yss with
  | nil => cases yss <;> simp
  | cons xs xss ih =>
    rw [List.mapM_cons]
    cases hrow : xs.mapM id with
    | none =>
      have hno : ∀ ys : List Bytes, xs ≠ ys.map some := fun (ys : List Bytes) h => by
        rw [mapM_id_iff.mpr h] at hrow
        cases hrow
      cases yss with
      | nil => simp
      | cons ys yss => simp [hno ys]
    | some zs =>
      obtain rfl := mapM_id_iff.mp hrow
      have hinj : ∀ ys : List Bytes, zs.map some = ys.map some ↔ zs = ys := fun ys =>
        (List.map_injective_iff.mpr (Option.some_injective _)).eq_iff
      cases yss with
      | nil => cases xss.mapM (·.mapM id) <;> simp
      | cons ys yss =>
        cases h : xss.mapM (·.mapM id) with
        | none => simp [← ih, h]
        | some zss => simp [← ih, h, hinj]

namespace Conn
variable {T : RealTexts} {E : Engine} {c : Conn E} {q : Bytes} {rows : List (List (Bytes × Value))}

lemma control_select (h : Sql.isSelect q = true) : control q = none := by
  have hne : ∀ b, Sql.isSelect b = false → q ≠ b := by
    intro b hb heq
    rw [heq, hb] at h
    cases h
  unfold control
  rw [if_neg (hne _ (by decide +kernel)), if_neg (hne _ (by decide +kernel)),
    if_neg (hne _ (by decide +kernel)), if_neg (hne _ (by decide +kernel)),
    if_neg (hne _ (by decide +kernel))]

lemma Idle.exec (hc : c.Idle) (hq : Yielding T E c.view q rows) :
    (c.exec q).1 = .ok (rows.map fun row => row.map fun cell => cellText T cell.2) := by
  unfold Conn.exec
  rw [control_select hq.select]
  simp only [execText, hq.executed]
  cases ha : c.autocommit with
  | false => simp
  | true => simp [hc.deferred ha]

lemma Idle.step (hc : c.Idle) (hq : Yielding T E c.view q rows) :
    (c.step q (List.replicate (E.params q) .null) true).1 = ⟨rows, none⟩ := by
  unfold Conn.step
  simp only [hq.prepared, hc.progress, hq.stepped, Bool.not_true, Bool.false_and, Bool.false_eq_true,
    if_false]
  cases ha : c.autocommit with
  | false => simp
  | true => simp [hc.deferred ha]

end Conn

section Paths
variable {T : RealTexts} {E : Engine} {c : Conn E} {q : Bytes} {rows : List (List (Bytes × Value))}

lemma query_result (P : Presenter) (w : SQLiteWriter) (hc : c.Idle) (hq : Yielding T E c.view q rows) :
    ((SQLiteWriter.query P q []).invoke (Conn.answer E) w c).1 =
      .ok (rows.map fun row name => (decodeRow row name).map outText) := by
  have hbound : SQLiteWriter.Bound E w c q [] 0 (List.replicate (E.params q) .null) :=
    ⟨Or.inl rfl, hq.prepared, rfl⟩
  have hloop : MiniSQLite.loopResult P true ⟨rows, none⟩ = .ok (rows.map decoded) :=
    stepLoop_wanted P none ResultRow.empty [] rows
  have hstep : ((MiniSQLite.limited c 0).step q (List.replicate (E.params q) .null) true).1 =
      ⟨rows, none⟩ := hc.step hq
  unfold SQLiteWriter.query
  rw [invoke_bind, SQLiteWriter.queryTLoop_bound P w c (Sql.blank_of_isSelect hq.select) hbound]
  simp only [hstep, hloop, invoke_pure, List.map_map, Function.comp_def, find_decoded]

/-- The two ways agree on a `SELECT` if and only if no cell is `NULL` and every real among them has
exactly six digits behind the point. -/
theorem exec_query_agree_iff (P : Presenter) (db : MiniSQLite) (w : SQLiteWriter) (hc : c.Idle)
    (hq : Yielding T E c.view q rows) :
    Agree rows ((MiniSQLite.exec q).invoke (Conn.answer E) db c).1
      ((SQLiteWriter.query P q []).invoke (Conn.answer E) w c).1 ↔
    ∀ row ∈ rows, ∀ cell ∈ row, Alike T cell.2 := by
  have hfind : ∀ i j name v, cellAt rows i j = some (name, v) →
      ((rows.map fun row name => (decodeRow row name).map outText)[i]?.bind fun row => row name) =
        some (outText (outvar v)) := by
    intro i j name v hcell
    obtain ⟨row, hrow, hcell⟩ := Option.bind_eq_some_iff.mp hcell
    have hmem := List.mem_of_getElem? hcell
    have hdecode := (decodeRow_eq_some (hq.names row (List.mem_of_getElem? hrow))).mpr ⟨v, hmem, rfl⟩
    simp [List.getElem?_map, hrow, hdecode]
  have hget : ∀ xs : List (List Bytes),
      (rows.map fun row => row.map fun cell => cellText T cell.2) = xs.map (List.map some) → ∀ i j name v,
      cellAt rows i j = some (name, v) → (cellAt xs i j).map some = some (cellText T v) := by
    intro xs hxs i j name v hcell
    obtain ⟨row, hrow, hcell⟩ := Option.bind_eq_some_iff.mp hcell
    have hij := congrArg (fun l => cellAt l i j) hxs
    simp only [cellAt, List.getElem?_map, hrow, Option.map_some, Option.bind_some, hcell] at hij
    rw [hij]
    unfold cellAt
    cases xs[i]? <;> simp
  rw [query_result P w hc hq, MiniSQLite.invoke_exec, hc.exec hq]
  simp only [MiniSQLite.execResult]
  constructor
  · intro h
    obtain ⟨xs, ys, hexec, hquery, -, -, htexts⟩ := h
    obtain rfl := Except.ok.inj hquery
    cases hmap : (rows.map fun row => row.map fun cell => cellText T cell.2).mapM (·.mapM id) with
    | none =>
      rw [hmap] at hexec
      cases hexec
    | some zs =>
      rw [hmap] at hexec
      obtain rfl : zs = xs := Except.ok.inj hexec
      have hxs := mapM_rows_iff.mp hmap
      intro row hrow cell hcell
      obtain ⟨i, hi⟩ := List.mem_iff_getElem?.mp hrow
      obtain ⟨j, hj⟩ := List.mem_iff_getElem?.mp hcell
      have hij : cellAt rows i j = some (cell.1, cell.2) := by simp [cellAt, hi, hj]
      have hstring := hget _ hxs i j cell.1 cell.2 hij
      obtain ⟨s, hs, hs'⟩ := Option.map_eq_some_iff.mp hstring
      refine alike_of_texts hs'.symm fun hcompared => ?_
      obtain ⟨t, ht, ht'⟩ := htexts i j cell.1 cell.2 hij hcompared
      rw [hfind i j cell.1 cell.2 hij] at ht'
      rw [hs] at ht
      exact (Option.some.inj ht').trans (Option.some.inj ht).symm
  · intro halike
    have hxs : (rows.map fun row => row.map fun cell => cellText T cell.2) =
        (rows.map fun row => row.map fun cell => (cellText T cell.2).getD []).map (List.map some) := by
      rw [List.map_map]
      refine List.map_congr_left fun row hrow => ?_
      rw [Function.comp_apply, List.map_map]
      refine List.map_congr_left fun cell hcell => ?_
      have hcellAlike := halike row hrow cell hcell
      cases hv : cell.2 with
      | null =>
        rw [hv] at hcellAlike
        exact hcellAlike.elim
      | _ => simp [cellText, hv]
    rw [mapM_rows_iff.mpr hxs]
    refine ⟨_, _, rfl, rfl, by simp, by simp, fun i j name v hij hcompared => ?_⟩
    obtain ⟨row, hrow, hcell⟩ := Option.bind_eq_some_iff.mp hij
    have hv := halike row (List.mem_of_getElem? hrow) (name, v) (List.mem_of_getElem? hcell)
    have hstring := hget _ hxs i j name v hij
    rw [cellText_of_alike hv hcompared] at hstring
    obtain ⟨s, hs, hs'⟩ := Option.map_eq_some_iff.mp hstring
    exact ⟨s, hs, (hfind i j name v hij).trans hs'.symm⟩

end Paths
/-- SQLite's texts of 1.02 and of 1.234567, beside which all reals are written as zero. -/
def twoTexts : RealTexts where
  text bits :=
    if realSpecial bits then realSign bits ++ ascii "Inf"
    else if bits = 0x3ff051eb851eb852 then realSign bits ++ trim (fixedPoint 2 102)
    else if bits = 0x3ff3c0c9539b8887 then realSign bits ++ trim (fixedPoint 6 1234567)
    else trim (fixedPoint 1 0)
  finite := by
    intro bits h
    have hsign : realSign bits = [] ∨ realSign bits = ascii "-" := by
      unfold realSign
      split_ifs <;> simp
    rw [if_neg (by simp [h])]
    split_ifs
    · exact Or.inr ⟨_, 2, 102, hsign, rfl⟩
    · exact Or.inr ⟨_, 6, 1234567, hsign, rfl⟩
    · exact Or.inr ⟨_, 1, 0, Or.inl rfl, rfl⟩
  special := by
    intro bits h
    exact Or.inl (if_pos h)

/-- An SQLite whose only table is read as these rows. -/
def readingEngine (rows : List (List (Bytes × Value))) : Engine where
  Db := Unit
  exec := fun _ _ => .ok (rows.map fun row => row.map fun cell => cellText twoTexts cell.2) ()
  prepare := fun _ _ => .ok ()
  params := fun _ => 0
  bind := fun _ => .ok .null
  step := fun _ _ _ _ => ⟨rows, .done ()⟩
  deferred := fun _ => false

def readingConn (rows : List (List (Bytes × Value))) : Conn (readingEngine rows) :=
  ⟨(), (), true, none, ⟨0, 0⟩, [], false⟩

lemma readingConn_yielding (rows : List (List (Bytes × Value)))
    (h : ∀ row ∈ rows, (row.map (·.1)).Nodup) :
    (readingConn rows).Idle ∧
      Yielding twoTexts (readingEngine rows) (readingConn rows).view (ascii "select * from \"data\"") rows :=
  ⟨⟨rfl, fun _ => rfl⟩, by decide +kernel, h, rfl, rfl, rfl⟩

/-- An integer, a text, and a real with exactly six digits behind the point. -/
theorem exec_query_agree_iff_oneRow :
    let rows := [[(ascii "a", Value.integer 6), (ascii "b", .text (ascii "ahu")),
      (ascii "c", .real 0x3ff3c0c9539b8887)]]
    Agree rows
      ((MiniSQLite.exec (ascii "select * from \"data\"")).invoke (Conn.answer (readingEngine rows))
        (SQLiteWriter.blank .noFlag).dDb (readingConn rows)).1
      ((SQLiteWriter.query SQLiteWriter.presented (ascii "select * from \"data\"") []).invoke
        (Conn.answer (readingEngine rows)) (SQLiteWriter.blank .noFlag) (readingConn rows)).1 := by
  intro rows
  obtain ⟨hidle, hyielding⟩ := readingConn_yielding rows (by decide +kernel)
  refine (exec_query_agree_iff SQLiteWriter.presented _ _ hidle hyielding).mpr ?_
  have hsix : SixPlaces twoTexts 0x3ff3c0c9539b8887 :=
    ⟨by decide +kernel, by decide +kernel, 6, le_rfl, by decide +kernel⟩
  simp only [rows, List.forall_mem_cons]
  exact ⟨⟨trivial, trivial, hsix, by simp⟩, by simp⟩

/-- For a `NULL` the one way throws, and 1.02 is printed with another number of digits. -/
theorem null_and_short_decimal_differ :
    let q := ascii "select * from \"data\""
    let null := [[(ascii "a", Value.null)]]
    let short := [[(ascii "a", Value.real 0x3ff051eb851eb852)]]
    let exec rows := ((MiniSQLite.exec q).invoke (Conn.answer (readingEngine rows))
      (SQLiteWriter.blank .noFlag).dDb (readingConn rows)).1
    let query rows := ((SQLiteWriter.query SQLiteWriter.presented q []).invoke
      (Conn.answer (readingEngine rows)) (SQLiteWriter.blank .noFlag) (readingConn rows)).1
    ¬ Agree null (exec null) (query null) ∧ ¬ Agree short (exec short) (query short) := by
  intro q null short exec query
  refine ⟨fun h => ?_, fun h => ?_⟩
  · obtain ⟨xs, ys, hexec, -⟩ := h
    cases hexec
  · obtain ⟨xs, ys, hexec, hquery, -, -, htexts⟩ := h
    have hxs : exec short = .ok [[ascii "1.02"]] := by decide +kernel
    have hys : query short = .ok (short.map fun row name => (decodeRow row name).map outText) :=
      query_result SQLiteWriter.presented _ (readingConn_yielding short (by decide)).1
        (readingConn_yielding short (by decide)).2
    rw [hxs] at hexec
    rw [hys] at hquery
    obtain rfl := Except.ok.inj hexec
    obtain rfl := Except.ok.inj hquery
    obtain ⟨s, hs, hs'⟩ := htexts 0 0 (ascii "a") (.real 0x3ff051eb851eb852) rfl trivial
    have hshort : s = ascii "1.02" := (Option.some.inj hs).symm
    have hlong : some (Psql.doubleText 0x3ff051eb851eb852) = some s := hs'
    rw [hshort] at hlong
    revert hlong
    decide +kernel

end SqliteWrite
