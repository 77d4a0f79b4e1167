import SqliteWrite.Writer.MethodSpecs

/-! The deadline of a query. `DeadlineCatcher` adds the milliseconds to the present time, and the
handler that it installs compares times by their parts; counted in nanoseconds this is exact unless
the count of milliseconds turns negative or the carry is missed. -/
namespace SqliteWrite
open Method

namespace Timespec

def Normalised (t : Timespec) : Prop := 0 ≤ t.nsec ∧ t.nsec < 1000000000

instance (t : Timespec) : Decidable t.Normalised :=
  inferInstanceAs (Decidable (0 ≤ t.nsec ∧ t.nsec < 1000000000))

/-- A time as one count. -/
def nanos (t : Timespec) : ℤ := t.sec * 1000000000 + t.nsec

end Timespec

/-- The handler that `DeadlineCatcher` installs; a result other than 0 interrupts the statement. -/
def progressHandler (ttd now : Timespec) : Bool :=
  decide (ttd.sec < now.sec ∨ (ttd.sec = now.sec ∧ ttd.nsec < now.nsec))

section Deadline
variable {ttd now start : Timespec} {msec : UInt32}

lemma progressHandler_iff (ht : ttd.Normalised) (hn : now.Normalised) :
    progressHandler ttd now = true ↔ ttd.nanos < now.nanos := by
  obtain ⟨ht0, ht1⟩ := ht
  obtain ⟨hn0, hn1⟩ := hn
  unfold progressHandler Timespec.nanos
  rw [decide_eq_true_iff]
  omega

lemma toInt_toInt32 (msec : UInt32) : msec.toInt32.toInt =
    if msec.toNat < 2 ^ 31 then (msec.toNat : ℤ) else msec.toNat - 2 ^ 32 := by
  have hbits : msec.toInt32.toInt = (msec.toNat : ℤ).bmod (2 ^ 32) := by
    change msec.toInt32.toBitVec.toInt = _
    rw [UInt32.toBitVec_toInt32, BitVec.toInt_eq_toNat_bmod]
    rfl
  have hlt := msec.toNat_lt
  rw [hbits]
  split_ifs
  · rw [Int.bmod_eq_of_le] <;> omega
  · rw [Int.bmod_eq_iff] <;> omega

lemma deadline_nanos (start : Timespec) (msec : UInt32) :
    (deadline start msec).nanos = start.nanos + msec.toInt32.toInt * 1000000 := by
  have hparts := Int.mul_tdiv_add_tmod msec.toInt32.toInt 1000
  unfold deadline divMsec Timespec.nanos
  simp only
  split_ifs <;> (simp only; omega)

/-- The carry leaves the deadline as it is at exactly one second. -/
lemma deadline_normalised_iff (hs : start.Normalised) (h : msec.toNat < 2 ^ 31) :
    (deadline start msec).Normalised ↔ start.nsec + 1000000 * (msec.toNat % 1000 : ℕ) ≠ 1000000000 := by
  obtain ⟨hs0, hs1⟩ := hs
  have hcount : msec.toInt32.toInt = msec.toNat := by rw [toInt_toInt32, if_pos h]
  have hrem : msec.toInt32.toInt.tmod 1000 = (msec.toNat % 1000 : ℕ) := by
    rw [hcount, Int.tmod_eq_emod_of_nonneg (by omega)]
    simp
  unfold deadline divMsec Timespec.Normalised
  rw [hrem]
  simp only
  split_ifs <;> (simp only; omega)

/-- The deadline is normalised and the handler exact, at every later time, if and only if the count
of milliseconds fits an `int` and the nanoseconds do not add up to exactly one second. -/
theorem deadline_exact_iff (hs : start.Normalised) (msec : UInt32) :
    ((deadline start msec).Normalised ∧ ∀ now : Timespec, now.Normalised → start.nanos ≤ now.nanos →
      (progressHandler (deadline start msec) now = true ↔
        start.nanos + msec.toNat * 1000000 < now.nanos)) ↔
    msec.toNat < 2 ^ 31 ∧ start.nsec + 1000000 * (msec.toNat % 1000 : ℕ) ≠ 1000000000 := by
  have hnanos := deadline_nanos start msec
  rw [toInt_toInt32] at hnanos
  constructor
  · rintro ⟨hnorm, hexact⟩
    have hsmall : msec.toNat < 2 ^ 31 := by
      by_contra hlarge
      -- A negative count puts the deadline before the start.
      rw [if_neg hlarge] at hnanos
      have hlt := msec.toNat_lt
      have hstart := hexact start hs le_rfl
      rw [progressHandler_iff hnorm hs] at hstart
      omega
    exact ⟨hsmall, (deadline_normalised_iff hs hsmall).mp hnorm⟩
  · rintro ⟨hsmall, hcarry⟩
    have hnorm := (deadline_normalised_iff hs hsmall).mpr hcarry
    rw [if_pos hsmall] at hnanos
    refine ⟨hnorm, fun now hnow _ => ?_⟩
    rw [progressHandler_iff hnorm hnow, hnanos]

theorem deadline_exact_iff_halfSecond :
    (deadline ⟨7, 400000000⟩ 1500).Normalised ∧
      (progressHandler (deadline ⟨7, 400000000⟩ 1500) ⟨8, 900000000⟩ = true ↔
        Timespec.nanos ⟨7, 400000000⟩ + (1500 : UInt32).toNat * 1000000 < Timespec.nanos ⟨8, 900000000⟩) := by
  have hnormalised : Timespec.Normalised ⟨7, 400000000⟩ := by decide
  have hexact := (deadline_exact_iff hnormalised 1500).mpr (by decide)
  exact ⟨hexact.1, hexact.2 _ (by decide) (by decide)⟩

/-- Half a second after half past, the deadline is the count 1000000000 of nanoseconds, and the
handler interrupts at the very deadline. -/
theorem deadline_misses_carry :
    ¬ ((deadline ⟨0, 500000000⟩ 500).Normalised) ∧
      progressHandler (deadline ⟨0, 500000000⟩ 500) ⟨1, 0⟩ = true ∧
      ¬ Timespec.nanos ⟨0, 500000000⟩ + (500 : UInt32).toNat * 1000000 < Timespec.nanos ⟨1, 0⟩ := by
  decide

end Deadline

namespace Conn
variable {E : Engine}

@[simp] lemma step_progress (c : Conn E) (sql : Bytes) (binds : List Value) (rows : Bool) :
    (c.step sql binds rows).2.progress = c.progress := by
  unfold step
  cases E.prepare c.view sql with
  | error msg => rfl
  | ok u =>
    simp only
    split_ifs
    · rfl
    · cases (E.step c.view sql binds c.progress).finish with
      | done db =>
        simp only
        split_ifs <;> rfl
      | error rc => rfl
      | rollback rc => rfl

end Conn

namespace MiniSQLite
variable {E : Engine} {table : Bytes} {db : MiniSQLite} {msec : UInt32}

lemma script_execPrep_timed (rows : Bool) (hm : msec ≠ 0) : (execPrep table rows msec).script db =
    .ask .clock fun now => .ask (.progressHandler (some (deadline now msec))) fun _ =>
      match db.dStmts table with
      | none => .ask .clearNull fun _ => .ask (.progressHandler none) fun _ =>
        .done (.error (stepFailed 21), db)
      | some s => .ask (.step s.sql s.binds rows) fun r => .ask (.progressHandler none) fun _ =>
        .done (stepRows rows r, db.setStmt table (some (resetStmt s))) := by
  unfold execPrep sqlite3Step sqlite3ClearNull clockGettime sqlite3ProgressHandler
  simp only [if_pos hm]
  rw [script_ask_bind]
  congr 1
  funext now
  rw [script_ask_bind]
  congr 1
  funext u
  rw [script_get_bind]
  cases db.dStmts table with
  | none => rfl
  | some s =>
    simp only
    rw [script_modify_bind, script_ask_bind]
    congr 1
    funext r
    rw [script_modify_bind, script_pure_bind, script_ask_bind, setStmt_setStmt]
    cases stepRows rows r <;> rfl

/-- The statement of a query with a time limit runs under the deadline that was computed when the
query began, and no handler is left behind. -/
theorem execPrep_under_deadline (rows : Bool) (hm : msec ≠ 0) (c : Conn E) :
    (∀ p ∈ ((execPrep table rows msec).script db).trace (Conn.answer E) c, ∀ sql binds r,
      p.1 = .step sql binds r → p.2.progress = some (deadline c.now msec)) ∧
    ((execPrep table rows msec).invoke (Conn.answer E) db c).2.2.progress = none := by
  unfold invoke
  rw [script_execPrep_timed rows hm]
  cases db.dStmts table with
  | none => simp [Script.trace, Script.run, Conn.answer]
  | some s => simp [Script.trace, Script.run, Conn.answer]

end MiniSQLite
end SqliteWrite
