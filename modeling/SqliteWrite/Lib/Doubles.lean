import SqliteWrite.Lib.Binary

/-! The bit patterns of IEEE 754 doubles: the parts of one, the rational number that a finite one denotes,
and its rounding to millionths. -/
namespace SqliteWrite
variable (bits : UInt64)

def realNegative : Bool := bits.toNat / 2 ^ 63 = 1

/-- The exponent field of all ones. -/
def realSpecial : Bool := bits.toNat / 2 ^ 52 % 2048 = 2047

def realSignificand : ℕ :=
  let exponent := bits.toNat / 2 ^ 52 % 2048
  let fraction := bits.toNat % 2 ^ 52
  if exponent = 0 then fraction else 2 ^ 52 + fraction

/-- The finite value without its sign is `realSignificand * 2 ^ (realScale - 1075)`. -/
def realScale : ℕ :=
  let exponent := bits.toNat / 2 ^ 52 % 2048
  if exponent = 0 then 1 else exponent

def realSign : Bytes := if realNegative bits then ascii "-" else []

/-- The millionths of a real, rounded. -/
def millionths : ℕ :=
  roundHalfEven (realSignificand bits * 10 ^ 6 * 2 ^ (realScale bits - 1075)) (2 ^ (1075 - realScale bits))

/-- The number without its sign. -/
def realMagnitude : ℚ := realSignificand bits * 2 ^ ((realScale bits : ℤ) - 1075)

/-- The number that a finite pattern denotes. -/
def realValue : ℚ := if realNegative bits then -realMagnitude bits else realMagnitude bits

lemma realSignificand_lt : realSignificand bits < 2 ^ 53 := by
  have hmod := Nat.mod_lt bits.toNat (show 0 < 2 ^ 52 by norm_num)
  unfold realSignificand
  simp only
  split_ifs <;> omega

lemma zpow_realScale : (2 : ℚ) ^ ((realScale bits : ℤ) - 1075) =
    (2 ^ (realScale bits - 1075) : ℕ) / (2 ^ (1075 - realScale bits) : ℕ) := by
  have hden : ((2 ^ (1075 - realScale bits) : ℕ) : ℚ) ≠ 0 := by positivity
  rw [eq_div_iff hden]
  push_cast
  rw [← zpow_natCast, ← zpow_natCast, ← zpow_add₀ two_ne_zero]
  congr 1
  omega

lemma realMagnitude_nonneg : 0 ≤ realMagnitude bits :=
  mul_nonneg (Nat.cast_nonneg _) (zpow_nonneg two_pos.le _)

lemma abs_sub_millionths_le : |realMagnitude bits * 10 ^ 6 - millionths bits| ≤ 1 / 2 := by
  have hround := abs_sub_roundHalfEven_le
    (realSignificand bits * 10 ^ 6 * 2 ^ (realScale bits - 1075))
    (show 0 < 2 ^ (1075 - realScale bits) by positivity)
  have hquotient : realMagnitude bits * 10 ^ 6 =
      (realSignificand bits * 10 ^ 6 * 2 ^ (realScale bits - 1075) : ℕ) /
        (2 ^ (1075 - realScale bits) : ℕ) := by
    unfold realMagnitude
    rw [zpow_realScale]
    push_cast
    ring
  rwa [hquotient]

lemma realMagnitude_integer (h : 2 ^ 53 ≤ realMagnitude bits) : ∃ n : ℕ, realMagnitude bits = n := by
  have hlt : (realSignificand bits : ℚ) < 2 ^ 53 := by exact_mod_cast realSignificand_lt bits
  have hscale : 1075 ≤ realScale bits := by
    by_contra hsmall
    have hpow : (2 : ℚ) ^ ((realScale bits : ℤ) - 1075) ≤ 1 :=
      zpow_le_one_of_nonpos₀ one_le_two (by omega)
    have hle : realMagnitude bits ≤ realSignificand bits :=
      mul_le_of_le_one_right (Nat.cast_nonneg _) hpow
    linarith
  refine ⟨realSignificand bits * 2 ^ (realScale bits - 1075), ?_⟩
  unfold realMagnitude
  rw [zpow_realScale, Nat.sub_eq_zero_of_le hscale]
  push_cast
  ring

end SqliteWrite
