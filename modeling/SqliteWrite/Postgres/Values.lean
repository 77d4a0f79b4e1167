import Mathlib.Tactic.NormNum
import SqliteWrite.Postgres.MultiRow

/-! How the values of the messages come out of PostgreSQL again. Each is sent as a text, and the server
reads the text by the type of the column; a double is sent with six digits behind the point, and read as a
number of single precision. -/
namespace SqliteWrite.Psql

/-- The sign in front of a numeral, and the numeral. -/
def signed (s : Bytes) : Bool × Bytes :=
  if s.head? = some 45 then (true, s.tail) else if s.head? = some 43 then (false, s.tail) else (false, s)

/-- An integer: a sign and digits. -/
def integerInput (s : Bytes) : Option ℤ :=
  (numeral (signed s).2).map fun n => if (signed s).1 then -n else n

/-- The digits behind the point, where there is one, and what follows them. -/
def fraction (s : Bytes) : Bytes × Bytes :=
  if s.head? = some 46 then (s.tail.takeWhile digitByte, s.tail.dropWhile digitByte) else ([], s)

/-- The exponent of ten at the end of a numeral. -/
def exponentInput (s : Bytes) : Option ℤ :=
  match s with
  | [] => some 0
  | c :: s => if lower c = 101 then integerInput s else none

/-- A decimal number: a sign, digits with at most one point among them, and an exponent. -/
def decimalInput (s : Bytes) : Option (Bool × ℚ) := do
  let (negative, s) := signed s
  let whole := s.takeWhile digitByte
  let (behind, s) := fraction (s.dropWhile digitByte)
  let n ← numeral (whole ++ behind)
  let e ← exponentInput s
  some (negative, n * 10 ^ (e - behind.length))

/-- A value as PostgreSQL stores it. -/
inductive Datum
  | real (x : ℚ)
  | infinity (negative : Bool)
  | nan
  | bigint (i : ℤ)
  | text (b : Bytes)
  deriving DecidableEq

/-- The numbers of a `REAL`. -/
def real4 : Binary := ⟨24, -149, 128, by decide, by decide⟩

/-- The text of a `REAL`. -/
def realInput (s : Bytes) : Option Datum :=
  let (negative, word) := signed s
  if fold word = ascii "inf" ∨ fold word = ascii "infinity" then some (.infinity negative)
  else if fold word = ascii "nan" then some .nan
  else (decimalInput s).bind fun x => (real4.round x.2).map fun y => .real (if x.1 then -y else y)

/-- The text of a `BIGINT`. -/
def bigintInput (s : Bytes) : Option Datum :=
  (integerInput s).bind fun i => if -2 ^ 63 ≤ i ∧ i < 2 ^ 63 then some (.bigint i) else none

/-- A server with these key words and this encoding, and the types that the worker creates. -/
def typedDialect (reserved encoded : Bytes → Bool) : Dialect Datum where
  reserved := reserved
  input type text :=
    if type = ascii "real" then realInput text
    else if type = ascii "bigint" then bigintInput text
    else if type = ascii "text" ∧ encoded text then some (.text text)
    else none

/-- What becomes of a value in a column of the type that is created for it. -/
def storedAs (encoded : Bytes → Bool) (v : VarT) : Option Datum :=
  (typedDialect (fun _ => false) encoded).input (fold (columnType v)) (cstr (valueText v))

/-- A value is no infinite double and none that is no number. -/
def VarT.Finite : VarT → Prop
  | .double bits => realSpecial bits = false
  | _ => True

/-- What a value denotes. -/
def denoted : VarT → Datum
  | .double bits => .real (realValue bits)
  | .int32 v => .bigint v.toInt
  | .uint32 v => .bigint v.toNat
  | .int64 v => .bigint v.toInt
  | .string b => .text b

/-- The value is stored as it is, or rejected. -/
def Survives (encoded : Bytes → Bool) (v : VarT) : Prop := ∀ x, storedAs encoded v = some x → x = denoted v

/-- A number of single precision that differs from some number of millionths by less than half of the
spacing of such numbers around it. -/
def NearMillionths (x : ℚ) : Prop :=
  real4.Number x ∧ ∃ k : ℕ, |x - k / 10 ^ 6| < real4.spacing x / 2

/-- The values that survive: a double is zero, too large for a `REAL`, or near to a number of millionths;
a string has no NUL byte, or the part before it is no text of the server's encoding. -/
def Storable (encoded : Bytes → Bool) : VarT → Prop
  | .double bits => realMagnitude bits = 0 ∨ 2 ^ 128 - 2 ^ 103 ≤ realMagnitude bits ∨
      NearMillionths (realMagnitude bits)
  | .string b => (0 : UInt8) ∉ b ∨ encoded (cstr b) = false
  | _ => True

section Numerals

lemma signed_digit {c : UInt8} {s : Bytes} (hc : digitByte c = true) : signed (c :: s) = (false, c :: s) := by
  have hminus : c ≠ 45 := fun h => by
    rw [h] at hc
    exact absurd hc (by decide)
  have hplus : c ≠ 43 := fun h => by
    rw [h] at hc
    exact absurd hc (by decide)
  simp [signed, hminus, hplus]

lemma signed_decimal (n : ℕ) (s : Bytes) : signed (decimal n ++ s) = (false, decimal n ++ s) := by
  obtain ⟨hne, hall, -⟩ := decimal_digits n
  cases hd : decimal n with
  | nil => exact absurd hd hne
  | cons c t =>
    rw [hd, List.all_cons, Bool.and_eq_true] at hall
    exact signed_digit hall.1

@[simp] lemma integerInput_decimal (n : ℕ) : integerInput (decimal n) = some (n : ℤ) := by
  have hsigned := signed_decimal n []
  rw [List.append_nil] at hsigned
  simp [integerInput, hsigned]

@[simp] lemma integerInput_decimalInt (i : ℤ) : integerInput (decimalInt i) = some i := by
  cases i with
  | ofNat n => exact integerInput_decimal n
  | negSucc n =>
    have hsigned : signed (45 :: decimal (n + 1)) = (true, decimal (n + 1)) := rfl
    simp only [decimalInt, integerInput, hsigned, numeral_decimal, if_true]
    rfl

lemma nul_digits {s : Bytes} (h : s.all digitByte = true) : (0 : UInt8) ∉ s := fun h0 =>
  absurd (List.all_eq_true.mp h 0 h0) (by decide)

lemma nul_decimal (n : ℕ) : (0 : UInt8) ∉ decimal n := nul_digits (decimal_digits n).2.1

lemma nul_decimalInt (i : ℤ) : (0 : UInt8) ∉ decimalInt i := by
  cases i with
  | ofNat n => exact nul_decimal n
  | negSucc n => simp [decimalInt, nul_decimal]

lemma takeWhile_digits {s : Bytes} (h : s.all digitByte = true) (t : Bytes) :
    (s ++ t).takeWhile digitByte = s ++ t.takeWhile digitByte :=
  List.takeWhile_append_of_pos fun c hc => List.all_eq_true.mp h c hc

lemma dropWhile_digits {s : Bytes} (h : s.all digitByte = true) (t : Bytes) :
    (s ++ t).dropWhile digitByte = t.dropWhile digitByte :=
  List.dropWhile_append_of_pos fun c hc => List.all_eq_true.mp h c hc

end Numerals

section Reals

variable (bits : UInt64) (n : ℕ)

lemma signed_fixedPoint : signed (realSign bits ++ fixedPoint 6 n) = (realNegative bits, fixedPoint 6 n) := by
  have hplain : signed (fixedPoint 6 n) = (false, fixedPoint 6 n) := by
    rw [fixedPoint, List.append_assoc]
    exact signed_decimal _ _
  unfold realSign
  split_ifs with h
  · rw [h]
    rfl
  · rw [List.nil_append, hplain, Bool.eq_false_of_not_eq_true h]

lemma decimalInput_fixedPoint :
    decimalInput (realSign bits ++ fixedPoint 6 n) = some (realNegative bits, (n : ℚ) / 10 ^ 6) := by
  obtain ⟨-, hall, -⟩ := decimal_digits (n / 10 ^ 6)
  have hdigits := digits_all 6 n
  have htext : fixedPoint 6 n = decimal (n / 10 ^ 6) ++ (46 :: digits 6 n) := by
    rw [fixedPoint, List.append_assoc]
    rfl
  have hwhole : (fixedPoint 6 n).takeWhile digitByte = decimal (n / 10 ^ 6) := by
    rw [htext, takeWhile_digits hall]
    exact List.append_nil _
  have hrest : (fixedPoint 6 n).dropWhile digitByte = 46 :: digits 6 n := by
    rw [htext, dropWhile_digits hall]
    rfl
  have hbehind : fraction (46 :: digits 6 n) = (digits 6 n, []) := by
    have htake := takeWhile_digits hdigits []
    have hdrop := dropWhile_digits hdigits []
    rw [List.append_nil] at htake hdrop
    simp only [fraction, List.head?_cons, if_true, List.tail_cons, htake, hdrop]
    simp
  have hnumeral : numeral (decimal (n / 10 ^ 6) ++ digits 6 n) = some n := by
    unfold numeral
    rw [if_pos, digitsValue_fixedPoint]
    exact ⟨by simp [(decimal_digits _).1], by rw [List.all_append, hall, hdigits]; rfl⟩
  unfold decimalInput
  rw [signed_fixedPoint]
  simp only [hwhole, hrest, hbehind, hnumeral, exponentInput, digits_length]
  simp [div_eq_mul_inv]

lemma realInput_fixedPoint : realInput (realSign bits ++ fixedPoint 6 n) =
    (real4.round ((n : ℚ) / 10 ^ 6)).map fun y => .real (if realNegative bits then -y else y) := by
  -- The names of the infinities and of NaN have no point in them.
  have hpoint : (46 : UInt8) ∈ fold (fixedPoint 6 n) :=
    List.mem_map.mpr ⟨46, by simp [fixedPoint, ascii], by decide⟩
  have hname : ∀ name : Bytes, (46 : UInt8) ∉ name → fold (fixedPoint 6 n) ≠ name := by
    intro name hname h
    rw [h] at hpoint
    exact hname hpoint
  unfold realInput
  rw [signed_fixedPoint]
  simp only [hname _ (show (46 : UInt8) ∉ ascii "inf" by decide),
    hname _ (show (46 : UInt8) ∉ ascii "infinity" by decide),
    hname _ (show (46 : UInt8) ∉ ascii "nan" by decide), or_self, if_false, decimalInput_fixedPoint,
    Option.bind_some]

end Reals

section Millionths
variable {a : ℚ} {m : ℕ}

lemma exact_millionths (hm : |a * 10 ^ 6 - m| ≤ 1 / 2) {n : ℤ} (hn : a * 10 ^ 6 = n) : (m : ℚ) / 10 ^ 6 = a := by
  have habs := abs_le.mp hm
  rw [hn] at habs
  have hlow : ((m : ℤ) : ℚ) < ((n + 1 : ℤ) : ℚ) := by
    push_cast
    linarith
  have hhigh : ((n - 1 : ℤ) : ℚ) < ((m : ℤ) : ℚ) := by
    push_cast
    linarith
  have hlow' := Int.cast_lt.mp hlow
  have hhigh' := Int.cast_lt.mp hhigh
  have heq : (m : ℚ) = n := by exact_mod_cast (by omega : (m : ℤ) = n)
  rw [heq, ← hn]
  field_simp

lemma millionths_nearest (hm : |a * 10 ^ 6 - m| ≤ 1 / 2) (k : ℕ) : |a - m / 10 ^ 6| ≤ |a - k / 10 ^ 6| := by
  have hscale : ∀ l : ℕ, |a - l / 10 ^ 6| = |a * 10 ^ 6 - l| / 10 ^ 6 := by
    intro l
    have hpow : (0 : ℚ) < 10 ^ 6 := by norm_num
    rw [eq_div_iff hpow.ne', ← abs_of_pos hpow, ← abs_mul, abs_of_pos hpow]
    congr 1
    field_simp
  rw [hscale m, hscale k]
  refine div_le_div_of_nonneg_right ?_ (by norm_num)
  by_cases hk : k = m
  · rw [hk]
  have hone : (1 : ℚ) ≤ |(m : ℚ) - k| := by
    have hint : (1 : ℤ) ≤ |(m : ℤ) - k| := Int.one_le_abs (by omega)
    exact_mod_cast hint
  have htriangle : |(m : ℚ) - k| ≤ |a * 10 ^ 6 - m| + |a * 10 ^ 6 - k| := by
    have hsplit : (m : ℚ) - k = (a * 10 ^ 6 - k) - (a * 10 ^ 6 - m) := by ring
    rw [hsplit, add_comm]
    exact abs_sub _ _
  generalize |a * 10 ^ 6 - (k : ℚ)| = y at htriangle ⊢
  generalize |a * 10 ^ 6 - (m : ℚ)| = x at hm htriangle ⊢
  linarith

lemma millionths_of_multiple {e : ℤ} (he : -6 ≤ e) (n : ℤ) :
    (n : ℚ) * 2 ^ e * 10 ^ 6 = ((n * 15625 * 2 ^ (e + 6).toNat : ℤ) : ℚ) := by
  have hsplit : (2 : ℚ) ^ e = 2 ^ (e + 6).toNat / 2 ^ 6 := by
    rw [eq_div_iff (by norm_num), ← zpow_natCast, ← zpow_natCast, ← zpow_add₀ two_ne_zero]
    congr 1
    omega
  rw [hsplit]
  push_cast
  ring

lemma millionths_of_small {e : ℤ} (he : e ≤ -6) (n : ℤ) :
    (n : ℚ) * 2 ^ e * 10 ^ 6 * 2 ^ (-6 - e).toNat = n * 15625 := by
  have hsplit : (2 : ℚ) ^ e * 2 ^ (-6 - e).toNat * 2 ^ 6 = 1 := by
    rw [← zpow_natCast, ← zpow_natCast, ← zpow_add₀ two_ne_zero, ← zpow_add₀ two_ne_zero]
    exact zpow_eq_one_iff_right₀ two_pos.le (by norm_num) |>.mpr (by omega)
  calc _ = n * 15625 * ((2 : ℚ) ^ e * 2 ^ (-6 - e).toNat * 2 ^ 6) := by ring
    _ = n * 15625 := by rw [hsplit, mul_one]

/-- The rounding to millionths never lies in the middle between two numbers of single precision. -/
lemma no_tie (hm : |a * 10 ^ 6 - m| ≤ 1 / 2) (ha : real4.Number a) :
    |a - m / 10 ^ 6| ≠ real4.spacing a / 2 := by
  have hpos := Binary.spacing_pos (F := real4) a
  intro htie
  obtain ⟨n, hn⟩ := ha
  unfold Binary.spacing at hn hpos htie
  generalize real4.exponent a = e at hn hpos htie
  by_cases he : -6 ≤ e
  · have hexact := exact_millionths hm (hn ▸ millionths_of_multiple he n)
    rw [hexact, sub_self, abs_zero] at htie
    linarith
  · have hsmall := millionths_of_small (by omega : e ≤ -6) n
    have hhalf := millionths_of_small (by omega : e ≤ -6) 1
    rw [← hn] at hsmall
    obtain ⟨t, ht⟩ : ∃ t, (-6 - e).toNat = t + 1 := ⟨(-6 - e).toNat - 1, by omega⟩
    rw [ht] at hsmall hhalf
    have hpow : (0 : ℚ) < 2 ^ (t + 1) := by positivity
    have hscaled : |((2 * (n * 15625 - m * 2 ^ (t + 1)) : ℤ) : ℚ)| = 15625 := by
      have hfactor : ((2 * (n * 15625 - m * 2 ^ (t + 1)) : ℤ) : ℚ) =
          (a - m / 10 ^ 6) * (2 * 10 ^ 6 * 2 ^ (t + 1)) := by
        push_cast
        rw [← hsmall]
        ring
      rw [hfactor, abs_mul, htie, abs_of_pos (by positivity)]
      calc _ = ((1 : ℤ) : ℚ) * 2 ^ e * 10 ^ 6 * 2 ^ (t + 1) := by
            push_cast
            ring
        _ = 15625 := by
            rw [hhalf]
            norm_num
    have hint : |2 * (n * 15625 - m * 2 ^ (t + 1))| = 15625 := by exact_mod_cast hscaled
    generalize n * 15625 - (m : ℤ) * 2 ^ (t + 1) = z at hint
    rcases (abs_eq (by norm_num)).mp hint with hplus | hminus <;> omega

lemma spacing_power {j : ℤ} (hj : -126 ≤ j) : real4.spacing (2 ^ j) = 2 ^ j / 2 ^ 23 := by
  have hlog : Int.log 2 ((2 : ℚ) ^ j) = j := by
    exact_mod_cast Int.log_zpow (R := ℚ) one_lt_two j
  have hexponent : real4.exponent (2 ^ j) = j - (23 : ℕ) := by
    simp only [Binary.exponent, hlog, real4]
    omega
  rw [Binary.spacing, hexponent, zpow_sub₀ two_ne_zero, zpow_natCast]

/-- A power of two is so near to a number of millionths only if it is one. -/
lemma power_of_two (hm : |a * 10 ^ 6 - m| ≤ 1 / 2) (hm0 : 1 ≤ m) {j : ℤ} (ha : a = 2 ^ j)
    (hnear : |a - m / 10 ^ 6| < real4.spacing a / 2) : (m : ℚ) / 10 ^ 6 = a := by
  have hone : a = ((1 : ℤ) : ℚ) * 2 ^ j := by rw [ha, Int.cast_one, one_mul]
  by_cases hj : -6 ≤ j
  · exact exact_millionths hm (hone ▸ millionths_of_multiple hj 1)
  -- It is not so small that it is rounded to zero, hence the spacing is 23 binary digits below it.
  have hlarge : -21 < j := by
    by_contra hsmall
    have hle : a ≤ 2 ^ (-21 : ℤ) := by
      rw [ha]
      exact zpow_le_zpow_right₀ one_le_two (not_lt.mp hsmall)
    have hm1 : (1 : ℚ) ≤ m := by exact_mod_cast hm0
    have habs := (abs_le.mp hm).1
    norm_num at hle
    linarith
  have hspacing : real4.spacing a = a / 2 ^ 23 := by
    rw [ha]
    exact spacing_power (by omega)
  have hsmall := millionths_of_small (by omega : j ≤ -6) 1
  rw [← hone] at hsmall
  obtain ⟨t, ht⟩ : ∃ t, (-6 - j).toNat = t + 1 := ⟨(-6 - j).toNat - 1, by omega⟩
  rw [ht] at hsmall
  have hpow : (0 : ℚ) < 2 ^ (t + 1) := by positivity
  have hscaled : |((15625 - m * 2 ^ (t + 1) : ℤ) : ℚ)| < 1 := by
    have hfactor : ((15625 - m * 2 ^ (t + 1) : ℤ) : ℚ) = (a - m / 10 ^ 6) * (10 ^ 6 * 2 ^ (t + 1)) := by
      push_cast at hsmall ⊢
      rw [one_mul] at hsmall
      rw [← hsmall]
      ring
    rw [hfactor, abs_mul, abs_of_pos (show (0 : ℚ) < 10 ^ 6 * 2 ^ (t + 1) by positivity)]
    calc _ < real4.spacing a / 2 * (10 ^ 6 * 2 ^ (t + 1)) := mul_lt_mul_of_pos_right hnear (by positivity)
      _ = a * 10 ^ 6 * 2 ^ (t + 1) / 2 ^ 24 := by
          rw [hspacing]
          ring
      _ < 1 := by
          rw [hsmall]
          norm_num
  have hless : |15625 - (m : ℤ) * 2 ^ (t + 1)| < 1 := by
    rw [← Int.cast_abs, ← Int.cast_one] at hscaled
    exact Int.cast_lt.mp hscaled
  have heven : (m : ℤ) * 2 ^ (t + 1) = 2 * (m * 2 ^ t) := by ring
  rw [heven] at hless
  generalize (m : ℤ) * 2 ^ t = z at hless
  have habs := abs_lt.mp hless
  omega

lemma limit_millionths_iff (hm : |a * 10 ^ 6 - m| ≤ 1 / 2) (hint : 2 ^ 53 ≤ a → ∃ n : ℕ, a = n) :
    (2 : ℚ) ^ 128 - 2 ^ 103 ≤ m / 10 ^ 6 ↔ 2 ^ 128 - 2 ^ 103 ≤ a := by
  have habs := abs_le.mp hm
  have hpow : (0 : ℚ) < 10 ^ 6 := by norm_num
  have hexact : 2 ^ 53 ≤ a → (m : ℚ) / 10 ^ 6 = a := by
    intro h
    obtain ⟨n, hn⟩ := hint h
    refine exact_millionths hm (n := n * 10 ^ 6) ?_
    rw [hn]
    push_cast
    rfl
  constructor
  · intro h
    have hnear : (m : ℚ) / 10 ^ 6 ≤ a + 1 := by
      rw [div_le_iff₀ hpow]
      linarith
    have hbound : (2 : ℚ) ^ 53 + 1 ≤ 2 ^ 128 - 2 ^ 103 := by norm_num
    have hlarge : 2 ^ 53 ≤ a := by linarith
    rw [← hexact hlarge]
    exact h
  · intro h
    have hlarge : 2 ^ 53 ≤ a := le_trans (by norm_num) h
    rw [hexact hlarge]
    exact h

/-- Reading the millionths of a positive double as a `REAL` yields the double or nothing, if and only if it
is too large or near to a number of millionths. -/
theorem round_millionths_iff (ha : 0 < a) (hm : |a * 10 ^ 6 - m| ≤ 1 / 2)
    (hint : 2 ^ 53 ≤ a → ∃ n : ℕ, a = n) :
    (∀ y, real4.round ((m : ℚ) / 10 ^ 6) = some y → y = a) ↔ 2 ^ 128 - 2 ^ 103 ≤ a ∨ NearMillionths a := by
  have hlimit := limit_millionths_iff hm hint
  rcases Nat.eq_zero_or_pos m with rfl | hm0
  · -- A double that is rounded to zero.
    have hzero : real4.round (((0 : ℕ) : ℚ) / 10 ^ 6) = some 0 := by decide +kernel
    rw [hzero]
    constructor
    · intro h
      exact absurd (h 0 rfl) ha.ne
    · rintro (hlarge | ⟨hnumber, k, hk⟩)
      · have hle := hlimit.mpr hlarge
        norm_num at hle
      · have hnear := (millionths_nearest hm k).trans_lt hk
        have hspacing : real4.spacing a ≤ a :=
          (zpow_le_zpow_right₀ one_le_two (hnumber.exponent_le_log ha)).trans (Binary.zpow_log_le ha)
        rw [Nat.cast_zero, zero_div, sub_zero, abs_of_pos ha] at hnear
        linarith
  · have hq : (0 : ℚ) < m / 10 ^ 6 := by positivity
    have hleast : (2 : ℚ) ^ real4.least ≤ m / 10 ^ 6 := by
      have hm1 : (1 : ℚ) ≤ m := by exact_mod_cast hm0
      have hsmall : (2 : ℚ) ^ real4.least ≤ 1 / 10 ^ 6 := by
        norm_num [real4]
      exact hsmall.trans (div_le_div_of_nonneg_right hm1 (by norm_num))
    have hne : real4.nearest ((m : ℚ) / 10 ^ 6) ≠ 0 :=
      (lt_of_lt_of_le (zpow_pos two_pos _) (Binary.zpow_log_le_nearest hq hleast)).ne'
    have hover : (2 : ℚ) ^ real4.limit ≤ real4.nearest ((m : ℚ) / 10 ^ 6) ↔ 2 ^ 128 - 2 ^ 103 ≤ a := by
      rw [Binary.limit_le_nearest_iff hq, ← hlimit]
      rfl
    have hround : (∀ y, real4.round ((m : ℚ) / 10 ^ 6) = some y → y = a) ↔
        2 ^ 128 - 2 ^ 103 ≤ a ∨ real4.nearest ((m : ℚ) / 10 ^ 6) = a := by
      constructor
      · intro h
        by_cases hlarge : 2 ^ 128 - 2 ^ 103 ≤ a
        · exact Or.inl hlarge
        · exact Or.inr (h _ (Binary.round_eq_some.mpr
            ⟨fun h' => hlarge (hover.mp h'), fun h' => hne h'.1, rfl⟩))
      · rintro (hlarge | hnearest) y hy
        · exact absurd (hover.mpr hlarge) (Binary.round_eq_some.mp hy).1
        · exact (Binary.round_eq_some.mp hy).2.2.symm.trans hnearest
    rw [hround]
    refine or_congr_right ?_
    constructor
    · intro hnearest
      have hnumber := Binary.number_nearest hq hleast
      have hspacing := Binary.spacing_le (Binary.exponent_le_exponent_nearest hq hleast)
      have hnear := Binary.abs_sub_nearest_le (F := real4) ((m : ℚ) / 10 ^ 6)
      rw [hnearest] at hnumber hspacing hnear
      rw [abs_sub_comm] at hnear
      exact ⟨hnumber, m, lt_of_le_of_ne (hnear.trans (by linarith)) (no_tie hm hnumber)⟩
    · rintro ⟨hnumber, k, hk⟩
      have hnear := (millionths_nearest hm k).trans_lt hk
      have hnear' := hnear
      rw [abs_sub_comm] at hnear'
      refine Binary.nearest_eq_of_near ha hq hnumber hnear' fun hlt hpower => ?_
      have hexact := power_of_two hm hm0 hpower hnear
      linarith

end Millionths

section Values
variable (encoded : Bytes → Bool)

lemma storedAs_double {bits : UInt64} (h : realSpecial bits = false) : storedAs encoded (.double bits) =
    (real4.round ((millionths bits : ℚ) / 10 ^ 6)).map fun y => .real (if realNegative bits then -y else y) := by
  have htext : valueText (.double bits) = realSign bits ++ fixedPoint 6 (millionths bits) := by
    rw [valueText, doubleText_eq, h]
    rfl
  have hnul : (0 : UInt8) ∉ realSign bits ++ fixedPoint 6 (millionths bits) := by
    have hsign : (0 : UInt8) ∉ realSign bits := by
      unfold realSign
      split_ifs <;> decide
    have hpoint : (0 : UInt8) ∉ ascii "." := by decide
    simp only [fixedPoint, List.mem_append, not_or]
    exact ⟨hsign, ⟨nul_decimal _, hpoint⟩, nul_digits (digits_all _ _)⟩
  have htype : fold (columnType (.double bits)) = ascii "real" := rfl
  rw [storedAs, htype, htext, cstr_eq_self hnul, ← realInput_fixedPoint]
  rfl

lemma bigintInput_of_bounds {s : Bytes} {i : ℤ} (hs : integerInput s = some i) (hlow : -2 ^ 63 ≤ i)
    (hhigh : i < 2 ^ 63) : bigintInput s = some (.bigint i) := by
  rw [bigintInput, hs, Option.bind_some, if_pos ⟨hlow, hhigh⟩]

lemma storedAs_string (b : Bytes) :
    storedAs encoded (.string b) = if encoded (cstr b) then some (.text (cstr b)) else none := by
  have htype : fold (columnType (.string b)) = ascii "text" := rfl
  have hreal : ascii "text" ≠ ascii "real" := by decide
  have hbigint : ascii "text" ≠ ascii "bigint" := by decide
  rw [storedAs, htype]
  simp only [typedDialect, hreal, hbigint, if_false, true_and]
  rfl

lemma double_survives_iff {bits : UInt64} (h : realSpecial bits = false) :
    Survives encoded (.double bits) ↔ Storable encoded (.double bits) := by
  have hm := abs_sub_millionths_le bits
  have hsurvives : Survives encoded (.double bits) ↔
      ∀ y, real4.round ((millionths bits : ℚ) / 10 ^ 6) = some y → y = realMagnitude bits := by
    unfold Survives
    rw [storedAs_double encoded h]
    simp only [Option.map_eq_some_iff, denoted, realValue, forall_exists_index, and_imp]
    constructor
    · intro hall y hy
      have hx := hall _ y hy rfl
      split_ifs at hx
      · simpa using hx
      · simpa using hx
    · intro hall x y hy hx
      rw [← hx, hall y hy]
  rw [hsurvives]
  change _ ↔ realMagnitude bits = 0 ∨ 2 ^ 128 - 2 ^ 103 ≤ realMagnitude bits ∨
    NearMillionths (realMagnitude bits)
  rcases (realMagnitude_nonneg bits).eq_or_lt with hzero | hpos
  · have hmillionths : ((millionths bits : ℕ) : ℚ) / 10 ^ 6 = 0 := by
      rw [exact_millionths hm (n := 0) (by rw [← hzero]; norm_num)]
      exact hzero.symm
    have hround : real4.round 0 = some 0 := by decide +kernel
    rw [hmillionths, hround, ← hzero]
    exact ⟨fun _ => Or.inl rfl, fun _ y hy => (Option.some.inj hy).symm⟩
  · rw [round_millionths_iff hpos hm (realMagnitude_integer bits), or_iff_right hpos.ne']

lemma string_survives_iff (b : Bytes) : Survives encoded (.string b) ↔ Storable encoded (.string b) := by
  have hself : cstr b = b ↔ (0 : UInt8) ∉ b := ⟨fun h => h ▸ nul_cstr b, cstr_eq_self⟩
  have hstored := storedAs_string encoded b
  change _ ↔ (0 : UInt8) ∉ b ∨ encoded (cstr b) = false
  unfold Survives
  rw [hstored, ← hself]
  cases henc : encoded (cstr b) with
  | false => simp
  | true => simp [denoted]

lemma integer_survives {v : VarT} {i : ℤ} (hinput : storedAs encoded v = bigintInput (cstr (valueText v)))
    (htext : integerInput (valueText v) = some i) (hnul : (0 : UInt8) ∉ valueText v) (hlow : -2 ^ 63 ≤ i)
    (hhigh : i < 2 ^ 63) (hdenoted : denoted v = .bigint i) : Survives encoded v := by
  intro x hx
  rw [hinput, cstr_eq_self hnul, bigintInput_of_bounds htext hlow hhigh] at hx
  rw [hdenoted]
  exact (Option.some.inj hx).symm

lemma survives_iff {v : VarT} (hv : v.Finite) : Survives encoded v ↔ Storable encoded v := by
  cases v with
  | double bits => exact double_survives_iff encoded hv
  | string b => exact string_survives_iff encoded b
  | int32 v =>
    have hlow := v.le_toInt
    have hhigh := v.toInt_lt
    exact ⟨fun _ => trivial, fun _ => integer_survives encoded rfl (integerInput_decimalInt _)
      (nul_decimalInt _) (by omega) (by omega) rfl⟩
  | uint32 v =>
    have hhigh := v.toNat_lt
    exact ⟨fun _ => trivial, fun _ => integer_survives encoded rfl (integerInput_decimal _)
      (nul_decimal _) (by omega) (by omega) rfl⟩
  | int64 v =>
    have hlow := v.le_toInt
    have hhigh := v.toInt_lt
    exact ⟨fun _ => trivial, fun _ => integer_survives encoded rfl (integerInput_decimalInt _)
      (nul_decimalInt _) hlow hhigh rfl⟩

/-- Exactly the values that meet the condition are stored as they are, or rejected, in the columns that are
created for them; so no two of them with different meanings are stored as the same. And where a row holds
a message, that is what its columns contain. -/
theorem values_survive_iff :
    (∀ v : VarT, v.Finite → (Survives encoded v ↔ Storable encoded v)) ∧
    (∀ v v' : VarT, v.Finite → v'.Finite → Storable encoded v → Storable encoded v' →
      ∀ x, storedAs encoded v = some x → storedAs encoded v' = some x → denoted v = denoted v') ∧
    ∀ (reserved : Bytes → Bool) (t : Table Datum) (m : Message) (r : Record Datum),
      Holds (typedDialect reserved encoded) t m r → ∀ f v, m.find f = some v →
        t.type (fold f) = some (fold (columnType v)) → storedAs encoded v = r (fold f) := by
  refine ⟨fun v hv => survives_iff encoded hv, ?_, ?_⟩
  · intro v v' hv hv' hs hs' x hx hx'
    have hden := (survives_iff encoded hv).mpr hs x hx
    have hden' := (survives_iff encoded hv').mpr hs' x hx'
    exact hden.symm.trans hden'
  · intro reserved t m r hr f v hf ht
    obtain ⟨type, x, htype, hinput, hx⟩ := hr.1 f v hf
    rw [ht, Option.some.injEq] at htype
    rw [hx, ← hinput, ← htype]
    rfl

theorem values_survive_iff_half : Survives (fun _ => true) (.double 0x3fe0000000000000) := by
  have hfinite : realSpecial 0x3fe0000000000000 = false := by decide +kernel
  refine ((values_survive_iff _).1 (.double 0x3fe0000000000000) hfinite).mpr ?_
  have hvalue : realMagnitude 0x3fe0000000000000 = 1 / 2 := by decide +kernel
  have hspacing : real4.spacing (1 / 2) = 1 / 2 ^ 24 := by decide +kernel
  refine Or.inr (Or.inr ?_)
  rw [hvalue]
  refine ⟨⟨2 ^ 23, ?_⟩, 500000, ?_⟩
  · rw [hspacing]
    norm_num
  · rw [hspacing]
    norm_num

/-- Two small doubles are stored as zero, and a string is cut at its NUL byte. -/
theorem small_doubles_and_nul_lost :
    let tiny := VarT.double 0x3e7ad7f29abcaf48
    let twice := VarT.double 0x3e8ad7f29abcaf48
    let cut := VarT.string [97, 0, 98]
    storedAs (fun _ => true) tiny = some (.real 0) ∧ storedAs (fun _ => true) twice = some (.real 0) ∧
      denoted tiny ≠ denoted twice ∧ ¬ Survives (fun _ => true) tiny ∧ ¬ Survives (fun _ => true) cut := by
  intro tiny twice cut
  have htiny : storedAs (fun _ => true) tiny = some (.real 0) := by decide +kernel
  have hcut : storedAs (fun _ => true) cut = some (.text [97]) := by decide +kernel
  refine ⟨htiny, by decide +kernel, by decide +kernel, fun h => ?_, fun h => ?_⟩
  · have hx := h _ htiny
    revert hx
    decide +kernel
  · have hx := h _ hcut
    revert hx
    decide +kernel

end Values

end SqliteWrite.Psql
