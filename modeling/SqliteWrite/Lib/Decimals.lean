import SqliteWrite.Lib.Bytes

/-! Decimal numerals: those of natural numbers, and those with a fixed number of digits behind the
point and rounding to them; and the numbers that they denote. -/
namespace SqliteWrite

/-- The quotient, rounded to the nearest integer and from the middle to the even one. -/
def roundHalfEven (num den : ℕ) : ℕ :=
  if 2 * (num % den) < den ∨ (2 * (num % den) = den ∧ num / den % 2 = 0) then num / den
  else num / den + 1

/-- The last digits of a number, with leading zeros. -/
def digits : ℕ → ℕ → Bytes
  | 0, _ => []
  | places + 1, n => digits places (n / 10) ++ [UInt8.ofNat (48 + n % 10)]

/-- `n / 10 ^ places`, printed with so many digits behind the point. -/
def fixedPoint (places n : ℕ) : Bytes :=
  decimal (n / 10 ^ places) ++ ascii "." ++ digits places n

def digitByte (c : UInt8) : Bool := 48 ≤ c && c ≤ 57

/-- The number that digits denote. -/
def digitsValue (s : Bytes) : ℕ := s.foldl (fun n c => 10 * n + (c.toNat - 48)) 0

def numeral (s : Bytes) : Option ℕ := if s ≠ [] ∧ s.all digitByte then some (digitsValue s) else none

lemma digit_toNat {n : ℕ} (hn : n < 10) : (UInt8.ofNat (48 + n)).toNat = 48 + n := by
  rw [UInt8.toNat_ofNat']
  exact Nat.mod_eq_of_lt (by omega)

lemma digitByte_digit {n : ℕ} (hn : n < 10) : digitByte (UInt8.ofNat (48 + n)) = true := by
  have h := digit_toNat hn
  simp only [digitByte, Bool.and_eq_true, decide_eq_true_eq, UInt8.le_iff_toNat_le, h]
  constructor
  · simp
  · simp only [UInt8.reduceToNat]
    omega

lemma digitsValue_snoc (s : Bytes) {n : ℕ} (hn : n < 10) :
    digitsValue (s ++ [UInt8.ofNat (48 + n)]) = 10 * digitsValue s + n := by
  have h := digit_toNat hn
  simp only [digitsValue, List.foldl_append, List.foldl_cons, List.foldl_nil, h]
  omega

lemma decimal_eq (n : ℕ) : decimal n =
    if n < 10 then [UInt8.ofNat (48 + n)] else decimal (n / 10) ++ [UInt8.ofNat (48 + n % 10)] := by
  have hchar : ∀ d < 10, (Nat.digitChar d).toNat = 48 + d := by decide
  unfold decimal
  rw [Nat.toDigits_eq_if (by omega)]
  split_ifs with h
  · simp [hchar n h]
  · simp [hchar (n % 10) (by omega)]

lemma decimal_digits (n : ℕ) :
    decimal n ≠ [] ∧ (decimal n).all digitByte = true ∧ digitsValue (decimal n) = n := by
  induction n using Nat.strong_induction_on with
  | _ n ih =>
    rw [decimal_eq]
    split_ifs with h
    · have hvalue := digitsValue_snoc [] h
      have hempty : digitsValue [] = 0 := rfl
      simp only [List.nil_append, hempty] at hvalue
      refine ⟨by simp, ?_, by omega⟩
      rw [List.all_cons, digitByte_digit h]
      rfl
    · have hmod : n % 10 < 10 := by omega
      obtain ⟨-, hall, hvalue⟩ := ih (n / 10) (by omega)
      refine ⟨by simp, ?_, ?_⟩
      · rw [List.all_append, hall, List.all_cons, digitByte_digit hmod]
        rfl
      · rw [digitsValue_snoc _ hmod, hvalue]
        omega

@[simp] lemma numeral_decimal (n : ℕ) : numeral (decimal n) = some n := by
  obtain ⟨hne, hall, hvalue⟩ := decimal_digits n
  unfold numeral
  rw [if_pos ⟨hne, hall⟩, hvalue]

lemma digits_length (places n : ℕ) : (digits places n).length = places := by
  induction places generalizing n with
  | zero => rfl
  | succ places ih => simp [digits, ih]

lemma digits_all (places n : ℕ) : (digits places n).all digitByte = true := by
  induction places generalizing n with
  | zero => rfl
  | succ places ih =>
    rw [digits, List.all_append, ih, List.all_cons, digitByte_digit (show n % 10 < 10 by omega)]
    rfl

lemma digitsValue_digits (s : Bytes) (places n : ℕ) :
    digitsValue (s ++ digits places n) = digitsValue s * 10 ^ places + n % 10 ^ places := by
  induction places generalizing n with
  | zero => simp [digits, Nat.mod_one]
  | succ places ih =>
    have hmod : n % 10 < 10 := by omega
    have hpow : n % (10 * 10 ^ places) = 10 * (n / 10 % 10 ^ places) + n % 10 := by
      rw [Nat.mod_mul]
      omega
    rw [digits, ← List.append_assoc, digitsValue_snoc _ hmod, ih, Nat.pow_succ, Nat.mul_comm _ 10, hpow,
      Nat.mul_add, Nat.mul_left_comm]
    omega

lemma digitsValue_fixedPoint (places n : ℕ) :
    digitsValue (decimal (n / 10 ^ places) ++ digits places n) = n := by
  rw [digitsValue_digits, (decimal_digits _).2.2, Nat.mul_comm]
  exact Nat.div_add_mod n _

end SqliteWrite
