import Mathlib.Algebra.Ring.Parity
import Mathlib.Data.Int.Log
import Mathlib.Data.Rat.Floor
import Mathlib.Tactic.Linarith
import Mathlib.Tactic.Ring
import SqliteWrite.Lib.Decimals

/-! Binary floating point numbers as rationals: the spacing of a format's numbers, and rounding to the
nearest of them. -/
namespace SqliteWrite

/-- The nearest integer, and from the middle the even one. -/
def roundEven (x : ℚ) : ℤ :=
  if Int.fract x < 1 / 2 ∨ (Int.fract x = 1 / 2 ∧ Even ⌊x⌋) then ⌊x⌋ else ⌊x⌋ + 1

lemma abs_sub_roundEven_le (x : ℚ) : |x - roundEven x| ≤ 1 / 2 := by
  have hsplit := Int.floor_add_fract x
  have hpos := Int.fract_nonneg x
  have hlt := Int.fract_lt_one x
  unfold roundEven
  split_ifs with h
  · have hle : Int.fract x ≤ 1 / 2 := h.elim le_of_lt fun h => le_of_eq h.1
    rw [abs_le]
    constructor <;> linarith
  · have hge : 1 / 2 ≤ Int.fract x := not_lt.mp fun hlow => h (Or.inl hlow)
    push_cast
    rw [abs_le]
    constructor <;> linarith

lemma roundEven_eq_of_near {x : ℚ} {n : ℤ} (h : |x - n| < 1 / 2) : roundEven x = n := by
  have hnear := abs_le.mp (abs_sub_roundEven_le x)
  have hn := abs_lt.mp h
  have hlow : ((n - 1 : ℤ) : ℚ) < roundEven x := by
    push_cast
    linarith
  have hhigh : (roundEven x : ℚ) < ((n + 1 : ℤ) : ℚ) := by
    push_cast
    linarith
  have hlow' := Int.cast_lt.mp hlow
  have hhigh' := Int.cast_lt.mp hhigh
  omega

lemma le_roundEven {x : ℚ} {n : ℤ} (h : (n : ℚ) ≤ x) : n ≤ roundEven x := by
  have hnear := abs_le.mp (abs_sub_roundEven_le x)
  have hlow : ((n - 1 : ℤ) : ℚ) < roundEven x := by
    push_cast
    linarith
  have hlow' := Int.cast_lt.mp hlow
  omega

lemma roundEven_le {x : ℚ} {n : ℤ} (h : x ≤ n) : roundEven x ≤ n := by
  have hnear := abs_le.mp (abs_sub_roundEven_le x)
  have hhigh : (roundEven x : ℚ) < ((n + 1 : ℤ) : ℚ) := by
    push_cast
    linarith
  have hhigh' := Int.cast_lt.mp hhigh
  omega

lemma le_roundEven_iff {x : ℚ} {n : ℤ} (hn : Even n) : n ≤ roundEven x ↔ (n : ℚ) - 1 / 2 ≤ x := by
  constructor
  · intro h
    have hnear := abs_le.mp (abs_sub_roundEven_le x)
    have hcast : (n : ℚ) ≤ roundEven x := Int.cast_le.mpr h
    linarith
  · intro h
    by_cases hx : (n : ℚ) ≤ x
    · exact le_roundEven hx
    · have hfloor : ⌊x⌋ = n - 1 := by
        rw [Int.floor_eq_iff]
        push_cast
        constructor <;> linarith
      have hfract : 1 / 2 ≤ Int.fract x := by
        have hsplit := Int.floor_add_fract x
        rw [hfloor] at hsplit
        push_cast at hsplit
        linarith
      have hodd : ¬ Even (n - 1) := by
        rw [Int.not_even_iff_odd]
        exact hn.sub_odd odd_one
      unfold roundEven
      rw [hfloor, if_neg]
      · omega
      · rintro (hlow | ⟨-, heven⟩)
        · linarith
        · exact hodd heven

lemma abs_sub_roundHalfEven_le (num : ℕ) {den : ℕ} (hden : 0 < den) :
    |(num / den : ℚ) - roundHalfEven num den| ≤ 1 / 2 := by
  have hpos : (0 : ℚ) < den := Nat.cast_pos.mpr hden
  have hsplit : (den : ℚ) * (num / den : ℕ) + (num % den : ℕ) = num := by
    exact_mod_cast Nat.div_add_mod num den
  have hlt := Nat.mod_lt num hden
  have hquotient : (num / den : ℚ) = (num / den : ℕ) + (num % den : ℕ) / den := by
    field_simp
    linarith
  rw [hquotient]
  unfold roundHalfEven
  split_ifs with h
  · have hle : (2 : ℚ) * (num % den : ℕ) ≤ den := by
      have hle' : 2 * (num % den) ≤ den := by omega
      exact_mod_cast hle'
    have hhalf : ((num % den : ℕ) / den : ℚ) ≤ 1 / 2 := by
      rw [div_le_div_iff₀ hpos two_pos]
      linarith
    have hnonneg : (0 : ℚ) ≤ (num % den : ℕ) / den := by positivity
    rw [abs_le]
    constructor <;> linarith
  · have hge : (den : ℚ) ≤ 2 * (num % den : ℕ) := by
      have hge' : den ≤ 2 * (num % den) := by omega
      exact_mod_cast hge'
    have hhalf : (1 / 2 : ℚ) ≤ (num % den : ℕ) / den := by
      rw [div_le_div_iff₀ two_pos hpos]
      linarith
    have hone : ((num % den : ℕ) / den : ℚ) < 1 := by
      rw [div_lt_one hpos]
      exact_mod_cast hlt
    push_cast
    rw [abs_le]
    constructor <;> linarith

/-- A format: how many binary digits a number has, the exponent of the least spacing, and the power of
two that all numbers lie below. -/
structure Binary where
  precision : ℕ
  least : ℤ
  limit : ℤ
  precise : 0 < precision
  normal : least + precision ≤ limit

namespace Binary
variable (F : Binary)

/-- The exponent of the spacing of the format's numbers around a positive one. -/
def exponent (x : ℚ) : ℤ := max (Int.log 2 x - (F.precision - 1)) F.least

def spacing (x : ℚ) : ℚ := 2 ^ F.exponent x

/-- A number of the format, if it is below the limit. -/
def Number (x : ℚ) : Prop := ∃ n : ℤ, x = n * F.spacing x

/-- The nearest of the format's numbers, without regard to the limit. -/
def nearest (x : ℚ) : ℚ := roundEven (x / F.spacing x) * F.spacing x

/-- Rounding to a number of the format; there is none for what is too large, or so small that it would
be rounded to zero. -/
def round (x : ℚ) : Option ℚ :=
  if 2 ^ F.limit ≤ F.nearest x ∨ (F.nearest x = 0 ∧ x ≠ 0) then none else some (F.nearest x)

variable {F} {x q : ℚ}

lemma round_eq_some {y : ℚ} : F.round x = some y ↔
    ¬ 2 ^ F.limit ≤ F.nearest x ∧ ¬ (F.nearest x = 0 ∧ x ≠ 0) ∧ F.nearest x = y := by
  unfold round
  split_ifs with h
  · simp only [false_iff]
    intro hy
    exact h.elim hy.1 hy.2.1
  · rw [Option.some.injEq]
    exact ⟨fun hy => ⟨fun h' => h (Or.inl h'), fun h' => h (Or.inr h'), hy⟩, fun hy => hy.2.2⟩

lemma spacing_pos (x : ℚ) : 0 < F.spacing x := zpow_pos two_pos _

lemma spacing_le (h : F.exponent q ≤ F.exponent x) : F.spacing q ≤ F.spacing x :=
  zpow_le_zpow_right₀ one_le_two h

lemma zpow_log_le (hx : 0 < x) : (2 : ℚ) ^ Int.log 2 x ≤ x := by
  exact_mod_cast Int.zpow_log_le_self (b := 2) one_lt_two hx

lemma lt_zpow_log (x : ℚ) : x < (2 : ℚ) ^ (Int.log 2 x + 1) := by
  exact_mod_cast Int.lt_zpow_succ_log_self (b := 2) one_lt_two x

lemma zpow_eq_mul_spacing {e : ℤ} (h : F.exponent x ≤ e) :
    (2 : ℚ) ^ e = ((2 ^ (e - F.exponent x).toNat : ℤ) : ℚ) * F.spacing x := by
  have he : e = (e - F.exponent x).toNat + F.exponent x := by omega
  conv_lhs => rw [he, zpow_add₀ two_ne_zero, zpow_natCast]
  push_cast
  rfl

lemma abs_sub_nearest_le (x : ℚ) : |x - F.nearest x| ≤ F.spacing x / 2 := by
  have hpos := spacing_pos (F := F) x
  have hround := abs_sub_roundEven_le (x / F.spacing x)
  have hscaled : x - F.nearest x = (x / F.spacing x - roundEven (x / F.spacing x)) * F.spacing x := by
    unfold nearest
    field_simp
  rw [hscaled, abs_mul, abs_of_pos hpos]
  calc _ ≤ 1 / 2 * F.spacing x := mul_le_mul_of_nonneg_right hround hpos.le
    _ = F.spacing x / 2 := by ring

lemma exponent_le_log (hx : 0 < x) (h : (2 : ℚ) ^ F.least ≤ x) : F.exponent x ≤ Int.log 2 x := by
  have hleast : F.least ≤ Int.log 2 x :=
    (Int.zpow_le_iff_le_log one_lt_two hx).mp (by exact_mod_cast h)
  have hprecise := F.precise
  unfold exponent
  omega

lemma zpow_le_nearest {e : ℤ} (he : F.exponent q ≤ e) (h : (2 : ℚ) ^ e ≤ q) : (2 : ℚ) ^ e ≤ F.nearest q := by
  have hpos := spacing_pos (F := F) q
  rw [zpow_eq_mul_spacing he] at h ⊢
  refine mul_le_mul_of_nonneg_right ?_ hpos.le
  exact Int.cast_le.mpr (le_roundEven ((le_div_iff₀ hpos).mpr h))

lemma nearest_le_zpow {e : ℤ} (he : F.exponent q ≤ e) (h : q ≤ (2 : ℚ) ^ e) : F.nearest q ≤ (2 : ℚ) ^ e := by
  have hpos := spacing_pos (F := F) q
  rw [zpow_eq_mul_spacing he] at h ⊢
  refine mul_le_mul_of_nonneg_right ?_ hpos.le
  exact Int.cast_le.mpr (roundEven_le ((div_le_iff₀ hpos).mpr h))

lemma zpow_log_le_nearest (hq : 0 < q) (h : (2 : ℚ) ^ F.least ≤ q) : (2 : ℚ) ^ Int.log 2 q ≤ F.nearest q :=
  zpow_le_nearest (exponent_le_log hq h) (zpow_log_le hq)

lemma exponent_le_exponent_nearest (hq : 0 < q) (h : (2 : ℚ) ^ F.least ≤ q) :
    F.exponent q ≤ F.exponent (F.nearest q) := by
  have hlog := zpow_log_le_nearest hq h
  have hpos : 0 < F.nearest q := lt_of_lt_of_le (zpow_pos two_pos _) hlog
  have hle : Int.log 2 q ≤ Int.log 2 (F.nearest q) :=
    (Int.zpow_le_iff_le_log one_lt_two hpos).mp (by exact_mod_cast hlog)
  unfold exponent
  omega

/-- The nearest number is one of the format's. -/
theorem number_nearest (hq : 0 < q) (h : (2 : ℚ) ^ F.least ≤ q) : F.Number (F.nearest q) := by
  have hpos : 0 < F.nearest q := lt_of_lt_of_le (zpow_pos two_pos _) (zpow_log_le_nearest hq h)
  have hprecise := F.precise
  rcases (exponent_le_exponent_nearest hq h).eq_or_lt with heq | hlt
  · have hspacing : F.spacing (F.nearest q) = F.spacing q := by
      unfold spacing
      rw [heq]
    exact ⟨roundEven (q / F.spacing q), by rw [hspacing]; rfl⟩
  · -- The number was rounded up to the next power of two, where the spacing is greater.
    have hhigh : F.nearest q ≤ 2 ^ (F.exponent q + F.precision) := by
      refine nearest_le_zpow (by omega) ((lt_zpow_log q).le.trans (zpow_le_zpow_right₀ one_le_two ?_))
      unfold exponent
      omega
    have hlog : F.exponent q + F.precision ≤ Int.log 2 (F.nearest q) := by
      unfold exponent at hlt ⊢
      omega
    have hpower : F.nearest q = 2 ^ (F.exponent q + F.precision) :=
      le_antisymm hhigh ((zpow_le_zpow_right₀ one_le_two hlog).trans (zpow_log_le hpos))
    have hexact : Int.log 2 (F.nearest q) = F.exponent q + F.precision := by
      rw [hpower]
      exact_mod_cast Int.log_zpow (R := ℚ) one_lt_two (F.exponent q + F.precision)
    have hle : F.exponent (F.nearest q) ≤ F.exponent q + F.precision := by
      have hleast : F.least ≤ F.exponent q := le_max_right _ _
      rw [exponent, hexact]
      omega
    exact ⟨_, hpower.trans (zpow_eq_mul_spacing hle)⟩

lemma Number.exponent_le_log (hx : 0 < x) (h : F.Number x) : F.exponent x ≤ Int.log 2 x := by
  obtain ⟨n, hn⟩ := h
  have hpos := spacing_pos (F := F) x
  have hone : 1 ≤ n := by
    by_contra hlt
    have hle : (n : ℚ) ≤ 0 := by exact_mod_cast (by omega : n ≤ 0)
    have hneg := mul_nonpos_of_nonpos_of_nonneg hle hpos.le
    linarith
  have hle : F.spacing x ≤ x := by
    calc F.spacing x = 1 * F.spacing x := (one_mul _).symm
      _ ≤ n * F.spacing x := mul_le_mul_of_nonneg_right (by exact_mod_cast hone) hpos.le
      _ = x := hn.symm
  exact (Int.zpow_le_iff_le_log one_lt_two hx).mp (by exact_mod_cast hle)

/-- What is nearer to a number of the format than half of the spacing is rounded to it; the exception is
below a power of two, where the numbers lie closer. -/
theorem nearest_eq_of_near (hx : 0 < x) (hq : 0 < q) (hnumber : F.Number x)
    (hnear : |q - x| < F.spacing x / 2) (hedge : q < x → x ≠ 2 ^ Int.log 2 x) : F.nearest q = x := by
  have hpos := spacing_pos (F := F) x
  have habs := abs_lt.mp hnear
  have hlog := hnumber.exponent_le_log hx
  obtain ⟨n, hn⟩ := hnumber
  -- Two multiples of the spacing are equal or that far apart.
  have hgap : ∀ {k l : ℤ}, (k : ℚ) * F.spacing x < l * F.spacing x →
      k * F.spacing x + F.spacing x ≤ l * F.spacing x := by
    intro k l hkl
    have hlt : k < l := by exact_mod_cast lt_of_mul_lt_mul_right hkl hpos.le
    have hle : ((k + 1 : ℤ) : ℚ) ≤ l := by exact_mod_cast hlt
    have hmul := mul_le_mul_of_nonneg_right hle hpos.le
    push_cast at hmul
    linarith
  rcases lt_trichotomy (F.exponent q) (F.exponent x) with hlt | heq | hgt
  · have hlower : Int.log 2 q < Int.log 2 x := by
      unfold exponent at hlt
      omega
    have hbelow : q < 2 ^ Int.log 2 x :=
      (lt_zpow_log q).trans_le (zpow_le_zpow_right₀ one_le_two hlower)
    have hstart := zpow_log_le hx
    have hstrict : (2 : ℚ) ^ Int.log 2 x < x :=
      lt_of_le_of_ne hstart (hedge (hbelow.trans_le hstart)).symm
    rw [zpow_eq_mul_spacing hlog] at hbelow hstrict
    have hapart := hgap (hstrict.trans_eq hn)
    linarith
  · have hspacing : F.spacing q = F.spacing x := by rw [spacing, heq, spacing]
    have hround : roundEven (q / F.spacing x) = n := by
      refine roundEven_eq_of_near ?_
      have hscaled : q / F.spacing x - n = (q - x) / F.spacing x := by
        rw [sub_div]
        nth_rewrite 3 [hn]
        rw [mul_div_cancel_right₀ _ hpos.ne']
      rw [hscaled, abs_div, abs_of_pos hpos, div_lt_iff₀ hpos]
      linarith
    rw [nearest, hspacing, hround]
    exact hn.symm
  · have hhigher : Int.log 2 x + 1 ≤ Int.log 2 q := by
      unfold exponent at hgt
      omega
    have habove : (2 : ℚ) ^ (Int.log 2 x + 1) ≤ q :=
      (zpow_le_zpow_right₀ one_le_two hhigher).trans (zpow_log_le hq)
    have hend := lt_zpow_log x
    rw [zpow_eq_mul_spacing (show F.exponent x ≤ Int.log 2 x + 1 by omega)] at habove hend
    have hapart := hgap (hn.symm.trans_lt hend)
    linarith

/-- Rounding reaches the limit from half a spacing below it on. -/
theorem limit_le_nearest_iff (hq : 0 < q) :
    2 ^ F.limit ≤ F.nearest q ↔ (2 : ℚ) ^ F.limit - 2 ^ (F.limit - F.precision - 1) ≤ q := by
  have hprecise := F.precise
  have hnormal := F.normal
  have hhalf : (2 : ℚ) ^ (F.limit - F.precision - 1) = 2 ^ (F.limit - F.precision) / 2 := by
    rw [zpow_sub_one₀ two_ne_zero]
    rfl
  by_cases hlarge : (2 : ℚ) ^ F.limit ≤ q
  · have hlog : F.limit ≤ Int.log 2 q := (Int.zpow_le_iff_le_log one_lt_two hq).mp (by exact_mod_cast hlarge)
    have hleast : (2 : ℚ) ^ F.least ≤ q := (zpow_le_zpow_right₀ one_le_two (by omega)).trans hlarge
    have hpower : (0 : ℚ) < 2 ^ (F.limit - F.precision - 1) := zpow_pos two_pos _
    constructor
    · intro _
      linarith
    · intro _
      exact (zpow_le_zpow_right₀ one_le_two hlog).trans (zpow_log_le_nearest hq hleast)
  · have hlog : Int.log 2 q < F.limit := by
      by_contra hge
      have hpow := (zpow_le_zpow_right₀ one_le_two (not_lt.mp hge)).trans (zpow_log_le hq)
      exact hlarge (by exact_mod_cast hpow)
    have hexponent : F.exponent q ≤ F.limit - F.precision := by
      unfold exponent
      omega
    constructor
    · intro h
      have hnear := abs_le.mp (abs_sub_nearest_le (F := F) q)
      have hspacing : F.spacing q ≤ 2 ^ (F.limit - F.precision) := zpow_le_zpow_right₀ one_le_two hexponent
      linarith
    · intro h
      have hbinade : F.limit - 1 ≤ Int.log 2 q := by
        have hpow : (2 : ℚ) ^ (F.limit - 1) ≤ q := by
          have hsplit : (2 : ℚ) ^ F.limit = 2 ^ (F.limit - 1) + 2 ^ (F.limit - 1) := by
            rw [zpow_sub_one₀ two_ne_zero]
            ring
          have hsmall : (2 : ℚ) ^ (F.limit - F.precision - 1) ≤ 2 ^ (F.limit - 1) :=
            zpow_le_zpow_right₀ one_le_two (by omega)
          linarith
        exact (Int.zpow_le_iff_le_log one_lt_two hq).mp (by exact_mod_cast hpow)
      have hexact : F.exponent q = F.limit - F.precision := by
        unfold exponent at hexponent ⊢
        omega
      have heven : Even ((2 : ℤ) ^ (F.limit - F.exponent q).toNat) := by
        rw [Int.even_pow]
        exact ⟨even_two, by omega⟩
      have hpos := spacing_pos (F := F) q
      have hspacing : F.spacing q = 2 ^ (F.limit - F.precision) := by rw [spacing, hexact]
      rw [zpow_eq_mul_spacing (show F.exponent q ≤ F.limit by omega)] at h ⊢
      refine mul_le_mul_of_nonneg_right ?_ hpos.le
      refine Int.cast_le.mpr ((le_roundEven_iff heven).mpr ((le_div_iff₀ hpos).mpr ?_))
      rw [hhalf, ← hspacing] at h
      linarith

end Binary
end SqliteWrite
