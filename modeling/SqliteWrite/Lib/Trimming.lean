import SqliteWrite.Lib.Decimals

/-! Printing a number without the zeros at its end, beside printing it with a fixed number of digits
behind the point. -/
namespace SqliteWrite

/-- The zeros at the end are left out, but one digit stays behind the point. -/
def trim (s : Bytes) : Bytes :=
  let t := (s.reverse.dropWhile (· == 48)).reverse
  if t.getLast? = some 46 then t ++ ascii "0" else t

lemma digits_zero_snoc (places n : ℕ) : digits (places + 1) (10 * n) = digits places n ++ ascii "0" := by
  have hdiv : 10 * n / 10 = n := by omega
  have hmod : 10 * n % 10 = 0 := by omega
  rw [digits, hdiv, hmod]
  rfl

lemma fixedPoint_zero_snoc (places n : ℕ) :
    fixedPoint (places + 1) (10 * n) = fixedPoint places n ++ ascii "0" := by
  have hdiv : 10 * n / 10 ^ (places + 1) = n / 10 ^ places := by
    rw [Nat.pow_succ, Nat.mul_comm _ 10, Nat.mul_div_mul_left _ _ (by omega)]
  unfold fixedPoint
  rw [hdiv, digits_zero_snoc]
  simp only [List.append_assoc]

lemma not_digit_point {s : Bytes} (h : s.all digitByte = true) : (46 : UInt8) ∉ s := by
  intro hmem
  have hdigit := List.all_eq_true.mp h 46 hmem
  revert hdigit
  decide

lemma fixedPoint_injective {places places' n n' : ℕ} (h : fixedPoint places n = fixedPoint places' n') :
    places = places' ∧ n = n' := by
  have hsplit : ∀ a b a' b' : Bytes, (46 : UInt8) ∉ a → (46 : UInt8) ∉ a' →
      a ++ ascii "." ++ b = a' ++ ascii "." ++ b' → a = a' ∧ b = b' := by
    intro a b a' b' ha ha' heq
    have hpoint : ascii "." = [46] := rfl
    induction a generalizing a' with
    | nil =>
      cases a' with
      | nil => exact ⟨rfl, by simpa [hpoint] using heq⟩
      | cons c a' =>
        have hc : (46 : UInt8) = c := by simpa [hpoint] using congrArg List.head? heq
        exact absurd (by simp [hc]) ha'
    | cons c a ih =>
      cases a' with
      | nil =>
        have hc : c = 46 := by simpa [hpoint] using congrArg List.head? heq
        exact absurd (by simp [hc]) ha
      | cons c' a' =>
        simp only [List.cons_append, List.cons.injEq] at heq
        obtain ⟨hrest, hb⟩ := ih a' (fun h => ha (List.mem_cons_of_mem _ h))
          (fun h => ha' (List.mem_cons_of_mem _ h)) heq.2
        exact ⟨by rw [heq.1, hrest], hb⟩
  obtain ⟨hhead, hdigits⟩ := hsplit _ _ _ _ (not_digit_point (decimal_digits _).2.1)
    (not_digit_point (decimal_digits _).2.1) h
  have hplaces : places = places' := by
    have hlength := congrArg List.length hdigits
    rwa [digits_length, digits_length] at hlength
  refine ⟨hplaces, ?_⟩
  rw [← digitsValue_fixedPoint places n, hhead, hdigits, digitsValue_fixedPoint]

lemma trim_append_zero (s : Bytes) : trim (s ++ ascii "0") = trim s := by
  unfold trim
  rw [List.reverse_append]
  rfl

lemma trim_of_last {s : Bytes} {c : UInt8} (hlast : s.getLast? = some c) (hc : c ≠ 48) (hpoint : c ≠ 46) :
    trim s = s := by
  obtain ⟨t, rfl⟩ := List.getLast?_eq_some_iff.mp hlast
  have hdrop : (t ++ [c]).reverse.dropWhile (· == 48) = (t ++ [c]).reverse := by
    simp [hc]
  unfold trim
  simp only [hdrop, List.reverse_reverse, hlast, Option.some.injEq, if_neg hpoint]

lemma mem_trim {s : Bytes} {c : UInt8} (h : c ∈ trim s) : c ∈ s ∨ c = 48 := by
  have hkept : ∀ {x : UInt8}, x ∈ (s.reverse.dropWhile (· == 48)).reverse → x ∈ s := by
    intro x hx
    exact List.mem_reverse.mp ((List.dropWhile_sublist _).mem (List.mem_reverse.mp hx))
  unfold trim at h
  simp only at h
  split_ifs at h
  · rcases List.mem_append.mp h with h | h
    · exact Or.inl (hkept h)
    · exact Or.inr (List.mem_singleton.mp h)
  · exact Or.inl (hkept h)

/-- A trimmed number has exactly so many digits behind the point when the last of them is no zero. -/
theorem trim_fixedPoint_iff {places wanted : ℕ} (hwanted : 2 ≤ wanted) (n m : ℕ) :
    trim (fixedPoint places n) = fixedPoint wanted m ↔
      wanted ≤ places ∧ n = m * 10 ^ (places - wanted) ∧ ¬ 10 ∣ m := by
  induction places generalizing n with
  | zero =>
    have hnone : trim (fixedPoint 0 n) = fixedPoint 1 (10 * n) := by
      have hlast : (fixedPoint 0 n).getLast? = some 46 := by simp [fixedPoint, digits, ascii]
      obtain ⟨t, ht⟩ := List.getLast?_eq_some_iff.mp hlast
      rw [fixedPoint_zero_snoc 0 n, ht]
      simp [trim]
    rw [hnone]
    constructor
    · intro h
      have hone := (fixedPoint_injective h).1
      omega
    · intro h
      omega
  | succ places ih =>
    by_cases hten : 10 ∣ n
    · obtain ⟨k, rfl⟩ := hten
      rw [fixedPoint_zero_snoc, trim_append_zero, ih]
      constructor
      · intro h
        obtain ⟨hle, rfl, hm⟩ := h
        refine ⟨by omega, ?_, hm⟩
        rw [Nat.succ_sub hle, Nat.pow_succ, Nat.mul_left_comm]
        simp only [Nat.mul_comm]
      · intro h
        obtain ⟨hle, hk, hm⟩ := h
        have hlt : wanted ≤ places := by
          by_contra hge
          have heq : places + 1 - wanted = 0 := by omega
          rw [heq, Nat.pow_zero, Nat.mul_one] at hk
          exact hm ⟨k, hk.symm⟩
        refine ⟨hlt, ?_, hm⟩
        rw [Nat.succ_sub hlt, Nat.pow_succ, ← Nat.mul_assoc, Nat.mul_comm _ 10] at hk
        exact Nat.eq_of_mul_eq_mul_left (by omega) hk
    · have hlast : (fixedPoint (places + 1) n).getLast? = some (UInt8.ofNat (48 + n % 10)) := by
        unfold fixedPoint
        rw [digits, ← List.append_assoc]
        exact List.getLast?_concat
      have hdigit := digit_toNat (show n % 10 < 10 by omega)
      have hne : ∀ c : UInt8, c.toNat ≠ 48 + n % 10 → UInt8.ofNat (48 + n % 10) ≠ c := by
        intro c hc heq
        rw [← heq, hdigit] at hc
        exact hc rfl
      rw [trim_of_last hlast (hne 48 (by simp; omega)) (hne 46 (by simp; omega))]
      constructor
      · intro h
        obtain ⟨hplaces, rfl⟩ := fixedPoint_injective h
        refine ⟨by omega, ?_, hten⟩
        rw [hplaces, Nat.sub_self, Nat.pow_zero, Nat.mul_one]
      · intro h
        obtain ⟨hle, hn, -⟩ := h
        have heq : places + 1 - wanted = 0 := by
          by_contra hpos
          apply hten
          rw [hn, show places + 1 - wanted = (places - wanted) + 1 by omega, Nat.pow_succ]
          exact ⟨m * 10 ^ (places - wanted), by rw [← Nat.mul_assoc, Nat.mul_comm 10]⟩
        rw [heq, Nat.pow_zero, Nat.mul_one] at hn
        rw [hn, show places + 1 = wanted by omega]

lemma mem_fixedPoint {places n : ℕ} {c : UInt8} (h : c ∈ fixedPoint places n) :
    digitByte c = true ∨ c = 46 := by
  rcases List.mem_append.mp h with h | h
  · rcases List.mem_append.mp h with h | h
    · exact Or.inl (List.all_eq_true.mp (decimal_digits _).2.1 c h)
    · exact Or.inr (List.mem_singleton.mp h)
  · exact Or.inl (List.all_eq_true.mp (digits_all _ _) c h)

end SqliteWrite
