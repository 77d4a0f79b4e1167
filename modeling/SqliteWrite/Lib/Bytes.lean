import Mathlib.Data.Int.Log
import Mathlib.Data.List.Basic
import Mathlib.Data.List.Sort
import Mathlib.Data.Rat.Floor

/-! Byte strings as C and SQL see them: ASCII texts, NUL termination, ASCII case folding,
decimal numerals, and the lower-bound search on a sorted sequence. -/
namespace SqliteWrite

/-- A string of bytes, compared byte by byte. -/
abbrev Bytes := List UInt8

instance : LawfulBEq Bytes := inferInstance

instance : IsTrans Bytes fun a b => a < b := inferInstance

instance : Std.Trichotomous fun a b : Bytes => a < b := inferInstance

/-- The bytes of an ASCII text. -/
def ascii (s : String) : Bytes := s.toList.map fun c => UInt8.ofNat c.toNat

/-- What a C function sees of a string: the bytes before the first NUL. -/
def cstr (s : Bytes) : Bytes := s.takeWhile (· != 0)

lemma cstr_eq_self {s : Bytes} (h : (0 : UInt8) ∉ s) : cstr s = s := by
  induction s with
  | nil => rfl
  | cons c s ih =>
    obtain ⟨hc, hs⟩ := not_or.mp (List.mem_cons.not.mp h)
    have hne : (c != 0) = true := by simpa using Ne.symm hc
    simp only [cstr, List.takeWhile_cons, hne, if_true]
    exact congrArg (c :: ·) (ih hs)

lemma cstr_append {s : Bytes} (h : (0 : UInt8) ∉ s) (t : Bytes) : cstr (s ++ t) = s ++ cstr t := by
  unfold cstr
  rw [List.takeWhile_append_of_pos]
  intro c hc
  have hne : c ≠ 0 := fun heq => h (heq ▸ hc)
  simpa using hne

lemma cstr_append_nul {s : Bytes} (h : (0 : UInt8) ∈ s) (t : Bytes) : cstr (s ++ t) = cstr s := by
  induction s with
  | nil => cases h
  | cons c s ih =>
    by_cases hc : c = 0
    · simp [cstr, hc]
    · have hs : (0 : UInt8) ∈ s := by simpa [Ne.symm hc] using h
      simpa [cstr, hc] using ih hs

lemma nul_cstr (s : Bytes) : (0 : UInt8) ∉ cstr s := by
  intro h
  have hall := List.all_eq_true.mp (List.all_takeWhile (l := s) (p := (· != 0))) 0 h
  simp at hall

/-- ASCII lower case of one byte. -/
def lower (c : UInt8) : UInt8 := if 65 ≤ c ∧ c ≤ 90 then c + 32 else c

/-- ASCII lower case of a string; the other bytes stay. -/
def fold (s : Bytes) : Bytes := s.map lower

lemma lower_lower (c : UInt8) : lower (lower c) = lower c := by
  unfold lower
  split_ifs with h k
  · have h1 := UInt8.le_iff_toNat_le.mp h.1
    have h2 := UInt8.le_iff_toNat_le.mp h.2
    have k2 := UInt8.le_iff_toNat_le.mp k.2
    simp at h1 h2 k2
    omega
  · rfl
  · rfl

@[simp] lemma fold_fold (s : Bytes) : fold (fold s) = fold s := by
  simp [fold, lower_lower]

/-- The decimal numeral of a natural number, as `std::to_string` prints it. -/
def decimal (n : ℕ) : Bytes := (Nat.toDigits 10 n).map fun c => UInt8.ofNat c.toNat

/-- The decimal numeral of an integer. -/
def decimalInt : ℤ → Bytes
  | .ofNat n => decimal n
  | .negSucc n => 45 :: decimal (n + 1)

section Search
variable {α : Type}

/-- The halving loop of `std::lower_bound` over the positions `first, …, first + count - 1`,
with `below i` telling whether the element at position `i` is smaller than the key. -/
def lowerBoundLoop (below : ℕ → Bool) : ℕ → ℕ → ℕ → ℕ
  | 0, first, _ => first
  | fuel + 1, first, count =>
    if count = 0 then first
    else if below (first + count / 2) then
      lowerBoundLoop below fuel (first + count / 2 + 1) (count - (count / 2 + 1))
    else lowerBoundLoop below fuel first (count / 2)

lemma lowerBoundLoop_spec (below : ℕ → Bool)
    (mono : ∀ i j, i ≤ j → below j = true → below i = true) (fuel first count : ℕ)
    (hfuel : count ≤ fuel) :
    first ≤ lowerBoundLoop below fuel first count ∧
    lowerBoundLoop below fuel first count ≤ first + count ∧
    (∀ i, first ≤ i → i < lowerBoundLoop below fuel first count → below i = true) ∧
    (∀ i, lowerBoundLoop below fuel first count ≤ i → i < first + count → below i = false) := by
  induction fuel generalizing first count with
  | zero =>
    obtain rfl : count = 0 := by omega
    simp only [lowerBoundLoop]
    refine ⟨le_rfl, le_rfl, ?_, ?_⟩ <;> intro i h1 h2 <;> omega
  | succ fuel ih =>
    simp only [lowerBoundLoop]
    split_ifs with h0 hb
    · subst h0
      refine ⟨le_rfl, le_rfl, ?_, ?_⟩ <;> intro i h1 h2 <;> omega
    · obtain ⟨h1, h2, h3, h4⟩ := ih (first + count / 2 + 1) (count - (count / 2 + 1)) (by omega)
      refine ⟨by omega, by omega, ?_, fun i hi hc => h4 i hi (by omega)⟩
      intro i hi hp
      by_cases hm : i ≤ first + count / 2
      · exact mono i _ hm hb
      · exact h3 i (by omega) hp
    · obtain ⟨h1, h2, h3, h4⟩ := ih first (count / 2) (by omega)
      refine ⟨h1, by omega, h3, ?_⟩
      intro i hi hc
      by_cases hm : i < first + count / 2
      · exact h4 i hi hm
      · by_contra hne
        exact hb (mono _ i (by omega) (by simpa using hne))

/-- Whether the element at a position is smaller than the key. -/
def precedes (lt : α → α → Bool) (xs : List α) (x : α) (i : ℕ) : Bool :=
  match xs[i]? with
  | some y => lt y x
  | none => false

/-- `std::binary_search` with the comparison `lt` on a sequence sorted by it. -/
def binarySearch (lt : α → α → Bool) (xs : List α) (x : α) : Bool :=
  match xs[lowerBoundLoop (precedes lt xs x) xs.length 0 xs.length]? with
  | some y => !lt x y
  | none => false

end Search

/-- Comparison of pairs by their first component, as the comparators of the sources do. -/
def firstLt {β : Type} (a b : Bytes × β) : Bool := decide (a.1 < b.1)

/-- Sorting by the first component. -/
def sortByFirst {β : Type} (xs : List (Bytes × β)) : List (Bytes × β) :=
  xs.insertionSort fun a b => a.1 ≤ b.1

/-- A sequence on which a binary search by the first component is meaningful. -/
def SortedByFirst {β : Type} (xs : List (Bytes × β)) : Prop :=
  xs.Pairwise fun a b => a.1 ≤ b.1

instance {β : Type} : Std.Total fun a b : Bytes × β => a.1 ≤ b.1 :=
  ⟨fun a b => List.le_total a.1 b.1⟩

instance {β : Type} : IsTrans (Bytes × β) fun a b => a.1 ≤ b.1 :=
  ⟨fun _ _ _ => List.le_trans⟩

lemma sortByFirst_sorted {β : Type} (xs : List (Bytes × β)) : SortedByFirst (sortByFirst xs) :=
  List.pairwise_insertionSort _ xs

@[simp] lemma mem_sortByFirst {β : Type} {xs : List (Bytes × β)} {x : Bytes × β} :
    x ∈ sortByFirst xs ↔ x ∈ xs :=
  List.mem_insertionSort _

@[simp] lemma sortByFirst_nil {β : Type} : sortByFirst ([] : List (Bytes × β)) = [] := rfl

/-- The order of `std::pair` on pairs of strings. -/
def PairLe (a b : Bytes × Bytes) : Prop := a.1 < b.1 ∨ (a.1 = b.1 ∧ a.2 ≤ b.2)

instance : DecidableRel PairLe := fun a b => inferInstanceAs (Decidable (a.1 < b.1 ∨ (a.1 = b.1 ∧ a.2 ≤ b.2)))

instance : Std.Total PairLe where
  total a b := by
    by_cases h : a.1 < b.1
    · exact Or.inl (Or.inl h)
    by_cases k : b.1 < a.1
    · exact Or.inr (Or.inl k)
    have he : a.1 = b.1 := List.le_antisymm (List.not_lt.mp k) (List.not_lt.mp h)
    rcases List.le_total a.2 b.2 with h2 | h2
    · exact Or.inl (Or.inr ⟨he, h2⟩)
    · exact Or.inr (Or.inr ⟨he.symm, h2⟩)

instance : IsTrans (Bytes × Bytes) PairLe where
  trans a b c hab hbc := by
    rcases hab with h | ⟨h, h2⟩ <;> rcases hbc with k | ⟨k, k2⟩
    · exact Or.inl (List.lt_trans h k)
    · exact Or.inl (k ▸ h)
    · exact Or.inl (h ▸ k)
    · exact Or.inr ⟨h.trans k, List.le_trans h2 k2⟩

/-- `std::sort` on pairs of strings. -/
def sortPairs (xs : List (Bytes × Bytes)) : List (Bytes × Bytes) := xs.insertionSort PairLe

@[simp] lemma mem_sortPairs {xs : List (Bytes × Bytes)} {x : Bytes × Bytes} :
    x ∈ sortPairs xs ↔ x ∈ xs :=
  List.mem_insertionSort _

lemma sortPairs_sorted (xs : List (Bytes × Bytes)) : SortedByFirst (sortPairs xs) := by
  refine (List.pairwise_insertionSort PairLe xs).imp ?_
  rintro a b (h | ⟨h, -⟩)
  · exact List.le_of_lt h
  · exact h ▸ List.le_refl _

/-- On a sorted sequence the binary search finds a key exactly when it is there. -/
theorem binarySearch_iff {β : Type} (xs : List (Bytes × β)) (hs : SortedByFirst xs)
    (x : Bytes × β) : binarySearch firstLt xs x = true ↔ ∃ y ∈ xs, y.1 = x.1 := by
  have hget : ∀ i j (hi : i < xs.length) (hj : j < xs.length), i ≤ j → xs[i].1 ≤ xs[j].1 := by
    intro i j hi hj hij
    rcases Nat.lt_or_eq_of_le hij with h | rfl
    · exact List.pairwise_iff_getElem.mp hs i j hi hj h
    · exact List.le_refl _
  unfold binarySearch
  have hval : ∀ i (hi : i < xs.length), precedes firstLt xs x i = decide (xs[i].1 < x.1) := by
    intro i hi
    simp [precedes, List.getElem?_eq_getElem hi, firstLt]
  have hnone : ∀ i, xs.length ≤ i → precedes firstLt xs x i = false := by
    intro i hi
    simp [precedes, List.getElem?_eq_none hi]
  generalize precedes firstLt xs x = below at hval hnone ⊢
  have mono : ∀ i j, i ≤ j → below j = true → below i = true := by
    intro i j hij hj
    have hjl : j < xs.length := by
      by_contra hc
      simp [hnone j (by omega)] at hj
    rw [hval j hjl] at hj
    rw [hval i (by omega)]
    simp only [decide_eq_true_eq] at hj ⊢
    exact List.lt_of_le_of_lt (hget i j (by omega) hjl hij) hj
  obtain ⟨-, hle, hlow, hhigh⟩ := lowerBoundLoop_spec below mono xs.length 0 xs.length le_rfl
  generalize lowerBoundLoop below xs.length 0 xs.length = p at hle hlow hhigh ⊢
  constructor
  · intro h
    by_cases hp : p < xs.length
    · rw [List.getElem?_eq_getElem hp] at h
      have hge : below p = false := hhigh p le_rfl (by omega)
      rw [hval p hp] at hge
      simp only [firstLt, Bool.not_eq_true', decide_eq_false_iff_not] at h hge
      exact ⟨xs[p], List.getElem_mem hp,
        List.le_antisymm (List.not_lt.mp h) (List.not_lt.mp hge)⟩
    · simp [List.getElem?_eq_none (by omega : xs.length ≤ p)] at h
  · rintro ⟨y, hy, hyx⟩
    obtain ⟨i, hi, rfl⟩ := List.mem_iff_getElem.mp hy
    have hni : below i = false := by
      rw [hval i hi, hyx]
      simp
    have hpi : p ≤ i := by
      by_contra hc
      simp [hlow i (Nat.zero_le i) (by omega)] at hni
    rw [List.getElem?_eq_getElem (by omega : p < xs.length)]
    have hxp := hget p i (by omega) hi hpi
    rw [hyx] at hxp
    simpa [firstLt, List.not_lt] using hxp

example : binarySearch firstLt [(ascii "a", 1), (ascii "b", 2), (ascii "d", 3)] (ascii "b", 0) = true := by
  decide

end SqliteWrite
