import Mathlib.Data.List.Pairwise
import Mathlib.Data.List.Basic

/-! Writes under keys. A write takes the place of the one before it under the same key; what is left of a
sequence of writes is the last one under every key. -/
namespace SqliteWrite

variable {α β : Type} {same : α → α → Bool}

/-- A relation by which keys are the same; it need not relate every element to itself. -/
structure SameKey (same : α → α → Bool) : Prop where
  symm : ∀ x y, same x y = true → same y x = true
  trans : ∀ x y z, same x y = true → same y z = true → same x z = true

/-- Write `x`, in place of what is there under its key. -/
def putOver (same : α → α → Bool) (xs : List α) (x : α) : List α := xs.filter (fun y => !same y x) ++ [x]

/-- The last writes under their keys. -/
def lastWrites (same : α → α → Bool) (xs : List α) : List α := xs.pwFilter fun x y => same x y = false

lemma SameKey.comap (h : SameKey same) (f : β → α) : SameKey fun x y => same (f x) (f y) :=
  ⟨fun x y => h.symm (f x) (f y), fun x y z => h.trans (f x) (f y) (f z)⟩

lemma mem_putOver_self (xs : List α) (x : α) : x ∈ putOver same xs x := by
  simp [putOver]

lemma map_putOver (same : α → α → Bool) (f : β → α) (ys : List β) (y : β) :
    (putOver (fun a b => same (f a) (f b)) ys y).map f = putOver same (ys.map f) (f y) := by
  simp only [putOver, List.map_append, List.map_cons, List.map_nil, List.filter_map]
  rfl

lemma SameKey.exists_lastWrites (h : SameKey same) (xs : List α) (x : α) :
    (∃ y ∈ lastWrites same xs, same y x = true) ↔ ∃ y ∈ xs, same y x = true := by
  have hneg : ∀ {a b c : α}, same a c = false → same a b = false ∨ same b c = false := by
    intro a b c hac
    by_contra hno
    rw [not_or, Bool.not_eq_false, Bool.not_eq_false] at hno
    rw [h.trans a b c hno.1 hno.2] at hac
    cases hac
  have hall := List.forall_mem_pwFilter (R := fun a b => same a b = false) hneg x xs
  have hswap : ∀ y, same x y = false ↔ ¬ same y x = true := by
    intro y
    constructor
    · intro hxy hyx
      rw [h.symm y x hyx] at hxy
      cases hxy
    · intro hyx
      by_contra hxy
      exact hyx (h.symm x y (by simpa using hxy))
  constructor
  · rintro ⟨y, hy, hyx⟩
    exact ⟨y, List.pwFilter_subset xs hy, hyx⟩
  · rintro ⟨y, hy, hyx⟩
    by_contra hno
    push Not at hno
    exact (hswap y).mp (hall.mp (fun z hz => (hswap z).mpr (hno z hz)) y hy) hyx

lemma lastWrites_keep {xs : List α} {x : α} (h : ∀ y ∈ lastWrites same xs, same x y = false) :
    lastWrites same (x :: xs) = x :: lastWrites same xs := List.pwFilter_cons_of_pos h

lemma lastWrites_drop {xs : List α} {x : α} (h : ¬ ∀ y ∈ lastWrites same xs, same x y = false) :
    lastWrites same (x :: xs) = lastWrites same xs := List.pwFilter_cons_of_neg h

lemma SameKey.forall_putOver (h : SameKey same) (xs : List α) (x a : α) :
    (∀ y ∈ putOver same xs x, same a y = false) ↔ (∀ y ∈ xs, same a y = false) ∧ same a x = false := by
  constructor
  · intro hall
    have hx := hall x (mem_putOver_self xs x)
    refine ⟨fun y hy => ?_, hx⟩
    by_contra hay
    rw [Bool.not_eq_false] at hay
    by_cases hyx : same y x = true
    · rw [h.trans a y x hay hyx] at hx
      cases hx
    · have hmem : y ∈ putOver same xs x :=
        List.mem_append_left _ (List.mem_filter.mpr ⟨hy, by simpa using hyx⟩)
      rw [hall y hmem] at hay
      cases hay
  · rintro ⟨hall, hx⟩ y hy
    rcases List.mem_append.mp hy with hy | hy
    · exact hall y (List.mem_of_mem_filter hy)
    · rw [List.mem_singleton.mp hy]
      exact hx

lemma SameKey.lastWrites_snoc (h : SameKey same) (xs : List α) (x : α) :
    lastWrites same (xs ++ [x]) = putOver same (lastWrites same xs) x := by
  induction xs with
  | nil =>
    apply lastWrites_keep
    simp [lastWrites]
  | cons a xs ih =>
    have hkeeps := h.forall_putOver (lastWrites same xs) x a
    rw [← ih] at hkeeps
    rw [List.cons_append]
    by_cases hall : ∀ y ∈ lastWrites same xs, same a y = false
    · rw [lastWrites_keep hall]
      by_cases hx : same a x = true
      · have hno : ¬ ∀ y ∈ lastWrites same (xs ++ [x]), same a y = false := fun h' => by
          rw [(hkeeps.mp h').2] at hx
          exact Bool.false_ne_true hx
        rw [lastWrites_drop hno, ih]
        simp [putOver, hx]
      · rw [Bool.not_eq_true] at hx
        rw [lastWrites_keep (hkeeps.mpr ⟨hall, hx⟩), ih]
        simp [putOver, hx]
    · have hno : ¬ ∀ y ∈ lastWrites same (xs ++ [x]), same a y = false := fun h' => hall (hkeeps.mp h').1
      rw [lastWrites_drop hall, lastWrites_drop hno, ih]

end SqliteWrite
