import Mathlib.Data.List.Basic
import Mathlib.Data.Rat.Floor

/-! Items filed under their keys, as an ordered map from keys to vectors holds them. What is filed
under a key are the items with this key, in the order in which they came. -/
namespace SqliteWrite

variable {κ α : Type} [LT κ]

/-- An ordered map from keys to vectors; a key is in it once something is filed under it. -/
structure Groups (κ α : Type) [LT κ] where
  entries : List (κ × List α)
  sorted : entries.Pairwise fun a b => a.1 < b.1
  filled : ∀ e ∈ entries, e.2 ≠ []

namespace Groups

def empty : Groups κ α := ⟨[], List.Pairwise.nil, by simp⟩

variable [DecidableEq κ]

/-- What is filed under a key. -/
def get (g : Groups κ α) (k : κ) : List α := (g.entries.filter fun e => e.1 = k).flatMap (·.2)

@[simp] lemma get_empty (k : κ) : (empty : Groups κ α).get k = [] := rfl

variable [DecidableLT κ]

/-- File one more item in a sorted sequence of entries. -/
def file (k : κ) (x : α) : List (κ × List α) → List (κ × List α)
  | [] => [(k, [x])]
  | (j, xs) :: rest =>
    if j = k then (j, xs ++ [x]) :: rest
    else if k < j then (k, [x]) :: (j, xs) :: rest
    else (j, xs) :: file k x rest

lemma file_map {β : Type} (f : α → β) (k : κ) (x : α) (es : List (κ × List α)) :
    file k (f x) (es.map fun e => (e.1, e.2.map f)) = (file k x es).map fun e => (e.1, e.2.map f) := by
  induction es with
  | nil => rfl
  | cons d rest ih =>
    obtain ⟨j, xs⟩ := d
    simp only [List.map_cons, file]
    split_ifs
    · simp
    · rfl
    · rw [ih, List.map_cons]

lemma file_perm (k : κ) (x : α) (es : List (κ × List α)) :
    ((file k x es).flatMap (·.2)).Perm (x :: es.flatMap (·.2)) := by
  induction es with
  | nil => exact List.Perm.refl _
  | cons d rest ih =>
    obtain ⟨j, xs⟩ := d
    simp only [file]
    split_ifs
    · rw [List.flatMap_cons, List.flatMap_cons, List.append_assoc]
      exact List.perm_middle
    · exact List.Perm.refl _
    · rw [List.flatMap_cons, List.flatMap_cons]
      exact (ih.append_left xs).trans List.perm_middle

lemma mem_file {k : κ} {x : α} {es : List (κ × List α)} {e : κ × List α} (he : e ∈ file k x es) :
    (e.1 = k ∧ e.2 ≠ []) ∨ e ∈ es := by
  induction es with
  | nil =>
    obtain rfl := List.mem_singleton.mp he
    exact Or.inl ⟨rfl, by simp⟩
  | cons d rest ih =>
    obtain ⟨j, xs⟩ := d
    simp only [file] at he
    split_ifs at he with hj hlt
    · rcases List.mem_cons.mp he with rfl | he
      · exact Or.inl ⟨hj, by simp⟩
      · exact Or.inr (List.mem_cons_of_mem _ he)
    · rcases List.mem_cons.mp he with rfl | he
      · exact Or.inl ⟨rfl, by simp⟩
      · exact Or.inr he
    · rcases List.mem_cons.mp he with rfl | he
      · exact Or.inr List.mem_cons_self
      · rcases ih he with h | h
        · exact Or.inl h
        · exact Or.inr (List.mem_cons_of_mem _ h)

section Order
variable [IsTrans κ fun a b => a < b] [Std.Trichotomous fun a b : κ => a < b]

lemma sorted_file {k : κ} {x : α} {es : List (κ × List α)}
    (hes : es.Pairwise fun a b => a.1 < b.1) : (file k x es).Pairwise fun a b => a.1 < b.1 := by
  induction es with
  | nil => exact List.pairwise_singleton _ _
  | cons d rest ih =>
    obtain ⟨j, xs⟩ := d
    obtain ⟨hd, hrest⟩ := List.pairwise_cons.mp hes
    simp only [file]
    split_ifs with hj hlt
    · exact List.pairwise_cons.mpr ⟨hd, hrest⟩
    · refine List.pairwise_cons.mpr ⟨fun e he => ?_, hes⟩
      rcases List.mem_cons.mp he with rfl | he
      · exact hlt
      · exact Std.lt_trans hlt (hd e he)
    · have hjk : j < k := by
        rcases Std.lt_trichotomy j k with h | h | h
        · exact h
        · exact absurd h hj
        · exact absurd h hlt
      refine List.pairwise_cons.mpr ⟨fun e he => ?_, ih hrest⟩
      rcases mem_file he with ⟨h, -⟩ | h
      · exact h ▸ hjk
      · exact hd e h

/-- File one more item. -/
def push (g : Groups κ α) (k : κ) (x : α) : Groups κ α where
  entries := file k x g.entries
  sorted := sorted_file g.sorted
  filled := by
    intro e he
    rcases mem_file he with ⟨-, h⟩ | h
    · exact h
    · exact g.filled e h

variable [Std.Irrefl fun a b : κ => a < b]

omit [DecidableLT κ] [IsTrans κ fun a b => a < b] [Std.Trichotomous fun a b : κ => a < b] in
lemma filter_above {k : κ} {es : List (κ × List α)} (h : ∀ e ∈ es, k < e.1) :
    es.filter (fun e => e.1 = k) = [] := by
  apply List.filter_eq_nil_iff.mpr
  intro e he
  have hne : e.1 ≠ k := fun heq => Std.lt_irrefl (heq ▸ h e he)
  simpa using hne

@[simp] lemma get_push (g : Groups κ α) (k k' : κ) (x : α) :
    (g.push k x).get k' = g.get k' ++ if k = k' then [x] else [] := by
  obtain ⟨es, hs, hf⟩ := g
  simp only [get, push]
  clear hf
  induction es with
  | nil => by_cases h : k = k' <;> simp [file, h]
  | cons d rest ih =>
    obtain ⟨j, xs⟩ := d
    obtain ⟨hd, hrest⟩ := List.pairwise_cons.mp hs
    by_cases hj : j = k
    · subst hj
      by_cases hk : j = k'
      · subst hk
        simp [file, filter_above hd]
      · simp [file, hk]
    by_cases hlt : k < j
    · by_cases hk : k = k'
      · -- The key comes first; nothing is filed under it yet.
        subst hk
        have habove : ∀ e ∈ (j, xs) :: rest, k < e.1 := by
          intro e he
          rcases List.mem_cons.mp he with rfl | he
          · exact hlt
          · exact Std.lt_trans hlt (hd e he)
        simp [file, hj, hlt, filter_above habove]
      · simp [file, hj, hlt, hk]
    · have hfile : file k x ((j, xs) :: rest) = (j, xs) :: file k x rest := by simp [file, hj, hlt]
      have hi := ih hrest
      rw [hfile]
      by_cases hk : j = k'
      · simp [hk, hi]
      · simp [hk, hi]

/-- File a list of items, each under its own key. -/
def fileAll (key : α → κ) (g : Groups κ α) (xs : List α) : Groups κ α :=
  xs.foldl (fun g x => g.push (key x) x) g

@[simp] lemma get_fileAll (key : α → κ) (g : Groups κ α) (xs : List α) (k : κ) :
    (g.fileAll key xs).get k = g.get k ++ xs.filter fun x => key x = k := by
  induction xs generalizing g with
  | nil => simp [fileAll]
  | cons x xs ih =>
    have hx := ih (g.push (key x) x)
    simp only [fileAll, List.foldl_cons] at hx ⊢
    rw [hx, get_push]
    by_cases h : key x = k <;> simp [h]

end Order

omit [DecidableLT κ] in
lemma get_of_mem [Std.Irrefl fun a b : κ => a < b] {g : Groups κ α} {e : κ × List α} (he : e ∈ g.entries) :
    g.get e.1 = e.2 := by
  have hs := g.sorted
  simp only [get]
  generalize g.entries = es at he hs
  induction es with
  | nil => cases he
  | cons d rest ih =>
    obtain ⟨hd, hrest⟩ := List.pairwise_cons.mp hs
    rcases List.mem_cons.mp he with rfl | he
    · simp [filter_above hd]
    · have hne : d.1 ≠ e.1 := fun heq => Std.lt_irrefl (heq ▸ hd e he)
      simpa [hne] using ih he hrest

omit [DecidableLT κ] in
lemma mem_of_get [Std.Irrefl fun a b : κ => a < b] {g : Groups κ α} {k : κ} (h : g.get k ≠ []) :
    (k, g.get k) ∈ g.entries := by
  cases hf : g.entries.filter fun e => e.1 = k with
  | nil => exact absurd (by simp [get, hf]) h
  | cons e es =>
    have he : e ∈ g.entries.filter fun e => e.1 = k := by rw [hf]; exact List.mem_cons_self
    obtain ⟨hmem, hk⟩ := List.mem_filter.mp he
    obtain rfl : e.1 = k := by simpa using hk
    rw [get_of_mem hmem]
    exact hmem

end Groups

section Firsts
variable {κ β : Type} [DecidableEq κ]

/-- The entries whose key is neither among those seen before nor that of an earlier entry. -/
def firsts : List κ → List (κ × β) → List (κ × β)
  | _, [] => []
  | seen, e :: es => if e.1 ∈ seen then firsts seen es else e :: firsts (seen ++ [e.1]) es

lemma mem_firsts_keys {seen : List κ} {es : List (κ × β)} {k : κ} :
    k ∈ (firsts seen es).map (·.1) ↔ k ∈ es.map (·.1) ∧ k ∉ seen := by
  induction es generalizing seen with
  | nil => simp [firsts]
  | cons e es ih =>
    by_cases he : e.1 ∈ seen
    · have hne : k ∉ seen → e.1 ≠ k := fun hk heq => hk (heq ▸ he)
      simp only [firsts, if_pos he, ih, List.map_cons, List.mem_cons]
      constructor
      · exact fun h => ⟨Or.inr h.1, h.2⟩
      · intro h
        exact ⟨h.1.resolve_left fun heq => hne h.2 heq.symm, h.2⟩
    · simp only [firsts, if_neg he, List.map_cons, List.mem_cons, ih, List.mem_append,
        List.not_mem_nil, or_false, not_or]
      constructor
      · intro h
        rcases h with rfl | ⟨h1, h2, -⟩
        · exact ⟨Or.inl rfl, he⟩
        · exact ⟨Or.inr h1, h2⟩
      · intro h
        by_cases hk : k = e.1
        · exact Or.inl hk
        · exact Or.inr ⟨h.1.resolve_left hk, h.2, hk⟩

lemma firsts_nodup (seen : List κ) (es : List (κ × β)) : ((firsts seen es).map (·.1)).Nodup := by
  induction es generalizing seen with
  | nil => exact List.nodup_nil
  | cons e es ih =>
    by_cases he : e.1 ∈ seen
    · simpa [firsts, he] using ih seen
    · simp only [firsts, if_neg he, List.map_cons, List.nodup_cons]
      refine ⟨fun h => ?_, ih _⟩
      exact (mem_firsts_keys.mp h).2 (by simp)

lemma find_of_mem_firsts {seen : List κ} {es : List (κ × β)} {e : κ × β} (he : e ∈ firsts seen es) :
    es.find? (fun x => x.1 = e.1) = some e := by
  induction es generalizing seen with
  | nil => cases he
  | cons x es ih =>
    have hkey : e.1 ∈ (firsts seen (x :: es)).map (·.1) := List.mem_map_of_mem he
    simp only [firsts] at he
    split_ifs at he with hx
    · have hne : x.1 ≠ e.1 := fun heq => (mem_firsts_keys.mp hkey).2 (heq ▸ hx)
      simpa [hne] using ih he
    · rcases List.mem_cons.mp he with rfl | he
      · simp
      · have hne : x.1 ≠ e.1 := by
          intro heq
          have hseen := (mem_firsts_keys.mp (List.mem_map_of_mem he)).2
          exact hseen (by simp [heq])
        simpa [hne] using ih he

end Firsts
end SqliteWrite
