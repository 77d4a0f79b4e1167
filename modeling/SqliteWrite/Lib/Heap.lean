import Mathlib.Algebra.Order.BigOperators.Group.List
import Mathlib.Algebra.Order.Ring.Nat
import Mathlib.Data.List.Perm.Basic

/-! Objects on a heap. They are numbered as they are made; an object lives at an address until it is freed,
and its address may be given again. A look at an address where nothing lives is a fault, and so is freeing
it. Who owns some objects has them at addresses of their own, and nothing else lives. -/
namespace SqliteWrite

lemma find_by {κ α : Type} [DecidableEq κ] (f : α → κ) {xs : List α} (hnodup : (xs.map f).Nodup) {x : α}
    (hx : x ∈ xs) : xs.find? (fun y => f y = f x) = some x := by
  induction xs with
  | nil => cases hx
  | cons y xs ih =>
    rw [List.map_cons, List.nodup_cons] at hnodup
    cases hx with
    | head => simp
    | tail _ hx =>
      have hne : f y ≠ f x := fun heq => hnodup.1 (heq ▸ List.mem_map_of_mem hx)
      rw [List.find?_cons_of_neg (by simpa using hne)]
      exact ih hnodup.2 hx

/-- Where the next object is put: where nothing lives, though something may have lived there before. -/
structure Allocator where
  place : ℕ → List ℕ → ℕ
  unused : ∀ n used, place n used ∉ used

/-- An allocator that puts an object above the others, and so where an earlier one lived once that is gone. -/
def Allocator.above : Allocator where
  place _ used := used.sum + 1
  unused := by
    intro _ used h
    have hle := List.single_le_sum (by simp) _ h
    omega

/-- An object on a heap, with its number. -/
structure Block (α : Type) where
  address : ℕ
  serial : ℕ
  value : α

/-- The objects that live, how many were made, and the numbers of those that were freed. -/
structure Heap (α : Type) where
  live : List (Block α)
  made : ℕ
  freed : List ℕ
  fault : Bool

namespace Heap
variable {α : Type} (P : Allocator)

def empty : Heap α := ⟨[], 0, [], false⟩

/-- The object that is made next. -/
def next (h : Heap α) (x : α) : Block α := ⟨P.place h.made (h.live.map (·.address)), h.made, x⟩

def alloc (h : Heap α) (x : α) : Heap α := { h with live := h.live ++ [h.next P x], made := h.made + 1 }

/-- What lives at an address. -/
def at? (h : Heap α) (a : ℕ) : Option (Block α) := h.live.find? fun b => b.address = a

def load (h : Heap α) (a : ℕ) : Option α × Heap α :=
  match h.at? a with
  | some b => (some b.value, h)
  | none => (none, { h with fault := true })

def store (h : Heap α) (a : ℕ) (x : α) : Heap α :=
  match h.at? a with
  | some _ => { h with live := h.live.map fun b => if b.address = a then { b with value := x } else b }
  | none => { h with fault := true }

def free (h : Heap α) (a : ℕ) : Heap α :=
  match h.at? a with
  | some b => { h with live := h.live.filter fun b => b.address ≠ a, freed := h.freed ++ [b.serial] }
  | none => { h with fault := true }

/-- All that lives are these objects, at addresses of their own, and every object that was ever made is one
of them or was freed, once. -/
structure Owns (h : Heap α) (bs : List (Block α)) : Prop where
  fault : h.fault = false
  live : h.live.Perm bs
  nodup : (bs.map (·.address)).Nodup
  serials : (h.freed ++ bs.map (·.serial)).Perm (List.range h.made)

variable {h : Heap α} {b : Block α} {bs bs' : List (Block α)}

lemma owns_empty : (empty : Heap α).Owns [] :=
  ⟨rfl, List.Perm.refl _, List.nodup_nil, List.Perm.refl _⟩

lemma Owns.perm (ho : h.Owns bs) (hp : bs.Perm bs') : h.Owns bs' :=
  ⟨ho.fault, ho.live.trans hp, (hp.map _).nodup_iff.mp ho.nodup,
    ((hp.map _).append_left h.freed).symm.trans ho.serials⟩

lemma Owns.at (ho : h.Owns bs) (hb : b ∈ bs) : h.at? b.address = some b := by
  apply find_by
  · exact (ho.live.map _).nodup_iff.mpr ho.nodup
  · exact ho.live.mem_iff.mpr hb

lemma Owns.load (ho : h.Owns bs) (hb : b ∈ bs) : h.load b.address = (some b.value, h) := by
  unfold Heap.load
  rw [ho.at hb]

lemma Owns.serial_lt (ho : h.Owns bs) {i : ℕ} (hi : i ∈ h.freed ++ bs.map (·.serial)) : i < h.made :=
  List.mem_range.mp (ho.serials.mem_iff.mp hi)

lemma Owns.nodup_freed (ho : h.Owns bs) : h.freed.Nodup := by
  have hnodup := ho.serials.nodup_iff.mpr List.nodup_range
  exact (List.nodup_append.mp hnodup).1

lemma Owns.all_freed (ho : h.Owns []) : h.live = [] ∧ h.freed.Perm (List.range h.made) := by
  have hserials := ho.serials
  rw [List.map_nil, List.append_nil] at hserials
  exact ⟨ho.live.eq_nil, hserials⟩

lemma Owns.alloc (ho : h.Owns bs) (x : α) : (h.alloc P x).Owns (h.next P x :: bs) := by
  have hplace : P.place h.made (h.live.map (·.address)) ∉ bs.map (·.address) := by
    intro hmem
    exact P.unused h.made _ ((ho.live.map _).mem_iff.mpr hmem)
  refine ⟨ho.fault, ?_, ?_, ?_⟩
  · exact (ho.live.append_right _).trans List.perm_append_comm
  · rw [List.map_cons, List.nodup_cons]
    exact ⟨hplace, ho.nodup⟩
  · have hnumbers := (ho.serials.append_right [h.made])
    rw [← List.range_succ, List.append_assoc] at hnumbers
    apply List.Perm.trans _ hnumbers
    rw [List.map_cons]
    exact (List.perm_append_singleton h.made _).symm.append_left h.freed

lemma Owns.apart (ho : h.Owns (b :: bs)) {c : Block α} (hc : c ∈ bs) : c.address ≠ b.address := by
  have hnodup := ho.nodup
  rw [List.map_cons, List.nodup_cons] at hnodup
  intro heq
  exact hnodup.1 (heq ▸ List.mem_map_of_mem hc)

lemma Owns.free (ho : h.Owns (b :: bs)) :
    (h.free b.address).Owns bs ∧ (h.free b.address).freed = h.freed ++ [b.serial] ∧
      (h.free b.address).made = h.made := by
  unfold Heap.free
  rw [ho.at List.mem_cons_self]
  have hlive : (h.live.filter fun c => c.address ≠ b.address).Perm bs := by
    have hfilter := ho.live.filter fun c => decide (c.address ≠ b.address)
    rw [List.filter_cons_of_neg (by simp)] at hfilter
    have hall : bs.filter (fun c => decide (c.address ≠ b.address)) = bs := by
      apply List.filter_eq_self.mpr
      intro c hc
      simpa using ho.apart hc
    rwa [hall] at hfilter
  have hnodup := ho.nodup
  rw [List.map_cons, List.nodup_cons] at hnodup
  have hserials := ho.serials
  rw [List.map_cons, List.append_cons] at hserials
  exact ⟨⟨ho.fault, hlive, hnodup.2, hserials⟩, rfl, rfl⟩

lemma Owns.store (ho : h.Owns (b :: bs)) (x : α) :
    (h.store b.address x).Owns ({ b with value := x } :: bs) := by
  unfold Heap.store
  rw [ho.at List.mem_cons_self]
  have hrest : bs.map (fun c => if c.address = b.address then { c with value := x } else c) = bs := by
    rw [List.map_congr_left fun c hc => if_neg (ho.apart hc)]
    exact List.map_id bs
  refine ⟨ho.fault, ?_, ho.nodup, ho.serials⟩
  have hmap := ho.live.map fun c => if c.address = b.address then { c with value := x } else c
  rw [List.map_cons, hrest, if_pos rfl] at hmap
  exact hmap

end Heap
end SqliteWrite
