import Mathlib.Logic.Function.Basic
import SqliteWrite.Lib.Bytes

/-! JSON values that are built up by assignments, as a library for them documents it: a null value becomes
an object with the first member that it is assigned, and an object has one value under each key. -/
namespace SqliteWrite

/-- What is converted to a JSON value when it is assigned; a floating-point number is its IEEE 754 bit
pattern, and a vector of bytes becomes an array. -/
inductive JsonScalar
  | string (b : Bytes)
  | integer (i : Int64)
  | float (bits : UInt64)
  | bytes (b : Bytes)
  deriving DecidableEq, Repr

/-- A library for JSON values: those that there are to begin with, the members of an object by their keys,
the keyed assignment `j[key] = v` and the addition `arr += v` to an array. -/
structure JsonLibrary where
  Value : Type
  null : Value
  scalar : JsonScalar → Value
  array : List Value → Value
  members : Value → Option (Bytes → Option Value)
  assign : Value → Bytes → Value → Except Bytes Value
  append : Value → Value → Except Bytes Value
  scalar_ne_null : ∀ x, scalar x ≠ null
  scalar_injective : Function.Injective scalar
  array_injective : Function.Injective array
  members_null : members null = none
  members_ext : ∀ j j' m, members j = some m → members j' = some m → j = j'
  assign_null : ∀ key v, ∃ j, assign null key v = .ok j ∧
    members j = some (Function.update (fun _ => none) key (some v))
  assign_object : ∀ j m key v, members j = some m → ∃ j', assign j key v = .ok j' ∧
    members j' = some (Function.update m key (some v))
  append_array : ∀ elements v, append (array elements) v = .ok (array (elements ++ [v]))

namespace JsonLibrary

/-- A value that is built by keyed assignments: null before the first of them, then the object with these
members. -/
inductive Built (L : JsonLibrary) : (Bytes → Option L.Value) → L.Value → Prop
  | fresh : Built L (fun _ => none) L.null
  | filled {m : Bytes → Option L.Value} {j : L.Value} (member : ∃ key, m key ≠ none)
      (object : L.members j = some m) : Built L m j

variable {L : JsonLibrary} {m m' : Bytes → Option L.Value} {j j' : L.Value}

lemma Built.assign (h : L.Built m j) (key : Bytes) (v : L.Value) :
    ∃ j', L.assign j key v = .ok j' ∧ L.Built (Function.update m key (some v)) j' := by
  have hsome : ∃ k, Function.update m key (some v) k ≠ none := ⟨key, by simp⟩
  cases h with
  | fresh =>
    obtain ⟨j', hassign, hmembers⟩ := L.assign_null key v
    exact ⟨j', hassign, .filled hsome hmembers⟩
  | filled _ object =>
    obtain ⟨j', hassign, hmembers⟩ := L.assign_object j m key v object
    exact ⟨j', hassign, .filled hsome hmembers⟩

lemma Built.object_iff (h : L.Built m j) : L.members j = some m ↔ ∃ key, m key ≠ none := by
  cases h with
  | fresh => simp [L.members_null]
  | filled member object => exact iff_of_true object member

lemma Built.eq_iff (h : L.Built m j) (h' : L.Built m' j') : j = j' ↔ m = m' := by
  constructor
  · rintro rfl
    cases h with
    | fresh =>
      cases h' with
      | fresh => rfl
      | filled _ object => exact absurd (L.members_null.symm.trans object) nofun
    | filled _ object =>
      cases h' with
      | fresh => exact absurd (L.members_null.symm.trans object) nofun
      | filled _ object' => exact Option.some.inj (object.symm.trans object')
  · rintro rfl
    cases h with
    | fresh =>
      cases h' with
      | fresh => rfl
      | filled member _ =>
        obtain ⟨key, hkey⟩ := member
        exact absurd rfl hkey
    | filled member object =>
      have hobject := h'.object_iff.mpr member
      exact L.members_ext j j' m object hobject

end JsonLibrary

/-- JSON values as trees. -/
inductive Json
  | null
  | string (b : Bytes)
  | integer (i : Int64)
  | unsigned (n : UInt64)
  | float (bits : UInt64)
  | array (elements : List Json)
  | object (members : Bytes → Option Json)

namespace Json

def scalar : JsonScalar → Json
  | .string b => string b
  | .integer i => integer i
  | .float bits => float bits
  | .bytes b => array (b.map fun c => unsigned c.toUInt64)

lemma scalar_injective : Function.Injective scalar := by
  have hbyte : Function.Injective fun c : UInt8 => unsigned c.toUInt64 := by
    intro c c' h
    exact UInt8.toUInt64_inj.mp (unsigned.inj h)
  intro x y h
  cases x with
  | bytes b =>
    cases y with
    | bytes b' => rw [List.map_injective_iff.mpr hbyte (array.inj h)]
    | _ => cases h
  | _ =>
    cases y <;> cases h
    rfl

def typeName : Json → Bytes
  | null => ascii "null"
  | string _ => ascii "string"
  | array _ => ascii "array"
  | object _ => ascii "object"
  | _ => ascii "number"

def members : Json → Option (Bytes → Option Json)
  | object members => some members
  | _ => none

def assign : Json → Bytes → Json → Except Bytes Json
  | null, key, v => .ok (object (Function.update (fun _ => none) key (some v)))
  | object members, key, v => .ok (object (Function.update members key (some v)))
  | j, _, _ => .error (ascii "[json.exception.type_error.305] cannot use operator[] with a string argument with " ++
      j.typeName)

def append : Json → Json → Except Bytes Json
  | null, v => .ok (array [v])
  | array elements, v => .ok (array (elements ++ [v]))
  | j, _ => .error (ascii "[json.exception.type_error.308] cannot use push_back() with " ++ j.typeName)

/-- The trees are such a library. -/
def library : JsonLibrary where
  Value := Json
  null := null
  scalar := scalar
  array := array
  members := members
  assign := assign
  append := append
  scalar_ne_null x := by cases x <;> nofun
  scalar_injective := scalar_injective
  array_injective _ _ h := array.inj h
  members_null := rfl
  members_ext j j' m h h' := by
    cases j with
    | object members =>
      cases j' with
      | object members' => rw [Option.some.inj h, Option.some.inj h']
      | _ => cases h'
    | _ => cases h
  assign_null _ _ := ⟨_, rfl, rfl⟩
  assign_object j m key v h := by
    cases j with
    | object members => exact ⟨_, rfl, by rw [← Option.some.inj h]; rfl⟩
    | _ => cases h
  append_array _ _ := rfl

end Json
end SqliteWrite
