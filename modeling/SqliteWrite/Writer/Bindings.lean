import SqliteWrite.Sqlite.Reference
import SqliteWrite.Writer.MethodSpecs

/-! The overloads of `bindPrep` for integers, strings and blobs: which values reach SQLite as they
are, through the conversions to the types of the C interface. -/
namespace SqliteWrite
open Method

/-- The value of an overload, in its own C++ type. -/
inductive Overload
  | bool (v : Bool)
  | int (v : Int32)
  | uint32 (v : UInt32)
  | long (v : Int64)
  | unsignedLong (v : UInt64)
  | longLong (v : Int64)
  | unsignedLongLong (v : UInt64)
  | string (b : Bytes)
  | blob (b : Bytes)
  deriving DecidableEq, Repr

namespace Overload

/-- The call of the C interface that the overload makes; `value.size()` passes to an `int`, and an
unsigned 64-bit value to a signed one. -/
def arg : Overload → BindArg
  | bool v => .int (if v then 1 else 0)
  | int v => .int v
  | uint32 v => .int64 (Int64.ofNat v.toNat)
  | long v => .int64 v
  | unsignedLong v => .int64 (Int64.ofNat v.toNat)
  | longLong v => .int64 v
  | unsignedLongLong v => .int64 (Int64.ofNat v.toNat)
  | string b => .text b (Int32.ofNat b.length)
  | blob b => if b.isEmpty then .zeroblob 0 else .blob b (Int32.ofNat b.length)

/-- The integer that a value denotes. -/
def integer? : Overload → Option ℤ
  | bool v => some (if v then 1 else 0)
  | int v => some v.toInt
  | uint32 v => some v.toNat
  | long v | longLong v => some v.toInt
  | unsignedLong v | unsignedLongLong v => some v.toNat
  | string _ | blob _ => none

/-- SQLite holds the value: the same integer, or the same bytes. -/
def Same (o : Overload) : Value → Prop
  | .integer i => o.integer? = some i.toInt
  | .text b => o = string b
  | .blob b => o = blob b
  | .null | .real _ => False

instance (o : Overload) : (v : Value) → Decidable (o.Same v)
  | .integer i => inferInstanceAs (Decidable (o.integer? = some i.toInt))
  | .text b => inferInstanceAs (Decidable (o = string b))
  | .blob b => inferInstanceAs (Decidable (o = blob b))
  | .null | .real _ => inferInstanceAs (Decidable False)

/-- The condition under which a value is bound as it is, or not at all, when SQLite takes lengths up
to `limit`: an unsigned value has a signed one; a length is that of an `int`, or what the `int` makes
of it is beyond the limit. A negative length of a string reaches to its first NUL. -/
def Kept (limit : ℕ) : Overload → Prop
  | unsignedLong v | unsignedLongLong v => v.toNat < 2 ^ 63
  | string b => b.length < 2 ^ 31 ∨
    if b.length % 2 ^ 32 < 2 ^ 31 then limit < b.length % 2 ^ 32 else 0 ∉ b ∨ limit < (cstr b).length
  | blob b => b.length < 2 ^ 31 ∨ (b.length % 2 ^ 32 < 2 ^ 31 ∧ limit < b.length % 2 ^ 32)
  | _ => True

end Overload

/-- What SQLite documents about the binding interface: the value that is bound, when it is. A
negative length of a text reaches to the first NUL; for a blob nothing is promised then. -/
structure BindRules (limit : ℕ) (bind : BindArg → Except Bytes Value) : Prop where
  int : ∀ v u, bind (.int v) = .ok u → u = .integer v.toInt64
  int64 : ∀ v u, bind (.int64 v) = .ok u → u = .integer v
  text : ∀ p n u, bind (.text p n) = .ok u → ¬ n < 0 →
    u = .text (p.take n.toNatClampNeg) ∧ (p.take n.toNatClampNeg).length ≤ limit
  textNul : ∀ p n u, bind (.text p n) = .ok u → n < 0 → u = .text (cstr p) ∧ (cstr p).length ≤ limit
  blob : ∀ p n u, bind (.blob p n) = .ok u → ¬ n < 0 →
    u = .blob (p.take n.toNatClampNeg) ∧ (p.take n.toNatClampNeg).length ≤ limit
  zeroblob : ∀ u, bind (.zeroblob 0) = .ok u → u = .blob []

namespace Overload
variable {limit : ℕ} {bind : BindArg → Except Bytes Value} {o : Overload}

lemma int32_length (n : ℕ) : (Int32.ofNat n < 0 ↔ ¬ n % 2 ^ 32 < 2 ^ 31) ∧
    (n % 2 ^ 32 < 2 ^ 31 → (Int32.ofNat n).toNatClampNeg = n % 2 ^ 32) := by
  have hint : (Int32.ofNat n).toInt = (n : ℤ).bmod (2 ^ 32) := Int32.toInt_ofNat'
  have hclamp : (Int32.ofNat n).toNatClampNeg = (Int32.ofNat n).toInt.toNat := rfl
  have hbmod : (n : ℤ).bmod (2 ^ 32) =
      if n % 2 ^ 32 < 2 ^ 31 then ((n % 2 ^ 32 : ℕ) : ℤ) else ((n % 2 ^ 32 : ℕ) : ℤ) - 2 ^ 32 := by
    have hsize : ((2 ^ 32 : ℕ) : ℤ) = 4294967296 := rfl
    rw [Int.bmod_def, hsize]
    split_ifs <;> omega
  rw [Int32.lt_iff_toInt_lt, hclamp, hint, hbmod]
  constructor
  · split_ifs with h <;> simp <;> omega
  · intro h
    rw [if_pos h]
    exact Int.toNat_natCast _

lemma toInt_unsigned (v : UInt64) : (Int64.ofNat v.toNat).toInt = v.toNat ↔ v.toNat < 2 ^ 63 := by
  have hlt := v.toNat_lt
  have hsize : (Int64.size : ℤ) = 18446744073709551616 := rfl
  rw [Int64.toInt_ofNat', Int.bmod_def, hsize]
  split_ifs <;> omega

lemma take_length_iff {b : Bytes} (h : b.length % 2 ^ 32 < 2 ^ 31) :
    b.take (b.length % 2 ^ 32) = b ↔ b.length < 2 ^ 31 := by
  constructor
  · intro heq
    have hlen := congrArg List.length heq
    rw [List.length_take] at hlen
    omega
  · intro hsmall
    exact List.take_of_length_le (by omega)

lemma same_string (hb : BindRules limit bind) {b : Bytes} (h : (string b).Kept limit) {u : Value}
    (hu : bind (string b).arg = .ok u) : (string b).Same u := by
  obtain ⟨hneg, hclamp⟩ := int32_length b.length
  simp only [arg] at hu
  by_cases hlow : b.length % 2 ^ 32 < 2 ^ 31
  · obtain ⟨rfl, hlen⟩ := hb.text b _ u hu (by rw [hneg]; exact not_not.mpr hlow)
    rw [hclamp hlow] at hlen ⊢
    have hsmall : b.length < 2 ^ 31 := by
      refine h.resolve_right fun hbig => ?_
      rw [if_pos hlow] at hbig
      rw [List.length_take, min_eq_left (Nat.mod_le _ _)] at hlen
      omega
    rw [(take_length_iff hlow).mpr hsmall]
    exact rfl
  · obtain ⟨rfl, hlen⟩ := hb.textNul b _ u hu (hneg.mpr hlow)
    have hbig := h.resolve_left (by omega)
    rw [if_neg hlow] at hbig
    rw [cstr_eq_self (hbig.resolve_right (by omega))]
    exact rfl

lemma same_blob (hb : BindRules limit bind) {b : Bytes} (h : (blob b).Kept limit) {u : Value}
    (hu : bind (blob b).arg = .ok u) : (blob b).Same u := by
  obtain ⟨hneg, hclamp⟩ := int32_length b.length
  simp only [arg] at hu
  cases hb' : b.isEmpty with
  | true =>
    obtain rfl : b = [] := by simpa using hb'
    obtain rfl := hb.zeroblob u hu
    exact rfl
  | false =>
    rw [hb', if_neg (by simp)] at hu
    have hlow : b.length % 2 ^ 32 < 2 ^ 31 := by
      obtain hsmall | ⟨hlow, -⟩ := h <;> omega
    obtain ⟨rfl, hlen⟩ := hb.blob b _ u hu (by rw [hneg]; exact not_not.mpr hlow)
    rw [hclamp hlow] at hlen ⊢
    have hsmall : b.length < 2 ^ 31 := by
      refine h.resolve_right fun hbig => ?_
      rw [List.length_take, min_eq_left (Nat.mod_le _ _)] at hlen
      omega
    rw [(take_length_iff hlow).mpr hsmall]
    exact rfl

/-- A value that is kept is bound as it is. -/
theorem same_of_kept (hb : BindRules limit bind) (h : o.Kept limit) {u : Value}
    (hu : bind o.arg = .ok u) : o.Same u := by
  cases o with
  | bool v =>
    obtain rfl := hb.int _ u hu
    cases v <;> decide
  | int v =>
    obtain rfl := hb.int _ u hu
    simp [Same, integer?]
  | uint32 v =>
    obtain rfl := hb.int64 _ u hu
    have hlt := v.toNat_lt
    simp only [Same, integer?]
    rw [Int64.toInt_ofNat_of_lt (by omega)]
  | long v =>
    obtain rfl := hb.int64 _ u hu
    exact rfl
  | longLong v =>
    obtain rfl := hb.int64 _ u hu
    exact rfl
  | unsignedLong v =>
    obtain rfl := hb.int64 _ u hu
    simp only [Same, integer?]
    rw [(toInt_unsigned v).mpr h]
  | unsignedLongLong v =>
    obtain rfl := hb.int64 _ u hu
    simp only [Same, integer?]
    rw [(toInt_unsigned v).mpr h]
  | string b => exact same_string hb h hu
  | blob b => exact same_blob hb h hu

/-- A SQLite that takes lengths up to `limit`, and stores nothing where nothing is promised. -/
def lenient (limit : ℕ) : BindArg → Except Bytes Value
  | .blob p n => if n < 0 then .ok .null else { Reference.decisions with lengthLimit := limit }.bind (.blob p n)
  | a => { Reference.decisions with lengthLimit := limit }.bind a

lemma sized_ok {D : Decisions} {make : Bytes → Value} {b : Bytes} {u : Value}
    (h : Decisions.bind.sized D make b = .ok u) : u = make b ∧ b.length ≤ D.lengthLimit := by
  unfold Decisions.bind.sized at h
  split_ifs at h with hlen
  cases h
  exact ⟨rfl, hlen⟩

lemma lenient_rules (limit : ℕ) : BindRules limit (lenient limit) where
  int v u h := (Except.ok.inj h).symm
  int64 v u h := (Except.ok.inj h).symm
  text p n u h hn := by
    simp only [lenient, Decisions.bind, if_neg hn] at h
    exact sized_ok h
  textNul p n u h hn := by
    simp only [lenient, Decisions.bind, if_pos hn] at h
    exact sized_ok h
  blob p n u h hn := by
    simp only [lenient, Decisions.bind, if_neg hn] at h
    exact sized_ok h
  zeroblob u h := by
    simp only [lenient, Decisions.bind] at h
    exact (sized_ok h).1

lemma lenient_differs (h : ¬ o.Kept limit) : ∃ u, lenient limit o.arg = .ok u ∧ ¬ o.Same u := by
  cases o with
  | unsignedLong v =>
    refine ⟨_, rfl, fun hsame => h ?_⟩
    exact (toInt_unsigned v).mp (Option.some.inj hsame).symm
  | unsignedLongLong v =>
    refine ⟨_, rfl, fun hsame => h ?_⟩
    exact (toInt_unsigned v).mp (Option.some.inj hsame).symm
  | string b =>
    obtain ⟨hneg, hclamp⟩ := int32_length b.length
    obtain ⟨hlarge, hrest⟩ := not_or.mp h
    by_cases hlow : b.length % 2 ^ 32 < 2 ^ 31
    · rw [if_pos hlow] at hrest
      refine ⟨.text (b.take (b.length % 2 ^ 32)), ?_, fun hsame => ?_⟩
      · simp only [arg, lenient, Decisions.bind, hneg, hlow, not_true_eq_false, if_false, hclamp hlow,
          Decisions.bind.sized]
        rw [if_pos (by rw [List.length_take]; omega)]
      · exact hlarge ((take_length_iff hlow).mp (Overload.string.inj hsame).symm)
    · rw [if_neg hlow, not_or, not_not] at hrest
      refine ⟨.text (cstr b), ?_, fun hsame => ?_⟩
      · simp only [arg, lenient, Decisions.bind, hneg, hlow, not_false_eq_true, if_true,
          Decisions.bind.sized]
        rw [if_pos (by omega)]
      · have heq : b = cstr b := Overload.string.inj hsame
        have hnul := hrest.1
        rw [heq] at hnul
        exact nul_cstr b hnul
  | blob b =>
    obtain ⟨hneg, hclamp⟩ := int32_length b.length
    obtain ⟨hlarge, hrest⟩ := not_or.mp h
    have hb : b.isEmpty = false := by
      cases b with
      | nil => exact absurd (by simp) hlarge
      | cons a b => rfl
    by_cases hlow : b.length % 2 ^ 32 < 2 ^ 31
    · refine ⟨.blob (b.take (b.length % 2 ^ 32)), ?_, fun hsame => ?_⟩
      · simp only [arg, hb, Bool.false_eq_true, if_false, lenient, Decisions.bind, hneg, hlow,
          not_true_eq_false, hclamp hlow, Decisions.bind.sized]
        rw [if_pos (by rw [List.length_take]; omega)]
      · exact hlarge ((take_length_iff hlow).mp (Overload.blob.inj hsame).symm)
    · refine ⟨.null, ?_, id⟩
      simp only [arg, hb, Bool.false_eq_true, if_false, lenient, hneg, hlow, not_false_eq_true, if_true]
  | _ => exact absurd trivial h

end Overload

namespace MiniSQLite
variable {E : Engine}

lemma bindPrep_bound {table : Bytes} {idx : ℕ} {arg : BindArg} {db : MiniSQLite} {c : Conn E}
    (h : ((bindPrep table idx arg).invoke (Conn.answer E) db c).1.isOk = true) :
    ∃ s u, ((bindPrep table idx arg).invoke (Conn.answer E) db c).2.1.dStmts table = some s ∧
      s.binds[idx - 1]? = some u ∧ E.bind arg = .ok u := by
  cases hs : db.dStmts table with
  | none =>
    unfold bindPrep at h
    rw [invoke_bind, invoke_get] at h
    simp only [hs] at h
    cases h
  | some s =>
    by_cases hbusy : s.busy = true
    · unfold bindPrep at h
      rw [invoke_bind, invoke_get] at h
      simp only [hs, hbusy, if_true] at h
      cases h
    · rw [invoke_bindPrep db c table idx arg hs (by simpa using hbusy)] at h ⊢
      unfold bindOne at h ⊢
      by_cases hidx : idx = 0 ∨ s.binds.length < idx
      · rw [if_pos hidx] at h
        cases h
      · simp only [if_neg hidx] at h ⊢
        cases hbind : E.bind arg with
        | error e =>
          rw [hbind] at h
          cases h
        | ok u =>
          refine ⟨{ s with binds := s.binds.set (idx - 1) u }, u, by simp, ?_, rfl⟩
          simp only
          rw [List.getElem?_set_self (by omega)]

/-- For an overload and a value of it: every SQLite that keeps to its documentation is given the
value as it is, or the call throws, if and only if the value is kept. -/
theorem bindPrep_faithful_iff (limit : ℕ) (o : Overload) :
    (∀ E : Engine, BindRules limit E.bind → ∀ (db : MiniSQLite) (c : Conn E) (table : Bytes) (idx : ℕ),
      ((bindPrep table idx o.arg).invoke (Conn.answer E) db c).1.isOk = true →
      ∃ s u, ((bindPrep table idx o.arg).invoke (Conn.answer E) db c).2.1.dStmts table = some s ∧
        s.binds[idx - 1]? = some u ∧ o.Same u) ↔ o.Kept limit := by
  constructor
  · intro hall
    by_contra hnot
    obtain ⟨u, hu, hdiffers⟩ := Overload.lenient_differs hnot
    -- A statement with one parameter, of a SQLite that binds another value.
    let E : Engine := { Reference.engine with bind := Overload.lenient limit }
    let s : Stmt := ⟨ascii "?", [.null], false⟩
    have hbound : (bindPrep [] 1 o.arg).invoke (Conn.answer E) ⟨fun _ => some s, false⟩
        ⟨Db.empty, Db.empty, true, none, ⟨0, 0⟩, [], false⟩ = _ := invoke_bindPrep _ _ _ 1 o.arg (s := s) rfl rfl
    have hone : bindOne E s.binds 1 o.arg = (.ok (), [u]) := by
      simp [bindOne, s, E, hu]
    rw [hone] at hbound
    obtain ⟨s', u', hs', hu', hsame⟩ := hall E (Overload.lenient_rules limit) ⟨fun _ => some s, false⟩
      ⟨Db.empty, Db.empty, true, none, ⟨0, 0⟩, [], false⟩ [] 1 (by rw [hbound]; rfl)
    rw [hbound] at hs'
    obtain rfl : _ = s' := by simpa using hs'
    obtain rfl : u = u' := by simpa using hu'
    exact hdiffers hsame
  · intro h E hb db c table idx hok
    obtain ⟨s, u, hs, hbound, hu⟩ := bindPrep_bound hok
    exact ⟨s, u, hs, hbound, Overload.same_of_kept hb h hu⟩

/-- The overload for `unsigned long` binds `2 ^ 63` as its negative. -/
theorem unsigned_bound_negative :
    let o := Overload.unsignedLong 9223372036854775808
    let r := (bindPrep (ascii "t") 1 o.arg).invoke (Conn.answer Reference.engine)
      ⟨fun _ => some ⟨ascii "?", [.null], false⟩, false⟩ ⟨Db.empty, Db.empty, true, none, ⟨0, 0⟩, [], false⟩
    o.integer? = some (2 ^ 63) ∧ r.1.isOk = true ∧
      r.2.1.dStmts (ascii "t") = some ⟨ascii "?", [.integer (-9223372036854775808)], false⟩ ∧
      ¬ o.Same (.integer (-9223372036854775808)) := by
  decide

end MiniSQLite
end SqliteWrite
