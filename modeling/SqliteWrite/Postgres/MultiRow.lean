import SqliteWrite.Postgres.Catalog
import SqliteWrite.Postgres.Schemas

/-! The `INSERT` of many rows. Its text numbers the placeholders as the parameters are listed, and it does
what one `INSERT` for each message would do, or is rejected where one of these would be. -/
namespace SqliteWrite.Psql
open Reading

/-- The text that PostgreSQL gets for a field of a message: a C string, or nothing. -/
def Message.sent (m : Message) (field : Bytes) : Option Bytes := (m.find field).map fun v => cstr (valueText v)

lemma Message.sent_none (m : Message) {field : Bytes} (h : field ∉ m.keys) : m.sent field = none := by
  cases hv : m.find field with
  | none => simp [Message.sent, hv]
  | some v => exact absurd (m.mem_keys.mpr ⟨v, hv⟩) h

section Parameters

lemma mapM_parameters (pre row post : List (Option Bytes)) :
    (List.range' (pre.length + 1) row.length).mapM (parameter (pre ++ row ++ post)) = some row := by
  induction row generalizing pre with
  | nil => rfl
  | cons x row ih =>
    have hx : parameter (pre ++ x :: row ++ post) (pre.length + 1) = some x := by
      simp [parameter]
    have hrow := ih (pre ++ [x])
    simp only [List.length_append, List.length_singleton, List.append_assoc, List.cons_append,
      List.nil_append] at hrow hx
    simp [List.range'_succ, hx, hrow]

lemma mapM_numbers {α β : Type} {k : ℕ} (value : α → List (Option Bytes)) (g : List (Option Bytes) → Option β)
    (work : List α) (hk : ∀ m ∈ work, (value m).length = k) (pre : List (Option Bytes)) :
    ((numbers k (pre.length + 1) work.length).mapM fun ns =>
      (ns.mapM (parameter (pre ++ work.flatMap value))).bind g) = work.mapM fun m => g (value m) := by
  induction work generalizing pre with
  | nil => rfl
  | cons m work ih =>
    have hm := hk m List.mem_cons_self
    have hrow := mapM_parameters pre (value m) (work.flatMap value)
    have hnext := ih (fun m' hm' => hk m' (List.mem_cons_of_mem _ hm')) (pre ++ value m)
    rw [hm] at hrow
    rw [List.length_append, hm, Nat.add_right_comm] at hnext
    simp only [List.append_assoc] at hrow hnext
    simp [numbers, hrow, hnext]

lemma foldr_max_range' (s n : ℕ) (hs : 0 < s) :
    (List.range' s n).foldr max 0 = if n = 0 then 0 else s + n - 1 := by
  induction n generalizing s with
  | zero => rfl
  | succ n ih =>
    rw [List.range'_succ, List.foldr_cons, ih (s + 1) (by omega), if_neg (Nat.succ_ne_zero n)]
    split_ifs with hn
    · rw [hn]
      exact Nat.max_eq_left (Nat.zero_le s)
    · rw [Nat.max_eq_right (by omega)]
      omega

end Parameters

section Records
variable {V : Type} (D : Dialect V) (t : Table V)

/-- What a column of the table gets for a text, where it accepts it. -/
def Table.cellOf (column : Bytes) (value : Option Bytes) : Option (Option V) :=
  (t.type column).bind fun type => D.cell type value

/-- The row with the values of these fields. -/
def Table.image (fields : List Bytes) (value : Bytes → Option Bytes) : Record V := fun c =>
  (fields.find? fun f => fold f = c).bind fun f => (t.cellOf D c (value f)).join

/-- Whether each column accepts its value. -/
def Table.takes (fields : List Bytes) (value : Bytes → Option Bytes) : Bool :=
  fields.all fun f => (t.cellOf D (fold f) (value f)).isSome

lemma record_eq (fields : List Bytes) (value : Bytes → Option Bytes) :
    t.record D (fields.map fold) (fields.map value) =
      if t.takes D fields value then some (t.image D fields value) else none := by
  induction fields with
  | nil => simp [Table.record, Table.takes, Table.image, funext_iff]
  | cons f fields ih =>
    have hstep : t.record D ((f :: fields).map fold) ((f :: fields).map value) =
        (t.cellOf D (fold f) (value f)).bind fun x => (t.record D (fields.map fold) (fields.map value)).bind
          fun r => some (Function.update r (fold f) x) := by
      simp only [List.map_cons, Table.record, Table.cellOf, Option.bind_assoc, Option.bind_eq_bind]
    have htakes : t.takes D (f :: fields) value =
        ((t.cellOf D (fold f) (value f)).isSome && t.takes D fields value) := by
      simp [Table.takes]
    rw [hstep, ih, htakes]
    cases hcell : t.cellOf D (fold f) (value f) with
    | none => rfl
    | some x =>
      cases htake : t.takes D fields value with
      | false => rfl
      | true =>
        refine congrArg some (funext fun c => ?_)
        by_cases hc : fold f = c
        · subst hc
          simp [Table.image, hcell]
        · rw [Function.update_of_ne (Ne.symm hc)]
          simp [Table.image, hc]

lemma find_fold {fields : List Bytes} (hinj : ∀ f ∈ fields, ∀ g ∈ fields, fold f = fold g → f = g) {f : Bytes}
    (hf : f ∈ fields) : (fields.find? fun g => fold g = fold f) = some f := by
  cases hg : fields.find? fun g => fold g = fold f with
  | none => exact absurd (List.find?_eq_none.mp hg f hf) (by simp)
  | some g =>
    have hfold : fold g = fold f := by simpa using List.find?_some hg
    rw [hinj g (List.mem_of_find?_eq_some hg) f hf hfold]

/-- A row that names more fields, without a value for these, is the same row. -/
lemma image_congr {fields keys : List Bytes} {value : Bytes → Option Bytes} (hsub : ∀ f ∈ keys, f ∈ fields)
    (hinj : ∀ f ∈ fields, ∀ g ∈ fields, fold f = fold g → f = g) (hnull : ∀ f ∉ keys, value f = none) :
    t.image D fields value = t.image D keys value := by
  have hkeysInj : ∀ f ∈ keys, ∀ g ∈ keys, fold f = fold g → f = g := fun f hf g hg =>
    hinj f (hsub f hf) g (hsub g hg)
  funext c
  unfold Table.image
  by_cases h : ∃ f ∈ keys, fold f = c
  · obtain ⟨f, hf, rfl⟩ := h
    rw [find_fold hinj (hsub f hf), find_fold hkeysInj hf]
  · have hkeys : keys.find? (fun f => fold f = c) = none := by
      apply List.find?_eq_none.mpr
      intro f hf
      simpa using fun hc => h ⟨f, hf, hc⟩
    rw [hkeys]
    cases hfields : fields.find? fun f => fold f = c with
    | none => rfl
    | some f =>
      have hfold : fold f = c := by simpa using List.find?_some hfields
      have hvalue : value f = none := hnull f fun hf => h ⟨f, hf, hfold⟩
      rw [Option.bind_some, Option.bind_none, hvalue]
      unfold Table.cellOf
      cases t.type c <;> rfl

end Records

section Answers
variable {V : Type} {D : Dialect V}

lemma params_insert (table : Bytes) (fields : List Bytes) (work : List Message) :
    (Statement.insert table fields work).params = some (work.flatMap fun m => fields.map m.sent) := by
  have hrow : ∀ m : Message, fields.map m.sent = (fields.map fun f => (m.find f).map valueText).map (Option.map cstr) := by
    intro m
    simp [Message.sent, Function.comp_def]
  simp only [hrow, Statement.params, allstrings, List.map_flatMap]

lemma params_length (fields : List Bytes) (work : List Message) :
    (work.flatMap fun m => fields.map m.sent).length = work.length * fields.length := by
  induction work with
  | nil => simp
  | cons m work ih => simp [ih, Nat.succ_mul, Nat.add_comm]

lemma mapM_ite {α β : Type} (p : α → Bool) (f : α → β) (xs : List α) :
    (xs.mapM fun x => if p x then some (f x) else none) = if xs.all p then some (xs.map f) else none := by
  induction xs with
  | nil => rfl
  | cons x xs ih =>
    rw [List.mapM_cons, ih, List.all_cons]
    cases p x with
    | false => rfl
    | true => cases xs.all p <;> rfl

lemma insert_rows (t : Table V) {fields : List Bytes} (work : List Message)
    (hne : fields ≠ []) (hnodup : (fields.map fold).Nodup) :
    t.insert D (work.flatMap fun m => fields.map m.sent) (fields.map fold)
      (numbers fields.length 1 work.length) =
      if work.all fun m => t.takes D fields m.sent then
        some (t.append (work.map fun m => t.image D fields m.sent)) else none := by
  have hpos : fields.length ≠ 0 := fun h => hne (List.eq_nil_of_length_eq_zero h)
  have hmax : (numbers fields.length 1 work.length).flatten.foldr max 0 =
      (work.flatMap fun m => fields.map m.sent).length := by
    rw [numbers_flatten, foldr_max_range' 1 _ (by omega), params_length]
    split_ifs with h
    · exact h.symm
    · omega
  have hrows := mapM_numbers (fun m : Message => fields.map m.sent) (t.record D (fields.map fold)) work
    (fun m _ => List.length_map m.sent) []
  simp only [List.nil_append, List.length_nil, Nat.zero_add] at hrows
  unfold Table.insert
  rw [if_pos ⟨hnodup, hmax⟩, hrows]
  simp only [record_eq]
  rw [mapM_ite]
  split_ifs <;> rfl

lemma answer_insert {table : Bytes} {fields : List Bytes} {work : List Message} (ht : Identifier D.reserved table)
    (hf : ∀ f ∈ fields, Identifier D.reserved f) (hne : fields ≠ []) (hwork : work ≠ [])
    (hnodup : (fields.map fold).Nodup) (hlimit : work.length * fields.length ≤ 65535) (db : Db V) :
    D.server.answer (.insert table fields work) db =
      match db (fold table) with
      | none => (.error [], db)
      | some t =>
        if work.all fun m => t.takes D fields m.sent then
          (.ok [], db.put (fold table) (t.append (work.map fun m => t.image D fields m.sent)))
        else (.error [], db) := by
  have hn : work.length ≠ 0 := fun h => hwork (List.eq_nil_of_length_eq_zero h)
  have h0 : (0 : UInt8) ∉ insertText table fields work.length := by
    simp [insertText, ascii, ht.nul, nul_nameList hf true, nul_markRows fields true 1 work.length]
  have hread := read_insert ht hf hne hn
  unfold Server.answer
  rw [params_insert]
  change (if _ ≤ 65535 then D.reply db (cstr (insertText table fields work.length)) _ else _) = _
  rw [params_length, if_pos hlimit, cstr_eq_self h0]
  unfold Dialect.reply
  rw [hread, Option.bind_some]
  unfold Dialect.run
  cases hdb : db (fold table) with
  | none =>
    simp only [hdb, Option.bind_none]
    rfl
  | some t =>
    simp only [hdb, Option.bind_some, insert_rows t work hne hnodup]
    split_ifs <;> rfl

end Answers

section Text

/-- The text of one row of placeholders. -/
def rowText (ns : List ℕ) : Bytes :=
  ascii "(" ++ (ascii ",").intercalate (ns.map fun n => ascii "$" ++ decimal n) ++ ascii ")"

/-- The text of an `INSERT` with these placeholders. -/
def insertMarks (table : Bytes) (fields : List Bytes) (nss : List (List ℕ)) : Bytes :=
  ascii "insert into " ++ table ++ ascii " (" ++ (ascii ",").intercalate fields ++ ascii ") values " ++
    (ascii ",").intercalate (nss.map rowText)

lemma intercalate_cons (sep x : Bytes) (xs : List Bytes) :
    sep.intercalate (x :: xs) = x ++ xs.flatMap fun y => sep ++ y := by
  induction xs generalizing x with
  | nil => simp
  | cons y xs ih => rw [List.intercalate_cons_cons, ih]; simp

lemma nameList_false (fields : List Bytes) : nameList false fields = fields.flatMap fun f => ascii "," ++ f := by
  induction fields with
  | nil => rfl
  | cons f fields ih => simp [nameList, comma, ih]

lemma markRow_false (fields : List Bytes) (ctr : ℕ) : (markRow false ctr fields).1 =
    ((List.range' ctr fields.length).map fun n => ascii "$" ++ decimal n).flatMap fun y => ascii "," ++ y := by
  induction fields generalizing ctr with
  | nil => rfl
  | cons f fields ih => simp [markRow, comma, ih, List.range'_succ]

lemma markRow_text {fields : List Bytes} (hne : fields ≠ []) (ctr : ℕ) :
    ascii "(" ++ (markRow true ctr fields).1 ++ ascii ")" = rowText (List.range' ctr fields.length) := by
  cases fields with
  | nil => exact absurd rfl hne
  | cons f fields =>
    unfold rowText
    rw [List.length_cons, List.range'_succ, List.map_cons, intercalate_cons, ← markRow_false]
    simp [markRow, comma]

lemma markRows_false {fields : List Bytes} (hne : fields ≠ []) (ctr n : ℕ) : markRows fields false ctr n =
    ((numbers fields.length ctr n).map rowText).flatMap fun y => ascii "," ++ y := by
  induction n generalizing ctr with
  | zero => rfl
  | succ n ih =>
    rw [markRows, List.append_assoc (comma false), List.append_assoc (comma false), markRow_text hne, markRow_ctr, ih]
    simp [numbers, comma]

lemma insertText_eq (table : Bytes) {fields : List Bytes} (hne : fields ≠ []) (n : ℕ) :
    insertText table fields n = insertMarks table fields (numbers fields.length 1 n) := by
  have hnames : nameList true fields = (ascii ",").intercalate fields := by
    obtain ⟨f, fields, rfl⟩ := List.exists_cons_of_ne_nil hne
    rw [intercalate_cons, ← nameList_false]
    simp [nameList, comma]
  have hrows : markRows fields true 1 n = (ascii ",").intercalate ((numbers fields.length 1 n).map rowText) := by
    cases n with
    | zero => rfl
    | succ n =>
      rw [numbers, List.map_cons, intercalate_cons, ← markRows_false hne, ← markRow_text hne]
      simp [markRows, comma, markRow_ctr]
  unfold insertText insertMarks
  rw [hnames, hrows]

end Text

section OneByOne
variable {V : Type} (D : Dialect V)

/-- An `INSERT` for one message, which names only its fields; without any it is a row of NULLs. -/
def insertOne (table : Bytes) (db : Db V) (m : Message) : Option (Db V) :=
  if m.keys = [] then (db (fold table)).map fun t => db.put (fold table) (t.append [fun _ => none])
  else
    match D.server.answer (.insert table m.keys [m]) db with
    | (.ok _, db') => some db'
    | (.error _, _) => none

/-- A row that holds a message: each field's column has the value of its text, and every other is NULL. -/
def Holds (t : Table V) (m : Message) (r : Record V) : Prop :=
  (∀ f v, m.find f = some v → ∃ type x, t.type (fold f) = some type ∧
    D.input type (cstr (valueText v)) = some x ∧ r (fold f) = some x) ∧
  ∀ c, (∀ f ∈ m.keys, fold f ≠ c) → r c = none

/-- Messages for a table, the names of which PostgreSQL reads as different identifiers. -/
structure Legible (table : Bytes) (work : List Message) : Prop where
  table : Identifier D.reserved table
  fields : ∀ m ∈ work, ∀ f ∈ m.keys, Identifier D.reserved f
  distinct : ∀ m ∈ work, ∀ f ∈ m.keys, ∀ m' ∈ work, ∀ g ∈ m'.keys, fold f = fold g → f = g

variable {D} {table : Bytes}

lemma nodup_fold {fields : List Bytes} (hnodup : fields.Nodup)
    (hinj : ∀ f ∈ fields, ∀ g ∈ fields, fold f = fold g → f = g) : (fields.map fold).Nodup :=
  List.Nodup.map_on hinj hnodup

lemma Legible.one {work : List Message} (h : Legible D table work) {m : Message} (hm : m ∈ work) :
    Legible D table [m] := by
  refine ⟨h.table, ?_, ?_⟩
  · intro m' hm'
    rw [List.mem_singleton.mp hm']
    exact h.fields m hm
  · intro m₁ h₁ f hf m₂ h₂ g hg
    rw [List.mem_singleton.mp h₁] at hf
    rw [List.mem_singleton.mp h₂] at hg
    exact h.distinct m hm f hf m hm g hg

lemma image_nil (t : Table V) (value : Bytes → Option Bytes) : t.image D [] value = fun _ => none := rfl

lemma append_takes (t : Table V) (rs : List (Record V)) : (t.append rs).takes D = t.takes D := rfl

lemma append_image (t : Table V) (rs : List (Record V)) : (t.append rs).image D = t.image D := rfl

lemma insertOne_eq {m : Message} (h : Legible D table [m]) (hlimit : m.keys.length ≤ 65535) {db : Db V}
    {t : Table V} (hdb : db (fold table) = some t) : insertOne D table db m =
      if t.takes D m.keys m.sent then some (db.put (fold table) (t.append [t.image D m.keys m.sent])) else none := by
  unfold insertOne
  by_cases hk : m.keys = []
  · rw [if_pos hk, hdb, hk, image_nil]
    rfl
  · have hm : m ∈ [m] := List.mem_singleton_self m
    have hnodup := nodup_fold m.nodup fun f hf g hg => h.distinct m hm f hf m hm g hg
    have hanswer := answer_insert h.table (h.fields m hm) hk (List.cons_ne_nil m []) hnodup (by simpa using hlimit) db
    rw [if_neg hk, hanswer, hdb]
    simp only [List.all_cons, List.all_nil, Bool.and_true, List.map_cons, List.map_nil]
    split_ifs <;> rfl

lemma insertOne_none {m : Message} (h : Legible D table [m]) (hlimit : m.keys.length ≤ 65535) {db : Db V}
    (hdb : db (fold table) = none) : insertOne D table db m = none := by
  unfold insertOne
  by_cases hk : m.keys = []
  · rw [if_pos hk, hdb]
    rfl
  · have hm : m ∈ [m] := List.mem_singleton_self m
    have hnodup := nodup_fold m.nodup fun f hf g hg => h.distinct m hm f hf m hm g hg
    have hanswer := answer_insert h.table (h.fields m hm) hk (List.cons_ne_nil m []) hnodup (by simpa using hlimit) db
    rw [if_neg hk, hanswer, hdb]

lemma foldlM_insertOne {work : List Message} (h : ∀ m ∈ work, Legible D table [m])
    (hlimit : ∀ m ∈ work, m.keys.length ≤ 65535) {db : Db V} {t : Table V} (hdb : db (fold table) = some t) :
    work.foldlM (insertOne D table) db = if work.all fun m => t.takes D m.keys m.sent then
      some (db.put (fold table) (t.append (work.map fun m => t.image D m.keys m.sent))) else none := by
  induction work generalizing db t with
  | nil => simp [Table.append_nil, Db.put_eq_self hdb]
  | cons m work ih =>
    have hone := insertOne_eq (h m List.mem_cons_self) (hlimit m List.mem_cons_self) hdb
    have hnext := ih (fun m' hm' => h m' (List.mem_cons_of_mem _ hm'))
      (fun m' hm' => hlimit m' (List.mem_cons_of_mem _ hm')) (db.put_self (fold table)
        (t.append [t.image D m.keys m.sent]))
    rw [append_takes, append_image, Db.put_put, Table.append_append] at hnext
    rw [List.foldlM_cons, hone, List.all_cons]
    cases t.takes D m.keys m.sent with
    | false => rfl
    | true => exact hnext

lemma cellOf_none (t : Table V) {column : Bytes} {value : Option Bytes} (h : (t.cellOf D column value).isSome) :
    (t.cellOf D column none).isSome := by
  unfold Table.cellOf at h ⊢
  cases ht : t.type column with
  | none => rw [ht] at h; cases h
  | some type => rfl

lemma takes_union (t : Table V) {fields : List Bytes} {work : List Message}
    (hfields : ∀ f, f ∈ fields ↔ ∃ m ∈ work, f ∈ m.keys) :
    (work.all fun m => t.takes D fields m.sent) = work.all fun m => t.takes D m.keys m.sent := by
  apply Bool.eq_iff_iff.mpr
  simp only [List.all_eq_true, Table.takes]
  constructor
  · intro h m hm f hf
    exact h m hm f ((hfields f).mpr ⟨m, hm, hf⟩)
  · intro h m hm f hf
    by_cases hk : f ∈ m.keys
    · exact h m hm f hk
    · obtain ⟨m', hm', hf'⟩ := (hfields f).mp hf
      rw [m.sent_none hk]
      exact cellOf_none t (h m' hm' f hf')

lemma holds_image {t : Table V} {m : Message} (hinj : ∀ f ∈ m.keys, ∀ g ∈ m.keys, fold f = fold g → f = g)
    (htakes : t.takes D m.keys m.sent = true) : Holds D t m (t.image D m.keys m.sent) := by
  constructor
  · intro f v hv
    have hf : f ∈ m.keys := m.mem_keys.mpr ⟨v, hv⟩
    have hcell := List.all_eq_true.mp htakes f hf
    have hsent : m.sent f = some (cstr (valueText v)) := by simp [Message.sent, hv]
    have hfind := find_fold hinj hf
    rw [hsent] at hcell
    unfold Table.image
    rw [hfind, Option.bind_some, hsent]
    unfold Table.cellOf Dialect.cell at hcell ⊢
    cases htype : t.type (fold f) with
    | none => simp [htype] at hcell
    | some type =>
      rw [htype] at hcell
      obtain ⟨x, hx⟩ := Option.isSome_iff_exists.mp (by simpa using hcell)
      exact ⟨type, x, rfl, hx, by simp [hx]⟩
  · intro c hc
    have hfind : m.keys.find? (fun f => fold f = c) = none := by
      apply List.find?_eq_none.mpr
      intro f hf
      simpa using hc f hf
    unfold Table.image
    rw [hfind]
    rfl

/-- The `INSERT` of a batch: its placeholders are numbered as its parameters are listed; and where the names
are legible and the parameters are not too many, it adds a row for each message, in order, and does what
one `INSERT` for each message does, or it is rejected and changes nothing, as one of these is. -/
theorem inserts_each_message (H : HashOrder) {work : List Message} (hsome : ∃ m ∈ work, m.keys ≠ []) :
    let fields := H.ofSet (fieldsOf H work)
    let st := Statement.insert table fields work
    (∃ nss params, st.text = insertMarks table fields nss ∧ st.params = some params ∧
      nss.length = work.length ∧ (∀ ns ∈ nss, ns.length = fields.length) ∧
      nss.flatten = List.range' 1 params.length) ∧
    (Legible D table work → work.length * fields.length ≤ 65535 → ∀ db : Db V,
      (∃ t rs, db (fold table) = some t ∧ List.Forall₂ (Holds D t) work rs ∧
        D.server.answer st db = (.ok [], db.put (fold table) (t.append rs)) ∧
        work.foldlM (insertOne D table) db = some (db.put (fold table) (t.append rs))) ∨
      ((∃ msg, D.server.answer st db = (.error msg, db)) ∧ work.foldlM (insertOne D table) db = none)) := by
  intro fields st
  have hmem : ∀ f, f ∈ fields ↔ ∃ m ∈ work, f ∈ m.keys := fun f =>
    ((H.set_perm _).mem_iff).trans (mem_fieldsOf H work)
  have hwork : work ≠ [] := by
    obtain ⟨m, hm, -⟩ := hsome
    exact List.ne_nil_of_mem hm
  have hne : fields ≠ [] := by
    obtain ⟨m, hm, hk⟩ := hsome
    obtain ⟨f, hf⟩ := List.exists_mem_of_ne_nil _ hk
    exact List.ne_nil_of_mem ((hmem f).mpr ⟨m, hm, hf⟩)
  constructor
  · refine ⟨numbers fields.length 1 work.length, _, insertText_eq table hne _, params_insert table fields work,
      numbers_length _ _ _, numbers_width _ _ _, ?_⟩
    rw [numbers_flatten, params_length]
  · intro hlegible hlimit db
    have hinj : ∀ f ∈ fields, ∀ g ∈ fields, fold f = fold g → f = g := by
      intro f hf g hg
      obtain ⟨m, hm, hf⟩ := (hmem f).mp hf
      obtain ⟨m', hm', hg⟩ := (hmem g).mp hg
      exact hlegible.distinct m hm f hf m' hm' g hg
    have hnodup : fields.Nodup := (H.set_perm _).nodup_iff.mpr (firsts_nodup [] _)
    have hfields : ∀ f ∈ fields, Identifier D.reserved f := by
      intro f hf
      obtain ⟨m, hm, hf⟩ := (hmem f).mp hf
      exact hlegible.fields m hm f hf
    have hwidth : ∀ m ∈ work, m.keys.length ≤ 65535 := by
      intro m hm
      have hsub : m.keys ⊆ fields := fun f hf => (hmem f).mpr ⟨m, hm, hf⟩
      have hle := (List.subperm_of_subset m.nodup hsub).length_le
      exact hle.trans ((Nat.le_mul_of_pos_left _ (List.length_pos_of_mem hm)).trans hlimit)
    have hone : ∀ m ∈ work, Legible D table [m] := fun m hm => hlegible.one hm
    have hanswer := answer_insert hlegible.table hfields hne hwork (nodup_fold hnodup hinj) hlimit db
    cases hdb : db (fold table) with
    | none =>
      rw [hdb] at hanswer
      refine Or.inr ⟨⟨[], hanswer⟩, ?_⟩
      obtain ⟨m, rest, rfl⟩ := List.exists_cons_of_ne_nil hwork
      rw [List.foldlM_cons, insertOne_none (hone m List.mem_cons_self) (hwidth m List.mem_cons_self) hdb]
      rfl
    | some t =>
      have hfold := foldlM_insertOne hone hwidth hdb
      have himages : (work.map fun m => t.image D fields m.sent) = work.map fun m => t.image D m.keys m.sent := by
        apply List.map_congr_left
        intro m hm
        refine image_congr D t (fun f hf => (hmem f).mpr ⟨m, hm, hf⟩) hinj fun f hf => ?_
        exact m.sent_none hf
      rw [hdb] at hanswer
      simp only [takes_union t hmem, himages] at hanswer
      cases htakes : work.all fun m => t.takes D m.keys m.sent with
      | false =>
        rw [htakes] at hanswer hfold
        exact Or.inr ⟨⟨[], hanswer⟩, hfold⟩
      | true =>
        rw [htakes] at hanswer hfold
        refine Or.inl ⟨t, _, rfl, ?_, hanswer, hfold⟩
        apply List.forall₂_map_right_iff.mpr
        apply List.forall₂_same.mpr
        intro m hm
        exact holds_image (fun f hf g hg => hlegible.distinct m hm f hf m hm g hg)
          (List.all_eq_true.mp htakes m hm)

end OneByOne

/-- A server without key words that takes every text, except that a `BIGINT` is digits. -/
def plainDialect : Dialect Bytes where
  reserved _ := false
  input type text := if type = ascii "bigint" ∧ numeral text = none then none else some text

/-- An empty table with these columns. -/
def Table.empty (columns : List (Bytes × Bytes)) (h : (columns.map Prod.fst).Nodup) : Table Bytes := ⟨columns, [], h⟩

theorem inserts_each_message_twoFields :
    let work := [message (ascii "data") [(ascii "test", .int32 1)],
      message (ascii "data") [(ascii "temp", .double 0), (ascii "test", .int64 2)]]
    let t := Table.empty [(ascii "test", ascii "bigint"), (ascii "temp", ascii "real")] (by decide)
    let db : Db Bytes := fun name => if name = ascii "data" then some t else none
    ∃ rs, List.Forall₂ (Holds plainDialect t) work rs ∧
      plainDialect.server.answer (.insert (ascii "data") [ascii "test", ascii "temp"] work) db =
        (.ok [], db.put (ascii "data") (t.append rs)) := by
  intro work t db
  have hlegible : Legible plainDialect (ascii "data") work := ⟨by decide +kernel, by decide +kernel, by decide +kernel⟩
  have hsome : (work.foldlM (insertOne plainDialect (ascii "data")) db).isSome = true := by decide +kernel
  obtain ⟨-, h⟩ := @inserts_each_message _ plainDialect (ascii "data") insertionOrder work
    ⟨_, List.mem_cons_self, by decide⟩
  rcases h hlegible (by decide) db with ⟨t', rs, ht', hholds, hanswer, -⟩ | ⟨-, hnone⟩
  · obtain rfl : t = t' := Option.some.inj ht'
    exact ⟨rs, hholds, hanswer⟩
  · rw [hnone] at hsome
    cases hsome

/-- Two spellings of one column: PostgreSQL rejects the `INSERT` of both messages, but not one for each. And a
text that is no number for a `BIGINT` takes the other message with it. -/
theorem batch_rejects_other_message :
    let db : Db Bytes := fun name => if name = ascii "data" then
      some (Table.empty [(ascii "x", ascii "bigint")] (by decide)) else none
    let spelled := [message (ascii "data") [(ascii "x", .int32 1)], message (ascii "data") [(ascii "X", .int32 2)]]
    let typed := [message (ascii "data") [(ascii "x", .int32 1)],
      message (ascii "data") [(ascii "x", .string (ascii "a"))]]
    ((plainDialect.server.answer (.insert (ascii "data") (fieldsOf insertionOrder spelled) spelled) db).1.isOk = false ∧
      (spelled.foldlM (insertOne plainDialect (ascii "data")) db).isSome = true) ∧
    (plainDialect.server.answer (.insert (ascii "data") (fieldsOf insertionOrder typed) typed) db).1.isOk = false ∧
      ((typed.take 1).foldlM (insertOne plainDialect (ascii "data")) db).isSome = true := by
  refine ⟨⟨?_, ?_⟩, ?_, ?_⟩
  · decide +kernel
  · decide +kernel
  · decide +kernel
  · decide +kernel

end SqliteWrite.Psql
