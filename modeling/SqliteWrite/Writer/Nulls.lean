import SqliteWrite.Writer.StoredRuns

/-! Fields that hold `NULL` and fields that are left out. Leaving out some of the first changes
neither which calls return nor what the rows hold, as long as no column gets another type by it. -/
namespace SqliteWrite

/-- Some of the fields that hold `NULL` are left out. -/
inductive Pruned : Fields → Fields → Prop
  | nil : Pruned [] []
  | keep (p : Bytes × VarT) {values values' : Fields} :
    Pruned values values' → Pruned (p :: values) (p :: values')
  | drop (name : Bytes) {values values' : Fields} :
    Pruned values values' → Pruned ((name, .null) :: values) values'

namespace Pruned
variable {values values' : Fields}

lemma refl (values : Fields) : Pruned values values := by
  induction values with
  | nil => exact .nil
  | cons p values ih => exact .keep p ih

lemma sublist (h : Pruned values values') : values'.Sublist values := by
  induction h with
  | nil => exact .slnil
  | keep p _ ih => exact ih.cons_cons p
  | drop name _ ih => exact ih.cons _

lemma mem (h : Pruned values values') {p : Bytes × VarT} (hp : p ∈ values) :
    p ∈ values' ∨ p.2 = .null := by
  induction h with
  | nil => cases hp
  | keep q _ ih =>
    rcases List.mem_cons.mp hp with rfl | hp
    · exact Or.inl List.mem_cons_self
    · exact (ih hp).imp_left (List.mem_cons_of_mem q)
  | drop name _ ih =>
    rcases List.mem_cons.mp hp with rfl | hp
    · exact Or.inr rfl
    · exact ih hp

lemma find? (h : Pruned values values') (hd : (values.map (·.1)).Nodup) (n : Bytes) :
    values.find? (·.1 = n) = values'.find? (·.1 = n) ∨
      (values.find? (·.1 = n) = some (n, .null) ∧ values'.find? (·.1 = n) = none) := by
  induction h with
  | nil => exact Or.inl rfl
  | keep q _ ih =>
    rw [List.map_cons, List.nodup_cons] at hd
    by_cases hq : q.1 = n
    · simp [hq]
    · simpa [hq] using ih hd.2
  | drop name hrest ih =>
    rw [List.map_cons, List.nodup_cons] at hd
    by_cases hq : name = n
    · subst hq
      refine Or.inr ⟨by simp, ?_⟩
      rw [List.find?_eq_none]
      intro p hp hpn
      have hmem := List.mem_map_of_mem (f := Prod.fst) (hrest.sublist.subset hp)
      rw [of_decide_eq_true hpn] at hmem
      exact hd.1 hmem
    · simpa [hq] using ih hd.2

end Pruned

/-- A call with some fields that hold `NULL` left out; it keeps a field if it had one. -/
structure PrunedCall (k k' : Call) : Prop where
  table : k'.table = k.table
  replace : k'.replace = k.replace
  values : Pruned k.values k'.values
  nonempty : k.values ≠ [] → k'.values ≠ []

/-- The same critical sections with pruned calls. -/
inductive PrunedEvent : Event → Event → Prop
  | call {k k' : Call} : PrunedCall k k' → PrunedEvent (.call k) (.call k')
  | poll : PrunedEvent .poll .poll

lemma PrunedCall.refl (k : Call) : PrunedCall k k := ⟨rfl, rfl, Pruned.refl k.values, id⟩

lemma PrunedCall.names_subset {k k' : Call} (h : PrunedCall k k') : k'.names.Sublist k.names :=
  h.values.sublist.map _

lemma callsOf_pruned {evs evs' : List Event} (h : List.Forall₂ PrunedEvent evs evs') :
    List.Forall₂ PrunedCall (callsOf evs) (callsOf evs') := by
  induction h with
  | nil => exact .nil
  | cons hev _ ih =>
    cases hev with
    | call hk => exact .cons hk ih
    | poll => exact ih

/-- The type that the first value under a name gives to its column. -/
def firstType (ks : List Call) (table n : Bytes) : Option Bytes :=
  (((ks.filter (·.table = table)).flatMap (·.values)).find? (·.1 = n)).map fun p => columnType p.2

lemma firstType_append (ks rest : List Call) (table n : Bytes) :
    firstType (ks ++ rest) table n = (firstType ks table n).or (firstType rest table n) := by
  unfold firstType
  rw [List.filter_append, List.flatMap_append, List.find?_append, Option.map_or]

lemma firstType_isSome (ks : List Call) {k : Call} (hk : k ∈ ks) {p : Bytes × VarT}
    (hp : p ∈ k.values) : (firstType ks k.table p.1).isSome = true := by
  unfold firstType
  rw [Option.isSome_map, List.find?_isSome]
  refine ⟨p, ?_, by simp⟩
  rw [List.mem_flatMap]
  exact ⟨k, by simpa using hk, hp⟩

/-- The type of a column: the one that it had, or that of the first value under its name. -/
def typeOf (s : RowStore) (ks : List Call) (table n : Bytes) : Option Bytes :=
  ((s table).type? n).or (firstType ks table n)

/-- No column gets another type: under each name that is left on a table and was no column of it, the first
value is of the same type in both lists of calls. -/
def SameTypes (s : RowStore) (ks ks' : List Call) : Prop := ∀ table n, (s table).type? n = none →
  (firstType ks' table n).isSome = true → firstType ks table n = firstType ks' table n

namespace SameTypes
variable {s : RowStore} {ks ks' rest rest' : List Call} {table n : Bytes}

lemma typeOf_eq (h : SameTypes s ks ks') (hk' : (firstType ks' table n).isSome = true) :
    typeOf s ks table n = typeOf s ks' table n := by
  unfold typeOf
  cases ht : (s table).type? n with
  | none => rw [h table n ht hk']
  | some type => rfl

lemma of_append (h : SameTypes s (ks ++ rest) (ks' ++ rest')) (hk : (firstType ks table n).isSome = true)
    (hk' : (firstType ks' table n).isSome = true) : typeOf s ks table n = typeOf s ks' table n := by
  obtain ⟨type, ht⟩ := Option.isSome_iff_exists.mp hk
  obtain ⟨type', ht'⟩ := Option.isSome_iff_exists.mp hk'
  have hsome : (firstType (ks' ++ rest') table n).isSome = true := by simp [firstType_append, ht']
  have hsame := h.typeOf_eq hsome
  unfold typeOf at hsame ⊢
  rwa [firstType_append, firstType_append, ht, ht', Option.some_or, Option.some_or, ← ht, ← ht'] at hsame

end SameTypes

namespace RowStore
variable {convert : Bytes → Value → Option Value} {s : RowStore} {ks ks' : List Call} {k k' : Call}

lemma returns_iff : (s.afterAll convert ks).returns convert k = true ↔
    k.values ≠ [] ∧ ∀ p ∈ k.values,
      ((typeOf s (ks ++ [k]) k.table p.1).bind fun type => convert type (stored p.2)).isSome = true := by
  have htype : ∀ n, ((s.afterAll convert ks k.table).nameAll k.values).type? n =
      typeOf s (ks ++ [k]) k.table n := by
    intro n
    rw [Shelf.type?_nameAll, type?_afterAll, typeOf, firstType_append, ← Option.or_assoc]
    simp [firstType]
  unfold returns
  by_cases hne : k.values = []
  · simp [hne, Shelf.call_nil]
  by_cases hall : ∀ p ∈ k.values,
      (((s.afterAll convert ks k.table).nameAll k.values).held convert p).isSome = true
  · rw [Shelf.call_converts convert hne hall]
    refine ⟨fun _ => ⟨hne, fun p hp => ?_⟩, fun _ => rfl⟩
    have hp' := hall p hp
    unfold Shelf.held at hp'
    rwa [htype] at hp'
  · rw [Shelf.call_rejects convert hne hall]
    refine ⟨fun h => by simp at h, fun h => absurd (fun p hp => ?_) hall⟩
    unfold Shelf.held
    rw [htype]
    exact h.2 p hp

lemma returns_pruned (hnull : ∀ type, convert type .null = some .null) {rest rest' : List Call}
    (hT : SameTypes s (ks ++ [k] ++ rest) (ks' ++ [k'] ++ rest')) (hk : PrunedCall k k') :
    (s.afterAll convert ks).returns convert k = (s.afterAll convert ks').returns convert k' := by
  have htype : ∀ p ∈ k'.values,
      typeOf s (ks ++ [k]) k.table p.1 = typeOf s (ks' ++ [k']) k'.table p.1 := by
    intro p hp
    have hin := firstType_isSome (ks ++ [k]) (List.mem_append_right ks List.mem_cons_self)
      (hk.values.sublist.subset hp)
    have hin' := firstType_isSome (ks' ++ [k']) (List.mem_append_right ks' List.mem_cons_self) hp
    rw [hk.table] at hin' ⊢
    exact hT.of_append hin hin'
  rw [Bool.eq_iff_iff, returns_iff, returns_iff]
  constructor
  · rintro ⟨hne, hall⟩
    refine ⟨hk.nonempty hne, fun p hp => ?_⟩
    rw [← htype p hp]
    exact hall p (hk.values.sublist.subset hp)
  · rintro ⟨hne, hall⟩
    refine ⟨fun hnil => hne ?_, fun p hp => ?_⟩
    · have hsub := hk.values.sublist
      rw [hnil] at hsub
      exact List.sublist_nil.mp hsub
    · rcases hk.values.mem hp with hp' | hp'
      · rw [htype p hp']
        exact hall p hp'
      · have hsome : (typeOf s (ks ++ [k]) k.table p.1).isSome = true := by
          rw [typeOf, Option.isSome_or, Bool.or_eq_true]
          exact Or.inr (firstType_isSome (ks ++ [k]) (List.mem_append_right ks List.mem_cons_self) hp)
        obtain ⟨type, ht⟩ := Option.isSome_iff_exists.mp hsome
        rw [ht, hp', Option.bind_some, stored, hnull]
        rfl

lemma results_pruned (hnull : ∀ type, convert type .null = some .null) {rest rest' : List Call}
    (h : List.Forall₂ PrunedCall rest rest') (ks ks' : List Call)
    (hT : SameTypes s (ks ++ rest) (ks' ++ rest')) :
    (s.afterAll convert ks).results convert rest = (s.afterAll convert ks').results convert rest' := by
  induction h generalizing ks ks' with
  | nil => rfl
  | cons hk _ ih =>
    rw [List.append_cons, List.append_cons ks'] at hT
    rw [results, results, returns_pruned hnull hT hk, ← afterAll_append, ← afterAll_append, ih _ _ hT]

lemma returned_pruned (h : List.Forall₂ PrunedCall ks ks')
    (hresults : s.results convert ks = s.results convert ks') (table : Bytes) :
    List.Forall₂ PrunedCall (s.returnedFrom convert ks table) (s.returnedFrom convert ks' table) := by
  unfold returnedFrom
  rw [hresults]
  generalize s.results convert ks' = rs
  clear hresults
  induction h generalizing rs with
  | nil => exact .nil
  | cons hk _ ih =>
    cases rs with
    | nil => exact .nil
    | cons r rs =>
      simp only [List.zip_cons_cons, List.filter_cons, hk.table]
      split_ifs
      · exact .cons hk (ih rs)
      · exact ih rs

lemma row_pruned (hnull : ∀ type, convert type .null = some .null) (hT : SameTypes s ks ks')
    (hmem : k' ∈ ks') (hk : PrunedCall k k') (hd : k.names.Nodup) :
    (s.afterAll convert ks k.table).row convert k.values =
      (s.afterAll convert ks' k.table).row convert k'.values := by
  funext n
  unfold Shelf.row Shelf.held
  rcases hk.values.find? hd n with hsame | ⟨hn, hn'⟩
  · rw [hsame]
    cases hfind : k'.values.find? (·.1 = n) with
    | none => rfl
    | some p =>
      have hsome := firstType_isSome _ hmem (List.mem_of_find?_eq_some hfind)
      rw [hk.table] at hsome
      have htype : (s.afterAll convert ks k.table).type? p.1 = (s.afterAll convert ks' k.table).type? p.1 := by
        rw [type?_afterAll, type?_afterAll]
        exact hT.typeOf_eq hsome
      simp only [Option.bind_some, htype]
  · rw [hn, hn']
    simp only [Option.bind_some, Option.bind_none, stored]
    cases (s.afterAll convert ks k.table).type? n with
    | none => rfl
    | some type => simp [hnull]

lemma rows_pruned (hnull : ∀ type, convert type .null = some .null) (hT : SameTypes s ks ks')
    (h : List.Forall₂ PrunedCall ks ks') (hd : ∀ k ∈ ks, k.names.Nodup) (table : Bytes) :
    (s.afterAll convert ks table).rows = (s.afterAll convert ks' table).rows := by
  have hresults : s.results convert ks = s.results convert ks' := results_pruned hnull h [] [] hT
  obtain ⟨hlength, hget⟩ := List.forall₂_iff_get.mp (returned_pruned h hresults table)
  rw [rows_afterAll, rows_afterAll]
  congr 1
  apply List.ext_getElem
  · rw [List.length_map, List.length_map, hlength]
  intro i hi hi'
  rw [List.length_map] at hi hi'
  rw [List.getElem_map, List.getElem_map]
  obtain ⟨hmem, htable⟩ := mem_of_returnedFrom (List.getElem_mem hi)
  obtain ⟨hmem', -⟩ := mem_of_returnedFrom (List.getElem_mem hi')
  have hrow := row_pruned hnull hT hmem' (hget i hi hi') (hd _ hmem)
  simp only [List.get_eq_getElem, htable] at hrow
  exact hrow

end RowStore

lemma Shelf.shown_getD {s : Shelf} {r : Bytes → Value} (h : r ∈ s.rows) (n : Bytes) :
    (s.shown r n).getD .null = outvar (r n) := by
  unfold Shelf.shown
  split_ifs with hn
  · rfl
  · rw [s.unnamed r h n hn]
    rfl

/-- A table is there, from the start or since a call with a field. -/
def There (s : RowStore) (ks : List Call) (table : Bytes) : Prop :=
  (s table).columns ≠ [] ∨ ∃ k ∈ ks, k.table = table ∧ k.values ≠ []

lemma There.columns {convert : Bytes → Value → Option Value} {s : RowStore} {ks : List Call} {table : Bytes}
    (h : There s ks table) : (s.afterAll convert ks table).columns ≠ [] := by
  have hnamed : ∃ n, ((s.afterAll convert ks table).type? n).isSome = true := by
    obtain hne | ⟨k, hk, rfl, hne⟩ := h
    · obtain ⟨c, hc⟩ := List.exists_mem_of_ne_nil _ hne
      refine ⟨c.1, ?_⟩
      rw [RowStore.type?_afterAll, Shelf.type?_eq hc, Option.some_or]
      rfl
    · obtain ⟨p, hp⟩ := List.exists_mem_of_ne_nil _ hne
      exact ⟨p.1, RowStore.named_afterAll convert s hk hp⟩
  obtain ⟨n, hn⟩ := hnamed
  exact List.ne_nil_of_mem (List.mem_map.mp (Shelf.type?_isSome.mp hn)).choose_spec.1

lemma There.pruned {s : RowStore} {ks ks' : List Call} {table : Bytes} (h : There s ks table)
    (hks : List.Forall₂ PrunedCall ks ks') : There s ks' table := by
  refine h.imp_right ?_
  rintro ⟨k, hk, ht, hne⟩
  obtain ⟨i, hi, rfl⟩ := List.getElem_of_mem hk
  have hi' : i < ks'.length := hks.length_eq ▸ hi
  have hpr := hks.get hi hi'
  exact ⟨ks'[i], List.getElem_mem hi', hpr.table.trans ht, hpr.nonempty hne⟩

lemma pruned_beside {ks all ks' : List Call} (hall : ∀ k ∈ ks, k ∈ all)
    (hks : List.Forall₂ PrunedCall ks ks') : ∀ k' ∈ all ++ ks', ∃ k ∈ all, PrunedCall k k' := by
  intro k' hk'
  rcases List.mem_append.mp hk' with hk' | hk'
  · exact ⟨k', hk', PrunedCall.refl k'⟩
  · obtain ⟨i, hi, rfl⟩ := List.getElem_of_mem hk'
    have hi' : i < ks.length := hks.length_eq ▸ hi
    exact ⟨ks[i], hall _ (List.getElem_mem hi'), hks.get hi' hi⟩

lemma Proper.pruned {D : Decisions} {ks ks' : List Call} (h : Proper D ks)
    (hfrom : ∀ k' ∈ ks', ∃ k ∈ ks, PrunedCall k k') : Proper D ks' := by
  refine ⟨fun k' hk' => ?_, fun k' hk' n hn => ?_, fun k' hk' => ?_, fun k' hk' l' hl' hf => ?_,
    fun k' hk' l' hl' ht n hn m hm hf => ?_, fun k' hk' p hp => ?_, ?_⟩
  · obtain ⟨k, hk, hpr⟩ := hfrom k' hk'
    exact hpr.table ▸ h.tables k hk
  · obtain ⟨k, hk, hpr⟩ := hfrom k' hk'
    exact h.names k hk n (hpr.names_subset.subset hn)
  · obtain ⟨k, hk, hpr⟩ := hfrom k' hk'
    exact (h.distinct k hk).sublist hpr.names_subset
  · obtain ⟨k, hk, hpr⟩ := hfrom k' hk'
    obtain ⟨l, hl, hlr⟩ := hfrom l' hl'
    rw [hpr.table, hlr.table] at hf ⊢
    exact h.tablesApart k hk l hl hf
  · obtain ⟨k, hk, hpr⟩ := hfrom k' hk'
    obtain ⟨l, hl, hlr⟩ := hfrom l' hl'
    rw [hpr.table, hlr.table] at ht
    exact h.namesApart k hk l hl ht n (hpr.names_subset.subset hn) m (hlr.names_subset.subset hm) hf
  · obtain ⟨k, hk, hpr⟩ := hfrom k' hk'
    exact h.fits k hk p (hpr.values.sublist.subset hp)
  · have hmay : ∀ table n, May ks' table n → May ks table n := by
      rintro table n ⟨k', hk', rfl, hn⟩
      obtain ⟨k, hk, hpr⟩ := hfrom k' hk'
      exact ⟨k, hk, hpr.table.symm, hpr.names_subset.subset hn⟩
    refine ⟨fun db schema table name type hp hs hm => h.takes.create db schema table name type hp hs
      (hmay _ _ hm), fun db schema table name type t hp hs hm ht hl hcols => ?_⟩
    exact h.takes.add db schema table name type t hp hs (hmay _ _ hm) ht hl
      fun col hcol => hmay _ _ (hcols col hcol)

lemma Stored.pruned {ks ks' : List Call} {σ : RowStore} {db : Db} (h : Stored ks σ db)
    (hfrom : ∀ k' ∈ ks', ∃ k ∈ ks, PrunedCall k k') (hsub : ∀ k ∈ ks, k ∈ ks') : Stored ks' σ db := by
  refine ⟨h.plain, h.onlyMain, fun k' hk' => ?_, fun k' hk' n hn => ?_⟩
  · obtain ⟨k, hk, hpr⟩ := hfrom k' hk'
    exact hpr.table ▸ h.shelved k hk
  · obtain ⟨k, hk, hpr⟩ := hfrom k' hk'
    rw [hpr.table] at hn ⊢
    obtain ⟨l, hl, ht, hmem⟩ := h.may k hk n hn
    exact ⟨l, hsub l hl, ht, hmem⟩

namespace Sys
open SQLiteWriter
variable {D : Decisions}

/-- On a database of plain tables, leaving out fields that hold `NULL` changes neither which calls return nor
what any row holds under any name, a column that is not there counting as `NULL`, as long as no column gets
another type by it. -/
theorem null_same_as_absent (hdoc : D.Documented) {flag : SQLWFlag} (hflag : flag ≠ .readOnly)
    {ks : List Call} (hp : Proper D ks) {σ₀ : RowStore} {db : Db} (hdb : Stored ks σ₀ db)
    (evs evs' : List Event) (hks : ∀ k ∈ callsOf evs, k ∈ ks) (hpruned : List.Forall₂ PrunedEvent evs evs')
    (hT : SameTypes σ₀ (callsOf evs) (callsOf evs')) :
    ((start D.engine flag noMeta db).run evs).history.map (·.2.isOk) =
      ((start D.engine flag noMeta db).run evs').history.map (·.2.isOk) ∧
    ∀ k ∈ ks, There σ₀ (callsOf evs) k.table → ∃ rows rows',
      ((queryT (selectText k.table) [] 0).invoke (Conn.answer D.engine)
        ((start D.engine flag noMeta db).run evs).writer ((start D.engine flag noMeta db).run evs).conn).1 = .ok rows ∧
      ((queryT (selectText k.table) [] 0).invoke (Conn.answer D.engine)
        ((start D.engine flag noMeta db).run evs').writer
        ((start D.engine flag noMeta db).run evs').conn).1 = .ok rows' ∧
      List.Forall₂ (fun r r' => ∀ n, (r n).getD .null = (r' n).getD .null) rows rows' := by
  have hcalls := callsOf_pruned hpruned
  have hnull := hdoc.convert_null
  have hfrom := pruned_beside hks hcalls
  have hp' := hp.pruned hfrom
  obtain ⟨hkeeps, hran⟩ := started_keeps hdoc hflag hp hdb evs hks
  obtain ⟨hkeeps', hran'⟩ := started_keeps hdoc hflag hp'
    (hdb.pruned hfrom fun k hk => List.mem_append_left _ hk) evs' fun k hk => List.mem_append_right _ hk
  have hresults := RowStore.results_pruned hnull hcalls [] [] hT
  have hok := hkeeps.results
  have hok' := hkeeps'.results
  have hstored := hkeeps.stored
  have hstored' := hkeeps'.stored
  rw [hran] at hok hstored
  rw [hran'] at hok' hstored'
  refine ⟨hok.trans (hresults.trans hok'.symm), fun k hk hthere => ?_⟩
  have hquery := queryT_stored hdoc hp hk ((start D.engine flag noMeta db).run evs).writer hstored hthere.columns
  have hquery' := queryT_stored hdoc hp' (List.mem_append_left _ hk)
    ((start D.engine flag noMeta db).run evs').writer hstored' (hthere.pruned hcalls).columns
  refine ⟨_, _, hquery, hquery', ?_⟩
  have hrows := RowStore.rows_pruned hnull hT hcalls (fun k hk => hp.distinct k (hks k hk)) k.table
  unfold Shelf.read
  rw [List.forall₂_map_left_iff, List.forall₂_map_right_iff, ← hrows]
  apply List.forall₂_same.mpr
  intro r hr n
  rw [Shelf.shown_getD hr, Shelf.shown_getD (hrows ▸ hr)]

/-- A table with one column and a row. -/
def oldTable : Db :=
  Db.empty.put Db.mainSchema (ascii "t") ⟨[⟨ascii "a", ascii "INT", []⟩], [[.integer 5]], by simp⟩

def oldRows : RowStore := Function.update RowStore.empty (ascii "t")
  ⟨[(ascii "a", ascii "INT")], [fun n => if n = ascii "a" then .integer 5 else .null], by simp, by simp⟩

/-- A `NULL` for a column that is there, and one that creates its column. -/
def withNulls : List Event :=
  [.call ⟨ascii "t", [(ascii "b", .int32 2), (ascii "a", .null), (ascii "c", .null)], false⟩, .poll,
    .call ⟨ascii "t", [(ascii "c", .int32 3)], false⟩]

def withoutNulls : List Event :=
  [.call ⟨ascii "t", [(ascii "b", .int32 2)], false⟩, .poll, .call ⟨ascii "t", [(ascii "c", .int32 3)], false⟩]

lemma stored_oldTable : Stored (callsOf withNulls) oldRows oldTable := by
  have htables : ∀ k ∈ callsOf withNulls, k.table = ascii "t" := by decide
  refine ⟨Db.plain_empty.put _ _ (by simp [Table.Plain]), ?_, fun k hk => ?_, fun k hk n hn => ?_⟩
  · have hempty : Db.empty.OnlyMain := fun _ _ _ => rfl
    exact hempty.put _ _
  · rw [htables k hk]
    exact ⟨by decide, by decide⟩
  · rw [htables k hk, oldRows, Function.update_self] at hn
    obtain rfl : n = ascii "a" := by simpa using hn
    rw [htables k hk]
    exact ⟨⟨ascii "t", [(ascii "b", .int32 2), (ascii "a", .null), (ascii "c", .null)], false⟩, by decide, rfl,
      by decide⟩

theorem null_same_as_absent_oldTable :
    let s := (start Reference.decisions.engine .noFlag noMeta oldTable).run withNulls
    let s' := (start Reference.decisions.engine .noFlag noMeta oldTable).run withoutNulls
    s.history.map (·.2.isOk) = s'.history.map (·.2.isOk) ∧ ∃ rows rows',
      ((queryT (selectText (ascii "t")) [] 0).invoke (Conn.answer Reference.decisions.engine) s.writer s.conn).1 =
        .ok rows ∧
      ((queryT (selectText (ascii "t")) [] 0).invoke (Conn.answer Reference.decisions.engine) s'.writer s'.conn).1 =
        .ok rows' ∧
      List.Forall₂ (fun r r' => ∀ n, (r n).getD .null = (r' n).getD .null) rows rows' ∧ rows.length = 3 := by
  intro s s'
  have hproper : Proper Reference.decisions (callsOf withNulls) := by
    refine ⟨?_, ?_, ?_, ?_, ?_, ?_, Reference.decisions_takes _⟩ <;> decide +kernel
  have hpruned : List.Forall₂ PrunedEvent withNulls withoutNulls :=
    .cons (.call ⟨rfl, rfl, .keep _ (.drop _ (.drop _ .nil)), by simp⟩)
      (.cons .poll (.cons (.call (PrunedCall.refl _)) .nil))
  have htypes : SameTypes oldRows (callsOf withNulls) (callsOf withoutNulls) := by
    intro table n hnone hsome
    by_cases ht : ascii "t" = table
    · subst ht
      by_cases ha : ascii "a" = n
      · subst ha
        exact absurd hnone (by decide)
      · by_cases hb : ascii "b" = n
        · subst hb
          decide
        · by_cases hc : ascii "c" = n
          · subst hc
            decide
          · simp [firstType, callsOf, withoutNulls, hb, hc] at hsome
    · simp [firstType, callsOf, withoutNulls, ht] at hsome
  obtain ⟨hok, hrows⟩ := null_same_as_absent Reference.decisions_documented
    (show SQLWFlag.noFlag ≠ .readOnly by decide) hproper stored_oldTable withNulls withoutNulls (fun _ hk => hk)
    hpruned htypes
  obtain ⟨rows, rows', hquery, hquery', hall⟩ :=
    hrows ⟨ascii "t", [(ascii "c", .int32 3)], false⟩ (by decide) (Or.inl (by decide))
  have hlength : ((queryT (selectText (ascii "t")) [] 0).invoke (Conn.answer Reference.decisions.engine) s.writer
      s.conn).1.map List.length = .ok 3 := by decide +kernel
  refine ⟨hok, rows, rows', hquery, hquery', hall, ?_⟩
  rw [hquery] at hlength
  exact Except.ok.inj hlength

/-- A `NULL` makes its column an integer one for ever: a text that comes later is refused, and is
taken when the `NULL` was left out. -/
theorem null_types_column :
    List.Forall₂ PrunedEvent
      [.call ⟨ascii "t", [(ascii "b", .int32 1), (ascii "a", .null)], false⟩,
        .call ⟨ascii "t", [(ascii "a", .string (ascii "x"))], false⟩]
      [.call ⟨ascii "t", [(ascii "b", .int32 1)], false⟩,
        .call ⟨ascii "t", [(ascii "a", .string (ascii "x"))], false⟩] ∧
    ((start Reference.engine .noFlag noMeta Db.empty).run
      [.call ⟨ascii "t", [(ascii "b", .int32 1), (ascii "a", .null)], false⟩,
        .call ⟨ascii "t", [(ascii "a", .string (ascii "x"))], false⟩]).history.map (·.2.isOk) =
      [true, false] ∧
    ((start Reference.engine .noFlag noMeta Db.empty).run
      [.call ⟨ascii "t", [(ascii "b", .int32 1)], false⟩,
        .call ⟨ascii "t", [(ascii "a", .string (ascii "x"))], false⟩]).history.map (·.2.isOk) =
      [true, true] := by
  refine ⟨?_, by decide +kernel, by decide +kernel⟩
  exact .cons (.call ⟨rfl, rfl, .keep _ (.drop _ .nil), by simp⟩)
    (.cons (.call ⟨rfl, rfl, .keep _ .nil, by simp⟩) .nil)

end Sys
end SqliteWrite
