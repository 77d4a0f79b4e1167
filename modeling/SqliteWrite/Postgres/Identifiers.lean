import SqliteWrite.Lib.Quoting
import SqliteWrite.Postgres.MultiRow

/-! The table and the columns that the worker's statements mean. `CREATE TABLE` and `INSERT` fold the
names to lower case, `ALTER TABLE` and the schema query do not; so they mean the same for lower-case names,
and for no others. -/
namespace SqliteWrite.Psql
open Reading Method

namespace World
variable {S : Server}

lemma events_db (s : World S) (es : List Event) : (es.foldl event s).db = s.db := by
  induction es generalizing s with
  | nil => rfl
  | cons e es ih =>
    have hone : (s.event e).db = s.db := by
      cases e with
      | addValue table values =>
        unfold event
        split_ifs <;> rfl
      | close => rfl
    rw [List.foldl_cons, ih, hone]

@[simp] lemma arrive_db (s : World S) : s.arrive.db = s.db := events_db s (s.arrivals s.now)

lemma answer_exec_db (s : World S) (st : Statement) :
    (World.answer S (.exec st) s).1 = (S.answer st s.db).1 ∧ (World.answer S (.exec st) s).2.db = (S.answer st s.db).2 := by
  have h := arrive_db s
  constructor
  · change (S.answer st s.arrive.db).1 = _
    rw [h]
  · change (S.answer st s.arrive.db).2 = _
    rw [h]

end World

variable {V : Type} {D : Dialect V}

/-- The columns of a table. -/
def Db.names (db : Db V) (table : Bytes) : List Bytes := ((db table).map Table.names).getD []

lemma run_insert_names {params : List (Option Bytes)} {db db' : Db V} {table : Bytes} {columns : List Bytes}
    {nss : List (List ℕ)} {rows : Rows} (h : D.run params db (.insert table columns nss) = some (rows, db')) :
    ∀ name, (db' name).map Table.names = (db name).map Table.names := by
  obtain ⟨t, ht, h⟩ := Option.bind_eq_some_iff.mp h
  obtain ⟨t', hinsert, h⟩ := Option.map_eq_some_iff.mp h
  obtain rfl : db.put table t' = db' := (Prod.ext_iff.mp h).2
  have hnames : t'.names = t.names := by
    unfold Table.insert at hinsert
    split_ifs at hinsert
    obtain ⟨rs, -, rfl⟩ := Option.map_eq_some_iff.mp hinsert
    rfl
  intro name
  unfold Db.put
  by_cases hname : name = table
  · rw [hname, Function.update_self, ht, Option.map_some, Option.map_some, hnames]
  · rw [Function.update_of_ne hname]

lemma read_insert_cases {table : Bytes} {fields : List Bytes} {n : ℕ} {c : Command}
    (h : Reading.read D.reserved (cstr (insertText table fields n)) = some c) :
    ∃ u columns nss, c = .insert u columns nss := by
  obtain ⟨ts, hts, hc⟩ := Option.bind_eq_some_iff.mp h
  have hhead : Tokens.feed closer .start (ascii "insert into ") =
      ([.word (ascii "insert"), .word (ascii "into")], .start) := rfl
  have htext : insertText table fields n = ascii "insert into " ++
      (table ++ ascii " (" ++ nameList true fields ++ ascii ") values " ++ markRows fields true 1 n) := by
    simp [insertText]
  rw [Tokens.tokens_eq_scan, cstr_eq_self (nul_cstr _), htext, Tokens.scan_cstr_append (by decide) hhead] at hts
  obtain ⟨ts', -, rfl⟩ := Option.map_eq_some_iff.mp hts
  rw [List.cons_append, command_insert] at hc
  unfold Reading.insert at hc
  simp only [Option.bind_eq_bind, Option.bind_eq_some_iff, Option.some.injEq] at hc
  obtain ⟨_, _, ⟨u, _⟩, _, _, _, ⟨columns, _⟩, _, _, _, _, _, nss, _, hc⟩ := hc
  exact ⟨u, columns, nss, hc.symm⟩

lemma answer_insert_names (table : Bytes) (fields : List Bytes) (work : List Message) (db : Db V) (name : Bytes) :
    (((D.server.answer (.insert table fields work) db).2 : Db V) name).map Table.names = (db name).map Table.names := by
  unfold Server.answer
  rw [params_insert]
  change ((if _ ≤ 65535 then D.reply db (cstr (insertText table fields work.length)) _ else _).2 name).map _ = _
  split_ifs with hlimit
  · unfold Dialect.reply
    cases hread : Reading.read D.reserved (cstr (insertText table fields work.length)) with
    | none => rfl
    | some c =>
      obtain ⟨u, columns, nss, rfl⟩ := read_insert_cases hread
      rw [Option.bind_some]
      cases hrun : D.run (work.flatMap fun m => fields.map m.sent) db (.insert u columns nss) with
      | none => rfl
      | some r => exact run_insert_names hrun name
  · rfl

/-- A cached schema lists the columns that its table has, and a table that is there has some. -/
structure Mirrors (table : Bytes) (schema : List (Bytes × Bytes)) (db : Db V) : Prop where
  sorted : SortedByFirst schema
  columns : ∀ c, c ∈ schema.map (·.1) ↔ c ∈ db.names table
  filled : ∀ t, db table = some t → t.names ≠ []

/-- The worker has cached the columns of a table, these among them. -/
def Kept (table : Bytes) (seen : List Bytes) (w : Worker) (db : Db V) : Prop :=
  ∃ schema, w.schemas table = some schema ∧ Mirrors table schema db ∧ ∀ f ∈ seen, f ∈ schema.map (·.1)

lemma Kept.subset {table : Bytes} {seen seen' : List Bytes} {w : Worker} {db : Db V} (h : Kept table seen w db)
    (hsub : ∀ f ∈ seen', f ∈ seen) : Kept table seen' w db := by
  obtain ⟨schema, hw, hm, hseen⟩ := h
  exact ⟨schema, hw, hm, fun f hf => hseen f (hsub f hf)⟩

lemma Kept.of_names {table : Bytes} {seen : List Bytes} {w v : Worker} {db db' : Db V} (h : Kept table seen w db)
    (hw : v.schemas = w.schemas) (hdb : (db' table).map Table.names = (db table).map Table.names) :
    Kept table seen v db' := by
  obtain ⟨schema, hs, hm, hseen⟩ := h
  refine ⟨schema, hw ▸ hs, ⟨hm.sorted, fun c => ?_, fun t ht => ?_⟩, hseen⟩
  · rw [hm.columns]
    unfold Db.names
    rw [hdb]
  · rw [ht, Option.map_some] at hdb
    obtain ⟨t', ht', hnames⟩ := Option.map_eq_some_iff.mp hdb.symm
    exact hnames ▸ hm.filled t' ht'

/-- A call that does not throw. -/
abbrev Returns {α : Type} (m : M α) (w : Worker) (s : World D.server) (R : α → Worker → World D.server → Prop) :
    Prop := Outcome (World.answer D.server) m w s R fun _ _ _ => False

namespace MiniPSQL
variable (w : Worker) (s : World D.server)

lemma exec_returns {st : Statement} {rows : Rows} {db : Db V} (h : D.server.answer st s.db = (.ok rows, db)) :
    Returns (exec st) w s fun rs v t => v = w ∧ rs = rows.takeWhile (fun row => !row.isEmpty) ∧ t.db = db := by
  obtain ⟨hresult, hdb⟩ := World.answer_exec_db s st
  rw [h] at hresult hdb
  unfold exec
  refine Outcome.bind (Outcome.ask ?_)
  rw [hresult]
  exact Outcome.pure ⟨rfl, rfl, hdb⟩

/-- The schema that is read: the columns of the table, sorted. -/
def schemaRead (db : Db V) (table : Bytes) : List (Bytes × Bytes) :=
  sortByFirst ((((db table).map (·.columns)).getD []).map fun p => (p.1, (udtName p.2).getD p.2))

lemma getSchema_returns {table : Bytes} (ht : Identifier D.reserved table) :
    Returns (getSchema table) w s fun schema v t => v = w ∧ schema = schemaRead s.db table ∧ t.db = s.db := by
  have hrows : ((Db.columnRows s.db table).takeWhile fun row => !row.isEmpty).map
      (fun r => (r.getD 0 [], r.getD 1 [])) =
      (((s.db table).map (·.columns)).getD []).map fun p => (p.1, (udtName p.2).getD p.2) := by
    unfold Db.columnRows
    cases s.db table with
    | none => rfl
    | some t =>
      have hall : ∀ ps : List (Bytes × Bytes), ((ps.map fun p => [p.1, (udtName p.2).getD p.2]).takeWhile
          fun row => !row.isEmpty) = ps.map fun p => [p.1, (udtName p.2).getD p.2] := by
        intro ps
        induction ps with
        | nil => rfl
        | cons p ps ih => simp [ih]
      simp [hall]
  unfold getSchema
  refine (exec_returns w s (answer_schema ht)).seq fun rows v t h => ?_
  obtain ⟨rfl, rfl, hdb⟩ := h
  refine Outcome.pure ⟨rfl, ?_, hdb⟩
  rw [hrows]
  rfl

lemma schemaRead_names (db : Db V) (table : Bytes) (c : Bytes) :
    c ∈ (schemaRead db table).map (·.1) ↔ c ∈ db.names table := by
  unfold schemaRead Db.names Table.names
  cases db table with
  | none => simp
  | some t => simp

lemma schemaRead_mirrors (db : Db V) (table : Bytes) (h : ∀ t, db table = some t → t.names ≠ []) :
    Mirrors table (schemaRead db table) db :=
  ⟨sortByFirst_sorted _, schemaRead_names db table, h⟩

lemma schemaRead_count {db : Db V} {table c : Bytes} (h : c ∈ db.names table) :
    ((schemaRead db table).map (·.1)).count c = 1 := by
  have hperm : ((schemaRead db table).map (·.1)).Perm (db.names table) := by
    unfold schemaRead Db.names Table.names
    refine ((List.perm_insertionSort _ _).map _).trans ?_
    cases db table with
    | none => simp
    | some t => simp [Function.comp_def]
  have hnodup : (db.names table).Nodup := by
    unfold Db.names
    cases db table with
    | none => exact List.nodup_nil
    | some t => exact t.nodup
  rw [hperm.count_eq]
  exact List.count_eq_one_of_mem hnodup h

lemma haveTable_returns {table : Bytes} (ht : Identifier D.reserved table)
    (hfilled : ∀ t : Table V, s.db table = some t → t.names ≠ []) :
    Returns (haveTable table) w s fun b v t => v = w ∧ b = (s.db table).isSome ∧ t.db = s.db := by
  unfold haveTable
  refine (getSchema_returns w s ht).seq fun schema v t h => ?_
  obtain ⟨rfl, rfl, hdb⟩ := h
  refine Outcome.pure ⟨rfl, ?_, hdb⟩
  cases hs : s.db table with
  | none => simp [schemaRead, hs]
  | some tb =>
    have hne : (schemaRead s.db table) ≠ [] := by
      obtain ⟨c, hc⟩ := List.exists_mem_of_ne_nil _ (hfilled tb hs)
      have hmem : c ∈ (schemaRead s.db table).map (·.1) :=
        (schemaRead_names s.db table c).mpr (by simp [Db.names, hs, hc])
      exact List.ne_nil_of_mem (List.mem_map.mp hmem).choose_spec.1
    simpa using hne

lemma addColumn_returns {table field : Bytes} (ht : Identifier D.reserved table)
    (hf : Identifier D.reserved field) (htl : fold table = table) (hfl : fold field = field) (x : VarT)
    (hfilled : ∀ t : Table V, s.db table = some t → t.names ≠ []) (hnew : field ∉ Db.names s.db table) :
    Returns (addColumn table field (columnType x)) w s fun _ v t => v = w ∧ ∃ tb : Table V, t.db table = some tb ∧
      ∀ c, c ∈ tb.names ↔ c ∈ Db.names s.db table ∨ c = field := by
  unfold addColumn
  refine (haveTable_returns w s ht hfilled).seq fun known v t h => ?_
  obtain ⟨rfl, rfl, hdb⟩ := h
  cases hs : s.db table with
  | none =>
    have hanswer := answer_create ht hf x (htl.symm ▸ hdb ▸ hs)
    refine (exec_returns v t hanswer).seq fun _ u t' h => ?_
    obtain ⟨rfl, -, hdb'⟩ := h
    refine Outcome.pure ⟨rfl, Table.create field (fold (columnType x)), ?_, ?_⟩
    · rw [hdb', htl, hfl]
      exact Db.put_self _ _
    · intro c
      simp [Db.names, hs, Table.names, Table.create]
  | some tb =>
    have hcolumn : field ∉ tb.names := by simpa [Db.names, hs] using hnew
    have hanswer := answer_alter ht hf x (hdb ▸ hs) hcolumn
    refine (exec_returns v t hanswer).seq fun _ u t' h => ?_
    obtain ⟨rfl, -, hdb'⟩ := h
    refine Outcome.pure ⟨rfl, tb.addColumn field (fold (columnType x)) hcolumn, ?_, ?_⟩
    · rw [hdb']
      exact Db.put_self _ _
    · intro c
      simp [Db.names, hs, Table.names, Table.addColumn]

end MiniPSQL

namespace PSQLWriter
variable {table : Bytes}

/-- A field that the messages have, with a lower-case name for it and for the table. -/
structure Lower (D : Dialect V) (table field : Bytes) : Prop where
  tableValid : Identifier D.reserved table
  fieldValid : Identifier D.reserved field
  tableFold : fold table = table
  fieldFold : fold field = field

lemma checkField_kept {w : Worker} {s : World D.server} {seen fields : List Bytes} {e : Bytes × VarT}
    (hl : Lower D table e.1) (hk : Kept table seen w s.db) (hfields : ∀ f ∈ fields, f ∈ seen) :
    Returns (checkField table fields e) w s fun fields' v t =>
      Kept table (seen ++ [e.1]) v t.db ∧ ∀ f ∈ fields', f ∈ fields ++ [e.1] := by
  obtain ⟨schema, hw, hm, hseen⟩ := hk
  have hcached : cachedSchema w table = schema := by simp [cachedSchema, hw]
  have hsearch : binarySearch firstLt schema (e.1, ([] : Bytes)) = true ↔ e.1 ∈ schema.map (·.1) := by
    rw [binarySearch_iff schema hm.sorted]
    simp
  have hall : e.1 ∈ schema.map (·.1) → ∀ f ∈ seen ++ [e.1], f ∈ schema.map (·.1) := by
    intro hmem f hf
    rcases List.mem_append.mp hf with hf | hf
    · exact hseen f hf
    · exact List.mem_singleton.mp hf ▸ hmem
  unfold checkField
  by_cases hf : e.1 ∈ fields
  · rw [if_pos hf]
    exact Outcome.pure ⟨⟨schema, hw, hm, hall (hseen e.1 (hfields e.1 hf))⟩, fun _ => List.mem_append_left _⟩
  rw [if_neg hf]
  refine Outcome.get_bind ?_
  rw [hcached]
  by_cases hmem : e.1 ∈ schema.map (·.1)
  · rw [hsearch.mpr hmem]
    exact Outcome.pure ⟨⟨schema, hw, hm, hall hmem⟩, fun _ => id⟩
  · have hb : binarySearch firstLt schema (e.1, ([] : Bytes)) = false :=
      Bool.eq_false_iff.mpr fun h => hmem (hsearch.mp h)
    rw [hb]
    have hnew : e.1 ∉ Db.names s.db table := fun h => hmem ((hm.columns e.1).mpr h)
    refine (MiniPSQL.addColumn_returns w s hl.tableValid hl.fieldValid hl.tableFold hl.fieldFold e.2 hm.filled hnew).seq
      fun _ v t h => ?_
    obtain ⟨rfl, tb, htb, hnames⟩ := h
    refine Outcome.bind (Outcome.modify (Outcome.pure ⟨?_, fun _ => id⟩))
    rw [hcached]
    have hlisted : ∀ c, c ∈ (sortPairs (schema ++ [(e.1, columnType e.2)])).map (·.1) ↔
        c ∈ schema.map (·.1) ∨ c = e.1 := by
      intro c
      simp [or_and_right, exists_or, eq_comm]
    refine ⟨sortPairs (schema ++ [(e.1, columnType e.2)]), Function.update_self _ _ _,
      ⟨sortPairs_sorted _, fun c => ?_, fun t' ht' => ?_⟩, fun f hf => ?_⟩
    · have hc := hnames c
      rw [hlisted, hm.columns]
      simp only [Db.names, htb, Option.map_some, Option.getD_some] at hc ⊢
      exact hc.symm
    · obtain rfl : tb = t' := Option.some.inj (htb.symm.trans ht')
      exact List.ne_nil_of_mem ((hnames e.1).mpr (Or.inr rfl))
    · rw [hlisted]
      rcases List.mem_append.mp hf with hf | hf
      · exact Or.inl (hseen f hf)
      · exact Or.inr (List.mem_singleton.mp hf)

/-- The fields of messages. -/
def fieldNames (ms : List Message) : List Bytes := ms.flatMap Message.keys

lemma mem_entries_names (H : HashOrder) (work : List Message) (f : Bytes) :
    f ∈ (work.flatMap H.entries).map (·.1) ↔ f ∈ fieldNames work := by
  have h := mem_fieldsOf H work (f := f)
  unfold fieldsOf at h
  rw [mem_firsts_keys] at h
  simpa [fieldNames] using h

lemma checkEntries_kept {w : Worker} {s : World D.server} {seen fields : List Bytes} (es : List (Bytes × VarT))
    (hl : ∀ e ∈ es, Lower D table e.1) (hk : Kept table seen w s.db) (hfields : ∀ f ∈ fields, f ∈ seen) :
    Returns (es.foldlM (checkField table) fields) w s fun fields' v t =>
      Kept table (seen ++ es.map (·.1)) v t.db ∧ ∀ f ∈ fields', f ∈ fields ++ es.map (·.1) := by
  induction es generalizing w s seen fields with
  | nil => exact Outcome.pure ⟨hk.subset (by simp), by simp⟩
  | cons e es ih =>
    rw [List.foldlM_cons]
    refine (checkField_kept (hl e List.mem_cons_self) hk hfields).seq fun fields' v t h => ?_
    have hfields' : ∀ f ∈ fields', f ∈ seen ++ [e.1] := fun f hf =>
      List.mem_append.mpr ((List.mem_append.mp (h.2 f hf)).imp_left (hfields f))
    refine (ih (fun e' he' => hl e' (List.mem_cons_of_mem _ he')) h.1 hfields').weaken
      (fun fs u t' h' => ⟨by simpa using h'.1, fun f hf => ?_⟩) fun _ _ _ h => h
    rw [List.map_cons, List.append_cons]
    exact List.mem_append.mpr ((List.mem_append.mp (h'.2 f hf)).imp_left (h.2 f))

/-- Either nothing was done for the table, which is not there, or its columns are cached. -/
def Known (table : Bytes) (seen : List Bytes) (w : Worker) (db : Db V) : Prop :=
  (w.schemas table = none ∧ db table = none ∧ seen = []) ∨ Kept table seen w db

/-- The part of `processTable` before the `INSERT`. -/
def prepare (H : HashOrder) (e : Bytes × List Message) : M (List Bytes) := do
  let w ← get
  if (w.schemas e.1).isNone then
    let schema ← MiniPSQL.getSchema e.1
    modify fun w => setSchema w e.1 schema
  checkFields H e.1 e.2

lemma processTable_eq (H : HashOrder) (e : Bytes × List Message) : processTable H e = (do
    let fields ← prepare H e
    let _ ← MiniPSQL.exec (.insert e.1 (H.ofSet fields) e.2)
    commitIfLater) := by
  unfold processTable prepare
  rw [bind_assoc]
  refine congrArg (get >>= ·) (funext fun w => ?_)
  by_cases h : (w.schemas e.1).isNone
  · simp only [if_pos h, bind_assoc]
  · simp only [if_neg h]

lemma prepare_kept (H : HashOrder) {w : Worker} {s : World D.server} {seen : List Bytes} {work : List Message}
    (ht : Identifier D.reserved table) (hl : ∀ f ∈ fieldNames work, Lower D table f) (hk : Known table seen w s.db) :
    Returns (prepare H (table, work)) w s fun fields v t =>
      Kept table (seen ++ fieldNames work) v t.db ∧ ∀ f ∈ fields, f ∈ fieldNames work := by
  have hentries : ∀ {w : Worker} {s : World D.server}, Kept table seen w s.db →
      Returns (checkFields H table work) w s fun fields v t =>
        Kept table (seen ++ fieldNames work) v t.db ∧ ∀ f ∈ fields, f ∈ fieldNames work := by
    intro w s hkept
    have hes : ∀ e ∈ work.flatMap H.entries, Lower D table e.1 := fun e he =>
      hl e.1 ((mem_entries_names H work e.1).mp (List.mem_map_of_mem he))
    refine (checkEntries_kept _ hes hkept (fun f hf => absurd hf List.not_mem_nil)).weaken (fun fields v t h => ?_) fun _ _ _ h => h
    refine ⟨h.1.subset fun f hf => ?_, fun f hf => (mem_entries_names H work f).mp (h.2 f hf)⟩
    rw [List.mem_append, mem_entries_names]
    exact List.mem_append.mp hf
  unfold prepare
  refine Outcome.get_bind ?_
  rcases hk with ⟨hw, hdb, rfl⟩ | hk
  · rw [if_pos (by simp [hw])]
    refine Outcome.bind ((MiniPSQL.getSchema_returns w s ht).weaken (fun schema v t h => ?_) fun _ _ _ h => h)
    obtain ⟨rfl, rfl, hdb'⟩ := h
    refine Outcome.bind (Outcome.modify (hentries ?_))
    have hmirrors := MiniPSQL.schemaRead_mirrors (s.db) table (by simp [hdb])
    refine ⟨MiniPSQL.schemaRead s.db table, Function.update_self _ _ _, ?_, by simp⟩
    rw [hdb']
    exact hmirrors
  · obtain ⟨schema, hw, -⟩ := id hk
    rw [if_neg (by simp [hw])]
    exact hentries hk

lemma commitIfLater_returns (w : Worker) (s : World D.server) :
    Returns commitIfLater w s fun _ v t => v.schemas = w.schemas ∧ t.db = s.db := by
  unfold commitIfLater
  refine Outcome.get_bind (Outcome.bind (Outcome.ask ?_))
  have htime : (World.answer D.server .time s).2.db = s.db := World.arrive_db s
  split_ifs with h
  · refine (MiniPSQL.exec_returns w _ answer_commit).seq fun _ v t h => ?_
    obtain ⟨rfl, -, hcommit⟩ := h
    refine (MiniPSQL.exec_returns v t answer_begin).seq fun _ v' t' h => ?_
    obtain ⟨rfl, -, hbegin⟩ := h
    refine Outcome.bind (Outcome.ask (Outcome.modify ⟨rfl, ?_⟩))
    change t'.arrive.db = s.db
    rw [World.arrive_db, hbegin, hcommit, htime]
  · exact Outcome.pure ⟨rfl, htime⟩

lemma insert_kept {w : Worker} {s : World D.server} {seen : List Bytes} (fields : List Bytes) (work : List Message)
    (hk : Kept table seen w s.db) :
    Outcome (World.answer D.server) (do
      let _ ← MiniPSQL.exec (.insert table fields work)
      commitIfLater) w s (fun _ v t => Kept table seen v t.db) fun _ _ _ => True := by
  obtain ⟨hresult, hdb⟩ := World.answer_exec_db s (.insert table fields work)
  have hnames := answer_insert_names (D := D) table fields work s.db table
  cases hanswer : D.server.answer (.insert table fields work) s.db with
  | mk result db =>
    rw [hanswer] at hnames hresult hdb
    cases result with
    | ok rows =>
      refine ((MiniPSQL.exec_returns w s hanswer).weaken (fun _ _ _ h => h) fun _ _ _ h => h.elim).seq fun _ v t h => ?_
      obtain ⟨rfl, -, hdb'⟩ := h
      refine (commitIfLater_returns v t).weaken (fun _ u t' h => ?_) fun _ _ _ h => h.elim
      obtain ⟨hu, ht'⟩ := h
      refine hk.of_names hu ?_
      rw [ht', hdb']
      exact hnames
    | error msg =>
      refine Outcome.bind ?_
      unfold MiniPSQL.exec
      refine Outcome.bind (Outcome.ask ?_)
      rw [hresult]
      exact Outcome.throw trivial

lemma processTable_kept (H : HashOrder) {w : Worker} {s : World D.server} {seen : List Bytes} {work : List Message}
    (ht : Identifier D.reserved table) (hl : ∀ f ∈ fieldNames work, Lower D table f) (hk : Known table seen w s.db) :
    Outcome (World.answer D.server) (processTable H (table, work)) w s
      (fun _ v t => Known table (seen ++ fieldNames work) v t.db) fun _ _ _ => True := by
  rw [processTable_eq]
  refine ((prepare_kept H ht hl hk).weaken (fun _ _ _ h => h) fun _ _ _ h => h.elim).seq fun fields v t h => ?_
  exact (insert_kept (H.ofSet fields) work h.1).weaken (fun _ _ _ h => Or.inr h) fun _ _ _ h => h

lemma processTables_kept (H : HashOrder) {w : Worker} {s : World D.server} {seen : List Bytes}
    (ht : Identifier D.reserved table) (done : List (List Message))
    (hl : ∀ f ∈ fieldNames done.flatten, Lower D table f) (hk : Known table seen w s.db) :
    Outcome (World.answer D.server) (done.forM fun work => processTable H (table, work)) w s
      (fun _ v t => Known table (seen ++ fieldNames done.flatten) v t.db) fun _ _ _ => True := by
  induction done generalizing w s seen with
  | nil => exact Outcome.pure (by simpa [fieldNames] using hk)
  | cons work done ih =>
    have hsplit : fieldNames (work :: done).flatten = fieldNames work ++ fieldNames done.flatten := by
      simp [fieldNames]
    rw [hsplit] at hl ⊢
    refine (processTable_kept H ht (fun f hf => hl f (List.mem_append_left _ hf)) hk).seq fun _ v t h => ?_
    have hnext := ih (fun f hf => hl f (List.mem_append_right _ hf)) h
    rwa [List.append_assoc] at hnext

/-- The columns are there for the `INSERT` of a batch: its preparation returns, the schema query then lists
each field once, and the `INSERT` names columns that its table has. -/
def Ready (D : Dialect V) (H : HashOrder) (table : Bytes) (seen : List Bytes) (work : List Message) (w : Worker)
    (s : World D.server) : Prop :=
  Outcome (World.answer D.server) (prepare H (table, work)) w s
    (fun fields v t =>
      Outcome (World.answer D.server) (MiniPSQL.getSchema table) v t
        (fun schema _ _ => ∀ f ∈ seen, (schema.map (·.1)).count f = 1) (fun _ _ _ => False) ∧
      (fields ≠ [] → ∃ u columns nss,
        Reading.read D.reserved (Statement.insert table (H.ofSet fields) work).text = some (.insert u columns nss) ∧
          ∀ c ∈ columns, c ∈ Db.names t.db u))
    fun _ _ _ => False

/-- All statements about these fields mean one table, and one column for each. -/
def SameNames (D : Dialect V) (table : Bytes) (fields : List Bytes) : Prop :=
  ∃ u, ∃ column : Bytes → Bytes, Reading.read D.reserved (Statement.schema table).text = some (.columns u) ∧
    (∀ f ∈ fields, ∀ v, Reading.read D.reserved (Statement.create table f (columnType v)).text =
        some (.createTable u (column f) (fold (columnType v))) ∧
      Reading.read D.reserved (Statement.alter table f (columnType v)).text =
        some (.addColumn u (column f) (fold (columnType v)))) ∧
    ∀ fs n, fs ≠ [] → n ≠ 0 → (∀ f ∈ fs, f ∈ fields) → Reading.read D.reserved (insertText table fs n) =
      some (.insert u (fs.map column) (numbers fs.length 1 n))

lemma sameNames_iff {fields : List Bytes} (ht : Identifier D.reserved table)
    (hf : ∀ f ∈ fields, Identifier D.reserved f) :
    SameNames D table fields ↔ ∀ f ∈ fields, fold table = table ∧ fold f = f := by
  have hschema : Reading.read D.reserved (Statement.schema table).text = some (.columns table) :=
    read_schema ht.nul (ht.quote (by decide))
  constructor
  · intro h f hmem
    obtain ⟨u, column, -, hdefine, -⟩ := h
    obtain ⟨hcreate, halter⟩ := hdefine f hmem (.int32 0)
    rw [read_create ht (hf f hmem)] at hcreate
    rw [read_alter ht (hf f hmem)] at halter
    simp only [Option.some.injEq, Command.createTable.injEq, Command.addColumn.injEq, and_true] at hcreate halter
    exact ⟨hcreate.1.trans halter.1.symm, hcreate.2.trans halter.2.symm⟩
  · intro h
    refine ⟨table, id, hschema, fun f hmem v => ?_, fun fs n hne hn hsub => ?_⟩
    · rw [read_create ht (hf f hmem), read_alter ht (hf f hmem), (h f hmem).1, (h f hmem).2]
      exact ⟨rfl, rfl⟩
    · obtain ⟨f, hmem⟩ := List.exists_mem_of_ne_nil _ hne
      have hfold : fs.map fold = fs.map id := List.map_congr_left fun g hg => (h g (hsub g hg)).2
      rw [read_insert ht (fun g hg => hf g (hsub g hg)) hne hn, (h f (hsub f hmem)).1, hfold]

lemma ready_of_lower (H : HashOrder) {w : Worker} {s : World D.server} {seen : List Bytes} {work : List Message}
    (ht : Identifier D.reserved table) (hl : ∀ f ∈ seen ++ fieldNames work, Lower D table f)
    (hk : Known table seen w s.db) : Ready D H table (seen ++ fieldNames work) work w s := by
  refine (prepare_kept H ht (fun f hf => hl f (List.mem_append_right _ hf)) hk).weaken (fun fields v t h => ?_)
    fun _ _ _ h => h
  obtain ⟨⟨schema, -, hm, hseen⟩, hfields⟩ := h
  have hcolumn : ∀ f ∈ seen ++ fieldNames work, f ∈ Db.names t.db table := fun f hf =>
    (hm.columns f).mp (hseen f hf)
  constructor
  · refine (MiniPSQL.getSchema_returns v t ht).weaken (fun sch u t' h => ?_) fun _ _ _ h => h
    obtain ⟨-, rfl, -⟩ := h
    exact fun f hf => MiniPSQL.schemaRead_count (hcolumn f hf)
  · intro hne
    have hmem : ∀ f ∈ H.ofSet fields, f ∈ seen ++ fieldNames work := fun f hf =>
      List.mem_append_right _ (hfields f ((H.set_perm fields).mem_iff.mp hf))
    have hset : H.ofSet fields ≠ [] := by
      obtain ⟨f, hf⟩ := List.exists_mem_of_ne_nil _ hne
      exact List.ne_nil_of_mem ((H.set_perm fields).mem_iff.mpr hf)
    have hwork : work.length ≠ 0 := by
      obtain ⟨f, hf⟩ := List.exists_mem_of_ne_nil _ hne
      obtain ⟨m, hm, -⟩ := List.mem_flatMap.mp (hfields f hf)
      exact Nat.ne_of_gt (List.length_pos_of_mem hm)
    have hread := read_insert ht (fun f hf => (hl f (hmem f hf)).fieldValid) hset hwork
    refine ⟨_, _, _, hread, fun c hc => ?_⟩
    obtain ⟨f, hf, rfl⟩ := List.mem_map.mp hc
    have hlower := hl f (hmem f hf)
    rw [hlower.tableFold, hlower.fieldFold]
    exact hcolumn f (hmem f hf)

/-- For a table that is not there yet, and over any number of batches: all statements mean the same table and
columns, and each batch finds its columns, exactly when the names are in lower case. -/
theorem same_names_iff_lower (H : HashOrder) (ht : Identifier D.reserved table) (done : List (List Message))
    (work : List Message) (hf : ∀ f ∈ fieldNames (done.flatten ++ work), Identifier D.reserved f) {w : Worker}
    {s : World D.server} (hw : w.schemas table = none) (hdb : (s.db : Db V) table = none) :
    (SameNames D table (fieldNames (done.flatten ++ work)) ∧
      Outcome (World.answer D.server) (done.forM fun work => processTable H (table, work)) w s
        (fun _ v t => Ready D H table (fieldNames (done.flatten ++ work)) work v t) fun _ _ _ => True) ↔
    ∀ f ∈ fieldNames (done.flatten ++ work), fold table = table ∧ fold f = f := by
  rw [sameNames_iff ht hf]
  refine ⟨fun h => h.1, fun h => ⟨h, ?_⟩⟩
  have hsplit : fieldNames (done.flatten ++ work) = fieldNames done.flatten ++ fieldNames work := by
    simp [fieldNames]
  have hl : ∀ f ∈ fieldNames done.flatten ++ fieldNames work, Lower D table f := by
    intro f hmem
    rw [← hsplit] at hmem
    exact ⟨ht, hf f hmem, (h f hmem).1, (h f hmem).2⟩
  rw [hsplit]
  refine (processTables_kept H ht done (fun f hf => hl f (List.mem_append_left _ hf))
    (Or.inl ⟨hw, hdb, rfl⟩)).weaken (fun _ v t h => ?_) fun _ _ _ h => h
  exact ready_of_lower H ht hl h

theorem same_names_iff_lower_twoBatches :
    let first := [message (ascii "data") [(ascii "test", .int32 1)]]
    let second := [message (ascii "data") [(ascii "temp", .double 0), (ascii "test", .int32 2)]]
    let s : World plainDialect.server := World.fresh (fun _ => none) fun _ => []
    SameNames plainDialect (ascii "data") [ascii "test", ascii "temp", ascii "test"] ∧
      Outcome (World.answer plainDialect.server) ([first].forM fun work =>
        processTable insertionOrder (ascii "data", work)) start s
        (fun _ v t => Ready plainDialect insertionOrder (ascii "data")
          [ascii "test", ascii "temp", ascii "test"] second v t) fun _ _ _ => True := by
  intro first second s
  have hvalid : Identifier plainDialect.reserved (ascii "data") := by decide +kernel
  have hfields : fieldNames ([first].flatten ++ second) = [ascii "test", ascii "temp", ascii "test"] := by decide
  have hall : ∀ f ∈ fieldNames ([first].flatten ++ second), Identifier plainDialect.reserved f := by
    rw [hfields]
    decide +kernel
  have hiff := same_names_iff_lower (D := plainDialect) insertionOrder hvalid [first] second hall
    (w := start) (s := s) rfl rfl
  have hlower : ∀ f ∈ [ascii "test", ascii "temp", ascii "test"],
      fold (ascii "data") = ascii "data" ∧ fold f = f := by decide +kernel
  rw [hfields] at hiff
  exact hiff.mpr hlower

/-- The second field of a table is added as it is written, and inserted in lower case, in whatever order the
fields of a message are walked; and a table with an upper case name is never found. -/
theorem upper_case_means_another :
    let s : World plainDialect.server := World.fresh (fun _ => none) fun _ => []
    let work := [message (ascii "data") [(ascii "test", .int32 1)], message (ascii "data") [(ascii "Temp", .double 0)]]
    let r := (prepare insertionOrder (ascii "data", work)).invoke (World.answer plainDialect.server) start s
    let r' := (prepare insertionOrder (ascii "Data", work)).invoke (World.answer plainDialect.server) start s
    (Db.names r.2.2.db (ascii "data") = [ascii "test", ascii "Temp"] ∧
      Reading.read plainDialect.reserved (Statement.insert (ascii "data") [ascii "test", ascii "Temp"] work).text =
        some (.insert (ascii "data") [ascii "test", ascii "temp"] [[1, 2], [3, 4]]) ∧
      ((processTable insertionOrder (ascii "data", work)).invoke (World.answer plainDialect.server) start s).1.isOk =
        false) ∧
    MiniPSQL.schemaRead r'.2.2.db (ascii "Data") = [] := by
  refine ⟨⟨?_, ?_, ?_⟩, ?_⟩
  · decide +kernel
  · decide +kernel
  · decide +kernel
  · decide +kernel

end PSQLWriter
end SqliteWrite.Psql
