import SqliteWrite.Lib.Outcomes
import SqliteWrite.Postgres.PSQLWriter

/-! What the worker takes from the pipe and sends to the server, one rule for each of its methods. A
run is a sequence of batches, and a batch the work for one table after the other. -/
namespace SqliteWrite.Psql
open Method (Outcome)

variable {S : Server}

abbrev Log := List (Statement × Except Bytes Rows)

namespace World

/-- From `s` to `t` the worker has taken the messages `seg` from the pipe and sent the statements
`lg`. The other threads have written messages, while the pipe was open. -/
structure Went (s : World S) (seg : List Message) (lg : Log) (t : World S) : Prop where
  log : t.log = s.log ++ lg
  wrote : ∃ d, t.sent = s.sent ++ d ∧ s.pipe ++ d = seg ++ t.pipe ∧ (s.closed = true → d = [])
  closed : s.closed = true → t.closed = true
  polls : t.polls = s.polls

lemma Went.refl (s : World S) : s.Went [] [] s :=
  ⟨by simp, ⟨[], by simp⟩, id, rfl⟩

lemma Went.trans {s t u : World S} {seg seg' : List Message} {lg lg' : Log} (h : s.Went seg lg t)
    (k : t.Went seg' lg' u) : s.Went (seg ++ seg') (lg ++ lg') u := by
  obtain ⟨d, hsent, hpipe, hd⟩ := h.wrote
  obtain ⟨d', hsent', hpipe', hd'⟩ := k.wrote
  refine ⟨?_, ⟨d ++ d', ?_, ?_, ?_⟩, fun hc => k.closed (h.closed hc), k.polls.trans h.polls⟩
  · rw [k.log, h.log, List.append_assoc]
  · rw [hsent', hsent, List.append_assoc]
  · rw [← List.append_assoc, hpipe, List.append_assoc, hpipe', List.append_assoc]
  · intro hc
    rw [hd hc, hd' (h.closed hc), List.append_nil]

lemma event_went (s : World S) (e : Event) : s.Went [] [] (s.event e) := by
  cases e with
  | addValue table values =>
    by_cases hc : s.closed = true
    · simpa [event, hc] using Went.refl s
    · exact ⟨by simp [event, hc], ⟨[message table values], by simp [event, hc], by simp [event, hc],
        fun h => absurd h hc⟩, fun h => absurd h hc, by simp [event, hc]⟩
  | close => exact ⟨by simp [event], ⟨[], by simp [event]⟩, fun _ => rfl, rfl⟩

lemma events_went (s : World S) (es : List Event) : s.Went [] [] (es.foldl event s) := by
  induction es generalizing s with
  | nil => exact Went.refl s
  | cons e es ih => exact (event_went s e).trans (ih (s.event e))

lemma arrive_went (s : World S) : s.Went [] [] s.arrive := by
  obtain ⟨h1, h2, h3, h4⟩ := events_went s (s.arrivals s.now)
  exact ⟨h1, h2, h3, h4⟩

lemma send_went (s : World S) (st : Statement) : s.Went [] [(st, (s.send st).1)] (s.send st).2 :=
  ⟨rfl, ⟨[], by simp [send]⟩, id, rfl⟩

lemma read_cases (s : World S) :
    (∃ m, s.read.1 = .message m ∧ s.Went [m] [] s.read.2) ∨
    (s.read.1 = .eof ∧ s.read.2 = s ∧ s.pipe = [] ∧ s.closed = true) ∨
    (s.read.1 = .again ∧ s.read.2 = s ∧ s.pipe = [] ∧ s.closed = false) := by
  cases hp : s.pipe with
  | cons m rest =>
    refine Or.inl ⟨m, by simp [read, hp], ?_⟩
    exact ⟨by simp [read, hp], ⟨[], by simp [read, hp]⟩, by simp [read, hp], by simp [read, hp]⟩
  | nil =>
    cases hc : s.closed with
    | true => exact Or.inr (Or.inl (by simp [read, hp, hc]))
    | false => exact Or.inr (Or.inr (by simp [read, hp, hc]))

/-- A statement was rejected, or waiting failed. -/
def Stuck (s : World S) : Prop := (∃ e ∈ s.log, ∃ msg, e.2 = .error msg) ∨ ∃ n, s.polls n = -1

lemma Went.empty {s t : World S} {lg : Log} (h : s.Went [] lg t) (hp : s.pipe = [])
    (hc : s.closed = true) : t.pipe = [] ∧ t.closed = true := by
  obtain ⟨d, -, hpipe, hd⟩ := h.wrote
  rw [hp, hd hc] at hpipe
  exact ⟨hpipe.symm, h.closed hc⟩

end World

/-- The call returns as `R` says, unless the server rejects a statement or waiting fails. -/
abbrev Yields {α : Type} (m : M α) (w : Worker) (s : World S) (R : α → Worker → World S → Prop) : Prop :=
  Outcome (World.answer S) m w s R fun _ _ t => t.Stuck

/-- The rows of a result as names and types, sorted by name. -/
def schemaOf (rows : Rows) : List (Bytes × Bytes) :=
  sortByFirst ((rows.takeWhile fun row => !row.isEmpty).map fun r => (r.getD 0 [], r.getD 1 []))

namespace MiniPSQL
variable (w : Worker) (s : World S)

lemma exec_spec (st : Statement) : Yields (exec st) w s fun rows v t => v = w ∧
    ∃ r, rows = r.takeWhile (fun row => !row.isEmpty) ∧ s.Went [] [(st, .ok r)] t := by
  have hwent : s.Went [] [(st, (World.answer S (.exec st) s).1)] (World.answer S (.exec st) s).2 :=
    (World.arrive_went s).trans (World.send_went s.arrive st)
  unfold exec
  refine Outcome.bind (Outcome.ask ?_)
  generalize World.answer S (.exec st) s = r at hwent ⊢
  obtain ⟨x, t⟩ := r
  cases x with
  | ok rows => exact Outcome.pure ⟨rfl, rows, rfl, hwent⟩
  | error msg =>
    refine Outcome.throw (Or.inl ⟨(st, .error msg), ?_, msg, rfl⟩)
    rw [hwent.log]
    simp

lemma getSchema_spec (table : Bytes) : Yields (getSchema table) w s fun schema v t => v = w ∧
    ∃ r, schema = schemaOf r ∧ s.Went [] [(.schema table, .ok r)] t := by
  unfold getSchema
  refine (exec_spec w s (.schema table)).seq fun rows v t h => ?_
  obtain ⟨rfl, r, rfl, hwent⟩ := h
  exact Outcome.pure ⟨rfl, r, rfl, hwent⟩

lemma haveTable_spec (table : Bytes) : Yields (haveTable table) w s fun b v t => v = w ∧
    ∃ r, b = !(schemaOf r).isEmpty ∧ s.Went [] [(.schema table, .ok r)] t := by
  unfold haveTable
  refine (getSchema_spec w s table).seq fun schema v t h => ?_
  obtain ⟨rfl, r, rfl, hwent⟩ := h
  exact Outcome.pure ⟨rfl, r, rfl, hwent⟩

lemma addColumn_spec (table name type : Bytes) :
    Yields (addColumn table name type) w s fun _ v t => v = w ∧ ∃ r r' st,
      (st = .create table name type ∨ st = .alter table name type) ∧
      s.Went [] [(.schema table, .ok r), (st, .ok r')] t := by
  unfold addColumn
  refine (haveTable_spec w s table).seq fun b v t h => ?_
  obtain ⟨rfl, r, -, hwent⟩ := h
  have hexec : ∀ st, (st = Statement.create table name type ∨ st = .alter table name type) →
      Yields (do let _ ← exec st) v t fun _ u t' => u = v ∧ ∃ r r' st,
        (st = .create table name type ∨ st = .alter table name type) ∧
        s.Went [] [(.schema table, .ok r), (st, .ok r')] t' := by
    intro st hst
    refine (exec_spec v t st).seq fun rows u t' h => ?_
    obtain ⟨hu, r', -, hwent'⟩ := h
    exact Outcome.pure ⟨hu, r, r', st, hst, hwent.trans hwent'⟩
  cases b with
  | false => exact hexec _ (Or.inl rfl)
  | true => exact hexec _ (Or.inr rfl)

end MiniPSQL

abbrev Schemas := Bytes → Option (List (Bytes × Bytes))

/-- The columns that are added for entries whose fields were not seen before and have no column. -/
def missing (known seen : List Bytes) (es : List (Bytes × VarT)) : List (Bytes × Bytes) :=
  ((firsts seen es).filter fun e => e.1 ∉ known).map fun e => (e.1, columnType e.2)

/-- The statements that add columns to a table. -/
inductive Adds (table : Bytes) : List (Bytes × Bytes) → Log → Prop
  | nil : Adds table [] []
  | cons {name type : Bytes} {cols : List (Bytes × Bytes)} {lg : Log} {st : Statement} {r r' : Rows}
    (statement : st = .create table name type ∨ st = .alter table name type) (rest : Adds table cols lg) :
    Adds table ((name, type) :: cols) ((.schema table, .ok r) :: (st, .ok r') :: lg)

/-- The field names of a table's messages, as they are met first. -/
def fieldsOf (H : HashOrder) (work : List Message) : List Bytes :=
  (firsts [] (work.flatMap H.entries)).map (·.1)

/-- The columns that a table's messages need and that a schema does not list. -/
def newColumns (H : HashOrder) (schema : List (Bytes × Bytes)) (work : List Message) :
    List (Bytes × Bytes) := missing (schema.map (·.1)) [] (work.flatMap H.entries)

/-- The work for one table: where its schema is not yet known it is looked up; the missing columns are
added; one `INSERT` is sent; and the transaction may be committed. -/
inductive TableWork (H : HashOrder) (known : Schemas) (e : Bytes × List Message) : Log → Schemas → Prop
  | mk {schema schema' : List (Bytes × Bytes)} {look adds commits : Log} {r : Rows}
    (looked : (known e.1 = some schema ∧ look = []) ∨
      (known e.1 = none ∧ ∃ rows, look = [(.schema e.1, .ok rows)] ∧ schema = schemaOf rows))
    (added : Adds e.1 (newColumns H schema e.2) adds)
    (sorted : SortedByFirst schema')
    (extended : schema'.Perm (schema ++ newColumns H schema e.2))
    (steered : ∀ x ∈ commits, x.1 = .commit ∨ x.1 = .begin) :
    TableWork H known e
      (look ++ adds ++ (.insert e.1 (H.ofSet (fieldsOf H e.2)) e.2, .ok r) :: commits)
      (Function.update known e.1 (some schema'))

/-- The work for one table after the other. -/
inductive Works (H : HashOrder) : Schemas → List (Bytes × List Message) → Log → Schemas → Prop
  | nil {known : Schemas} : Works H known [] [] known
  | cons {known known' known'' : Schemas} {e : Bytes × List Message} {es : List (Bytes × List Message)}
    {lg lg' : Log} (first : TableWork H known e lg known') (rest : Works H known' es lg' known'') :
    Works H known (e :: es) (lg ++ lg') known''

lemma Works.append {H : HashOrder} {known known' known'' : Schemas} {es es' : List (Bytes × List Message)}
    {lg lg' : Log} (h : Works H known es lg known') (k : Works H known' es' lg' known'') :
    Works H known (es ++ es') (lg ++ lg') known'' := by
  induction h with
  | nil => exact k
  | cons first rest ih =>
    rw [List.append_assoc]
    exact Works.cons first (ih k)

/-- Messages that one batch may take: so many at most, and all but the last leave the sum of the
parameters below its limit. -/
def Fits : ℕ → Int32 → List Message → Prop
  | _, _, [] => True
  | 0, _, _ :: _ => False
  | n + 1, sumparms, m :: seg => sumparms < 60000 ∧ Fits n (sumparms + Int32.ofNat m.values.length) seg

/-- The messages of a batch by table. -/
def tabwork (seg : List Message) : Groups Bytes Message := Groups.empty.fileAll (·.table) seg

namespace PSQLWriter

/-- Every cached schema can be searched. -/
def Sorted (known : Schemas) : Prop := ∀ table schema, known table = some schema → SortedByFirst schema

lemma setSchema_self {w : Worker} {table : Bytes} {schema : List (Bytes × Bytes)}
    (h : w.schemas table = some schema) : setSchema w table schema = w := by
  have hu : Function.update w.schemas table (some schema) = w.schemas := by
    rw [← h]
    exact Function.update_eq_self _ _
  unfold setSchema
  rw [hu]

lemma setSchema_setSchema (w : Worker) (table : Bytes) (schema schema' : List (Bytes × Bytes)) :
    setSchema (setSchema w table schema) table schema' = setSchema w table schema' := by
  simp [setSchema]

/-- The three ways of a field: it was met before in the batch, or its column is known, or it is added. -/
lemma checkField_spec (w : Worker) (s : World S) {table : Bytes} {schema : List (Bytes × Bytes)}
    (hw : w.schemas table = some schema) (hsort : SortedByFirst schema) (fields : List Bytes)
    (e : Bytes × VarT) : Yields (checkField table fields e) w s fun fields' v t =>
      (e.1 ∈ fields ∧ fields' = fields ∧ v = w ∧ s.Went [] [] t) ∨
      (e.1 ∉ fields ∧ e.1 ∈ schema.map (·.1) ∧ fields' = fields ++ [e.1] ∧ v = w ∧ s.Went [] [] t) ∨
      (e.1 ∉ fields ∧ e.1 ∉ schema.map (·.1) ∧ fields' = fields ++ [e.1] ∧
        v = setSchema w table (sortPairs (schema ++ [(e.1, columnType e.2)])) ∧ ∃ r r' st,
        (st = .create table e.1 (columnType e.2) ∨ st = .alter table e.1 (columnType e.2)) ∧
        s.Went [] [(.schema table, .ok r), (st, .ok r')] t) := by
  have hcached : cachedSchema w table = schema := by simp [cachedSchema, hw]
  have hsearch : binarySearch firstLt schema (e.1, ([] : Bytes)) = true ↔ e.1 ∈ schema.map (·.1) := by
    rw [binarySearch_iff schema hsort]
    simp
  unfold checkField
  by_cases hf : e.1 ∈ fields
  · rw [if_pos hf]
    exact Outcome.pure (Or.inl ⟨hf, rfl, rfl, World.Went.refl s⟩)
  rw [if_neg hf]
  refine Outcome.get_bind ?_
  rw [hcached]
  by_cases hk : e.1 ∈ schema.map (·.1)
  · rw [hsearch.mpr hk]
    exact Outcome.pure (Or.inr (Or.inl ⟨hf, hk, rfl, rfl, World.Went.refl s⟩))
  · have hb : binarySearch firstLt schema (e.1, ([] : Bytes)) = false :=
      Bool.eq_false_iff.mpr fun h => hk (hsearch.mp h)
    rw [hb]
    refine (MiniPSQL.addColumn_spec w s table e.1 (columnType e.2)).seq fun _ v t h => ?_
    obtain ⟨rfl, r, r', st, hst, hwent⟩ := h
    refine Outcome.bind (Outcome.modify (Outcome.pure (Or.inr (Or.inr ⟨hf, hk, rfl, ?_, r, r', st, hst,
      hwent⟩))))
    rw [hcached]

lemma missing_cons_new {known seen : List Bytes} {e : Bytes × VarT} {es : List (Bytes × VarT)}
    (hs : e.1 ∉ seen) (hk : e.1 ∉ known) :
    missing known seen (e :: es) = (e.1, columnType e.2) :: missing known (seen ++ [e.1]) es := by
  simp [missing, firsts, hs, hk]

lemma missing_congr {known known' seen : List Bytes} {es : List (Bytes × VarT)}
    (h : ∀ f, f ∉ seen → (f ∈ known ↔ f ∈ known')) : missing known seen es = missing known' seen es := by
  unfold missing
  congr 1
  apply List.filter_congr
  intro e he
  have hseen := (mem_firsts_keys.mp (List.mem_map_of_mem (f := (·.1)) he)).2
  simp [h e.1 hseen]

lemma checkEntries_spec (table : Bytes) (es : List (Bytes × VarT)) (w : Worker) (s : World S)
    {schema : List (Bytes × Bytes)} (hw : w.schemas table = some schema) (hsort : SortedByFirst schema)
    (fields : List Bytes) : Yields (es.foldlM (checkField table) fields) w s fun fields' v t =>
      fields' = fields ++ (firsts fields es).map (·.1) ∧ ∃ schema' lg, v = setSchema w table schema' ∧
        SortedByFirst schema' ∧ schema'.Perm (schema ++ missing (schema.map (·.1)) fields es) ∧
        Adds table (missing (schema.map (·.1)) fields es) lg ∧ s.Went [] lg t := by
  induction es generalizing w s schema fields with
  | nil =>
    refine Outcome.pure ⟨by simp [firsts], schema, [], (setSchema_self hw).symm, hsort, ?_, Adds.nil,
      World.Went.refl s⟩
    simp [missing, firsts]
  | cons e es ih =>
    rw [List.foldlM_cons]
    refine (checkField_spec w s hw hsort fields e).seq fun fields' v t h => ?_
    rcases h with ⟨hf, rfl, rfl, hwent⟩ | ⟨hf, hk, rfl, rfl, hwent⟩ |
      ⟨hf, hk, rfl, rfl, r, r', st, hst, hwent⟩
    · have hmissing : missing (schema.map (·.1)) fields' (e :: es) =
          missing (schema.map (·.1)) fields' es := by simp [missing, firsts, hf]
      refine (ih v t hw hsort fields').weaken (fun fs u t' h => ?_) fun _ _ _ h => h
      obtain ⟨hfs, schema', lg, hu, hsort', hperm, hadds, hwent'⟩ := h
      rw [hmissing]
      refine ⟨by simpa [firsts, hf] using hfs, schema', lg, hu, hsort', hperm, hadds, ?_⟩
      simpa using hwent.trans hwent'
    · have hmissing : missing (schema.map (·.1)) fields (e :: es) =
          missing (schema.map (·.1)) (fields ++ [e.1]) es := by
        unfold missing
        simp only [firsts, if_neg hf, List.filter_cons]
        rw [if_neg (by simpa using hk)]
      refine (ih v t hw hsort (fields ++ [e.1])).weaken (fun fs u t' h => ?_) fun _ _ _ h => h
      obtain ⟨hfs, schema', lg, hu, hsort', hperm, hadds, hwent'⟩ := h
      rw [hmissing]
      refine ⟨by simpa [firsts, hf] using hfs, schema', lg, hu, hsort', hperm, hadds, ?_⟩
      simpa using hwent.trans hwent'
    · -- The cached schema grows by the new column, which is a field that was seen from now on.
      have hv : (setSchema w table (sortPairs (schema ++ [(e.1, columnType e.2)]))).schemas table =
          some (sortPairs (schema ++ [(e.1, columnType e.2)])) := by simp [setSchema]
      have hsame : missing ((sortPairs (schema ++ [(e.1, columnType e.2)])).map (·.1)) (fields ++ [e.1]) es =
          missing (schema.map (·.1)) (fields ++ [e.1]) es := by
        apply missing_congr
        intro f hfs
        have hne : e.1 ≠ f := fun heq => hfs (by simp [heq])
        simp [hne]
      have hgrown : (sortPairs (schema ++ [(e.1, columnType e.2)])).Perm
          (schema ++ [(e.1, columnType e.2)]) := List.perm_insertionSort _ _
      refine (ih _ t hv (sortPairs_sorted _) (fields ++ [e.1])).weaken (fun fs u t' h => ?_) fun _ _ _ h => h
      obtain ⟨hfs, schema', lg, hu, hsort', hperm, hadds, hwent'⟩ := h
      rw [hsame] at hperm hadds
      rw [missing_cons_new hf hk]
      refine ⟨by simpa [firsts, hf] using hfs, schema', _ :: _ :: lg, ?_, hsort', ?_,
        Adds.cons hst hadds, hwent.trans hwent'⟩
      · rw [hu, setSchema_setSchema]
      · have hsplit : ∀ cols, schema ++ (e.1, columnType e.2) :: cols =
            (schema ++ [(e.1, columnType e.2)]) ++ cols := by simp
        rw [hsplit]
        exact hperm.trans (hgrown.append_right _)

lemma commitIfLater_spec (w : Worker) (s : World S) : Yields commitIfLater w s fun _ v t =>
    v.schemas = w.schemas ∧ ∃ commits, (∀ x ∈ commits, x.1 = .commit ∨ x.1 = .begin) ∧
      s.Went [] commits t := by
  unfold commitIfLater
  refine Outcome.get_bind (Outcome.bind (Outcome.ask ?_))
  have htime : s.Went [] [] (World.answer S .time s).2 := World.arrive_went s
  split_ifs with h
  · refine (MiniPSQL.exec_spec w _ .commit).seq fun _ v t h => ?_
    obtain ⟨rfl, r, -, hcommit⟩ := h
    refine (MiniPSQL.exec_spec v t .begin).seq fun _ v' t' h => ?_
    obtain ⟨rfl, r', -, hbegin⟩ := h
    refine Outcome.bind (Outcome.ask (Outcome.modify ⟨rfl, [(.commit, .ok r), (.begin, .ok r')], ?_, ?_⟩))
    · simp
    · exact ((htime.trans hcommit).trans hbegin).trans (World.arrive_went t')
  · exact Outcome.pure ⟨rfl, [], by simp, htime⟩

lemma insertMessages_spec (H : HashOrder) (e : Bytes × List Message) (w : Worker) (s : World S)
    {schema : List (Bytes × Bytes)} (hw : w.schemas e.1 = some schema) (hsort : SortedByFirst schema) :
    Yields (do
        let fields ← checkFields H e.1 e.2
        let _ ← MiniPSQL.exec (.insert e.1 (H.ofSet fields) e.2)
        commitIfLater) w s fun _ v t => ∃ schema' adds commits r,
      v.schemas = Function.update w.schemas e.1 (some schema') ∧ SortedByFirst schema' ∧
      schema'.Perm (schema ++ newColumns H schema e.2) ∧ Adds e.1 (newColumns H schema e.2) adds ∧
      (∀ x ∈ commits, x.1 = .commit ∨ x.1 = .begin) ∧
      s.Went [] (adds ++ (.insert e.1 (H.ofSet (fieldsOf H e.2)) e.2, .ok r) :: commits) t := by
  refine (checkEntries_spec e.1 (e.2.flatMap H.entries) w s hw hsort []).seq fun fields v t h => ?_
  obtain ⟨hfields, schema', adds, rfl, hsort', hperm, hadds, hwent⟩ := h
  have hfields' : fields = fieldsOf H e.2 := hfields
  subst hfields'
  refine (MiniPSQL.exec_spec _ t _).seq fun _ v' t' h => ?_
  obtain ⟨rfl, r, -, hinsert⟩ := h
  refine (commitIfLater_spec _ t').weaken (fun _ u t'' h => ?_) fun _ _ _ h => h
  obtain ⟨hu, commits, hcommits, hwent'⟩ := h
  refine ⟨schema', adds, commits, r, hu, hsort', hperm, hadds, hcommits, ?_⟩
  simpa using (hwent.trans hinsert).trans hwent'

lemma processTable_spec (H : HashOrder) (e : Bytes × List Message) (w : Worker) (s : World S)
    (hw : Sorted w.schemas) : Yields (processTable H e) w s fun _ v t =>
      ∃ lg, TableWork H w.schemas e lg v.schemas ∧ s.Went [] lg t := by
  unfold processTable
  refine Outcome.get_bind ?_
  cases hk : w.schemas e.1 with
  | some schema =>
    refine (insertMessages_spec H e w s hk (hw e.1 schema hk)).weaken (fun _ v t h => ?_) fun _ _ _ h => h
    obtain ⟨schema', adds, commits, r, hv, hsort, hperm, hadds, hcommits, hwent⟩ := h
    refine ⟨_, ?_, hwent⟩
    rw [hv]
    exact @TableWork.mk H _ e schema schema' [] adds commits r (Or.inl ⟨hk, rfl⟩) hadds hsort hperm hcommits
  | none =>
    refine (MiniPSQL.getSchema_spec w s e.1).seq fun schema v t h => ?_
    obtain ⟨rfl, rows, rfl, hlook⟩ := h
    refine Outcome.bind (Outcome.modify ?_)
    have hv : (setSchema v e.1 (schemaOf rows)).schemas e.1 = some (schemaOf rows) := by simp [setSchema]
    refine (insertMessages_spec H e _ t hv (sortByFirst_sorted _)).weaken (fun _ u t' h => ?_)
      fun _ _ _ h => h
    obtain ⟨schema', adds, commits, r, hu, hsort, hperm, hadds, hcommits, hwent⟩ := h
    have hupdate : u.schemas = Function.update v.schemas e.1 (some schema') := by
      rw [hu]
      simp [setSchema]
    refine ⟨_, ?_, hlook.trans hwent⟩
    rw [hupdate, ← List.append_assoc]
    exact TableWork.mk (Or.inr ⟨hk, rows, rfl, rfl⟩) hadds hsort hperm hcommits

end PSQLWriter

lemma TableWork.keeps_sorted {H : HashOrder} {known known' : Schemas} {e : Bytes × List Message} {lg : Log}
    (h : TableWork H known e lg known') (hk : PSQLWriter.Sorted known) : PSQLWriter.Sorted known' := by
  obtain ⟨-, -, hsort, -, -⟩ := h
  intro table schema hs
  by_cases he : table = e.1
  · subst he
    rw [Function.update_self] at hs
    cases hs
    exact hsort
  · rw [Function.update_of_ne he] at hs
    exact hk table schema hs

lemma Works.keeps_sorted {H : HashOrder} {known known' : Schemas} {es : List (Bytes × List Message)}
    {lg : Log} (h : Works H known es lg known') (hk : PSQLWriter.Sorted known) :
    PSQLWriter.Sorted known' := by
  induction h with
  | nil => exact hk
  | cons first rest ih => exact ih (first.keeps_sorted hk)

namespace PSQLWriter

lemma processTables_spec (H : HashOrder) (es : List (Bytes × List Message)) (w : Worker) (s : World S)
    (hw : Sorted w.schemas) : Yields (es.forM (processTable H)) w s fun _ v t =>
      ∃ lg, Works H w.schemas es lg v.schemas ∧ s.Went [] lg t := by
  induction es generalizing w s with
  | nil => exact Outcome.pure ⟨[], Works.nil, World.Went.refl s⟩
  | cons e es ih =>
    change Yields (processTable H e >>= fun _ => es.forM (processTable H)) w s _
    refine (processTable_spec H e w s hw).seq fun _ v t h => ?_
    obtain ⟨lg, hwork, hwent⟩ := h
    refine (ih v t (hwork.keeps_sorted hw)).weaken (fun _ u t' h => ?_) fun _ _ _ h => h
    obtain ⟨lg', hworks, hwent'⟩ := h
    exact ⟨lg ++ lg', Works.cons hwork hworks, hwent.trans hwent'⟩

end PSQLWriter
end SqliteWrite.Psql
