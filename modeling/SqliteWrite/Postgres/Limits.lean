import Mathlib.Data.List.Dedup
import SqliteWrite.Postgres.Schemas

/-! The number of parameters of an `INSERT`. A batch is limited by the values of its messages, while the
statement of a table has a parameter for every message and every field that any of them has. -/
namespace SqliteWrite.Psql
open Method (Outcome Guarded)

variable {S : Server}

/-- Requests that are no `INSERT`. -/
def NoInsert : Request → Prop
  | .exec (.insert _ _ _) => False
  | _ => True

/-- An `INSERT` for the messages of a table in a batch, among the messages that were sent. -/
def OfBatch (H : HashOrder) (sent : List Message) : Request → Prop
  | .exec (.insert table fields work) => ∃ pre seg post, sent = pre ++ seg ++ post ∧ Fits 10000 0 seg ∧
      work = (seg.filter fun m => m.table = table) ∧ fields = H.ofSet (fieldsOf H work)
  | _ => True

lemma NoInsert.ofBatch {H : HashOrder} {sent : List Message} {q : Request} (h : NoInsert q) :
    OfBatch H sent q := by
  cases q with
  | exec st =>
    cases st with
    | insert table fields work => exact h.elim
    | _ => trivial
  | _ => trivial

lemma OfBatch.later {H : HashOrder} {sent d : List Message} {q : Request} (h : OfBatch H sent q) :
    OfBatch H (sent ++ d) q := by
  cases q with
  | exec st =>
    cases st with
    | insert table fields work =>
      obtain ⟨pre, seg, post, rfl, hseg⟩ := h
      exact ⟨pre, seg, post ++ d, by simp, hseg⟩
    | _ => trivial
  | _ => trivial

lemma World.Went.ofBatch {H : HashOrder} {s t : World S} {seg : List Message} {lg : Log} {q : Request}
    (h : s.Went seg lg t) (hq : OfBatch H s.sent q) : OfBatch H t.sent q := by
  obtain ⟨d, hsent, -, -⟩ := h.wrote
  rw [hsent]
  exact hq.later

section Asks

lemma exec_asks (st : Statement) (h : NoInsert (.exec st)) : (MiniPSQL.exec st).Asks NoInsert := by
  refine Method.Asks.bind (Method.Asks.ask h) fun r => ?_
  cases r with
  | ok rows => exact Method.Asks.pure _
  | error msg => exact Method.Asks.throw _

lemma getSchema_asks (table : Bytes) : (MiniPSQL.getSchema table).Asks NoInsert :=
  (exec_asks (.schema table) trivial).bind fun _ => Method.Asks.pure _

lemma addColumn_asks (table name type : Bytes) : (MiniPSQL.addColumn table name type).Asks NoInsert := by
  refine ((getSchema_asks table).bind fun _ => Method.Asks.pure _).bind fun b => ?_
  cases b with
  | false => exact (exec_asks (.create table name type) trivial).bind fun _ => Method.Asks.pure _
  | true => exact (exec_asks (.alter table name type) trivial).bind fun _ => Method.Asks.pure _

namespace PSQLWriter

lemma checkField_asks (table : Bytes) (fields : List Bytes) (e : Bytes × VarT) :
    (checkField table fields e).Asks NoInsert := by
  unfold checkField
  split_ifs
  · exact Method.Asks.pure _
  · refine Method.Asks.get.bind fun w => ?_
    cases binarySearch firstLt (cachedSchema w table) (e.1, ([] : Bytes)) with
    | true => exact Method.Asks.pure _
    | false =>
      exact (addColumn_asks table e.1 _).bind fun _ => (Method.Asks.modify _).bind fun _ => Method.Asks.pure _

lemma checkFields_asks (H : HashOrder) (table : Bytes) (work : List Message) :
    (checkFields H table work).Asks NoInsert := by
  unfold checkFields
  generalize work.flatMap H.entries = es
  generalize ([] : List Bytes) = fields
  induction es generalizing fields with
  | nil => exact Method.Asks.pure _
  | cons e es ih =>
    rw [List.foldlM_cons]
    exact (checkField_asks table fields e).bind fun fields' => ih fields'

lemma commitIfLater_asks : commitIfLater.Asks NoInsert := by
  refine Method.Asks.get.bind fun w => (Method.Asks.ask trivial).bind fun t => ?_
  split_ifs
  · refine (exec_asks .commit trivial).bind fun _ => (exec_asks .begin trivial).bind fun _ => ?_
    exact (Method.Asks.ask trivial).bind fun _ => Method.Asks.modify _
  · exact Method.Asks.pure _

lemma waitIfNeeded_asks : waitIfNeeded.Asks NoInsert := by
  refine Method.Asks.get.bind fun w => ?_
  split_ifs
  · refine (Method.Asks.ask trivial).bind fun ret => ?_
    split_ifs
    · exact Method.Asks.throw _
    · exact Method.Asks.pure _
  · exact Method.Asks.pure _

lemma gather_asks (n : ℕ) (g : Groups Bytes Message) (sumparms : Int32) :
    (gather n g sumparms).Asks NoInsert := by
  induction n generalizing g sumparms with
  | zero => exact Method.Asks.pure _
  | succ n ih =>
    unfold gather
    by_cases hsum : sumparms < 60000
    · rw [if_pos hsum]
      refine waitIfNeeded_asks.bind fun _ => (Method.Asks.ask trivial).bind fun r => ?_
      cases r with
      | message m => exact (Method.Asks.modify _).bind fun _ => ih _ _
      | again => exact (Method.Asks.modify _).bind fun _ => Method.Asks.pure _
      | eof =>
        cases g.entries with
        | nil => exact (exec_asks .commit trivial).bind fun _ => Method.Asks.pure _
        | cons e es => exact Method.Asks.pure _
      | failed => exact (exec_asks .commit trivial).bind fun _ => Method.Asks.pure _
    · rw [if_neg hsum]
      exact Method.Asks.pure _

end PSQLWriter
end Asks

namespace PSQLWriter

/-- The other rules hold of guarded calls too. -/
abbrev Keeps {α : Type} (H : HashOrder) (m : M α) (w : Worker) (s : World S)
    (R : α → Worker → World S → Prop) : Prop :=
  Guarded (World.answer S) (fun q t => OfBatch H t.sent q) m w s R fun _ _ t => t.Stuck

lemma Keeps.of_asks {α : Type} {H : HashOrder} {m : M α} {w : Worker} {s : World S}
    {R : α → Worker → World S → Prop} (hm : m.Asks NoInsert) (ho : Yields m w s R) : Keeps H m w s R :=
  Guarded.of_asks hm (fun _ _ h => h.ofBatch) ho

lemma exec_keeps {H : HashOrder} {st : Statement} {w : Worker} {s : World S}
    (h : OfBatch H s.sent (.exec st)) {R : Rows → Worker → World S → Prop}
    (ho : Yields (MiniPSQL.exec st) w s R) : Keeps H (MiniPSQL.exec st) w s R := by
  refine ⟨ho, fun p hp => ?_⟩
  unfold MiniPSQL.exec pq at hp
  rw [Method.script_ask_bind] at hp
  rcases List.mem_cons.mp hp with rfl | hp
  · exact h
  · cases hr : (World.answer S (.exec st) s).1 with
    | ok rows =>
      rw [hr] at hp
      cases hp
    | error msg =>
      rw [hr] at hp
      cases hp

lemma insertMessages_keeps (H : HashOrder) (e : Bytes × List Message) (w : Worker) (s : World S)
    {schema : List (Bytes × Bytes)} (hw : w.schemas e.1 = some schema) (hsort : SortedByFirst schema)
    (he : OfBatch H s.sent (.exec (.insert e.1 (H.ofSet (fieldsOf H e.2)) e.2))) :
    Keeps H (do
        let fields ← checkFields H e.1 e.2
        let _ ← MiniPSQL.exec (.insert e.1 (H.ofSet fields) e.2)
        commitIfLater) w s fun _ _ _ => True := by
  refine Guarded.seq (Keeps.of_asks (checkFields_asks H e.1 e.2)
    (checkEntries_spec e.1 (e.2.flatMap H.entries) w s hw hsort [])) fun fields v t h => ?_
  obtain ⟨hfields, -, adds, -, -, -, -, hwent⟩ := h
  have hfields' : fields = fieldsOf H e.2 := hfields
  subst hfields'
  refine (exec_keeps (hwent.ofBatch he) (MiniPSQL.exec_spec v t _)).seq fun _ v' t' _ => ?_
  exact Keeps.of_asks commitIfLater_asks
    ((commitIfLater_spec v' t').weaken (fun _ _ _ _ => trivial) fun _ _ _ h => h)

lemma processTable_keeps (H : HashOrder) (e : Bytes × List Message) (w : Worker) (s : World S)
    (hw : Sorted w.schemas) (he : OfBatch H s.sent (.exec (.insert e.1 (H.ofSet (fieldsOf H e.2)) e.2))) :
    Keeps H (processTable H e) w s fun _ v t => ∃ lg, TableWork H w.schemas e lg v.schemas ∧
      s.Went [] lg t := by
  refine ⟨processTable_spec H e w s hw, fun p hp => ?_⟩
  unfold processTable at hp
  rw [Method.script_get_bind] at hp
  cases hk : w.schemas e.1 with
  | some schema =>
    rw [hk] at hp
    exact (insertMessages_keeps H e w s hk (hw e.1 schema hk) he).2 p hp
  | none =>
    have hlook : Keeps H (do
        let schema ← MiniPSQL.getSchema e.1
        modify fun w => setSchema w e.1 schema
        let fields ← checkFields H e.1 e.2
        let _ ← MiniPSQL.exec (.insert e.1 (H.ofSet fields) e.2)
        commitIfLater) w s fun _ _ _ => True := by
      refine (Keeps.of_asks (getSchema_asks e.1) (MiniPSQL.getSchema_spec w s e.1)).seq fun schema v t h => ?_
      obtain ⟨rfl, rows, rfl, hwent⟩ := h
      have hv : (setSchema v e.1 (schemaOf rows)).schemas e.1 = some (schemaOf rows) := by simp [setSchema]
      exact Guarded.modify_bind (insertMessages_keeps H e _ t hv (sortByFirst_sorted _) (hwent.ofBatch he))
    rw [hk] at hp
    exact hlook.2 p hp

lemma processTables_keeps (H : HashOrder) (es : List (Bytes × List Message)) (w : Worker) (s : World S)
    (hw : Sorted w.schemas)
    (hes : ∀ e ∈ es, OfBatch H s.sent (.exec (.insert e.1 (H.ofSet (fieldsOf H e.2)) e.2))) :
    Keeps H (es.forM (processTable H)) w s fun _ v t => ∃ lg, Works H w.schemas es lg v.schemas ∧
      s.Went [] lg t := by
  induction es generalizing w s with
  | nil => exact Guarded.pure ⟨[], Works.nil, World.Went.refl s⟩
  | cons e es ih =>
    change Keeps H (processTable H e >>= fun _ => es.forM (processTable H)) w s _
    refine (processTable_keeps H e w s hw (hes e List.mem_cons_self)).seq fun _ v t h => ?_
    obtain ⟨lg, hwork, hwent⟩ := h
    have hrest : ∀ d ∈ es, OfBatch H t.sent (.exec (.insert d.1 (H.ofSet (fieldsOf H d.2)) d.2)) :=
      fun d hd => hwent.ofBatch (hes d (List.mem_cons_of_mem _ hd))
    refine (ih v t (hwork.keeps_sorted hw) hrest).weaken (fun _ u t' h => ?_) fun _ _ _ h => h
    obtain ⟨lg', hworks, hwent'⟩ := h
    exact ⟨lg ++ lg', Works.cons hwork hworks, hwent.trans hwent'⟩

lemma tabwork_entry {seg : List Message} {e : Bytes × List Message} (he : e ∈ (tabwork seg).entries) :
    e.2 = seg.filter fun m => m.table = e.1 := by
  rw [← Groups.get_of_mem he]
  simp [tabwork]

lemma batches_keeps (H : HashOrder) (fuel : ℕ) (pre : List Message) (w : Worker) (s : World S)
    (hw : Sorted w.schemas) (hs : s.sent = pre ++ s.pipe) :
    Keeps H (batches H fuel) w s fun _ _ _ => True := by
  induction fuel generalizing w s pre with
  | zero => exact Guarded.pure trivial
  | succ fuel ih =>
    unfold batches
    refine (Keeps.of_asks (gather_asks 10000 Groups.empty 0)
      (gather_spec 10000 Groups.empty 0 w s)).seq fun res v t h => ?_
    obtain ⟨hv, h⟩ := h
    cases res with
    | none => exact Guarded.pure trivial
    | some g =>
      obtain ⟨seg, rfl, hfits, htook⟩ := h
      obtain ⟨d, hsent, hpipe, -⟩ := htook.wrote
      have hsent' : t.sent = pre ++ seg ++ t.pipe := by
        rw [hsent, hs, List.append_assoc, hpipe, List.append_assoc]
      have hes : ∀ e ∈ (tabwork seg).entries,
          OfBatch H t.sent (.exec (.insert e.1 (H.ofSet (fieldsOf H e.2)) e.2)) :=
        fun e he => ⟨pre, seg, t.pipe, hsent', hfits, tabwork_entry he, rfl⟩
      refine (processTables_keeps H (tabwork seg).entries v t (by rw [hv]; exact hw) hes).seq
        fun _ u t' h => ?_
      obtain ⟨lg, hworks, hwent⟩ := h
      obtain ⟨d', hd', hp', -⟩ := hwent.wrote
      refine ih (pre ++ seg) u t' (hworks.keeps_sorted (by rw [hv]; exact hw)) ?_
      rw [hd', hsent', List.append_assoc, hp', List.nil_append]

theorem commitThread_keeps (H : HashOrder) (fuel : ℕ) {s : World S} (hs : Fresh s) :
    Keeps H (commitThread H fuel) start s fun _ _ _ => True := by
  unfold commitThread
  refine (Keeps.of_asks (exec_asks .begin trivial) (MiniPSQL.exec_spec start s .begin)).seq fun _ w t h => ?_
  obtain ⟨rfl, r, -, hbegin⟩ := h
  have hnone : Sorted fun _ => none := fun table schema h => by cases h
  obtain ⟨d, hsent, hpipe, -⟩ := (hbegin.trans (World.arrive_went t)).wrote
  refine Guarded.seq (Guarded.ask (R := fun b v u => b = t.clock t.now ∧ v = start ∧ u = t.arrive) trivial
    ⟨rfl, rfl, rfl⟩) fun b v u h => ?_
  obtain ⟨rfl, rfl, rfl⟩ := h
  refine (Keeps.of_asks (R := fun _ v u => v = ⟨fun _ => none, false, t.clock t.now⟩ ∧ u = t.arrive)
    (Method.Asks.modify _) (Outcome.modify ⟨rfl, rfl⟩)).seq fun _ v u h => ?_
  obtain ⟨rfl, rfl⟩ := h
  refine batches_keeps H fuel [] _ _ hnone ?_
  rw [hs.pipe] at hpipe
  rw [hsent, hs.sent]
  exact hpipe

lemma World.answer_ofBatch {H : HashOrder} {q : Request} {t : World S} (hq : OfBatch H t.sent q)
    (ht : ∀ e ∈ t.log, OfBatch H t.sent (.exec e.1)) :
    ∀ e ∈ (World.answer S q t).2.log, OfBatch H (World.answer S q t).2.sent (.exec e.1) := by
  have harrive : ∀ e ∈ t.arrive.log, OfBatch H t.arrive.sent (.exec e.1) := by
    rw [t.arrive_went.log, List.append_nil]
    exact fun e he => t.arrive_went.ofBatch (ht e he)
  cases q with
  | exec st =>
    intro e he
    rcases List.mem_append.mp he with he | he
    · exact harrive e he
    · obtain rfl := List.mem_singleton.mp he
      exact (t.arrive_went.trans (World.send_went t.arrive st)).ofBatch hq
  | read =>
    change ∀ e ∈ t.arrive.read.2.log, OfBatch H t.arrive.read.2.sent (.exec e.1)
    unfold World.read
    split
    · exact harrive
    · exact harrive
  | _ => exact harrive

/-- In every run, whatever ends it, each `INSERT` is for the messages of a table in one batch. -/
theorem insert_ofBatch (H : HashOrder) (fuel : ℕ) {s : World S} (hs : Fresh s) :
    let t := ((commitThread H fuel).invoke (World.answer S) start s).2.2
    ∀ e ∈ t.log, OfBatch H t.sent (.exec e.1) :=
  (commitThread_keeps H fuel hs).keeps (fun t => ∀ e ∈ t.log, OfBatch H t.sent (.exec e.1))
    (fun _ _ hq ht => World.answer_ofBatch hq ht) (by simp [hs.log])

end PSQLWriter

/-- Messages that one batch may take. -/
structure Window (seg : List Message) : Prop where
  messages : seg.length ≤ 10000
  values : ∀ pre m post, seg = pre ++ m :: post → (pre.map fun m => m.values.length).sum < 60000

/-- The fields of a table's messages, each once. -/
def tableFields (seg : List Message) (table : Bytes) : List Bytes :=
  ((seg.filter fun m => m.table = table).flatMap Message.keys).dedup

/-- Whatever part of a stream a batch may take, no table needs more parameters than PostgreSQL has. -/
def Bounded (ms : List Message) : Prop :=
  ∀ pre seg post, ms = pre ++ seg ++ post → Window seg → ∀ table,
    (seg.filter fun m => m.table = table).length * (tableFields seg table).length ≤ 65535

lemma fieldsOf_length (H : HashOrder) (seg : List Message) (table : Bytes) :
    (H.ofSet (fieldsOf H (seg.filter fun m => m.table = table))).length = (tableFields seg table).length := by
  rw [(H.set_perm _).length_eq]
  apply List.Perm.length_eq
  apply (List.perm_ext_iff_of_nodup (firsts_nodup [] _) (List.nodup_dedup _)).mpr
  intro f
  rw [List.mem_dedup, List.mem_flatMap]
  exact mem_fieldsOf H _

/-- The sum of the parameters does not wrap around for messages of the size that PostgreSQL allows, and a
batch may take exactly the windows. -/
lemma fits_iff {n : ℕ} {sumparms : Int32} {k : ℕ} {seg : List Message} (hk : sumparms.toInt = k)
    (hle : k ≤ 61600) (hsize : ∀ m ∈ seg, m.values.length ≤ 1600) :
    Fits n sumparms seg ↔ seg.length ≤ n ∧ ∀ pre m post, seg = pre ++ m :: post →
      k + (pre.map fun m => m.values.length).sum < 60000 := by
  induction seg generalizing n sumparms k with
  | nil => simp [Fits]
  | cons m seg ih =>
    cases n with
    | zero => simp [Fits]
    | succ n =>
      have hlt : sumparms < 60000 ↔ k < 60000 := by
        have h60 : (60000 : Int32).toInt = 60000 := by decide
        rw [Int32.lt_iff_toInt_lt, hk, h60]
        omega
      have hm := hsize m List.mem_cons_self
      have hadd : (sumparms + Int32.ofNat m.values.length).toInt = (k + m.values.length : ℕ) := by
        rw [Int32.toInt_add, hk, Int32.toInt_ofNat_of_lt (by omega), ← Int.natCast_add]
        exact Int.bmod_eq_of_le (by omega) (by omega)
      have hrest : k < 60000 → (Fits n (sumparms + Int32.ofNat m.values.length) seg ↔ _) := fun h =>
        ih hadd (by omega) fun m' hm' => hsize m' (List.mem_cons_of_mem _ hm')
      constructor
      · intro h
        have hk' := hlt.mp h.1
        obtain ⟨hlen, hpre⟩ := (hrest hk').mp h.2
        refine ⟨by simp [hlen], fun pre m' post h => ?_⟩
        cases pre with
        | nil => simpa using hk'
        | cons m'' pre =>
          obtain ⟨rfl, h'⟩ := List.cons.inj h
          have hp := hpre pre m' post h'
          simp only [List.map_cons, List.sum_cons]
          omega
      · intro h
        obtain ⟨hlen, hpre⟩ := h
        have hk' : k < 60000 := by simpa using hpre [] m seg rfl
        refine ⟨hlt.mpr hk', (hrest hk').mpr ⟨by simpa using hlen, fun pre m' post h => ?_⟩⟩
        have hp := hpre (m :: pre) m' post (by rw [h]; rfl)
        simp only [List.map_cons, List.sum_cons] at hp
        omega

lemma fits_iff_window {seg : List Message} (hsize : ∀ m ∈ seg, m.values.length ≤ 1600) :
    Fits 10000 0 seg ↔ Window seg := by
  rw [fits_iff (k := 0) rfl (by omega) hsize]
  simp only [Nat.zero_add]
  exact ⟨fun h => ⟨h.1, h.2⟩, fun h => ⟨h.messages, h.values⟩⟩

lemma sum_filter_le {α : Type} (size : α → ℕ) (p : α → Bool) (xs : List α) :
    ((xs.filter p).map size).sum ≤ (xs.map size).sum := by
  induction xs with
  | nil => simp
  | cons x xs ih =>
    by_cases hx : p x = true
    · simp only [List.filter_cons, hx, if_true, List.map_cons, List.sum_cons]
      omega
    · simp only [List.filter_cons, hx, List.map_cons, List.sum_cons]
      exact ih.trans (Nat.le_add_left _ _)

lemma Window.sum_le {seg : List Message} (hw : Window seg) (hsize : ∀ m ∈ seg, m.values.length ≤ 1600) :
    (seg.map fun m => m.values.length).sum ≤ 61600 := by
  rcases List.eq_nil_or_concat seg with rfl | ⟨pre, m, rfl⟩
  · simp
  · have hpre := hw.values pre m [] (by simp)
    have hm := hsize m (by simp)
    simp only [List.concat_eq_append, List.map_append, List.map_cons, List.map_nil, List.sum_append,
      List.sum_cons, List.sum_nil]
    omega

/-- Messages of one table that all have the same fields need as many parameters as they have values, so
that the limit of a batch holds for their statement too. -/
theorem bounded_of_uniform {ms : List Message} (hsize : ∀ m ∈ ms, m.values.length ≤ 1600)
    (huniform : ∀ m ∈ ms, ∀ m' ∈ ms, m.table = m'.table → ∀ f, f ∈ m.keys ↔ f ∈ m'.keys) : Bounded ms := by
  intro pre seg post hms hw table
  have hseg : ∀ m ∈ seg, m ∈ ms := fun m hm => by rw [hms]; simp [hm]
  cases hwork : seg.filter fun m => m.table = table with
  | nil => simp
  | cons m₀ work =>
    have hm : ∀ m ∈ m₀ :: work, m ∈ seg ∧ m.table = table := by
      intro m h
      rw [← hwork] at h
      simpa using List.mem_filter.mp h
    obtain ⟨h₀, ht₀⟩ := hm m₀ List.mem_cons_self
    have hsame : ∀ m ∈ m₀ :: work, ∀ f, f ∈ m.keys ↔ f ∈ m₀.keys := fun m h =>
      huniform m (hseg m (hm m h).1) m₀ (hseg m₀ h₀) ((hm m h).2.trans ht₀.symm)
    have hvalues : ∀ m ∈ m₀ :: work, m.values.length = m₀.keys.length := by
      intro m h
      have hperm := (List.perm_ext_iff_of_nodup m.nodup m₀.nodup).mpr (hsame m h)
      simpa [Message.keys] using hperm.length_eq
    have hfields : (tableFields seg table).length = m₀.keys.length := by
      apply List.Perm.length_eq
      apply (List.perm_ext_iff_of_nodup (List.nodup_dedup _) m₀.nodup).mpr
      intro f
      rw [List.mem_dedup, hwork, List.mem_flatMap]
      constructor
      · intro h
        obtain ⟨m, hm, hf⟩ := h
        exact (hsame m hm f).mp hf
      · exact fun hf => ⟨m₀, List.mem_cons_self, hf⟩
    have hsum : ((m₀ :: work).map fun m => m.values.length).sum = (m₀ :: work).length * m₀.keys.length := by
      rw [List.map_congr_left hvalues]
      simp [Nat.succ_mul, Nat.add_comm]
    have hle := sum_filter_le (fun m : Message => m.values.length) (fun m => m.table = table) seg
    have htotal := hw.sum_le fun m hm => hsize m (hseg m hm)
    rw [hwork, hsum] at hle
    rw [hfields]
    omega

lemma bounded_of_few {ms : List Message} (h : ms.length * (ms.flatMap Message.keys).dedup.length ≤ 65535) :
    Bounded ms := by
  rintro pre seg post rfl - table
  have hrows : (seg.filter fun m => m.table = table).length ≤ (pre ++ seg ++ post).length := by
    have hfilter := List.length_filter_le (fun m : Message => decide (m.table = table)) seg
    simp only [List.length_append]
    omega
  have hfields : (tableFields seg table).length ≤ ((pre ++ seg ++ post).flatMap Message.keys).dedup.length := by
    apply (List.subperm_of_subset (List.nodup_dedup _) _).length_le
    intro f hf
    obtain ⟨m, hm, hkey⟩ := List.mem_flatMap.mp (List.mem_dedup.mp hf)
    refine List.mem_dedup.mpr (List.mem_flatMap.mpr ⟨m, ?_, hkey⟩)
    simp [(List.mem_filter.mp hm).1]
  exact (Nat.mul_le_mul hrows hfields).trans h

/-- The messages that the other threads write. -/
def writtenBy (es : List Event) : List Message := (calls es).map fun call => message call.1 call.2

/-- The messages that are written before the `n`-th request. -/
def World.written (s : World S) (n : ℕ) : List Message := writtenBy (s.events n)

namespace PSQLWriter

/-- In a run whose stream of messages is bounded, every `INSERT` stays within the limit. -/
theorem insert_within_limit (H : HashOrder) (fuel : ℕ) {s : World S} (hs : Fresh s) {ms : List Message}
    (hms : ∀ n, s.written n <+: ms) (hsize : ∀ m ∈ ms, m.values.length ≤ 1600) (hb : Bounded ms)
    {table : Bytes} {fields : List Bytes} {work : List Message} {r : Except Bytes Rows}
    (he : (.insert table fields work, r) ∈
      ((commitThread H fuel).invoke (World.answer S) start s).2.2.log) :
    work.length * fields.length ≤ 65535 := by
  have hwrote : s.Wrote s.arrivals := ⟨rfl, by simp [hs.closed, hs.now], by simp [hs.sent, hs.now, calls]⟩
  have hsent : ((commitThread H fuel).invoke (World.answer S) start s).2.2.sent <+: ms := by
    rcases (Outcome.keeps (w := start) (commitThread H fuel) (World.Wrote s.arrivals)
      (fun q t => World.Wrote.answer q t) hwrote).cases with ⟨a, -, h⟩ | ⟨e, -, h⟩
    · rw [h.sent]
      exact hms _
    · rw [h.sent]
      exact hms _
  obtain ⟨pre, seg, post, hpart, hfits, rfl, rfl⟩ := insert_ofBatch H fuel hs _ he
  obtain ⟨rest, hrest⟩ := hsent
  rw [hpart] at hrest
  have hseg : ∀ m ∈ seg, m.values.length ≤ 1600 := fun m hm => hsize m (by rw [← hrest]; simp [hm])
  rw [fieldsOf_length]
  exact hb pre seg (post ++ rest) (by rw [← hrest]; simp) ((fits_iff_window hseg).mp hfits) table

/-- Calls on two tables; the ones on the first have one field in common. -/
def overlappingCalls : List Event :=
  [.addValue (ascii "data") [(ascii "test", .int32 1), (ascii "temp", .double 0)],
    .addValue (ascii "log") [(ascii "id", .int32 2)],
    .addValue (ascii "data") [(ascii "temp", .double 0), (ascii "id", .int32 3)]]

/-- The first batch has one `INSERT` for the two rows of the first table. -/
theorem insert_within_limit_overlappingCalls :
    let s : World (agreeable []) := World.fresh () fun n => if n = 0 then overlappingCalls else []
    let fields := [ascii "test", ascii "temp", ascii "id"]
    let work := [message (ascii "data") [(ascii "test", .int32 1), (ascii "temp", .double 0)],
      message (ascii "data") [(ascii "temp", .double 0), (ascii "id", .int32 3)]]
    ∃ r, (.insert (ascii "data") fields work, r) ∈
        ((commitThread insertionOrder 1).invoke (World.answer (agreeable [])) start s).2.2.log ∧
      work.length * fields.length ≤ 65535 := by
  intro s fields work
  have hwritten : ∀ n, s.written n <+: writtenBy overlappingCalls := by
    intro n
    cases n with
    | zero => exact List.nil_prefix
    | succ n =>
      have hevents : s.events (n + 1) = overlappingCalls := by
        simp [World.events, s, World.fresh, List.range_succ_eq_map, List.flatMap_map]
      exact (congrArg writtenBy hevents).symm ▸ List.prefix_rfl
  have hsent : ((commitThread insertionOrder 1).invoke (World.answer (agreeable [])) start s).2.2.log.any
      (fun e => e.1 == .insert (ascii "data") fields work) = true := by decide +kernel
  obtain ⟨⟨st, r⟩, hlogged, hst⟩ := List.any_eq_true.mp hsent
  obtain rfl := eq_of_beq hst
  have hsize : ∀ m ∈ writtenBy overlappingCalls, m.values.length ≤ 1600 := by decide +kernel
  have hbounded : Bounded (writtenBy overlappingCalls) := bounded_of_few (by decide +kernel)
  have hfresh : Fresh s := Fresh.of_fresh _ _
  exact ⟨r, hlogged, insert_within_limit insertionOrder 1 hfresh hwritten hsize hbounded hlogged⟩

/-- The pipe holds these messages, is open, and nothing more will be written. -/
structure Calm (seg : List Message) (s : World S) : Prop where
  pipe : s.pipe = seg
  closed : s.closed = false
  arrivals : ∀ n ≥ s.now, s.arrivals n = []

lemma Calm.arrive {seg : List Message} {s : World S} (h : Calm seg s) : Calm seg s.arrive := by
  have harrive : s.arrive = { s with now := s.now + 1 } := by
    simp [World.arrive, h.arrivals s.now le_rfl]
  rw [harrive]
  exact ⟨h.pipe, h.closed, fun n hn => h.arrivals n (Nat.le_of_succ_le hn)⟩

lemma waitIfNeeded_calm {seg : List Message} (w : Worker) {s : World S} (h : Calm seg s) :
    Yields waitIfNeeded w s fun _ v t => v = w ∧ Calm seg t := by
  unfold waitIfNeeded waitForData
  refine Outcome.get_bind ?_
  split_ifs with hw
  · refine Outcome.bind (Outcome.ask ?_)
    split_ifs with hr
    · refine Outcome.throw (Or.inr ⟨s.now, ?_⟩)
      rw [World.answer_polls]
      exact hr
    · exact Outcome.pure ⟨rfl, h.arrive⟩
  · exact Outcome.pure ⟨rfl, h⟩

lemma gather_takes (n : ℕ) (g : Groups Bytes Message) (sumparms : Int32) (w : Worker) {s : World S}
    {seg : List Message} (hfits : Fits n sumparms seg) (h : Calm seg s) :
    Yields (gather n g sumparms) w s fun res v _ =>
      res = some (g.fileAll (·.table) seg) ∧ v.schemas = w.schemas := by
  induction n generalizing g sumparms w s seg with
  | zero =>
    cases seg with
    | nil => exact Outcome.pure ⟨rfl, rfl⟩
    | cons m seg => exact hfits.elim
  | succ n ih =>
    unfold gather
    by_cases hsum : sumparms < 60000
    · rw [if_pos hsum]
      refine (waitIfNeeded_calm w h).seq fun _ v t h => ?_
      obtain ⟨rfl, h⟩ := h
      have harrive := h.arrive
      refine Outcome.bind (Outcome.ask ?_)
      change Outcome _ _ _ t.arrive.read.2 _ _
      cases seg with
      | nil =>
        have hread : t.arrive.read = (.again, t.arrive) := by
          simp [World.read, harrive.pipe, harrive.closed]
        rw [show (World.answer S .read t).1 = .again from congrArg Prod.fst hread]
        exact Outcome.bind (Outcome.modify (Outcome.pure ⟨rfl, rfl⟩))
      | cons m seg =>
        have hread : t.arrive.read = (.message m, { t.arrive with pipe := seg }) := by
          simp [World.read, harrive.pipe]
        rw [show (World.answer S .read t).1 = .message m from congrArg Prod.fst hread, hread]
        refine Outcome.bind (Outcome.modify ?_)
        exact ih _ _ _ hfits.2 ⟨rfl, harrive.closed, harrive.arrivals⟩
    · rw [if_neg hsum]
      cases seg with
      | nil => exact Outcome.pure ⟨rfl, rfl⟩
      | cons m seg => exact absurd hfits.1 hsum

end PSQLWriter

lemma Works.insert_mem {H : HashOrder} {known known' : Schemas} {es : List (Bytes × List Message)} {lg : Log}
    (h : Works H known es lg known') {e : Bytes × List Message} (he : e ∈ es) :
    ∃ r, (.insert e.1 (H.ofSet (fieldsOf H e.2)) e.2, r) ∈ lg := by
  induction h with
  | nil => cases he
  | cons first rest ih =>
    rcases List.mem_cons.mp he with rfl | he
    · cases first with
      | @mk schema schema' look adds commits r looked added sorted extended steered =>
        exact ⟨.ok r, by simp⟩
    · obtain ⟨r, hr⟩ := ih he
      exact ⟨r, List.mem_append_right _ hr⟩

namespace PSQLWriter

/-- What is written at once and what one batch may take is one batch. -/
theorem whole_batch (H : HashOrder) (db : S.State) {events : List Event} (hopen : .close ∉ events)
    {ms : List Message} (hms : writtenBy events = ms) (hfits : Fits 10000 0 ms) {table : Bytes}
    (htable : (ms.filter fun m => m.table = table) ≠ []) :
    Yields (commitThread H 1) start (World.fresh db fun n => if n = 0 then events else []) fun _ _ t =>
      ∃ r, (.insert table (H.ofSet (fieldsOf H (ms.filter fun m => m.table = table)))
        (ms.filter fun m => m.table = table), r) ∈ t.log := by
  have hs := Fresh.of_fresh db fun n => if n = 0 then events else []
  have harrivals : ∀ n, (World.fresh db fun n => if n = 0 then events else []).arrivals n =
      if n = 0 then events else [] := fun _ => rfl
  generalize World.fresh db (fun n => if n = 0 then events else []) = s at hs harrivals ⊢
  have hwrote : s.Wrote s.arrivals := ⟨rfl, by simp [hs.closed, hs.now], by simp [hs.sent, hs.now, calls]⟩
  unfold commitThread MiniPSQL.exec
  refine Outcome.bind (Outcome.bind (Outcome.ask ?_))
  have hwent : s.Went [] [(.begin, (World.answer S (.exec .begin) s).1)] (World.answer S (.exec .begin) s).2 :=
    (World.arrive_went s).trans (World.send_went s.arrive .begin)
  have hcalm : Calm ms (World.answer S (.exec .begin) s).2 := by
    have hw := hwrote.answer (.exec .begin) s
    have hnow : (World.answer S (.exec .begin) s).2.now = 1 := congrArg (· + 1) hs.now
    have hrange : (List.range 1).flatMap s.arrivals = events := by simp [harrivals]
    have hclosed := hw.closed
    have hsent := hw.sent
    rw [hnow, hrange] at hclosed hsent
    obtain ⟨d, hd, hpipe, -⟩ := hwent.wrote
    rw [hs.pipe] at hpipe
    rw [hs.sent] at hd
    refine ⟨?_, Bool.eq_false_iff.mpr fun h => hopen (hclosed.mp h), fun n hn => ?_⟩
    · rw [← hms, ← show _ = writtenBy events from hsent, hd]
      exact hpipe.symm
    · rw [hw.arrivals, harrivals, if_neg (by omega)]
  generalize World.answer S (.exec .begin) s = r at hwent hcalm
  obtain ⟨x, t⟩ := r
  cases x with
  | error msg =>
    refine Outcome.throw (Or.inl ⟨(.begin, .error msg), ?_, msg, rfl⟩)
    rw [hwent.log]
    simp
  | ok rows =>
    refine Outcome.pure (Outcome.bind (Outcome.ask (Outcome.bind (Outcome.modify ?_))))
    have hnone : Sorted fun _ => none := fun table schema h => by cases h
    unfold batches
    refine (gather_takes 10000 Groups.empty 0 _ hfits hcalm.arrive).seq fun res v u h => ?_
    obtain ⟨rfl, hv⟩ := h
    refine (processTables_spec H (tabwork ms).entries v u (by rw [hv]; exact hnone)).seq fun _ v' u' h => ?_
    obtain ⟨lg, hworks, hwent'⟩ := h
    have hget : (tabwork ms).get table = ms.filter fun m => m.table = table := by simp [tabwork]
    have hentry : (table, ms.filter fun m => m.table = table) ∈ (tabwork ms).entries := by
      rw [← hget] at htable ⊢
      exact Groups.mem_of_get htable
    obtain ⟨r, hr⟩ := hworks.insert_mem hentry
    refine Outcome.pure ⟨r, ?_⟩
    rw [hwent'.log]
    exact List.mem_append_right _ hr

lemma whole_batch_sent {events : List Event} (hopen : .close ∉ events) {ms : List Message}
    (hms : writtenBy events = ms) (hfits : Fits 10000 0 ms) {table : Bytes}
    (htable : (ms.filter fun m => m.table = table) ≠ []) :
    ∃ r, (.insert table (fieldsOf insertionOrder (ms.filter fun m => m.table = table))
      (ms.filter fun m => m.table = table), r) ∈ ((commitThread insertionOrder 1).invoke
        (World.answer (agreeable [])) start (World.fresh () fun n => if n = 0 then events else [])).2.2.log := by
  have hbatch := whole_batch (S := agreeable []) insertionOrder () hopen hms hfits htable
  have hok := agreeable_accepts [] (commitThread insertionOrder 1) start
    (s := World.fresh () fun n => if n = 0 then events else []) (by simp [World.fresh])
  have hpolls := Outcome.keeps (w := start) (s := World.fresh () fun n => if n = 0 then events else [])
    (commitThread insertionOrder 1) (fun t : World (agreeable []) => ∀ n, t.polls n ≠ -1)
    (fun q t h => by rw [World.answer_polls]; exact h) (fun _ => show (0 : ℤ) ≠ -1 by decide)
  rcases (hbatch.and hpolls).cases with ⟨b, -, h, -⟩ | ⟨e, -, hstuck, hpolls⟩
  · exact h
  · exact absurd hstuck (not_stuck hok hpolls)

end PSQLWriter

/-- A field name of two letters. -/
def fieldName (i : ℕ) : Bytes := [UInt8.ofNat (97 + i / 16), UInt8.ofNat (97 + i % 16)]

/-- So many calls for one table, each with a field of its own. -/
def overlapping (n : ℕ) : List Event :=
  (List.range n).map fun i => .addValue (ascii "data") [(fieldName i, .int32 0)]

lemma letter_toNat {n : ℕ} (hn : n < 16) : (UInt8.ofNat (97 + n)).toNat = 97 + n := by
  rw [UInt8.toNat_ofNat']
  exact Nat.mod_eq_of_lt (by omega)

lemma fieldName_cstr {i : ℕ} (hi : i < 256) : cstr (fieldName i) = fieldName i := by
  have h1 := letter_toNat (show i / 16 < 16 by omega)
  have h2 := letter_toNat (show i % 16 < 16 by omega)
  apply cstr_eq_self
  intro h
  simp only [fieldName, List.mem_cons, List.not_mem_nil, or_false] at h
  rcases h with h | h
  · rw [← h] at h1
    simp at h1
    omega
  · rw [← h] at h2
    simp at h2
    omega

lemma fieldName_injective {i j : ℕ} (hi : i < 256) (hj : j < 256) (h : fieldName i = fieldName j) : i = j := by
  obtain ⟨h1, h2⟩ := List.cons.inj h
  have h3 := congrArg UInt8.toNat h1
  have h4 := congrArg UInt8.toNat (List.cons.inj h2).1
  rw [letter_toNat (by omega), letter_toNat (by omega)] at h3 h4
  omega

/-- The messages of these calls. -/
def overlappingMessages (n : ℕ) : List Message :=
  (List.range n).map fun i => message (ascii "data") [(fieldName i, .int32 0)]

lemma overlapping_open (n : ℕ) : .close ∉ overlapping n := by simp [overlapping]

lemma written_overlapping (n : ℕ) : writtenBy (overlapping n) = overlappingMessages n := by
  have hcalls : ∀ is : List ℕ, calls (is.map fun i => Event.addValue (ascii "data") [(fieldName i, .int32 0)]) =
      is.map fun i => (ascii "data", [(fieldName i, .int32 0)]) := by
    intro is
    induction is with
    | nil => rfl
    | cons i is ih => simp [calls, ih]
  simp [writtenBy, overlapping, overlappingMessages, hcalls]

lemma overlappingMessages_values {n : ℕ} {m : Message} (hm : m ∈ overlappingMessages n) :
    m.values.length = 1 ∧ m.table = ascii "data" := by
  obtain ⟨i, -, rfl⟩ := List.mem_map.mp hm
  exact ⟨rfl, rfl⟩

lemma overlappingMessages_fits : Fits 10000 0 (overlappingMessages 256) := by
  have hone : ∀ m ∈ overlappingMessages 256, m.values.length = 1 := fun m hm =>
    (overlappingMessages_values hm).1
  have hlen : (overlappingMessages 256).length = 256 := by simp [overlappingMessages]
  refine (fits_iff_window fun m hm => by rw [hone m hm]; omega).mpr ⟨by omega, fun pre m post h => ?_⟩
  have hpre : pre.map (fun m => m.values.length) = pre.map fun _ => 1 :=
    List.map_congr_left fun m' hm' => hone m' (by rw [h]; simp [hm'])
  rw [h] at hlen
  simp only [List.length_append, List.length_cons] at hlen
  rw [hpre]
  simp
  omega

lemma overlappingMessages_fields :
    (tableFields (overlappingMessages 256) (ascii "data")).length = 256 := by
  have hall : (overlappingMessages 256).filter (fun m => m.table = ascii "data") = overlappingMessages 256 :=
    List.filter_eq_self.mpr fun m hm => by simp [(overlappingMessages_values hm).2]
  have hkeys : (overlappingMessages 256).flatMap Message.keys = (List.range 256).map fieldName := by
    unfold overlappingMessages
    rw [List.flatMap_map, List.map_eq_flatMap]
    apply List.flatMap_congr
    intro i hi
    have hkey : (message (ascii "data") [(fieldName i, .int32 0)]).keys = [cstr (fieldName i)] := rfl
    rw [hkey, fieldName_cstr (List.mem_range.mp hi)]
  have hnodup : ((List.range 256).map fieldName).Nodup :=
    List.Nodup.map_on (fun i hi j hj h => fieldName_injective (List.mem_range.mp hi) (List.mem_range.mp hj) h)
      List.nodup_range
  unfold tableFields
  rw [hall, hkeys, List.dedup_eq_self.mpr hnodup]
  simp

/-- Two hundred and fifty-six messages with a field of their own each are one batch of 256 values, whose
`INSERT` has 65536 parameters. -/
theorem overlapping_fields_exceed_limit :
    let s : World (agreeable []) := World.fresh () fun n => if n = 0 then overlapping 256 else []
    (∀ n, ∀ m ∈ s.written n, m.values.length ≤ 1600) ∧ ∃ fuel, ∃ fields work r,
      (Statement.insert (ascii "data") fields work, r) ∈
        ((PSQLWriter.commitThread insertionOrder fuel).invoke (World.answer (agreeable []))
          PSQLWriter.start s).2.2.log ∧ work.length * fields.length = 65536 := by
  have hopen := overlapping_open 256
  have hwritten := written_overlapping 256
  have hsingle : ∀ m ∈ overlappingMessages 256, m.values.length ≤ 1600 := fun m hm => by
    rw [(overlappingMessages_values hm).1]
    omega
  have hall : (overlappingMessages 256).filter (fun m => m.table = ascii "data") = overlappingMessages 256 :=
    List.filter_eq_self.mpr fun m hm => by simp [(overlappingMessages_values hm).2]
  have hlen : (overlappingMessages 256).length = 256 := by simp [overlappingMessages]
  have hfields := overlappingMessages_fields
  have hfits := overlappingMessages_fits
  rw [← fieldsOf_length insertionOrder, hall] at hfields
  -- from here on the calls and their messages are known by these facts only
  generalize overlapping 256 = events at hopen hwritten
  generalize overlappingMessages 256 = ms at hall hlen hfields hfits hwritten hsingle
  intro s
  constructor
  · intro n m hm
    cases n with
    | zero => cases hm
    | succ n =>
      have hevents : s.events (n + 1) = events := by
        simp [World.events, s, World.fresh, List.range_succ_eq_map, List.flatMap_map]
      unfold World.written at hm
      rw [hevents, hwritten] at hm
      exact hsingle m hm
  · have htable : (ms.filter fun m => m.table = ascii "data") ≠ [] := by
      rw [hall]
      exact List.ne_nil_of_length_pos (by omega)
    obtain ⟨r, hr⟩ := PSQLWriter.whole_batch_sent hopen hwritten hfits htable
    rw [hall] at hr
    refine ⟨1, fieldsOf insertionOrder ms, ms, r, hr, ?_⟩
    change (fieldsOf insertionOrder ms).length = 256 at hfields
    rw [hlen, hfields]

end SqliteWrite.Psql
