import Mathlib.Data.List.Infix
import SqliteWrite.Postgres.Delivery

/-! The worker with a server that may reject any statement, and with waits that may fail. An exception then
leaves the thread, which ends the process; what has been committed by then is a part of the stream, in its
order. -/
namespace SqliteWrite.Psql
open Method (Outcome)

variable {S : Server}

/-- Where a session is: outside a transaction, inside one, or after a rejected statement. -/
inductive Phase
  | idle | inside | rejected
  deriving DecidableEq, Repr

namespace Phase

/-- What a statement and its answer make of the session; nothing may follow a rejection, and outside a
transaction there is nothing but a `begin`. -/
def next : Phase → Statement × Except Bytes Rows → Option Phase
  | .rejected, _ => none
  | .idle, (.begin, x) => some (if x.isOk then .inside else .rejected)
  | .idle, _ => none
  | .inside, (.begin, _) => none
  | .inside, (.commit, x) => some (if x.isOk then .idle else .rejected)
  | .inside, (_, x) => some (if x.isOk then .inside else .rejected)

/-- The session after a log, if the log keeps to this. -/
def after (p : Phase) (lg : Log) : Option Phase := lg.foldlM next p

@[simp] lemma after_nil (p : Phase) : p.after [] = some p := rfl

lemma after_append (p : Phase) (lg lg' : Log) : p.after (lg ++ lg') = p.after lg >>= fun q => q.after lg' := by
  simp [after, List.foldlM_append]

lemma after_rejected (lg : Log) {q : Phase} (h : Phase.rejected.after lg = some q) : lg = [] := by
  cases lg with
  | nil => rfl
  | cons e lg => cases h

end Phase

/-- The statements that were accepted. -/
def accepted (lg : Log) : Log := lg.filter fun e => e.2.isOk

@[simp] lemma accepted_append (lg lg' : Log) : accepted (lg ++ lg') = accepted lg ++ accepted lg' :=
  List.filter_append ..

lemma accepted_of_after {lg : Log} {p q : Phase} (h : p.after lg = some q) (hq : q ≠ .rejected) :
    accepted lg = lg := by
  induction lg generalizing p with
  | nil => rfl
  | cons e lg ih =>
    obtain ⟨p', hnext, hrest⟩ := Option.bind_eq_some_iff.mp h
    have hok : e.2.isOk = true := by
      by_contra hno
      obtain ⟨st, x⟩ := e
      have hp' : p' = .rejected := by
        cases p <;> cases st <;> simp_all [Phase.next]
      subst hp'
      obtain rfl := Phase.after_rejected lg hrest
      exact hq (Option.some.inj hrest).symm
    have hcons : accepted (e :: lg) = e :: accepted lg := List.filter_cons_of_pos hok
    rw [hcons, ih hrest]

namespace World

/-- From `s` to `t` the worker has taken the messages `seg` from the pipe; its statements have led the
session from `p` to `q`, and inserted these rows. -/
def Sends (s : World S) (seg : List Message) (p q : Phase) (rows : Bytes → List Row) (t : World S) : Prop :=
  ∃ lg, s.Went seg lg t ∧ p.after lg = some q ∧ ∀ table, rowsOf (accepted lg) table = rows table

def noRows : Bytes → List Row := fun _ => []

lemma Went.sends {s t : World S} {seg : List Message} (h : s.Went seg [] t) (p : Phase) :
    s.Sends seg p p noRows t := ⟨[], h, rfl, fun _ => rfl⟩

lemma Sends.trans {s t u : World S} {seg seg' : List Message} {p q r : Phase} {rows rows' : Bytes → List Row}
    (h : s.Sends seg p q rows t) (k : t.Sends seg' q r rows' u) :
    s.Sends (seg ++ seg') p r (fun table => rows table ++ rows' table) u := by
  obtain ⟨lg, hwent, hafter, hrows⟩ := h
  obtain ⟨lg', hwent', hafter', hrows'⟩ := k
  refine ⟨lg ++ lg', hwent.trans hwent', ?_, fun table => ?_⟩
  · rw [Phase.after_append, hafter]
    exact hafter'
  · rw [accepted_append, rowsOf_append, hrows, hrows']

end World

open World (noRows)

/-- The call keeps the session inside its transaction and inserts nothing, or a statement is rejected. -/
abbrev Minds {α : Type} (m : M α) (w : Worker) (s : World S) (R : α → Prop) : Prop :=
  Outcome (World.answer S) m w s (fun a _ t => R a ∧ s.Sends [] .inside .inside noRows t)
    fun _ _ t => s.Sends [] .inside .rejected noRows t

lemma Minds.seq {α β : Type} {m : M α} {f : α → M β} {w : Worker} {s : World S} {R : α → Prop} {R' : β → Prop}
    (hm : Minds m w s R) (hf : ∀ a v (t : World S), R a → Minds (f a) v t R') : Minds (m >>= f) w s R' := by
  refine Outcome.seq hm fun a v t h => ?_
  obtain ⟨ha, hsends⟩ := h
  refine (hf a v t ha).weaken (fun b _ u h => ⟨h.1, ?_⟩) fun _ _ u h => ?_
  · exact hsends.trans h.2
  · exact hsends.trans h

lemma Minds.pure {α : Type} {a : α} {w : Worker} {s : World S} {R : α → Prop} (ha : R a) :
    Minds (Pure.pure a : M α) w s R :=
  Outcome.pure ⟨ha, (World.Went.refl s).sends _⟩

namespace MiniPSQL
variable (w : Worker) (s : World S)

lemma exec_sends (st : Statement) {p q : Phase}
    (hst : ∀ x : Except Bytes Rows, p.next (st, x) = some (if x.isOk then q else .rejected)) :
    Outcome (World.answer S) (exec st) w s (fun _ v t => v = w ∧ s.Sends [] p q (rowsOf [(st, .ok [])]) t)
      fun _ _ t => s.Sends [] p .rejected noRows t := by
  have hwent : s.Went [] [(st, (World.answer S (.exec st) s).1)] (World.answer S (.exec st) s).2 :=
    (World.arrive_went s).trans (World.send_went s.arrive st)
  unfold exec
  refine Outcome.bind (Outcome.ask ?_)
  generalize World.answer S (.exec st) s = r at hwent ⊢
  obtain ⟨x, t⟩ := r
  cases x with
  | ok rows =>
    refine Outcome.pure ⟨rfl, _, hwent, ?_, fun table => ?_⟩
    · simp [Phase.after, hst, Except.isOk, Except.toBool]
    · cases st <;> rfl
  | error msg =>
    refine Outcome.throw ⟨_, hwent, ?_, fun table => rfl⟩
    simp [Phase.after, hst, Except.isOk, Except.toBool]

lemma exec_minds (st : Statement)
    (hst : ∀ x : Except Bytes Rows, Phase.inside.next (st, x) = some (if x.isOk then .inside else .rejected))
    (hrows : ∀ table, rowsOf [(st, .ok [])] table = []) : Minds (exec st) w s fun _ => True := by
  refine (exec_sends w s st hst).weaken (fun _ v t h => ⟨trivial, ?_⟩) fun _ _ _ h => h
  have hnone : rowsOf [(st, .ok [])] = noRows := funext hrows
  exact hnone ▸ h.2

lemma getSchema_minds (table : Bytes) : Minds (getSchema table) w s fun _ => True := by
  unfold getSchema
  apply (exec_minds w s (.schema table) (fun _ => rfl) fun _ => rfl).seq
  exact fun _ _ _ _ => Minds.pure trivial

lemma addColumn_minds (table name type : Bytes) : Minds (addColumn table name type) w s fun _ => True := by
  have hknown : Minds (haveTable table) w s fun _ => True := by
    unfold haveTable
    apply (getSchema_minds w s table).seq
    exact fun _ _ _ _ => Minds.pure trivial
  unfold addColumn
  apply hknown.seq
  intro known v t _
  cases known with
  | false =>
    apply (exec_minds v t (.create table name type) (fun _ => rfl) fun _ => rfl).seq
    exact fun _ _ _ _ => Minds.pure trivial
  | true =>
    apply (exec_minds v t (.alter table name type) (fun _ => rfl) fun _ => rfl).seq
    exact fun _ _ _ _ => Minds.pure trivial

end MiniPSQL

namespace PSQLWriter
variable (w : Worker) (s : World S)

lemma checkField_minds (table : Bytes) (fields : List Bytes) (e : Bytes × VarT) :
    Minds (checkField table fields e) w s fun fields' =>
      fields' = if e.1 ∈ fields then fields else fields ++ [e.1] := by
  unfold checkField
  split_ifs with hf
  · exact Minds.pure rfl
  · refine Outcome.get_bind ?_
    have hadd := MiniPSQL.addColumn_minds w s table e.1 (columnType e.2)
    cases binarySearch firstLt (cachedSchema w table) (e.1, ([] : Bytes)) with
    | true => exact Minds.pure rfl
    | false =>
      apply hadd.seq
      intro _ v t _
      exact Outcome.bind (Outcome.modify (Minds.pure rfl))

lemma checkEntries_minds (table : Bytes) (es : List (Bytes × VarT)) (fields : List Bytes) :
    Minds (es.foldlM (checkField table) fields) w s fun fields' =>
      fields' = fields ++ (firsts fields es).map (·.1) := by
  induction es generalizing w s fields with
  | nil => exact Minds.pure (by simp [firsts])
  | cons e es ih =>
    rw [List.foldlM_cons]
    apply (checkField_minds w s table fields e).seq
    intro fields' v t h
    refine (ih v t fields').weaken (fun fs _ u h' => ⟨?_, h'.2⟩) fun _ _ _ h' => h'
    rw [h'.1, h]
    by_cases hf : e.1 ∈ fields <;> simp [firsts, hf]

lemma commitIfLater_minds : Minds commitIfLater w s fun _ => True := by
  unfold commitIfLater
  refine Outcome.get_bind (Outcome.bind (Outcome.ask ?_))
  have htime : s.Sends [] .inside .inside noRows (World.answer S .time s).2 := (World.arrive_went s).sends _
  split_ifs with h
  · refine ((MiniPSQL.exec_sends w _ .commit (q := .idle) fun _ => rfl).weaken (fun _ _ _ h => h)
      fun _ _ t h => htime.trans h).seq fun _ v t h => ?_
    obtain ⟨-, hcommit⟩ := h
    refine ((MiniPSQL.exec_sends v t .begin (q := .inside) fun _ => rfl).weaken (fun _ _ _ h => h)
      fun _ _ u h => (htime.trans hcommit).trans h).seq fun _ v t' h => ?_
    obtain ⟨-, hbegin⟩ := h
    refine Outcome.bind (Outcome.ask (Outcome.modify ⟨trivial, ?_⟩))
    exact ((htime.trans hcommit).trans hbegin).trans ((World.arrive_went t').sends _)
  · exact Outcome.pure ⟨trivial, htime⟩

/-- The rows of so much work by tables. -/
def rowsFor (es : List (Bytes × List Message)) (table : Bytes) : List Row :=
  ((es.filter fun e => e.1 = table).flatMap (·.2)).map Message.find

lemma rowsFor_append (es es' : List (Bytes × List Message)) (table : Bytes) :
    rowsFor (es ++ es') table = rowsFor es table ++ rowsFor es' table := by
  simp [rowsFor]

/-- The work for one table is all inserted, or none of it; it may have been inserted also where the commit
after it is rejected. -/
lemma processTable_sends (H : HashOrder) (e : Bytes × List Message) :
    Outcome (World.answer S) (processTable H e) w s
      (fun _ _ t => s.Sends [] .inside .inside (rowsFor [e]) t)
      fun _ _ t => ∃ es, es <+: [e] ∧ s.Sends [] .inside .rejected (rowsFor es) t := by
  have hnone : rowsFor [] = noRows := rfl
  have hinsert : ∀ v t, s.Sends [] .inside .inside noRows t → Outcome (World.answer S) (do
        let fields ← checkFields H e.1 e.2
        let _ ← MiniPSQL.exec (.insert e.1 (H.ofSet fields) e.2)
        commitIfLater) v t (fun _ _ t => s.Sends [] .inside .inside (rowsFor [e]) t)
      fun _ _ t => ∃ es, es <+: [e] ∧ s.Sends [] .inside .rejected (rowsFor es) t := by
    intro v t hst
    refine ((checkEntries_minds v t e.1 (e.2.flatMap H.entries) []).weaken (fun _ _ _ h => h)
      fun _ _ u h => ⟨[], List.nil_prefix, hst.trans h⟩).seq fun fields v' t' h => ?_
    obtain ⟨hfields, hcheck⟩ := h
    obtain rfl : fields = fieldsOf H e.2 := hfields
    have hrows : rowsOf [(.insert e.1 (H.ofSet (fieldsOf H e.2)) e.2, .ok [])] = rowsFor [e] := by
      funext table
      rw [rowsOf_insert]
      by_cases ht : e.1 = table <;> simp [rowsFor, ht]
    refine ((MiniPSQL.exec_sends v' t' (.insert e.1 (H.ofSet (fieldsOf H e.2)) e.2) (q := .inside) fun _ => rfl).weaken
      (fun _ _ _ h => h) fun _ _ u h => ⟨[], List.nil_prefix, (hst.trans hcheck).trans h⟩).seq fun _ v'' t'' h => ?_
    obtain ⟨-, hdone⟩ := h
    rw [hrows] at hdone
    have hall := (hst.trans hcheck).trans hdone
    refine (commitIfLater_minds v'' t'').weaken (fun _ _ u h => ?_) fun _ _ u h => ⟨[e], List.prefix_rfl, ?_⟩
    · simpa [noRows] using hall.trans h.2
    · simpa [noRows] using hall.trans h
  unfold processTable
  refine Outcome.get_bind ?_
  cases w.schemas e.1 with
  | some schema => exact hinsert w s ((World.Went.refl s).sends _)
  | none =>
    refine ((MiniPSQL.getSchema_minds w s e.1).weaken (fun _ _ _ h => h)
      fun _ _ u h => ⟨[], List.nil_prefix, h⟩).seq fun schema v t h => ?_
    exact Outcome.bind (Outcome.modify (hinsert _ t h.2))

lemma processTables_sends (H : HashOrder) (es : List (Bytes × List Message)) :
    Outcome (World.answer S) (es.forM (processTable H)) w s
      (fun _ _ t => s.Sends [] .inside .inside (rowsFor es) t)
      fun _ _ t => ∃ es', es' <+: es ∧ s.Sends [] .inside .rejected (rowsFor es') t := by
  induction es generalizing w s with
  | nil => exact Outcome.pure ((World.Went.refl s).sends _)
  | cons e es ih =>
    change Outcome _ (processTable H e >>= fun _ => es.forM (processTable H)) w s _ _
    refine ((processTable_sends w s H e).weaken (fun _ _ _ h => h) fun _ _ u h => ?_).seq fun _ v t h => ?_
    · obtain ⟨es', hprefix, hsends⟩ := h
      exact ⟨es', hprefix.trans (List.prefix_append [e] es), hsends⟩
    · refine (ih v t).weaken (fun _ _ u h' => ?_) fun _ _ u h' => ?_
      · simpa [← rowsFor_append] using h.trans h'
      · obtain ⟨es', hprefix, hsends⟩ := h'
        refine ⟨e :: es', (List.prefix_append_right_inj [e]).mpr hprefix, ?_⟩
        simpa [← rowsFor_append] using h.trans hsends

/-- A wait fails, and the exception finds the session as it is; or a statement was rejected. -/
def Halts (q : Phase) (t : World S) : Prop := q = .rejected ∨ (q = .inside ∧ ∃ n, t.polls n = -1)

lemma waitIfNeeded_sends : Outcome (World.answer S) waitIfNeeded w s (fun _ _ t => s.Went [] [] t)
    fun _ _ t => s.Went [] [] t ∧ ∃ n, t.polls n = -1 := by
  unfold waitIfNeeded
  refine Outcome.get_bind ?_
  split_ifs
  · unfold waitForData
    refine Outcome.bind (Outcome.ask ?_)
    have hwent : s.Went [] [] (World.answer S .poll s).2 := World.arrive_went s
    split_ifs with h
    · refine Outcome.throw ⟨hwent, s.now, ?_⟩
      rw [hwent.polls]
      exact h
    · exact Outcome.pure hwent
  · exact Outcome.pure (World.Went.refl s)

/-- The inner loop takes messages; only when it ends the thread it sends a statement, with nothing in
hand. -/
lemma gather_sends (n : ℕ) (g : Groups Bytes Message) (sumparms : Int32) :
    Outcome (World.answer S) (gather n g sumparms) w s
      (fun res _ t => match res with
        | some g' => ∃ seg, g' = g.fileAll (·.table) seg ∧ s.Sends seg .inside .inside noRows t
        | none => g.entries = [] ∧ s.Sends [] .inside .idle noRows t)
      fun _ _ t => ∃ seg q, Halts q t ∧ s.Sends seg .inside q noRows t := by
  induction n generalizing g sumparms w s with
  | zero => exact Outcome.pure ⟨[], rfl, (World.Went.refl s).sends _⟩
  | succ n ih =>
    unfold gather
    by_cases hsum : sumparms < 60000
    · rw [if_pos hsum]
      refine ((waitIfNeeded_sends w s).weaken (fun _ _ _ h => h)
        fun _ _ t h => ⟨[], .inside, Or.inr ⟨rfl, h.2⟩, h.1.sends _⟩).seq fun _ v t hwait => ?_
      refine Outcome.bind (Outcome.ask ?_)
      have harrive : s.Sends [] .inside .inside noRows t.arrive := (hwait.trans (World.arrive_went t)).sends _
      change Outcome _ _ _ t.arrive.read.2 _ _
      rcases World.read_cases t.arrive with ⟨m, hr, htake⟩ | ⟨hr, hs, hp, hc⟩ | ⟨hr, hs, hp, hc⟩
      · rw [show (World.answer S .read t).1 = .message m from hr]
        have hread := harrive.trans (htake.sends .inside)
        refine Outcome.bind (Outcome.modify ?_)
        refine (ih _ _ _ _).weaken (fun res u t' h => ?_) fun _ _ t' h => ?_
        · cases res with
          | none => exact absurd h.1 (push_entries g m)
          | some g' =>
            obtain ⟨seg, hg, hsends⟩ := h
            exact ⟨m :: seg, hg, hread.trans hsends⟩
        · obtain ⟨seg, q, hq, hsends⟩ := h
          exact ⟨m :: seg, q, hq, hread.trans hsends⟩
      · rw [show (World.answer S .read t).1 = .eof from hr, hs]
        cases hg : g.entries with
        | cons e es => exact Outcome.pure ⟨[], rfl, harrive⟩
        | nil =>
          refine ((MiniPSQL.exec_sends v t.arrive .commit (q := .idle) fun _ => rfl).weaken (fun _ _ _ h => h)
            fun _ _ u h => ⟨[], .rejected, Or.inl rfl, harrive.trans h⟩).seq fun _ u t' h => ?_
          exact Outcome.pure ⟨rfl, harrive.trans h.2⟩
      · rw [show (World.answer S .read t).1 = .again from hr, hs]
        exact Outcome.bind (Outcome.modify (Outcome.pure ⟨[], rfl, harrive⟩))
    · rw [if_neg hsum]
      exact Outcome.pure ⟨[], rfl, (World.Went.refl s).sends _⟩

/-- The work for a stream that is cut into batches. -/
def worksFor (segs : List (List Message)) : List (Bytes × List Message) := segs.flatMap fun seg => (tabwork seg).entries

/-- What a run has done by the time that it stops: the work for all its batches but the last, and of the
last one that for so many of its tables. -/
def Stopped (s : World S) (p q : Phase) (t : World S) : Prop :=
  ∃ segs seg es, es <+: (tabwork seg).entries ∧
    s.Sends (segs.flatten ++ seg) p q (rowsFor (worksFor segs ++ es)) t

lemma Stopped.batch {s t u : World S} {seg : List Message} {p q r : Phase}
    (h : s.Sends seg p q (rowsFor (tabwork seg).entries) t) (k : Stopped t q r u) : Stopped s p r u := by
  obtain ⟨segs, seg', es, hes, hsends⟩ := k
  refine ⟨seg :: segs, seg', es, hes, ?_⟩
  have hrows : rowsFor (worksFor (seg :: segs) ++ es) =
      fun table => rowsFor (tabwork seg).entries table ++ rowsFor (worksFor segs ++ es) table := by
    funext table
    rw [← rowsFor_append]
    simp [worksFor]
  rw [hrows, List.flatten_cons, List.append_assoc]
  exact h.trans hsends

lemma batches_sends (H : HashOrder) (fuel : ℕ) :
    Outcome (World.answer S) (batches H fuel) w s
      (fun b _ t => Stopped s .inside (if b then .idle else .inside) t)
      fun _ _ t => ∃ q, Halts q t ∧ Stopped s .inside q t := by
  induction fuel generalizing w s with
  | zero => exact Outcome.pure ⟨[], [], [], List.nil_prefix, (World.Went.refl s).sends _⟩
  | succ fuel ih =>
    unfold batches
    refine ((gather_sends w s 10000 Groups.empty 0).weaken (fun _ _ _ h => h) fun _ _ t h => ?_).seq
      fun res v t h => ?_
    · obtain ⟨seg, q, hq, hsends⟩ := h
      exact ⟨q, hq, [], seg, [], List.nil_prefix, hsends⟩
    · cases res with
      | none => exact Outcome.pure ⟨[], [], [], List.nil_prefix, h.2⟩
      | some g =>
        obtain ⟨seg, rfl, hread⟩ := h
        refine ((processTables_sends v t H _).weaken (fun _ _ _ h => h) fun _ _ u h => ?_).seq fun _ v' t' h => ?_
        · obtain ⟨es, hes, hsends⟩ := h
          refine ⟨.rejected, Or.inl rfl, [], seg, es, hes, ?_⟩
          simpa [noRows, worksFor] using hread.trans hsends
        · have hworked : t.Sends [] .inside .inside (rowsFor (tabwork seg).entries) t' := h
          have hbatch : s.Sends seg .inside .inside (rowsFor (tabwork seg).entries) t' := by
            simpa [noRows] using hread.trans hworked
          refine (ih v' t').weaken (fun b _ u h' => Stopped.batch hbatch h') fun _ _ u h' => ?_
          obtain ⟨q, hq, hstopped⟩ := h'
          exact ⟨q, hq, Stopped.batch hbatch hstopped⟩

lemma commitThread_sends (H : HashOrder) (fuel : ℕ) :
    Outcome (World.answer S) (commitThread H fuel) start s
      (fun b _ t => Stopped s .idle (if b then .idle else .inside) t)
      fun _ _ t => ∃ q, Halts q t ∧ Stopped s .idle q t := by
  unfold commitThread
  refine ((MiniPSQL.exec_sends start s .begin (q := .inside) fun _ => rfl).weaken (fun _ _ _ h => h)
    fun _ _ t h => ⟨.rejected, Or.inl rfl, [], [], [], List.nil_prefix, h⟩).seq fun _ v t h => ?_
  refine Outcome.bind (Outcome.ask (Outcome.bind (Outcome.modify ?_)))
  have hbegun := h.2.trans ((World.arrive_went t).sends .inside)
  -- What is sent before the first batch is a batch of its own, with nothing in it.
  have hempty : s.Sends [] .idle .inside (rowsFor (tabwork []).entries) (World.answer S .time t).2 := hbegun
  refine (batches_sends _ _ H fuel).weaken (fun b _ u h' => Stopped.batch hempty h') fun _ _ u h' => ?_
  obtain ⟨q, hq, hstopped⟩ := h'
  exact ⟨q, hq, Stopped.batch hempty hstopped⟩

lemma Stopped.rows_prefix {s t : World S} {p q : Phase} (h : Stopped s p q t) : ∃ seg lg, s.Went seg lg t ∧
    p.after lg = some q ∧ ∀ table, rowsOf (accepted lg) table <+:
      (seg.filter fun m => m.table = table).map Message.find := by
  obtain ⟨segs, seg, es, hes, lg, hwent, hafter, hrows⟩ := h
  refine ⟨segs.flatten ++ seg, lg, hwent, hafter, fun table => ?_⟩
  have hall := batched_messages (segs ++ [seg]) table
  rw [List.flatten_append, List.flatten_singleton, List.flatMap_append, List.flatMap_singleton] at hall
  rw [hrows, ← hall]
  apply List.IsPrefix.map
  apply List.IsPrefix.flatMap
  apply List.IsPrefix.filter
  exact (List.prefix_append_right_inj (worksFor segs)).mpr hes

end PSQLWriter

lemma committed_isPrefix (lg : Log) : committed lg <+: lg := by
  have hsuffix := (List.dropWhile_suffix (l := lg.reverse) fun e => !(e.1 == .commit && e.2.isOk))
  simpa [committed] using List.reverse_prefix.mpr hsuffix

lemma committed_cases (lg : Log) : committed lg = [] ∨ ∃ lg' r, committed lg = lg' ++ [(.commit, .ok r)] := by
  unfold committed
  cases hd : lg.reverse.dropWhile fun e => !(e.1 == .commit && e.2.isOk) with
  | nil => exact Or.inl rfl
  | cons e rest =>
    have hhead := List.head_dropWhile_not (fun e : Statement × Except Bytes Rows => !(e.1 == .commit && e.2.isOk))
      (l := lg.reverse) (by rw [hd]; exact List.cons_ne_nil e rest)
    simp only [hd, List.head_cons, Bool.not_eq_false', Bool.and_eq_true, beq_iff_eq] at hhead
    obtain ⟨st, x⟩ := e
    obtain ⟨rfl, hok⟩ := hhead
    cases x with
    | ok r => exact Or.inr ⟨rest.reverse, r, by simp⟩
    | error e => cases hok

lemma accepted_committed {lg : Log} {q : Phase} (h : Phase.idle.after lg = some q) :
    accepted (committed lg) = committed lg := by
  obtain ⟨rest, hrest⟩ := committed_isPrefix lg
  rw [← hrest, Phase.after_append] at h
  obtain ⟨q', hq', -⟩ := Option.bind_eq_some_iff.mp h
  apply accepted_of_after hq'
  rcases committed_cases lg with hnil | ⟨lg', r, hlast⟩
  · rw [hnil] at hq'
    cases hq'
    decide
  · rw [hlast, Phase.after_append] at hq'
    obtain ⟨p, -, hp⟩ := Option.bind_eq_some_iff.mp hq'
    cases p <;> cases hp
    simp [Except.isOk, Except.toBool]

namespace PSQLWriter

lemma commitThread_accepted (H : HashOrder) {s : World S} (hs : Fresh s) (fuel : ℕ) {b : Bool}
    (hb : ((commitThread H fuel).invoke (World.answer S) start s).1 = .ok b) :
    ∀ e ∈ ((commitThread H fuel).invoke (World.answer S) start s).2.2.log, e.2.isOk = true := by
  rcases (commitThread_sends s H fuel).cases with ⟨b', hb', h⟩ | ⟨e, he, -⟩
  · obtain ⟨seg, lg, hwent, hafter, -⟩ := h.rows_prefix
    have hlog := hwent.log
    rw [hs.log, List.nil_append] at hlog
    have hopen : (if b' then Phase.idle else .inside) ≠ .rejected := by cases b' <;> decide
    rw [hlog]
    exact List.filter_eq_self.mp (accepted_of_after hafter hopen)
  · rw [he] at hb
    cases hb

/-- With any server and any waits, at every point of a run: the worker has sent nothing outside a
transaction but `begin`, has begun none inside another, and has sent nothing after a statement that was
rejected. It returns only with its transaction committed, and it is stopped only by a rejection or a failing
wait. -/
theorem keeps_protocol (H : HashOrder) {s : World S} (hs : Fresh s) (fuel : ℕ) :
    let r := (commitThread H fuel).invoke (World.answer S) start s
    ∃ q, Phase.idle.after r.2.2.log = some q ∧ match r.1 with
      | .ok true => q = .idle
      | .ok false => q = .inside
      | .error _ => Halts q r.2.2 := by
  intro r
  rcases (commitThread_sends s H fuel).cases with ⟨b, hb, h⟩ | ⟨e, he, q, hq, h⟩
  · obtain ⟨seg, lg, hwent, hafter, -⟩ := h.rows_prefix
    have hlog := hwent.log
    rw [hs.log, List.nil_append] at hlog
    refine ⟨_, (congrArg Phase.idle.after hlog).trans hafter, ?_⟩
    change match r.1 with | .ok true => _ | .ok false => _ | .error _ => _
    rw [show r.1 = .ok b from hb]
    cases b <;> rfl
  · obtain ⟨seg, lg, hwent, hafter, -⟩ := h.rows_prefix
    have hlog := hwent.log
    rw [hs.log, List.nil_append] at hlog
    refine ⟨q, (congrArg Phase.idle.after hlog).trans hafter, ?_⟩
    change match r.1 with | .ok true => _ | .ok false => _ | .error _ => _
    rw [show r.1 = .error e from he]
    exact hq

/-- A server that accepts one `INSERT` and rejects the next. -/
def faltering : Server where
  State := ℕ
  exec := fun n _ => (.ok [], n)
  execParams := fun n _ _ => if n = 0 then (.ok [], 1) else (.error (ascii "connection lost"), n)

/-- A message before the first request and one before the tenth, with a commit between them. -/
def twoMessages : World faltering :=
  { World.fresh (0 : ℕ) fun n =>
      if n = 0 then [.addValue (ascii "data") [(ascii "test", .int32 1)]]
      else if n = 10 then [.addValue (ascii "data") [(ascii "test", .int32 2)]] else [] with
    clock := fun n => if n < 6 then 0 else 5 }

theorem keeps_protocol_twoMessages :
    Phase.idle.after ((commitThread insertionOrder 4).invoke (World.answer faltering) start twoMessages).2.2.log =
      some .rejected := by
  obtain ⟨q, hq, hresult⟩ := keeps_protocol insertionOrder (s := twoMessages) ⟨rfl, rfl, rfl, rfl, rfl⟩ 4
  have hstops : ((commitThread insertionOrder 4).invoke (World.answer faltering) start twoMessages).1.isOk = false := by
    decide +kernel
  have hkept := Outcome.keeps (w := start) (s := twoMessages) (commitThread insertionOrder 4)
    (fun t : World faltering => ∀ n, t.polls n ≠ -1) (fun q t h => by rw [World.answer_polls]; exact h)
    (fun _ => show (0 : ℤ) ≠ -1 by decide)
  have hpolls : ∀ n, ((commitThread insertionOrder 4).invoke (World.answer faltering) start twoMessages).2.2.polls n ≠
      -1 := by
    rcases hkept.cases with ⟨b, -, h⟩ | ⟨e, -, h⟩
    · exact h
    · exact h
  generalize (commitThread insertionOrder 4).invoke (World.answer faltering) start twoMessages = r at *
  obtain ⟨x, v, t⟩ := r
  cases x with
  | ok b => cases hstops
  | error e =>
    rcases hresult with rfl | ⟨-, n, hn⟩
    · exact hq
    · exact absurd hn (hpolls n)

/-- With any server and any waits, wherever a run is cut off: what is committed then are, for every table,
calls addressed to it, each at most once, without a gap and in the order of the pipe. -/
theorem commits_prefix (H : HashOrder) {s : World S} (hs : Fresh s) (fuel : ℕ) :
    let r := (commitThread H fuel).invoke (World.answer S) start s
    ∀ lg, lg <+: r.2.2.log → ∀ table, rowsOf (committed lg) table <+: addressed (s.events r.2.2.now) table := by
  intro r
  have hwrote : s.Wrote s.arrivals := ⟨rfl, by simp [hs.closed, hs.now], by simp [hs.sent, hs.now, calls]⟩
  have hkeeps := Outcome.keeps (w := start) (commitThread H fuel) (World.Wrote s.arrivals)
    (fun q t => World.Wrote.answer q t) hwrote
  have hstopped : ∃ q, Stopped s .idle q r.2.2 := by
    rcases (commitThread_sends s H fuel).cases with ⟨b, -, h⟩ | ⟨e, -, q, -, h⟩
    · exact ⟨_, h⟩
    · exact ⟨q, h⟩
  have hend : World.Wrote s.arrivals r.2.2 := by
    rcases hkeeps.cases with ⟨b, -, h⟩ | ⟨e, -, h⟩
    · exact h
    · exact h
  obtain ⟨q, h⟩ := hstopped
  obtain ⟨seg, lg', hwent, hafter, hrows⟩ := h.rows_prefix
  have hlog := hwent.log
  rw [hs.log, List.nil_append] at hlog
  rw [hlog]
  rintro lg ⟨rest, rfl⟩ table
  rw [Phase.after_append] at hafter
  obtain ⟨q', hq', -⟩ := Option.bind_eq_some_iff.mp hafter
  have hcommitted : rowsOf (committed lg) table <+: rowsOf (accepted (lg ++ rest)) table := by
    rw [← accepted_committed hq', accepted_append]
    apply List.IsPrefix.flatMap
    exact ((committed_isPrefix lg).filter _).trans (List.prefix_append _ _)
  -- The messages that were taken are the first ones that were written.
  have htaken : seg <+: (calls (s.events r.2.2.now)).map fun call => message call.1 call.2 := by
    obtain ⟨d, hsent, hpipe, -⟩ := hwent.wrote
    rw [hs.pipe, List.nil_append] at hpipe
    rw [hs.sent, List.nil_append, hpipe] at hsent
    have hcalls := hend.sent
    rw [hsent] at hcalls
    exact ⟨_, hcalls⟩
  have hfind : ∀ t values, (message t values).find = supplied values :=
    fun t values => funext (message_find t values)
  have hstream : addressed (s.events r.2.2.now) table =
      (((calls (s.events r.2.2.now)).map fun call => message call.1 call.2).filter fun m => m.table = table).map
        Message.find := by
    simp [addressed, List.filter_map, Function.comp_def, hfind]
  rw [hstream]
  exact (hcommitted.trans (hrows table)).trans ((htaken.filter _).map _)

theorem commits_prefix_twoMessages :
    rowsOf (committed ((commitThread insertionOrder 4).invoke (World.answer faltering) start twoMessages).2.2.log)
        (ascii "data") <+:
      addressed (twoMessages.events ((commitThread insertionOrder 4).invoke (World.answer faltering) start
        twoMessages).2.2.now) (ascii "data") :=
  commits_prefix insertionOrder (s := twoMessages) ⟨rfl, rfl, rfl, rfl, rfl⟩ 4 _ List.prefix_rfl (ascii "data")

end PSQLWriter
end SqliteWrite.Psql
