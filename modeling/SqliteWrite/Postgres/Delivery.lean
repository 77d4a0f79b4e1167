import SqliteWrite.Postgres.Runs

/-! Every message is delivered once. Whatever the batches and the commit points, the rows that a run has
committed for a table are the messages that were addressed to it, in the order of the pipe. -/
namespace SqliteWrite.Psql
open Method (Outcome)

variable {S : Server}

/-- A row as the map from the columns it names to their values. -/
abbrev Row := Bytes → Option VarT

/-- The rows that the statements of a log insert into a table. -/
def rowsOf (lg : Log) (table : Bytes) : List Row :=
  lg.flatMap fun e => match e.1 with
    | .insert t fields work =>
      if t = table then work.map fun m f => if f ∈ fields then m.find f else none else []
    | _ => []

/-- The statements up to the last commit that was accepted. -/
def committed (lg : Log) : Log :=
  (lg.reverse.dropWhile fun e => !(e.1 == .commit && e.2.isOk)).reverse

lemma committed_commit (lg : Log) (r : Rows) :
    committed (lg ++ [(.commit, .ok r)]) = lg ++ [(.commit, .ok r)] := by
  simp [committed, Except.isOk, Except.toBool]

/-- The calls of `addValue` before the first `close`: a table and its values each. -/
def calls : List Event → List (Bytes × List (Bytes × VarT))
  | [] => []
  | .close :: _ => []
  | .addValue table values :: es => (table, values) :: calls es

/-- The calls that are addressed to a table, each as the map from a field to its last value. -/
def addressed (es : List Event) (table : Bytes) : List Row :=
  ((calls es).filter fun call => call.1 = table).map fun call => supplied call.2

@[simp] lemma rowsOf_append (lg lg' : Log) (table : Bytes) :
    rowsOf (lg ++ lg') table = rowsOf lg table ++ rowsOf lg' table := List.flatMap_append

@[simp] lemma rowsOf_cons (e : Statement × Except Bytes Rows) (lg : Log) (table : Bytes) :
    rowsOf (e :: lg) table = rowsOf [e] table ++ rowsOf lg table := rowsOf_append [e] lg table

lemma rowsOf_steering {lg : Log} (h : ∀ x ∈ lg, x.1 = .commit ∨ x.1 = .begin) (table : Bytes) :
    rowsOf lg table = [] := by
  apply List.flatMap_eq_nil_iff.mpr
  intro x hx
  obtain ⟨st, r⟩ := x
  rcases h _ hx with h | h
  · obtain rfl : st = .commit := h
    rfl
  · obtain rfl : st = .begin := h
    rfl

lemma Adds.rowsOf {t : Bytes} {cols : List (Bytes × Bytes)} {lg : Log} (h : Adds t cols lg) (table : Bytes) :
    rowsOf lg table = [] := by
  induction h with
  | nil => rfl
  | cons statement rest ih =>
    rcases statement with rfl | rfl
    · exact ih
    · exact ih

lemma HashOrder.mem_entries (H : HashOrder) (m : Message) {e : Bytes × VarT} :
    e ∈ H.entries m ↔ m.find e.1 = some e.2 := by
  unfold HashOrder.entries
  rw [List.mem_filterMap]
  constructor
  · intro h
    obtain ⟨f, -, hf⟩ := h
    obtain ⟨v, hv, rfl⟩ := Option.map_eq_some_iff.mp hf
    exact hv
  · intro h
    refine ⟨e.1, ?_, by simp [h]⟩
    rw [(H.map_perm m.keys).mem_iff, m.mem_keys]
    exact ⟨e.2, h⟩

lemma mem_fieldsOf (H : HashOrder) (work : List Message) {f : Bytes} :
    f ∈ fieldsOf H work ↔ ∃ m ∈ work, f ∈ m.keys := by
  unfold fieldsOf
  rw [mem_firsts_keys]
  simp only [List.mem_map, List.mem_flatMap, List.not_mem_nil, not_false_eq_true, and_true]
  constructor
  · intro h
    obtain ⟨e, ⟨m, hm, he⟩, rfl⟩ := h
    exact ⟨m, hm, m.mem_keys.mpr ⟨e.2, (H.mem_entries m).mp he⟩⟩
  · intro h
    obtain ⟨m, hm, hf⟩ := h
    obtain ⟨v, hv⟩ := m.mem_keys.mp hf
    exact ⟨(f, v), ⟨m, hm, (H.mem_entries m).mpr hv⟩, rfl⟩

lemma rowsOf_insert (H : HashOrder) (t : Bytes) (work : List Message) (r : Except Bytes Rows) (table : Bytes) :
    rowsOf [(.insert t (H.ofSet (fieldsOf H work)) work, r)] table =
      if t = table then work.map Message.find else [] := by
  have hrow : ∀ m ∈ work, (fun f => if f ∈ H.ofSet (fieldsOf H work) then m.find f else none) = m.find := by
    intro m hm
    funext f
    by_cases hf : f ∈ H.ofSet (fieldsOf H work)
    · rw [if_pos hf]
    · rw [if_neg hf]
      rw [(H.set_perm _).mem_iff, mem_fieldsOf] at hf
      cases hv : m.find f with
      | none => rfl
      | some v => exact absurd ⟨m, hm, m.mem_keys.mpr ⟨v, hv⟩⟩ hf
  simp only [rowsOf, List.flatMap_cons, List.flatMap_nil, List.append_nil]
  split_ifs with ht
  · exact List.map_congr_left hrow
  · rfl

lemma TableWork.rowsOf {H : HashOrder} {known known' : Schemas} {e : Bytes × List Message} {lg : Log}
    (h : TableWork H known e lg known') (table : Bytes) :
    rowsOf lg table = if e.1 = table then e.2.map Message.find else [] := by
  cases h with
  | @mk schema schema' look adds commits r looked added sorted extended steered =>
    have hlook : Psql.rowsOf look table = [] := by
      rcases looked with ⟨-, rfl⟩ | ⟨-, rows, rfl, -⟩
      · rfl
      · rfl
    rw [rowsOf_append, rowsOf_append, hlook, added.rowsOf, rowsOf_cons, rowsOf_steering steered,
      rowsOf_insert]
    simp

lemma Works.rowsOf {H : HashOrder} {known known' : Schemas} {es : List (Bytes × List Message)} {lg : Log}
    (h : Works H known es lg known') (table : Bytes) :
    rowsOf lg table = ((es.filter fun e => e.1 = table).flatMap (·.2)).map Message.find := by
  induction h with
  | nil => rfl
  | @cons known known' known'' e es lg lg' first rest ih =>
    rw [rowsOf_append, first.rowsOf, ih]
    by_cases he : e.1 = table <;> simp [he]

lemma batched_messages (segs : List (List Message)) (table : Bytes) :
    ((segs.flatMap fun seg => (tabwork seg).entries).filter fun e => e.1 = table).flatMap (·.2) =
      segs.flatten.filter fun m => m.table = table := by
  have htable : ∀ seg : List Message, ((tabwork seg).entries.filter fun e => e.1 = table).flatMap (·.2) =
      seg.filter fun m => m.table = table := by
    intro seg
    change (tabwork seg).get table = _
    simp [tabwork]
  rw [List.filter_flatMap, List.flatMap_assoc]
  simp only [htable]
  rw [List.filter_flatten, List.flatMap_def]

lemma calls_append {es : List Event} (h : .close ∉ es) (es' : List Event) :
    calls (es ++ es') = calls es ++ calls es' := by
  induction es with
  | nil => rfl
  | cons e es ih =>
    obtain ⟨he, hes⟩ := not_or.mp (List.mem_cons.not.mp h)
    cases e with
    | close => exact absurd rfl he
    | addValue table values => simp [calls, ih hes]

lemma calls_closed {es : List Event} (h : .close ∈ es) (es' : List Event) : calls (es ++ es') = calls es := by
  induction es with
  | nil => cases h
  | cons e es ih =>
    cases e with
    | close => rfl
    | addValue table values =>
      have hes : .close ∈ es := (List.mem_cons.mp h).resolve_left (by simp)
      simp [calls, ih hes]

namespace World

/-- Everything that the other threads do before the `n`-th request. -/
def events (s : World S) (n : ℕ) : List Event := (List.range n).flatMap s.arrivals

/-- What was written and whether the pipe is closed, from the events so far. -/
structure Wrote (schedule : ℕ → List Event) (s : World S) : Prop where
  arrivals : s.arrivals = schedule
  closed : s.closed = true ↔ .close ∈ (List.range s.now).flatMap schedule
  sent : s.sent = (calls ((List.range s.now).flatMap schedule)).map fun call => message call.1 call.2

lemma events_sent (es : List Event) {done : List Event} {s : World S} (hc : s.closed = true ↔ .close ∈ done)
    (hs : s.sent = (calls done).map fun call => message call.1 call.2) :
    ((es.foldl event s).closed = true ↔ .close ∈ done ++ es) ∧
    (es.foldl event s).sent = (calls (done ++ es)).map fun call => message call.1 call.2 := by
  induction es generalizing s done with
  | nil => simpa using ⟨hc, hs⟩
  | cons e es ih =>
    have hevent : ((s.event e).closed = true ↔ .close ∈ done ++ [e]) ∧
        (s.event e).sent = (calls (done ++ [e])).map fun call => message call.1 call.2 := by
      by_cases hd : .close ∈ done
      · rw [calls_closed hd]
        have hcl := hc.mpr hd
        cases e with
        | close => simp [event, hs]
        | addValue table values => simp [event, hcl, hs, hd]
      · rw [calls_append hd]
        have hcl : s.closed = false := Bool.eq_false_iff.mpr fun h => hd (hc.mp h)
        cases e with
        | close => simp [event, hs, calls]
        | addValue table values => simp [event, hcl, hs, hd, calls]
    have h := ih hevent.1 hevent.2
    simpa using h

lemma Wrote.answer {schedule : ℕ → List Event} (q : Request) (s : World S) (h : s.Wrote schedule) :
    (World.answer S q s).2.Wrote schedule := by
  have harrive : s.arrive.Wrote schedule := by
    obtain ⟨harr, -⟩ := PSQLWriter.events_arrivals s (s.arrivals s.now)
    obtain ⟨hc, hs⟩ := events_sent (s.arrivals s.now) h.closed h.sent
    have hrange : (List.range (s.now + 1)).flatMap schedule =
        (List.range s.now).flatMap schedule ++ s.arrivals s.now := by
      rw [List.range_succ, List.flatMap_append, h.arrivals]
      simp
    rw [← hrange] at hc hs
    exact ⟨harr.trans h.arrivals, hc, hs⟩
  cases q with
  | exec st => exact ⟨harrive.arrivals, harrive.closed, harrive.sent⟩
  | poll => exact harrive
  | time => exact harrive
  | read =>
    change s.arrive.read.2.Wrote schedule
    unfold read
    split
    · exact ⟨harrive.arrivals, harrive.closed, harrive.sent⟩
    · exact harrive

end World

lemma calls_before {schedule : ℕ → List Event} {m n : ℕ} (hm : .close ∈ (List.range m).flatMap schedule)
    (hn : .close ∈ (List.range n).flatMap schedule) :
    calls ((List.range m).flatMap schedule) = calls ((List.range n).flatMap schedule) := by
  have hle : ∀ {i j : ℕ}, i ≤ j → .close ∈ (List.range i).flatMap schedule →
      calls ((List.range j).flatMap schedule) = calls ((List.range i).flatMap schedule) := by
    intro i j hij hi
    obtain ⟨d, rfl⟩ := Nat.exists_eq_add_of_le hij
    rw [List.range_add, List.flatMap_append]
    exact calls_closed hi _
  rcases Nat.le_total m n with h | h
  · exact (hle h hm).symm
  · exact hle h hn

namespace PSQLWriter

/-- Once the destructor has closed the pipe, the thread returns, for any larger bound on its batches. If
the server has accepted every statement, all is committed then, and the rows of each table are the calls
that were addressed to it, each once and in the order of the pipe. -/
theorem delivers_exactly_once (H : HashOrder) {s : World S} (hs : Fresh s) (hpoll : ∀ n, s.polls n ≠ -1)
    {c : ℕ} (hc : .close ∈ s.arrivals c) : ∃ bound, ∀ fuel > bound,
      let r := (commitThread H fuel).invoke (World.answer S) start s
      (∀ e ∈ r.2.2.log, e.2.isOk = true) → r.1 = .ok true ∧
        ∀ table, rowsOf (committed r.2.2.log) table = addressed (s.events (c + 1)) table := by
  have hclosing : Closing c s := ⟨hc, fun h => by rw [hs.now] at h; omega⟩
  refine ⟨ahead c s, fun fuel hfuel => ?_⟩
  have hwrote : s.Wrote s.arrivals := ⟨rfl, by simp [hs.closed, hs.now], by simp [hs.sent, hs.now, calls]⟩
  have hend := commitThread_returns H hclosing hfuel
  have hsent := Outcome.keeps (w := start) (commitThread H fuel) (World.Wrote s.arrivals)
    (fun q t => World.Wrote.answer q t) hwrote
  intro r hok
  obtain ⟨b, hb, hrun⟩ := accepted_run H fuel hs hpoll hok
  rcases (hend.and hsent).cases with ⟨b', hb', hend, hsent⟩ | ⟨e, he, -, -⟩
  · obtain rfl : b = b' := Except.ok.inj (hb.symm.trans hb')
    obtain rfl : b = true := hend
    obtain ⟨segs, lg, last, r', known, -, hworks, hmessages, hlog, ⟨r'', rfl⟩, hp, hcl⟩ := hrun
    refine ⟨hb, fun table => ?_⟩
    have hcalls : calls ((List.range r.2.2.now).flatMap s.arrivals) = calls (s.events (c + 1)) :=
      calls_before (hsent.closed.mp hcl) (List.mem_flatMap.mpr ⟨c, by simp, hc⟩)
    have hsegs : segs.flatten = (calls (s.events (c + 1))).map fun call => message call.1 call.2 := by
      rw [← hcalls, ← hsent.sent, hmessages, hp, List.append_nil]
    have hfind : ∀ t values, (message t values).find = supplied values :=
      fun t values => funext (message_find t values)
    change rowsOf (committed _) table = _
    rw [hlog, committed_commit, List.cons_append, rowsOf_cons, rowsOf_append, hworks.rowsOf,
      batched_messages, hsegs]
    simp [rowsOf, addressed, List.filter_map, Function.comp_def, hfind]
  · rw [hb] at he
    cases he

theorem delivers_exactly_once_twoCalls :
    let events := [Event.addValue (ascii "data") [(ascii "test", .int32 1)],
      .addValue (ascii "data") [(ascii "test", .int32 2), (ascii "test", .int32 3)], .close]
    let s : World (agreeable []) := World.fresh () fun n => if n = 3 then events else []
    ∃ bound, ∀ fuel > bound,
      let r := (commitThread insertionOrder fuel).invoke (World.answer (agreeable [])) start s
      r.1 = .ok true ∧ rowsOf (committed r.2.2.log) (ascii "data") =
        [supplied [(ascii "test", .int32 1)],
          supplied [(ascii "test", .int32 2), (ascii "test", .int32 3)]] := by
  intro events s
  obtain ⟨bound, h⟩ := delivers_exactly_once insertionOrder (s := s) (Fresh.of_fresh _ _)
    (fun _ => show (0 : ℤ) ≠ -1 by decide) (c := 3) (by simp [s, World.fresh, events])
  refine ⟨bound, fun fuel hfuel => ?_⟩
  obtain ⟨hr, hrows⟩ := h fuel hfuel (agreeable_accepts [] _ start (by simp [s, World.fresh]))
  exact ⟨hr, (hrows (ascii "data")).trans rfl⟩

end PSQLWriter
end SqliteWrite.Psql
