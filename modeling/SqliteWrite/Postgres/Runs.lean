import SqliteWrite.Postgres.Batches

/-! Whole runs of the worker. What a run has sent is the work for a sequence of batches that the pipe
was cut into, and once the pipe is closed the run comes to its end. -/
namespace SqliteWrite.Psql
open Method (Outcome)

variable {S : Server}

lemma World.answer_polls (q : Request) (s : World S) : (World.answer S q s).2.polls = s.polls := by
  have harrive : s.arrive.polls = s.polls := s.arrive_went.polls
  cases q with
  | read =>
    change s.arrive.read.2.polls = s.polls
    unfold read
    split
    · exact harrive
    · exact harrive
  | _ => exact harrive

namespace PSQLWriter

lemma waitForData_spec (w : Worker) (s : World S) : Yields waitForData w s fun _ v t =>
    v = w ∧ s.Went [] [] t := by
  unfold waitForData
  refine Outcome.bind (Outcome.ask ?_)
  have hwent : s.Went [] [] (World.answer S .poll s).2 := World.arrive_went s
  split_ifs with h
  · refine Outcome.throw (Or.inr ⟨s.now, ?_⟩)
    rw [hwent.polls]
    exact h
  · exact Outcome.pure ⟨rfl, hwent⟩

lemma waitIfNeeded_spec (w : Worker) (s : World S) : Yields waitIfNeeded w s fun _ v t =>
    v = w ∧ s.Went [] [] t := by
  unfold waitIfNeeded
  refine Outcome.get_bind ?_
  split_ifs with h
  · exact waitForData_spec w s
  · exact Outcome.pure ⟨rfl, World.Went.refl s⟩

lemma push_entries (g : Groups Bytes Message) (m : Message) : (g.push m.table m).entries ≠ [] := by
  intro h
  have hget : (g.push m.table m).get m.table = [] := by simp [Groups.get, h]
  simp at hget

/-- What the inner loop has taken is filed by table; it ends the thread only at the end of the pipe and
with nothing in hand. -/
lemma gather_spec (n : ℕ) (g : Groups Bytes Message) (sumparms : Int32) (w : Worker) (s : World S) :
    Yields (gather n g sumparms) w s fun res v t => v.schemas = w.schemas ∧ match res with
      | some g' => ∃ seg, g' = g.fileAll (·.table) seg ∧ Fits n sumparms seg ∧ s.Went seg [] t
      | none => g.entries = [] ∧ t.pipe = [] ∧ t.closed = true ∧ ∃ r, s.Went [] [(.commit, .ok r)] t := by
  induction n generalizing g sumparms w s with
  | zero => exact Outcome.pure ⟨rfl, [], rfl, trivial, World.Went.refl s⟩
  | succ n ih =>
    unfold gather
    by_cases hsum : sumparms < 60000
    · rw [if_pos hsum]
      refine (waitIfNeeded_spec w s).seq fun _ v t h => ?_
      obtain ⟨rfl, hwait⟩ := h
      refine Outcome.bind (Outcome.ask ?_)
      have harrive : s.Went [] [] t.arrive := hwait.trans (World.arrive_went t)
      change Outcome _ _ _ t.arrive.read.2 _ _
      rcases World.read_cases t.arrive with ⟨m, hr, htake⟩ | ⟨hr, hs, hp, hc⟩ | ⟨hr, hs, hp, hc⟩
      · rw [show (World.answer S .read t).1 = .message m from hr]
        refine Outcome.bind (Outcome.modify ?_)
        refine (ih _ _ _ _).weaken (fun res u t' h => ?_) fun _ _ _ h => h
        obtain ⟨hu, h⟩ := h
        refine ⟨hu, ?_⟩
        cases res with
        | none => exact absurd h.1 (push_entries g m)
        | some g' =>
          obtain ⟨seg, hg, hfits, hwent⟩ := h
          refine ⟨m :: seg, hg, ⟨hsum, hfits⟩, ?_⟩
          simpa using (harrive.trans htake).trans hwent
      · rw [show (World.answer S .read t).1 = .eof from hr, hs]
        cases hg : g.entries with
        | cons e es => exact Outcome.pure ⟨rfl, [], rfl, by simp [Fits], harrive⟩
        | nil =>
          refine (MiniPSQL.exec_spec v t.arrive .commit).seq fun _ u t' h => ?_
          obtain ⟨rfl, r, -, hwent⟩ := h
          obtain ⟨hp', hc'⟩ := hwent.empty hp hc
          exact Outcome.pure ⟨rfl, rfl, hp', hc', r, harrive.trans hwent⟩
      · rw [show (World.answer S .read t).1 = .again from hr, hs]
        exact Outcome.bind (Outcome.modify (Outcome.pure ⟨rfl, [], rfl, by simp [Fits], harrive⟩))
    · rw [if_neg hsum]
      exact Outcome.pure ⟨rfl, [], rfl, by simp [Fits], World.Went.refl s⟩

/-- What a run of the loop has done: the batches that the messages were cut into, and the work that was
sent for them; where it has returned, the last statement is a commit at the end of the pipe. -/
def Ran (H : HashOrder) (b : Bool) (known known' : Schemas) (s t : World S) : Prop :=
  ∃ (segs : List (List Message)) (lg last : Log), (∀ seg ∈ segs, Fits 10000 0 seg) ∧
    Works H known (segs.flatMap fun seg => (tabwork seg).entries) lg known' ∧
    s.Went segs.flatten (lg ++ last) t ∧
    (if b = true then (∃ r, last = [(.commit, .ok r)]) ∧ t.pipe = [] ∧ t.closed = true else last = [])

lemma batches_spec (H : HashOrder) (fuel : ℕ) (w : Worker) (s : World S) (hw : Sorted w.schemas) :
    Yields (batches H fuel) w s fun b v t => Ran H b w.schemas v.schemas s t := by
  induction fuel generalizing w s with
  | zero => exact Outcome.pure ⟨[], [], [], by simp, Works.nil, World.Went.refl s, rfl⟩
  | succ fuel ih =>
    unfold batches
    refine (gather_spec 10000 Groups.empty 0 w s).seq fun res v t h => ?_
    obtain ⟨hv, h⟩ := h
    cases res with
    | none =>
      obtain ⟨-, hp, hc, r, hwent⟩ := h
      refine Outcome.pure ⟨[], [], [(.commit, .ok r)], by simp, ?_, hwent, ⟨r, rfl⟩, hp, hc⟩
      exact hv ▸ Works.nil
    | some g =>
      obtain ⟨seg, rfl, hfits, htook⟩ := h
      refine (processTables_spec H (tabwork seg).entries v t (by rw [hv]; exact hw)).seq fun _ u t' h => ?_
      obtain ⟨lg, hworks, hwent⟩ := h
      rw [hv] at hworks
      refine (ih u t' (hworks.keeps_sorted hw)).weaken (fun b x t'' h => ?_) fun _ _ _ h => h
      obtain ⟨segs, lg', last, hall, hrest, hwent', hlast⟩ := h
      refine ⟨seg :: segs, lg ++ lg', last, ?_, hworks.append hrest, ?_, hlast⟩
      · intro seg' hseg'
        rcases List.mem_cons.mp hseg' with rfl | hseg'
        · exact hfits
        · exact hall seg' hseg'
      · simpa using (htook.trans hwent).trans hwent'

/-- The world at the start of the worker: nothing is written, read or sent yet. -/
structure Fresh (s : World S) : Prop where
  pipe : s.pipe = []
  closed : s.closed = false
  sent : s.sent = []
  log : s.log = []
  now : s.now = 0

/-- A run of the thread: between the first `begin` and the last `commit` stands the work for the batches,
and what is in no batch is still in the pipe. -/
def RunOf (H : HashOrder) (b : Bool) (t : World S) : Prop :=
  ∃ (segs : List (List Message)) (lg last : Log) (r : Rows) (known : Schemas),
    (∀ seg ∈ segs, Fits 10000 0 seg) ∧
    Works H (fun _ => none) (segs.flatMap fun seg => (tabwork seg).entries) lg known ∧
    t.sent = segs.flatten ++ t.pipe ∧ t.log = (.begin, .ok r) :: lg ++ last ∧
    (if b = true then (∃ r, last = [(.commit, .ok r)]) ∧ t.pipe = [] ∧ t.closed = true else last = [])

/-- The run lemma. -/
theorem commitThread_spec (H : HashOrder) (fuel : ℕ) {s : World S} (hs : Fresh s) :
    Yields (commitThread H fuel) start s fun b _ t => RunOf H b t := by
  unfold commitThread
  refine (MiniPSQL.exec_spec start s .begin).seq fun _ w t h => ?_
  obtain ⟨rfl, r, -, hbegin⟩ := h
  refine Outcome.bind (Outcome.ask (Outcome.bind (Outcome.modify ?_)))
  have hnone : Sorted fun _ => none := fun table schema h => by cases h
  refine (batches_spec H fuel ⟨fun _ => none, false, t.clock t.now⟩ t.arrive hnone).weaken (fun b v t' h => ?_) fun _ _ _ h => h
  obtain ⟨segs, lg, last, hall, hworks, hwent, hlast⟩ := h
  have hrun := (hbegin.trans (World.arrive_went t)).trans hwent
  obtain ⟨d, hsent, hpipe, -⟩ := hrun.wrote
  rw [hs.pipe] at hpipe
  rw [hs.sent] at hsent
  refine ⟨segs, lg, last, r, v.schemas, hall, hworks, ?_, ?_, hlast⟩
  · simpa [hsent] using hpipe
  · rw [hrun.log, hs.log]
    simp

lemma not_stuck {t : World S} (hok : ∀ e ∈ t.log, e.2.isOk = true) (hpoll : ∀ n, t.polls n ≠ -1) : ¬ t.Stuck := by
  intro h
  rcases h with ⟨e, he, msg, hmsg⟩ | ⟨n, hn⟩
  · have h := hok e he
    rw [hmsg] at h
    cases h
  · exact hpoll n hn

/-- If every statement was accepted, nothing but the end of the pipe ends the thread. -/
theorem accepted_run (H : HashOrder) (fuel : ℕ) {s : World S} (hs : Fresh s) (hpoll : ∀ n, s.polls n ≠ -1)
    (hok : ∀ e ∈ ((commitThread H fuel).invoke (World.answer S) start s).2.2.log, e.2.isOk = true) :
    ∃ b, ((commitThread H fuel).invoke (World.answer S) start s).1 = .ok b ∧
      RunOf H b ((commitThread H fuel).invoke (World.answer S) start s).2.2 := by
  have hpolls := Outcome.keeps (w := start) (s := s) (commitThread H fuel) (fun t => t.polls = s.polls)
    (fun q t h => (World.answer_polls q t).trans h) rfl
  rcases ((commitThread_spec H fuel hs).and hpolls).cases with ⟨b, hb, hrun, -⟩ | ⟨e, -, hstuck, hpolls⟩
  · exact ⟨b, hb, hrun⟩
  · exact absurd hstuck (not_stuck hok (hpolls ▸ hpoll))

/-- The write end is closed before request `c`. -/
structure Closing (c : ℕ) (s : World S) : Prop where
  will : .close ∈ s.arrivals c
  closed : c < s.now → s.closed = true

/-- How many requests and messages may still come until the pipe is closed and empty. -/
def ahead (c : ℕ) (s : World S) : ℕ := (c + 1 - s.now) + s.pipe.length +
  ((List.range' s.now (c + 1 - s.now)).map fun n => (s.arrivals n).length).sum

lemma events_arrivals (s : World S) (es : List Event) :
    (es.foldl World.event s).arrivals = s.arrivals ∧ (es.foldl World.event s).now = s.now := by
  induction es generalizing s with
  | nil => exact ⟨rfl, rfl⟩
  | cons e es ih =>
    have he : (s.event e).arrivals = s.arrivals ∧ (s.event e).now = s.now := by
      cases e with
      | addValue table values => by_cases hc : s.closed = true <;> simp [World.event, hc]
      | close => exact ⟨rfl, rfl⟩
    obtain ⟨h1, h2⟩ := ih (s.event e)
    exact ⟨h1.trans he.1, h2.trans he.2⟩

lemma events_pipe (s : World S) (es : List Event) :
    (es.foldl World.event s).pipe.length ≤ s.pipe.length + es.length := by
  induction es generalizing s with
  | nil => simp
  | cons e es ih =>
    have he : (s.event e).pipe.length ≤ s.pipe.length + 1 := by
      cases e with
      | addValue table values => by_cases hc : s.closed = true <;> simp [World.event, hc]
      | close => simp [World.event]
    have h := ih (s.event e)
    simp only [List.foldl_cons, List.length_cons]
    omega

lemma events_closed (s : World S) {es : List Event} (h : .close ∈ es) :
    (es.foldl World.event s).closed = true := by
  induction es generalizing s with
  | nil => cases h
  | cons e es ih =>
    rcases List.mem_cons.mp h with rfl | h
    · exact (World.events_went (s.event .close) es).closed rfl
    · exact ih (s.event e) h

lemma Closing.arrive {c : ℕ} {s : World S} (h : Closing c s) : Closing c s.arrive := by
  obtain ⟨harr, -⟩ := events_arrivals s (s.arrivals s.now)
  refine ⟨?_, fun hlt => ?_⟩
  · change .close ∈ (List.foldl World.event s (s.arrivals s.now)).arrivals c
    rw [harr]
    exact h.will
  · have hle : c ≤ s.now := Nat.lt_succ_iff.mp hlt
    rcases Nat.lt_or_eq_of_le hle with hlt' | heq
    · exact (World.arrive_went s).closed (h.closed hlt')
    · refine events_closed s ?_
      rw [← heq]
      exact h.will

lemma ahead_arrive {c : ℕ} {s : World S} (h : Closing c s) :
    ahead c s.arrive ≤ ahead c s ∧ (s.now ≤ c → ahead c s.arrive < ahead c s) := by
  obtain ⟨harr, -⟩ := events_arrivals s (s.arrivals s.now)
  have harr' : s.arrive.arrivals = s.arrivals := harr
  have hnow : s.arrive.now = s.now + 1 := rfl
  unfold ahead
  rw [harr', hnow]
  rcases Nat.lt_or_ge c s.now with hlt | hge
  · have hpipe : s.arrive.pipe = s.pipe := by
      obtain ⟨d, -, hd, hclosed⟩ := (World.arrive_went s).wrote
      rw [hclosed (h.closed hlt)] at hd
      simpa using hd.symm
    have h0 : c + 1 - s.now = 0 := by omega
    have h1 : c + 1 - (s.now + 1) = 0 := by omega
    rw [hpipe, h0, h1]
    simp
    omega
  · have hpipe : s.arrive.pipe.length ≤ s.pipe.length + (s.arrivals s.now).length :=
      events_pipe s (s.arrivals s.now)
    have hsucc : c + 1 - s.now = (c + 1 - (s.now + 1)) + 1 := by omega
    rw [hsucc, List.range'_succ, List.map_cons, List.sum_cons]
    constructor
    · omega
    · intro _
      omega

/-- At most `k` requests and messages are ahead. -/
def Within (c k : ℕ) (s : World S) : Prop := Closing c s ∧ ahead c s ≤ k

lemma Within.arrive {c k : ℕ} {s : World S} (h : Within c k s) : Within c k s.arrive :=
  ⟨h.1.arrive, (ahead_arrive h.1).1.trans h.2⟩

lemma Within.answer {c k : ℕ} (q : Request) (s : World S) (h : Within c k s) :
    Within c k (World.answer S q s).2 := by
  have harrive := h.arrive
  cases q with
  | exec st => exact ⟨⟨harrive.1.will, harrive.1.closed⟩, harrive.2⟩
  | poll => exact harrive
  | time => exact harrive
  | read =>
    change Within c k s.arrive.read.2
    unfold World.read
    split
    · rename_i m rest hp
      refine ⟨⟨harrive.1.will, harrive.1.closed⟩, ?_⟩
      have hle := harrive.2
      simp only [ahead, hp, List.length_cons] at hle ⊢
      omega
    · exact harrive

lemma keepsWithin {α : Type} (m : M α) {c k : ℕ} (w : Worker) {s : World S} (h : Within c k s) :
    Outcome (World.answer S) m w s (fun _ _ t => Within c k t) fun _ _ _ => True :=
  (Outcome.keeps m (Within c k) (fun q t => Within.answer q t) h).weaken (fun _ _ _ h => h)
    fun _ _ _ _ => trivial

lemma gather_nearer (n : ℕ) {c k : ℕ} (w : Worker) {s : World S} (h : Within c k s) :
    Outcome (World.answer S) (gather (n + 1) Groups.empty 0) w s
      (fun res _ t => res = none ∨ ∃ j < k, Within c j t) fun _ _ _ => True := by
  unfold gather
  rw [if_pos (by decide)]
  refine (keepsWithin waitIfNeeded w h).seq fun _ v t h => ?_
  refine Outcome.bind (Outcome.ask ?_)
  have harrive := h.arrive
  have hahead := (ahead_arrive h.1).2
  change Outcome _ _ _ t.arrive.read.2 _ _
  rcases World.read_cases t.arrive with ⟨m, hr, htake⟩ | ⟨hr, hs, hp, hc⟩ | ⟨hr, hs, hp, hc⟩
  · rw [show (World.answer S .read t).1 = .message m from hr]
    have hread := Within.answer .read t h
    have hless : ∃ j < k, Within c j t.arrive.read.2 := by
      have hle := harrive.2
      refine ⟨ahead c t.arrive.read.2, ?_, hread.1, le_rfl⟩
      cases hpipe : t.arrive.pipe with
      | nil => simp [World.read, hpipe] at hr; split at hr <;> cases hr
      | cons m' rest =>
        simp only [World.read, hpipe]
        simp only [ahead, hpipe, List.length_cons] at hle ⊢
        omega
    obtain ⟨j, hj, hwithin⟩ := hless
    refine Outcome.bind (Outcome.modify ?_)
    exact (keepsWithin _ _ hwithin).weaken (fun _ _ _ h => Or.inr ⟨j, hj, h⟩) fun _ _ _ h => h
  · rw [show (World.answer S .read t).1 = .eof from hr]
    refine (keepsWithin _ v (hs ▸ harrive)).seq fun _ _ _ _ => Outcome.pure (Or.inl rfl)
  · -- The pipe is still open, so that every request brings its end nearer.
    rw [show (World.answer S .read t).1 = .again from hr, hs]
    have hopen : t.now ≤ c := by
      by_contra hlt
      have hclosed := (World.arrive_went t).closed (h.1.closed (by omega))
      rw [hc] at hclosed
      cases hclosed
    refine Outcome.bind (Outcome.modify (Outcome.pure (Or.inr ⟨ahead c t.arrive, ?_, harrive.1, le_rfl⟩)))
    exact lt_of_lt_of_le (hahead hopen) h.2

lemma batches_return (H : HashOrder) (fuel : ℕ) {c k : ℕ} (hk : k < fuel) (w : Worker) {s : World S}
    (h : Within c k s) : Outcome (World.answer S) (batches H fuel) w s (fun b _ _ => b = true)
      fun _ _ _ => True := by
  induction fuel generalizing k w s with
  | zero => omega
  | succ fuel ih =>
    unfold batches
    refine (gather_nearer 9999 w h).seq fun res v t h => ?_
    rcases h with rfl | ⟨j, hj, hwithin⟩
    · exact Outcome.pure rfl
    · cases res with
      | none => exact Outcome.pure rfl
      | some g => exact (keepsWithin _ v hwithin).seq fun _ u t' h => ih (by omega) u h

/-- Once the write end is closed the thread returns: the loop runs for finitely many batches. -/
theorem commitThread_returns (H : HashOrder) {c : ℕ} {s : World S} (h : Closing c s) {fuel : ℕ}
    (hfuel : ahead c s < fuel) : Outcome (World.answer S) (commitThread H fuel) start s
      (fun b _ _ => b = true) fun _ _ _ => True := by
  have hwithin : Within c (ahead c s) s := ⟨h, le_rfl⟩
  unfold commitThread
  refine (keepsWithin _ start hwithin).seq fun _ w t h => ?_
  refine Outcome.bind (Outcome.ask (Outcome.bind (Outcome.modify ?_)))
  exact batches_return H fuel hfuel _ (Within.answer .time t h)

end PSQLWriter

/-- A server that accepts every statement and answers it with the same rows. -/
def agreeable (rows : Rows) : Server := ⟨Unit, fun s _ => (.ok rows, s), fun s _ _ => (.ok rows, s)⟩

/-- Hash containers that are walked in the order of insertion. -/
def insertionOrder : HashOrder := ⟨id, id, fun _ => List.Perm.refl _, fun _ => List.Perm.refl _⟩

/-- A world at the start, with a clock that stands still. -/
def World.fresh {S : Server} (db : S.State) (arrivals : ℕ → List Event) : World S :=
  ⟨db, [], [], false, [], arrivals, fun _ => 0, fun _ => 0, 0⟩

lemma PSQLWriter.Fresh.of_fresh (db : S.State) (arrivals : ℕ → List Event) :
    PSQLWriter.Fresh (World.fresh db arrivals) := ⟨rfl, rfl, rfl, rfl, rfl⟩

lemma agreeable_accepts (rows : Rows) {α : Type} (m : M α) (w : Worker) {s : World (agreeable rows)}
    (hs : ∀ e ∈ s.log, e.2.isOk = true) :
    ∀ e ∈ (m.invoke (World.answer (agreeable rows)) w s).2.2.log, e.2.isOk = true := by
  have hstep : ∀ (q : Request) (t : World (agreeable rows)), (∀ e ∈ t.log, e.2.isOk = true) →
      ∀ e ∈ (World.answer (agreeable rows) q t).2.log, e.2.isOk = true := by
    intro q t h
    have harrive : ∀ e ∈ t.arrive.log, e.2.isOk = true := by
      rw [t.arrive_went.log, List.append_nil]
      exact h
    cases q with
    | exec st =>
      intro e he
      rcases List.mem_append.mp he with he | he
      · exact harrive e he
      · obtain rfl := List.mem_singleton.mp he
        cases st <;> rfl
    | read =>
      change ∀ e ∈ t.arrive.read.2.log, e.2.isOk = true
      unfold World.read
      split
      · exact harrive
      · exact harrive
    | _ => exact harrive
  rcases (Outcome.keeps (w := w) m _ hstep hs).cases with ⟨a, -, h⟩ | ⟨e, -, h⟩
  · exact h
  · exact h

end SqliteWrite.Psql
