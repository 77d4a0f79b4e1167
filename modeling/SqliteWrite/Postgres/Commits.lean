import SqliteWrite.Postgres.Delivery

/-! When the worker commits. The clock is looked at after each table's insert and nowhere else, so that an
iteration that finds no message leaves the rows of the one before uncommitted, however long ago that was. -/
namespace SqliteWrite.Psql
open Method (Outcome)

variable {S : Server}

/-- Every row that was inserted is committed. -/
def Settled (lg : Log) : Prop := ∀ table, rowsOf lg table = rowsOf (committed lg) table

/-- The second that the clock showed at the last request. -/
def World.second (t : World S) : ℤ := t.clock (t.now - 1)

lemma World.event_clock (t : World S) (e : Event) : (t.event e).clock = t.clock := by
  cases e with
  | addValue table values => by_cases hc : t.closed = true <;> simp [event, hc]
  | close => rfl

lemma World.arrive_clock (t : World S) : t.arrive.clock = t.clock := by
  have hevents : ∀ (es : List Event) (t : World S), (es.foldl event t).clock = t.clock := by
    intro es
    induction es with
    | nil => intro t; rfl
    | cons e es ih => intro t; exact (ih (t.event e)).trans (t.event_clock e)
  exact hevents _ t

namespace PSQLWriter

/-- One pass of the outer loop; `true` when the thread returns. -/
def iteration (H : HashOrder) : M Bool := do
  match ← gather 10000 Groups.empty 0 with
  | none => pure true
  | some tabwork =>
    tabwork.entries.forM (processTable H)
    pure false

lemma batches_succ (H : HashOrder) (k : ℕ) :
    batches H (k + 1) = iteration H >>= fun b => if b then pure true else batches H k := by
  unfold iteration
  rw [bind_assoc]
  apply bind_congr
  intro res
  cases res with
  | none => rfl
  | some tabwork =>
    rw [bind_assoc]
    apply bind_congr
    intro u
    rfl

lemma batches_snoc (H : HashOrder) (k : ℕ) :
    batches H (k + 1) = batches H k >>= fun b => if b then pure true else iteration H := by
  induction k with
  | zero =>
    rw [batches_succ]
    have hend : ∀ b : Bool, (if b then pure true else batches H 0 : M Bool) = pure b := by
      intro b
      cases b <;> rfl
    simp only [hend, bind_pure]
    exact (pure_bind false fun b : Bool => if b then pure true else iteration H).symm
  | succ k ih =>
    rw [batches_succ H (k + 1), batches_succ H k, bind_assoc]
    apply bind_congr
    intro b
    cases b with
    | true => exact (pure_bind true fun b : Bool => if b then pure true else iteration H).symm
    | false =>
      rw [← batches_succ H k]
      exact ih

lemma commitThread_snoc (H : HashOrder) (k : ℕ) :
    commitThread H (k + 1) = commitThread H k >>= fun b => if b then pure true else iteration H := by
  unfold commitThread
  simp only [bind_assoc, batches_snoc]

/-- The worker and its world after so many iterations. -/
def after (H : HashOrder) (s : World S) (k : ℕ) : Worker × World S :=
  ((commitThread H k).invoke (World.answer S) start s).2

/-- The thread is still in its loop after so many iterations. -/
def Running (H : HashOrder) (s : World S) (k : ℕ) : Prop :=
  ((commitThread H k).invoke (World.answer S) start s).1 = .ok false

instance (H : HashOrder) (s : World S) (k : ℕ) : Decidable (Running H s k) :=
  inferInstanceAs (Decidable (((commitThread H k).invoke (World.answer S) start s).1 = .ok false))

lemma Running.step {H : HashOrder} {s : World S} {k : ℕ} (h : Running H s (k + 1)) :
    Running H s k ∧ (iteration H).invoke (World.answer S) (after H s k).1 (after H s k).2 =
      (.ok false, after H s (k + 1)) := by
  unfold Running after at *
  rw [commitThread_snoc, Method.invoke_bind] at h ⊢
  generalize (commitThread H k).invoke (World.answer S) start s = r at h ⊢
  obtain ⟨x, w, t⟩ := r
  cases x with
  | error e => cases h
  | ok b =>
    cases b with
    | true => cases h
    | false =>
      simp only [Bool.false_eq_true, if_false] at h ⊢
      exact ⟨trivial, Prod.ext h rfl⟩

lemma Running.of_le {H : HashOrder} {s : World S} {j k : ℕ} (h : Running H s k) (hjk : j ≤ k) :
    Running H s j := by
  induction k with
  | zero =>
    obtain rfl : j = 0 := by omega
    exact h
  | succ k ih =>
    rcases Nat.lt_or_eq_of_le hjk with hlt | rfl
    · exact ih h.step.1 (by omega)
    · exact h

/-- The iteration finds a message. -/
def Finds (x : Worker × World S) : Prop :=
  ∃ g, ((gather 10000 Groups.empty 0).invoke (World.answer S) x.1 x.2).1 = .ok (some g) ∧ g.entries ≠ []

/-- The clock at the end of the reading loop. -/
def secondRead (x : Worker × World S) : ℤ :=
  ((gather 10000 Groups.empty 0).invoke (World.answer S) x.1 x.2).2.2.second

/-- An iteration that does no harm: it finds a message, or nothing is uncommitted when it begins, or it
ends in the second of the last commit. -/
def Met (x : Worker × World S) : Prop :=
  Finds x ∨ Settled x.2.log ∨ secondRead x = x.1.prevcommit

/-- Once the second of the last commit has passed, nothing is uncommitted. -/
def KeepsUp (x : Worker × World S) : Prop := x.2.second ≠ x.1.prevcommit → Settled x.2.log

lemma outcome_trivial {α : Type} (m : M α) (w : Worker) (s : World S) :
    Outcome (World.answer S) m w s (fun _ _ _ => True) fun _ _ _ => True :=
  (Outcome.keeps m (fun _ => True) (fun _ _ _ => trivial) trivial).weaken (fun _ _ _ h => h) fun _ _ _ h => h

lemma gather_prevcommit (n : ℕ) (g : Groups Bytes Message) (sumparms : Int32) (w : Worker) (s : World S) :
    Outcome (World.answer S) (gather n g sumparms) w s (fun _ v _ => v.prevcommit = w.prevcommit)
      fun _ _ _ => True := by
  induction n generalizing g sumparms w s with
  | zero => exact Outcome.pure rfl
  | succ n ih =>
    unfold gather
    by_cases hsum : sumparms < 60000
    · rw [if_pos hsum]
      have hwait : Outcome (World.answer S) waitIfNeeded w s (fun _ v _ => v = w) fun _ _ _ => True :=
        (waitIfNeeded_spec w s).weaken (fun _ _ _ h => h.1) fun _ _ _ _ => trivial
      refine hwait.seq fun _ v t h => ?_
      subst h
      refine Outcome.bind (Outcome.ask ?_)
      have hcommit := (MiniPSQL.exec_spec v (World.answer S .read t).2 .commit).weaken
        (fun _ u _ h => (h.1 : u = v)) fun _ _ _ _ => trivial
      cases (World.answer S .read t).1 with
      | message m =>
        refine Outcome.bind (Outcome.modify ?_)
        exact ih _ _ _ _
      | again => exact Outcome.bind (Outcome.modify (Outcome.pure rfl))
      | eof =>
        cases g.entries with
        | nil => exact hcommit.seq fun _ u _ h => Outcome.pure (by rw [h])
        | cons e es => exact Outcome.pure rfl
      | failed => exact hcommit.seq fun _ u _ h => Outcome.pure (by rw [h])
    · rw [if_neg hsum]
      exact Outcome.pure rfl

lemma commitIfLater_second (w : Worker) (s : World S) : Outcome (World.answer S) commitIfLater w s
    (fun _ v t => t.second = v.prevcommit) fun _ _ _ => True := by
  have hnow : ∀ t : World S, t.arrive.second = t.clock t.now := by
    intro t
    change t.arrive.clock (t.now + 1 - 1) = t.clock t.now
    rw [World.arrive_clock, Nat.add_sub_cancel]
  unfold commitIfLater
  refine Outcome.get_bind (Outcome.bind (Outcome.ask ?_))
  split_ifs with h
  · refine (outcome_trivial _ _ _).seq fun _ v t _ => (outcome_trivial _ _ _).seq fun _ v t _ => ?_
    exact Outcome.bind (Outcome.ask (Outcome.modify (hnow t)))
  · exact Outcome.pure ((hnow s).trans (not_not.mp h).symm)

lemma processTable_second (H : HashOrder) (e : Bytes × List Message) (w : Worker) (s : World S) :
    Outcome (World.answer S) (processTable H e) w s (fun _ v t => t.second = v.prevcommit)
      fun _ _ _ => True := by
  have hrest : ∀ v t, Outcome (World.answer S) (do
      let fields ← checkFields H e.1 e.2
      let _ ← MiniPSQL.exec (.insert e.1 (H.ofSet fields) e.2)
      commitIfLater) v t (fun _ v t => t.second = v.prevcommit) fun _ _ _ => True := fun v t =>
    (outcome_trivial _ v t).seq fun _ v t _ => (outcome_trivial _ v t).seq fun _ v t _ =>
      commitIfLater_second v t
  unfold processTable
  refine Outcome.get_bind ?_
  cases w.schemas e.1 with
  | some schema => exact hrest w s
  | none =>
    refine (outcome_trivial _ w s).seq fun schema v t _ => ?_
    exact Outcome.bind (Outcome.modify (hrest _ t))

lemma processTables_second (H : HashOrder) {es : List (Bytes × List Message)} (hes : es ≠ []) (w : Worker)
    (s : World S) : Outcome (World.answer S) (es.forM (processTable H)) w s
      (fun _ v t => t.second = v.prevcommit) fun _ _ _ => True := by
  induction es generalizing w s with
  | nil => exact absurd rfl hes
  | cons e es ih =>
    change Outcome _ (processTable H e >>= fun _ => es.forM (processTable H)) w s _ _
    refine (processTable_second H e w s).seq fun _ v t h => ?_
    cases es with
    | nil => exact Outcome.pure h
    | cons e' es => exact ih (by simp) v t

/-- The step lemma: an iteration that finds a message ends in the second of the last commit; one that
finds none changes nothing of it. -/
lemma iteration_cases {H : HashOrder} {x y : Worker × World S}
    (h : (iteration H).invoke (World.answer S) x.1 x.2 = (.ok false, y)) :
    (Finds x ∧ y.2.second = y.1.prevcommit) ∨
    (¬ Finds x ∧ y.1.prevcommit = x.1.prevcommit ∧ y.2.log = x.2.log ∧ y.2.second = secondRead x) := by
  obtain ⟨w, s⟩ := x
  have hread := ((gather_spec 10000 Groups.empty 0 w s).and (gather_prevcommit 10000 Groups.empty 0 w s))
  unfold iteration at h
  rw [Method.invoke_bind] at h
  unfold Outcome at hread
  unfold Finds secondRead
  generalize (gather 10000 Groups.empty 0).invoke (World.answer S) w s = r at h hread ⊢
  obtain ⟨res, v, t⟩ := r
  cases res with
  | error e => cases h
  | ok res =>
    cases res with
    | none => cases h
    | some g =>
      obtain ⟨⟨-, seg, -, -, hwent⟩, hprev⟩ := hread
      by_cases hg : g.entries = []
      · right
        simp only [hg] at h
        obtain rfl : (v, t) = y := congrArg Prod.snd h
        refine ⟨fun ⟨g', hg', hne⟩ => ?_, hprev, by simpa using hwent.log, rfl⟩
        obtain rfl : g = g' := by simpa using hg'
        exact hne hg
      · left
        refine ⟨⟨g, rfl, hg⟩, ?_⟩
        have hend := processTables_second H hg v t
        simp only at h
        rw [Method.invoke_bind] at h
        unfold Outcome at hend
        generalize (g.entries.forM (processTable H)).invoke (World.answer S) v t = r' at h hend
        obtain ⟨res, u, t'⟩ := r'
        cases res with
        | error e => cases h
        | ok a =>
          obtain rfl : (u, t') = y := congrArg Prod.snd h
          exact hend

lemma keepsUp_step {H : HashOrder} {x y : Worker × World S}
    (h : (iteration H).invoke (World.answer S) x.1 x.2 = (.ok false, y)) : KeepsUp y ↔ Met x := by
  unfold KeepsUp Met
  rcases iteration_cases h with ⟨hfinds, hsecond⟩ | ⟨hfinds, hprev, hlog, hsecond⟩
  · constructor
    · intro _
      exact Or.inl hfinds
    · intro _ hne
      exact absurd hsecond hne
  · rw [hsecond, hprev, hlog]
    constructor
    · intro hkeeps
      by_cases heq : secondRead x = x.1.prevcommit
      · exact Or.inr (Or.inr heq)
      · exact Or.inr (Or.inl (hkeeps heq))
    · intro hmet hne
      rcases hmet with hf | hsettled | heq
      · exact absurd hf hfinds
      · exact hsettled
      · exact absurd heq hne

lemma keepsUp_start (H : HashOrder) {s : World S} (hs : Fresh s) (h : Running H s 0) :
    KeepsUp (after H s 0) := by
  have hbegin : Yields (commitThread H 0) start s fun _ _ t => ∃ r, t.log = [(.begin, .ok r)] := by
    unfold commitThread
    refine (MiniPSQL.exec_spec start s .begin).seq fun _ v t h => ?_
    obtain ⟨-, r, -, hwent⟩ := h
    refine Outcome.bind (Outcome.ask (Outcome.bind (Outcome.modify (Outcome.pure ⟨r, ?_⟩))))
    have hlog := (hwent.trans (World.arrive_went t)).log
    rw [hs.log] at hlog
    exact hlog
  intro _ table
  rcases hbegin.cases with ⟨b, -, r, hlog⟩ | ⟨e, he, -⟩
  · have hlog' : (after H s 0).2.log = [(.begin, .ok r)] := hlog
    rw [hlog']
    rfl
  · unfold Running at h
    rw [h] at he
    cases he

/-- In a run of the thread the rows are committed as the seconds pass, after every iteration, if and only
if no iteration does harm. -/
theorem keepsUp_iff (H : HashOrder) {s : World S} (hs : Fresh s) {k : ℕ} (hk : Running H s k) :
    (∀ j ≤ k, KeepsUp (after H s j)) ↔ ∀ j < k, Met (after H s j) := by
  constructor
  · intro h j hj
    exact (keepsUp_step (hk.of_le hj).step.2).mp (h (j + 1) hj)
  · intro h j hj
    cases j with
    | zero => exact keepsUp_start H hs (hk.of_le hj)
    | succ j => exact (keepsUp_step (hk.of_le hj).step.2).mpr (h j hj)

/-- A world in which one message is written before the first read, and the seconds pass from request 10
on. -/
def oneMessage : World (agreeable []) :=
  { World.fresh () fun n => if n = 0 then [.addValue (ascii "data") [(ascii "test", .int32 1)]] else [] with
    clock := fun n => if n < 10 then 0 else 5 }

/-- The same message, where the seconds pass before its table is done, and the pipe is quiet afterwards. -/
def quietMessage : World (agreeable []) := { oneMessage with clock := fun n => if n < 8 then 0 else n }

theorem keepsUp_iff_quietMessage : KeepsUp (after insertionOrder quietMessage 2) ∧
    (after insertionOrder quietMessage 1).2.log.length = (after insertionOrder quietMessage 2).2.log.length ∧
    (after insertionOrder quietMessage 2).2.second ≠ (after insertionOrder quietMessage 2).1.prevcommit := by
  have hrun : Running insertionOrder quietMessage 2 := by decide +kernel
  have hlog : ∀ j < 2, (after insertionOrder quietMessage j).2.log =
      committed (after insertionOrder quietMessage j).2.log ++ [(.begin, .ok [])] := by
    intro j hj
    cases j with
    | zero => rfl
    | succ j =>
      obtain rfl : j = 0 := by omega
      rfl
  refine ⟨(keepsUp_iff insertionOrder ⟨rfl, rfl, rfl, rfl, rfl⟩ hrun).mpr (fun j hj => ?_) 2 le_rfl, ?_, ?_⟩
  · -- what was inserted is committed
    refine Or.inr (Or.inl fun table => ?_)
    have hrows := congrArg (rowsOf · table) (hlog j hj)
    simp only [rowsOf_append] at hrows
    exact hrows.trans (List.append_nil _)
  · decide +kernel
  · decide +kernel

/-- After the message the pipe is empty for five seconds, and its row is still uncommitted. -/
theorem quiet_pipe_keeps_row_uncommitted :
    Running insertionOrder oneMessage 2 ∧ (after insertionOrder oneMessage 2).2.second = 5 ∧
      (after insertionOrder oneMessage 2).1.prevcommit = 0 ∧
      ¬ KeepsUp (after insertionOrder oneMessage 2) := by
  have hrun : Running insertionOrder oneMessage 2 ∧ (after insertionOrder oneMessage 2).2.second = 5 ∧
      (after insertionOrder oneMessage 2).1.prevcommit = 0 := by decide +kernel
  obtain ⟨hrun, hsecond, hprev⟩ := hrun
  refine ⟨hrun, hsecond, hprev, fun h => ?_⟩
  have hsettled := congrArg List.length (h (by rw [hsecond, hprev]; decide) (ascii "data"))
  revert hsettled
  decide +kernel

end PSQLWriter
end SqliteWrite.Psql
