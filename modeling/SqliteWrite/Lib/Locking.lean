import Mathlib.Data.List.Induction
import Mathlib.Logic.Function.Basic
import SqliteWrite.Lib.Script

/-! Threads that share an object and its server behind one lock. A thread goes on by itself, or it takes
the lock, runs a script on the object and gives the lock back. Other threads run between the requests of
the script; yet every run does what a run of whole scripts does, each at the point where the lock was
taken. -/
namespace SqliteWrite

variable {ι Q L W R σ Op : Type} {A : Q → Type}

namespace Script
variable {α : Type} {h : (q : Q) → σ → A q × σ}

/-- Where a run of a script passes: what is left of it, and the state of the server. -/
inductive Reaches (h : (q : Q) → σ → A q × σ) (x : Script Q A α) (s : σ) : Script Q A α → σ → Prop
  | start : Reaches h x s x s
  | ask {q : Q} {f : A q → Script Q A α} {t : σ} :
    Reaches h x s (.ask q f) t → Reaches h x s (f (h q t).1) (h q t).2

variable {x y : Script Q A α} {s t : σ}

end Script

/-- What a thread does next: nothing any more, a step on its own variables, or an operation under the
lock, with whose result it goes on. -/
inductive Act (L R Op : Type)
  | halt
  | move (l : L)
  | enter (op : Op) (resume : R → L)

/-- The code of the threads, and that of the operations on the object. -/
structure Code (Q : Type) (A : Q → Type) (L W R Op : Type) where
  act : L → Act L R Op
  body : Op → W → Script Q A (R × W)

/-- The variables of the threads, the object and the server, between two operations. -/
@[ext] structure Shared (ι L W σ : Type) where
  locals : ι → L
  object : W
  server : σ

/-- The thread that has the lock, how it goes on with a result, and what is left of its operation. -/
structure Holder (ι Q : Type) (A : Q → Type) (L W R : Type) where
  thread : ι
  resume : R → L
  rest : Script Q A (R × W)

/-- Threads in the middle of a run; the lock is free or held. -/
structure Locked (ι Q : Type) (A : Q → Type) (L W R σ : Type) where
  state : Shared ι L W σ
  holder : Option (Holder ι Q A L W R)

variable [DecidableEq ι]

namespace Shared
variable (h : (q : Q) → σ → A q × σ) (code : Code Q A L W R Op)

/-- A thread runs the rest of an operation to its end. -/
def finish (s : Shared ι L W σ) (i : ι) (resume : R → L) (x : Script Q A (R × W)) : Shared ι L W σ :=
  ⟨Function.update s.locals i (resume (x.run h s.server).1.1), (x.run h s.server).1.2, (x.run h s.server).2⟩

/-- The next step of a thread, with an operation as a whole. -/
def turn (s : Shared ι L W σ) (i : ι) : Shared ι L W σ :=
  match code.act (s.locals i) with
  | .halt => s
  | .move l => { s with locals := Function.update s.locals i l }
  | .enter op resume => s.finish h i resume (code.body op s.object)

def run (s : Shared ι L W σ) (is : List ι) : Shared ι L W σ := is.foldl (turn h code) s

end Shared

namespace Locked
variable (h : (q : Q) → σ → A q × σ) (code : Code Q A L W R Op)

/-- The next step of a thread. With the lock it puts one request, or gives the lock back at the end of
its operation; without, it takes the lock if that is free. -/
def step (s : Locked ι Q A L W R σ) (i : ι) : Locked ι Q A L W R σ :=
  match s.holder with
  | none =>
    match code.act (s.state.locals i) with
    | .halt => s
    | .move l => { s with state := { s.state with locals := Function.update s.state.locals i l } }
    | .enter op resume => { s with holder := some ⟨i, resume, code.body op s.state.object⟩ }
  | some k =>
    if k.thread = i then
      match k.rest with
      | .ask q f =>
        ⟨{ s.state with server := (h q s.state.server).2 }, some { k with rest := f (h q s.state.server).1 }⟩
      | .done r => ⟨⟨Function.update s.state.locals i (k.resume r.1), r.2, s.state.server⟩, none⟩
    else
      match code.act (s.state.locals i) with
      | .move l => { s with state := { s.state with locals := Function.update s.state.locals i l } }
      | _ => s

def run (s : Locked ι Q A L W R σ) (is : List ι) : Locked ι Q A L W R σ := is.foldl (step h code) s

/-- The state once the operation under the lock is over. -/
def whole (s : Locked ι Q A L W R σ) : Shared ι L W σ :=
  match s.holder with
  | none => s.state
  | some k => s.state.finish h k.thread k.resume k.rest

/-- Whether the step of a thread takes the lock, or is one on its own variables. -/
def effective (s : Locked ι Q A L W R σ) (i : ι) : Bool :=
  match s.holder, code.act (s.state.locals i) with
  | none, .halt => false
  | none, _ => true
  | some k, .move _ => k.thread ≠ i
  | some _, _ => false

/-- The threads of a run in the order in which their steps take effect. -/
def order : Locked ι Q A L W R σ → List ι → List ι
  | _, [] => []
  | s, i :: is =>
    if s.effective code i then i :: order (s.step h code i) is else order (s.step h code i) is

variable {h code}

/-- A thread with the lock goes on without being seen; every other step is one of the whole state. -/
lemma whole_step (s : Locked ι Q A L W R σ) (i : ι) : (s.step h code i).whole h =
    if s.effective code i then (s.whole h).turn h code i else s.whole h := by
  obtain ⟨state, holder⟩ := s
  cases holder with
  | none =>
    cases hact : code.act (state.locals i) with
    | halt => simp [step, effective, whole, hact]
    | move l => simp [step, effective, whole, Shared.turn, hact]
    | enter op resume => simp [step, effective, whole, Shared.turn, hact]
  | some k =>
    by_cases hk : k.thread = i
    · -- The holder puts a request or gives the lock back, as its whole operation does in time.
      have hrest : (step h code ⟨state, some k⟩ i).whole h = whole h ⟨state, some k⟩ := by
        subst hk
        obtain ⟨thread, resume, rest⟩ := k
        simp only [step, if_true]
        cases rest <;> rfl
      have hquiet : effective code ⟨state, some k⟩ i = false := by
        cases hact : code.act (state.locals i) <;> simp [effective, hact, hk]
      rw [hrest, hquiet]
      rfl
    · have hlocal : (whole h ⟨state, some k⟩).locals i = state.locals i := Function.update_of_ne (Ne.symm hk) _ _
      cases hact : code.act (state.locals i) with
      | halt => simp [step, effective, hact, hk]
      | enter op resume => simp [step, effective, hact, hk]
      | move l =>
        have hturn : (whole h ⟨state, some k⟩).turn h code i =
            { whole h ⟨state, some k⟩ with
              locals := Function.update (whole h ⟨state, some k⟩).locals i l } := by
          simp only [Shared.turn, hlocal, hact]
        have heffective : effective code ⟨state, some k⟩ i = true := by simp [effective, hact, hk]
        rw [heffective, if_pos rfl, hturn]
        simp only [step, hk, if_false, hact]
        apply Shared.ext
        · exact (Function.update_comm hk _ _ _).symm
        · rfl
        · rfl

/-- Every run does what the run of whole operations does, in the order in which the lock was taken. -/
theorem whole_run (s : Locked ι Q A L W R σ) (is : List ι) :
    (s.run h code is).whole h = (s.whole h).run h code (s.order h code is) := by
  induction is generalizing s with
  | nil => rfl
  | cons i is ih =>
    have hnext := ih (s.step h code i)
    have hstep : (s.step h code i).whole h = _ := whole_step s i
    unfold order
    split_ifs with he
    · rw [if_pos he] at hstep
      rw [hstep] at hnext
      exact hnext
    · rw [if_neg he] at hstep
      rw [hstep] at hnext
      exact hnext

lemma order_sublist (s : Locked ι Q A L W R σ) (is : List ι) : (s.order h code is).Sublist is := by
  induction is generalizing s with
  | nil => exact List.Sublist.refl []
  | cons i is ih =>
    unfold order
    split_ifs
    · exact (ih _).cons_cons i
    · exact (ih _).cons i

lemma order_append (s : Locked ι Q A L W R σ) (is js : List ι) :
    s.order h code (is ++ js) = s.order h code is ++ (s.run h code is).order h code js := by
  induction is generalizing s with
  | nil => rfl
  | cons i is ih =>
    have hnext := ih (s.step h code i)
    simp only [List.cons_append, order]
    split_ifs
    · rw [hnext]
      rfl
    · rw [hnext]
      rfl

/-- The thread that has the lock is in the middle of its operation, which began where it took the lock;
since then the others have only made steps of their own. -/
structure Midway (h : (q : Q) → σ → A q × σ) (code : Code Q A L W R Op) (s₀ : Shared ι L W σ)
    (s : Locked ι Q A L W R σ) (is : List ι) (k : Holder ι Q A L W R) (is₀ moves : List ι) (op : Op) : Prop where
  order : order h code ⟨s₀, none⟩ is = is₀ ++ k.thread :: moves
  moves : k.thread ∉ moves
  act : code.act ((s₀.run h code is₀).locals k.thread) = .enter op k.resume
  object : s.state.object = (s₀.run h code is₀).object
  reaches : Script.Reaches h (code.body op (s₀.run h code is₀).object) (s₀.run h code is₀).server k.rest s.state.server

lemma releases (s : Shared ι L W σ) (k : Holder ι Q A L W R) :
    ∃ n, run h code ⟨s, some k⟩ (List.replicate n k.thread) = ⟨s.finish h k.thread k.resume k.rest, none⟩ := by
  obtain ⟨i, resume, x⟩ := k
  induction x generalizing s with
  | done r => exact ⟨1, by simp [run, step, Shared.finish, Script.run]⟩
  | ask q f ih =>
    obtain ⟨n, hn⟩ := ih (h q s.server).1 { s with server := (h q s.server).2 }
    refine ⟨n + 1, ?_⟩
    simp only [run, List.replicate_succ, List.foldl_cons, step, if_true] at hn ⊢
    rw [hn]
    rfl

/-- Whole operations are among the runs: the scheduler may leave a thread alone until it has given the
lock back. -/
theorem run_reaches (s : Shared ι L W σ) (is : List ι) :
    ∃ js, run h code ⟨s, none⟩ js = ⟨s.run h code is, none⟩ := by
  induction is generalizing s with
  | nil => exact ⟨[], rfl⟩
  | cons i is ih =>
    obtain ⟨js, hjs⟩ := ih (s.turn h code i)
    have hturn : ∃ ks, run h code ⟨s, none⟩ ks = ⟨s.turn h code i, none⟩ := by
      cases hact : code.act (s.locals i) with
      | halt => exact ⟨[i], by simp [run, step, Shared.turn, hact]⟩
      | move l => exact ⟨[i], by simp [run, step, Shared.turn, hact]⟩
      | enter op resume =>
        obtain ⟨n, hn⟩ : ∃ n, run h code ⟨s, some ⟨i, resume, code.body op s.object⟩⟩ (List.replicate n i) = _ :=
          releases s ⟨i, resume, code.body op s.object⟩
        refine ⟨i :: List.replicate n i, ?_⟩
        have htake : step h code ⟨s, none⟩ i = ⟨s, some ⟨i, resume, code.body op s.object⟩⟩ := by
          simp only [step, hact]
        simp only [run, List.foldl_cons, htake] at hn ⊢
        rw [hn]
        simp only [Shared.turn, hact]
    obtain ⟨ks, hks⟩ := hturn
    refine ⟨ks ++ js, ?_⟩
    unfold run at hks hjs ⊢
    rw [List.foldl_append, hks]
    exact hjs

end Locked
end SqliteWrite
