import Mathlib.Data.Rat.Floor
import Mathlib.Logic.Function.Basic
import SqliteWrite.Lib.RelyGuarantee

/-! Clients of one server. Each works through its jobs on its own fields, and the requests of the
others fall between its own in any order. If every job obeys what surrounds it, all of them keep
what they assert through every run. -/
namespace SqliteWrite

variable {ι J W R σ Q : Type} {A : Q → Type}

/-- A client: the jobs before it, its fields, and the rest of the job that it is in. -/
structure Client (Q : Type) (A : Q → Type) (J W R : Type) where
  todo : List J
  fields : W
  running : Option (J × Script Q A (R × W))

/-- Clients and their server; `history` lists the jobs that have ended, with their results. -/
structure Pool (ι Q : Type) (A : Q → Type) (J W R σ : Type) where
  clients : ι → Client Q A J W R
  server : σ
  history : List (ι × J × R)

/-- The job that a client is in or begins, what is left of it, and the jobs after it. -/
def Client.turn (prog : J → W → Script Q A (R × W)) (c : Client Q A J W R) :
    Option (J × Script Q A (R × W) × List J) :=
  match c.running, c.todo with
  | some (j, x), rest => some (j, x, rest)
  | none, j :: rest => some (j, prog j c.fields, rest)
  | none, [] => none

namespace Pool
variable [DecidableEq ι]

/-- A client goes on with a job, which may have ended. -/
def settle (s : Pool ι Q A J W R σ) (i : ι) (j : J) (x : Script Q A (R × W)) (rest : List J) (t : σ) :
    Pool ι Q A J W R σ :=
  match x with
  | .done (r, w) =>
    ⟨Function.update s.clients i ⟨rest, w, none⟩, t, s.history ++ [(i, j, r)]⟩
  | .ask q k =>
    ⟨Function.update s.clients i ⟨rest, (s.clients i).fields, some (j, .ask q k)⟩, t, s.history⟩

variable (h : (q : Q) → σ → A q × σ) (prog : J → W → Script Q A (R × W))

/-- A client puts one request. -/
def step (s : Pool ι Q A J W R σ) (i : ι) : Pool ι Q A J W R σ :=
  match (s.clients i).turn prog with
  | none => s
  | some (j, .done a, rest) => s.settle i j (.done a) rest s.server
  | some (j, .ask q k, rest) => s.settle i j (k (h q s.server).1) rest (h q s.server).2

/-- The request that a step of a client puts, and the job it is for. -/
def request (s : Pool ι Q A J W R σ) (i : ι) : Option (J × Q) :=
  match (s.clients i).turn prog with
  | some (j, .ask q _, _) => some (j, q)
  | _ => none

def run (s : Pool ι Q A J W R σ) (is : List ι) : Pool ι Q A J W R σ := is.foldl (step h prog) s

/-- Every request of a run meets a server of which `assume` holds. -/
def Assumes (assume : Q → σ → Prop) : Pool ι Q A J W R σ → List ι → Prop
  | _, [] => True
  | s, i :: is => (∀ p ∈ s.request prog i, assume p.2 s.server) ∧ Assumes assume (s.step h prog i) is

instance decidableAssumes (assume : Q → σ → Prop) [∀ q s, Decidable (assume q s)] :
    (is : List ι) → (s : Pool ι Q A J W R σ) → Decidable (s.Assumes h prog assume is)
  | [], _ => inferInstanceAs (Decidable True)
  | i :: is, s =>
    have := decidableAssumes assume is (s.step h prog i)
    inferInstanceAs (Decidable ((∀ p ∈ s.request prog i, assume p.2 s.server) ∧
      Assumes h prog assume (s.step h prog i) is))

lemma step_cases (s : Pool ι Q A J W R σ) (i : ι) :
    (s.step h prog i = s ∧ s.request prog i = none) ∨
    (∃ j a rest, (s.clients i).turn prog = some (j, .done a, rest) ∧ s.request prog i = none ∧
      s.step h prog i = s.settle i j (.done a) rest s.server) ∨
    ∃ j q k rest, (s.clients i).turn prog = some (j, .ask q k, rest) ∧
      s.request prog i = some (j, q) ∧
      s.step h prog i = s.settle i j (k (h q s.server).1) rest (h q s.server).2 := by
  unfold step request
  cases hturn : (s.clients i).turn prog with
  | none => exact Or.inl ⟨rfl, rfl⟩
  | some p =>
    obtain ⟨j, x, rest⟩ := p
    cases x with
    | done a => exact Or.inr (Or.inl ⟨j, a, rest, rfl, rfl, rfl⟩)
    | ask q k => exact Or.inr (Or.inr ⟨j, q, k, rest, rfl, rfl, rfl⟩)

variable {h prog} {s : Pool ι Q A J W R σ} {i : ι} {j : J} {rest : List J} {t : σ}

@[simp] lemma settle_server (x : Script Q A (R × W)) : (s.settle i j x rest t).server = t := by
  cases x <;> rfl

lemma settle_clients_of_ne {i' : ι} (hi : i' ≠ i) (x : Script Q A (R × W)) :
    (s.settle i j x rest t).clients i' = s.clients i' := by
  cases x <;> exact Function.update_of_ne hi _ _

lemma settle_todo (x : Script Q A (R × W)) : ((s.settle i j x rest t).clients i).todo = rest := by
  cases x <;> simp [settle]

section Rule
variable {job : ι → J → Prop} {rely : σ → σ → Prop} {assume : Q → σ → Prop}
  {guarantee : J → Q → σ → Prop} {P : ι → W → σ → Prop} {Res : ι → J → R → σ → Prop}

/-- What has to be shown of the jobs: from the assertion `P` of a client each of them obeys its
surroundings, ends in `P` again and has a result as `Res` says; and what one guarantees is what
the others rely on. -/
structure Sound (h : (q : Q) → σ → A q × σ) (prog : J → W → Script Q A (R × W)) (job : ι → J → Prop)
    (rely : σ → σ → Prop) (assume : Q → σ → Prop) (guarantee : J → Q → σ → Prop)
    (P : ι → W → σ → Prop) (Res : ι → J → R → σ → Prop) : Prop where
  refl : ∀ s, rely s s
  trans : ∀ {s t u}, rely s t → rely t u → rely s u
  stable : ∀ {i w s t}, rely s t → P i w s → P i w t
  stableRes : ∀ {i j r s t}, rely s t → Res i j r s → Res i j r t
  obeys : ∀ {i j w s}, job i j → P i w s → (prog j w).Obeys h ⟨rely, assume, guarantee j⟩
    (fun a t => P i a.2 t ∧ Res i j a.1 t) s
  keeps : ∀ {j q s}, guarantee j q s → rely s (h q s).2

/-- Every client between two jobs asserts `P`, every one in a job obeys its surroundings, and the
results so far are as they should be. -/
structure Fine (h : (q : Q) → σ → A q × σ) (job : ι → J → Prop)
    (rely : σ → σ → Prop) (assume : Q → σ → Prop) (guarantee : J → Q → σ → Prop)
    (P : ι → W → σ → Prop) (Res : ι → J → R → σ → Prop) (s : Pool ι Q A J W R σ) : Prop where
  todo : ∀ i, ∀ j ∈ (s.clients i).todo, job i j
  idle : ∀ i, (s.clients i).running = none → P i (s.clients i).fields s.server
  busy : ∀ i j x, (s.clients i).running = some (j, x) → job i j ∧
    x.Obeys h ⟨rely, assume, guarantee j⟩ (fun a t => P i a.2 t ∧ Res i j a.1 t) s.server
  results : ∀ p ∈ s.history, Res p.1 p.2.1 p.2.2 s.server

omit [DecidableEq ι] in
lemma Fine.turn (hr : Sound h prog job rely assume guarantee P Res)
    (hs : s.Fine h job rely assume guarantee P Res) {x : Script Q A (R × W)}
    (ht : (s.clients i).turn prog = some (j, x, rest)) : job i j ∧ (∀ j' ∈ rest, job i j') ∧
      x.Obeys h ⟨rely, assume, guarantee j⟩ (fun a t => P i a.2 t ∧ Res i j a.1 t) s.server := by
  have htodo := hs.todo i
  unfold Client.turn at ht
  cases hrun : (s.clients i).running with
  | some p =>
    obtain ⟨j', x'⟩ := p
    rw [hrun] at ht
    cases ht
    obtain ⟨hj, hx⟩ := hs.busy i _ _ hrun
    exact ⟨hj, htodo, hx⟩
  | none =>
    rw [hrun] at ht
    cases hlist : (s.clients i).todo with
    | nil =>
      rw [hlist] at ht
      cases ht
    | cons j' rest' =>
      rw [hlist] at ht htodo
      cases ht
      have hj := htodo _ List.mem_cons_self
      exact ⟨hj, fun j'' hj'' => htodo j'' (List.mem_cons_of_mem _ hj''), hr.obeys hj (hs.idle i hrun)⟩

lemma Fine.settle (hr : Sound h prog job rely assume guarantee P Res)
    (hs : s.Fine h job rely assume guarantee P Res) (hj : job i j) (hrest : ∀ j' ∈ rest, job i j')
    (hrely : rely s.server t) {x : Script Q A (R × W)}
    (hx : x.Obeys h ⟨rely, assume, guarantee j⟩ (fun a t => P i a.2 t ∧ Res i j a.1 t) t) :
    (s.settle i j x rest t).Fine h job rely assume guarantee P Res := by
  have hother : ∀ i', i' ≠ i → (s.settle i j x rest t).clients i' = s.clients i' :=
    fun i' hi => settle_clients_of_ne hi x
  refine ⟨fun i' j' hj' => ?_, fun i' hrun => ?_, fun i' j' y hrun => ?_, fun p hp => ?_⟩
  · by_cases hi : i' = i
    · subst hi
      rw [settle_todo] at hj'
      exact hrest j' hj'
    · rw [hother i' hi] at hj'
      exact hs.todo i' j' hj'
  · by_cases hi : i' = i
    · subst hi
      cases x with
      | done a => simpa [Pool.settle] using hx.1
      | ask q k => simp [Pool.settle] at hrun
    · rw [hother i' hi] at hrun ⊢
      rw [settle_server]
      exact hr.stable hrely (hs.idle i' hrun)
  · by_cases hi : i' = i
    · subst hi
      cases x with
      | done a => simp [Pool.settle] at hrun
      | ask q k =>
        simp only [Pool.settle, Function.update_self, Option.some.injEq, Prod.mk.injEq] at hrun
        obtain ⟨rfl, rfl⟩ := hrun
        exact ⟨hj, hx⟩
    · rw [hother i' hi] at hrun
      rw [settle_server]
      obtain ⟨hj', hy⟩ := hs.busy i' j' y hrun
      exact ⟨hj', hy.stable hr.trans
        (fun _ _ _ hst hp => ⟨hr.stable hst hp.1, hr.stableRes hst hp.2⟩) hrely⟩
  · rw [settle_server]
    cases x with
    | ask q k => exact hr.stableRes hrely (hs.results p hp)
    | done a =>
      rcases List.mem_append.mp hp with hp | hp
      · exact hr.stableRes hrely (hs.results p hp)
      · obtain rfl := List.mem_singleton.mp hp
        exact hx.2

/-- The rule for one step: a request that meets its assumption keeps its guarantee, and all
assertions with it. -/
theorem Fine.step (hr : Sound h prog job rely assume guarantee P Res)
    (hs : s.Fine h job rely assume guarantee P Res)
    (ha : ∀ p ∈ s.request prog i, assume p.2 s.server) :
    (s.step h prog i).Fine h job rely assume guarantee P Res ∧
      ∀ p ∈ s.request prog i, guarantee p.1 p.2 s.server := by
  rcases step_cases h prog s i with ⟨hstep, hreq⟩ | ⟨j, a, rest, hturn, hreq, hstep⟩ |
    ⟨j, q, k, rest, hturn, hreq, hstep⟩
  · rw [hstep, hreq]
    exact ⟨hs, by simp⟩
  · obtain ⟨hj, hrest, hx⟩ := hs.turn hr hturn
    rw [hstep, hreq]
    exact ⟨hs.settle hr hj hrest (hr.refl _) hx, by simp⟩
  · obtain ⟨hj, hrest, hx⟩ := hs.turn hr hturn
    rw [hreq] at ha
    obtain ⟨hg, hk⟩ := hx s.server (hr.refl _) (ha _ rfl)
    rw [hstep, hreq]
    refine ⟨hs.settle hr hj hrest (hr.keeps hg) hk, fun p hp => ?_⟩
    obtain rfl := Option.mem_some.mp hp
    exact hg

/-- The rule for a run: the assertions hold at its end, and so does whatever the guarantees of its
requests preserve. -/
theorem Fine.run (hr : Sound h prog job rely assume guarantee P Res)
    (I : Pool ι Q A J W R σ → Prop)
    (step : ∀ s i, s.Fine h job rely assume guarantee P Res → I s →
      (∀ p ∈ s.request prog i, guarantee p.1 p.2 s.server) → I (s.step h prog i))
    (is : List ι) (hs : s.Fine h job rely assume guarantee P Res) (hI : I s)
    (ha : s.Assumes h prog assume is) :
    (s.run h prog is).Fine h job rely assume guarantee P Res ∧ I (s.run h prog is) := by
  induction is generalizing s with
  | nil => exact ⟨hs, hI⟩
  | cons i is ih =>
    obtain ⟨hnext, hg⟩ := hs.step hr ha.1
    exact ih hnext (step s i hs hI hg) ha.2

end Rule
end Pool

namespace Script
variable {α β : Type}

/-- A program that puts the requests `last` only as its last one, and then ends as `ends` says of the
reply; where it puts none, it ends in `other`. -/
def Closes (last : Q → Prop) (ends : (q : Q) → A q → α → Prop) (other : α → Prop) : Script Q A α → Prop
  | done a => other a
  | ask q k => (last q → ∀ r, ∃ a, k r = done a ∧ ends q r a) ∧
    (¬ last q → ∀ r, (k r).Closes last ends other)

lemma Closes.bind {last : Q → Prop} {ends : (q : Q) → A q → β → Prop} {other : β → Prop}
    {x : Script Q A α} {f : α → Script Q A β} (hx : x.Asks fun q => ¬ last q)
    (hf : ∀ a, (f a).Closes last ends other) : (x >>= f).Closes last ends other := by
  induction x with
  | done a => exact hf a
  | ask q k ih => exact ⟨fun hq => absurd hq hx.1, fun _ r => ih r (hx.2 r)⟩

end Script
end SqliteWrite
