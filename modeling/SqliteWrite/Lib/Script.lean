import SqliteWrite.Lib.Bytes

/-! Programs that put requests to a server. A script is done or asks one request and goes on
with the reply; a method is a script of an object whose fields survive an exception. The rules
for pre- and postconditions follow the binds of the program text. -/
namespace SqliteWrite

/-- A program over the requests `Q`, whose replies have the types `A`. -/
inductive Script (Q : Type) (A : Q → Type) (α : Type)
  | done (a : α) : Script Q A α
  | ask (q : Q) (k : A q → Script Q A α) : Script Q A α

namespace Script
variable {Q : Type} {A : Q → Type} {α β σ : Type}

def bind : Script Q A α → (α → Script Q A β) → Script Q A β
  | done a, f => f a
  | ask q k, f => ask q fun r => (k r).bind f

instance : Monad (Script Q A) where
  pure := done
  bind := bind

lemma bind_done (x : Script Q A α) : x.bind done = x := by
  induction x with
  | done a => rfl
  | ask q k ih => exact congrArg (ask q) (funext ih)

lemma bind_bind {γ : Type} (x : Script Q A α) (f : α → Script Q A β) (g : β → Script Q A γ) :
    (x.bind f).bind g = x.bind fun a => (f a).bind g := by
  induction x with
  | done a => rfl
  | ask q k ih => exact congrArg (ask q) (funext ih)

instance : LawfulMonad (Script Q A) :=
  LawfulMonad.mk' _ bind_done (fun _ _ => rfl) bind_bind

/-- Run a script without interruption against a server with states `σ`. -/
def run (h : (q : Q) → σ → A q × σ) : Script Q A α → σ → α × σ
  | done a, s => (a, s)
  | ask q k, s => (k (h q s).1).run h (h q s).2

@[simp] lemma run_pure (h : (q : Q) → σ → A q × σ) (a : α) (s : σ) :
    (pure a : Script Q A α).run h s = (a, s) := rfl

@[simp] lemma run_bind (h : (q : Q) → σ → A q × σ) (x : Script Q A α) (f : α → Script Q A β)
    (s : σ) : (x >>= f).run h s = (f (x.run h s).1).run h (x.run h s).2 := by
  induction x generalizing s with
  | done a => rfl
  | ask q k ih => exact ih _ _

/-- The requests of a run, each with the server state that it met. -/
def trace (h : (q : Q) → σ → A q × σ) : Script Q A α → σ → List (Q × σ)
  | done _, _ => []
  | ask q k, s => (q, s) :: (k (h q s).1).trace h (h q s).2

@[simp] lemma trace_bind (h : (q : Q) → σ → A q × σ) (x : Script Q A α) (f : α → Script Q A β)
    (s : σ) : (x >>= f).trace h s = x.trace h s ++ (f (x.run h s).1).trace h (x.run h s).2 := by
  induction x generalizing s with
  | done a => rfl
  | ask q k ih => exact congrArg ((q, s) :: ·) (ih _ _)

/-- What every request of a run preserves, the run preserves. -/
theorem run_preserves (h : (q : Q) → σ → A q × σ) (I : σ → Prop) (x : Script Q A α) (s : σ)
    (hs : I s) (step : ∀ p ∈ x.trace h s, I p.2 → I (h p.1 p.2).2) : I (x.run h s).2 := by
  induction x generalizing s with
  | done a => exact hs
  | ask q k ih =>
    have hq : I (h q s).2 := step (q, s) (by simp [trace]) hs
    exact ih _ _ hq fun p hp => step p (by simp [trace, hp])

/-- A flag that no request lowers is up after a run if it was up before or a request raised it. -/
theorem run_flag (h : (q : Q) → σ → A q × σ) (flag : σ → Bool) (raises : Q × σ → Bool)
    (x : Script Q A α) (s : σ)
    (step : ∀ p ∈ x.trace h s, flag (h p.1 p.2).2 = (flag p.2 || raises p)) :
    flag (x.run h s).2 = (flag s || (x.trace h s).any raises) := by
  induction x generalizing s with
  | done a => simp [run, trace]
  | ask q k ih =>
    have hq : flag (h q s).2 = (flag s || raises (q, s)) := step (q, s) (by simp [trace])
    have hk := ih (h q s).1 (h q s).2 fun p hp => step p (by simp [trace, hp])
    simp only [run, trace, List.any_cons]
    rw [hk, hq, Bool.or_assoc]

/-- Every request that the script may ever put satisfies `P`. -/
def Asks (P : Q → Prop) : Script Q A α → Prop
  | done _ => True
  | ask q k => P q ∧ ∀ r, (k r).Asks P

lemma Asks.bind {P : Q → Prop} {x : Script Q A α} {f : α → Script Q A β} (hx : x.Asks P)
    (hf : ∀ a, (f a).Asks P) : (x >>= f).Asks P := by
  induction x with
  | done a => exact hf a
  | ask q k ih => exact ⟨hx.1, fun r => ih r (hx.2 r)⟩

lemma Asks.mono {P P' : Q → Prop} {x : Script Q A α} (hx : x.Asks P) (h : ∀ q, P q → P' q) :
    x.Asks P' := by
  induction x with
  | done a => trivial
  | ask q k ih => exact ⟨h q hx.1, fun r => ih r (hx.2 r)⟩

lemma Asks.trace {P : Q → Prop} {x : Script Q A α} (hx : x.Asks P)
    (h : (q : Q) → σ → A q × σ) (s : σ) : ∀ p ∈ x.trace h s, P p.1 := by
  induction x generalizing s with
  | done a => simp [Script.trace]
  | ask q k ih =>
    intro p hp
    rcases List.mem_cons.mp hp with rfl | hp
    · exact hx.1
    · exact ih _ (hx.2 _) _ p hp

/-- Two servers that answer alike along a run, with related states, give related runs. -/
theorem run_related {τ : Type} (h : (q : Q) → σ → A q × σ) (g : (q : Q) → τ → A q × τ)
    (R : σ → τ → Prop) (x : Script Q A α) (s : σ) (t : τ) (hst : R s t)
    (step : ∀ p ∈ x.trace h s, ∀ u, R p.2 u →
      (h p.1 p.2).1 = (g p.1 u).1 ∧ R (h p.1 p.2).2 (g p.1 u).2) :
    (x.run h s).1 = (x.run g t).1 ∧ R (x.run h s).2 (x.run g t).2 := by
  induction x generalizing s t with
  | done a => exact ⟨rfl, hst⟩
  | ask q k ih =>
    obtain ⟨hr, hn⟩ := step (q, s) (by simp [trace]) t hst
    have hk := ih (h q s).1 (h q s).2 (g q t).2 hn fun p hp => step p (by simp [trace, hp])
    simp only [run]
    rw [← hr]
    exact hk

end Script

/-- A method of an object with fields `W`: a throw keeps the fields as they are then. -/
abbrev Method (Q : Type) (A : Q → Type) (W : Type) := ExceptT Bytes (StateT W (Script Q A))

namespace Method
variable {Q : Type} {A : Q → Type} {V W α β σ : Type}

/-- Put one request. -/
def ask (q : Q) : Method Q A W (A q) := fun w => .ask q fun r => .done (.ok r, w)

/-- Call a method of a member object. -/
def onMember (view : W → V) (update : V → W → W) (m : Method Q A V α) : Method Q A W α :=
  fun w => m (view w) >>= fun r => pure (r.1, update r.2 w)

/-- The script of a call on an object. -/
def script (m : Method Q A W α) (w : W) : Script Q A (Except Bytes α × W) := m w

/-- Run a method: its result or exception, the object and the server afterwards. -/
def invoke (h : (q : Q) → σ → A q × σ) (m : Method Q A W α) (w : W) (s : σ) :
    Except Bytes α × W × σ :=
  (((m.script w).run h s).1.1, ((m.script w).run h s).1.2, ((m.script w).run h s).2)

variable (h : (q : Q) → σ → A q × σ) (w : W) (s : σ)

@[simp] lemma invoke_pure (a : α) : (pure a : Method Q A W α).invoke h w s = (.ok a, w, s) := rfl

@[simp] lemma invoke_throw (e : Bytes) :
    (throw e : Method Q A W α).invoke h w s = (.error e, w, s) := rfl

@[simp] lemma invoke_get : (get : Method Q A W W).invoke h w s = (.ok w, w, s) := rfl

@[simp] lemma invoke_modify (f : W → W) :
    (modify f : Method Q A W PUnit).invoke h w s = (.ok ⟨⟩, f w, s) := rfl

@[simp] lemma invoke_ask (q : Q) :
    (ask q : Method Q A W (A q)).invoke h w s = (.ok (h q s).1, w, (h q s).2) := rfl

lemma script_bind (m : Method Q A W α) (f : α → Method Q A W β) :
    (m >>= f).script w = m.script w >>= fun r => match r.1 with
      | .ok a => (f a).script r.2
      | .error e => pure (.error e, r.2) := by
  change Script.bind (m w) _ = Script.bind (m w) _
  congr 1
  funext r
  obtain ⟨x, v⟩ := r
  cases x <;> rfl

lemma script_get_bind (f : W → Method Q A W α) : (get >>= f).script w = (f w).script w := rfl

lemma script_modify_bind (g : W → W) (f : PUnit → Method Q A W α) :
    (modify g >>= f).script w = (f ⟨⟩).script (g w) := rfl

lemma script_ask_bind (q : Q) (f : A q → Method Q A W α) :
    (ask q >>= f).script w = .ask q fun r => (f r).script w := rfl

lemma script_pure_bind (a : β) (f : β → Method Q A W α) : (pure a >>= f).script w = (f a).script w := rfl

lemma invoke_bind (m : Method Q A W α) (f : α → Method Q A W β) :
    (m >>= f).invoke h w s = match m.invoke h w s with
      | (.ok a, v, t) => (f a).invoke h v t
      | (.error e, v, t) => (.error e, v, t) := by
  unfold invoke
  rw [script_bind]
  simp only [Script.run_bind]
  cases ((m.script w).run h s).1.1 <;> rfl

lemma invoke_bind_map {γ : Type} {m : Method Q A W α} {f : α → Method Q A W β} {f' : α → Method Q A W γ}
    {g : β → γ} (hf : ∀ a v t, (f' a).invoke h v t = (((f a).invoke h v t).1.map g, ((f a).invoke h v t).2)) :
    (m >>= f').invoke h w s = (((m >>= f).invoke h w s).1.map g, ((m >>= f).invoke h w s).2) := by
  rw [invoke_bind, invoke_bind]
  generalize m.invoke h w s = r
  obtain ⟨x, v, t⟩ := r
  cases x with
  | ok a => exact hf a v t
  | error e => rfl

lemma trace_bind_ok {m : Method Q A W α} {f : α → Method Q A W β} {a : α} {v : W} {t : σ}
    (hm : m.invoke h w s = (.ok a, v, t)) {p : Q × σ} (hp : p ∈ ((f a).script v).trace h t) :
    p ∈ ((m >>= f).script w).trace h s := by
  obtain ⟨h1, h2⟩ := Prod.ext_iff.mp hm
  obtain ⟨h2, h3⟩ := Prod.ext_iff.mp h2
  simp only [invoke] at h1 h2 h3
  rw [script_bind, Script.trace_bind, h1, h2, h3]
  exact List.mem_append_right _ hp

@[simp] lemma invoke_onMember (view : W → V) (update : V → W → W) (m : Method Q A V α) :
    (m.onMember view update).invoke h w s =
      ((m.invoke h (view w) s).1, update (m.invoke h (view w) s).2.1 w,
        (m.invoke h (view w) s).2.2) := by
  have hs : (m.onMember view update : Method Q A W α).script w =
      m.script (view w) >>= fun r => pure (r.1, update r.2 w) := rfl
  unfold invoke
  rw [hs, Script.run_bind, Script.run_pure]

/-- Every request that the method may put satisfies `P`. -/
def Asks (P : Q → Prop) (m : Method Q A W α) : Prop := ∀ w, (m.script w).Asks P

section Asks
variable {P : Q → Prop}

lemma Asks.pure (a : α) : (Pure.pure a : Method Q A W α).Asks P := fun _ => trivial
lemma Asks.throw (e : Bytes) : (throw e : Method Q A W α).Asks P := fun _ => trivial
lemma Asks.get : (get : Method Q A W W).Asks P := fun _ => trivial
lemma Asks.modify (f : W → W) : (modify f : Method Q A W PUnit).Asks P := fun _ => trivial

lemma Asks.ask {q : Q} (hq : P q) : (ask q : Method Q A W (A q)).Asks P :=
  fun _ => ⟨hq, fun _ => trivial⟩

lemma Asks.bind {m : Method Q A W α} {f : α → Method Q A W β} (hm : m.Asks P)
    (hf : ∀ a, (f a).Asks P) : (m >>= f).Asks P := by
  intro w
  rw [script_bind]
  refine (hm w).bind fun r => ?_
  obtain ⟨x, v⟩ := r
  cases x with
  | ok a => exact hf a v
  | error e => trivial

lemma Asks.onMember {view : W → V} {update : V → W → W} {m : Method Q A V α} (hm : m.Asks P) :
    (m.onMember view update : Method Q A W α).Asks P :=
  fun w => Script.Asks.bind (hm (view w)) fun _ => trivial

end Asks

/-- The method does the same on an object changed by `φ`, and leaves the change in place. -/
def Frame (φ : W → W) (m : Method Q A W α) : Prop :=
  ∀ w, m.script (φ w) = m.script w >>= fun r => pure (r.1, φ r.2)

section Frame
variable {φ : W → W}

lemma Frame.pure (a : α) : (Pure.pure a : Method Q A W α).Frame φ := fun _ => rfl
lemma Frame.throw (e : Bytes) : (throw e : Method Q A W α).Frame φ := fun _ => rfl
lemma Frame.ask (q : Q) : (ask q : Method Q A W (A q)).Frame φ := fun _ => rfl

lemma Frame.modify {f : W → W} (hf : ∀ w, f (φ w) = φ (f w)) :
    (modify f : Method Q A W PUnit).Frame φ := by
  intro w
  change Script.done (Except.ok PUnit.unit, f (φ w)) = Script.done (Except.ok PUnit.unit, φ (f w))
  rw [hf]

lemma Frame.bind {m : Method Q A W α} {f : α → Method Q A W β} (hm : m.Frame φ)
    (hf : ∀ a, (f a).Frame φ) : (m >>= f).Frame φ := by
  intro w
  rw [script_bind, script_bind, hm w, bind_assoc, bind_assoc]
  congr 1
  funext r
  obtain ⟨x, v⟩ := r
  cases x with
  | ok a => simp only [pure_bind]; exact hf a v
  | error e => rfl

lemma Frame.get_bind {f : W → Method Q A W α} (hf : ∀ w, f (φ w) = f w)
    (hframe : ∀ w, (f w).Frame φ) : (get >>= f).Frame φ := by
  intro w
  rw [script_get_bind, script_get_bind, hf]
  exact hframe w w

lemma Frame.onMember {view : W → V} {update : V → W → W} {ψ : V → V} {m : Method Q A V α}
    (hm : m.Frame ψ) (hv : ∀ w, view (φ w) = ψ (view w))
    (hu : ∀ v w, update (ψ v) (φ w) = φ (update v w)) :
    (m.onMember view update : Method Q A W α).Frame φ := by
  intro w
  change m.script (view (φ w)) >>= _ = (m.script (view w) >>= _) >>= _
  rw [hv, hm, bind_assoc, bind_assoc]
  congr 1
  funext r
  simp only [pure_bind, hu]

lemma Frame.invoke {m : Method Q A W α} (hm : m.Frame φ) (w : W) (s : σ) :
    m.invoke h (φ w) s = ((m.invoke h w s).1, φ (m.invoke h w s).2.1, (m.invoke h w s).2.2) := by
  unfold Method.invoke
  rw [hm w, Script.run_bind, Script.run_pure]

end Frame

/-- From the states in `P`, the method returns in `R` or throws in `F`. -/
def Triple (P : W → σ → Prop) (m : Method Q A W α) (R : α → W → σ → Prop)
    (F : Bytes → W → σ → Prop) : Prop :=
  ∀ w s, P w s → match m.invoke h w s with
    | (.ok a, v, t) => R a v t
    | (.error e, v, t) => F e v t

variable {h} {P : W → σ → Prop} {R : α → W → σ → Prop} {F : Bytes → W → σ → Prop}

/-- What the requests of a method preserve, a call preserves. -/
theorem Asks.preserves {m : Method Q A W α} {C : Q → Prop} (hm : m.Asks C) (I : σ → Prop)
    (step : ∀ q s, C q → I s → I (h q s).2) {w : W} {s : σ} (hs : I s) : I (m.invoke h w s).2.2 :=
  Script.run_preserves h I (m.script w) s hs fun p hp => step p.1 p.2 ((hm w).trace h s p hp)

lemma Triple.pure {a : α} (hp : ∀ w s, P w s → R a w s) :
    Triple h P (Pure.pure a) R F := fun w s hw => hp w s hw

lemma Triple.throw {e : Bytes} (hp : ∀ w s, P w s → F e w s) :
    Triple h P (throw e : Method Q A W α) R F := fun w s hw => hp w s hw

lemma Triple.trivial (m : Method Q A W α) : Triple h P m (fun _ _ _ => True) fun _ _ _ => True := by
  intro w s _
  generalize m.invoke h w s = r
  obtain ⟨x, v, t⟩ := r
  cases x <;> exact True.intro

lemma Triple.bind {m : Method Q A W α} {f : α → Method Q A W β} {S : β → W → σ → Prop}
    (hm : Triple h P m R F) (hf : ∀ a, Triple h (R a) (f a) S F) :
    Triple h P (m >>= f) S F := by
  intro w s hw
  have hr := hm w s hw
  rw [invoke_bind]
  generalize m.invoke h w s = r at hr ⊢
  obtain ⟨x, v, t⟩ := r
  cases x with
  | ok a => exact hf a v t hr
  | error e => exact hr

lemma Triple.weaken {m : Method Q A W α} {K : W → σ → Prop} {R' : α → W → σ → Prop}
    {F' : Bytes → W → σ → Prop} (hm : Triple h P m R F) (hp : ∀ w s, K w s → P w s)
    (hr : ∀ a w s, R a w s → R' a w s) (hf : ∀ e w s, F e w s → F' e w s) :
    Triple h K m R' F' := by
  intro w s hw
  have hx := hm w s (hp w s hw)
  generalize m.invoke h w s = r at hx ⊢
  obtain ⟨x, v, t⟩ := r
  cases x with
  | ok a => exact hr a v t hx
  | error e => exact hf e v t hx

lemma Triple.final {m : Method Q A W α} {I : W → σ → Prop}
    (hm : Triple h P m (fun _ => I) fun _ => I) {w : W} {s : σ} (hp : P w s) :
    I (m.invoke h w s).2.1 (m.invoke h w s).2.2 := by
  have hx := hm w s hp
  generalize m.invoke h w s = r at hx ⊢
  obtain ⟨x, v, t⟩ := r
  cases x <;> exact hx

end Method
end SqliteWrite
