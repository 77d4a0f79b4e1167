import SqliteWrite.Lib.Script

/-! Programs among others. Between two requests of a program the others may change the server by
steps it relies on; the rules for pre- and postconditions follow the text of the program, and a
program that runs alone is the case where nothing changes in between. -/
namespace SqliteWrite

/-- What surrounds a program: what may happen to the server between two of its requests, what is
assumed of the states that its requests meet, and what it guarantees of them. -/
structure Around (Q σ : Type) where
  rely : σ → σ → Prop
  assume : Q → σ → Prop
  guarantee : Q → σ → Prop

namespace Script
variable {Q : Type} {A : Q → Type} {α β σ : Type} {h : (q : Q) → σ → A q × σ} {e : Around Q σ}

/-- Whatever the others do, the program keeps its guarantees and ends as `post` says. -/
def Obeys (h : (q : Q) → σ → A q × σ) (e : Around Q σ) (post : α → σ → Prop) :
    Script Q A α → σ → Prop
  | done a, s => post a s
  | ask q k, s => ∀ s', e.rely s s' → e.assume q s' →
      e.guarantee q s' ∧ (k (h q s').1).Obeys h e post (h q s').2

lemma Obeys.bind {post : β → σ → Prop} {x : Script Q A α} {f : α → Script Q A β} {s : σ}
    (hx : x.Obeys h e (fun a t => (f a).Obeys h e post t) s) : (x >>= f).Obeys h e post s := by
  induction x generalizing s with
  | done a => exact hx
  | ask q k ih =>
    intro s' hs ha
    obtain ⟨hg, hk⟩ := hx s' hs ha
    exact ⟨hg, ih _ hk⟩

lemma Obeys.weaken {post post' : α → σ → Prop} {x : Script Q A α} {s : σ}
    (hx : x.Obeys h e post s) (hp : ∀ a t, post a t → post' a t) : x.Obeys h e post' s := by
  induction x generalizing s with
  | done a => exact hp a s hx
  | ask q k ih =>
    intro s' hs ha
    obtain ⟨hg, hk⟩ := hx s' hs ha
    exact ⟨hg, ih _ hk⟩

/-- The others may act before the program goes on. -/
theorem Obeys.stable {post : α → σ → Prop} {x : Script Q A α} {s s' : σ}
    (hx : x.Obeys h e post s) (trans : ∀ {s t u}, e.rely s t → e.rely t u → e.rely s u)
    (hpost : ∀ a t u, e.rely t u → post a t → post a u) (hs : e.rely s s') :
    x.Obeys h e post s' := by
  cases x with
  | done a => exact hpost a s s' hs hx
  | ask q k => exact fun t ht ha => hx t (trans hs ht) ha

/-- A program that obeys, run alone from a state in which its assumptions turn out true. -/
theorem Obeys.run {post : α → σ → Prop} {x : Script Q A α} {s : σ} (hx : x.Obeys h e post s)
    (refl : ∀ t, e.rely t t) (ha : ∀ p ∈ x.trace h s, e.assume p.1 p.2) :
    post (x.run h s).1 (x.run h s).2 ∧ ∀ p ∈ x.trace h s, e.guarantee p.1 p.2 := by
  induction x generalizing s with
  | done a => exact ⟨hx, by simp [trace]⟩
  | ask q k ih =>
    obtain ⟨hg, hk⟩ := hx s (refl s) (ha (q, s) (by simp [trace]))
    obtain ⟨hpost, hrest⟩ := ih _ hk fun p hp => ha p (by simp [trace, hp])
    refine ⟨hpost, fun p hp => ?_⟩
    rcases List.mem_cons.mp hp with rfl | hp
    · exact hg
    · exact hrest p hp

end Script

namespace Method
variable {Q : Type} {A : Q → Type} {V W α β σ : Type} {h : (q : Q) → σ → A q × σ} {e : Around Q σ}
variable {P : W → σ → Prop} {R : α → W → σ → Prop} {F : Bytes → W → σ → Prop}

/-- How a method ends: it returns in `R` or throws in `F`. -/
def Ends (R : α → W → σ → Prop) (F : Bytes → W → σ → Prop) (r : Except Bytes α × W) (s : σ) : Prop :=
  match r.1 with
  | .ok a => R a r.2 s
  | .error x => F x r.2 s

lemma Ends.final {I : W → σ → Prop} {r : Except Bytes α × W} {s : σ}
    (h : Ends (fun _ => I) (fun _ => I) r s) : I r.2 s := by
  obtain ⟨x, w⟩ := r
  cases x <;> exact h

/-- From the states in `P`, among the others, the method returns in `R` or throws in `F`. -/
def Spec (h : (q : Q) → σ → A q × σ) (e : Around Q σ) (P : W → σ → Prop) (m : Method Q A W α)
    (R : α → W → σ → Prop) (F : Bytes → W → σ → Prop) : Prop :=
  ∀ w s, P w s → (m.script w).Obeys h e (Ends R F) s

lemma Spec.pure {a : α} (hp : ∀ w s, P w s → R a w s) : Spec h e P (Pure.pure a) R F := hp

lemma Spec.throw {x : Bytes} (hp : ∀ w s, P w s → F x w s) :
    Spec h e P (throw x : Method Q A W α) R F := hp

lemma Spec.modify {f : W → W} {R : PUnit → W → σ → Prop} (hp : ∀ w s, P w s → R ⟨⟩ (f w) s) :
    Spec h e P (modify f) R F := hp

lemma Spec.get_bind {f : W → Method Q A W α} (hf : ∀ v, Spec h e (fun w s => w = v ∧ P w s) (f v) R F) :
    Spec h e P (get >>= f) R F := fun w s hw => hf w w s ⟨rfl, hw⟩

lemma Spec.ask {q : Q} {R : A q → W → σ → Prop} (hp : ∀ w s s', P w s → e.rely s s' → e.assume q s' →
    e.guarantee q s' ∧ R (h q s').1 w (h q s').2) : Spec h e P (ask q) R F :=
  fun w s hw s' hs ha => hp w s s' hw hs ha

lemma Spec.bind {m : Method Q A W α} {f : α → Method Q A W β} {S : β → W → σ → Prop}
    (hm : Spec h e P m R F) (hf : ∀ a, Spec h e (R a) (f a) S F) : Spec h e P (m >>= f) S F := by
  intro w s hw
  rw [script_bind]
  refine Script.Obeys.bind ((hm w s hw).weaken fun r t hr => ?_)
  obtain ⟨x, v⟩ := r
  cases x with
  | ok a => exact hf a v t hr
  | error x => exact hr

lemma Spec.weaken {m : Method Q A W α} {K : W → σ → Prop} {R' : α → W → σ → Prop}
    {F' : Bytes → W → σ → Prop} (hm : Spec h e P m R F) (hp : ∀ w s, K w s → P w s)
    (hr : ∀ a w s, R a w s → R' a w s) (hf : ∀ x w s, F x w s → F' x w s) : Spec h e K m R' F' := by
  intro w s hw
  refine (hm w s (hp w s hw)).weaken fun r t hx => ?_
  obtain ⟨x, v⟩ := r
  cases x with
  | ok a => exact hr a v t hx
  | error x => exact hf x v t hx

lemma Spec.onMember {view : W → V} {update : V → W → W} {m : Method Q A V α}
    (hm : ∀ w, Spec h e (fun v s => v = view w ∧ P w s) m (fun a v s => R a (update v w) s)
      fun x v s => F x (update v w) s) : Spec h e P (m.onMember view update) R F := by
  intro w s hw
  refine Script.Obeys.bind ((hm w (view w) s ⟨rfl, hw⟩).weaken fun r t hr => ?_)
  obtain ⟨x, v⟩ := r
  cases x <;> exact hr

/-- A method that meets its specification, called alone. -/
theorem Spec.invoke {m : Method Q A W α} (hm : Spec h e P m R F) (refl : ∀ t, e.rely t t) {w : W}
    {s : σ} (hp : P w s) (ha : ∀ p ∈ (m.script w).trace h s, e.assume p.1 p.2) :
    Ends R F ((m.invoke h w s).1, (m.invoke h w s).2.1) (m.invoke h w s).2.2 ∧
      ∀ p ∈ (m.script w).trace h s, e.guarantee p.1 p.2 :=
  (hm w s hp).run refl ha

end Method
end SqliteWrite
