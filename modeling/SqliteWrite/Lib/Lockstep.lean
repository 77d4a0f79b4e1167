import SqliteWrite.Lib.Script

/-! Programs for two servers, one of which has more to ask for. An abstraction takes the states of that
server to those of the other one, and the objects of its programs, which may point into it, to theirs. Two
programs go in step when they end alike, in states of which one is the abstraction of the other; what only
the first program asks for leaves the abstraction alone. -/
namespace SqliteWrite

variable {Q Q' : Type} {A : Q → Type} {A' : Q' → Type} {V W W' α β γ δ σ τ : Type}

namespace Script

/-- A script put to another server, which has its requests among its own. -/
def embed (f : Q → Q') (g : (q : Q) → A' (f q) → A q) : Script Q A α → Script Q' A' α
  | done a => done a
  | ask q k => ask (f q) fun r => (k (g q r)).embed f g

/-- Where the requests of a script are answered alike, it runs alike. -/
theorem run_embed {f : Q → Q'} {g : (q : Q) → A' (f q) → A q} {h : (q : Q) → σ → A q × σ}
    {h' : (q : Q') → τ → A' q × τ} {e : τ → σ} {I : τ → Prop} {P : Q → Prop}
    (step : ∀ q t, P q → I t → g q (h' (f q) t).1 = (h q (e t)).1 ∧ e (h' (f q) t).2 = (h q (e t)).2 ∧
      I (h' (f q) t).2) {x : Script Q A α} (hx : x.Asks P) {t : τ} (ht : I t) :
    ((x.embed f g).run h' t).1 = (x.run h (e t)).1 ∧ e ((x.embed f g).run h' t).2 = (x.run h (e t)).2 ∧
      I ((x.embed f g).run h' t).2 := by
  induction x generalizing t with
  | done a => exact ⟨rfl, rfl, ht⟩
  | ask q k ih =>
    obtain ⟨hreply, hstate, hI⟩ := step q t hx.1 ht
    simp only [embed, run]
    rw [hreply, ← hstate]
    exact ih _ (hx.2 _) hI

end Script

namespace Method

def embed (f : Q → Q') (g : (q : Q) → A' (f q) → A q) (m : Method Q A W α) : Method Q' A' W α :=
  fun w => (m w).embed f g

lemma asks_trivial (m : Method Q A W α) : m.Asks fun _ => True := by
  intro w
  induction m.script w with
  | done a => trivial
  | ask q k ih => exact ⟨trivial, ih⟩

/-- A method in the place of itself. -/
theorem invoke_embed {f : Q → Q'} {g : (q : Q) → A' (f q) → A q} {h : (q : Q) → σ → A q × σ}
    {h' : (q : Q') → τ → A' q × τ} {e : τ → σ} {I : τ → Prop} {P : Q → Prop}
    (step : ∀ q t, P q → I t → g q (h' (f q) t).1 = (h q (e t)).1 ∧ e (h' (f q) t).2 = (h q (e t)).2 ∧
      I (h' (f q) t).2) {m : Method Q A W α} (hm : m.Asks P) (w : W) {t : τ} (ht : I t) :
    ∃ u, (m.embed f g).invoke h' w t = ((m.invoke h w (e t)).1, (m.invoke h w (e t)).2.1, u) ∧
      e u = (m.invoke h w (e t)).2.2 ∧ I u := by
  obtain ⟨hresult, hstate, hI⟩ := Script.run_embed step (hm w) ht
  refine ⟨_, ?_, hstate, hI⟩
  change ((((m.script w).embed f g).run h' t).1.1, (((m.script w).embed f g).run h' t).1.2, _) = _
  rw [hresult]
  rfl

variable {h : (q : Q) → σ → A q × σ} {h' : (q : Q') → τ → A' q × τ} {e : τ → σ} {view : W' → τ → W}

/-- The calls go in step: both return, as `R` says, or both throw, as `F` says. -/
def InStep (h' : (q : Q') → τ → A' q × τ) (h : (q : Q) → σ → A q × σ) (view : W' → τ → W) (e : τ → σ)
    (m' : Method Q' A' W' β) (m : Method Q A W α) (w : W') (t : τ) (R : β → α → W' → τ → Prop)
    (F : W' → τ → Prop) : Prop :=
  match m'.invoke h' w t with
  | (.ok b, v, u) => ∃ a, m.invoke h (view w t) (e t) = (.ok a, view v u, e u) ∧ R b a v u
  | (.error x, v, u) => m.invoke h (view w t) (e t) = (.error x, view v u, e u) ∧ F v u

variable {m' : Method Q' A' W' β} {m : Method Q A W α} {w v : W'} {t u : τ} {R : β → α → W' → τ → Prop}
  {F : W' → τ → Prop}

lemma InStep.pure {b : β} {a : α} (hr : R b a w t) :
    InStep h' h view e (Pure.pure b) (Pure.pure a) w t R F :=
  ⟨a, rfl, hr⟩

lemma InStep.throw {x : Bytes} (hf : F w t) : InStep h' h view e (throw x) (throw x) w t R F :=
  ⟨rfl, hf⟩

lemma InStep.get_bind {f' : W' → Method Q' A' W' β} {f : W → Method Q A W α}
    (hf : InStep h' h view e (f' w) (f (view w t)) w t R F) :
    InStep h' h view e (get >>= f') (get >>= f) w t R F := hf

lemma InStep.modify_bind {φ' : W' → W'} {φ : W → W} {f' : PUnit → Method Q' A' W' β}
    {f : PUnit → Method Q A W α} (hview : view (φ' w) t = φ (view w t))
    (hf : InStep h' h view e (f' ⟨⟩) (f ⟨⟩) (φ' w) t R F) :
    InStep h' h view e (modify φ' >>= f') (modify φ >>= f) w t R F := by
  have hinvoke : (modify φ >>= f).invoke h (view w t) (e t) = (f ⟨⟩).invoke h (view (φ' w) t) (e t) := by
    rw [hview]
    rfl
  unfold InStep at hf ⊢
  rw [hinvoke]
  exact hf

lemma InStep.seq {n' : Method Q' A' W' γ} {n : Method Q A W δ} {f' : γ → Method Q' A' W' β}
    {f : δ → Method Q A W α} {R' : γ → δ → W' → τ → Prop} (hn : InStep h' h view e n' n w t R' F)
    (hf : ∀ c d v u, R' c d v u → InStep h' h view e (f' c) (f d) v u R F) :
    InStep h' h view e (n' >>= f') (n >>= f) w t R F := by
  unfold InStep at hn ⊢
  rw [invoke_bind]
  generalize n'.invoke h' w t = r at hn ⊢
  obtain ⟨x, v, u⟩ := r
  cases x with
  | ok c =>
    obtain ⟨d, hn, hr⟩ := hn
    have hrest := hf c d v u hr
    rw [invoke_bind, hn]
    exact hrest
  | error x =>
    obtain ⟨hn, hfail⟩ := hn
    rw [invoke_bind, hn]
    exact ⟨rfl, hfail⟩

lemma InStep.alone {n' : Method Q' A' W' γ} {f' : γ → Method Q' A' W' β} {c : γ}
    (hn : n'.invoke h' w t = (.ok c, v, u)) (hview : view v u = view w t) (he : e u = e t)
    (hf : InStep h' h view e (f' c) m v u R F) : InStep h' h view e (n' >>= f') m w t R F := by
  unfold InStep at hf ⊢
  rw [invoke_bind, hn, ← he, ← hview]
  exact hf

lemma InStep.ask {q' : Q'} {q : Q} {r' : A' q'} {r : A q} {f' : A' q' → Method Q' A' W' β}
    {f : A q → Method Q A W α} (hq' : h' q' t = (r', u)) (hq : h q (e t) = (r, e u))
    (hview : view w u = view w t) (hf : InStep h' h view e (f' r') (f r) w u R F) :
    InStep h' h view e (ask q' >>= f') (ask q >>= f) w t R F := by
  unfold InStep at hf ⊢
  rw [invoke_bind, invoke_bind, invoke_ask, invoke_ask, hq', hq, ← hview]
  exact hf

lemma InStep.weaken {R' : β → α → W' → τ → Prop} {F' : W' → τ → Prop}
    (hm : InStep h' h view e m' m w t R F) (hr : ∀ b a v u, R b a v u → R' b a v u)
    (hf : ∀ v u, F v u → F' v u) : InStep h' h view e m' m w t R' F' := by
  unfold InStep at hm ⊢
  generalize m'.invoke h' w t = r at hm ⊢
  obtain ⟨x, v, u⟩ := r
  cases x with
  | ok b =>
    obtain ⟨a, hm, hb⟩ := hm
    exact ⟨a, hm, hr b a v u hb⟩
  | error x => exact ⟨hm.1, hf v u hm.2⟩

lemma InStep.cases (hm : InStep h' h view e m' m w t R F) :
    (∃ b a v u, m'.invoke h' w t = (.ok b, v, u) ∧
      m.invoke h (view w t) (e t) = (.ok a, view v u, e u) ∧ R b a v u) ∨
    ∃ x v u, m'.invoke h' w t = (.error x, v, u) ∧
      m.invoke h (view w t) (e t) = (.error x, view v u, e u) ∧ F v u := by
  unfold InStep at hm
  generalize m'.invoke h' w t = r at hm ⊢
  obtain ⟨x, v, u⟩ := r
  cases x with
  | ok b =>
    obtain ⟨a, hm, hr⟩ := hm
    exact Or.inl ⟨b, a, v, u, rfl, hm, hr⟩
  | error x => exact Or.inr ⟨x, v, u, rfl, hm.1, hm.2⟩

lemma InStep.of_invoke {b : β} {a : α} (hm' : m'.invoke h' w t = (.ok b, v, u))
    (hm : m.invoke h (view w t) (e t) = (.ok a, view v u, e u)) (hr : R b a v u) :
    InStep h' h view e m' m w t R F := by
  unfold InStep
  rw [hm']
  exact ⟨a, hm, hr⟩

lemma InStep.of_throw {x : Bytes} (hm' : m'.invoke h' w t = (.error x, v, u))
    (hm : m.invoke h (view w t) (e t) = (.error x, view v u, e u)) (hf : F v u) :
    InStep h' h view e m' m w t R F := by
  unfold InStep
  rw [hm']
  exact ⟨hm, hf⟩

/-- A method in the place of itself, for objects that point nowhere. -/
lemma InStep.embed {f : Q → Q'} {g : (q : Q) → A' (f q) → A q} {I : τ → Prop} {P : Q → Prop}
    (step : ∀ q t, P q → I t → g q (h' (f q) t).1 = (h q (e t)).1 ∧ e (h' (f q) t).2 = (h q (e t)).2 ∧
      I (h' (f q) t).2) {m : Method Q A W α} (hm : m.Asks P) {w : W} (ht : I t) :
    InStep h' h (fun w _ => w) e (m.embed f g) m w t (fun b a _ u => b = a ∧ I u) fun _ u => I u := by
  obtain ⟨u, hembed, hu, hI⟩ := invoke_embed step hm w ht
  unfold InStep
  rw [hembed]
  generalize hr : m.invoke h w (e t) = r at hu ⊢
  obtain ⟨x, v, s⟩ := r
  cases x with
  | ok a => exact ⟨a, by rw [hu], rfl, hI⟩
  | error x => exact ⟨by rw [hu], hI⟩

end Method
end SqliteWrite
