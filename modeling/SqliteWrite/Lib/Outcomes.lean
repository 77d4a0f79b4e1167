import SqliteWrite.Lib.Script

/-! How one call of a method ends, from given fields and a given server state. The rules follow the
binds of the program text and name what each part leaves behind. -/
namespace SqliteWrite.Method

variable {Q : Type} {A : Q → Type} {W α β σ : Type}

/-- The call returns in `R` or throws in `F`. -/
def Outcome (h : (q : Q) → σ → A q × σ) (m : Method Q A W α) (w : W) (s : σ)
    (R : α → W → σ → Prop) (F : Bytes → W → σ → Prop) : Prop :=
  match m.invoke h w s with
  | (.ok a, v, t) => R a v t
  | (.error e, v, t) => F e v t

variable {h : (q : Q) → σ → A q × σ} {w : W} {s : σ} {R : α → W → σ → Prop} {F : Bytes → W → σ → Prop}

lemma Outcome.pure {a : α} (hr : R a w s) : Outcome h (Pure.pure a : Method Q A W α) w s R F := hr

lemma Outcome.throw {e : Bytes} (hf : F e w s) : Outcome h (throw e : Method Q A W α) w s R F := hf

lemma Outcome.modify {f : W → W} {R : PUnit → W → σ → Prop} (hr : R ⟨⟩ (f w) s) :
    Outcome h (modify f : Method Q A W PUnit) w s R F := hr

lemma Outcome.ask {q : Q} {R : A q → W → σ → Prop} (hr : R (h q s).1 w (h q s).2) :
    Outcome h (ask q : Method Q A W (A q)) w s R F := hr

lemma Outcome.bind {m : Method Q A W β} {f : β → Method Q A W α}
    (hm : Outcome h m w s (fun b v t => Outcome h (f b) v t R F) F) : Outcome h (m >>= f) w s R F := by
  unfold Outcome at hm ⊢
  rw [invoke_bind]
  generalize m.invoke h w s = r at hm ⊢
  obtain ⟨x, v, t⟩ := r
  cases x with
  | ok b => exact hm
  | error e => exact hm

lemma Outcome.get_bind {f : W → Method Q A W α} (hf : Outcome h (f w) w s R F) :
    Outcome h (get >>= f) w s R F := hf

lemma Outcome.weaken {m : Method Q A W α} {R' : α → W → σ → Prop} {F' : Bytes → W → σ → Prop}
    (hm : Outcome h m w s R F) (hr : ∀ a v t, R a v t → R' a v t) (hf : ∀ e v t, F e v t → F' e v t) :
    Outcome h m w s R' F' := by
  unfold Outcome at hm ⊢
  generalize m.invoke h w s = r at hm ⊢
  obtain ⟨x, v, t⟩ := r
  cases x with
  | ok a => exact hr a v t hm
  | error e => exact hf e v t hm

lemma Outcome.and {m : Method Q A W α} {R' : α → W → σ → Prop} {F' : Bytes → W → σ → Prop}
    (hm : Outcome h m w s R F) (hm' : Outcome h m w s R' F') :
    Outcome h m w s (fun a v t => R a v t ∧ R' a v t) fun e v t => F e v t ∧ F' e v t := by
  unfold Outcome at hm hm' ⊢
  generalize m.invoke h w s = r at hm hm' ⊢
  obtain ⟨x, v, t⟩ := r
  cases x with
  | ok a => exact ⟨hm, hm'⟩
  | error e => exact ⟨hm, hm'⟩

lemma Outcome.cases {m : Method Q A W α} (hm : Outcome h m w s R F) :
    (∃ a, (m.invoke h w s).1 = .ok a ∧ R a (m.invoke h w s).2.1 (m.invoke h w s).2.2) ∨
    ∃ e, (m.invoke h w s).1 = .error e ∧ F e (m.invoke h w s).2.1 (m.invoke h w s).2.2 := by
  unfold Outcome at hm
  generalize m.invoke h w s = r at hm ⊢
  obtain ⟨x, v, t⟩ := r
  cases x with
  | ok a => exact Or.inl ⟨a, rfl, hm⟩
  | error e => exact Or.inr ⟨e, rfl, hm⟩

lemma Outcome.seq {m : Method Q A W β} {f : β → Method Q A W α} {S : β → W → σ → Prop}
    (hm : Outcome h m w s S F) (hf : ∀ b v t, S b v t → Outcome h (f b) v t R F) :
    Outcome h (m >>= f) w s R F :=
  Outcome.bind (hm.weaken hf fun _ _ _ he => he)

lemma Outcome.keeps (m : Method Q A W α) (I : σ → Prop) (step : ∀ q t, I t → I (h q t).2) (hs : I s) :
    Outcome h m w s (fun _ _ t => I t) fun _ _ t => I t := by
  have hend := Script.run_preserves h I (m.script w) s hs fun p _ => step p.1 p.2
  change I (m.invoke h w s).2.2 at hend
  unfold Outcome
  generalize m.invoke h w s = r at hend ⊢
  obtain ⟨x, v, t⟩ := r
  cases x <;> exact hend

/-- The call ends so, and each of its requests meets a state of which `G` holds. -/
def Guarded (h : (q : Q) → σ → A q × σ) (G : Q → σ → Prop) (m : Method Q A W α) (w : W) (s : σ)
    (R : α → W → σ → Prop) (F : Bytes → W → σ → Prop) : Prop :=
  Outcome h m w s R F ∧ ∀ p ∈ (m.script w).trace h s, G p.1 p.2

variable {G : Q → σ → Prop}

lemma Guarded.of_asks {m : Method Q A W α} {C : Q → Prop} (hm : m.Asks C) (hG : ∀ q t, C q → G q t)
    (ho : Outcome h m w s R F) : Guarded h G m w s R F :=
  ⟨ho, fun p hp => hG p.1 p.2 ((hm w).trace h s p hp)⟩

lemma Guarded.pure {a : α} (hr : R a w s) : Guarded h G (Pure.pure a : Method Q A W α) w s R F :=
  Guarded.of_asks (Asks.pure (P := fun _ => False) a) (fun _ _ h => h.elim) (Outcome.pure hr)

lemma Guarded.ask {q : Q} {R : A q → W → σ → Prop} (hG : G q s) (hr : R (h q s).1 w (h q s).2) :
    Guarded h G (ask q : Method Q A W (A q)) w s R F := by
  refine ⟨Outcome.ask hr, fun p hp => ?_⟩
  obtain rfl := List.mem_singleton.mp hp
  exact hG

lemma Guarded.weaken {m : Method Q A W α} {R' : α → W → σ → Prop} {F' : Bytes → W → σ → Prop}
    (hm : Guarded h G m w s R F) (hr : ∀ a v t, R a v t → R' a v t) (hf : ∀ e v t, F e v t → F' e v t) :
    Guarded h G m w s R' F' :=
  ⟨hm.1.weaken hr hf, hm.2⟩

lemma Guarded.seq {m : Method Q A W β} {f : β → Method Q A W α} {S : β → W → σ → Prop}
    (hm : Guarded h G m w s S F) (hf : ∀ b v t, S b v t → Guarded h G (f b) v t R F) :
    Guarded h G (m >>= f) w s R F := by
  refine ⟨hm.1.seq fun b v t hs => (hf b v t hs).1, fun p hp => ?_⟩
  rw [script_bind, Script.trace_bind] at hp
  rcases List.mem_append.mp hp with hp | hp
  · exact hm.2 p hp
  · rcases hm.1.cases with ⟨b, hb, hs⟩ | ⟨e, he, -⟩
    · have hb' : ((m.script w).run h s).1.1 = .ok b := hb
      rw [hb'] at hp
      exact (hf b _ _ hs).2 p hp
    · have he' : ((m.script w).run h s).1.1 = .error e := he
      rw [he'] at hp
      cases hp

lemma Guarded.modify_bind {f : W → W} {g : PUnit → Method Q A W α} (hg : Guarded h G (g ⟨⟩) (f w) s R F) :
    Guarded h G (modify f >>= g) w s R F := hg

lemma Guarded.keeps {m : Method Q A W α} (hm : Guarded h G m w s R F) (I : σ → Prop)
    (step : ∀ q t, G q t → I t → I (h q t).2) (hs : I s) : I (m.invoke h w s).2.2 :=
  Script.run_preserves h I (m.script w) s hs fun p hp => step p.1 p.2 (hm.2 p hp)

-- The rules are the interface: no call is evaluated to see how it ends.
attribute [irreducible] Outcome

end SqliteWrite.Method
