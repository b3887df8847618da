import ServerHub.Interleave.Sequential

namespace Interleave

-- an observer of a program: the answers it reckons with, what a step needs, what it remembers
structure Observer (ι : Type → Type) (γ : Type) where
  Answers : {β : Type} → ι β → β → Prop
  Allowed : γ → {β : Type} → ι β → Prop
  note : γ → {β : Type} → ι β → β → γ

namespace Observer

variable {ι : Type → Type} {γ α β δ : Type} (W : Observer ι γ)

-- the weakest precondition: every step is allowed and every end is in Q, whatever is answered
def wp : Prog ι α → (α → γ → Prop) → γ → Prop
  | .ret a, Q, c => Q a c
  | .step i k, Q, c => W.Allowed c i ∧ ∀ b, W.Answers i b → wp (k b) Q (W.note c i b)

variable {W} {Q R : α → γ → Prop} {c : γ}

@[simp] theorem wp_ret (a : α) : W.wp (.ret a) Q c ↔ Q a c := Iff.rfl

@[simp] theorem wp_perform_bind (i : ι β) (k : β → Prog ι α) :
    W.wp (Prog.perform i >>= k) Q c ↔
      W.Allowed c i ∧ ∀ b, W.Answers i b → W.wp (k b) Q (W.note c i b) := Iff.rfl

@[simp] theorem wp_perform {Q : β → γ → Prop} (i : ι β) :
    W.wp (Prog.perform i) Q c ↔ W.Allowed c i ∧ ∀ b, W.Answers i b → Q b (W.note c i b) := Iff.rfl

theorem wp_bind {Q : δ → γ → Prop} {p : Prog ι α} {f : α → Prog ι δ} :
    W.wp (p >>= f) Q c ↔ W.wp p (fun a c => W.wp (f a) Q c) c := by
  induction p generalizing c with
  | ret a => exact Iff.rfl
  | step i k ih => exact and_congr_right fun _ => forall₂_congr fun b _ => ih b

theorem wp_ite {a : Prop} [Decidable a] {p q : Prog ι α} (hp : a → W.wp p Q c) (hq : ¬a → W.wp q Q c) :
    W.wp (if a then p else q) Q c := by
  split
  · rename_i h
    exact hp h
  · rename_i h
    exact hq h

theorem wp_mono (h : ∀ a c, Q a c → R a c) {p : Prog ι α} (hp : W.wp p Q c) : W.wp p R c := by
  induction p generalizing c with
  | ret a => exact h a c hp
  | step i k ih => exact ⟨hp.1,fun b hb => ih b (hp.2 b hb)⟩

-- steps that are always allowed and leave no note
structure Quiet (W : Observer ι γ) (T : {β : Type} → ι β → Prop) : Prop where
  allowed : ∀ {β : Type} (i : ι β), T i → ∀ c, W.Allowed c i
  unnoted : ∀ {β : Type} (i : ι β), T i → ∀ c b, W.note c i b = c

theorem Quiet.wp {T : {β : Type} → ι β → Prop} (h : W.Quiet T) {p : Prog ι α} (hp : p.Uses T)
    (hQ : ∀ a, Q a c) : W.wp p Q c := by
  induction p with
  | ret a => exact hQ a
  | step i k ih =>
    refine ⟨h.allowed i hp.1 c,fun b _ => ?_⟩
    rw [h.unnoted i hp.1 c b]
    exact ih b (hp.2 b)

section Eval

variable {σ τ : Type} {step : {β : Type} → ι β → σ → σ × β} {step' : {β : Type} → ι β → τ → τ × β}

theorem wp_lockstep {R : γ → σ → τ → Prop}
    (h : ∀ c s t {β : Type} (i : ι β), R c s t → W.Allowed c i →
      (step i s).2 = (step' i t).2 ∧ W.Answers i (step i s).2 ∧
        R (W.note c i (step i s).2) (step i s).1 (step' i t).1)
    {p : Prog ι α} {s : σ} {t : τ} (hst : R c s t) (hp : W.wp p Q c) :
    (p.eval step s).2 = (p.eval step' t).2 ∧
      ∃ d, Q (p.eval step s).2 d ∧ R d (p.eval step s).1 (p.eval step' t).1 := by
  induction p generalizing c s t with
  | ret a => exact ⟨rfl,c,hp,hst⟩
  | step i k ih =>
    obtain ⟨hb,hanswer,hnext⟩ := h c s t i hst hp.1
    have hrest := ih (step i s).2 hnext (hp.2 _ hanswer)
    simp only [Prog.eval]
    rw [← hb]
    exact hrest

theorem wp_eval {I : γ → σ → Prop}
    (h : ∀ c s {β : Type} (i : ι β), I c s → W.Allowed c i →
      W.Answers i (step i s).2 ∧ I (W.note c i (step i s).2) (step i s).1)
    {p : Prog ι α} {s : σ} (hs : I c s) (hp : W.wp p Q c) :
    ∃ d, Q (p.eval step s).2 d ∧ I d (p.eval step s).1 := by
  have hpair : ∀ c s t {β : Type} (i : ι β), I c s ∧ s = t → W.Allowed c i →
      (step i s).2 = (step i t).2 ∧ W.Answers i (step i s).2 ∧
        (I (W.note c i (step i s).2) (step i s).1 ∧ (step i s).1 = (step i t).1) := by
    rintro c s t β i ⟨hi,rfl⟩ ha
    obtain ⟨hanswer,hnext⟩ := h c s i hi ha
    exact ⟨rfl,hanswer,hnext,rfl⟩
  obtain ⟨-,d,hq,hi,-⟩ := wp_lockstep hpair ⟨hs,rfl⟩ hp
  exact ⟨d,hq,hi⟩

end Eval

end Observer

end Interleave
