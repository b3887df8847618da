import ServerHub.Interleave.Routine

namespace Interleave

inductive Beside (ι κ : Type → Type) (β : Type) where
  | main (i : ι β)
  | side (k : κ β)

namespace Prog

variable {ι κ : Type → Type} {α γ : Type}

def lower (f : {β : Type} → ι β → Prog κ β) : Prog ι α → Prog κ α
  | .ret a => .ret a
  | .step i k => f i >>= fun b => (k b).lower f

variable {f : {β : Type} → ι β → Prog κ β}

theorem bind_assoc {δ : Type} (p : Prog κ α) (g : α → Prog κ γ) (h : γ → Prog κ δ) :
    p >>= g >>= h = p >>= fun a => g a >>= h := by
  induction p with
  | ret a => rfl
  | step i k ih =>
    simp only [step_bind]
    exact congrArg (Prog.step i) (funext ih)

theorem lower_bind (p : Prog ι α) (g : α → Prog ι γ) :
    (p >>= g).lower f = p.lower f >>= fun a => (g a).lower f := by
  induction p with
  | ret a => rfl
  | step i k ih =>
    show (f i >>= fun b => (k b >>= g).lower f) = (f i >>= fun b => (k b).lower f) >>= _
    rw [bind_assoc]
    exact congrArg (f i >>= ·) (funext ih)

end Prog

namespace Ledger

variable {S : System} {N : Type} {note : (β : Type) → S.Instr β → S.State → β → Option N}
  {L : Ledger S note} {ι : Type → Type} {f : {β : Type} → ι β → Prog S.Instr β} {pid : Nat}
  {α γ : Type} {J : List N → Prop}

theorem tells_lower {p : Prog ι α} {g : α → Prog ι γ} {Q : α → List N → Prop} {R : γ → List N → Prop}
    (hp : L.Tells pid J (p.lower f) Q) (hg : ∀ a, L.Tells pid (Q a) ((g a).lower f) R) :
    L.Tells pid J ((p >>= g).lower f) R := by
  rw [Prog.lower_bind]
  exact tells_bind hp hg

theorem tells_uses {P : {β : Type} → ι β → Prop}
    (h : ∀ {β : Type} (i : ι β), P i → L.Tells pid J (f i) fun _ => J) {p : Prog ι α} (hp : p.Uses P) :
    L.Tells pid J (p.lower f) fun _ => J := by
  induction p with
  | ret a => exact tells_ret fun _ hJ => hJ
  | step i k ih => exact tells_bind (h i hp.1) fun b => ih b (hp.2 b)

end Ledger

end Interleave
