import ServerHub.Interleave.Program

namespace Interleave

structure Discipline (S : System) where
  Inv : S.State → Prop
  Rely : Nat → S.State → S.State → Prop
  Allow : Nat → S.State → {β : Type} → S.Instr β → Prop
  Duty : Nat → S.State → {β : Type} → S.Instr β → Prop
  rely_refl : ∀ pid s, Rely pid s s
  rely_trans : ∀ pid s t u, Rely pid s t → Rely pid t u → Rely pid s u

variable {S : System}

namespace Discipline

variable (D : Discipline S) {α β γ : Type}

def Kept (pid : Nat) (s t : S.State) : Prop :=
  D.Inv t ∧ ∀ q, q ≠ pid → D.Rely q s t

def Safe (pid : Nat) (Q : α → S.State → Prop) : Prog S.Instr α → S.State → Prop
  | .ret a, s => Q a s
  | .step i k, s => ∀ t, D.Rely pid s t → D.Inv t → D.Allow pid t i →
      ∀ u b, S.exec pid i t = some (u,b) →
        D.Duty pid t i ∧ D.Kept pid t u ∧ Safe pid Q (k b) u

def Sound (pid : Nat) (p : Prog S.Instr α) : Prop :=
  ∀ s, D.Inv s → D.Safe pid (fun _ _ => True) p s

variable {D} {pid : Nat}

theorem Safe.mono {Q R : α → S.State → Prop} (hqr : ∀ a s, D.Inv s → Q a s → R a s)
    {p : Prog S.Instr α} {s : S.State} (hi : D.Inv s) (h : D.Safe pid Q p s) :
    D.Safe pid R p s := by
  induction p generalizing s with
  | ret a => exact hqr a s hi h
  | step i k ih =>
    intro t hr ht ha u b hx
    obtain ⟨hd,hk,hs⟩ := h t hr ht ha u b hx
    exact ⟨hd,hk,ih b hk.1 hs⟩

theorem Safe.bind {Q : α → S.State → Prop} {R : γ → S.State → Prop}
    {p : Prog S.Instr α} {f : α → Prog S.Instr γ} {s : S.State} (hi : D.Inv s)
    (hp : D.Safe pid Q p s) (hf : ∀ a t, D.Inv t → Q a t → D.Safe pid R (f a) t) :
    D.Safe pid R (p >>= f) s := by
  induction p generalizing s with
  | ret a => exact hf a s hi hp
  | step i k ih =>
    intro t hr ht ha u b hx
    obtain ⟨hd,hk,hs⟩ := hp t hr ht ha u b hx
    exact ⟨hd,hk,ih b hk.1 hs⟩

theorem Safe.stable {Q : α → S.State → Prop} {p : Prog S.Instr α} {s t : S.State}
    (hq : ∀ a u v, D.Rely pid u v → Q a u → Q a v)
    (h : D.Safe pid Q p s) (hr : D.Rely pid s t) : D.Safe pid Q p t := by
  cases p with
  | ret a => exact hq a s t hr h
  | step i k =>
    intro u hu
    exact h u (D.rely_trans pid s t u hr hu)

variable (D)

def HeldTo (Q : Nat → S.Answer → S.State → Prop) (w : World S) : Prop :=
  D.Inv w.state ∧ ∀ pid p, w.pool pid = some p → D.Safe pid (Q pid) p w.state

def Held (w : World S) : Prop :=
  D.Inv w.state ∧ ∀ pid p, w.pool pid = some p → D.Safe pid (fun _ _ => True) p w.state

variable {D}

theorem held_idle {s : S.State} (h : D.Inv s) : D.Held (World.idle s) :=
  ⟨h,by simp [World.idle]⟩

theorem held_duty {w : World S} {e : Event S} (hw : D.Held w) (hm : Landing D.Allow w e) :
    Landing D.Duty w e := by
  cases e with
  | start pid r => trivial
  | act pid =>
    intro β i k hp u b hx
    exact (hw.2 pid _ hp w.state (D.rely_refl pid _) hw.1 (hm β i k hp u b hx) u b hx).1
  | env e => trivial

section HeldTo

variable {Q : Nat → S.Answer → S.State → Prop}
  (hq : ∀ pid a s t, D.Rely pid s t → Q pid a s → Q pid a t)

include hq

theorem heldTo_act {w v : World S} (hw : D.HeldTo Q w) (hm : Landing D.Allow w (.act pid))
    (h : w.step (.act pid) = some v) : D.HeldTo Q v := by
  obtain ⟨β,i,k,b,hp,hx,hpool⟩ := step_act h
  obtain ⟨-,hk,hs⟩ := hw.2 pid _ hp w.state (D.rely_refl pid _) hw.1
    (hm β i k hp v.state b hx) v.state b hx
  refine ⟨hk.1,?_⟩
  intro q p hqp
  rw [hpool] at hqp
  by_cases e : q = pid
  · subst e
    simp only [Function.update_self,Option.some.injEq] at hqp
    exact hqp ▸ hs
  · rw [Function.update_of_ne e] at hqp
    exact Safe.stable (fun a s t => hq q a s t) (hw.2 q p hqp) (hk.2 q e)

variable (henv : ∀ e s t, D.Inv s → S.env e s = some t → D.Inv t ∧ ∀ pid, D.Rely pid s t)

include henv

theorem heldTo_step {w v : World S} {e : Event S} (hw : D.HeldTo Q w)
    (hm : Landing D.Allow w e)
    (hreq : ∀ pid r, e = .start pid r → D.Safe pid (Q pid) (S.handle r) w.state)
    (h : w.step e = some v) : D.HeldTo Q v := by
  cases e with
  | start pid r =>
    obtain ⟨-,hst,hpool⟩ := step_start h
    refine ⟨hst ▸ hw.1,?_⟩
    intro q p hqp
    rw [hpool] at hqp
    rw [hst]
    by_cases e : q = pid
    · subst e
      simp only [Function.update_self,Option.some.injEq] at hqp
      exact hqp ▸ hreq q r rfl
    · rw [Function.update_of_ne e] at hqp
      exact hw.2 q p hqp
  | act pid => exact heldTo_act hq hw hm h
  | env e =>
    obtain ⟨hst,hpool⟩ := step_env h
    obtain ⟨hi,hr⟩ := henv e _ _ hw.1 hst
    refine ⟨hi,?_⟩
    intro q p hqp
    rw [hpool] at hqp
    exact Safe.stable (fun a s t => hq q a s t) (hw.2 q p hqp) (hr q)

end HeldTo

section Soundness

variable (hreq : ∀ pid r, D.Sound pid (S.handle r))
  (henv : ∀ e s t, D.Inv s → S.env e s = some t → D.Inv t ∧ ∀ pid, D.Rely pid s t)

include hreq henv

theorem held_step {w v : World S} {e : Event S} (hw : D.Held w) (hm : Landing D.Allow w e)
    (h : w.step e = some v) : D.Held v :=
  heldTo_step (Q := fun _ _ _ => True) (fun _ _ _ _ _ _ => trivial) henv hw hm
    (fun pid r _ => hreq pid r w.state hw.1) h

theorem along_duty {w : World S} {es : List (Event S)} (hw : D.Held w)
    (hm : Along (Landing D.Allow) w es) : Along (Landing D.Duty) w es :=
  along_mono (fun _ _ _ hi hc hs => held_step hreq henv hi hc hs)
    (fun _ _ hi hc => held_duty hi hc) hw hm

end Soundness

end Discipline

end Interleave
