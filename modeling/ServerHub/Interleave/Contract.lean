import ServerHub.Interleave.Discipline
import ServerHub.Interleave.History

namespace Interleave

namespace Prog

variable {ι : Type → Type} {α β γ : Type}

def Ends (Q : α → Prop) : Prog ι α → Prop
  | .ret a => Q a
  | .step _ k => ∀ b, (k b).Ends Q

inductive Residual (p : Prog ι α) : Prog ι α → Prop
  | refl : Residual p p
  | step {β : Type} {i : ι β} {k : β → Prog ι α} (b : β) (h : Residual p (.step i k)) :
      Residual p (k b)

theorem Residual.trans {p q r : Prog ι α} (h : Residual p q) (k : Residual q r) :
    Residual p r := by
  induction k with
  | refl => exact h
  | step b _ ih => exact .step b ih

theorem Residual.keeps {P : Prog ι α → Prop}
    (hp : ∀ {β : Type} (i : ι β) (k : β → Prog ι α) b, P (.step i k) → P (k b))
    {p q : Prog ι α} (h : Residual p q) (hP : P p) : P q := by
  induction h with
  | refl => exact hP
  | step b _ ih => exact hp _ _ b ih

theorem Residual.of_ret {a : α} {q : Prog ι α} (h : Residual (.ret a) q) : q = .ret a :=
  h.keeps (P := fun p => p = .ret a) (fun _ _ _ hk => by simp at hk) rfl

theorem Residual.ends {Q : α → Prop} {p q : Prog ι α} (h : Residual p q) (hp : p.Ends Q) :
    q.Ends Q := h.keeps (fun _ _ b hk => hk b) hp

theorem Residual.uses {P : {β : Type} → ι β → Prop} {p q : Prog ι α} (h : Residual p q)
    (hp : p.Uses P) : q.Uses P := h.keeps (fun _ _ b hk => hk.2 b) hp

theorem ends_of_forall {Q : α → Prop} (h : ∀ a, Q a) (p : Prog ι α) : p.Ends Q := by
  induction p with
  | ret a => exact h a
  | step i k ih => exact ih

theorem ends_mono {Q R : α → Prop} (h : ∀ a, Q a → R a) {p : Prog ι α} (hp : p.Ends Q) :
    p.Ends R := by
  induction p with
  | ret a => exact h a hp
  | step i k ih => exact fun b => ih b (hp b)

theorem alone_ends {σ : Type} {exec : {β : Type} → ι β → σ → Option (σ × β)} {Q : α → Prop}
    {p : Prog ι α} {s t : σ} {a : α} (hp : p.Ends Q) (h : p.alone exec s = some (t,a)) : Q a := by
  induction p generalizing s with
  | ret b =>
    simp only [alone_ret,Option.some.injEq,Prod.mk.injEq] at h
    exact h.2 ▸ hp
  | step i k ih =>
    simp only [alone_step,Option.bind_eq_some_iff] at h
    obtain ⟨⟨u,b⟩,-,h⟩ := h
    exact ih b (hp b) h

theorem ends_bind {Q : γ → Prop} {p : Prog ι α} {f : α → Prog ι γ}
    (hf : ∀ a, (f a).Ends Q) : (p >>= f).Ends Q := by
  induction p with
  | ret a => exact hf a
  | step i k ih => exact fun b => ih b

theorem ends_then {Q : α → Prop} {R : γ → Prop} {p : Prog ι α} {f : α → Prog ι γ}
    (hp : p.Ends Q) (hf : ∀ a, Q a → (f a).Ends R) : (p >>= f).Ends R := by
  induction p with
  | ret a => exact hf a hp
  | step i k ih => exact fun b => ih b (hp b)

end Prog

variable {S : System}

section Started

variable {w v : World S} {es : List (Event S)} {pid : Nat}

theorem residual_step {e : Event S} {p : Prog S.Instr S.Answer} (h : w.step e = some v)
    (hp : w.pool pid = some p) : ∃ q, v.pool pid = some q ∧ p.Residual q := by
  cases e with
  | start q r =>
    obtain ⟨hn,-,hpool⟩ := step_start h
    have hne : pid ≠ q := by
      rintro rfl
      simp [hp] at hn
    exact ⟨p,by rw [hpool,Function.update_of_ne hne,hp],.refl⟩
  | act q =>
    obtain ⟨β,i,k,b,hq,-,hpool⟩ := step_act h
    by_cases e : pid = q
    · subst e
      rw [hp,Option.some.injEq] at hq
      subst hq
      exact ⟨k b,by rw [hpool,Function.update_self],.step b .refl⟩
    · exact ⟨p,by rw [hpool,Function.update_of_ne e,hp],.refl⟩
  | env e =>
    obtain ⟨-,hpool⟩ := step_env h
    exact ⟨p,by rw [hpool,hp],.refl⟩

theorem residual_run {p : Prog S.Instr S.Answer} (h : w.run es = some v)
    (hp : w.pool pid = some p) : ∃ q, v.pool pid = some q ∧ p.Residual q := by
  induction es generalizing w p with
  | nil =>
    simp only [World.run,Option.some.injEq] at h
    exact ⟨p,h ▸ hp,.refl⟩
  | cons e es ih =>
    simp only [World.run,Option.bind_eq_some_iff] at h
    obtain ⟨u,hu,h⟩ := h
    obtain ⟨q,hq,hr⟩ := residual_step hu hp
    obtain ⟨q',hq',hr'⟩ := ih h hq
    exact ⟨q',hq',hr.trans hr'⟩

theorem not_started_again {r : S.Request} {p : Prog S.Instr S.Answer} (h : w.run es = some v)
    (hp : w.pool pid = some p) : Event.start pid r ∉ es := by
  intro hm
  obtain ⟨xs,ys,rfl⟩ := List.append_of_mem hm
  rw [run_append,Option.bind_eq_some_iff] at h
  obtain ⟨u,hu,h⟩ := h
  obtain ⟨q,hq,-⟩ := residual_run hu hp
  simp only [World.run,Option.bind_eq_some_iff] at h
  obtain ⟨u',hu',-⟩ := h
  have hn := (step_start hu').1
  simp [hq] at hn

theorem started_residual {r : S.Request} (h : w.run es = some v)
    (hm : Event.start pid r ∈ es) : ∃ q, v.pool pid = some q ∧ (S.handle r).Residual q := by
  obtain ⟨xs,ys,rfl⟩ := List.append_of_mem hm
  rw [run_append,Option.bind_eq_some_iff] at h
  obtain ⟨u,hu,h⟩ := h
  simp only [World.run,Option.bind_eq_some_iff] at h
  obtain ⟨u',hu',h⟩ := h
  have hp : u'.pool pid = some (S.handle r) := by
    rw [(step_start hu').2.2,Function.update_self]
  exact residual_run h hp

theorem started_once {r r' : S.Request} (h : w.run es = some v)
    (hm : Event.start pid r ∈ es) (hm' : Event.start pid r' ∈ es) : r = r' := by
  induction es generalizing w with
  | nil => simp at hm
  | cons e es ih =>
    simp only [World.run,Option.bind_eq_some_iff] at h
    obtain ⟨u,hu,h⟩ := h
    have first : ∀ {a : S.Request}, e = .start pid a → ∀ {b : S.Request},
        Event.start pid b ∉ es := by
      rintro a rfl b
      refine not_started_again (p := S.handle a) h ?_
      rw [(step_start hu).2.2,Function.update_self]
    rcases List.mem_cons.mp hm with he | he
    · rcases List.mem_cons.mp hm' with he' | he'
      · exact (Event.start.inj (he.trans he'.symm)).2
      · exact (first he.symm he').elim
    · rcases List.mem_cons.mp hm' with he' | he'
      · exact (first he'.symm he).elim
      · exact ih h he he'

theorem pool_started {p : Prog S.Instr S.Answer} (h : w.run es = some v)
    (hn : w.pool pid = none) (hp : v.pool pid = some p) : ∃ r, Event.start pid r ∈ es := by
  induction es generalizing w with
  | nil =>
    simp only [World.run,Option.some.injEq] at h
    simp [← h,hn] at hp
  | cons e es ih =>
    simp only [World.run,Option.bind_eq_some_iff] at h
    obtain ⟨u,hu,h⟩ := h
    have later : u.pool pid = none → ∃ r, Event.start pid r ∈ e :: es := by
      intro hun
      obtain ⟨r,hr⟩ := ih h hun
      exact ⟨r,List.mem_cons_of_mem e hr⟩
    cases e with
    | start q r =>
      by_cases e : pid = q
      · exact ⟨r,by simp [e]⟩
      · exact later (by rw [(step_start hu).2.2,Function.update_of_ne e,hn])
    | act q =>
      obtain ⟨β,i,k,b,hq,-,hpool⟩ := step_act hu
      have hne : pid ≠ q := by
        rintro rfl
        simp [hn] at hq
      exact later (by rw [hpool,Function.update_of_ne hne,hn])
    | env e => exact later (by rw [(step_env hu).2,hn])

theorem residual_at {s : S.State} {xs ys : List (Event S)} {u : World S} {r : S.Request}
    {p : Prog S.Instr S.Answer} (hv : (World.idle s).run (xs ++ ys) = some v)
    (hm : Event.start pid r ∈ xs ++ ys) (hu : (World.idle s).run xs = some u)
    (hp : u.pool pid = some p) : Event.start pid r ∈ xs ∧ (S.handle r).Residual p := by
  obtain ⟨r',hr'⟩ := pool_started hu rfl hp
  obtain rfl : r = r' := started_once hv hm (List.mem_append_left ys hr')
  obtain ⟨q,hq,hres⟩ := started_residual hu hr'
  rw [hp,Option.some.injEq] at hq
  exact ⟨hr',hq ▸ hres⟩

theorem uses_at {I : {β : Type} → S.Instr β → Prop} {s : S.State} {xs ys : List (Event S)}
    {u : World S} (hI : ∀ q r, Event.start q r ∈ xs ++ ys → (S.handle r).Uses I)
    (hu : (World.idle s).run xs = some u) {β : Type} {i : S.Instr β}
    {k : β → Prog S.Instr S.Answer} (hp : u.pool pid = some (.step i k)) : I i := by
  obtain ⟨r,hr⟩ := pool_started hu rfl hp
  obtain ⟨q,hq,hres⟩ := started_residual hu hr
  rw [hp,Option.some.injEq] at hq
  subst hq
  exact (hres.uses (hI pid r (List.mem_append_left ys hr))).1

end Started

structure Regime (S : System) where
  Inv : S.State → Prop
  Later : S.State → S.State → Prop
  Allow : Nat → S.State → {β : Type} → S.Instr β → Prop
  refl : ∀ s, Later s s
  trans : ∀ s t u, Later s t → Later t u → Later s u

namespace Regime

def discipline (R : Regime S) : Discipline S where
  Inv := R.Inv
  Rely _ := R.Later
  Allow := R.Allow
  Duty _ _ _ _ := True
  rely_refl _ := R.refl
  rely_trans _ := R.trans

def Kept (R : Regime S) (s t : S.State) : Prop := R.Inv t ∧ R.Later s t

def Closed (R : Regime S) (I : {β : Type} → S.Instr β → Prop) : Prop :=
  ∀ (pid : Nat) (s : S.State) {β : Type} (i : S.Instr β) (t : S.State) (b : β), R.Inv s → I i →
    R.Allow pid s i → S.exec pid i s = some (t,b) → R.Kept s t

def Ensures (R : Regime S) (pid : Nat) {α : Type} (Q : α → S.State → Prop)
    (p : Prog S.Instr α) (s : S.State) : Prop :=
  R.discipline.Safe pid Q p s

variable {R : Regime S} {I : {β : Type} → S.Instr β → Prop} {α β γ : Type} {pid : Nat}
  {s : S.State}

theorem ensures_perform (hR : R.Closed I) {i : S.Instr β} {f : β → Prog S.Instr γ}
    {Q : γ → S.State → Prop} (hi : I i)
    (h : ∀ t u b, R.Kept s t → R.Allow pid t i → S.exec pid i t = some (u,b) → R.Kept s u →
      R.Ensures pid Q (f b) u) : R.Ensures pid Q (.perform i >>= f) s := by
  intro t hr ht ha u b hx
  obtain ⟨hu,htu⟩ := hR pid t i u b ht hi ha hx
  have hsu : R.Kept s u := ⟨hu,R.trans s t u hr htu⟩
  exact ⟨trivial,⟨hu,fun _ _ => htu⟩,h t u b ⟨ht,hr⟩ ha hx hsu⟩

theorem ensures_uses (hR : R.Closed I) {p : Prog S.Instr α} (hp : p.Uses I)
    {Q : α → S.State → Prop} (hq : p.Ends fun a => ∀ t, Q a t) (s : S.State) :
    R.Ensures pid Q p s := by
  induction p generalizing s with
  | ret a => exact hq s
  | step i k ih =>
    intro t _ ht ha u b hx
    obtain ⟨hu,htu⟩ := hR pid t i u b ht hp.1 ha hx
    exact ⟨trivial,⟨hu,fun _ _ => htu⟩,ih b (hp.2 b) (hq b) u⟩

theorem ensures_bind {Q : α → S.State → Prop} {T : γ → S.State → Prop} {p : Prog S.Instr α}
    {f : α → Prog S.Instr γ} (hs : R.Inv s) (hp : R.Ensures pid Q p s)
    (hf : ∀ a t, R.Inv t → Q a t → R.Ensures pid T (f a) t) : R.Ensures pid T (p >>= f) s :=
  Discipline.Safe.bind hs hp hf

theorem ensures_mono {Q T : α → S.State → Prop} {p : Prog S.Instr α} (hs : R.Inv s)
    (hp : R.Ensures pid Q p s) (hqt : ∀ a t, R.Inv t → Q a t → T a t) : R.Ensures pid T p s :=
  Discipline.Safe.mono hqt hs hp

structure Within (R : Regime S) (I : {β : Type} → S.Instr β → Prop) (w : World S) : Prop where
  inv : R.Inv w.state
  uses : ∀ pid p, w.pool pid = some p → p.Uses I

theorem Within.step {w v : World S} {e : Event S} (hR : R.Closed I)
    (henv : ∀ e t u, R.Inv t → S.env e t = some u → R.Kept t u) (hw : R.Within I w)
    (hc : Landing R.Allow w e) (hstart : ∀ pid r, e = .start pid r → (S.handle r).Uses I)
    (h : w.step e = some v) : R.Within I v ∧ R.Later w.state v.state := by
  cases e with
  | start q r =>
    obtain ⟨-,hst,hpool⟩ := step_start h
    refine ⟨⟨hst ▸ hw.inv,?_⟩,hst ▸ R.refl w.state⟩
    intro pid p hp
    rw [hpool] at hp
    by_cases e : pid = q
    · subst e
      rw [Function.update_self,Option.some.injEq] at hp
      exact hp ▸ hstart pid r rfl
    · rw [Function.update_of_ne e] at hp
      exact hw.uses pid p hp
  | act q =>
    obtain ⟨β,i,k,b,hq,hx,hpool⟩ := step_act h
    have hi := hw.uses q _ hq
    obtain ⟨hinv,hlater⟩ := hR q w.state i v.state b hw.inv hi.1 (hc β i k hq v.state b hx) hx
    refine ⟨⟨hinv,?_⟩,hlater⟩
    intro pid p hp
    rw [hpool] at hp
    by_cases e : pid = q
    · subst e
      rw [Function.update_self,Option.some.injEq] at hp
      exact hp ▸ hi.2 b
    · rw [Function.update_of_ne e] at hp
      exact hw.uses pid p hp
  | env e =>
    obtain ⟨hx,hpool⟩ := step_env h
    obtain ⟨hinv,hlater⟩ := henv e w.state v.state hw.inv hx
    exact ⟨⟨hinv,fun pid p hp => hw.uses pid p (hpool ▸ hp)⟩,hlater⟩

theorem Within.run {w v : World S} {es : List (Event S)} (hR : R.Closed I)
    (henv : ∀ e t u, R.Inv t → S.env e t = some u → R.Kept t u) (hw : R.Within I w)
    (hc : Along (Landing R.Allow) w es)
    (hstart : ∀ pid r, .start pid r ∈ es → (S.handle r).Uses I) (h : w.run es = some v) :
    R.Within I v ∧ R.Later w.state v.state := by
  induction es generalizing w with
  | nil =>
    simp only [World.run,Option.some.injEq] at h
    subst h
    exact ⟨hw,R.refl w.state⟩
  | cons e es ih =>
    simp only [World.run,Option.bind_eq_some_iff] at h
    obtain ⟨u,hu,h⟩ := h
    have hfirst : ∀ pid r, e = .start pid r → (S.handle r).Uses I :=
      fun pid r he => hstart pid r (he ▸ List.mem_cons_self)
    obtain ⟨hwu,hlater⟩ := hw.step hR henv hc.1 hfirst hu
    obtain ⟨hwv,hrest⟩ := ih hwu (hc.2 u hu) (fun pid r hm => hstart pid r (.tail e hm)) h
    exact ⟨hwv,R.trans _ _ _ hlater hrest⟩

theorem within_idle {s : S.State} (h : R.Inv s) : R.Within I (World.idle s) :=
  ⟨h,by simp [World.idle]⟩

end Regime

theorem along_unrestricted (w : World S) (es : List (Event S)) :
    Along (Landing fun _ _ _ _ => True) w es :=
  along_of_mem (fun e _ w => by cases e <;> simp [Landing]) w

section Fulfilled

variable {R : Regime S} {Q : Nat → S.Request → S.State → S.Answer → S.State → Prop}
  {s : S.State} {es : List (Event S)} {v : World S}

theorem heldTo_reached (h0 : R.Inv s)
    (hreq : ∀ pid r t, Event.start pid r ∈ es → R.Inv t →
      R.Ensures pid (fun _ _ => True) (S.handle r) t)
    (henv : ∀ e t u, R.Inv t → S.env e t = some u → R.Inv u ∧ ∀ _ : Nat, R.Later t u)
    (hc : Along (Landing R.Allow) (World.idle s) es) {xs ys : List (Event S)} {u : World S}
    (he : es = xs ++ ys) (hu : (World.idle s).run xs = some u) :
    R.discipline.HeldTo (fun _ _ _ => True) u := by
  subst he
  have hinit : R.discipline.HeldTo (fun _ _ _ => True) (World.idle s) :=
    ⟨h0,by simp [World.idle]⟩
  have hmem : Along (fun _ e => e ∈ xs) (World.idle s) xs := along_of_mem (fun e he _ => he) _
  refine along_invariant ?_ hinit (along_and (along_append hc hu).1 hmem) hu
  intro w e w' hw hce hstep
  refine Discipline.heldTo_step (fun _ _ _ _ _ _ => trivial) henv hw hce.1 ?_ hstep
  rintro pid r rfl
  exact hreq pid r w.state (List.mem_append_left ys hce.2) hw.1

theorem fulfilled (h0 : R.Inv s)
    (hreq : ∀ pid r t, Event.start pid r ∈ es → R.Inv t →
      R.Ensures pid (Q pid r t) (S.handle r) t)
    (hstable : ∀ pid r t a u w, R.Later u w → Q pid r t a u → Q pid r t a w)
    (henv : ∀ e t u, R.Inv t → S.env e t = some u → R.Kept t u)
    (hc : Along (Landing R.Allow) (World.idle s) es) (hv : (World.idle s).run es = some v) :
    R.Inv v.state ∧ ∀ pid r a xs ys u, es = xs ++ .start pid r :: ys →
      (World.idle s).run xs = some u → v.pool pid = some (.ret a) →
        Q pid r u.state a v.state := by
  have he : ∀ e t u, R.Inv t → S.env e t = some u → R.Inv u ∧ ∀ _ : Nat, R.Later t u :=
    fun e t u ht hx => ⟨(henv e t u ht hx).1,fun _ => (henv e t u ht hx).2⟩
  have hany : ∀ pid r t, Event.start pid r ∈ es → R.Inv t →
      R.Ensures pid (fun _ _ => True) (S.handle r) t :=
    fun pid r t hm ht => Regime.ensures_mono ht (hreq pid r t hm ht) fun _ _ _ _ => trivial
  refine ⟨(heldTo_reached h0 hany he hc (List.append_nil es).symm hv).1,?_⟩
  rintro pid r a xs ys u rfl hu hret
  let H : Nat → S.Answer → S.State → Prop := fun q a t => q = pid → Q pid r u.state a t
  have hq : ∀ q a t w, R.discipline.Rely q t w → H q a t → H q a w :=
    fun q a t w hr h e => hstable pid r u.state a t w hr (h e)
  have hheld := heldTo_reached h0 hany he hc rfl hu
  have hrest := (along_append hc hu).2
  rw [run_append,hu,Option.bind_some,World.run,Option.bind_eq_some_iff] at hv
  obtain ⟨u',hstart,hv⟩ := hv
  obtain ⟨-,hst,hpool⟩ := step_start hstart
  have hbegin : R.discipline.HeldTo H u' := by
    refine ⟨hst ▸ hheld.1,?_⟩
    intro q p hqp
    rw [hpool] at hqp
    by_cases e : q = pid
    · subst e
      simp only [Function.update_self,Option.some.injEq] at hqp
      rw [← hqp,hst]
      exact Regime.ensures_mono hheld.1 (hreq q r u.state (by simp) hheld.1) fun _ _ _ h _ => h
    · rw [Function.update_of_ne e] at hqp
      rw [hst]
      exact Regime.ensures_mono hheld.1 (hheld.2 q p hqp) fun _ _ _ _ h => absurd h e
  have hrun : u'.pool pid = some (S.handle r) := by rw [hpool,Function.update_self]
  have hmem : Along (fun _ e => e ∈ ys) u' ys := along_of_mem (fun e he _ => he) _
  have hend : R.discipline.HeldTo H v := by
    refine along_invariant ?_ hbegin (along_and (hrest.2 u' hstart) hmem) hv
    intro w e w' hw hce hstep
    refine Discipline.heldTo_step hq he hw hce.1 ?_ hstep
    rintro q r' rfl
    have hne : q ≠ pid := by
      rintro rfl
      exact not_started_again hv hrun hce.2
    have hm : Event.start q r' ∈ xs ++ .start pid r :: ys := by simp [hce.2]
    exact Regime.ensures_mono hw.1 (hany q r' w.state hm hw.1) fun _ _ _ _ h => absurd h hne
  exact hend.2 pid _ hret rfl

end Fulfilled

section Recorded

variable {N : Type} {note : (β : Type) → S.Instr β → β → Option N}

theorem start_traced {pid : Nat} {r : S.Request} {es : List (Event S)}
    (h : Event.start (S := S.watch note) pid r ∈ es.map (Event.traced note)) :
    Event.start pid r ∈ es := by
  obtain ⟨e,he,hr⟩ := List.mem_map.mp h
  cases e with
  | start q r' =>
    obtain ⟨rfl,rfl⟩ := Event.start.inj hr
    exact he
  | act q => simp [Event.traced] at hr
  | env e => simp [Event.traced] at hr

def Performed (w : World S) (es : List (Event S)) (pid : Nat)
    (P : (β : Type) → S.Instr β → β → S.State → S.State → Prop) : Prop :=
  ∃ (xs ys : List (Event S)) (u u' : World S) (β : Type) (i : S.Instr β)
    (k : β → Prog S.Instr S.Answer) (b : β), es = xs ++ .act pid :: ys ∧ w.run xs = some u ∧
      u.pool pid = some (.step i k) ∧ u.step (.act pid) = some u' ∧ P β i b u.state u'.state

theorem logged_step {w v : World S} {es : List (Event S)} {log log' : List (Nat × N)}
    (h : (w.traced note log).run (es.map (Event.traced note)) = some (v.traced note log'))
    {pid : Nat} {n : N} (hm : (pid,n) ∈ log') :
    (pid,n) ∈ log ∨ Performed w es pid fun β i b s t =>
      S.exec pid i s = some (t,b) ∧ note β i b = some n := by
  induction es generalizing w log with
  | nil =>
    simp only [List.map_nil,World.run,Option.some.injEq] at h
    have hl : log = log' := congrArg (fun x => x.state.log) h
    exact .inl (hl ▸ hm)
  | cons e es ih =>
    simp only [List.map_cons,World.run,Option.bind_eq_some_iff] at h
    obtain ⟨u,hu,h⟩ := h
    obtain ⟨u,log1,hs,rfl⟩ := step_untraced note hu
    rcases ih h with hin | ⟨xs,ys,a,a',β,i,k,b,rfl,ha,hp,hstep,hP⟩
    · cases e with
      | start q r =>
        have hl : log1 = log := congrArg Traced.log (step_start hu).2.1
        exact .inl (hl ▸ hin)
      | env e =>
        have hl : log1 = log := (env_watch (step_env hu).1).2
        exact .inl (hl ▸ hin)
      | act q =>
        obtain ⟨β,i,k,b,hp,hx,-⟩ := step_act hu
        obtain ⟨hex,hlog⟩ := exec_watch hx
        have hl : log1 = record q log (note β i b) := hlog
        cases hn : note β i b with
        | none =>
          rw [hl,hn] at hin
          exact .inl hin
        | some m =>
          rw [hl,hn] at hin
          rcases List.mem_cons.mp hin with he | hin
          · obtain ⟨rfl,rfl⟩ := Prod.mk.inj he
            exact .inr ⟨[],es,w,u,β,i,k,b,rfl,rfl,hp,hs,hex,hn⟩
          · exact .inl hin
    · refine .inr ⟨e :: xs,ys,a,a',β,i,k,b,rfl,?_,hp,hstep,hP⟩
      simp only [World.run,hs,Option.bind_some]
      exact ha

variable {R : Regime (S.watch note)}
  {Q : Nat → S.Request → S.Answer → Traced S.State N → Prop}
  {s : S.State} {es : List (Event S)} {v : World S}

theorem recorded {P : Nat → S.State → {β : Type} → S.Instr β → Prop} (h0 : R.Inv ⟨s,[]⟩)
    (hreq : ∀ pid r x, Event.start pid r ∈ es → R.Inv x →
      R.Ensures pid (Q pid r) (S.handle r) x)
    (hstable : ∀ pid r a x y, R.Later x y → Q pid r a x → Q pid r a y)
    (henv : ∀ e x y, R.Inv x → (S.watch note).env e x = some y → R.Kept x y)
    (hallow : ∀ pid x {β : Type} (i : S.Instr β), P pid x.state i → R.Allow pid x i)
    (hc : Along (Landing P) (World.idle s) es) (hv : (World.idle s).run es = some v) :
    ∃ log, R.Inv ⟨v.state,log⟩ ∧
      (∀ pid r a, Event.start pid r ∈ es → v.pool pid = some (.ret a) →
        Q pid r a ⟨v.state,log⟩) ∧
      ∀ pid n, (pid,n) ∈ log → Performed (World.idle s) es pid fun β i b s t =>
        S.exec pid i s = some (t,b) ∧ note β i b = some n := by
  obtain ⟨log,hr⟩ := run_traced note hv []
  have hca : Along (Landing R.Allow) ((World.idle s).traced note []) (es.map (Event.traced note)) :=
    along_traced note (fun w log e h => by
      cases e with
      | start pid r => trivial
      | act pid =>
        exact fun β i k hp u b hx => hallow pid _ i (h β i k hp u.state b (exec_watch hx).1)
      | env e => trivial) [] hc
  obtain ⟨hi,hpost⟩ := fulfilled (R := R) (Q := fun pid r _ => Q pid r) h0
    (fun pid r x hm => hreq pid r x (start_traced hm)) (fun pid r _ => hstable pid r) henv hca hr
  refine ⟨log,hi,?_,?_⟩
  · intro pid r a hm hp
    obtain ⟨xs,ys,he⟩ := List.append_of_mem (List.mem_map_of_mem (f := Event.traced note) hm)
    have hr' := hr
    rw [he,run_append,Option.bind_eq_some_iff] at hr'
    obtain ⟨u,hu,-⟩ := hr'
    exact hpost pid r a xs ys u he hu hp
  · intro pid n hm
    rcases logged_step hr hm with h | h
    · simp at h
    · exact h

end Recorded

end Interleave
