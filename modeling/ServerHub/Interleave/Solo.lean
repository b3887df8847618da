import ServerHub.Interleave.Program

namespace Interleave

namespace Prog

variable {ι : Type → Type} {σ α β γ : Type}

-- every end of a program that runs alone is in Q; between its steps the state may move by E
def Leaves (exec : {β : Type} → ι β → σ → Option (σ × β)) (E : σ → σ → Prop) (Q : α → σ → Prop) :
    Prog ι α → σ → Prop
  | .ret a, s => Q a s
  | .step i k, s => ∀ t, E s t → ∀ u b, exec i t = some (u,b) → Leaves exec E Q (k b) u

def Solo (exec : {β : Type} → ι β → σ → Option (σ × β)) (E : σ → σ → Prop) (P : σ → Prop)
    (p : Prog ι α) (Q : α → σ → Prop) : Prop :=
  ∀ s, P s → p.Leaves exec E Q s

variable {exec : {β : Type} → ι β → σ → Option (σ × β)} {E : σ → σ → Prop} {P : σ → Prop}

theorem leaves_bind {Q : α → σ → Prop} {R : γ → σ → Prop} {p : Prog ι α} {f : α → Prog ι γ} {s : σ}
    (hp : p.Leaves exec E Q s) (hf : ∀ a t, Q a t → (f a).Leaves exec E R t) :
    (p >>= f).Leaves exec E R s := by
  induction p generalizing s with
  | ret a => exact hf a s hp
  | step i k ih => exact fun t ht u b hx => ih b (hp t ht u b hx)

theorem solo_ret {a : α} {Q : α → σ → Prop} (h : ∀ s, P s → Q a s) : Solo exec E P (.ret a) Q := h

theorem solo_perform {i : ι β} {Q : β → σ → Prop} (hstable : ∀ s t, P s → E s t → P t)
    (h : ∀ s t b, P s → exec i s = some (t,b) → Q b t) : Solo exec E P (perform i) Q :=
  fun s hs t ht u b hx => h t u b (hstable s t hs ht) hx

theorem solo_bind {Q : α → σ → Prop} {R : γ → σ → Prop} {p : Prog ι α} {f : α → Prog ι γ}
    (hp : Solo exec E P p Q) (hf : ∀ a, Solo exec E (Q a) (f a) R) : Solo exec E P (p >>= f) R :=
  fun s hs => leaves_bind (hp s hs) hf

theorem leaves_mono {Q R : α → σ → Prop} {p : Prog ι α} {s : σ} (hQ : ∀ a t, Q a t → R a t)
    (hp : p.Leaves exec E Q s) : p.Leaves exec E R s := by
  induction p generalizing s with
  | ret a => exact hQ a s hp
  | step i k ih => exact fun t ht u b hx => ih b (hp t ht u b hx)

theorem solo_mono {P' : σ → Prop} {Q R : α → σ → Prop} {p : Prog ι α} (hP : ∀ s, P' s → P s)
    (hQ : ∀ a s, Q a s → R a s) (hp : Solo exec E P p Q) : Solo exec E P' p R :=
  fun s hs => leaves_mono hQ (hp s (hP s hs))

theorem solo_each {f : α → Prog ι Unit} (h : ∀ a, Solo exec E P (f a) fun _ => P) (as : List α) :
    Solo exec E P (each f as) fun _ => P := by
  induction as with
  | nil => exact solo_ret fun _ hs => hs
  | cons a as ih =>
    rw [each_cons]
    exact solo_bind (h a) fun _ => ih

theorem solo_list {K : List α → σ → Prop} {f : α → Prog ι Unit}
    (h : ∀ a rest, Solo exec E (K (a :: rest)) (f a) fun _ => K rest) (as : List α) :
    Solo exec E (K as) (each f as) fun _ => K [] := by
  induction as with
  | nil => exact solo_ret fun _ hs => hs
  | cons a as ih =>
    rw [each_cons]
    exact solo_bind (h a as) fun _ => ih

theorem leaves_now {J : σ → Prop} {Q : α → σ → Prop} {p : Prog ι α} {s : σ} (hrefl : ∀ s, E s s)
    (hend : ∀ a s, Q a s → J s)
    (hback : ∀ {β : Type} (i : ι β) (s : σ), ∃ t b, exec i s = some (t,b) ∧ (J t → J s))
    (h : p.Leaves exec E Q s) : J s := by
  induction p generalizing s with
  | ret a => exact hend a s h
  | step i k ih =>
    obtain ⟨t,b,hexec,hJ⟩ := hback i s
    exact hJ (ih b (h s (hrefl s) t b hexec))

end Prog

variable {S : System}

def Event.By (pid : Nat) : Event S → Prop
  | .start _ _ => False
  | .act q => q = pid
  | .env _ => True

theorem solo_run {E : S.State → S.State → Prop} (hrefl : ∀ s, E s s)
    (htrans : ∀ s t u, E s t → E t u → E s u) {pid : Nat} {Q : S.Answer → S.State → Prop} {p : Prog S.Instr S.Answer} {w v : World S}
    {es : List (Event S)} {s : S.State} {a : S.Answer} (hes : ∀ e ∈ es, e.By pid)
    (henv : ∀ e, .env e ∈ es → ∀ s t, S.env e s = some t → E s t)
    (hp : w.pool pid = some p) (h : p.Leaves (fun i => S.exec pid i) E Q s) (hs : E s w.state)
    (hv : w.run es = some v) (ha : v.pool pid = some (.ret a)) : ∃ t, Q a t ∧ E t v.state := by
  induction es generalizing w p s with
  | nil =>
    obtain rfl : w = v := Option.some.inj hv
    obtain rfl : p = .ret a := Option.some.inj (hp.symm.trans ha)
    exact ⟨s,h,hs⟩
  | cons e es ih =>
    obtain ⟨u,hu,hrest⟩ := Option.bind_eq_some_iff.mp hv
    have hby := hes e List.mem_cons_self
    have hlater : ∀ e ∈ es, e.By pid := fun e he => hes e (List.mem_cons_of_mem _ he)
    have hmoves : ∀ e, .env e ∈ es → ∀ s t, S.env e s = some t → E s t :=
      fun e he => henv e (List.mem_cons_of_mem _ he)
    cases e with
    | start q r => exact hby.elim
    | env e =>
      obtain ⟨hstate,hpool⟩ := step_env hu
      have hmove := henv e List.mem_cons_self _ _ hstate
      exact ih hlater hmoves (hpool ▸ hp) h (htrans _ _ _ hs hmove) hrest
    | act q =>
      obtain rfl : q = pid := hby
      obtain ⟨β,i,k,b,hk,hx,hpool⟩ := step_act hu
      obtain rfl : p = .step i k := Option.some.inj (hp.symm.trans hk)
      refine ih hlater hmoves (p := k b) ?_ (h _ hs _ _ hx) (hrefl _) hrest
      rw [hpool,Function.update_self]

def Meets (E : S.State → S.State → Prop) (w : World S) : Event S → Prop
  | .env e => ∀ t, S.env e w.state = some t → E w.state t
  | _ => True

theorem leaves_along {E : S.State → S.State → Prop} (hrefl : ∀ s, E s s)
    (htrans : ∀ s t u, E s t → E t u → E s u) {pid : Nat} {Q : S.Answer → S.State → Prop}
    {p : Prog S.Instr S.Answer} {w v : World S} {es : List (Event S)} {s : S.State}
    (hes : ∀ e ∈ es, e.By pid) (henv : Along (Meets E) w es) (hp : w.pool pid = some p)
    (h : p.Leaves (fun i => S.exec pid i) E Q s) (hs : E s w.state) (hv : w.run es = some v) :
    ∃ q t, v.pool pid = some q ∧ q.Leaves (fun i => S.exec pid i) E Q t ∧ E t v.state := by
  induction es generalizing w p s with
  | nil =>
    obtain rfl : w = v := Option.some.inj hv
    exact ⟨p,s,hp,h,hs⟩
  | cons e es ih =>
    obtain ⟨u,hu,hrest⟩ := Option.bind_eq_some_iff.mp hv
    have hby := hes e List.mem_cons_self
    have hlater : ∀ e ∈ es, e.By pid := fun e he => hes e (List.mem_cons_of_mem _ he)
    have hmoves := henv.2 u hu
    cases e with
    | start q r => exact hby.elim
    | env e =>
      obtain ⟨hstate,hpool⟩ := step_env hu
      exact ih hlater hmoves (hpool ▸ hp) h (htrans _ _ _ hs (henv.1 _ hstate)) hrest
    | act q =>
      obtain rfl : q = pid := hby
      obtain ⟨β,i,k,b,hk,hx,hpool⟩ := step_act hu
      obtain rfl : p = .step i k := Option.some.inj (hp.symm.trans hk)
      refine ih hlater hmoves (p := k b) ?_ (h _ hs _ _ hx) (hrefl _) hrest
      rw [hpool,Function.update_self]

end Interleave
