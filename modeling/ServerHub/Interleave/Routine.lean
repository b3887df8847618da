import ServerHub.Interleave.Discipline
import ServerHub.Interleave.Sequential
import ServerHub.Interleave.Transcript

namespace Interleave

namespace Prog

variable {ι : Type → Type} {α : Type}

structure Closed (R : {α : Type} → Prog ι α → Prop) : Prop where
  ret : ∀ {α : Type} (a : α), R (.ret a : Prog ι α)
  bind : ∀ {α γ : Type} {p : Prog ι α} {f : α → Prog ι γ}, R p → (∀ a, R (f a)) → R (p >>= f)

theorem Closed.each {R : {α : Type} → Prog ι α → Prop} (h : Closed R) {f : α → Prog ι Unit}
    {as : List α} (hf : ∀ a ∈ as, R (f a)) : R (each f as) := by
  induction as with
  | nil => exact h.ret ()
  | cons a as ih =>
    rw [each_cons]
    exact h.bind (hf a List.mem_cons_self) fun _ => ih fun b hb => hf b (List.mem_cons_of_mem a hb)

theorem closed_triple {σ : Type} (step : {β : Type} → ι β → σ → σ × β)
    (P : σ → {β : Type} → ι β → Prop) (I : σ → Prop) :
    Closed fun {_} p => Triple step P I p fun _ => I :=
  ⟨fun _ => triple_ret fun _ hs => hs,fun hp hf => triple_bind hp hf⟩

end Prog

theorem landing_and {S : System} {P T : Nat → S.State → {β : Type} → S.Instr β → Prop}
    {w : World S} {e : Event S} (h : Landing P w e ∧ Landing T w e) :
    Landing (fun pid s _ i => P pid s i ∧ T pid s i) w e := by
  cases e with
  | start pid r => trivial
  | act pid => exact fun β i k hw u b hx => ⟨h.1 β i k hw u b hx,h.2 β i k hw u b hx⟩
  | env e => trivial

theorem along_cons {S : System} {C : World S → Event S → Prop} {w v : World S} {e : Event S}
    {es : List (Event S)} (hs : w.step e = some v) (hc : C w e) (h : Along C v es) :
    Along C w (e :: es) := by
  refine ⟨hc,fun u hu => ?_⟩
  obtain rfl : v = u := Option.some.inj (hs.symm.trans hu)
  exact h

theorem landing_act {S : System} {P : Nat → S.State → {β : Type} → S.Instr β → Prop} {w : World S}
    {pid : Nat} {β : Type} {i : S.Instr β} {k : β → Prog S.Instr S.Answer}
    (hp : w.pool pid = some (.step i k)) (h : P pid w.state i) : Landing P w (.act pid) := by
  intro β' i' k' hk _ _ _
  rw [hp,Option.some.injEq,Prog.step.injEq] at hk
  obtain ⟨rfl,hi,-⟩ := hk
  obtain rfl := eq_of_heq hi
  exact h

theorem landed {S : System} {P : Nat → S.State → {β : Type} → S.Instr β → Prop}
    {I : S.State → Prop} {w v : World S} {es : List (Event S)}
    (hexec : ∀ pid s {β : Type} (i : S.Instr β) t b, I s → P pid s i →
      S.exec pid i s = some (t,b) → I t)
    (henv : ∀ e s t, I s → S.env e s = some t → I t) (h0 : I w.state)
    (hc : Along (Landing P) w es) (hv : w.run es = some v) : I v.state := by
  refine along_invariant (I := fun w => I w.state) (fun w e v hw hce hs => ?_) h0 hc hv
  cases e with
  | start pid r =>
    obtain ⟨-,hst,-⟩ := step_start hs
    exact hst ▸ hw
  | act pid =>
    obtain ⟨β,i,k,b,hp,hx,-⟩ := step_act hs
    exact hexec pid w.state i v.state b hw (hce β i k hp v.state b hx) hx
  | env e => exact henv e w.state v.state hw (step_env hs).1

theorem along_landed {S : System} {P T : Nat → S.State → {β : Type} → S.Instr β → Prop}
    {I : S.State → Prop} {w : World S} {es : List (Event S)}
    (hexec : ∀ pid s {β : Type} (i : S.Instr β) t b, I s → P pid s i →
      S.exec pid i s = some (t,b) → I t)
    (henv : ∀ e s t, I s → S.env e s = some t → I t)
    (hallowed : ∀ pid s {β : Type} (i : S.Instr β), I s → P pid s i → T pid s i) (h0 : I w.state)
    (hc : Along (Landing P) w es) : Along (Landing T) w es := by
  refine along_of_split fun xs e ys u he hu => ?_
  obtain ⟨hbefore,hrest⟩ := along_append (he ▸ hc) hu
  have hu : I u.state := landed hexec henv h0 hbefore hu
  cases e with
  | start pid r => trivial
  | act pid => exact fun β i k hw t b hx => hallowed pid u.state i hu (hrest.1 β i k hw t b hx)
  | env e => trivial

theorem acts_extend {S : System} {N : Type}
    {note : (β : Type) → S.Instr β → S.State → β → Option N} {pid : Nat}
    {w v : World (S.observe note)} {es : List (Event (S.observe note))}
    (h : ∀ e ∈ es, e = .act pid) (hv : w.run es = some v) :
    (∃ recent, v.state.log = recent ++ w.state.log ∧ ∀ e ∈ recent, e.1 = pid) ∧
      ∀ q, q ≠ pid → v.pool q = w.pool q := by
  induction es generalizing w with
  | nil =>
    obtain rfl := Option.some.inj hv
    exact ⟨⟨[],rfl,by simp⟩,fun _ _ => rfl⟩
  | cons e es ih =>
    obtain rfl := h e List.mem_cons_self
    obtain ⟨u,hu,hrest⟩ := Option.bind_eq_some_iff.mp hv
    obtain ⟨⟨recent,hlog,hmine⟩,hpool⟩ := ih (fun e he => h e (List.mem_cons_of_mem _ he)) hrest
    obtain ⟨β,i,k,b,-,hx,hstep⟩ := step_act hu
    have hgrown := (exec_observe hx).2
    refine ⟨?_,fun q hq => ?_⟩
    · rw [hgrown] at hlog
      cases hn : note β i w.state.state b with
      | none =>
        rw [hn] at hlog
        exact ⟨recent,hlog,hmine⟩
      | some n =>
        rw [hn] at hlog
        refine ⟨recent ++ [(pid,n)],by simp [hlog,record],fun e he => ?_⟩
        rcases List.mem_append.mp he with he | he
        · exact hmine e he
        · rw [List.mem_singleton.mp he]
    · rw [hpool q hq,hstep,Function.update_of_ne hq]

theorem solo_extend {S : System} {N : Type}
    {note : (β : Type) → S.Instr β → S.State → β → Option N} {s : S.State} {pid : Nat}
    {r : S.Request} {before after : List (Event (S.observe note))} {w v : World (S.observe note)}
    (hv : (begun s).run (before ++ .start pid r :: after) = some v)
    (hw : (begun s).run before = some w) (h : ∀ e ∈ after, e = .act pid) :
    ∃ recent, v.state.log = recent ++ w.state.log ∧ (∀ e ∈ recent, e.1 = pid) ∧
      recent.map Prod.snd = notesOf pid v.state.log ∧ ∀ q, q ≠ pid → v.pool q = w.pool q := by
  rw [run_append,hw,Option.bind_some,World.run,Option.bind_eq_some_iff] at hv
  obtain ⟨u,hstart,hrest⟩ := hv
  obtain ⟨hnone,hstate,hpool⟩ := step_start hstart
  obtain ⟨⟨recent,hlog,hmine⟩,hothers⟩ := acts_extend h hrest
  rw [hstate] at hlog
  refine ⟨recent,hlog,hmine,?_,fun q hq => ?_⟩
  · have hold : own pid w.state.log = [] := unseen_run hw pid hnone
    have hown : own pid recent = recent :=
      List.filter_eq_self.mpr fun e he => beq_iff_eq.mpr (hmine e he)
    rw [hlog,notesOf,own,List.filter_append]
    show _ = (own pid recent ++ own pid w.state.log).map Prod.snd
    rw [hown,hold,List.append_nil]
  · rw [hothers q hq,hpool,Function.update_of_ne hq]

structure Ledger (S : System) {N : Type}
    (note : (β : Type) → S.Instr β → S.State → β → Option N) where
  Inv : Traced S.State N → Prop
  Allow : Nat → Traced S.State N → {β : Type} → S.Instr β → Prop
  Duty : Nat → Traced S.State N → {β : Type} → S.Instr β → Prop

namespace Ledger

variable {S : System} {N : Type} {note : (β : Type) → S.Instr β → S.State → β → Option N}
  (L : Ledger S note)

def discipline : Discipline (S.observe note) where
  Inv := L.Inv
  Rely pid x y := own pid y.log = own pid x.log
  Allow := L.Allow
  Duty := L.Duty
  rely_refl _ _ := rfl
  rely_trans _ _ _ _ h k := k.trans h

def Tells (pid : Nat) {α : Type} (J : List N → Prop) (p : Prog S.Instr α) (Q : α → List N → Prop) :
    Prop :=
  ∀ x, L.Inv x → J (notesOf pid x.log) →
    L.discipline.Safe pid (fun a y => Q a (notesOf pid y.log)) p x

variable {L} {pid : Nat} {α β γ : Type} {J K : List N → Prop} {Q : α → List N → Prop}

theorem notesOf_own {log log' : List (Nat × N)} (h : own pid log' = own pid log) :
    notesOf pid log' = notesOf pid log := by
  rw [notesOf,h,notesOf]

theorem tells_ret {a : α} (h : ∀ ns, J ns → Q a ns) : L.Tells pid J (.ret a) Q :=
  fun _ _ hJ => h _ hJ

theorem tells_bind {p : Prog S.Instr α} {f : α → Prog S.Instr γ} {R : γ → List N → Prop}
    (hp : L.Tells pid J p Q) (hf : ∀ a, L.Tells pid (Q a) (f a) R) :
    L.Tells pid J (p >>= f) R :=
  fun x hx hJ => Discipline.Safe.bind hx (hp x hx hJ) fun a y hy hq => hf a y hy hq

theorem tells_mono {p : Prog S.Instr α} {R : α → List N → Prop} (hJ : ∀ ns, K ns → J ns)
    (hQ : ∀ a ns, Q a ns → R a ns) (hp : L.Tells pid J p Q) : L.Tells pid K p R :=
  fun x hx hK => Discipline.Safe.mono (fun a _ _ h => hQ a _ h) hx (hp x hx (hJ _ hK))

theorem tells_perform {i : S.Instr β} {R : β → List N → Prop}
    (h : ∀ x t b, L.Inv x → J (notesOf pid x.log) → L.Allow pid x i →
      S.exec pid i x.state = some (t,b) → L.Duty pid x i ∧
        L.Inv ⟨t,record pid x.log (note β i x.state b)⟩ ∧
        R b ((note β i x.state b).toList ++ notesOf pid x.log)) :
    L.Tells pid J (.perform i) R := by
  intro x hx hJ t hrely ht hallow y b hexec
  obtain ⟨hstate,hlog⟩ := exec_observe hexec
  have hnotes : notesOf pid t.log = notesOf pid x.log := notesOf_own hrely
  obtain ⟨hduty,hinv,hR⟩ := h t y.state b ht (hnotes ▸ hJ) hallow hstate
  rw [← hlog] at hinv
  refine ⟨hduty,⟨hinv,fun q hq => ?_⟩,?_⟩
  · show own q y.log = own q t.log
    rw [hlog,own_record pid _ _ hq]
  · show R b (notesOf pid y.log)
    rw [hlog,notesOf_record]
    exact hR

theorem tells_each {f : α → Prog S.Instr Unit} {K : List α → List N → Prop} {as : List α}
    (h : ∀ a rest, L.Tells pid (K (a :: rest)) (f a) fun _ => K rest) :
    L.Tells pid (K as) (Prog.each f as) fun _ => K [] := by
  induction as with
  | nil => exact tells_ret fun _ hK => hK
  | cons a as ih =>
    rw [Prog.each_cons]
    exact tells_bind (h a as) fun _ => ih

theorem tells_exists {κ : Type} {J : κ → List N → Prop} {p : Prog S.Instr α}
    (h : ∀ c, L.Tells pid (J c) p Q) : L.Tells pid (fun ns => ∃ c, J c ns) p Q :=
  fun x hx ⟨c,hJ⟩ => h c x hx hJ

theorem tells_given {φ : Prop} {p : Prog S.Instr α} (h : φ → L.Tells pid J p Q) :
    L.Tells pid (fun ns => J ns ∧ φ) p Q :=
  fun x hx hJ => h hJ.2 x hx hJ.1

theorem tells_ite {c : Prop} [Decidable c] {p q : Prog S.Instr α} (hp : c → L.Tells pid J p Q)
    (hq : ¬c → L.Tells pid J q Q) : L.Tells pid J (if c then p else q) Q := by
  split
  · exact hp ‹c›
  · exact hq ‹¬c›

theorem closed_tells (L : Ledger S note) (pid : Nat) (J : List N → Prop) :
    Prog.Closed fun {_} p => L.Tells pid J p fun _ => J :=
  ⟨fun _ => tells_ret fun _ hJ => hJ,fun hp hf => tells_bind hp hf⟩

section Runs

variable {R : Nat → S.Request → S.Answer → List N → Prop} {s : S.State}
  {es : List (Event (S.observe note))} {v : World (S.observe note)}
  (hreq : ∀ pid r, .start pid r ∈ es → L.Tells pid (· = []) (S.handle r) (R pid r))
  (henv : ∀ e x y, L.Inv x → (S.observe note).env e x = some y → L.Inv y)

include hreq in
theorem safe_handle (pid : Nat) (r : S.Request) (x : Traced S.State N) (hm : .start pid r ∈ es)
    (hx : L.Inv x) (ho : own pid x.log = []) :
    L.discipline.Safe pid (fun a y => R pid r a (notesOf pid y.log)) (S.handle r) x := by
  refine hreq pid r hm x hx ?_
  rw [notesOf,ho]
  rfl

theorem stable_notes (pid : Nat) (r : S.Request) (a : S.Answer) (x y : Traced S.State N)
    (hrely : L.discipline.Rely pid x y) (h : R pid r a (notesOf pid x.log)) :
    R pid r a (notesOf pid y.log) := by
  rw [notesOf_own hrely]
  exact h

include henv in
theorem env_kept (e : S.Env) (x y : Traced S.State N) (hx : L.Inv x)
    (he : (S.observe note).env e x = some y) : L.Inv y ∧ ∀ pid, L.discipline.Rely pid x y := by
  refine ⟨henv e x y hx he,fun pid => ?_⟩
  show own pid y.log = own pid x.log
  rw [(env_observe he).2]

include hreq henv

theorem told (h0 : L.Inv ⟨s,[]⟩) (hc : Along (Landing L.Allow) (begun s) es)
    (hv : (begun s).run es = some v) :
    L.Inv v.state ∧ ∀ pid r a, .start pid r ∈ es → v.pool pid = some (.ret a) →
      R pid r a (notesOf pid v.state.log) :=
  observed (D := L.discipline) (safe_handle hreq) stable_notes (env_kept henv) h0 hc hv

theorem told_duty (h0 : L.Inv ⟨s,[]⟩) (hc : Along (Landing L.Allow) (begun s) es) :
    Along (Landing L.Duty) (begun s) es :=
  observed_duty (D := L.discipline) (safe_handle hreq) stable_notes (env_kept henv) h0 hc

end Runs

end Ledger

end Interleave
