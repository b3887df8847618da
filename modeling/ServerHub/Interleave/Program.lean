import Mathlib.Logic.Function.Basic
import Mathlib.Data.List.Basic

namespace Interleave

inductive Prog (ι : Type → Type) (α : Type) : Type 1 where
  | ret (a : α) : Prog ι α
  | step {β : Type} (i : ι β) (k : β → Prog ι α) : Prog ι α

namespace Prog

variable {ι : Type → Type} {α β γ : Type}

def bind : Prog ι α → (α → Prog ι γ) → Prog ι γ
  | .ret a, f => f a
  | .step i k, f => .step i fun b => (k b).bind f

instance : Monad (Prog ι) where
  pure := .ret
  bind := bind

def perform (i : ι β) : Prog ι β := .step i .ret

def each (f : α → Prog ι Unit) : List α → Prog ι Unit
  | [] => .ret ()
  | a :: as => (f a).bind fun _ => each f as

def collect (f : α → Prog ι β) : List α → Prog ι (List β)
  | [] => .ret []
  | a :: as => (f a).bind fun b => (collect f as).bind fun bs => .ret (b :: bs)

@[simp] theorem pure_eq (a : α) : (pure a : Prog ι α) = .ret a := rfl

@[simp] theorem step_bind (i : ι β) (k : β → Prog ι α) (f : α → Prog ι γ) :
    Prog.step i k >>= f = Prog.step i fun b => k b >>= f := rfl

@[simp] theorem each_nil (f : α → Prog ι Unit) : each f [] = .ret () := rfl

@[simp] theorem collect_nil (f : α → Prog ι β) : collect f [] = .ret [] := rfl

theorem collect_cons (f : α → Prog ι β) (a : α) (as : List α) :
    collect f (a :: as) = f a >>= fun b => collect f as >>= fun bs => .ret (b :: bs) := rfl

@[simp] theorem each_cons (f : α → Prog ι Unit) (a : α) (as : List α) :
    each f (a :: as) = f a >>= fun _ => each f as := rfl

section Uses

variable (P : {β : Type} → ι β → Prop)

def Uses : Prog ι α → Prop
  | .ret _ => True
  | .step i k => P i ∧ ∀ b, Uses (k b)

variable {P}

theorem uses_perform {i : ι β} (h : P i) : (perform i).Uses P := ⟨h,fun _ => trivial⟩

theorem uses_mono {T : {β : Type} → ι β → Prop} (h : ∀ {β : Type} (i : ι β), P i → T i)
    {p : Prog ι α} (hp : p.Uses P) : p.Uses T := by
  induction p with
  | ret a => trivial
  | step i k ih => exact ⟨h i hp.1,fun b => ih b (hp.2 b)⟩

theorem uses_bind {p : Prog ι α} {f : α → Prog ι γ} (hp : p.Uses P) (hf : ∀ a, (f a).Uses P) :
    (p >>= f).Uses P := by
  induction p with
  | ret a => exact hf a
  | step i k ih => exact ⟨hp.1,fun b => ih b (hp.2 b)⟩

theorem uses_each {f : α → Prog ι Unit} {as : List α} (hf : ∀ a ∈ as, (f a).Uses P) :
    (each f as).Uses P := by
  induction as with
  | nil => trivial
  | cons a as ih =>
    exact uses_bind (hf a List.mem_cons_self) fun _ => ih fun b hb => hf b (List.mem_cons_of_mem a hb)

theorem uses_collect {f : α → Prog ι β} {as : List α} (hf : ∀ a ∈ as, (f a).Uses P) :
    (collect f as).Uses P := by
  induction as with
  | nil => trivial
  | cons a as ih =>
    rw [collect_cons]
    refine uses_bind (hf a List.mem_cons_self) fun b => ?_
    exact uses_bind (ih fun b hb => hf b (List.mem_cons_of_mem a hb)) fun _ => trivial

theorem uses_ite {c : Prop} [Decidable c] {p q : Prog ι α} (hp : p.Uses P) (hq : q.Uses P) :
    (if c then p else q).Uses P := by
  split
  · exact hp
  · exact hq

end Uses

variable {σ : Type}

def alone (exec : {β : Type} → ι β → σ → Option (σ × β)) : Prog ι α → σ → Option (σ × α)
  | .ret a, s => some (s,a)
  | .step i k, s => (exec i s).bind fun r => alone exec (k r.2) r.1

variable {exec : {β : Type} → ι β → σ → Option (σ × β)}

@[simp] theorem alone_ret (a : α) (s : σ) :
    alone exec (.ret a : Prog ι α) s = some (s,a) := rfl

@[simp] theorem alone_step (i : ι β) (k : β → Prog ι α) (s : σ) :
    alone exec (.step i k) s = (exec i s).bind fun r => alone exec (k r.2) r.1 := rfl

@[simp] theorem alone_perform (i : ι β) (s : σ) : alone exec (perform i) s = exec i s := by
  simp only [perform,alone_step,alone_ret]
  cases exec i s <;> rfl

theorem alone_bind (p : Prog ι α) (f : α → Prog ι γ) (s : σ) :
    alone exec (p >>= f) s = (alone exec p s).bind fun r => alone exec (f r.2) r.1 := by
  induction p generalizing s with
  | ret a => rfl
  | step i k ih =>
    simp only [step_bind,alone_step]
    cases exec i s with
    | none => rfl
    | some r => exact ih r.2 r.1

theorem alone_total {P : {β : Type} → ι β → Prop} {I : σ → Prop}
    (h : ∀ s, I s → ∀ {β : Type} (i : ι β), P i → ∃ t b, exec i s = some (t,b) ∧ I t)
    {p : Prog ι α} (hp : p.Uses P) {s : σ} (hs : I s) :
    ∃ t a, alone exec p s = some (t,a) ∧ I t := by
  induction p generalizing s with
  | ret a => exact ⟨s,a,rfl,hs⟩
  | step i k ih =>
    obtain ⟨t,b,hx,ht⟩ := h s hs i hp.1
    obtain ⟨u,a,hu,hi⟩ := ih b (hp.2 b) ht
    exact ⟨u,a,by simp [hx,hu],hi⟩

end Prog

structure System where
  Instr : Type → Type
  State : Type
  Request : Type
  Answer : Type
  Env : Type
  exec : Nat → {β : Type} → Instr β → State → Option (State × β)
  handle : Request → Prog Instr Answer
  env : Env → State → Option State

structure World (S : System) where
  state : S.State
  pool : Nat → Option (Prog S.Instr S.Answer)

inductive Event (S : System) where
  | start (pid : Nat) (r : S.Request)
  | act (pid : Nat)
  | env (e : S.Env)

variable {S : System}

def World.idle (s : S.State) : World S := ⟨s,fun _ => none⟩

def World.step (w : World S) : Event S → Option (World S)
  | .start pid r =>
      match w.pool pid with
      | none => some ⟨w.state,Function.update w.pool pid (some (S.handle r))⟩
      | some _ => none
  | .act pid =>
      match w.pool pid with
      | some (.step i k) => (S.exec pid i w.state).map fun r =>
          ⟨r.1,Function.update w.pool pid (some (k r.2))⟩
      | _ => none
  | .env e => (S.env e w.state).map fun s => ⟨s,w.pool⟩

def World.run (w : World S) : List (Event S) → Option (World S)
  | [] => some w
  | e :: es => (w.step e).bind fun v => v.run es

def World.answer (w : World S) (pid : Nat) : Option S.Answer :=
  match w.pool pid with
  | some (.ret a) => some a
  | _ => none

def World.returned (w : World S) (pid : Nat) : Bool := (w.answer pid).isSome

def Along (C : World S → Event S → Prop) (w : World S) : List (Event S) → Prop
  | [] => True
  | e :: es => C w e ∧ ∀ v, w.step e = some v → Along C v es

def Landing (P : Nat → S.State → {β : Type} → S.Instr β → Prop) (w : World S) : Event S → Prop
  | .act pid => ∀ (β : Type) (i : S.Instr β) (k : β → Prog S.Instr S.Answer),
      w.pool pid = some (.step i k) → ∀ u b, S.exec pid i w.state = some (u,b) → P pid w.state i
  | _ => True

def Changes (P : S.State → S.State → Prop) (w : World S) (e : Event S) : Prop :=
  ∀ v, w.step e = some v → P w.state v.state

instance alongDecidable (C : World S → Event S → Prop) [h : ∀ w e, Decidable (C w e)] :
    (w : World S) → (es : List (Event S)) → Decidable (Along C w es)
  | _, [] => isTrue trivial
  | w, e :: es =>
      match h w e, hs : w.step e with
      | isFalse n, _ => isFalse fun k => n k.1
      | isTrue y, none => isTrue ⟨y,fun v hv => by simp [hs] at hv⟩
      | isTrue y, some v =>
          match alongDecidable C v es with
          | isTrue z => isTrue ⟨y,fun u hu => by
              obtain rfl : v = u := Option.some.inj (hs.symm.trans hu)
              exact z⟩
          | isFalse n => isFalse fun k => n (k.2 v hs)

instance landingDecidable (P : Nat → S.State → {β : Type} → S.Instr β → Prop)
    [h : ∀ pid s (β : Type) (i : S.Instr β), Decidable (P pid s i)] (w : World S) :
    (e : Event S) → Decidable (Landing P w e)
  | .start _ _ => isTrue trivial
  | .env _ => isTrue trivial
  | .act pid =>
      match hp : w.pool pid with
      | none => isTrue fun β i k hk => by simp [hp] at hk
      | some (.ret _) => isTrue fun β i k hk => by simp [hp] at hk
      | some (.step (β := β) i k) =>
          match hx : S.exec pid i w.state with
          | none => isTrue fun β' i' k' hk u b hu => by
              rw [hp,Option.some.injEq,Prog.step.injEq] at hk
              obtain ⟨rfl,hi,-⟩ := hk
              obtain rfl := eq_of_heq hi
              simp [hx] at hu
          | some (u,b) =>
              match h pid w.state β i with
              | isTrue y => isTrue fun β' i' k' hk _ _ _ => by
                  rw [hp,Option.some.injEq,Prog.step.injEq] at hk
                  obtain ⟨rfl,hi,-⟩ := hk
                  obtain rfl := eq_of_heq hi
                  exact y
              | isFalse n => isFalse fun l => n (l β i k hp u b hx)

instance changesDecidable (P : S.State → S.State → Prop) [h : ∀ s t, Decidable (P s t)]
    (w : World S) (e : Event S) : Decidable (Changes P w e) :=
  match hs : w.step e with
  | none => isTrue fun v hv => by simp [hs] at hv
  | some v =>
      match h w.state v.state with
      | isTrue y => isTrue fun u hu => by
          obtain rfl : v = u := Option.some.inj (hs.symm.trans hu)
          exact y
      | isFalse n => isFalse fun k => n (k v hs)

theorem run_append (w : World S) (xs ys : List (Event S)) :
    w.run (xs ++ ys) = (w.run xs).bind fun v => v.run ys := by
  induction xs generalizing w with
  | nil => rfl
  | cons e xs ih =>
    simp only [List.cons_append,World.run,Option.bind_assoc]
    cases w.step e with
    | none => rfl
    | some v => exact ih v

theorem along_append {C : World S → Event S → Prop} {w v : World S} {xs ys : List (Event S)}
    (h : Along C w (xs ++ ys)) (hr : w.run xs = some v) : Along C w xs ∧ Along C v ys := by
  induction xs generalizing w with
  | nil =>
    simp only [World.run,Option.some.injEq] at hr
    subst hr
    exact ⟨trivial,h⟩
  | cons e xs ih =>
    simp only [World.run,Option.bind_eq_some_iff] at hr
    obtain ⟨u,hu,hr⟩ := hr
    refine ⟨⟨h.1,?_⟩,(ih (h.2 u hu) hr).2⟩
    intro u' hu'
    obtain rfl : u = u' := Option.some.inj (hu.symm.trans hu')
    exact (ih (h.2 u hu) hr).1

theorem along_invariant {C : World S → Event S → Prop} {I : World S → Prop}
    (hs : ∀ w e v, I w → C w e → w.step e = some v → I v)
    {w v : World S} {es : List (Event S)} (hw : I w) (hc : Along C w es)
    (hr : w.run es = some v) : I v := by
  induction es generalizing w with
  | nil =>
    simp only [World.run,Option.some.injEq] at hr
    exact hr ▸ hw
  | cons e es ih =>
    simp only [World.run,Option.bind_eq_some_iff] at hr
    obtain ⟨u,hu,hr⟩ := hr
    exact ih (hs w e u hw hc.1 hu) (hc.2 u hu) hr

theorem along_mono {C D : World S → Event S → Prop} {I : World S → Prop}
    (hs : ∀ w e v, I w → C w e → w.step e = some v → I v)
    (hd : ∀ w e, I w → C w e → D w e)
    {w : World S} {es : List (Event S)} (hw : I w) (hc : Along C w es) : Along D w es := by
  induction es generalizing w with
  | nil => trivial
  | cons e es ih =>
    refine ⟨hd w e hw hc.1,?_⟩
    intro v hv
    exact ih (hs w e v hw hc.1 hv) (hc.2 v hv)

theorem World.answer_eq {w : World S} {pid : Nat} {a : S.Answer} :
    w.answer pid = some a ↔ w.pool pid = some (.ret a) := by
  unfold World.answer
  split
  · rename_i b h
    rw [h,Option.some.injEq,Option.some.injEq,Prog.ret.injEq]
  · rename_i h
    exact ⟨(fun hf => nomatch hf),fun ha => absurd ha (h a)⟩

theorem World.returned_iff {w : World S} {pid : Nat} :
    w.returned pid = true ↔ ∃ a, w.pool pid = some (.ret a) := by
  rw [World.returned,Option.isSome_iff_exists]
  exact exists_congr fun a => World.answer_eq

theorem step_env {w v : World S} {e : S.Env} (h : w.step (.env e) = some v) :
    S.env e w.state = some v.state ∧ v.pool = w.pool := by
  simp only [World.step,Option.map_eq_some_iff] at h
  obtain ⟨s,hs,rfl⟩ := h
  exact ⟨hs,rfl⟩

theorem step_start {w v : World S} {pid : Nat} {r : S.Request}
    (h : w.step (.start pid r) = some v) :
    w.pool pid = none ∧ v.state = w.state ∧
      v.pool = Function.update w.pool pid (some (S.handle r)) := by
  cases hp : w.pool pid with
  | none =>
    simp only [World.step,hp,Option.some.injEq] at h
    subst h
    exact ⟨rfl,rfl,rfl⟩
  | some p => simp [World.step,hp] at h

theorem step_act {w v : World S} {pid : Nat} (h : w.step (.act pid) = some v) :
    ∃ (β : Type) (i : S.Instr β) (k : β → Prog S.Instr S.Answer) (b : β),
      w.pool pid = some (.step i k) ∧ S.exec pid i w.state = some (v.state,b) ∧
      v.pool = Function.update w.pool pid (some (k b)) := by
  cases hp : w.pool pid with
  | none => simp [World.step,hp] at h
  | some p =>
    cases p with
    | ret a => simp [World.step,hp] at h
    | step i k =>
      simp only [World.step,hp,Option.map_eq_some_iff] at h
      obtain ⟨⟨s,b⟩,hs,rfl⟩ := h
      exact ⟨_,i,k,b,rfl,hs,rfl⟩

theorem step_act_of {w v : World S} {pid : Nat} {β : Type} {i : S.Instr β}
    {k : β → Prog S.Instr S.Answer} (hp : w.pool pid = some (.step i k))
    (h : w.step (.act pid) = some v) :
    ∃ b, S.exec pid i w.state = some (v.state,b) ∧
      v.pool = Function.update w.pool pid (some (k b)) := by
  simp only [World.step,hp,Option.map_eq_some_iff] at h
  obtain ⟨⟨s,b⟩,hs,rfl⟩ := h
  exact ⟨b,hs,rfl⟩

theorem run_alone {w : World S} {pid : Nat} {p : Prog S.Instr S.Answer} {t : S.State}
    {a : S.Answer} (hp : w.pool pid = some p)
    (h : p.alone (fun i => S.exec pid i) w.state = some (t,a)) :
    ∃ n v, w.run (List.replicate n (.act pid)) = some v ∧ v.state = t ∧
      v.pool = Function.update w.pool pid (some (.ret a)) := by
  induction p generalizing w with
  | ret b =>
    simp only [Prog.alone_ret,Option.some.injEq,Prod.mk.injEq] at h
    refine ⟨0,w,rfl,h.1,?_⟩
    rw [← h.2,← hp,Function.update_eq_self]
  | step i k ih =>
    simp only [Prog.alone_step,Option.bind_eq_some_iff] at h
    obtain ⟨⟨u,b⟩,hx,h⟩ := h
    have hs : w.step (.act pid) = some ⟨u,Function.update w.pool pid (some (k b))⟩ := by
      simp [World.step,hp,hx]
    obtain ⟨n,v,hv,ht,hpool⟩ := ih b (w := ⟨u,Function.update w.pool pid (some (k b))⟩)
      (by simp) h
    refine ⟨n+1,v,?_,ht,?_⟩
    · simp [List.replicate_succ,World.run,hs,hv]
    · rw [hpool,Function.update_idem]

theorem along_and {C D : World S → Event S → Prop} {w : World S} {es : List (Event S)}
    (hc : Along C w es) (hd : Along D w es) : Along (fun w e => C w e ∧ D w e) w es := by
  induction es generalizing w with
  | nil => trivial
  | cons e es ih => exact ⟨⟨hc.1,hd.1⟩,fun v hv => ih (hc.2 v hv) (hd.2 v hv)⟩

theorem along_of_mem {C : World S → Event S → Prop} {es : List (Event S)}
    (h : ∀ e ∈ es, ∀ w, C w e) (w : World S) : Along C w es := by
  induction es generalizing w with
  | nil => trivial
  | cons e es ih =>
    exact ⟨h e List.mem_cons_self w,fun v _ => ih (fun a ha => h a (List.mem_cons_of_mem e ha)) v⟩

theorem along_of_split {C : World S → Event S → Prop} {w : World S} {es : List (Event S)}
    (h : ∀ xs e ys u, es = xs ++ e :: ys → w.run xs = some u → C u e) : Along C w es := by
  induction es generalizing w with
  | nil => trivial
  | cons e es ih =>
    refine ⟨h [] e es w rfl rfl,?_⟩
    intro v hv
    refine ih fun xs e' ys u he hu => h (e :: xs) e' ys u (by rw [he]; rfl) ?_
    simp only [World.run,hv,Option.bind_some]
    exact hu

theorem along_imp {C D : World S → Event S → Prop} (h : ∀ w e, C w e → D w e)
    {w : World S} {es : List (Event S)} (hc : Along C w es) : Along D w es := by
  induction es generalizing w with
  | nil => trivial
  | cons e es ih => exact ⟨h w e hc.1,fun v hv => ih (hc.2 v hv)⟩

theorem changes_run {P : S.State → S.State → Prop} (hrefl : ∀ s, P s s)
    (htrans : ∀ s t u, P s t → P t u → P s u) {w v : World S} {es : List (Event S)}
    (hc : Along (Changes P) w es) (hr : w.run es = some v) : P w.state v.state := by
  induction es generalizing w with
  | nil =>
    simp only [World.run,Option.some.injEq] at hr
    exact hr ▸ hrefl w.state
  | cons e es ih =>
    simp only [World.run,Option.bind_eq_some_iff] at hr
    obtain ⟨u,hu,hr⟩ := hr
    exact htrans _ _ _ (hc.1 u hu) (ih (hc.2 u hu) hr)

theorem changes_of_landing {P : S.State → S.State → Prop} {w : World S} {e : Event S}
    (hrefl : ∀ s, P s s) (henv : ∀ e s t, S.env e s = some t → P s t)
    (hact : ∀ pid, e = .act pid → ∀ (β : Type) (i : S.Instr β) (k : β → Prog S.Instr S.Answer)
      (t : S.State) (b : β), w.pool pid = some (.step i k) →
      S.exec pid i w.state = some (t,b) → P w.state t) : Changes P w e := by
  intro v hv
  cases e with
  | start pid r => exact (step_start hv).2.1 ▸ hrefl w.state
  | act pid =>
    obtain ⟨β,i,k,b,hp,hx,-⟩ := step_act hv
    exact hact pid rfl β i k v.state b hp hx
  | env e => exact henv e _ _ (step_env hv).1

end Interleave
