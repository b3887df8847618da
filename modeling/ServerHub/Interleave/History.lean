import Mathlib.Data.List.Pairwise
import ServerHub.Interleave.Program

namespace Interleave

structure Traced (σ N : Type) where
  state : σ
  log : List (Nat × N)

section Log

variable {N : Type}

def record (pid : Nat) (log : List (Nat × N)) : Option N → List (Nat × N)
  | none => log
  | some n => (pid,n) :: log

def own (pid : Nat) (log : List (Nat × N)) : List (Nat × N) := log.filter fun e => e.1 == pid

def lastOwn (p : N → Bool) (pid : Nat) : List (Nat × N) → Option N
  | [] => none
  | (q,n) :: log => if q = pid ∧ p n = true then some n else lastOwn p pid log

def overtaken (mine theirs : N → Bool) (pid : Nat) : List (Nat × N) → Bool
  | [] => false
  | (q,n) :: log => if q = pid ∧ mine n = true then false
      else (q != pid && theirs n) || overtaken mine theirs pid log

def standing (mine theirs : N → Bool) (pid : Nat) : List (Nat × N) → Option N
  | [] => none
  | (q,n) :: log => if q = pid ∧ mine n = true then some n
      else if theirs n then none else standing mine theirs pid log

section Standing

variable {mine theirs : N → Bool} {pid q : Nat} {n : N} {log : List (Nat × N)}

theorem standing_mine (h : mine n = true) :
    standing mine theirs pid ((pid,n) :: log) = some n := by
  simp [standing,h]

theorem standing_theirs (hm : mine n = false) (ht : theirs n = true) :
    standing mine theirs pid ((q,n) :: log) = none := by
  simp [standing,hm,ht]

theorem standing_other (hm : q ≠ pid ∨ mine n = false) (ht : theirs n = false) :
    standing mine theirs pid ((q,n) :: log) = standing mine theirs pid log := by
  rcases hm with hm | hm <;> simp [standing,hm,ht]

theorem standing_mem (h : standing mine theirs pid log = some n) :
    (pid,n) ∈ own pid log ∧ mine n = true := by
  induction log with
  | nil => exact nomatch h
  | cons e log ih =>
    obtain ⟨q,m⟩ := e
    have later : standing mine theirs pid log = some n →
        (pid,n) ∈ own pid ((q,m) :: log) ∧ mine n = true := by
      intro hs
      obtain ⟨hown,hmine⟩ := ih hs
      obtain ⟨hlog,hid⟩ := List.mem_filter.mp hown
      exact ⟨List.mem_filter.mpr ⟨List.mem_cons_of_mem _ hlog,hid⟩,hmine⟩
    simp only [standing] at h
    split at h
    · rename_i hc
      obtain rfl := Option.some.inj h
      exact ⟨List.mem_filter.mpr ⟨by simp [hc.1],by simp⟩,hc.2⟩
    · split at h
      · exact nomatch h
      · exact later h

theorem standing_lastOwn (h : standing mine theirs pid log = some n) :
    lastOwn mine pid log = some n := by
  induction log with
  | nil => exact nomatch h
  | cons e log ih =>
    obtain ⟨q,m⟩ := e
    simp only [standing,lastOwn] at h ⊢
    split at h
    · rename_i hc
      rw [if_pos hc]
      exact h
    · rename_i hc
      rw [if_neg hc]
      split at h
      · exact nomatch h
      · exact ih h

end Standing

theorem suffix_record (pid : Nat) (log : List (Nat × N)) (n : Option N) :
    log <:+ record pid log n := by
  cases n with
  | none => exact List.suffix_rfl
  | some n => exact List.suffix_cons _ _

theorem apart_unique {α β κ : Type} {holds : α → β → Prop} {key : β → κ} {l : List α}
    (h : l.Pairwise fun a b => ∀ r r', holds a r → holds b r' → key r ≠ key r') {a b : α} {r r' : β}
    (ha : a ∈ l) (hb : b ∈ l) (hr : holds a r) (hr' : holds b r') (hk : key r = key r') : a = b := by
  let R : α → α → Prop := fun a b => ∀ r r', holds a r → holds b r' → key r ≠ key r'
  have hsymm : Std.Symm R := ⟨fun a b hab r r' hr hr' hk => hab r' r hr' hr hk.symm⟩
  have hall : l.Pairwise R := h
  by_contra hne
  exact hall.forall ha hb hne r r' hr hr' hk

theorem own_record (pid : Nat) (log : List (Nat × N)) (n : Option N) {q : Nat} (h : q ≠ pid) :
    own q (record pid log n) = own q log := by
  cases n with
  | none => rfl
  | some n =>
    have hne : pid ≠ q := fun e => h e.symm
    simp [own,record,hne]

theorem lastOwn_eq_find (p : N → Bool) (pid : Nat) (log : List (Nat × N)) :
    lastOwn p pid log = ((own pid log).find? fun e => p e.2).map Prod.snd := by
  induction log with
  | nil => rfl
  | cons e log ih =>
    obtain ⟨q,n⟩ := e
    simp only [lastOwn,own,List.filter_cons]
    by_cases hq : q = pid
    · by_cases hp : p n = true
      · simp [hq,hp]
      · simpa [hq,hp,own] using ih
    · simpa [hq,own] using ih

theorem lastOwn_congr {p : N → Bool} {pid : Nat} {log log' : List (Nat × N)}
    (h : own pid log' = own pid log) : lastOwn p pid log' = lastOwn p pid log := by
  rw [lastOwn_eq_find,lastOwn_eq_find,h]

theorem lastOwn_record {p : N → Bool} {pid : Nat} {log : List (Nat × N)} {n : Option N}
    (h : ∀ m, n = some m → p m = false) :
    lastOwn p pid (record pid log n) = lastOwn p pid log := by
  cases n with
  | none => rfl
  | some m => simp [record,lastOwn,h m rfl]

section Outstanding

variable {α : Type} (grants : N → List α) (releases : N → α → Bool)

def outstanding (pid : Nat) : List (Nat × N) → List α
  | [] => []
  | (q,n) :: log => if q = pid then
      grants n ++ (outstanding pid log).filter fun a => !releases n a
    else outstanding pid log

def Idle (log : List (Nat × N)) : Prop := ∀ e ∈ log, outstanding grants releases e.1 log = []

variable {grants releases} {pid q : Nat} {log log' : List (Nat × N)}

theorem outstanding_own :
    outstanding grants releases pid log = outstanding grants releases pid (own pid log) := by
  induction log with
  | nil => rfl
  | cons e log ih =>
    obtain ⟨q,n⟩ := e
    by_cases hq : q = pid
    · have hown : own pid ((q,n) :: log) = (q,n) :: own pid log := by simp [own,hq]
      rw [hown]
      simp only [outstanding,ih]
    · have hown : own pid ((q,n) :: log) = own pid log := by simp [own,hq]
      rw [hown]
      simp only [outstanding,if_neg hq,ih]

theorem outstanding_congr (h : own pid log' = own pid log) :
    outstanding grants releases pid log' = outstanding grants releases pid log := by
  rw [outstanding_own,h,← outstanding_own]

theorem outstanding_unlogged (h : own pid log = []) : outstanding grants releases pid log = [] := by
  rw [outstanding_own,h]
  rfl

theorem outstanding_grant {n : N} (h : ∀ a, releases n a = false) :
    outstanding grants releases pid ((pid,n) :: log) =
      grants n ++ outstanding grants releases pid log := by
  simp [outstanding,h]

theorem outstanding_first {n : N} (h : ∀ a, releases n a = false)
    (hnone : outstanding grants releases pid log = []) :
    outstanding grants releases pid ((pid,n) :: log) = grants n := by
  rw [outstanding_grant h,hnone,List.append_nil]

theorem outstanding_release {n : N} (h : grants n = []) :
    outstanding grants releases pid ((pid,n) :: log) =
      (outstanding grants releases pid log).filter fun a => !releases n a := by
  simp [outstanding,h]

theorem outstanding_other {n : N} (h : q ≠ pid) :
    outstanding grants releases q ((pid,n) :: log) = outstanding grants releases q log := by
  simp [outstanding,Ne.symm h]

theorem outstanding_silent {n : N} (hg : grants n = []) (hr : ∀ a, releases n a = false) :
    outstanding grants releases q ((pid,n) :: log) = outstanding grants releases q log := by
  by_cases hq : q = pid
  · subst hq
    rw [outstanding_release hg]
    simp [hr]
  · exact outstanding_other hq

theorem mem_outstanding {a : α} (h : a ∈ outstanding grants releases pid log) :
    ∃ n, (pid,n) ∈ log ∧ a ∈ grants n := by
  induction log with
  | nil => exact nomatch h
  | cons e log ih =>
    obtain ⟨q,n⟩ := e
    have later : a ∈ outstanding grants releases pid log →
        ∃ m, (pid,m) ∈ (q,n) :: log ∧ a ∈ grants m := by
      intro hm
      obtain ⟨m,hlog,hg⟩ := ih hm
      exact ⟨m,List.mem_cons_of_mem _ hlog,hg⟩
    by_cases hq : q = pid
    · simp only [outstanding,if_pos hq] at h
      rcases List.mem_append.mp h with hg | hold
      · exact ⟨n,by rw [hq]; exact List.mem_cons_self,hg⟩
      · exact later (List.mem_filter.mp hold).1
    · simp only [outstanding,if_neg hq] at h
      exact later h

theorem Idle.outstanding (h : Idle grants releases log) (pid : Nat) :
    Interleave.outstanding grants releases pid log = [] := by
  by_cases hm : ∃ e ∈ log, e.1 = pid
  · obtain ⟨e,he,rfl⟩ := hm
    exact h e he
  · refine outstanding_unlogged (List.filter_eq_nil_iff.mpr fun e he hid => ?_)
    exact hm ⟨e,he,beq_iff_eq.mp hid⟩

end Outstanding

theorem standing_of_lastOwn {mine theirs : N → Bool} {pid : Nat} {log : List (Nat × N)} {y : N}
    (h : lastOwn (fun n => mine n || theirs n) pid log = some y) (hy : theirs y = false)
    (ho : overtaken mine theirs pid log = false) : standing mine theirs pid log = some y := by
  induction log with
  | nil => simp [lastOwn] at h
  | cons e log ih =>
    obtain ⟨q,n⟩ := e
    simp only [lastOwn,overtaken,standing,Bool.or_eq_true] at h ho ⊢
    by_cases hm : q = pid ∧ mine n = true
    · rw [if_pos ⟨hm.1,.inl hm.2⟩,Option.some.injEq] at h
      rw [if_pos hm,h]
    · rw [if_neg hm] at ho ⊢
      rw [Bool.or_eq_false_iff] at ho
      by_cases ht : theirs n = true
      · by_cases hq : q = pid
        · rw [if_pos ⟨hq,.inr ht⟩,Option.some.injEq] at h
          rw [h,hy] at ht
          simp at ht
        · have hf := ho.1
          simp [hq,ht] at hf
      · rw [if_neg (fun hc => hc.2.elim (fun hm' => hm ⟨hc.1,hm'⟩) ht)] at h
        rw [if_neg ht]
        exact ih h ho.2

theorem record_alone {pid : Nat} {log : List (Nat × N)} (h : ∀ e ∈ log, e.1 = pid)
    (n : Option N) : ∀ e ∈ record pid log n, e.1 = pid := by
  cases n with
  | none => exact h
  | some n =>
    intro e he
    rcases List.mem_cons.mp he with rfl | he
    · rfl
    · exact h e he

theorem not_overtaken_alone {mine theirs : N → Bool} {pid : Nat} {log : List (Nat × N)}
    (h : ∀ e ∈ log, e.1 = pid) : overtaken mine theirs pid log = false := by
  induction log with
  | nil => rfl
  | cons e log ih =>
    obtain ⟨q,n⟩ := e
    have hq : q = pid := h (q,n) (by simp)
    simp only [overtaken,hq,bne_self_eq_false,Bool.false_and,Bool.false_or]
    split
    · rfl
    · exact ih fun e he => h e (by simp [he])

end Log

section Watch

variable (S : System) {N : Type} (note : (β : Type) → S.Instr β → β → Option N)

def System.watch : System where
  Instr := S.Instr
  State := Traced S.State N
  Request := S.Request
  Answer := S.Answer
  Env := S.Env
  exec pid β i x := (S.exec pid i x.state).map fun r =>
    (⟨r.1,record pid x.log (note β i r.2)⟩,r.2)
  handle := S.handle
  env e x := (S.env e x.state).map fun t => ⟨t,x.log⟩

variable {S}

section Exec

variable {note}

theorem exec_watch {pid : Nat} {β : Type} {i : S.Instr β} {x y : Traced S.State N} {b : β}
    (h : (S.watch note).exec pid i x = some (y,b)) :
    S.exec pid i x.state = some (y.state,b) ∧ y.log = record pid x.log (note β i b) := by
  have hm : ((S.exec pid i x.state).map fun r =>
      ((⟨r.1,record pid x.log (note β i r.2)⟩ : Traced S.State N),r.2)) = some (y,b) := h
  rw [Option.map_eq_some_iff] at hm
  obtain ⟨⟨t,c⟩,hx,he⟩ := hm
  rw [Prod.mk.injEq] at he
  obtain ⟨rfl,rfl⟩ := he
  exact ⟨hx,rfl⟩

theorem env_watch {e : S.Env} {x y : Traced S.State N} (h : (S.watch note).env e x = some y) :
    S.env e x.state = some y.state ∧ y.log = x.log := by
  have hm : (S.env e x.state).map (fun t => (⟨t,x.log⟩ : Traced S.State N)) = some y := h
  rw [Option.map_eq_some_iff] at hm
  obtain ⟨t,ht,rfl⟩ := hm
  exact ⟨ht,rfl⟩

end Exec

def Unlogged (w : World (S.watch note)) : Prop := ∀ pid, w.pool pid = none → own pid w.state.log = []

section Unlogged

variable {note} {w v : World (S.watch note)} {e : Event (S.watch note)}

theorem unlogged_idle (s : S.State) : Unlogged note (World.idle ⟨s,[]⟩) := fun _ _ => rfl

theorem Unlogged.step (hw : Unlogged note w) (h : w.step e = some v) : Unlogged note v := by
  intro q hq
  cases e with
  | start pid r =>
    obtain ⟨-,hst,hpool⟩ := step_start h
    have hne : q ≠ pid := by
      rintro rfl
      simp [hpool] at hq
    rw [hpool,Function.update_of_ne hne] at hq
    exact hst ▸ hw q hq
  | act pid =>
    obtain ⟨β,i,k,b,-,hx,hpool⟩ := step_act h
    have hne : q ≠ pid := by
      rintro rfl
      simp [hpool] at hq
    rw [hpool,Function.update_of_ne hne] at hq
    rw [(exec_watch hx).2,own_record pid _ _ hne]
    exact hw q hq
  | env e =>
    obtain ⟨hx,hpool⟩ := step_env h
    rw [(env_watch hx).2]
    exact hw q (hpool ▸ hq)

end Unlogged

def World.traced (w : World S) (log : List (Nat × N)) : World (S.watch note) :=
  ⟨⟨w.state,log⟩,w.pool⟩

def Event.traced : Event S → Event (S.watch note)
  | .start pid r => .start pid r
  | .act pid => .act pid
  | .env e => .env e

theorem step_traced {w v : World S} {e : Event S} (h : w.step e = some v)
    (log : List (Nat × N)) :
    ∃ log', (w.traced note log).step (e.traced note) = some (v.traced note log') := by
  cases e with
  | start pid r =>
    obtain ⟨hp,hs,hpool⟩ := step_start h
    obtain ⟨vs,vp⟩ := v
    simp only at hs hpool
    subst hs hpool
    refine ⟨log,?_⟩
    simp only [Event.traced,World.step,World.traced,hp]
    rfl
  | act pid =>
    obtain ⟨β,i,k,b,hp,hx,hpool⟩ := step_act h
    obtain ⟨vs,vp⟩ := v
    simp only at hx hpool
    subst hpool
    refine ⟨record pid log (note β i b),?_⟩
    simp only [Event.traced,World.step,World.traced,hp,System.watch,hx,Option.map_some]
  | env e =>
    obtain ⟨hs,hpool⟩ := step_env h
    obtain ⟨vs,vp⟩ := v
    simp only at hs hpool
    subst hpool
    refine ⟨log,?_⟩
    simp only [Event.traced,World.step,World.traced,System.watch,hs,Option.map_some]

theorem step_untraced {w : World S} {v : World (S.watch note)} {e : Event S}
    {log : List (Nat × N)} (h : (w.traced note log).step (e.traced note) = some v) :
    ∃ u log', w.step e = some u ∧ v = u.traced note log' := by
  cases e with
  | start pid r =>
    obtain ⟨hp,hs,hpool⟩ := step_start h
    have hpn : w.pool pid = none := hp
    obtain ⟨vs,vp⟩ := v
    simp only at hs hpool
    subst hs hpool
    refine ⟨⟨w.state,Function.update w.pool pid (some (S.handle r))⟩,log,?_,rfl⟩
    simp [World.step,hpn]
  | act pid =>
    obtain ⟨β,i,k,b,hp,hx,hpool⟩ := step_act h
    obtain ⟨hex,hlog⟩ := exec_watch hx
    have hps : w.pool pid = some (.step i k) := hp
    have hxs : S.exec pid i w.state = some (v.state.state,b) := hex
    refine ⟨⟨v.state.state,Function.update w.pool pid (some (k b))⟩,v.state.log,?_,?_⟩
    · simp [World.step,hps,hxs]
    · obtain ⟨vs,vp⟩ := v
      simp only at hpool
      subst hpool
      rfl
  | env e =>
    obtain ⟨hs,hpool⟩ := step_env h
    obtain ⟨hex,hlog⟩ := env_watch hs
    have hes : S.env e w.state = some v.state.state := hex
    refine ⟨⟨v.state.state,w.pool⟩,v.state.log,?_,?_⟩
    · simp [World.step,hes]
    · obtain ⟨vs,vp⟩ := v
      simp only at hpool
      subst hpool
      rfl

theorem run_traced {w v : World S} {es : List (Event S)} (h : w.run es = some v)
    (log : List (Nat × N)) :
    ∃ log', (w.traced note log).run (es.map (Event.traced note)) = some (v.traced note log') := by
  induction es generalizing w log with
  | nil =>
    simp only [World.run,Option.some.injEq] at h
    exact ⟨log,by simp [World.run,h]⟩
  | cons e es ih =>
    simp only [World.run,Option.bind_eq_some_iff] at h
    obtain ⟨u,hu,h⟩ := h
    obtain ⟨l1,h1⟩ := step_traced note hu log
    obtain ⟨l2,h2⟩ := ih h l1
    exact ⟨l2,by simp [World.run,h1,h2]⟩

theorem along_traced {C : World S → Event S → Prop}
    {D : World (S.watch note) → Event (S.watch note) → Prop}
    (hcd : ∀ (w : World S) log e, C w e → D (w.traced note log) (e.traced note))
    {w : World S} {es : List (Event S)} (log : List (Nat × N)) (h : Along C w es) :
    Along D (w.traced note log) (es.map (Event.traced note)) := by
  induction es generalizing w log with
  | nil => trivial
  | cons e es ih =>
    refine ⟨hcd w log e h.1,?_⟩
    intro v hv
    obtain ⟨u,log',hu,rfl⟩ := step_untraced note hv
    exact ih log' (h.2 u hu)

theorem along_untraced {C : World S → Event S → Prop}
    {D : World (S.watch note) → Event (S.watch note) → Prop}
    (hcd : ∀ (w : World S) log e, D (w.traced note log) (e.traced note) → C w e)
    {w : World S} {es : List (Event S)} {log : List (Nat × N)}
    (h : Along D (w.traced note log) (es.map (Event.traced note))) : Along C w es := by
  induction es generalizing w log with
  | nil => trivial
  | cons e es ih =>
    refine ⟨hcd w log e h.1,?_⟩
    intro v hv
    obtain ⟨l,hl⟩ := step_traced note hv log
    exact ih (h.2 _ hl)

end Watch

end Interleave
