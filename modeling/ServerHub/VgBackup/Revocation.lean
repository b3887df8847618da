import ServerHub.VgBackup.Contracts

namespace VgBackup

open Relational Interleave

structure VgAgent.Later (a a' : VgAgent) : Prop where
  revoked : a.revokedAt.isSome = true → a'.revokedAt.isSome = true
  registrationKey : a'.registrationKey = a.registrationKey ∨ a'.registrationKey = none

theorem VgAgent.Later.refl (a : VgAgent) : a.Later a := ⟨id,.inl rfl⟩

theorem VgAgent.Later.trans {a b c : VgAgent} (h : a.Later b) (k : b.Later c) : a.Later c := by
  refine ⟨k.revoked ∘ h.revoked,?_⟩
  rcases k.registrationKey with hk | hk
  · rw [hk]
    exact h.registrationKey
  · exact .inr hk

def Stmt.AddsNoAgent : {β : Type} → Stmt β → Prop
  | _, .agent (.insert _) | _, .agent (.insertWithToken _ _) => False
  | _, _ => True

inductive AgentsEffect {β : Type} (i : Stmt β) (s t : Store) : Prop
  | same (h : t.agents = s.agents)
  | update (id : UUID) (f : VgAgent → VgAgent) (hf : ∀ a, (f a).id = a.id)
      (h : t.agents = (s.updateAgents id f hf).agents) (hl : ∀ a : VgAgent, a.Later (f a))
  | insert (a : VgAgent) (hi : ¬ i.AddsNoAgent) (h : t.agents = s.agents.insert a)

theorem agents_saveMachine (s : Store) (found : Option UUID) (m : MachineFacts) :
    (s.saveMachine found m).agents = s.agents := by
  cases found <;> rfl

theorem agents_agent {s t : Store} {pid : Nat} {β : Type} {w : AgentWrite β} {b : β}
    (h : w.exec pid s = some (t,b)) : AgentsEffect (.agent w) s t := by
  cases agent_effect h with
  | heartbeat id now version => exact .update id _ _ rfl fun _ => ⟨fun h => h,.inl rfl⟩
  | register id p => exact .update id _ _ rfl fun _ => ⟨fun h => h,.inr rfl⟩
  | rotate id tokenHash hn => exact .update id _ _ rfl fun _ => ⟨fun h => h,.inl rfl⟩
  | revoke id now => exact .update id _ _ rfl fun _ => ⟨fun _ => rfl,.inl rfl⟩
  | insert a hk => exact .insert _ id rfl
  | insertWithToken a t hk => exact .insert _ id rfl
  | saveMachine found m => exact .same (agents_saveMachine s found m)
  | commitEnrollment token usedAt agent p found m hl =>
    exact .update agent (p.apply s.clock) (fun _ => rfl) (agents_saveMachine _ found m)
      fun _ => ⟨fun h => h,.inr rfl⟩
  | _ => exact .same rfl

theorem agents_side (s : Store) {β : Type} (w : SideWrite β) :
    AgentsEffect (.side w) s (w.exec s).1 := by
  cases w with
  | touchAgent id now => exact .update id _ _ rfl fun _ => ⟨fun h => h,.inl rfl⟩
  | insertBaseline job avgBytes sampleCount now =>
    refine .same ?_
    simp only [SideWrite.exec,Store.insertBaseline]
    split <;> rfl
  | insertArtifact n =>
    refine .same ?_
    simp only [SideWrite.exec,Store.insertArtifact]
    split <;> rfl
  | insertChunk n =>
    refine .same ?_
    simp only [SideWrite.exec,Store.insertChunk]
    split <;> rfl
  | _ => exact .same rfl

theorem agents_effect {s t : Store} {pid : Nat} {β : Type} {i : Stmt β} {b : β}
    (h : i.exec pid s = some (t,b)) : AgentsEffect i s t := by
  cases stmt_effect h with
  | select q => exact .same rfl
  | run hr hx =>
    obtain ⟨_,_,_,rfl⟩ := runsOnly_exec hx
    exact .same rfl
  | restore w =>
    obtain ⟨_,_,hw⟩ := restoresOnly_exec s w
    exact .same (by rw [hw])
  | job w =>
    obtain ⟨_,_,_,_,_,hw⟩ := jobsOnly_exec s w
    exact .same (by rw [hw])
  | side w => exact agents_side s w
  | agent hx => exact agents_agent hx

theorem AgentsEffect.grows {s t : Store} {β : Type} {i : Stmt β} (h : AgentsEffect i s t) :
    Grows VgAgent.Later s.agents t.agents := by
  cases h with
  | same h => exact h ▸ .refl .refl _
  | update id f hf h hl =>
    rw [h]
    exact (grows_modify .refl fun a _ _ => hl a : Grows _ s.agents (s.agents.modify _ f hf))
  | insert a hi h => exact h ▸ grows_insert .refl _ _

def Revoked (s : Store) (id : UUID) : Prop := (s.agents.find id).any (·.revokedAt.isSome) = true

theorem Revoked.later {s t : Store} {id : UUID} (h : Revoked s id)
    (hl : Grows VgAgent.Later s.agents t.agents) : Revoked t id := by
  simp only [Revoked,Option.any_eq_true] at h ⊢
  obtain ⟨a,ha,hr⟩ := h
  obtain ⟨a',ha',hl⟩ := hl id a ha
  exact ⟨a',ha',hl.revoked hr⟩

theorem agents_run {env : Env} {w v : World (system env)} {es : List (Event (system env))}
    (h : w.run es = some v) : Grows VgAgent.Later w.state.agents v.state.agents := by
  refine changes_run (P := fun s t : Store => Grows VgAgent.Later s.agents t.agents)
    (fun _ => .refl .refl _) (fun _ _ _ h k => h.trans (fun _ _ _ => .trans) k) ?_ h
  refine along_of_mem (fun e _ u => ?_) w
  refine changes_of_landing (fun _ => .refl .refl _) ?_
    fun pid _ β i k t b _ hx => (agents_effect hx).grows
  intro now s t ht
  obtain ⟨-,rfl⟩ := advance_eq ht
  exact .refl .refl _

def Stmt.ReadsAgent (s : Store) (id : UUID) : {β : Type} → Stmt β → Prop
  | _, .select (.firstAgent id') => id' = id
  | _, .select (.agentByKey digest) =>
      (firstWhere s.agents fun a => a.registrationKey == some digest).any (·.id == id) = true
  | _, .agent (.rotate id' _) => id' = id
  | _, _ => False

def Stmt.Unread : {β : Type} → Stmt β → Prop
  | _, .select (.firstAgent _) | _, .select (.agentByKey _) | _, .agent (.rotate _ _) => False
  | _, _ => True

def Stmt.Aborts : {β : Type} → Stmt β → Prop
  | _, .agent .rollback => True
  | _, _ => False

def Refusal (r : Reply) : Prop := ∃ message, r = ⟨401,.error message⟩ ∨ r = ⟨404,.error message⟩

def Refused (a : Answer) : Prop := ∃ r, a = some r ∧ Refusal r

section Guards

variable {α β γ : Type}

def Drops (bad : α → Prop) (p : Handler α) : Prop := p.Uses Stmt.Aborts ∧ p.Ends bad

def Guards (id : UUID) (bad : α → Prop) : Handler α → Prop
  | .ret _ => True
  | .step i k => (∀ pid s t b, Revoked s id → i.ReadsAgent s id → i.exec pid s = some (t,b) →
      Drops bad (k b)) ∧ ∀ b, Guards id bad (k b)

variable {id : UUID} {bad : α → Prop} {worse : γ → Prop} {f : α → Handler γ}

theorem drops_answers {pid : Nat} {p : Handler α} (h : Drops bad p) (s : Store) :
    ∃ t a, solo pid p s = some (t,a) ∧ bad a ∧ t.agents = s.agents ∧ t.tokens = s.tokens ∧
      t.machines = s.machines := by
  induction p generalizing s with
  | ret a => exact ⟨s,a,rfl,h.2,rfl,rfl,rfl⟩
  | step i k ih =>
    cases i with
    | agent w =>
      cases w with
      | rollback =>
        obtain ⟨t,a,ht,ha,h1,h2,h3⟩ := ih () ⟨h.1.2 (),h.2 ()⟩ (s.releaseTokens pid)
        exact ⟨t,a,ht,ha,h1,h2,h3⟩
      | _ => exact h.1.1.elim
    | _ => exact h.1.1.elim

theorem drops_bind {p : Handler α} (hp : Drops bad p) (hf : ∀ a, bad a → Drops worse (f a)) :
    Drops worse (p >>= f) := by
  induction p with
  | ret a => exact hf a hp.2
  | step i k ih =>
    exact ⟨⟨hp.1.1,fun b => (ih b ⟨hp.1.2 b,hp.2 b⟩).1⟩,fun b => (ih b ⟨hp.1.2 b,hp.2 b⟩).2⟩

theorem guards_bind {p : Handler α} (hp : Guards id bad p)
    (hbad : ∀ a, bad a → Drops worse (f a)) (hf : ∀ a, Guards id worse (f a)) :
    Guards id worse (p >>= f) := by
  induction p with
  | ret a => exact hf a
  | step i k ih =>
    refine ⟨?_,fun b => ih b (hp.2 b)⟩
    intro pid s t b hr hread hx
    exact drops_bind (hp.1 pid s t b hr hread hx) hbad

theorem unread_reads {i : Stmt β} (h : i.Unread) {s : Store} (hr : i.ReadsAgent s id) : False := by
  cases i with
  | select q => cases q <;> first | exact h | exact hr
  | agent w => cases w <;> first | exact h | exact hr
  | _ => exact hr

theorem guards_perform {i : Stmt α} (hi : i.Unread) (h : ∀ a, Guards id worse (f a)) :
    Guards id worse (.perform i >>= f) :=
  ⟨fun _ _ _ _ _ hr _ => (unread_reads hi hr).elim,h⟩

theorem guards_read {q : Select α}
    (hq : ∀ s, Revoked s id → (Stmt.select q).ReadsAgent s id → Drops worse (f (q.eval s)))
    (h : ∀ a, Guards id worse (f a)) : Guards id worse (query q >>= f) := by
  refine ⟨?_,h⟩
  intro pid s t b hr hread hx
  obtain ⟨-,rfl⟩ := Prod.mk.inj (Option.some.inj hx)
  exact hq s hr hread

theorem guards_uses {p : Handler α} (h : p.Uses Stmt.Unread) : Guards id bad p := by
  induction p with
  | ret a => trivial
  | step i k ih => exact ⟨fun _ _ _ _ _ hr _ => (unread_reads h.1 hr).elim,fun b => ih b (h.2 b)⟩

end Guards

theorem drops_unauthorized (message : String) : Drops Refusal (fail 401 message) :=
  ⟨trivial,message,.inl rfl⟩

theorem drops_missing (message : String) : Drops Refusal (fail 404 message) :=
  ⟨trivial,message,.inr rfl⟩

theorem guards_fail {id : UUID} (code : Nat) (message : String) :
    Guards id Refusal (fail code message) := trivial

theorem revoked_first {s : Store} {id : UUID} {a : VgAgent} (h : Revoked s id)
    (ha : first s.agents id = some a) : a.revokedAt.isSome = true := by
  rw [Revoked,(first_some ha).1] at h
  exact h

theorem revoked_byKey {s : Store} {id : UUID} {p : VgAgent → Bool} {a : VgAgent}
    (h : Revoked s id) (ha : firstWhere s.agents p = some a) (hid : a.id = id) :
    a.revokedAt.isSome = true := by
  have hf : s.agents.find id = some a := by
    have hm := Table.find_of_mem (List.mem_of_find?_eq_some ha)
    have hk : key a = id := hid
    rwa [hk] at hm
  rw [Revoked,hf] at h
  exact h

variable {env : Env} {id : UUID}

theorem guards_vgRegister (draw : Nat) (req : RegisterRequest) :
    Guards id Refusal (vgRegister env draw req) := by
  unfold vgRegister
  split
  · exact guards_fail _ _
  · refine guards_read ?_ ?_
    · intro s hr hread
      simp only [Stmt.ReadsAgent,Option.any_eq_true,beq_iff_eq] at hread
      obtain ⟨a,ha,hid⟩ := hread
      simp only [Select.eval,ha,revoked_byKey hr ha hid,if_true]
      exact drops_unauthorized _
    · intro found
      split
      · exact guards_fail _ _
      · split
        · exact guards_fail _ _
        · refine guards_perform trivial fun now => ?_
          split
          · exact guards_fail _ _
          · split
            · exact guards_fail _ _
            · refine guards_perform trivial fun _ => guards_uses ?_
              refine Prog.uses_bind ?_ fun _ => trivial
              exact Prog.uses_bind (Prog.uses_perform trivial) fun _ => Prog.uses_perform trivial

theorem guards_enrollTransaction (token agentID : UUID) (req : EnrollRequest) (hash : String)
    (now : Time) : Guards id (· = false) (enrollTransaction token agentID req hash now) := by
  refine guards_perform trivial fun usedAt => guards_perform trivial fun claimed => ?_
  cases claimed with
  | false => trivial
  | true =>
    refine guards_read ?_ ?_
    · intro s hr hread
      have hid : agentID = id := hread
      subst hid
      have hroll : Drops (· = false) (writeAgent .rollback >>= fun _ => (return false)) :=
        ⟨⟨trivial,fun _ => trivial⟩,fun _ => rfl⟩
      cases ha : first s.agents agentID with
      | none =>
        simp only [Select.eval,ha]
        exact hroll
      | some a =>
        simp only [Select.eval,ha,revoked_first hr ha,if_true]
        exact hroll
    · intro found
      refine guards_uses ?_
      split
      · exact Prog.uses_bind (Prog.uses_perform trivial) fun _ => trivial
      · split
        · exact Prog.uses_bind (Prog.uses_perform trivial) fun _ => trivial
        · refine Prog.uses_bind (Prog.uses_perform trivial) fun _ => ?_
          exact Prog.uses_bind (Prog.uses_perform trivial) fun _ => trivial

theorem guards_vgEnroll (draw : Nat) (req : EnrollRequest) :
    Guards id Refusal (vgEnroll env draw req) := by
  unfold vgEnroll
  split
  · exact guards_fail _ _
  · refine guards_perform trivial fun found => ?_
    split
    · exact guards_fail _ _
    · refine guards_perform trivial fun now0 => ?_
      split
      · exact guards_fail _ _
      · split
        · exact guards_fail _ _
        · exact guards_fail _ _
        · refine guards_perform trivial fun now => ?_
          refine guards_bind (guards_enrollTransaction _ _ _ _ _) ?_ ?_
          · rintro done rfl
            exact drops_unauthorized _
          · intro done
            cases done <;> trivial

theorem guards_rotateAgentToken (draw : Nat) (param : String) :
    Guards id Refusal (rotateAgentToken env draw param) := by
  unfold rotateAgentToken
  split
  · exact guards_fail _ _
  · split
    · exact guards_fail _ _
    · refine ⟨?_,?_⟩
      · intro pid s t b hr hread hx
        obtain rfl : _ = id := hread
        simp only [Stmt.exec,AgentWrite.exec] at hx
        split at hx
        · rename_i hn
          rw [Option.any_eq_true] at hn
          obtain ⟨a,ha,hnone⟩ := hn
          have hsome := revoked_first hr ha
          simp [Option.isNone_iff_eq_none.mp hnone] at hsome
        · obtain ⟨-,rfl⟩ := Prod.mk.inj (Option.some.inj hx)
          exact drops_missing _
      · intro done
        cases done <;> trivial

theorem unread_vgTouch (agent : UUID) : (vgTouch agent).Uses Stmt.Unread :=
  Prog.uses_bind (Prog.uses_perform trivial) fun _ => Prog.uses_perform trivial

theorem unread_vgClaimRun (agent : UUID) (param : String) :
    (vgClaimRun env agent param).Uses Stmt.Unread := by
  refine Prog.uses_bind (unread_vgTouch agent) fun _ => ?_
  split
  · trivial
  · refine Prog.uses_bind (Prog.uses_perform trivial) fun now => ?_
    refine Prog.uses_bind (Prog.uses_perform trivial) fun rows => ?_
    split
    · refine Prog.uses_bind (Prog.uses_perform trivial) fun run => ?_
      split <;> trivial
    · refine Prog.uses_bind (Prog.uses_perform trivial) fun loaded => ?_
      split
      · trivial
      · split
        · refine Prog.uses_bind (Prog.uses_perform trivial) fun now2 => ?_
          exact Prog.uses_bind (Prog.uses_perform trivial) fun _ => trivial
        · trivial

theorem unread_recordTransition (run : VgBackupRun) (req : RunReport) (st : RunStatus) :
    (recordTransition env run req st).Uses Stmt.Unread := by
  refine Prog.uses_bind (Prog.uses_perform trivial) fun now => ?_
  dsimp only
  split
  · trivial
  · refine Prog.uses_bind (Prog.uses_perform trivial) fun rows => ?_
    split
    · trivial
    · refine Prog.uses_bind (Prog.uses_perform trivial) fun fresh => ?_
      split
      · refine Prog.uses_bind (Prog.uses_perform trivial) fun now2 => ?_
        exact Prog.uses_bind (Prog.uses_perform trivial) fun _ => trivial
      · trivial

theorem unread_recordReport (run : VgBackupRun) (req : RunReport) :
    (recordReport env run req).Uses Stmt.Unread := by
  unfold recordReport
  split
  · trivial
  · split
    · exact unread_recordTransition run req _
    · split
      · split
        · exact Prog.uses_bind (Prog.uses_perform trivial) fun _ => trivial
        · trivial
      · trivial

theorem unread_vgUpdateRunStatus (agent : UUID) (param : String) (req : RunReport) :
    (vgUpdateRunStatus env agent param req).Uses Stmt.Unread := by
  unfold vgUpdateRunStatus
  split
  · trivial
  · split
    · trivial
    · refine Prog.uses_bind (Prog.uses_perform trivial) fun run => ?_
      split
      · trivial
      · split
        · refine Prog.uses_bind (Prog.uses_perform trivial) fun target => ?_
          split
          · trivial
          · exact unread_recordReport _ req
        · exact unread_recordReport _ req

theorem unread_records {β : Type} (i : Stmt β) (h : i.Records) : i.Unread := by
  cases i with
  | select q =>
    cases q with
    | firstAgent id => exact h.elim
    | agentByKey digest => exact h.elim
    | _ => trivial
  | agent w => exact h.elim
  | _ => trivial

theorem unread_failRestoreClaim (job : VgRestoreJob) (message : String) :
    (failRestoreClaim job message).Uses Stmt.Unread := by
  refine Prog.uses_bind (Prog.uses_perform trivial) fun now => ?_
  exact Prog.uses_bind (Prog.uses_perform trivial) fun _ => trivial

theorem unread_vgClaimRestore (agent : UUID) (param : String) :
    (vgClaimRestore env agent param).Uses Stmt.Unread := by
  refine Prog.uses_bind (unread_vgTouch agent) fun _ => ?_
  split
  · trivial
  · refine Prog.uses_bind (Prog.uses_perform trivial) fun now => ?_
    refine Prog.uses_bind (Prog.uses_perform trivial) fun rows => ?_
    split
    · refine Prog.uses_bind (Prog.uses_perform trivial) fun found => ?_
      split <;> trivial
    · refine Prog.uses_bind (Prog.uses_perform trivial) fun loaded => ?_
      split
      · trivial
      · split
        · exact unread_failRestoreClaim _ _
        · split
          · exact unread_failRestoreClaim _ _
          · trivial

theorem unread_vgUpdateRestoreStatus (agent : UUID) (param : String) (req : RestoreReport) :
    (vgUpdateRestoreStatus env agent param req).Uses Stmt.Unread := by
  unfold vgUpdateRestoreStatus
  split
  · trivial
  · refine Prog.uses_bind (Prog.uses_perform trivial) fun found => ?_
    split
    · trivial
    · dsimp only
      split
      · trivial
      · split
        · trivial
        · split
          · refine Prog.uses_bind (Prog.uses_perform trivial) fun now => ?_
            exact Prog.uses_bind (Prog.uses_perform trivial) fun _ => trivial
          · trivial

theorem unread_agentCall (agent : UUID) (call : AgentCall) :
    (call.run env agent).Uses Stmt.Unread := by
  cases call with
  | heartbeat agentVersion =>
    refine Prog.uses_bind (Prog.uses_perform trivial) fun now => ?_
    exact Prog.uses_bind (Prog.uses_perform trivial) fun _ => trivial
  | claimRun param => exact unread_vgClaimRun agent param
  | updateRunStatus param req => exact unread_vgUpdateRunStatus agent param req
  | registerArtifact param req =>
    exact Prog.uses_mono unread_records (records_vgRegisterArtifact agent param req)
  | registerChunk param req =>
    exact Prog.uses_mono unread_records (records_vgRegisterChunk agent param req)
  | claimRestore param => exact unread_vgClaimRestore agent param
  | updateRestoreStatus param req => exact unread_vgUpdateRestoreStatus agent param req

theorem guards_agentRequest (authorization agentHeader : String) (call : AgentCall) :
    Guards id Refusal (agentRequest env authorization agentHeader call) := by
  unfold agentRequest vgAgentAuth
  dsimp only
  split
  · exact guards_fail _ _
  · split
    · exact guards_fail _ _
    · refine guards_read ?_ ?_
      · intro s hr hread
        obtain rfl : _ = id := hread
        simp only [Select.eval]
        split
        · exact drops_unauthorized _
        · rename_i agent ha
          split
          · exact drops_unauthorized _
          · simp only [revoked_first hr ha,if_true]
            exact drops_unauthorized _
      · intro found
        split
        · exact guards_fail _ _
        · split
          · exact guards_fail _ _
          · split
            · exact guards_fail _ _
            · exact guards_uses (unread_agentCall _ call)

def Request.checksAgent : Request → Bool
  | .vgRegister _ _ | .vgEnroll _ _ | .rotateAgentToken _ _ _ | .agentRequest _ _ _ => true
  | _ => false

theorem guards_answered {p : Handler Reply} (h : Guards id Refusal p) :
    Guards id Refused (answered p) :=
  guards_bind h (fun r hr => ⟨trivial,r,rfl,hr⟩) fun _ => trivial

theorem guards_handle {r : Request} (h : r.checksAgent = true) :
    Guards id Refused (handle env r) := by
  cases r with
  | vgRegister draw req => exact guards_answered (guards_vgRegister draw req)
  | vgEnroll draw req => exact guards_answered (guards_vgEnroll draw req)
  | rotateAgentToken actor draw param => exact guards_answered (guards_rotateAgentToken draw param)
  | agentRequest authorization agentHeader call =>
    exact guards_answered (guards_agentRequest authorization agentHeader call)
  | _ => simp [Request.checksAgent] at h

theorem refused_after_read {xs ys as bs : List (Event (system env))} {s : Store}
    {w u v : World (system env)} {pid : Nat} {r : Request} {β : Type} {i : Stmt β}
    {k : β → Handler Answer} (hw : (World.idle (S := system env) s).run xs = some w)
    (hv : w.run ys = some v) (hrev : Revoked w.state id) (hm : .start pid r ∈ xs ++ ys)
    (hr : r.checksAgent = true) (hys : ys = as ++ .act pid :: bs) (hu : w.run as = some u)
    (hp : u.pool pid = some (.step i k)) (hread : i.ReadsAgent u.state id) :
    ∃ p, v.pool pid = some p ∧ Drops Refused p := by
  subst hys
  have hall : (World.idle (S := system env) s).run ((xs ++ as) ++ .act pid :: bs) = some v := by
    rw [List.append_assoc,run_append,hw]
    exact hv
  have hxu : (World.idle (S := system env) s).run (xs ++ as) = some u := by
    rw [run_append,hw]
    exact hu
  obtain ⟨-,hres⟩ := residual_at hall (by simpa using hm) hxu hp
  have hguard : Guards id Refused (Prog.step i k) :=
    hres.keeps (P := Guards id Refused) (fun _ _ b h => h.2 b) (guards_handle hr)
  rw [run_append,hu,Option.bind_some,World.run,Option.bind_eq_some_iff] at hv
  obtain ⟨u',hu',hv⟩ := hv
  obtain ⟨b,hx,hpool⟩ := step_act_of hp hu'
  have hdrop : Drops Refused (k b) :=
    hguard.1 pid u.state u'.state b (hrev.later (agents_run hu)) hread hx
  have hpb : u'.pool pid = some (k b) := by
    rw [hpool]
    exact Function.update_self pid _ _
  obtain ⟨p,hpv,hrp⟩ := residual_run hv hpb
  exact ⟨p,hpv,hrp.uses hdrop.1,hrp.ends hdrop.2⟩

theorem revocation_is_permanent (env : Env) (s : Store) (id : UUID)
    (xs ys : List (Event (system env))) (w v : World (system env))
    (hw : (World.idle s).run xs = some w) (hv : w.run ys = some v) (hrev : Revoked w.state id) :
    Revoked v.state id ∧
    ∀ pid r, .start pid r ∈ xs ++ ys → r.checksAgent = true →
      ∀ as bs u (β : Type) (i : Stmt β) k, ys = as ++ .act pid :: bs → w.run as = some u →
        u.pool pid = some (.step i k) → i.ReadsAgent u.state id →
        ∃ p, v.pool pid = some p ∧ p.Ends Refused ∧
          ∃ t a, solo pid p v.state = some (t,a) ∧ Refused a ∧ t.agents = v.state.agents ∧
            t.tokens = v.state.tokens ∧ t.machines = v.state.machines := by
  refine ⟨hrev.later (agents_run hv),?_⟩
  intro pid r hm hr as bs u β i k hys hu hp hread
  obtain ⟨p,hpv,hdrop⟩ := refused_after_read hw hv hrev hm hr hys hu hp hread
  exact ⟨p,hpv,hdrop.2,drops_answers hdrop v.state⟩

def keyDigest : String := "6ab9f1eb8f7d3388f4f9d586f66e99fd54080df2c446f0e58668b09c08a16dd0"

def tokenDigest : String := "8b5cc4df7eec7d32a7814eca4af047ae33b2d52342667715682e19c25b0b9faa"

def keyEnv : Env :=
  { sampleEnv with
    sha256Hex := fun s => if s = "k1" then keyDigest else if s = "e1" then tokenDigest else ""
    randomHex := fun _ draw => if draw = 0 then "aa00" else "bb11"
    bcryptHash := fun _ token => some ("$2a$10$" ++ token)
    bcryptMatches := fun hash raw => hash = "$2a$10$" ++ raw }

def pendingStore : Store :=
  { sampleStore with
    agents := singleRow { sampleAgent with status := .offline, registrationKey := some keyDigest } }

def revokeParam : String := "00000000-0000-0000-0000-000000000003"

def registerRequest : RegisterRequest := ⟨"k1","db01","linux","1.0","10.0.0.3"⟩

def revokeEvents : List (Event (system keyEnv)) :=
  .start 1 (.revokeAgent ⟨.admin,1⟩ revokeParam) :: List.replicate 3 (.act 1)

def registerEvents : List (Event (system keyEnv)) :=
  [.start 2 (.vgRegister 0 registerRequest),.act 2]

theorem revoked_agent_cannot_register :
    ∃ w v, (World.idle (S := system keyEnv) pendingStore).run revokeEvents = some w ∧
      Revoked w.state 3 ∧ w.run registerEvents = some v ∧ Revoked v.state 3 ∧
      ∃ p, v.pool 2 = some p ∧ p.Ends Refused := by
  have hrun : ((World.idle (S := system keyEnv) pendingStore).run revokeEvents).any (fun w =>
      (w.state.agents.find 3).any (·.revokedAt.isSome) &&
      (firstWhere w.state.agents fun a => a.registrationKey == some keyDigest).any (·.id == 3) &&
      (w.run registerEvents).isSome) = true := by decide
  rw [Option.any_eq_true] at hrun
  obtain ⟨w,hw,hrun⟩ := hrun
  simp only [Bool.and_eq_true] at hrun
  obtain ⟨⟨hrevoked,hread⟩,hsome⟩ := hrun
  obtain ⟨v,hv⟩ := Option.isSome_iff_exists.mp hsome
  obtain ⟨hlater,hrefused⟩ := revocation_is_permanent keyEnv pendingStore 3 revokeEvents
    registerEvents w v hw hv hrevoked
  refine ⟨w,v,hw,hrevoked,hv,hlater,?_⟩
  rw [registerEvents,World.run,Option.bind_eq_some_iff] at hv
  obtain ⟨u,hu,-⟩ := hv
  obtain ⟨-,hst,hpool⟩ := step_start hu
  obtain ⟨p,hp,hends,-⟩ := hrefused 2 (.vgRegister 0 registerRequest) (by simp [registerEvents])
    rfl [.start 2 (.vgRegister 0 registerRequest)] [] u _ (.select (.agentByKey keyDigest)) _ rfl
    (by rw [World.run,hu]; rfl) (by rw [hpool]; exact Function.update_self 2 _ _)
    (by rw [hst]; exact hread)
  exact ⟨p,hp,hends⟩

end VgBackup
