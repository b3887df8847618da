import ServerHub.Interleave.Discipline
import ServerHub.VgBackup.Credentials
import ServerHub.VgBackup.Settings

namespace VgBackup

open Interleave

inductive Request where
  | createBackupJob (actor : Actor) (req : JobRequest)
  | updateBackupJob (actor : Actor) (param : String) (req : JobRequest)
  | deleteBackupJob (actor : Actor) (param : String)
  | deletePolicy (actor : Actor) (param : String)
  | runNow (actor : Actor) (param : String)
  | cancelBackupRun (actor : Actor) (param : String)
  | createRestore (actor : Actor) (req : RestoreRequest)
  | vgClaimRun (agent : UUID) (param : String)
  | vgUpdateRunStatus (agent : UUID) (param : String) (req : RunReport)
  | vgClaimRestore (agent : UUID) (param : String)
  | vgUpdateRestoreStatus (agent : UUID) (param : String) (req : RestoreReport)
  | createConnection (actor : Actor) (req : ConnectionRequest)
  | updateConnection (actor : Actor) (param : String) (req : ConnectionRequest)
  | deleteConnection (actor : Actor) (param : String)
  | testConnection (actor : Actor) (param : String) (dialFailure : Option String)
  | createPolicy (actor : Actor) (req : PolicyRequest)
  | updatePolicy (actor : Actor) (param : String) (req : PolicyRequest)
  | setJobEnabled (actor : Actor) (param : String) (enabled : Bool)
  | verifyRun (actor : Actor) (param : String)
  | vgRegisterArtifact (agent : UUID) (param : String) (req : ArtifactReport)
  | vgRegisterChunk (agent : UUID) (param : String) (req : ChunkReport)
  | vgRegister (draw : Nat) (req : RegisterRequest)
  | vgEnroll (draw : Nat) (req : EnrollRequest)
  | agentRequest (authorization agentHeader : String) (call : AgentCall)
  | generateEnrollmentToken (actor : Actor) (draw : Nat) (req : EnrollmentTokenRequest)
  | revokeEnrollmentToken (actor : Actor) (param : String)
  | generateRegistrationToken (actor : Actor) (draw : Nat)
  | rotateAgentToken (actor : Actor) (draw : Nat) (param : String)
  | revokeAgent (actor : Actor) (param : String)
  | fire (job : UUID) (boundary : Time)
  | maybeFireRetry (job : UUID)
  | checkStaleRuns
  | enforceRetention
  | tick (prev : Time)
deriving DecidableEq

abbrev Answer := Option Reply

def answered (p : Handler Reply) : Handler Answer := do
  let r ← p
  return some r

def silent (p : Handler Unit) : Handler Answer := do
  p
  return none

def fireJob (id : UUID) (boundary : Time) : Handler Unit := do
  match ← query (.loadJob id) with
  | none => return ()
  | some job => fire job.row boundary

def retryJob (id : UUID) (now : Time) : Handler Unit := do
  match ← query (.loadJob id) with
  | none => return ()
  | some job => maybeFireRetry job (effectivePolicy job) now

def atNow (p : Time → Handler Unit) : Handler Unit := do
  let now ← query .now
  p now

def handle (env : Env) : Request → Handler Answer
  | .createBackupJob actor req => answered (createBackupJob env actor req)
  | .updateBackupJob actor param req => answered (updateBackupJob env actor param req)
  | .deleteBackupJob actor param => answered (deleteBackupJob env actor param)
  | .deletePolicy actor param => answered (deletePolicy env actor param)
  | .runNow actor param => answered (runNow env actor param)
  | .cancelBackupRun actor param => answered (cancelBackupRun env actor param)
  | .createRestore actor req => answered (createRestore env actor req)
  | .vgClaimRun agent param => answered (vgClaimRun env agent param)
  | .vgUpdateRunStatus agent param req => answered (vgUpdateRunStatus env agent param req)
  | .vgClaimRestore agent param => answered (vgClaimRestore env agent param)
  | .vgUpdateRestoreStatus agent param req => answered (vgUpdateRestoreStatus env agent param req)
  | .createConnection actor req => answered (createConnection env actor req)
  | .updateConnection actor param req => answered (updateConnection env actor param req)
  | .deleteConnection actor param => answered (deleteConnection env actor param)
  | .testConnection actor param dialFailure => answered (testConnection env actor param dialFailure)
  | .createPolicy actor req => answered (createPolicy env actor req)
  | .updatePolicy actor param req => answered (updatePolicy env actor param req)
  | .setJobEnabled actor param enabled => answered (setJobEnabled env actor param enabled)
  | .verifyRun actor param => answered (verifyRun env actor param)
  | .vgRegisterArtifact agent param req => answered (vgRegisterArtifact env agent param req)
  | .vgRegisterChunk agent param req => answered (vgRegisterChunk env agent param req)
  | .vgRegister draw req => answered (vgRegister env draw req)
  | .vgEnroll draw req => answered (vgEnroll env draw req)
  | .agentRequest authorization agentHeader call =>
      answered (agentRequest env authorization agentHeader call)
  | .generateEnrollmentToken actor draw req => answered (generateEnrollmentToken env actor draw req)
  | .revokeEnrollmentToken actor param => answered (revokeEnrollmentToken env actor param)
  | .generateRegistrationToken actor draw => answered (generateRegistrationToken env actor draw)
  | .rotateAgentToken _ draw param => answered (rotateAgentToken env draw param)
  | .revokeAgent actor param => answered (revokeAgent env actor param)
  | .fire job boundary => silent (fireJob job boundary)
  | .maybeFireRetry job => silent (atNow (retryJob job))
  | .checkStaleRuns => silent (atNow checkStaleRuns)
  | .enforceRetention => silent (atNow (enforceRetention env))
  | .tick prev => silent (atNow (tick env prev))

def system (env : Env) : System where
  Instr := Stmt
  State := Store
  Request := Request
  Answer := Answer
  Env := Time
  exec pid _ i s := i.exec pid s
  handle := handle env
  env := advance

def solo (pid : Nat) {α : Type} (p : Handler α) (s : Store) : Option (Store × α) :=
  p.alone (fun i => i.exec pid) s

def serve (env : Env) (pid : Nat) (r : Request) (s : Store) : Option (Store × Answer) :=
  solo pid (handle env r) s

theorem serve_run {env : Env} {pid : Nat} {r : Request} {s t : Store} {a : Answer}
    (h : serve env pid r s = some (t,a)) :
    ∃ n v, (World.idle (S := system env) s).run (.start pid r :: List.replicate n (.act pid)) =
      some v ∧ v.state = t ∧ v.pool pid = some (.ret a) := by
  let w : World (system env) := ⟨s,Function.update (fun _ => none) pid (some (handle env r))⟩
  have hpool : w.pool pid = some (handle env r) := by
    simp only [w,Function.update_self]
    rfl
  obtain ⟨n,v,hv,ht,hp⟩ := run_alone hpool h
  refine ⟨n,v,?_,ht,by simp [hp]⟩
  simp only [World.run,World.step,World.idle,Option.bind_some]
  exact hv

section Solo

variable {pid : Nat} {α β : Type} {s : Store}

@[simp] theorem solo_ret (a : α) : solo pid (.ret a) s = some (s,a) := rfl

@[simp] theorem solo_fail (code : Nat) (message : String) :
    solo pid (fail code message) s = some (s,⟨code,.error message⟩) := rfl

theorem solo_bind (p : Handler β) (f : β → Handler α) :
    solo pid (p >>= f) s = (solo pid p s).bind fun r => solo pid (f r.2) r.1 :=
  Prog.alone_bind p f s

@[simp] theorem solo_query (q : Select β) : solo pid (query q) s = some (s,q.eval s) := rfl

@[simp] theorem solo_side (w : SideWrite β) : solo pid (writeSide w) s = some (w.exec s) :=
  Prog.alone_perform _ _

@[simp] theorem solo_job (w : JobWrite β) : solo pid (writeJob w) s = some (w.exec s) :=
  Prog.alone_perform _ _

@[simp] theorem solo_restore (w : RestoreWrite β) :
    solo pid (writeRestore w) s = some (w.exec s) := Prog.alone_perform _ _

@[simp] theorem solo_run (w : RunWrite β) : solo pid (writeRun w) s = w.exec pid s :=
  Prog.alone_perform _ _

@[simp] theorem solo_query_bind (q : Select β) (f : β → Handler α) :
    solo pid (query q >>= f) s = solo pid (f (q.eval s)) s := by
  rw [solo_bind,solo_query,Option.bind_some]

@[simp] theorem solo_side_bind (w : SideWrite β) (f : β → Handler α) :
    solo pid (writeSide w >>= f) s = solo pid (f (w.exec s).2) (w.exec s).1 := by
  rw [solo_bind,solo_side,Option.bind_some]

@[simp] theorem solo_job_bind (w : JobWrite β) (f : β → Handler α) :
    solo pid (writeJob w >>= f) s = solo pid (f (w.exec s).2) (w.exec s).1 := by
  rw [solo_bind,solo_job,Option.bind_some]

@[simp] theorem solo_restore_bind (w : RestoreWrite β) (f : β → Handler α) :
    solo pid (writeRestore w >>= f) s = solo pid (f (w.exec s).2) (w.exec s).1 := by
  rw [solo_bind,solo_restore,Option.bind_some]

@[simp] theorem solo_run_bind (w : RunWrite β) (f : β → Handler α) :
    solo pid (writeRun w >>= f) s = (w.exec pid s).bind fun r => solo pid (f r.2) r.1 := by
  rw [solo_bind,solo_run]

theorem solo_fail_eq {code : Nat} {message : String} {t : Store} {a : Reply}
    (h : solo pid (fail code message) s = some (t,a)) : t = s := by
  simp only [solo_fail,Option.some.injEq,Prod.mk.injEq] at h
  exact h.1.symm

theorem solo_ret_eq {x a : α} {t : Store} (h : solo pid (.ret x) s = some (t,a)) :
    t = s ∧ a = x := by
  simp only [solo_ret,Option.some.injEq,Prod.mk.injEq] at h
  exact ⟨h.1.symm,h.2.symm⟩

theorem solo_answered {p : Handler Reply} {t : Store} {r : Reply} :
    solo pid (answered p) s = some (t,some r) ↔ solo pid p s = some (t,r) := by
  rw [answered,solo_bind,Option.bind_eq_some_iff]
  refine ⟨?_,fun h => ⟨(t,r),h,rfl⟩⟩
  rintro ⟨⟨u,a⟩,hu,ha⟩
  obtain ⟨rfl,rfl⟩ : u = t ∧ a = r := by simpa [solo] using ha
  exact hu

theorem solo_answered_some {p : Handler Reply} {t : Store} {a : Answer}
    (h : solo pid (answered p) s = some (t,a)) : ∃ r, solo pid p s = some (t,r) := by
  rw [answered,solo_bind,Option.bind_eq_some_iff] at h
  obtain ⟨⟨u,r⟩,hu,hr⟩ := h
  simp only [pure,solo,Prog.alone_ret,Option.some.injEq,Prod.mk.injEq] at hr
  exact ⟨r,hr.1 ▸ hu⟩

end Solo

def Unblocked (pid : Nat) (s : Store) : Prop := ∀ id, s.held pid id = false

theorem unblocked_unlock {pid : Nat} {s : Store} (h : Unblocked pid s) :
    Unblocked pid (s.unlock pid) := by
  intro id
  have hi := h id
  simp only [Store.held,Store.unlock] at hi ⊢
  cases hl : s.runLock id with
  | none => rfl
  | some q =>
    rw [hl] at hi
    simp only [Option.any_some,bne_eq_false_iff_eq] at hi
    simp [Option.filter,hi]

theorem unblocked_of_lock {pid : Nat} {s t : Store} (h : Unblocked pid s)
    (hl : t.runLock = s.runLock) : Unblocked pid t := by
  intro id
  simp only [Store.held,hl]
  exact h id

theorem lock_insertRun (s : Store) (n : NewRun) (b : Bool) :
    (s.insertRun n b).1.runLock = s.runLock := by
  unfold Store.insertRun
  split
  · rfl
  · split <;> rfl

theorem run_exec_total {pid : Nat} {s : Store} (h : Unblocked pid s) {β : Type} (w : RunWrite β) :
    ∃ t b, w.exec pid s = some (t,b) ∧ Unblocked pid t := by
  cases w with
  | update w p =>
    refine ⟨s.updateRun w p,s.runs.count w.matches,?_,unblocked_of_lock h rfl⟩
    simp [RunWrite.exec,h w.id]
  | insert n c =>
    exact ⟨_,_,rfl,unblocked_of_lock h (lock_insertRun s n c)⟩
  | delete id =>
    refine ⟨s.deleteRun id,(),?_,unblocked_of_lock h rfl⟩
    simp [RunWrite.exec,h id]
  | lock id =>
    simp only [RunWrite.exec]
    cases first s.runs id with
    | none => exact ⟨s,none,rfl,h⟩
    | some r =>
      refine ⟨_,some r,by simp only [h id]; rfl,?_⟩
      intro id'
      by_cases e : id' = id
      · subst e
        simp [Store.held]
      · have hi := h id'
        simp only [Store.held] at hi ⊢
        rw [Function.update_of_ne e]
        exact hi
  | insertCommit n =>
    exact ⟨_,_,rfl,unblocked_unlock (unblocked_of_lock h (lock_insertRun s n false))⟩
  | commit => exact ⟨_,(),rfl,unblocked_unlock h⟩

def Stmt.Lockless {β : Type} : Stmt β → Prop
  | .agent _ => False
  | _ => True

theorem exec_total {pid : Nat} {s : Store} (h : Unblocked pid s) {β : Type} (i : Stmt β)
    (hi : i.Lockless) : ∃ t b, i.exec pid s = some (t,b) ∧ Unblocked pid t := by
  cases i with
  | select q => exact ⟨s,q.eval s,rfl,h⟩
  | run w => exact run_exec_total h w
  | restore w =>
    obtain ⟨_,_,ht⟩ := restoresOnly_exec s w
    exact ⟨(w.exec s).1,(w.exec s).2,rfl,unblocked_of_lock h (by rw [ht])⟩
  | job w =>
    obtain ⟨_,_,_,_,_,ht⟩ := jobsOnly_exec s w
    exact ⟨(w.exec s).1,(w.exec s).2,rfl,unblocked_of_lock h (by rw [ht])⟩
  | side w =>
    obtain ⟨_,_,_,_,_,_,ht⟩ := sideOnly_exec s w
    exact ⟨(w.exec s).1,(w.exec s).2,rfl,unblocked_of_lock h (by rw [ht])⟩
  | agent w => exact hi.elim

theorem solo_total {pid : Nat} {s : Store} (h : Unblocked pid s) {α : Type} {p : Handler α}
    (hp : p.Uses Stmt.Lockless) : ∃ t a, solo pid p s = some (t,a) ∧ Unblocked pid t :=
  Prog.alone_total (I := Unblocked pid) (fun _ hs _ i hi => exec_total hs i hi) hp h

end VgBackup
