import ServerHub.VgBackup.Validation

namespace VgBackup

open Relational Interleave

structure JobCreation (env : Env) (s : Store) (actor : Actor) (req : JobRequest) where
  agentID : UUID
  storageID : UUID
  mode : VgBackupMode
  exportFormat : String
  connectionID : Option UUID
  policyID : Option UUID
  agent : (first s.agents agentID).any (canAccessBackupResource actor ·.createdByUserID) = true
  target : (first s.targets storageID).any (canAccessBackupResource actor ·.createdByUserID) = true
  checked : CreateChecked env req mode
  connection : ConnectionChosen s actor req.sourceType agentID req.connectionID connectionID
  database : (blank req.connectionID && isDatabaseSource req.sourceType &&
    blank req.sourceDatabase) = false
  path : (isPathSource req.sourceType && blank req.sourcePath) = false
  policy : ∀ k, policyID = some k → ∃ p, first s.policies k = some p ∧
    canAccessBackupResource actor p.createdByUserID = true

namespace JobCreation

variable {env : Env} {s : Store} {actor : Actor} {req : JobRequest}

def row (c : JobCreation env s actor req) : VgBackupJob :=
  newJob req actor c.agentID c.storageID c.policyID c.connectionID c.mode c.exportFormat

def result (c : JobCreation env s actor req) : Store :=
  if req.cronExpr ≠ "" then
    ((JobWrite.insertSchedule s.nextID req.cronExpr (orUTC req.timezone)).exec
      (s.insertJob c.row)).1
  else s.insertJob c.row

end JobCreation

structure JobUpdate (env : Env) (s : Store) (actor : Actor) (req : JobRequest) where
  job : VgBackupJob
  mode : VgBackupMode
  exportFormat : String
  connectionID : Option UUID
  policyID : Option UUID
  stored : first s.jobs job.id = some job
  access : canAccessBackupResource actor job.createdByUserID = true
  checked : UpdateChecked env job req mode
  connection : ConnectionChosen s actor job.sourceType job.agentID req.connectionID connectionID
  database : (isDatabaseSource job.sourceType && (connectionID.or job.connectionID).isNone &&
    blank (keptWhenBlank req.sourceDatabase job.sourceDatabase)) = false
  policy : ∀ k, policyID = some k → ∃ p, first s.policies k = some p ∧
    canAccessBackupResource actor p.createdByUserID = true

def Store.savedSchedule (s : Store) (job : UUID) (cronExpr timezone : String) : Store :=
  if cronExpr ≠ "" then
    match s.scheduleOf job with
    | none => ((JobWrite.insertSchedule job cronExpr (orUTC timezone)).exec s).1
    | some _ => s.updateSchedule job cronExpr (orUTC timezone)
  else s

def JobUpdate.result {env : Env} {s : Store} {actor : Actor} {req : JobRequest}
    (c : JobUpdate env s actor req) : Store :=
  (s.updateJobs c.job.id ((jobPatch req c.job c.mode c.exportFormat c.connectionID
    c.policyID).apply s.clock) fun _ => rfl).savedSchedule c.job.id req.cronExpr req.timezone

section Jobs

variable {env : Env} {pid : Nat} {s t : Store} {actor : Actor} {param : String} {a : Reply}

theorem createBackupJob_outcome {req : JobRequest}
    (h : solo pid (createBackupJob env actor req) s = some (t,a)) :
    t = s ∨ ∃ c : JobCreation env s actor req, t = c.result := by
  unfold createBackupJob at h
  split at h
  · exact .inl (solo_fail_eq h)
  · exact .inl (solo_fail_eq h)
  · exact .inl (solo_fail_eq h)
  · rename_i agentID storageID _ _ _
    rw [solo_query_bind] at h
    split at h
    · exact .inl (solo_fail_eq h)
    · rename_i hagent
      rw [solo_query_bind] at h
      split at h
      · exact .inl (solo_fail_eq h)
      · rename_i htarget
        split at h
        · exact .inl (solo_fail_eq h)
        · rename_i mode exportFormat hcheck
          rw [solo_bind,Option.bind_eq_some_iff] at h
          obtain ⟨⟨u,conn⟩,hconn,h⟩ := h
          obtain ⟨rfl,hchosen⟩ := resolveConnection_chosen hconn
          dsimp only at h
          split at h
          · exact .inl (solo_fail_eq h)
          · rename_i connID
            split at h
            · exact .inl (solo_fail_eq h)
            · rename_i hdb
              split at h
              · exact .inl (solo_fail_eq h)
              · rename_i hpath
                rw [solo_bind,Option.bind_eq_some_iff] at h
                obtain ⟨⟨v,pol⟩,hpol,h⟩ := h
                obtain ⟨rfl,hpolicy⟩ := resolvePolicy_chosen hpol
                dsimp only at h
                split at h
                · exact .inl (solo_fail_eq h)
                · rename_i policyID
                  refine .inr ⟨⟨agentID,storageID,mode,exportFormat,connID,policyID,
                    by simpa [Select.eval] using hagent,by simpa [Select.eval] using htarget,checkCreate_checked hcheck,
                    hchosen connID rfl,by simpa using hdb,by simpa using hpath,
                    fun k hk => hpolicy k (by rw [hk])⟩,?_⟩
                  rw [solo_job_bind] at h
                  unfold JobCreation.result
                  split at h
                  · rename_i hcron
                    rw [solo_job_bind,solo_query_bind] at h
                    rw [if_pos hcron]
                    exact (solo_ret_eq h).1
                  · rename_i hcron
                    rw [solo_query_bind] at h
                    rw [if_neg hcron]
                    exact (solo_ret_eq h).1

theorem saveSchedule_outcome {job : UUID} {cronExpr timezone : String} {x : Unit}
    (h : solo pid (saveSchedule job cronExpr timezone) s = some (t,x)) :
    t = s.savedSchedule job cronExpr timezone := by
  unfold saveSchedule at h
  unfold Store.savedSchedule
  split at h
  · rename_i hcron
    rw [if_pos hcron]
    rw [solo_query_bind] at h
    cases hs : s.scheduleOf job with
    | none =>
      simp only [Select.eval,hs,solo_job_bind] at h
      exact (solo_ret_eq h).1
    | some r =>
      simp only [Select.eval,hs,solo_job,Option.some.injEq] at h
      exact (congrArg Prod.fst h).symm
  · rename_i hcron
    rw [if_neg hcron]
    exact (solo_ret_eq h).1

theorem updateBackupJob_outcome {req : JobRequest}
    (h : solo pid (updateBackupJob env actor param req) s = some (t,a)) :
    t = s ∨ ∃ c : JobUpdate env s actor req, t = c.result := by
  unfold updateBackupJob at h
  split at h
  · exact .inl (solo_fail_eq h)
  · rename_i id _
    rw [solo_query_bind] at h
    split at h
    · exact .inl (solo_fail_eq h)
    · rename_i job hjob
      split at h
      · exact .inl (solo_fail_eq h)
      · rename_i haccess
        split at h
        · exact .inl (solo_fail_eq h)
        · rename_i mode exportFormat hcheck
          rw [solo_bind,Option.bind_eq_some_iff] at h
          obtain ⟨⟨u,conn⟩,hconn,h⟩ := h
          obtain ⟨rfl,hchosen⟩ := resolveConnection_chosen hconn
          dsimp only at h
          split at h
          · exact .inl (solo_fail_eq h)
          · rename_i connID
            split at h
            · exact .inl (solo_fail_eq h)
            · rename_i hdb
              rw [solo_bind,Option.bind_eq_some_iff] at h
              obtain ⟨⟨v,pol⟩,hpol,h⟩ := h
              obtain ⟨rfl,hpolicy⟩ := resolvePolicy_chosen hpol
              dsimp only at h
              split at h
              · exact .inl (solo_fail_eq h)
              · rename_i policyID
                have hid : job.id = id := first_id hjob
                refine .inr ⟨⟨job,mode,exportFormat,connID,policyID,hid ▸ hjob,
                  by simpa using haccess,checkUpdate_checked hcheck,hchosen connID rfl,
                  by simpa using hdb,fun k hk => hpolicy k (by rw [hk])⟩,?_⟩
                rw [solo_job_bind,solo_bind,Option.bind_eq_some_iff] at h
                obtain ⟨⟨w,x⟩,hw,h⟩ := h
                rw [solo_query_bind] at h
                rw [(solo_ret_eq h).1]
                exact saveSchedule_outcome hw

theorem deleteBackupJob_outcome (h : solo pid (deleteBackupJob env actor param) s = some (t,a)) :
    t = s ∨ ∃ job, first s.jobs job.id = some job ∧
      canAccessBackupResource actor job.createdByUserID = true ∧
      t = ((JobWrite.delete job.id).exec (s.deleteSchedules job.id)).1 := by
  unfold deleteBackupJob at h
  split at h
  · exact .inl (solo_fail_eq h)
  · rw [solo_query_bind] at h
    split at h
    · exact .inl (solo_fail_eq h)
    · rename_i job hjob
      split at h
      · exact .inl (solo_fail_eq h)
      · rename_i haccess
        obtain rfl := first_id hjob
        rw [solo_job_bind,solo_job_bind] at h
        exact .inr ⟨job,hjob,by simpa using haccess,(solo_ret_eq h).1⟩

theorem setJobEnabled_outcome {enabled : Bool}
    (h : solo pid (setJobEnabled env actor param enabled) s = some (t,a)) :
    t = s ∨ ∃ job, first s.jobs job.id = some job ∧
      canAccessBackupResource actor job.createdByUserID = true ∧
      t = ((JobWrite.setEnabled job.id enabled).exec s).1 := by
  unfold setJobEnabled at h
  split at h
  · exact .inl (solo_fail_eq h)
  · rw [solo_query_bind] at h
    split at h
    · exact .inl (solo_fail_eq h)
    · rename_i job hjob
      split at h
      · exact .inl (solo_fail_eq h)
      · rename_i haccess
        obtain rfl := first_id hjob
        rw [solo_job_bind] at h
        exact .inr ⟨job,hjob,by simpa using haccess,(solo_ret_eq h).1⟩

end Jobs

section Policies

variable {env : Env} {pid : Nat} {s t : Store} {actor : Actor} {param : String} {a : Reply}

theorem deletePolicy_outcome (h : solo pid (deletePolicy env actor param) s = some (t,a)) :
    t = s ∨ ∃ p, first s.policies p.id = some p ∧
      canAccessBackupResource actor p.createdByUserID = true ∧
      s.detachPolicy p (allWhere s.jobs fun j => j.policyID == some p.id) = some t := by
  unfold deletePolicy at h
  split at h
  · exact .inl (solo_fail_eq h)
  · rw [solo_query_bind] at h
    split at h
    · exact .inl (solo_fail_eq h)
    · rename_i p hp
      split at h
      · exact .inl (solo_fail_eq h)
      · rename_i haccess
        obtain rfl : p.id = _ := first_id hp
        rw [solo_query_bind,solo_job_bind] at h
        cases hu : s.detachPolicy p (allWhere s.jobs fun j => j.policyID == some p.id) with
        | none =>
          simp only [JobWrite.exec,Select.eval,hu] at h
          exact .inl (solo_fail_eq h)
        | some u =>
          simp only [JobWrite.exec,Select.eval,hu] at h
          obtain rfl := (solo_ret_eq h).1
          exact .inr ⟨p,hp,by simpa using haccess,hu⟩

theorem createPolicy_outcome {req : PolicyRequest}
    (h : solo pid (createPolicy env actor req) s = some (t,a)) :
    t = s ∨ ∃ want, validatePolicy env req = .ok want ∧
      t = ((JobWrite.flagPolicy s.nextID want.enabled want.encrypted
        want.verificationEnabled).exec
          (s.insertPolicy { want with createdByUserID := actor.userID })).1 := by
  unfold createPolicy at h
  split at h
  · exact .inl (solo_fail_eq h)
  · rename_i want hwant
    rw [solo_job_bind,solo_job_bind,solo_query_bind] at h
    exact .inr ⟨want,hwant,(solo_ret_eq h).1⟩

theorem updatePolicy_outcome {req : PolicyRequest}
    (h : solo pid (updatePolicy env actor param req) s = some (t,a)) :
    t = s ∨ ∃ p want, first s.policies p.id = some p ∧
      canAccessBackupResource actor p.createdByUserID = true ∧
      validatePolicy env req = .ok want ∧ t = ((JobWrite.updatePolicy p.id want).exec s).1 := by
  unfold updatePolicy at h
  split at h
  · exact .inl (solo_fail_eq h)
  · rw [solo_query_bind] at h
    split at h
    · exact .inl (solo_fail_eq h)
    · rename_i p hp
      split at h
      · exact .inl (solo_fail_eq h)
      · rename_i haccess
        split at h
        · exact .inl (solo_fail_eq h)
        · rename_i want hwant
          obtain rfl := first_id hp
          rw [solo_job_bind,solo_query_bind] at h
          exact .inr ⟨p,want,hp,by simpa using haccess,hwant,(solo_ret_eq h).1⟩

end Policies

section Connections

variable {env : Env} {pid : Nat} {s t : Store} {actor : Actor} {param : String} {a : Reply}

theorem updateConnection_outcome {req : ConnectionRequest}
    (h : solo pid (updateConnection env actor param req) s = some (t,a)) :
    t = s ∨ ∃ c patch, first s.connections c.id = some c ∧
      canAccessBackupResource actor c.createdByUserID = true ∧
      t = ((JobWrite.updateConnection c.id patch).exec s).1 := by
  unfold updateConnection at h
  split at h
  · exact .inl (solo_fail_eq h)
  · rw [solo_query_bind] at h
    split at h
    · exact .inl (solo_fail_eq h)
    · rename_i c hc
      split at h
      · exact .inl (solo_fail_eq h)
      · rename_i haccess
        split at h
        · exact .inl (solo_fail_eq h)
        · exact .inl (solo_ret_eq h).1
        · rename_i patch _ _
          obtain rfl := first_id hc
          rw [solo_job_bind] at h
          refine .inr ⟨c,patch,hc,by simpa using haccess,?_⟩
          split at h
          · rw [solo_query_bind] at h
            exact (solo_ret_eq h).1
          · exact solo_fail_eq h

theorem deleteConnection_outcome (h : solo pid (deleteConnection env actor param) s = some (t,a)) :
    t = s ∨ ∃ c, first s.connections c.id = some c ∧
      canAccessBackupResource actor c.createdByUserID = true ∧
      countWhere s.jobs (fun j => j.connectionID == some c.id) = 0 ∧
      t = ((JobWrite.deleteConnection c.id).exec s).1 := by
  unfold deleteConnection at h
  split at h
  · exact .inl (solo_fail_eq h)
  · rw [solo_query_bind] at h
    split at h
    · exact .inl (solo_fail_eq h)
    · rename_i c hc
      split at h
      · exact .inl (solo_fail_eq h)
      · rename_i haccess
        rw [solo_query_bind] at h
        split at h
        · exact .inl (solo_fail_eq h)
        · rename_i hcount
          obtain rfl := first_id hc
          rw [solo_job_bind] at h
          exact .inr ⟨c,hc,by simpa using haccess,Nat.eq_zero_of_not_pos hcount,(solo_ret_eq h).1⟩

theorem createConnection_outcome {req : ConnectionRequest}
    (h : solo pid (createConnection env actor req) s = some (t,a)) :
    t = s ∨ ∃ c, c.createdByUserID = actor.userID ∧
      (first s.agents c.agentID).any (canAccessBackupResource actor ·.createdByUserID) = true ∧
      t = (s.insertConnection c).1 := by
  unfold createConnection at h
  split at h
  · exact .inl (solo_fail_eq h)
  · exact .inl (solo_fail_eq h)
  · exact .inl (solo_fail_eq h)
  · rename_i connType agentID _ _ _
    rw [solo_query_bind] at h
    split at h
    · exact .inl (solo_fail_eq h)
    · rename_i hagent
      dsimp only at h
      split at h
      · exact .inl (solo_fail_eq h)
      · split at h
        · exact .inl (solo_fail_eq h)
        · rename_i encPassword _
          rw [solo_job_bind] at h
          refine .inr ⟨newConnection req actor agentID connType (req.chosenPort connType) encPassword,
            rfl,by simpa [Select.eval,newConnection] using hagent,?_⟩
          split at h
          · rw [solo_query_bind] at h
            exact (solo_ret_eq h).1
          · exact solo_fail_eq h

theorem testConnection_outcome {dialFailure : Option String}
    (h : solo pid (testConnection env actor param dialFailure) s = some (t,a)) :
    t = s ∨ ∃ c status, first s.connections c.id = some c ∧
      canAccessBackupResource actor c.createdByUserID = true ∧
      t = ((JobWrite.checkConnection c.id status s.clock).exec s).1 := by
  unfold testConnection at h
  split at h
  · exact .inl (solo_fail_eq h)
  · rw [solo_query_bind] at h
    split at h
    · exact .inl (solo_fail_eq h)
    · rename_i c hc
      split at h
      · exact .inl (solo_fail_eq h)
      · rename_i haccess
        obtain rfl := first_id hc
        rw [solo_query_bind] at h
        split at h
        · rw [solo_job_bind] at h
          exact .inr ⟨c,.error,hc,by simpa using haccess,solo_fail_eq h⟩
        · rw [solo_job_bind] at h
          exact .inr ⟨c,.error,hc,by simpa using haccess,solo_fail_eq h⟩
        · rw [solo_job_bind] at h
          exact .inr ⟨c,.connected,hc,by simpa using haccess,(solo_ret_eq h).1⟩

end Connections

section Runs

variable {env : Env} {pid : Nat} {s t : Store} {actor : Actor} {param : String} {a : Reply}

def manualRun (job : VgBackupJob) : NewRun where
  backupJobID := job.id
  agentID := job.agentID
  storageTargetID := job.storageTargetID
  sourceType := job.sourceType

theorem runNow_outcome (h : solo pid (runNow env actor param) s = some (t,a)) :
    t = s ∨ ∃ job, first s.jobs job.id = some job ∧
      canAccessBackupResource actor job.createdByUserID = true ∧
      t = (s.insertRun (manualRun job) false).1 := by
  unfold runNow at h
  split at h
  · exact .inl (solo_fail_eq h)
  · rw [solo_query_bind] at h
    split at h
    · exact .inl (solo_fail_eq h)
    · rename_i job hjob
      split at h
      · exact .inl (solo_fail_eq h)
      · rename_i haccess
        rw [solo_query_bind] at h
        split at h
        · exact .inl (solo_fail_eq h)
        · obtain rfl := first_id hjob
          rw [solo_run_bind,RunWrite.exec,Option.bind_some] at h
          refine .inr ⟨job,hjob,by simpa using haccess,?_⟩
          split at h
          · exact (solo_ret_eq h).1
          · exact solo_fail_eq h

theorem cancelBackupRun_outcome (h : solo pid (cancelBackupRun env actor param) s = some (t,a)) :
    t = s ∨ ∃ run, first s.runs run.id = some run ∧
      canAccessBackupResource actor (s.jobOf run).row.createdByUserID = true ∧
      t = s.updateRun { id := run.id } (cancelPatch run) := by
  unfold cancelBackupRun at h
  split at h
  · exact .inl (solo_fail_eq h)
  · rename_i id _
    rw [solo_query_bind] at h
    split at h
    · exact .inl (solo_fail_eq h)
    · rename_i run job hrun
      simp only [Select.eval,Option.map_eq_some_iff,Prod.mk.injEq] at hrun
      obtain ⟨r,hr,rfl,rfl⟩ := hrun
      split at h
      · exact .inl (solo_fail_eq h)
      · rename_i haccess
        split at h
        · exact .inl (solo_ret_eq h).1
        · split at h
          · exact .inl (solo_fail_eq h)
          · obtain rfl := first_id hr
            rw [solo_run_bind,Option.bind_eq_some_iff] at h
            obtain ⟨⟨u,n⟩,hu,h⟩ := h
            refine .inr ⟨r,hr,by simpa using haccess,?_⟩
            rw [(solo_ret_eq h).1]
            exact (update_exec hu).1

theorem restoreConnection_outcome {job : VgBackupJob} {agentID : UUID}
    {r : Except String (Option UUID)}
    (h : solo pid (restoreConnection job agentID) s = some (t,r)) :
    t = s ∧ ∀ k, r = .ok (some k) → job.connectionID = some k := by
  unfold restoreConnection at h
  split at h
  · obtain ⟨rfl,rfl⟩ := solo_ret_eq h
    exact ⟨rfl,by simp⟩
  · rename_i id hid
    rw [solo_query_bind] at h
    split at h
    · obtain ⟨rfl,rfl⟩ := solo_ret_eq h
      exact ⟨rfl,by simp⟩
    · split at h
      · obtain ⟨rfl,rfl⟩ := solo_ret_eq h
        exact ⟨rfl,by simp⟩
      · obtain ⟨rfl,rfl⟩ := solo_ret_eq h
        refine ⟨rfl,?_⟩
        intro k hk
        obtain rfl := Option.some.inj (Except.ok.inj hk)
        exact hid

theorem insertRestore_outcome {n : NewRestore}
    (h : solo pid (insertRestore n) s = some (t,a)) : t = s ∨ t = (s.insertRestore n).1 := by
  unfold insertRestore at h
  rw [solo_query_bind] at h
  split at h
  · exact .inl (solo_ret_eq h).1
  · rw [solo_restore_bind] at h
    split at h
    · exact .inr (solo_ret_eq h).1
    · rw [solo_query_bind] at h
      split at h
      · exact .inr (solo_ret_eq h).1
      · exact .inr (solo_fail_eq h)

theorem createRestore_outcome {req : RestoreRequest}
    (h : solo pid (createRestore env actor req) s = some (t,a)) :
    t = s ∨ ∃ n run, first s.runs n.dedupe.backupRunID = some run ∧
      canAccessBackupResource actor (s.jobOf run).row.createdByUserID = true ∧
      (first s.agents n.dedupe.agentID).any
        (canAccessBackupResource actor ·.createdByUserID) = true ∧
      (∀ k, n.connectionID = some k → (s.jobOf run).row.connectionID = some k) ∧
      t = (s.insertRestore n).1 := by
  unfold createRestore at h
  split at h
  · exact .inl (solo_fail_eq h)
  · exact .inl (solo_fail_eq h)
  · exact .inl (solo_fail_eq h)
  · rename_i runID agentID _ _ _
    rw [solo_query_bind] at h
    split at h
    · exact .inl (solo_fail_eq h)
    · rename_i hagent
      rw [solo_query_bind] at h
      split at h
      · exact .inl (solo_fail_eq h)
      · rename_i run job hrun
        simp only [Select.eval,Option.map_eq_some_iff,Prod.mk.injEq] at hrun
        obtain ⟨r,hr,rfl,rfl⟩ := hrun
        split at h
        · exact .inl (solo_fail_eq h)
        · rename_i haccess
          split at h
          · exact .inl (solo_fail_eq h)
          · rw [solo_bind,Option.bind_eq_some_iff] at h
            obtain ⟨⟨u,conn⟩,hconn,h⟩ := h
            obtain ⟨rfl,hchosen⟩ := restoreConnection_outcome hconn
            dsimp only at h
            split at h
            · exact .inl (solo_fail_eq h)
            · rename_i connID
              rcases insertRestore_outcome h with rfl | rfl
              · exact .inl rfl
              · exact .inr ⟨_,r,hr,by simpa using haccess,by simpa [Select.eval] using hagent,
                  fun k hk => hchosen k (congrArg Except.ok hk),rfl⟩

end Runs

end VgBackup
