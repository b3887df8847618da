import ServerHub.VgBackup.Orderly.Rules
import ServerHub.VgBackup.Validation

namespace VgBackup

open Relational Interleave

variable {env : Env} {pid : Nat} {x : Trace}

theorem orderly_resolveConnection (actor : Actor) (source : VgBackupSourceType) (agent : UUID)
    (raw : String) : Orderly env pid (resolveConnection env actor source agent raw) x := by
  unfold resolveConnection
  split
  · exact orderly_ret _
  · split
    · exact orderly_ret _
    · refine orderly_query fun t1 _ => ?_
      split
      · exact orderly_ret _
      · split
        · exact orderly_ret _
        · split <;> exact orderly_ret _

theorem orderly_resolvePolicy (actor : Actor) (raw : String) :
    Orderly env pid (resolvePolicy env actor raw) x := by
  unfold resolvePolicy
  split
  · exact orderly_ret _
  · split
    · exact orderly_ret _
    · refine orderly_query fun t1 _ => ?_
      split
      · exact orderly_ret _
      · split <;> exact orderly_ret _

theorem orderly_createBackupJob (actor : Actor) (req : JobRequest) :
    Orderly env pid (createBackupJob env actor req) x := by
  unfold createBackupJob
  split
  · exact orderly_fail _ _
  · exact orderly_fail _ _
  · exact orderly_fail _ _
  · rename_i agentID storageID _ _ _
    refine orderly_query fun t1 _ => ?_
    split
    · exact orderly_fail _ _
    · refine orderly_query fun t2 _ => ?_
      split
      · exact orderly_fail _ _
      · rename_i htarget
        have hlive : (first t2.state.targets storageID).isSome := by
          cases hf : first t2.state.targets storageID with
          | none => simp [Select.eval,hf] at htarget
          | some x => rfl
        split
        · exact orderly_fail _ _
        · rename_i mode exportFormat hcheck
          refine orderly_bind (orderly_resolveConnection actor req.sourceType agentID _) ?_
          intro conn t3 h3
          split
          · exact orderly_fail _ _
          · split
            · exact orderly_fail _ _
            · split
              · exact orderly_fail _ _
              · refine orderly_bind (orderly_resolvePolicy actor req.policyID) ?_
                intro policy t4 h4
                split
                · exact orderly_fail _ _
                · refine orderly_job ?_ ?_
                  · intro t5 h5
                    refine ⟨(checkCreate_checked hcheck).source,?_⟩
                    rw [(h3.trans (h4.trans h5)).later.targets]
                    exact hlive
                  · intro t6 id _
                    split
                    · refine orderly_job (fun _ _ => trivial) fun _ _ _ => ?_
                      exact orderly_query fun _ _ => orderly_ret _
                    · exact orderly_query fun _ _ => orderly_ret _

theorem orderly_saveSchedule (job : UUID) (cronExpr timezone : String) :
    Orderly env pid (saveSchedule job cronExpr timezone) x := by
  unfold saveSchedule
  split
  · refine orderly_query fun t1 _ => ?_
    split
    · exact orderly_job (fun _ _ => trivial) fun _ _ _ => orderly_ret _
    · exact orderly_last (fun _ _ => trivial) fun _ _ => trivial
  · exact orderly_ret _

theorem orderly_updateBackupJob (actor : Actor) (param : String) (req : JobRequest) :
    Orderly env pid (updateBackupJob env actor param req) x := by
  unfold updateBackupJob
  split
  · exact orderly_fail _ _
  · refine orderly_query fun t1 _ => ?_
    split
    · exact orderly_fail _ _
    · rename_i job _
      split
      · exact orderly_fail _ _
      · split
        · exact orderly_fail _ _
        · refine orderly_bind (orderly_resolveConnection actor job.sourceType job.agentID _) ?_
          intro conn t2 _
          split
          · exact orderly_fail _ _
          · split
            · exact orderly_fail _ _
            · refine orderly_bind (orderly_resolvePolicy actor req.policyID) ?_
              intro policy t3 _
              split
              · exact orderly_fail _ _
              · refine orderly_job (fun _ _ => trivial) fun t4 _ _ => ?_
                refine orderly_bind (orderly_saveSchedule _ _ _) fun _ t5 _ => ?_
                exact orderly_query fun _ _ => orderly_ret _

theorem orderly_deleteBackupJob (actor : Actor) (param : String) :
    Orderly env pid (deleteBackupJob env actor param) x := by
  unfold deleteBackupJob
  split
  · exact orderly_fail _ _
  · refine orderly_query fun t1 _ => ?_
    split
    · exact orderly_fail _ _
    · split
      · exact orderly_fail _ _
      · refine orderly_job (fun _ _ => trivial) fun t2 _ _ => ?_
        exact orderly_job (fun _ _ => trivial) fun _ _ _ => orderly_ret _

theorem orderly_deletePolicy (actor : Actor) (param : String) :
    Orderly env pid (deletePolicy env actor param) x := by
  unfold deletePolicy
  split
  · exact orderly_fail _ _
  · refine orderly_query fun t1 _ => ?_
    split
    · exact orderly_fail _ _
    · split
      · exact orderly_fail _ _
      · refine orderly_query fun t2 _ => orderly_job (fun _ _ => trivial) fun t3 _ _ => ?_
        split
        · exact orderly_ret _
        · exact orderly_fail _ _

theorem orderly_runNow (actor : Actor) (param : String) :
    Orderly env pid (runNow env actor param) x := by
  unfold runNow
  split
  · exact orderly_fail _ _
  · refine orderly_query fun t1 _ => ?_
    split
    · exact orderly_fail _ _
    · rename_i job hjob
      have hk : Known job t1.state := known_first hjob
      split
      · exact orderly_fail _ _
      · refine orderly_query_noted fun t2 t3 _ _ h3 hlog => ?_
        split
        · exact orderly_fail _ _
        · rename_i hzero
          rw [Nat.eq_zero_of_not_pos hzero] at hlog
          refine orderly_run ?_ ?_ ?_
          · intro t4 h4
            exact ⟨grounded_of_known (known_later (h3.trans h4).later hk) rfl rfl rfl rfl,rfl,rfl⟩
          · intro t4 h4
            exact counted_meanwhile h4 (counted_noted hlog)
          · intro t4 b _
            split
            · exact orderly_ret _
            · exact orderly_fail _ _

theorem orderly_cancelBackupRun (actor : Actor) (param : String) :
    Orderly env pid (cancelBackupRun env actor param) x := by
  unfold cancelBackupRun
  split
  · exact orderly_fail _ _
  · refine orderly_query fun t1 _ => ?_
    split
    · exact orderly_fail _ _
    · split
      · exact orderly_fail _ _
      · split
        · exact orderly_ret _
        · split
          · exact orderly_fail _ _
          · exact orderly_run (fun _ _ => RunBacked.cancel _) (fun _ _ => trivial)
              fun _ _ _ => orderly_ret _

theorem quiet_restoreConnection (job : VgBackupJob) (agent : UUID) :
    Quiet env pid (restoreConnection job agent) x := by
  unfold restoreConnection
  split
  · exact quiet_ret _
  · refine quiet_bind (quiet_query fun _ => rfl) fun conn _ => ?_
    split
    · exact quiet_ret _
    · split <;> exact quiet_ret _

theorem orderly_insertRestore {n : NewRestore} (h : Found pid n.dedupe.backupRunID x) :
    Orderly env pid (insertRestore n) x := by
  refine orderly_bind_quiet (quiet_query fun _ => rfl) fun row t1 h1 => ?_
  split
  · exact orderly_ret _
  · refine orderly_restore trivial ?_ ?_
    · exact fun t2 h2 => found_meanwhile (h1.trans h2) h
    · intro t2 b _
      split
      · exact orderly_ret _
      · refine orderly_query fun t3 _ => ?_
        split
        · exact orderly_ret _
        · exact orderly_fail _ _

theorem orderly_createRestore (actor : Actor) (req : RestoreRequest) :
    Orderly env pid (createRestore env actor req) x := by
  unfold createRestore
  split
  · exact orderly_fail _ _
  · exact orderly_fail _ _
  · exact orderly_fail _ _
  · rename_i runID agentID _ _ _
    refine orderly_query fun t1 _ => ?_
    split
    · exact orderly_fail _ _
    · refine orderly_query_noted fun t2 t3 _ _ _ hlog => ?_
      split
      · exact orderly_fail _ _
      · rename_i run job hload
        have hfound : Found pid runID t3 := by
          rw [hload] at hlog
          exact found_noted hlog
        split
        · exact orderly_fail _ _
        · split
          · exact orderly_fail _ _
          · refine orderly_bind_quiet (quiet_restoreConnection _ _) ?_
            intro conn t4 h4
            split
            · exact orderly_fail _ _
            · exact orderly_insertRestore (found_meanwhile h4 hfound)

end VgBackup
