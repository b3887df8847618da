import ServerHub.VgBackup.Orderly.Rules

namespace VgBackup

open Relational Interleave

variable {env : Env} {pid : Nat} {x : Trace}

theorem orderly_vgTouch (agent : UUID) : Orderly env pid (vgTouch agent) x :=
  orderly_query fun _ _ => orderly_last (fun _ _ => trivial) fun _ _ => trivial

theorem claimed_of_claim {s t : Store} {pid : Nat} {id agent : UUID} {now : Time} {n : Nat}
    (h : (RunWrite.update { id := id, agent := some agent, status := some .pending }
      { status := some .running, startedAt := some now }).exec pid s = some (t,n))
    (hn : n ≠ 0) : Claimed id t := by
  obtain ⟨rfl,rfl,-⟩ := update_exec h
  obtain ⟨r,hf,hm⟩ := count_pos_find hn
  refine ⟨_,by rw [find_updateRun,hf]; rfl,?_⟩
  simp only [hm]
  simp [RunPatch.apply]

theorem orderly_vgClaimRun (agent : UUID) (param : String) :
    Orderly env pid (vgClaimRun env agent param) x := by
  refine orderly_bind (orderly_vgTouch agent) ?_
  intro _ t1 _
  split
  · exact orderly_fail _ _
  · rename_i runID _
    refine orderly_query fun t2 _ => ?_
    refine orderly_perform (fun _ _ => RunBacked.claim _ _ _) (fun _ _ => trivial) ?_
    intro t3 t4 rows _ hx _ _
    split
    · refine orderly_query fun t5 _ => ?_
      split <;> exact orderly_fail _ _
    · rename_i hrows
      have hc4 : Claimed runID t4.state := by
        simp only [Stmt.exec] at hx
        exact claimed_of_claim hx hrows
      refine orderly_query fun t5 h5 => ?_
      split
      · exact orderly_fail _ _
      · rename_i run job hload
        have hid : run.id = runID := by
          simp only [Select.eval,Option.map_eq_some_iff,Prod.mk.injEq] at hload
          obtain ⟨r,hr,rfl,-⟩ := hload
          exact (Table.find_some (first_some hr).1).2
        split
        · refine orderly_query fun t6 h6 => ?_
          refine orderly_run ?_ (fun _ _ => trivial) fun _ _ _ => orderly_fail _ _
          intro t7 h7
          refine .credential run _ h7.later.clock ?_
          intro r hr
          obtain ⟨r',hr',hp⟩ := claimed_later (h5.trans (h6.trans h7)).later hc4
          rw [hid,hr'] at hr
          exact (Option.some.inj hr) ▸ hp
        · exact orderly_ret _

theorem orderly_recordTransition {run : VgBackupRun} {req : RunReport} {st : RunStatus}
    (h : canTransition run.status st = true) :
    Orderly env pid (recordTransition env run req st) x := by
  refine orderly_query fun t1 _ => ?_
  dsimp only
  split
  · exact orderly_fail _ _
  · refine orderly_run (fun t2 h2 => RunBacked.report run req st _ _ h h2.later.clock)
      (fun _ _ => trivial) ?_
    intro t3 rows _
    split
    · exact orderly_fail _ _
    · refine orderly_query fun t4 _ => ?_
      split
      · exact orderly_query fun _ _ => orderly_side fun _ _ _ => orderly_ret _
      · exact orderly_ret _

theorem orderly_recordReport (run : VgBackupRun) (req : RunReport) :
    Orderly env pid (recordReport env run req) x := by
  unfold recordReport invalidTransition
  split
  · exact orderly_fail _ _
  · rename_i st _
    split
    · rename_i h
      exact orderly_recordTransition h
    · split
      · split
        · exact orderly_run (fun _ _ => RunBacked.progress _ req) (fun _ _ => trivial)
            fun _ _ _ => orderly_ret _
        · exact orderly_ret _
      · exact orderly_fail _ _

theorem orderly_vgUpdateRunStatus (agent : UUID) (param : String) (req : RunReport) :
    Orderly env pid (vgUpdateRunStatus env agent param req) x := by
  unfold vgUpdateRunStatus
  split
  · exact orderly_fail _ _
  · split
    · exact orderly_fail _ _
    · refine orderly_query fun t1 _ => ?_
      split
      · exact orderly_fail _ _
      · rename_i run _
        split
        · refine orderly_query fun t2 _ => ?_
          split
          · exact orderly_fail _ _
          · exact orderly_recordReport run req
        · exact orderly_recordReport run req

theorem orderly_registerArtifact (n : NewArtifact) :
    Orderly env pid (registerArtifact n) x := by
  refine orderly_query fun _ _ => ?_
  split
  · exact orderly_ret _
  · refine orderly_side fun _ row _ => ?_
    cases row with
    | some row => exact orderly_ret _
    | none =>
      refine orderly_query fun _ _ => ?_
      split
      · exact orderly_ret _
      · exact orderly_fail _ _

theorem orderly_vgRegisterArtifact (agent : UUID) (param : String) (req : ArtifactReport) :
    Orderly env pid (vgRegisterArtifact env agent param req) x := by
  unfold vgRegisterArtifact
  split
  · exact orderly_fail _ _
  · refine orderly_query fun _ _ => ?_
    split
    · exact orderly_fail _ _
    · split
      · exact orderly_fail _ _
      · split
        · exact orderly_fail _ _
        · dsimp only
          split
          · refine orderly_query fun _ _ => ?_
            split
            · exact orderly_fail _ _
            · exact orderly_registerArtifact _
          · exact orderly_registerArtifact _

theorem orderly_repeatedChunk (existing : VgBackupChunk) (checksum : String) :
    Orderly env pid (repeatedChunk existing checksum) x := by
  unfold repeatedChunk
  split
  · exact orderly_fail _ _
  · exact orderly_ret _

theorem orderly_registerChunk (n : NewChunk) : Orderly env pid (registerChunk n) x := by
  refine orderly_query fun _ _ => ?_
  split
  · exact orderly_repeatedChunk _ _
  · refine orderly_side fun _ row _ => ?_
    cases row with
    | some row => exact orderly_ret _
    | none =>
      refine orderly_query fun _ _ => ?_
      split
      · exact orderly_repeatedChunk _ _
      · exact orderly_fail _ _

theorem orderly_vgRegisterChunk (agent : UUID) (param : String) (req : ChunkReport) :
    Orderly env pid (vgRegisterChunk env agent param req) x := by
  unfold vgRegisterChunk
  split
  · exact orderly_fail _ _
  · refine orderly_query fun _ _ => ?_
    split
    · exact orderly_fail _ _
    · refine orderly_query fun _ _ => ?_
      split
      · exact orderly_fail _ _
      · dsimp only
        split
        · exact orderly_fail _ _
        · exact orderly_registerChunk _

theorem orderly_failRestoreClaim (job : VgRestoreJob) (message : String) :
    Orderly env pid (failRestoreClaim job message) x := by
  refine orderly_query fun t1 _ => ?_
  refine orderly_restore ?_ (fun _ _ => trivial) fun _ _ _ => orderly_fail _ _
  intro h
  simp [RestoreStatus.active] at h

theorem orderly_vgClaimRestore (agent : UUID) (param : String) :
    Orderly env pid (vgClaimRestore env agent param) x := by
  refine orderly_bind (orderly_vgTouch agent) ?_
  intro _ t1 _
  split
  · exact orderly_fail _ _
  · refine orderly_query fun t2 _ => ?_
    refine orderly_restore (fun _ => ⟨_,rfl,rfl⟩) (fun _ _ => trivial) ?_
    intro t3 rows _
    split
    · refine orderly_query fun t4 _ => ?_
      split <;> exact orderly_fail _ _
    · refine orderly_query fun t4 _ => ?_
      split
      · exact orderly_fail _ _
      · split
        · exact orderly_failRestoreClaim _ _
        · split
          · exact orderly_failRestoreClaim _ _
          · exact orderly_ret _

theorem canRestoreTransition_active {a b : RestoreStatus} (h : canRestoreTransition a b = true) :
    a.active = true := by
  cases a <;> simp_all [canRestoreTransition,RestoreStatus.active]

theorem orderly_vgUpdateRestoreStatus (agent : UUID) (param : String) (req : RestoreReport) :
    Orderly env pid (vgUpdateRestoreStatus env agent param req) x := by
  unfold vgUpdateRestoreStatus
  split
  · exact orderly_fail _ _
  · refine orderly_query fun t1 _ => ?_
    split
    · exact orderly_fail _ _
    · split
      · exact orderly_fail _ _
      · split
        · exact orderly_ret _
        · split
          · rename_i hc
            refine orderly_query fun t2 _ => ?_
            refine orderly_restore ?_ (fun _ _ => trivial) fun _ _ _ => orderly_ret _
            intro _
            exact ⟨_,rfl,canRestoreTransition_active hc⟩
          · exact orderly_fail _ _

end VgBackup
