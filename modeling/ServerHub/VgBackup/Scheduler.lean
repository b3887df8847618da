import ServerHub.VgBackup.Agent

namespace VgBackup

open Interleave

def zeroTime : Time := -62135596800 * second

def minutes (n : Int) : Int := n * 60 * second

def staleRunAfter : Int := minutes 15

def agentGoneAfter : Int := minutes 3

def scheduleLocation (env : Env) (timezone : String) : String :=
  if timezone ≠ "" ∧ env.loadLocation timezone then timezone else "UTC"

def boundaryFor (env : Env) (cronExpr timezone : String) (prev now : Time) : Option Time :=
  if cronExpr = "" then none
  else match env.parseCron cronExpr with
    | .error _ => none
    | .ok sched =>
        let next := sched (scheduleLocation env timezone) prev
        if now < next then none else some next

def retryDelay (eff : ResolvedPolicy) : Int :=
  if eff.retryDelaySeconds ≤ 0 then 300 else eff.retryDelaySeconds

def retryDue (eff : ResolvedPolicy) (now : Time) (latest : VgBackupRun) : Bool :=
  decide (latest.status = .failed) && decide (latest.retryAttempt < eff.maxRetries) &&
  latest.completedAt.any fun c => decide (retryDelay eff * second ≤ now - c)

def retryRun (job : VgBackupJob) (latest : VgBackupRun) : NewRun where
  backupJobID := job.id
  agentID := job.agentID
  storageTargetID := job.storageTargetID
  sourceType := job.sourceType
  retryOfRunID := some latest.id
  retryAttempt := latest.retryAttempt + 1

def fireRetry (job : VgBackupJob) (latest : VgBackupRun) : Handler Unit := do
  match ← writeRun (.lock latest.id) with
  | none => return ()
  | some _ =>
      let existing ← query (.retriesOf latest.id)
      if 0 < existing then writeRun .commit
      else
        let _ ← writeRun (.insertCommit (retryRun job latest))
        return ()

def maybeFireRetry (job : LoadedJob) (eff : ResolvedPolicy) (now : Time) : Handler Unit := do
  if !eff.enabled || decide (eff.maxRetries ≤ 0) then return ()
  else
    let inflight ← query (.inflight job.row.id)
    if 0 < inflight then return ()
    else
      match ← query (.latestRun job.row.id) with
      | none => return ()
      | some latest =>
          if retryDue eff now latest then fireRetry job.row latest else return ()

def scheduledRun (job : VgBackupJob) (boundary : Time) : NewRun where
  backupJobID := job.id
  agentID := job.agentID
  storageTargetID := job.storageTargetID
  sourceType := job.sourceType
  scheduledFor := some boundary

def fire (job : VgBackupJob) (boundary : Time) : Handler Unit := do
  let inflight ← query (.inflight job.id)
  if 0 < inflight then return ()
  else
    let _ ← writeRun (.insert (scheduledRun job boundary) true)
    return ()

def tickJob (env : Env) (prev now : Time) (job : LoadedJob) : Handler Unit := do
  let eff := effectivePolicy job
  if eff.enabled then
    maybeFireRetry job eff now
    if eff.cronExpr = "" then return ()
    else
      match boundaryFor env eff.cronExpr eff.timezone prev now with
      | none => return ()
      | some boundary => fire job.row boundary
  else return ()

def tickJobs (env : Env) (prev now : Time) : Handler Unit := do
  let jobs ← query .allJobs
  Prog.each (tickJob env prev now) jobs

def stalePatch (now : Time) (run : VgBackupRun) : RunPatch where
  status := some (if run.cancelRequested then .cancelled else .failed)
  completedAt := some now
  errorMessage := some (if run.cancelRequested
    then "agent stopped reporting after cancel request; run marked cancelled"
    else "agent stopped reporting; run marked failed by background scheduler")
  failureCategory := some "AGENT_OFFLINE"
  durationSeconds := some ((run.startedAt.map fun t => wholeSeconds (now - t)).getD 0)

def checkStaleRun (now : Time) (run : VgBackupRun) : Handler Unit := do
  match ← query (.firstAgent run.agentID) with
  | none => return ()
  | some agent =>
      if agent.lastSeenAt.any fun t => decide (now - t < agentGoneAfter) then return ()
      else
        let _ ← writeRun (.update { id := run.id, status := some run.status } (stalePatch now run))
        return ()

def checkStaleRuns (now : Time) : Handler Unit := do
  let runs ← query (.staleRuns (now - staleRunAfter))
  Prog.each (checkStaleRun now) runs

def storedPaths (run : VgBackupRun) (artifacts : List VgBackupArtifact) : List Posix.Text :=
  run.storagePath.toList :: artifacts.map fun a => a.storagePath.toList

def deleteRunFiles (env : Env) (run : VgBackupRun) : Handler Unit := do
  match ← query (.firstTarget run.storageTargetID) with
  | none => return ()
  | some target =>
      if target.type ≠ .localDisk then return ()
      else if target.path = "" ∨ Posix.isAbs target.path.toList = false then return ()
      else
        let artifacts ← query (.artifactsOf run.id)
        writeSide (.removeFiles target.path.toList env.deleteRoot.toList (storedPaths run artifacts))

def retireRun (env : Env) (run : VgBackupRun) : Handler Unit := do
  let active ← query (.activeRestores run.id)
  if 0 < active then return ()
  else
    deleteRunFiles env run
    let artifacts ← query (.artifactsOf run.id)
    Prog.each (fun a => writeSide (.deleteChunks a.id)) artifacts
    writeSide (.deleteArtifacts run.id)
    writeRun (.delete run.id)

def retainJob (env : Env) (now : Time) (job : LoadedJob) : Handler Unit := do
  let days := (effectivePolicy job).retentionDays
  if days ≤ 0 then return ()
  else
    let expired ← query (.expiredRuns job.row.id (env.addDate now (-days)))
    Prog.each (retireRun env) expired

def enforceRetention (env : Env) (now : Time) : Handler Unit := do
  let jobs ← query .allJobs
  Prog.each (retainJob env now) jobs

def verifyBatchLimit : Nat := 50

def openedPath (env : Env) (p : String) : Posix.Text :=
  if Posix.isAbs p.toList then p.toList else env.workDir.toList ++ '/' :: p.toList

def artifactPath (run : VgBackupRun) (a : VgBackupArtifact) : String :=
  if a.storagePath = "" then run.storagePath else a.storagePath

def expectedChecksum (run : VgBackupRun) (a : VgBackupArtifact) : String :=
  if a.checksum = "" then run.checksum else a.checksum

def verifyArtifact (env : Env) (now : Time) (run : VgBackupRun) (a : VgBackupArtifact) :
    Handler Unit := do
  if artifactPath run a = "" ∨ expectedChecksum run a = "" then return ()
  else
    match ← query (.readFile (openedPath env (artifactPath run a))) with
    | none => return ()
    | some data =>
        let status := if env.sha256 data = Go.toLower (expectedChecksum run a) then
          .verified else .verifyFail
        writeSide (.settleArtifact a.id status now)

def verifyCompletedRun (env : Env) (now : Time) (run : VgBackupRun × LoadedJob) :
    Handler Unit := do
  if (effectivePolicy run.2).verificationEnabled then
    match ← query (.firstTarget run.1.storageTargetID) with
    | none => return ()
    | some target =>
        if target.type ≠ .localDisk then return ()
        else
          let artifacts ← query (.unverifiedArtifacts run.1.id)
          Prog.each (verifyArtifact env now run.1) artifacts
  else return ()

def verifyCompletedRuns (env : Env) (now : Time) : Handler Unit := do
  let runs ← query (.completedRuns verifyBatchLimit)
  Prog.each (verifyCompletedRun env now) runs

def updateSizeBaseline (now : Time) (job : LoadedJob) : Handler Unit := do
  let sizes ← query (.uploadedSizes job.row.id 10)
  if sizes.length < 3 then return ()
  else
    let sum := sizes.foldl (fun sum sz => Go.int64 (sum + sz)) 0
    let avg := sum.tdiv (Int.ofNat sizes.length)
    match ← query (.firstBaseline job.row.id) with
    | none => writeSide (.insertBaseline job.row.id avg sizes.length now)
    | some _ => writeSide (.updateBaseline job.row.id avg sizes.length now)

def updateSizeBaselines (now : Time) : Handler Unit := do
  let jobs ← query .allJobs
  Prog.each (updateSizeBaseline now) jobs

def tick (env : Env) (prev now : Time) : Handler Unit := do
  if prev ≠ zeroTime then tickJobs env prev now
  checkStaleRuns now
  enforceRetention env now
  verifyCompletedRuns env now
  updateSizeBaselines now

end VgBackup
