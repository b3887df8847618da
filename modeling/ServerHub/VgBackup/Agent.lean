import ServerHub.VgBackup.Replies

namespace VgBackup

open Interleave

def vgAgentOrgID : String := "serverhub"

def wholeSeconds (d : Int) : Int := d.tdiv second

def vgConnectionFor (env : Env) (job : LoadedJob) : Option ConnectionDTO :=
  match job.row.connectionID, job.connection with
  | some id, some conn =>
      if conn.id = id then
        (env.decrypt conn.encryptedPassword).map fun pw =>
          ⟨conn.id,conn.type,conn.host,conn.port,conn.username,pw⟩
      else none
  | _, _ => none

def vgStorageConfigFor (env : Env) (target : VgStorageTarget) : StorageConfigDTO where
  type := target.type
  path := target.path
  bucket := target.bucket
  region := target.region
  endpoint := target.endpoint
  usePathStyle := target.usePathStyle
  accessKey := if target.type = .s3 then (env.decrypt target.encryptedAccessKey).getD "" else ""
  secretKey := if target.type = .s3 then (env.decrypt target.encryptedSecretKey).getD "" else ""

def vgTouch (agent : UUID) : Handler Unit := do
  let now ← query .now
  writeSide (.touchAgent agent now)

def jobConfig (env : Env) (job : LoadedJob) : JobConfigDTO :=
  let eff := effectivePolicy job
  { jobID := job.row.id
    organizationID := vgAgentOrgID
    name := job.row.name
    sourceType := job.row.sourceType
    connectionID := job.row.connectionID
    sourcePath := job.row.sourcePath
    sourceDatabase := job.row.sourceDatabase
    includePatterns := job.row.includePatterns
    excludePatterns := job.row.excludePatterns
    mode := eff.mode
    encrypted := eff.encrypted
    retentionDays := eff.retentionDays
    exportFormat := job.row.exportFormat
    connection := vgConnectionFor env job
    storageType := job.storageTarget.type
    storageBucket := job.storageTarget.bucket
    storageRegion := job.storageTarget.region
    storageEndpoint := job.storageTarget.endpoint
    storagePath := job.storageTarget.path
    storage := vgStorageConfigFor env job.storageTarget }

def credentialMessage : String :=
  "server cannot decrypt the job's connection credentials; check SERVERHUB_ENCRYPTION_KEY"

def credentialFailure (run : VgBackupRun) (now : Time) : RunPatch :=
  { status := some .failed
    completedAt := some now
    errorMessage := some credentialMessage
    failureCategory := some "CREDENTIAL_DECRYPT"
    durationSeconds := run.startedAt.map fun t => wholeSeconds (now - t) }

def vgClaimRun (env : Env) (agent : UUID) (param : String) : Handler Reply := do
  vgTouch agent
  match env.parseUUID param with
  | none => fail 400 "invalid id"
  | some runID =>
      let now ← query .now
      let rows ← writeRun (.update { id := runID, agent := some agent, status := some .pending }
        { status := some .running, startedAt := some now })
      if rows = 0 then
        match ← query (.firstRun runID (some agent)) with
        | none => fail 404 "run not found"
        | some _ => fail 409 "run already claimed"
      else
        match ← query (.loadRun runID) with
        | none => fail 500 "failed to load run"
        | some (run,job) =>
            if job.row.connectionID.isSome && (vgConnectionFor env job).isNone then
              let now2 ← query .now
              let _ ← writeRun (.update { id := run.id } (credentialFailure run now2))
              fail 500 credentialMessage
            else
              return ⟨200,.claimed ⟨run.id,run.backupJobID,run.status,run.createdAt⟩
                run.cancelRequested (jobConfig env job)⟩

structure RunReport where
  status : String
  bytesRead : Int
  bytesCompressed : Int
  bytesUploaded : Int
  errorMessage : String
  storagePath : String
  checksum : String
  dataKey : String
deriving DecidableEq

def RunReport.counters (req : RunReport) : RunPatch :=
  { bytesRead := some req.bytesRead
    bytesCompressed := some req.bytesCompressed
    bytesUploaded := some req.bytesUploaded }

def RunReport.transition (req : RunReport) (st : RunStatus) (run : VgBackupRun) (now : Time)
    (wrapped : Option String) : RunPatch :=
  let done := decide (st = .completed ∨ st = .failed)
  { req.counters with
    status := some st
    errorMessage := some req.errorMessage
    storagePath := some req.storagePath
    checksum := some req.checksum
    completedAt := if done then some now else none
    durationSeconds := if done then run.startedAt.map fun t => wholeSeconds (now - t) else none
    dataKeyEncrypted := wrapped }

def invalidTransition (run : VgBackupRun) (req : RunReport) : Handler Reply :=
  fail 400 ("invalid status transition: " ++ run.status.text ++ " → " ++ req.status)

def recordTransition (env : Env) (run : VgBackupRun) (req : RunReport) (st : RunStatus) :
    Handler Reply := do
  let now ← query .now
  let wrapped := env.encrypt req.dataKey
  if req.dataKey ≠ "" ∧ wrapped = none then fail 500 "failed to store data key"
  else
    let rows ← writeRun (.update { id := run.id, status := some run.status }
      (req.transition st run now (if req.dataKey ≠ "" then wrapped else none)))
    if rows = 0 then fail 409 "run status changed concurrently, please retry"
    else
      let fresh ← query (.firstRun run.id none)
      if st = .completed then
        let now2 ← query .now
        writeSide (.verifyArtifacts run.id now2)
        return ⟨200,.updated (some (fresh.any (·.cancelRequested)))⟩
      else
        return ⟨200,.updated (some (fresh.any (·.cancelRequested)))⟩

def recordReport (env : Env) (run : VgBackupRun) (req : RunReport) : Handler Reply := do
  match RunStatus.parse req.status with
  | none => invalidTransition run req
  | some st =>
      if canTransition run.status st then recordTransition env run req st
      else if st = run.status then
        if run.status.active then
          let _ ← writeRun (.update { id := run.id } req.counters)
          return ⟨200,.updated none⟩
        else return ⟨200,.updated none⟩
      else invalidTransition run req

def vgUpdateRunStatus (env : Env) (agent : UUID) (param : String) (req : RunReport) :
    Handler Reply := do
  match env.parseUUID param with
  | none => fail 400 "invalid id"
  | some runID =>
      if req.bytesRead < 0 ∨ req.bytesCompressed < 0 ∨ req.bytesUploaded < 0 then
        fail 400 "byte counters must be >= 0"
      else
        match ← query (.firstRun runID (some agent)) with
        | none => fail 404 "run not found"
        | some run =>
            if req.storagePath ≠ "" then
              let target ← query (.firstTarget run.storageTargetID)
              if target.any fun t => decide (t.path ≠ "") &&
                  !vgIsWithinBase t.path.toList req.storagePath.toList then
                fail 400 "storage_path is outside the configured storage target directory"
              else recordReport env run req
            else recordReport env run req

def outsideTarget (target : Option VgStorageTarget) (storagePath : String) : Bool :=
  target.any fun t => decide (t.path ≠ "") && !vgIsWithinBase t.path.toList storagePath.toList

structure ArtifactReport where
  name : String
  size : Int
  checksum : String
  storagePath : String
deriving DecidableEq

def registerArtifact (n : NewArtifact) : Handler Reply := do
  match ← query (.artifactNamed n.backupRunID n.name) with
  | some existing => return ⟨200,.artifact existing⟩
  | none =>
      match ← writeSide (.insertArtifact n) with
      | some row => return ⟨201,.artifact row⟩
      | none =>
          match ← query (.artifactNamed n.backupRunID n.name) with
          | some winner => return ⟨200,.artifact winner⟩
          | none => fail 500 "failed to register artifact"

def vgRegisterArtifact (env : Env) (agent : UUID) (param : String) (req : ArtifactReport) :
    Handler Reply := do
  match env.parseUUID param with
  | none => fail 400 "invalid run id"
  | some runID =>
      match ← query (.firstRun runID (some agent)) with
      | none => fail 404 "run not found"
      | some run =>
          if req.name = "" then fail 400 (env.bindError "Name")
          else if req.size < 0 then fail 400 "size must be >= 0"
          else
            let new : NewArtifact :=
              ⟨runID,req.name,req.size,req.checksum,req.storagePath,run.storageTargetID⟩
            if req.storagePath ≠ "" then
              let target ← query (.firstTarget run.storageTargetID)
              if outsideTarget target req.storagePath then
                fail 400 "storage_path is outside the configured storage target directory"
              else registerArtifact new
            else registerArtifact new

structure ChunkReport where
  index : Int
  size : Int
  checksum : String
  storagePath : String
  uploaded : Bool
deriving DecidableEq

def repeatedChunk (existing : VgBackupChunk) (checksum : String) : Handler Reply :=
  if existing.checksum ≠ checksum then
    fail 409 "chunk already exists with a different checksum"
  else return ⟨200,.chunk existing⟩

def registerChunk (n : NewChunk) : Handler Reply := do
  match ← query (.chunkAt n.artifactID n.index) with
  | some existing => repeatedChunk existing n.checksum
  | none =>
      match ← writeSide (.insertChunk n) with
      | some row => return ⟨201,.chunk row⟩
      | none =>
          match ← query (.chunkAt n.artifactID n.index) with
          | some winner => repeatedChunk winner n.checksum
          | none => fail 500 "failed to register chunk"

def vgRegisterChunk (env : Env) (agent : UUID) (param : String) (req : ChunkReport) :
    Handler Reply := do
  match env.parseUUID param with
  | none => fail 400 "invalid artifact_id"
  | some artifactID =>
      match ← query (.firstArtifact artifactID) with
      | none => fail 404 "artifact not found"
      | some artifact =>
          match ← query (.firstRun artifact.backupRunID (some agent)) with
          | none => fail 403 "access denied"
          | some _ =>
              let new : NewChunk :=
                ⟨artifactID,req.index,req.size,req.checksum,req.storagePath,req.uploaded⟩
              if req.index < 0 ∨ req.size < 0 then fail 400 "index and size must be >= 0"
              else registerChunk new

def vgConnectionForRestore (env : Env) (job : LoadedRestore) : Option ConnectionDTO :=
  let pinned := match job.row.connectionID, job.connection with
    | some id, some conn =>
        if conn.id = id then
          match env.decrypt conn.encryptedPassword with
          | some pw => if pw ≠ "" then
              some (⟨conn.id,conn.type,conn.host,conn.port,conn.username,pw⟩ : ConnectionDTO)
            else none
          | none => none
        else none
    | _, _ => none
  match pinned with
  | some dto => some dto
  | none => vgConnectionFor env job.job

def vgRestoreDTO (env : Env) (job : LoadedRestore) : RestoreDTO where
  id := job.row.id
  backupRunID := job.row.backupRunID
  destinationPath := job.row.destinationPath
  targetDatabase := job.row.targetDatabase
  status := job.row.status
  storagePath := job.run.storagePath
  storageType := job.job.storageTarget.type
  storage := vgStorageConfigFor env job.job.storageTarget
  dataKey := if job.run.dataKeyEncrypted ≠ "" then (env.decrypt job.run.dataKeyEncrypted).getD ""
    else ""
  connection := vgConnectionForRestore env job
  sourceType := job.job.row.sourceType
  sourceDatabase := job.job.row.sourceDatabase
  exportFormat := job.job.row.exportFormat
  createdAt := job.row.createdAt

def failRestoreClaim (job : VgRestoreJob) (message : String) : Handler Reply := do
  let now ← query .now
  let _ ← writeRestore (.update { id := job.id }
    { status := .failed
      completedAt := some now
      errorMessage := some message
      durationSeconds := job.startedAt.map fun t => wholeSeconds (now - t) })
  fail 500 message

def vgClaimRestore (env : Env) (agent : UUID) (param : String) : Handler Reply := do
  vgTouch agent
  match env.parseUUID param with
  | none => fail 400 "invalid id"
  | some id =>
      let now ← query .now
      let rows ← writeRestore (.update { id := id, agent := some agent, status := some .pending }
        { status := .running, startedAt := some now })
      if rows = 0 then
        match ← query (.firstRestore id agent) with
        | none => fail 404 "restore not found"
        | some _ => fail 409 "restore already claimed"
      else
        match ← query (.loadRestore id) with
        | none => fail 500 "failed to load restore"
        | some job =>
            if (job.row.connectionID.isSome || job.job.row.connectionID.isSome) &&
                (vgConnectionForRestore env job).isNone then
              failRestoreClaim job.row
                "server cannot decrypt restore credentials; check SERVERHUB_ENCRYPTION_KEY"
            else if job.run.dataKeyEncrypted ≠ "" ∧ env.decrypt job.run.dataKeyEncrypted = none then
              failRestoreClaim job.row
                "server cannot unwrap the backup data key; check SERVERHUB_ENCRYPTION_KEY"
            else return ⟨200,.restore (vgRestoreDTO env job)⟩

structure RestoreReport where
  status : String
  errorMessage : String
deriving DecidableEq

def vgUpdateRestoreStatus (env : Env) (agent : UUID) (param : String) (req : RestoreReport) :
    Handler Reply := do
  match env.parseUUID param with
  | none => fail 400 "invalid id"
  | some id =>
      match ← query (.firstRestore id agent) with
      | none => fail 404 "not found"
      | some job =>
          let invalid := "invalid restore transition: " ++ job.status.text ++ " → " ++ req.status
          match RestoreStatus.parse req.status with
          | none => fail 400 invalid
          | some st =>
              if st = job.status ∧ (job.status = .completed ∨ job.status = .failed) then
                return ⟨200,.updated none⟩
              else if canRestoreTransition job.status st then
                let now ← query .now
                let done := decide (st = .completed ∨ st = .failed)
                let _ ← writeRestore (.update { id := id, agent := some agent, status := some job.status }
                  { status := st
                    errorMessage := if req.errorMessage ≠ "" then some req.errorMessage else none
                    startedAt := if st = .running ∧ job.startedAt = none then some now else none
                    completedAt := if done then some now else none
                    durationSeconds := if done then job.startedAt.map fun t => wholeSeconds (now - t)
                      else none })
                return ⟨200,.updated none⟩
              else fail 400 invalid

end VgBackup
