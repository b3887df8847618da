import ServerHub.VgBackup.Replies

namespace VgBackup

open Interleave

structure JobRequest where
  agentID : String
  storageTargetID : String
  name : String
  sourceType : VgBackupSourceType
  connectionID : String
  sourcePath : String
  sourceDatabase : String
  includePatterns : String
  excludePatterns : String
  mode : String
  encrypted : Bool
  retentionDays : Int
  exportFormat : String
  cronExpr : String
  timezone : String
  policyID : String
  slaTargetMinutes : Int
  rpoTargetMinutes : Int
  rtoTargetMinutes : Int
deriving DecidableEq

def isDatabaseSource : VgBackupSourceType → Bool
  | .postgres | .mongo | .sqlServer | .mssqlServer => true
  | _ => false

def isPathSource : VgBackupSourceType → Bool
  | .filesystem | .dbf => true
  | _ => false

def blankSource : VgBackupSourceType → Bool
  | .other raw => Go.trimSpace raw = ""
  | _ => false

def blank (s : String) : Bool := Go.trimSpace s = ""

def bindJob (env : Env) (req : JobRequest) : Except String Unit :=
  if req.agentID = "" then .error (env.bindError "AgentID")
  else if req.storageTargetID = "" then .error (env.bindError "StorageTargetID")
  else if req.name = "" then .error (env.bindError "Name")
  else if req.sourceType = .other "" then .error (env.bindError "SourceType")
  else .ok ()

def normalizeExportFormat (source : VgBackupSourceType) (raw : String) : Except String String :=
  let upper := Go.toUpper (Go.trimSpace raw)
  let format := if upper = "" then "ARCHIVE" else upper
  if source = .mongo then
    if format = "ARCHIVE" ∨ format = "JSON" ∨ format = "CSV" then .ok format
    else .error "export_format must be ARCHIVE, JSON, or CSV"
  else if raw ≠ "" then .error "export_format only applies to MONGODB jobs"
  else .ok format

def validateJobSourceType (env : Env) : VgBackupSourceType → Except String Unit
  | .other raw => .error ("unsupported source_type " ++ env.quote raw ++
      " (supported: FILESYSTEM, POSTGRES, MONGODB, SQL_SERVER, MSSQL_SERVER, DBF)")
  | _ => .ok ()

def normalizeJobMode (raw : String) (default : VgBackupMode) : Except String VgBackupMode :=
  if blank raw then .ok default
  else
    let m := Go.toUpper (Go.trimSpace raw)
    if m = "NORMAL" then .ok .normal
    else if m = "COMPRESSED" then .ok .compressed
    else .error "mode must be NORMAL or COMPRESSED"

def validateJobSchedule (env : Env) (cronExpr timezone : String) : Except String Unit :=
  match if blank cronExpr then .ok fun _ t => t else env.parseCron (Go.trimSpace cronExpr) with
  | .error e => .error ("invalid cron_expr: " ++ e)
  | .ok _ =>
      let tz := Go.trimSpace timezone
      if tz ≠ "" ∧ env.loadLocation tz = false then .error ("invalid timezone " ++ env.quote tz)
      else .ok ()

def validateJobRetention (days : Int) : Except String Unit :=
  if days < 0 ∨ 3650 < days then .error "retention_days must be 0-3650" else .ok ()

def validateJobTarget (name : String) (v : Int) : Except String Unit :=
  if v < 0 ∨ 525600 < v then .error (name ++ " must be 0-525600 minutes") else .ok ()

def validateJobTargets (req : JobRequest) : Except String Unit := do
  validateJobTarget "sla_target_minutes" req.slaTargetMinutes
  validateJobTarget "rpo_target_minutes" req.rpoTargetMinutes
  validateJobTarget "rto_target_minutes" req.rtoTargetMinutes

def createRetention (req : JobRequest) : Int :=
  if req.retentionDays = 0 then 30 else req.retentionDays

def checkCreate (env : Env) (req : JobRequest) : Except String (VgBackupMode × String) := do
  let mode ← normalizeJobMode req.mode .normal
  validateJobSourceType env req.sourceType
  let exportFormat ← normalizeExportFormat req.sourceType req.exportFormat
  validateJobRetention (createRetention req)
  validateJobSchedule env req.cronExpr req.timezone
  validateJobTargets req
  return (mode,exportFormat)

def resolveConnection (env : Env) (actor : Actor) (source : VgBackupSourceType) (agentID : UUID)
    (raw : String) : Handler (Except String (Option UUID)) := do
  if blank raw then return .ok none
  else
    match env.parseUUID raw with
    | none => return .error "invalid connection_id"
    | some parsed =>
        match ← query (.firstConnection parsed) with
        | none => return .error "connection not found"
        | some conn =>
            if !canAccessBackupResource actor conn.createdByUserID then
              return .error "connection not found"
            else if isDatabaseSource source && conn.agentID != agentID then
              return .error "connection belongs to a different agent; select the connection's agent"
            else return .ok (some parsed)

def resolvePolicy (env : Env) (actor : Actor) (raw : String) :
    Handler (Except String (Option UUID)) := do
  if blank raw then return .ok none
  else
    match env.parseUUID raw with
    | none => return .error "invalid policy_id"
    | some parsed =>
        match ← query (.firstPolicy parsed) with
        | none => return .error "policy not found"
        | some policy =>
            if canAccessBackupResource actor policy.createdByUserID then return .ok (some parsed)
            else return .error "policy not found"

def newJob (req : JobRequest) (actor : Actor) (agentID storageID : UUID)
    (policyID connectionID : Option UUID) (mode : VgBackupMode) (exportFormat : String) :
    VgBackupJob :=
  { VgBackupJob.zero with
    createdByUserID := actor.userID, agentID := agentID, storageTargetID := storageID
    policyID := policyID, name := req.name, sourceType := req.sourceType
    connectionID := connectionID, sourcePath := req.sourcePath
    sourceDatabase := req.sourceDatabase, includePatterns := req.includePatterns
    excludePatterns := req.excludePatterns, mode := mode, encrypted := req.encrypted
    retentionDays := createRetention req, exportFormat := exportFormat, enabled := true
    slaTargetMinutes := req.slaTargetMinutes, rpoTargetMinutes := req.rpoTargetMinutes
    rtoTargetMinutes := req.rtoTargetMinutes }

def createBackupJob (env : Env) (actor : Actor) (req : JobRequest) : Handler Reply := do
  match bindJob env req, env.parseUUID req.agentID, env.parseUUID req.storageTargetID with
  | .error e, _, _ => fail 400 e
  | .ok _, none, _ => fail 400 "invalid agent_id"
  | .ok _, some _, none => fail 400 "invalid storage_target_id"
  | .ok _, some agentID, some storageID =>
      let agent ← query (.firstAgent agentID)
      if !agent.any (canAccessBackupResource actor ·.createdByUserID) then fail 400 "agent not found"
      else
        let target ← query (.firstTarget storageID)
        if !target.any (canAccessBackupResource actor ·.createdByUserID) then
          fail 400 "storage target not found"
        else match checkCreate env req with
          | .error e => fail 400 e
          | .ok (mode,exportFormat) =>
              match ← resolveConnection env actor req.sourceType agentID req.connectionID with
              | .error e => fail 400 e
              | .ok connID =>
                  if blank req.connectionID && isDatabaseSource req.sourceType &&
                      blank req.sourceDatabase then
                    fail 400 "source_database is required for database jobs"
                  else if isPathSource req.sourceType && blank req.sourcePath then
                    fail 400 "source_path is required for filesystem jobs"
                  else match ← resolvePolicy env actor req.policyID with
                    | .error e => fail 400 e
                    | .ok policyID =>
                        let id ← writeJob (.insert
                          (newJob req actor agentID storageID policyID connID mode exportFormat))
                        if req.cronExpr ≠ "" then
                          let _ ← writeJob (.insertSchedule id req.cronExpr (orUTC req.timezone))
                          let job ← query (.loadJob id)
                          return ⟨201,.job job⟩
                        else
                          let job ← query (.loadJob id)
                          return ⟨201,.job job⟩

def keptWhenBlank (new old : String) : String := if blank new then old else new

def checkUpdate (env : Env) (job : VgBackupJob) (req : JobRequest) :
    Except String (VgBackupMode × String) := do
  bindJob env req
  let exportFormat ← normalizeExportFormat job.sourceType req.exportFormat
  if req.agentID ≠ "" ∧ req.agentID ≠ env.uuidString job.agentID then
    .error "agent cannot be changed after creation; recreate the job to move it"
  else if req.storageTargetID ≠ "" ∧ req.storageTargetID ≠ env.uuidString job.storageTargetID then
    .error "storage target cannot be changed after creation; recreate the job to move it"
  else if blankSource req.sourceType = false ∧ req.sourceType ≠ job.sourceType then
    .error "source_type cannot be changed after creation; recreate the job"
  else
    let mode ← normalizeJobMode req.mode job.mode
    validateJobRetention req.retentionDays
    validateJobSchedule env req.cronExpr req.timezone
    validateJobTargets req
    if isPathSource job.sourceType && blank (keptWhenBlank req.sourcePath job.sourcePath) then
      .error "source_path is required for filesystem jobs"
    else return (mode,exportFormat)

def jobPatch (req : JobRequest) (job : VgBackupJob) (mode : VgBackupMode) (exportFormat : String)
    (connectionID policyID : Option UUID) : JobPatch where
  name := req.name
  sourcePath := keptWhenBlank req.sourcePath job.sourcePath
  sourceDatabase := keptWhenBlank req.sourceDatabase job.sourceDatabase
  includePatterns := req.includePatterns
  excludePatterns := req.excludePatterns
  mode := mode
  encrypted := req.encrypted
  retentionDays := req.retentionDays
  exportFormat := exportFormat
  slaTargetMinutes := req.slaTargetMinutes
  rpoTargetMinutes := req.rpoTargetMinutes
  rtoTargetMinutes := req.rtoTargetMinutes
  connectionID := connectionID
  policyID := policyID

def saveSchedule (job : UUID) (cronExpr timezone : String) : Handler Unit := do
  if cronExpr ≠ "" then
    match ← query (.firstSchedule job) with
    | none =>
        let _ ← writeJob (.insertSchedule job cronExpr (orUTC timezone))
        return ()
    | some _ => writeJob (.updateSchedule job cronExpr (orUTC timezone))
  else return ()

def updateBackupJob (env : Env) (actor : Actor) (param : String) (req : JobRequest) :
    Handler Reply := do
  match env.parseUUID param with
  | none => fail 400 "invalid id"
  | some id =>
      match ← query (.firstJob id) with
      | none => fail 404 "job not found"
      | some job =>
          if !canAccessBackupResource actor job.createdByUserID then fail 404 "job not found"
          else match checkUpdate env job req with
            | .error e => fail 400 e
            | .ok (mode,exportFormat) =>
                match ← resolveConnection env actor job.sourceType job.agentID req.connectionID with
                | .error e => fail 400 e
                | .ok connID =>
                    if isDatabaseSource job.sourceType && (connID.or job.connectionID).isNone &&
                        blank (keptWhenBlank req.sourceDatabase job.sourceDatabase) then
                      fail 400 "source_database is required for database jobs without a connection"
                    else match ← resolvePolicy env actor req.policyID with
                      | .error e => fail 400 e
                      | .ok policyID =>
                          writeJob (.update job.id
                            (jobPatch req job mode exportFormat connID policyID))
                          saveSchedule job.id req.cronExpr req.timezone
                          let row ← query (.loadJob job.id)
                          return ⟨200,.job row⟩

def deleteBackupJob (env : Env) (actor : Actor) (param : String) : Handler Reply := do
  match env.parseUUID param with
  | none => fail 400 "invalid id"
  | some id =>
      match ← query (.firstJob id) with
      | none => fail 404 "job not found"
      | some job =>
          if !canAccessBackupResource actor job.createdByUserID then fail 404 "job not found"
          else
            writeJob (.deleteSchedules id)
            writeJob (.delete job.id)
            return ⟨204,.empty⟩

def deletePolicy (env : Env) (actor : Actor) (param : String) : Handler Reply := do
  match env.parseUUID param with
  | none => fail 400 "invalid id"
  | some id =>
      match ← query (.firstPolicy id) with
      | none => fail 404 "policy not found"
      | some p =>
          if !canAccessBackupResource actor p.createdByUserID then fail 404 "policy not found"
          else
            let attached ← query (.attachedJobs id)
            if ← writeJob (.detachPolicy p attached) then return ⟨204,.empty⟩
            else fail 500 "delete policy failed"

def runNow (env : Env) (actor : Actor) (param : String) : Handler Reply := do
  match env.parseUUID param with
  | none => fail 400 "invalid id"
  | some id =>
      match ← query (.firstJob id) with
      | none => fail 404 "job not found"
      | some job =>
          if !canAccessBackupResource actor job.createdByUserID then fail 404 "job not found"
          else
            let inflight ← query (.inflight job.id)
            if 0 < inflight then fail 409 "a run for this job is already in progress"
            else
              match ← writeRun (.insert
                { backupJobID := job.id, agentID := job.agentID
                  storageTargetID := job.storageTargetID, sourceType := job.sourceType } false) with
              | .created run => return ⟨201,.created run⟩
              | _ => fail 500 "failed to create run"

def cancelPatch (run : VgBackupRun) : RunPatch :=
  { cancelRequested := some true
    status := if run.status = .pending then some .cancelled else none }

def cancelBackupRun (env : Env) (actor : Actor) (param : String) : Handler Reply := do
  match env.parseUUID param with
  | none => fail 400 "invalid id"
  | some id =>
      match ← query (.loadRun id) with
      | none => fail 404 "run not found"
      | some (run,job) =>
          if !canAccessBackupResource actor job.row.createdByUserID then fail 404 "run not found"
          else if run.status = .cancelled then return ⟨200,.status .cancelled⟩
          else if !canTransition run.status .cancelled then
            fail 400 ("cannot cancel run in status: " ++ run.status.text)
          else
            let _ ← writeRun (.update { id := run.id } (cancelPatch run))
            return ⟨200,.status .cancelled⟩

structure RestoreRequest where
  backupRunID : String
  agentID : String
  destinationPath : String
  targetDatabase : String
  confirmed : Bool
deriving DecidableEq

def bindRestore (env : Env) (req : RestoreRequest) : Except String Unit :=
  if req.backupRunID = "" then .error (env.bindError "BackupRunID")
  else if req.agentID = "" then .error (env.bindError "AgentID")
  else if req.confirmed = false then .error (env.bindError "Confirmed")
  else .ok ()

def restoreConnection (job : VgBackupJob) (agentID : UUID) :
    Handler (Except String (Option UUID)) := do
  match job.connectionID with
  | none => return .ok none
  | some id =>
      match ← query (.firstConnection id) with
      | none => return .ok none
      | some conn =>
          if conn.agentID ≠ agentID then return .error "restore must run on the connection's agent"
          else return .ok (some id)

def insertRestore (n : NewRestore) : Handler Reply := do
  match ← query (.pendingRestore n.dedupe) with
  | some row => return ⟨200,.restoreJob row⟩
  | none =>
      match ← writeRestore (.insert n) with
      | some row => return ⟨201,.restoreJob row⟩
      | none =>
          match ← query (.pendingRestore n.dedupe) with
          | some winner => return ⟨200,.restoreJob winner⟩
          | none => fail 500 "failed to create restore"

def createRestore (env : Env) (actor : Actor) (req : RestoreRequest) : Handler Reply := do
  match bindRestore env req, env.parseUUID req.backupRunID, env.parseUUID req.agentID with
  | .error e, _, _ => fail 400 e
  | .ok _, none, _ => fail 400 "invalid backup_run_id"
  | .ok _, some _, none => fail 400 "invalid agent_id"
  | .ok _, some runID, some agentID =>
      let agent ← query (.firstAgent agentID)
      if !agent.any (canAccessBackupResource actor ·.createdByUserID) then fail 404 "agent not found"
      else
        match ← query (.loadRun runID) with
        | none => fail 404 "backup run not found"
        | some (run,job) =>
            if !canAccessBackupResource actor job.row.createdByUserID then
              fail 404 "backup run not found"
            else if run.status ≠ .completed then
              fail 400 ("only COMPLETED runs can be restored (status: " ++ run.status.text ++ ")")
            else
              let conn ← restoreConnection job.row agentID
              match conn with
              | .error e => fail 400 e
              | .ok connID =>
                  insertRestore ⟨⟨runID,agentID,req.destinationPath,req.targetDatabase⟩,connID⟩

end VgBackup
