import ServerHub.VgBackup.Management
import ServerHub.VgBackup.Scheduler

namespace VgBackup

open Interleave

structure ConnectionRequest where
  name : String
  type : String
  agentID : String
  host : String
  port : Int
  username : String
  password : String
  databases : Option (List String)
deriving DecidableEq

def bindConnection (env : Env) (req : ConnectionRequest) : Except String Unit :=
  if req.name = "" then .error (env.bindError "Name")
  else if req.type = "" then .error (env.bindError "Type")
  else if req.agentID = "" then .error (env.bindError "AgentID")
  else if req.host = "" then .error (env.bindError "Host")
  else .ok ()

def normalizeConnectionType (env : Env) (raw : String) : Except String String :=
  let t := Go.toUpper (Go.trimSpace raw)
  if t = "POSTGRES" ∨ t = "MONGODB" ∨ t = "MSSQL" then .ok t
  else if t = "MSSQL_SERVER" ∨ t = "SQL_SERVER" then .ok "MSSQL"
  else .error ("unsupported connection type " ++ env.quote raw ++
    " (supported: POSTGRES, MONGODB, MSSQL)")

def defaultPortFor (connType : String) : Int :=
  if connType = "POSTGRES" then 5432
  else if connType = "MONGODB" then 27017
  else if connType = "MSSQL" then 1433
  else 0

def ConnectionRequest.chosenPort (req : ConnectionRequest) (connType : String) : Int :=
  if req.port = 0 then defaultPortFor connType else req.port

def joinLines (names : List String) : String := "\n".intercalate names

def newConnection (req : ConnectionRequest) (actor : Actor) (agentID : UUID) (connType : String)
    (port : Int) (encPassword : String) : VgDatabaseConnection :=
  { VgDatabaseConnection.zero with
    createdByUserID := actor.userID, agentID := agentID, name := Go.trimSpace req.name
    type := connType, host := Go.trimSpace req.host, port := port
    username := Go.trimSpace req.username, encryptedPassword := encPassword, status := .unknown
    databaseNames := joinLines (req.databases.getD []) }

def createConnection (env : Env) (actor : Actor) (req : ConnectionRequest) : Handler Reply := do
  match bindConnection env req, normalizeConnectionType env req.type,
      env.parseUUID req.agentID with
  | .error e, _, _ => fail 400 e
  | .ok _, .error e, _ => fail 400 e
  | .ok _, .ok _, none => fail 400 "invalid agent_id"
  | .ok _, .ok connType, some agentID =>
      let agent ← query (.firstAgent agentID)
      if !agent.any (canAccessBackupResource actor ·.createdByUserID) then fail 400 "agent not found"
      else
        let port := req.chosenPort connType
        if port < 1 ∨ 65535 < port then fail 400 "port must be 1-65535"
        else match env.encrypt req.password with
          | none => fail 500 "encryption failed"
          | some encPassword =>
              match ← writeJob (.insertConnection
                (newConnection req actor agentID connType port encPassword)) with
              | .created id =>
                  let row ← query (.firstConnection id)
                  return ⟨201,.connection row⟩
              | _ => fail 409 "a connection with this name already exists"

def given (s : String) : Option String := if s = "" then none else some s

def connectionPatch (env : Env) (req : ConnectionRequest) : Except Reply ConnectionPatch :=
  match if req.type = "" then .ok none else (normalizeConnectionType env req.type).map some with
  | .error e => .error ⟨400,.error e⟩
  | .ok connType =>
      if 65535 < req.port then .error ⟨400,.error "port must be 1-65535"⟩
      else if req.password ≠ "" ∧ env.encrypt req.password = none then
        .error ⟨500,.error "encryption failed"⟩
      else .ok
        { name := given (Go.trimSpace req.name)
          type := connType
          host := given (Go.trimSpace req.host)
          port := if 0 < req.port then some req.port else none
          username := if req.username = "" then none else some (Go.trimSpace req.username)
          encryptedPassword := if req.password = "" then none else env.encrypt req.password
          status := if req.password = "" then none else some .unknown
          databaseNames := req.databases.map joinLines }

def updateConnection (env : Env) (actor : Actor) (param : String) (req : ConnectionRequest) :
    Handler Reply := do
  match env.parseUUID param with
  | none => fail 400 "invalid id"
  | some id =>
      match ← query (.firstConnection id) with
      | none => fail 404 "connection not found"
      | some conn =>
          if !canAccessBackupResource actor conn.createdByUserID then
            fail 404 "connection not found"
          else match bindConnection env req, connectionPatch env req with
            | .error e, _ => fail 400 e
            | .ok _, .error reply => return reply
            | .ok _, .ok patch =>
                if ← writeJob (.updateConnection conn.id patch) then
                  let row ← query (.firstConnection conn.id)
                  return ⟨200,.connection row⟩
                else fail 409 "a connection with this name already exists"

def deleteConnection (env : Env) (actor : Actor) (param : String) : Handler Reply := do
  match env.parseUUID param with
  | none => fail 400 "invalid id"
  | some id =>
      match ← query (.firstConnection id) with
      | none => fail 404 "connection not found"
      | some conn =>
          if !canAccessBackupResource actor conn.createdByUserID then
            fail 404 "connection not found"
          else
            let jobCount ← query (.connectionJobs id)
            if 0 < jobCount then
              fail 409 ("connection is used by " ++ toString jobCount ++
                " backup job(s); reassign or delete them first")
            else
              writeJob (.deleteConnection conn.id)
              return ⟨204,.empty⟩

def testConnection (env : Env) (actor : Actor) (param : String) (dialFailure : Option String) :
    Handler Reply := do
  match env.parseUUID param with
  | none => fail 400 "invalid id"
  | some id =>
      match ← query (.firstConnection id) with
      | none => fail 404 "connection not found"
      | some conn =>
          if !canAccessBackupResource actor conn.createdByUserID then
            fail 404 "connection not found"
          else
            let now ← query .now
            match env.decrypt conn.encryptedPassword, dialFailure with
            | none, _ =>
                writeJob (.checkConnection conn.id .error now)
                fail 400 "stored credential is unusable; re-enter the password"
            | some _, some category =>
                writeJob (.checkConnection conn.id .error now)
                fail 502 ("host is unreachable: " ++ category)
            | some _, none =>
                writeJob (.checkConnection conn.id .connected now)
                return ⟨200,.tested conn.databaseNames⟩

structure PolicyRequest where
  name : String
  strategy : String
  cronExpr : String
  timezone : String
  enabled : Option Bool
  mode : String
  encrypted : Option Bool
  retentionDays : Option Int
  verificationEnabled : Option Bool
  maxRetries : Option Int
  retryDelaySeconds : Option Int
  slaTargetMinutes : Option Int
  rpoTargetMinutes : Option Int
  rtoTargetMinutes : Option Int
deriving DecidableEq

def beyond (lo hi v : Int) : Bool := v < lo || hi < v

def PolicyRequest.targets (req : PolicyRequest) : List (Option Int) :=
  [req.slaTargetMinutes,req.rpoTargetMinutes,req.rtoTargetMinutes]

def validatePolicySchedule (env : Env) (cronExpr timezone : String) : Except String Unit :=
  match if cronExpr = "" then .ok fun _ t => t else env.parseCron cronExpr with
  | .error e => .error ("invalid cron_expr: " ++ e)
  | .ok _ =>
      if env.loadLocation timezone = false then .error ("invalid timezone " ++ env.quote timezone)
      else .ok ()

def validatePolicy (env : Env) (req : PolicyRequest) : Except String VgBackupPolicy := do
  if blank req.name then .error "name is required"
  else
    let raw := Go.toUpper (Go.trimSpace req.strategy)
    let strategy := if raw = "" then "FULL" else raw
    if strategy ≠ "FULL" then
      .error "strategy must be FULL (incremental/differential are not implemented)"
    else
      let mode ← normalizeJobMode req.mode .normal
      let retention := req.retentionDays.getD 30
      let maxRetries := req.maxRetries.getD 0
      let delay := req.retryDelaySeconds.getD 300
      let cronExpr := Go.trimSpace req.cronExpr
      let tz := orUTC (Go.trimSpace req.timezone)
      if beyond 0 3650 retention then .error "retention_days must be 0-3650"
      else if beyond 0 10 maxRetries then .error "max_retries must be 0-10"
      else if beyond 0 86400 delay then .error "retry_delay_seconds must be 0-86400"
      else if req.targets.any fun v => v.any (beyond 0 525600) then
        .error "SLA/RPO/RTO targets must be 0-525600 minutes"
      else
        validatePolicySchedule env cronExpr tz
        return { VgBackupPolicy.zero with
          name := Go.trimSpace req.name, strategy := strategy, cronExpr := cronExpr
          timezone := tz, enabled := req.enabled.getD true, mode := mode
          encrypted := req.encrypted.getD false, retentionDays := retention
          verificationEnabled := req.verificationEnabled.getD true, maxRetries := maxRetries
          retryDelaySeconds := delay, slaTargetMinutes := req.slaTargetMinutes.getD 0
          rpoTargetMinutes := req.rpoTargetMinutes.getD 0
          rtoTargetMinutes := req.rtoTargetMinutes.getD 0 }

def createPolicy (env : Env) (actor : Actor) (req : PolicyRequest) : Handler Reply := do
  match validatePolicy env req with
  | .error e => fail 400 e
  | .ok want =>
      let id ← writeJob (.insertPolicy { want with createdByUserID := actor.userID })
      writeJob (.flagPolicy id want.enabled want.encrypted want.verificationEnabled)
      let row ← query (.firstPolicy id)
      return ⟨201,.policy row⟩

def updatePolicy (env : Env) (actor : Actor) (param : String) (req : PolicyRequest) :
    Handler Reply := do
  match env.parseUUID param with
  | none => fail 400 "invalid id"
  | some id =>
      match ← query (.firstPolicy id) with
      | none => fail 404 "policy not found"
      | some p =>
          if !canAccessBackupResource actor p.createdByUserID then fail 404 "policy not found"
          else match validatePolicy env req with
            | .error e => fail 400 e
            | .ok updated =>
                writeJob (.updatePolicy p.id updated)
                let row ← query (.firstPolicy p.id)
                return ⟨200,.policy row⟩

def setJobEnabled (env : Env) (actor : Actor) (param : String) (enabled : Bool) :
    Handler Reply := do
  match env.parseUUID param with
  | none => fail 400 "invalid id"
  | some id =>
      match ← query (.firstJob id) with
      | none => fail 404 "job not found"
      | some job =>
          if !canAccessBackupResource actor job.createdByUserID then fail 404 "job not found"
          else
            writeJob (.setEnabled job.id enabled)
            return ⟨200,.enabled enabled⟩

def verdict (env : Env) (data : Posix.Text) (checksum : String) : VerificationStatus :=
  if env.sha256 data = Go.toLower checksum then .verified else .verifyFail

def verifyRun (env : Env) (actor : Actor) (param : String) : Handler Reply := do
  match env.parseUUID param with
  | none => fail 400 "invalid id"
  | some runID =>
      match ← query (.loadRun runID) with
      | none => fail 404 "run not found"
      | some (run,job) =>
          if !canAccessBackupResource actor job.row.createdByUserID then fail 404 "run not found"
          else if run.status ≠ .completed then fail 400 "only COMPLETED runs can be verified"
          else if run.checksum = "" then fail 400 "run has no recorded checksum"
          else match ← query (.firstTarget run.storageTargetID) with
            | none => fail 404 "storage target not found"
            | some target =>
                if target.type ≠ .localDisk then
                  fail 400 "verification is only supported for LOCAL storage targets"
                else match ← query (.readFile (openedPath env run.storagePath)) with
                  | none => fail 502 ("could not read stored file: " ++ env.readError run.storagePath)
                  | some data =>
                      let now ← query .now
                      writeSide (.judgeArtifacts run.id (verdict env data run.checksum) now)
                      return ⟨200,.verified (decide (verdict env data run.checksum = .verified))
                        run.checksum (env.sha256 data)⟩

end VgBackup
