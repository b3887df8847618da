import ServerHub.VgBackup.Agent

namespace VgBackup

open Interleave

def vgMintAgentToken (env : Env) (draw : Nat) : Option (String × String) :=
  let token := env.randomHex 32 draw
  (env.bcryptHash draw token).map fun hash => (token,hash)

def bearer (authorization : String) : String :=
  if authorization.toList.take 7 = "Bearer ".toList then String.ofList (authorization.toList.drop 7)
  else ""

def vgAgentAuth (env : Env) (authorization agentHeader : String)
    (next : VgAgent → Handler Reply) : Handler Reply := do
  let raw := bearer authorization
  if raw = "" then fail 401 "missing agent token"
  else match env.parseUUID agentHeader with
    | none => fail 401 "missing or invalid X-Agent-ID header"
    | some agentID =>
        match ← query (.firstAgent agentID) with
        | none => fail 401 "invalid agent token"
        | some agent =>
            if !agent.tokenHash.any (env.bcryptMatches · raw) then fail 401 "invalid agent token"
            else if agent.revokedAt.isSome then fail 401 "agent revoked"
            else next agent

structure RegisterRequest where
  registrationKey : String
  hostname : String
  os : String
  version : String
  ipAddress : String
deriving DecidableEq

def bindRegister (env : Env) (req : RegisterRequest) : Except String Unit :=
  if req.registrationKey = "" then .error (env.bindError "RegistrationKey")
  else if req.hostname = "" then .error (env.bindError "Hostname")
  else .ok ()

def RegisterRequest.registration (req : RegisterRequest) (hash : String) : Registration :=
  ⟨req.hostname,hash,req.version⟩

def saveMachine (m : MachineFacts) : Handler Unit := do
  let found ← query (.machineOf m.agentID)
  writeAgent (.saveMachine (found.map (·.id)) m)

def vgRegister (env : Env) (draw : Nat) (req : RegisterRequest) : Handler Reply := do
  match bindRegister env req with
  | .error e => fail 400 e
  | .ok _ =>
      match ← query (.agentByKey (env.sha256Hex req.registrationKey)) with
      | none => fail 401 "invalid registration key"
      | some agent =>
          if agent.revokedAt.isSome then fail 401 "invalid registration key"
          else
            let now ← query .now
            if agent.registrationExpiresAt.any fun t => decide (t ≤ now) then
              fail 401 "invalid registration key"
            else match vgMintAgentToken env draw with
              | none => fail 500 "token generation failed"
              | some (token,hash) =>
                  writeAgent (.register agent.id (req.registration hash))
                  saveMachine ⟨agent.id,req.hostname,req.os,req.ipAddress⟩
                  return ⟨200,.credential agent.id token⟩

structure EnrollRequest where
  enrollmentToken : String
  machineName : String
  platform : String
  architecture : String
  agentVersion : String
  hostname : String
  os : String
  ipAddress : String
deriving DecidableEq

def bindEnroll (env : Env) (req : EnrollRequest) : Except String Unit :=
  if req.enrollmentToken = "" then .error (env.bindError "EnrollmentToken")
  else if req.machineName = "" then .error (env.bindError "MachineName")
  else .ok ()

def vgEnrollmentExpired (expiresAt now : Time) : Bool := decide (expiresAt ≤ now)

def EnrollRequest.displayName (req : EnrollRequest) : String :=
  let name := Go.trimSpace req.machineName
  if name = "" then Go.trimSpace req.hostname else name

def EnrollRequest.installation (req : EnrollRequest) (hash : String) (now : Time) :
    Installation where
  name := req.displayName
  machineName := Go.trimSpace req.machineName
  platform := Go.toLower (Go.trimSpace req.platform)
  architecture := Go.toLower (Go.trimSpace req.architecture)
  version := Go.trimSpace req.agentVersion
  tokenHash := hash
  now := now

def enrollTransaction (token agentID : UUID) (req : EnrollRequest) (hash : String) (now : Time) :
    Handler Bool := do
  let usedAt ← query .now
  if ← writeAgent (.claimToken token) then
    match ← query (.firstAgent agentID) with
    | none =>
        writeAgent .rollback
        return false
    | some agent =>
        if agent.revokedAt.isSome then
          writeAgent .rollback
          return false
        else
          let found ← query (.machineOf agent.id)
          writeAgent (.commitEnrollment token usedAt agent.id (req.installation hash now)
            (found.map (·.id)) ⟨agent.id,req.displayName,req.os,req.ipAddress⟩)
  else return false

def vgEnroll (env : Env) (draw : Nat) (req : EnrollRequest) : Handler Reply := do
  match bindEnroll env req with
  | .error e => fail 400 e
  | .ok _ =>
      match ← query (.tokenByHash (env.sha256Hex (Go.trimSpace req.enrollmentToken))) with
      | none => fail 401 "invalid enrollment token"
      | some tok =>
          let now0 ← query .now
          if tok.usedAt.isSome || vgEnrollmentExpired tok.expiresAt now0 then
            fail 401 "invalid enrollment token"
          else match tok.agentID, vgMintAgentToken env draw with
            | none, _ => fail 401 "invalid enrollment token"
            | some _, none => fail 500 "token generation failed"
            | some agentID, some (token,hash) =>
                let now ← query .now
                if ← enrollTransaction tok.id agentID req hash now then
                  return ⟨200,.credential agentID token⟩
                else fail 401 "invalid enrollment token"

def vgHeartbeat (agent : UUID) (agentVersion : String) : Handler Reply := do
  let now ← query .now
  let v := Go.trimSpace agentVersion
  writeAgent (.heartbeat agent now (if v ≠ "" ∧ v.utf8ByteSize ≤ 32 then some v else none))
  return ⟨200,.beat now⟩

inductive AgentCall where
  | heartbeat (agentVersion : String)
  | claimRun (param : String)
  | updateRunStatus (param : String) (req : RunReport)
  | registerArtifact (param : String) (req : ArtifactReport)
  | registerChunk (param : String) (req : ChunkReport)
  | claimRestore (param : String)
  | updateRestoreStatus (param : String) (req : RestoreReport)
deriving DecidableEq

def AgentCall.run (env : Env) (agent : UUID) : AgentCall → Handler Reply
  | .heartbeat agentVersion => vgHeartbeat agent agentVersion
  | .claimRun param => vgClaimRun env agent param
  | .updateRunStatus param req => vgUpdateRunStatus env agent param req
  | .registerArtifact param req => vgRegisterArtifact env agent param req
  | .registerChunk param req => vgRegisterChunk env agent param req
  | .claimRestore param => vgClaimRestore env agent param
  | .updateRestoreStatus param req => vgUpdateRestoreStatus env agent param req

def agentRequest (env : Env) (authorization agentHeader : String) (call : AgentCall) :
    Handler Reply :=
  vgAgentAuth env authorization agentHeader fun agent => call.run env agent.id

structure EnrollmentTokenRequest where
  name : String
  expiresMinutes : Int
deriving DecidableEq

def EnrollmentTokenRequest.ttl (req : EnrollmentTokenRequest) : Int :=
  if req.expiresMinutes = 0 then 30 else req.expiresMinutes

def pendingName (env : Env) (draw : Nat) : String := "pending-" ++ env.randomHex 4 draw

def generateEnrollmentToken (env : Env) (actor : Actor) (draw : Nat)
    (req : EnrollmentTokenRequest) : Handler Reply := do
  if req.ttl < 1 ∨ 1440 < req.ttl then fail 400 "expires_minutes must be 1-1440"
  else
    let name := if Go.trimSpace req.name = "" then pendingName env draw else Go.trimSpace req.name
    let token := env.randomHex 32 draw
    let now ← query .now
    let expiresAt := now + req.ttl * 60 * second
    match ← writeAgent (.insertWithToken
      { VgAgent.zero with createdByUserID := actor.userID, name := name }
      { VgBase.zero with
        agentID := none, tokenHash := env.sha256Hex token, expiresAt := expiresAt, usedAt := none
        revokedAt := none, createdByUserID := actor.userID }) with
    | .created agent => return ⟨201,.enrollmentToken agent token expiresAt⟩
    | _ => fail 500 "failed to create enrollment token"

def revokeEnrollmentToken (env : Env) (actor : Actor) (param : String) : Handler Reply := do
  match env.parseUUID param with
  | none => fail 400 "invalid id"
  | some id =>
      match ← query (.firstToken id) with
      | none => fail 404 "token not found"
      | some tok =>
          if !canAccessBackupResource actor tok.createdByUserID then fail 404 "token not found"
          else
            let now ← query .now
            if ← writeAgent (.revokeToken id now) then return ⟨204,.empty⟩
            else fail 404 "token not found"

def revokeAgent (env : Env) (actor : Actor) (param : String) : Handler Reply := do
  match env.parseUUID param with
  | none => fail 400 "invalid id"
  | some id =>
      match ← query (.firstAgent id) with
      | none => fail 404 "agent not found"
      | some agent =>
          if !canAccessBackupResource actor agent.createdByUserID then fail 404 "agent not found"
          else
            let now ← query .now
            writeAgent (.revoke agent.id now)
            return ⟨200,.revoked⟩

def generateRegistrationToken (env : Env) (actor : Actor) (draw : Nat) : Handler Reply := do
  let token := env.randomHex 32 draw
  let now ← query .now
  match ← writeAgent (.insert { VgAgent.zero with
    createdByUserID := actor.userID, name := pendingName env draw
    registrationKey := some (env.sha256Hex token)
    registrationExpiresAt := some (now + 24 * 60 * 60 * second) }) with
  | .created agent => return ⟨201,.registrationKey agent token⟩
  | _ => fail 500 "failed to create agent"

def rotateAgentToken (env : Env) (draw : Nat) (param : String) : Handler Reply := do
  match env.parseUUID param with
  | none => fail 400 "invalid id"
  | some id =>
      match vgMintAgentToken env draw with
      | none => fail 500 "token generation failed"
      | some (token,hash) =>
          if ← writeAgent (.rotate id hash) then return ⟨200,.credential id token⟩
          else fail 404 "agent not found"

end VgBackup
