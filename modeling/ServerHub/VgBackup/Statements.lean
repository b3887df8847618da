import ServerHub.VgBackup.Store

namespace VgBackup

open Relational Interleave

def VgBackupJob.stored (j : VgBackupJob) : VgBackupJob :=
  { j with
    exportFormat := if j.exportFormat = "" then "ARCHIVE" else j.exportFormat
    mode := if j.mode = .other "" then .normal else j.mode
    retentionDays := if j.retentionDays = 0 then 30 else j.retentionDays
    enabled := true }

structure JobPatch where
  name : String
  sourcePath : String
  sourceDatabase : String
  includePatterns : String
  excludePatterns : String
  mode : VgBackupMode
  encrypted : Bool
  retentionDays : Int
  exportFormat : String
  slaTargetMinutes : Int
  rpoTargetMinutes : Int
  rtoTargetMinutes : Int
  connectionID : Option UUID
  policyID : Option UUID
deriving DecidableEq

def JobPatch.apply (p : JobPatch) (now : Time) (j : VgBackupJob) : VgBackupJob :=
  { j with
    updatedAt := now
    name := p.name
    sourcePath := p.sourcePath
    sourceDatabase := p.sourceDatabase
    includePatterns := p.includePatterns
    excludePatterns := p.excludePatterns
    mode := p.mode
    encrypted := p.encrypted
    retentionDays := p.retentionDays
    exportFormat := p.exportFormat
    slaTargetMinutes := p.slaTargetMinutes
    rpoTargetMinutes := p.rpoTargetMinutes
    rtoTargetMinutes := p.rtoTargetMinutes
    connectionID := p.connectionID.or j.connectionID
    policyID := p.policyID.or j.policyID }

def VgBackupPolicy.settle (p : VgBackupPolicy) (now : Time) (j : VgBackupJob) : VgBackupJob :=
  { j with
    updatedAt := now
    mode := p.mode
    encrypted := p.encrypted
    retentionDays := p.retentionDays
    slaTargetMinutes := p.slaTargetMinutes
    rpoTargetMinutes := p.rpoTargetMinutes
    rtoTargetMinutes := p.rtoTargetMinutes
    policyID := none }

def VgBackupPolicy.stored (p : VgBackupPolicy) : VgBackupPolicy :=
  { p with
    strategy := if p.strategy = "" then "FULL" else p.strategy
    timezone := orUTC p.timezone
    enabled := true
    mode := if p.mode = .other "" then .normal else p.mode
    retentionDays := if p.retentionDays = 0 then 30 else p.retentionDays
    verificationEnabled := true
    retryDelaySeconds := if p.retryDelaySeconds = 0 then 300 else p.retryDelaySeconds }

def VgBackupPolicy.flagged (enabled encrypted verificationEnabled : Bool) (now : Time)
    (p : VgBackupPolicy) : VgBackupPolicy :=
  { p with
    updatedAt := now, enabled := enabled, encrypted := encrypted
    verificationEnabled := verificationEnabled }

def VgBackupPolicy.revised (u : VgBackupPolicy) (now : Time) (p : VgBackupPolicy) :
    VgBackupPolicy :=
  { u with
    id := p.id, createdAt := p.createdAt, updatedAt := now, deletedAt := p.deletedAt
    createdByUserID := p.createdByUserID }

structure ConnectionPatch where
  name : Option String
  type : Option String
  host : Option String
  port : Option Int
  username : Option String
  encryptedPassword : Option String
  status : Option VgConnectionStatus
  databaseNames : Option String
deriving DecidableEq

def ConnectionPatch.apply (p : ConnectionPatch) (now : Time) (c : VgDatabaseConnection) :
    VgDatabaseConnection :=
  { c with
    updatedAt := now
    name := p.name.getD c.name
    type := p.type.getD c.type
    host := p.host.getD c.host
    port := p.port.getD c.port
    username := p.username.getD c.username
    encryptedPassword := p.encryptedPassword.getD c.encryptedPassword
    status := p.status.getD c.status
    databaseNames := p.databaseNames.getD c.databaseNames }

namespace Store

def insertPolicy (s : Store) (p : VgBackupPolicy) : Store :=
  { s with
    policies := s.policies.insert { p.stored with
      id := s.nextID, createdAt := s.clock, updatedAt := s.clock, deletedAt := none }
    nextID := s.nextID + 1 }

def updatePolicies (s : Store) (id : UUID) (f : VgBackupPolicy → VgBackupPolicy)
    (hf : ∀ p, (f p).id = p.id) : Store :=
  { s with policies := s.policies.modify (fun p => live p && p.id == id) f hf }

def insertConnection (s : Store) (c : VgDatabaseConnection) : Store × Insert :=
  if s.connections.rows.any fun r => r.createdByUserID == c.createdByUserID && r.name == c.name
  then (s,.violation)
  else ({ s with
    connections := s.connections.insert { c with
      id := s.nextID, createdAt := s.clock, updatedAt := s.clock, deletedAt := none }
    nextID := s.nextID + 1 },.created s.nextID)

def updateConnections (s : Store) (id : UUID) (f : VgDatabaseConnection → VgDatabaseConnection)
    (hf : ∀ c, (f c).id = c.id) : Store :=
  { s with connections := s.connections.modify (fun c => live c && c.id == id) f hf }

def nameTaken (s : Store) (id : UUID) (name : Option String) : Bool :=
  name.isSome && (first s.connections id).any fun c => s.connections.rows.any fun r =>
    r.id != id && r.createdByUserID == c.createdByUserID && some r.name == name

def updateJobs (s : Store) (id : UUID) (f : VgBackupJob → VgBackupJob)
    (hf : ∀ j, (f j).id = j.id) : Store :=
  { s with jobs := s.jobs.modify (fun j => live j && j.id == id) f hf }

def insertJob (s : Store) (j : VgBackupJob) : Store :=
  { s with
    jobs := s.jobs.insert { j.stored with
      id := s.nextID, createdAt := s.clock, updatedAt := s.clock, deletedAt := none }
    nextID := s.nextID + 1 }

def insertSchedule (s : Store) (job : UUID) (cronExpr timezone : String) : Option Store :=
  match s.schedules job with
  | some _ => none
  | none => some { s with
      schedules := Function.update s.schedules job (some
        { id := s.nextID, createdAt := s.clock, updatedAt := s.clock, deletedAt := none
          backupJobID := job, cronExpr := cronExpr, timezone := orUTC timezone })
      nextID := s.nextID + 1 }

def updateSchedule (s : Store) (job : UUID) (cronExpr timezone : String) : Store :=
  { s with schedules := Function.update s.schedules job ((s.schedules job).map fun r =>
      if r.live then { r with updatedAt := s.clock, cronExpr := cronExpr, timezone := timezone }
      else r) }

def deleteSchedules (s : Store) (job : UUID) : Store :=
  { s with schedules := Function.update s.schedules job ((s.schedules job).map fun r =>
      if r.live then { r with deletedAt := some s.clock } else r) }

def insertBaseline (s : Store) (job : UUID) (avgBytes : Int) (sampleCount : Nat) (now : Time) :
    Store :=
  match s.baselines job with
  | some _ => s
  | none => { s with
      baselines := Function.update s.baselines job (some
        { id := s.nextID, createdAt := s.clock, updatedAt := s.clock, deletedAt := none
          backupJobID := job, avgBytes := avgBytes, sampleCount := sampleCount
          lastUpdatedAt := now })
      nextID := s.nextID + 1 }

def updateBaseline (s : Store) (job : UUID) (avgBytes : Int) (sampleCount : Nat) (now : Time) :
    Store :=
  { s with baselines := Function.update s.baselines job ((s.baselines job).map fun r =>
      if r.live then
        { r with
          updatedAt := s.clock, avgBytes := avgBytes, sampleCount := sampleCount
          lastUpdatedAt := now }
      else r) }

def detachJob (p : VgBackupPolicy) (s : Store) (job : VgBackupJob) : Option Store :=
  let s := s.updateJobs job.id (p.settle s.clock) fun _ => rfl
  if Go.trimSpace p.cronExpr ≠ "" then
    let tz := orUTC (Go.trimSpace p.timezone)
    match s.scheduleOf job.id with
    | none => s.insertSchedule job.id p.cronExpr tz
    | some _ => some (s.updateSchedule job.id p.cronExpr tz)
  else some s

def detachPolicy (s : Store) (p : VgBackupPolicy) (attached : List VgBackupJob) : Option Store :=
  (attached.foldlM (detachJob p) s).map fun t =>
    { t with policies := softDelete t.policies t.clock fun q => q.id == p.id }

end Store

inductive JobWrite : Type → Type where
  | insert (j : VgBackupJob) : JobWrite UUID
  | update (id : UUID) (p : JobPatch) : JobWrite Unit
  | delete (id : UUID) : JobWrite Unit
  | insertSchedule (job : UUID) (cronExpr timezone : String) : JobWrite Bool
  | updateSchedule (job : UUID) (cronExpr timezone : String) : JobWrite Unit
  | deleteSchedules (job : UUID) : JobWrite Unit
  | detachPolicy (p : VgBackupPolicy) (attached : List VgBackupJob) : JobWrite Bool
  | setEnabled (id : UUID) (enabled : Bool) : JobWrite Unit
  | insertPolicy (p : VgBackupPolicy) : JobWrite UUID
  | flagPolicy (id : UUID) (enabled encrypted verificationEnabled : Bool) : JobWrite Unit
  | updatePolicy (id : UUID) (p : VgBackupPolicy) : JobWrite Unit
  | insertConnection (c : VgDatabaseConnection) : JobWrite Insert
  | updateConnection (id : UUID) (p : ConnectionPatch) : JobWrite Bool
  | checkConnection (id : UUID) (status : VgConnectionStatus) (now : Time) : JobWrite Unit
  | deleteConnection (id : UUID) : JobWrite Unit

def JobWrite.exec : {β : Type} → JobWrite β → Store → Store × β
  | _, .insert j, s => (s.insertJob j,s.nextID)
  | _, .update id p, s => (s.updateJobs id (p.apply s.clock) fun _ => rfl,())
  | _, .delete id, s => ({ s with jobs := softDelete s.jobs s.clock fun j => j.id == id },())
  | _, .insertSchedule job cronExpr timezone, s =>
      match s.insertSchedule job cronExpr timezone with
      | some t => (t,true)
      | none => (s,false)
  | _, .updateSchedule job cronExpr timezone, s => (s.updateSchedule job cronExpr timezone,())
  | _, .deleteSchedules job, s => (s.deleteSchedules job,())
  | _, .detachPolicy p attached, s =>
      match s.detachPolicy p attached with
      | some t => (t,true)
      | none => (s,false)
  | _, .setEnabled id enabled, s =>
      (s.updateJobs id (fun j => { j with updatedAt := s.clock, enabled := enabled })
        fun _ => rfl,())
  | _, .insertPolicy p, s => (s.insertPolicy p,s.nextID)
  | _, .flagPolicy id enabled encrypted verificationEnabled, s =>
      (s.updatePolicies id (VgBackupPolicy.flagged enabled encrypted verificationEnabled s.clock)
        fun _ => rfl,())
  | _, .updatePolicy id p, s => (s.updatePolicies id (p.revised s.clock) fun _ => rfl,())
  | _, .insertConnection c, s => s.insertConnection c
  | _, .updateConnection id p, s =>
      if s.nameTaken id p.name then (s,false)
      else (s.updateConnections id (p.apply s.clock) fun _ => rfl,true)
  | _, .checkConnection id status now, s =>
      (s.updateConnections id
        (fun c => { c with updatedAt := s.clock, status := status, lastCheckedAt := some now })
        fun _ => rfl,())
  | _, .deleteConnection id, s => ({ s with
      connections := softDelete s.connections s.clock fun c => c.id == id },())

structure NewArtifact where
  backupRunID : UUID
  name : String
  size : Int
  checksum : String
  storagePath : String
  storageTargetID : UUID
deriving DecidableEq

def NewArtifact.row (n : NewArtifact) (id : UUID) (now : Time) : VgBackupArtifact :=
  { id := id, createdAt := now, updatedAt := now, deletedAt := none
    backupRunID := n.backupRunID, name := n.name, size := n.size, checksum := n.checksum
    storagePath := n.storagePath, storageTargetID := n.storageTargetID
    verifiedAt := none, verificationStatus := .unverified }

structure NewChunk where
  artifactID : UUID
  index : Int
  size : Int
  checksum : String
  storagePath : String
  uploaded : Bool
deriving DecidableEq

def NewChunk.row (n : NewChunk) (id : UUID) (now : Time) : VgBackupChunk :=
  { id := id, createdAt := now, updatedAt := now, deletedAt := none
    artifactID := n.artifactID, index := n.index, size := n.size, checksum := n.checksum
    storagePath := n.storagePath, uploaded := n.uploaded }

namespace Store

def insertArtifact (s : Store) (n : NewArtifact) : Store × Option VgBackupArtifact :=
  if s.artifacts.rows.any fun a => a.backupRunID == n.backupRunID && a.name == n.name
  then (s,none)
  else ({ s with
    artifacts := s.artifacts.insert (n.row s.nextID s.clock), nextID := s.nextID + 1 },
    some (n.row s.nextID s.clock))

def insertChunk (s : Store) (n : NewChunk) : Store × Option VgBackupChunk :=
  if s.chunks.rows.any fun c => c.artifactID == n.artifactID && c.index == n.index
  then (s,none)
  else ({ s with chunks := s.chunks.insert (n.row s.nextID s.clock), nextID := s.nextID + 1 },
    some (n.row s.nextID s.clock))

end Store

inductive SideWrite : Type → Type where
  | touchAgent (id : UUID) (now : Time) : SideWrite Unit
  | verifyArtifacts (run : UUID) (now : Time) : SideWrite Unit
  | settleArtifact (id : UUID) (status : VerificationStatus) (now : Time) : SideWrite Unit
  | judgeArtifacts (run : UUID) (status : VerificationStatus) (now : Time) : SideWrite Unit
  | insertArtifact (n : NewArtifact) : SideWrite (Option VgBackupArtifact)
  | insertChunk (n : NewChunk) : SideWrite (Option VgBackupChunk)
  | deleteArtifacts (run : UUID) : SideWrite Unit
  | deleteChunks (artifact : UUID) : SideWrite Unit
  | removeFiles (targetPath deleteRoot : Posix.Text) (paths : List Posix.Text) : SideWrite Unit
  | insertBaseline (job : UUID) (avgBytes : Int) (sampleCount : Nat) (now : Time) : SideWrite Unit
  | updateBaseline (job : UUID) (avgBytes : Int) (sampleCount : Nat) (now : Time) : SideWrite Unit

def SideWrite.exec : {β : Type} → SideWrite β → Store → Store × β
  | _, .touchAgent id now, s => ({ s with
      agents := s.agents.modify (fun a => live a && a.id == id)
        (fun a => { a with updatedAt := s.clock, status := .online, lastSeenAt := some now })
        fun _ => rfl },())
  | _, .verifyArtifacts run now, s => ({ s with
      artifacts := s.artifacts.modify
        (fun a => live a && a.backupRunID == run && decide (a.verificationStatus = .unverified))
        (fun a => { a with
          updatedAt := s.clock, verificationStatus := .verified, verifiedAt := some now })
        fun _ => rfl },())
  | _, .settleArtifact id status now, s => ({ s with
      artifacts := s.artifacts.modify (fun a => live a && a.id == id)
        (fun a => { a with
          updatedAt := s.clock, verificationStatus := status, verifiedAt := some now })
        fun _ => rfl },())
  | _, .judgeArtifacts run status now, s => ({ s with
      artifacts := s.artifacts.modify (fun a => live a && a.backupRunID == run)
        (fun a => { a with
          updatedAt := s.clock, verificationStatus := status, verifiedAt := some now })
        fun _ => rfl },())
  | _, .insertArtifact n, s => s.insertArtifact n
  | _, .insertChunk n, s => s.insertChunk n
  | _, .deleteArtifacts run, s => ({ s with
      artifacts := softDelete s.artifacts s.clock fun a => a.backupRunID == run },())
  | _, .deleteChunks artifact, s => ({ s with
      chunks := softDelete s.chunks s.clock fun c => c.artifactID == artifact },())
  | _, .removeFiles targetPath deleteRoot paths, s =>
      ({ s with files := (deleteFiles s.files targetPath deleteRoot paths).2 },())
  | _, .insertBaseline job avgBytes sampleCount now, s =>
      (s.insertBaseline job avgBytes sampleCount now,())
  | _, .updateBaseline job avgBytes sampleCount now, s =>
      (s.updateBaseline job avgBytes sampleCount now,())

structure Registration where
  name : String
  tokenHash : String
  version : String
deriving DecidableEq

def Registration.storable (p : Registration) : Bool :=
  VgBackup.storable p.name && VgBackup.storable p.version

def Registration.apply (p : Registration) (clock : Time) (a : VgAgent) : VgAgent :=
  { a with
    updatedAt := clock, name := p.name, tokenHash := some p.tokenHash, version := p.version
    status := .online, registrationKey := none }

structure Installation where
  name : String
  machineName : String
  platform : String
  architecture : String
  version : String
  tokenHash : String
  now : Time
deriving DecidableEq

def Installation.storable (p : Installation) : Bool :=
  [p.name,p.machineName,p.platform,p.architecture,p.version].all VgBackup.storable

def Installation.apply (p : Installation) (clock : Time) (a : VgAgent) : VgAgent :=
  { a with
    updatedAt := clock, name := p.name, machineName := p.machineName, platform := p.platform
    architecture := p.architecture, version := p.version, tokenHash := some p.tokenHash
    status := .online, lastSeenAt := some p.now, installedAt := some p.now
    registrationKey := none }

structure MachineFacts where
  agentID : UUID
  hostname : String
  os : String
  ipAddress : String
deriving DecidableEq

def MachineFacts.storable (m : MachineFacts) : Bool :=
  [m.hostname,m.os,m.ipAddress].all VgBackup.storable

def MachineFacts.row (m : MachineFacts) (id : UUID) (now : Time) : VgMachine :=
  { id := id, createdAt := now, updatedAt := now, deletedAt := none
    agentID := m.agentID, hostname := m.hostname, os := m.os, ipAddress := m.ipAddress }

def assigned (new old : String) : String := if new = "" then old else new

def MachineFacts.assign (m : MachineFacts) (now : Time) (r : VgMachine) : VgMachine :=
  { r with
    updatedAt := now
    agentID := if m.agentID = uuidNil then r.agentID else m.agentID
    hostname := assigned m.hostname r.hostname
    os := assigned m.os r.os
    ipAddress := assigned m.ipAddress r.ipAddress }

def VgEnrollmentToken.unspent (t : VgEnrollmentToken) : Bool :=
  live t && t.usedAt.isNone && t.revokedAt.isNone

namespace Store

def updateAgents (s : Store) (id : UUID) (f : VgAgent → VgAgent) (hf : ∀ a, (f a).id = a.id) :
    Store :=
  { s with agents := s.agents.modify (fun a => live a && a.id == id) f hf }

def keyTaken (s : Store) (a : VgAgent) : Bool :=
  a.registrationKey.isSome && s.agents.rows.any fun r => r.registrationKey == a.registrationKey

def addAgent (s : Store) (a : VgAgent) : Store :=
  { s with
    agents := s.agents.insert { a with
      id := s.nextID, createdAt := s.clock, updatedAt := s.clock, deletedAt := none }
    nextID := s.nextID + 1 }

def addToken (s : Store) (t : VgEnrollmentToken) : Store :=
  { s with
    tokens := s.tokens.insert { t with
      id := s.nextID, createdAt := s.clock, updatedAt := s.clock, deletedAt := none }
    nextID := s.nextID + 1 }

def saveMachine (s : Store) (found : Option UUID) (m : MachineFacts) : Store :=
  match found with
  | none => { s with
      machines := s.machines.insert (m.row s.nextID s.clock), nextID := s.nextID + 1 }
  | some id => { s with
      machines := s.machines.modify (fun r => live r && r.id == id) (m.assign s.clock)
        fun _ => rfl }

def openToken (s : Store) (id : UUID) : Bool := (s.tokens.find id).any (·.unspent)

def updateTokens (s : Store) (id : UUID) (f : VgEnrollmentToken → VgEnrollmentToken)
    (hf : ∀ t, (f t).id = t.id) : Store :=
  { s with tokens := s.tokens.modify (fun t => t.unspent && t.id == id) f hf }

def releaseTokens (s : Store) (pid : Nat) : Store :=
  { s with tokenLock := fun id => (s.tokenLock id).filter (· != pid) }

def enroll (s : Store) (token : UUID) (usedAt : Time) (agent : UUID) (p : Installation)
    (found : Option UUID) (m : MachineFacts) : Store :=
  ((s.updateTokens token (fun t => { t with updatedAt := s.clock, usedAt := some usedAt })
    fun _ => rfl).updateAgents agent (p.apply s.clock) fun _ => rfl).saveMachine found m

end Store

inductive AgentWrite : Type → Type where
  | heartbeat (id : UUID) (now : Time) (version : Option String) : AgentWrite Unit
  | register (id : UUID) (p : Registration) : AgentWrite Unit
  | rotate (id : UUID) (tokenHash : String) : AgentWrite Bool
  | revoke (id : UUID) (now : Time) : AgentWrite Unit
  | insert (a : VgAgent) : AgentWrite Insert
  | insertWithToken (a : VgAgent) (t : VgEnrollmentToken) : AgentWrite Insert
  | saveMachine (found : Option UUID) (m : MachineFacts) : AgentWrite Unit
  | claimToken (id : UUID) : AgentWrite Bool
  | commitEnrollment (token : UUID) (usedAt : Time) (agent : UUID) (p : Installation)
      (found : Option UUID) (m : MachineFacts) : AgentWrite Bool
  | rollback : AgentWrite Unit
  | revokeToken (id : UUID) (now : Time) : AgentWrite Bool

def AgentWrite.exec (pid : Nat) : {β : Type} → AgentWrite β → Store → Option (Store × β)
  | _, .heartbeat id now version, s =>
      if version.all storable then
        some (s.updateAgents id (fun a => { a with
          updatedAt := s.clock, status := .online, lastSeenAt := some now
          version := version.getD a.version }) fun _ => rfl,())
      else some (s,())
  | _, .register id p, s =>
      if p.storable then some (s.updateAgents id (p.apply s.clock) fun _ => rfl,())
      else some (s,())
  | _, .rotate id tokenHash, s =>
      if (first s.agents id).any (·.revokedAt.isNone) then
        some (s.updateAgents id (fun a => { a with
          updatedAt := s.clock, tokenHash := some tokenHash, tokenRotatedAt := some s.clock })
          fun _ => rfl,true)
      else some (s,false)
  | _, .revoke id now, s => some (s.updateAgents id (fun a => { a with
      updatedAt := s.clock, revokedAt := some now, status := .offline }) fun _ => rfl,())
  | _, .insert a, s =>
      if s.keyTaken a then some (s,.violation) else some (s.addAgent a,.created s.nextID)
  | _, .insertWithToken a t, s =>
      if s.tokens.rows.any fun r => r.tokenHash == t.tokenHash then some (s,.violation)
      else some ((s.addAgent a).addToken { t with agentID := some s.nextID },.created s.nextID)
  | _, .saveMachine found m, s =>
      if m.storable then some (s.saveMachine found m,()) else some (s,())
  | _, .claimToken id, s =>
      if s.openToken id then
        if (s.tokenLock id).isSome then none
        else some ({ s with tokenLock := Function.update s.tokenLock id (some pid) },true)
      else some (s,false)
  | _, .commitEnrollment token usedAt agent p found m, s =>
      if s.tokenLock token = some pid then
        if p.storable && m.storable then
          some ((s.enroll token usedAt agent p found m).releaseTokens pid,true)
        else some (s.releaseTokens pid,false)
      else none
  | _, .rollback, s => some (s.releaseTokens pid,())
  | _, .revokeToken id now, s =>
      if s.openToken id then
        if (s.tokenLock id).isSome then none
        else some (s.updateTokens id (fun t => { t with
          updatedAt := s.clock, revokedAt := some now }) fun _ => rfl,true)
      else some (s,false)

inductive Stmt (β : Type) where
  | select (q : Select β)
  | run (w : RunWrite β)
  | restore (w : RestoreWrite β)
  | job (w : JobWrite β)
  | side (w : SideWrite β)
  | agent (w : AgentWrite β)

def Stmt.exec (pid : Nat) {β : Type} : Stmt β → Store → Option (Store × β)
  | .select q, s => some (s,q.eval s)
  | .run w, s => w.exec pid s
  | .restore w, s => some (w.exec s)
  | .job w, s => some (w.exec s)
  | .side w, s => some (w.exec s)
  | .agent w, s => w.exec pid s

abbrev Handler := Prog Stmt

def query {β : Type} (q : Select β) : Handler β := .perform (.select q)

def writeRun {β : Type} (w : RunWrite β) : Handler β := .perform (.run w)

def writeRestore {β : Type} (w : RestoreWrite β) : Handler β := .perform (.restore w)

def writeJob {β : Type} (w : JobWrite β) : Handler β := .perform (.job w)

def writeSide {β : Type} (w : SideWrite β) : Handler β := .perform (.side w)

def writeAgent {β : Type} (w : AgentWrite β) : Handler β := .perform (.agent w)

def advance (t : Time) (s : Store) : Option Store :=
  if s.clock ≤ t then some { s with clock := t } else none

theorem advance_eq {now : Time} {s t : Store} (h : advance now s = some t) :
    s.clock ≤ now ∧ t = { s with clock := now } := by
  unfold advance at h
  split at h
  · rename_i hc
    exact ⟨hc,(Option.some.inj h).symm⟩
  · simp at h

def JobsOnly (s t : Store) : Prop :=
  ∃ jobs schedules policies connections nextID,
    t = { s with
      jobs := jobs, schedules := schedules, policies := policies, connections := connections
      nextID := nextID }

def JobRowsOnly (s t : Store) : Prop :=
  ∃ jobs schedules nextID, t = { s with jobs := jobs, schedules := schedules, nextID := nextID }

theorem jobRowsOnly_trans {s t u : Store} (h : JobRowsOnly s t) (k : JobRowsOnly t u) :
    JobRowsOnly s u := by
  obtain ⟨a,b,c,rfl⟩ := h
  obtain ⟨a',b',c',rfl⟩ := k
  exact ⟨a',b',c',rfl⟩

theorem insertSchedule_eq {s t : Store} {job : UUID} {cronExpr timezone : String}
    (h : s.insertSchedule job cronExpr timezone = some t) :
    ∃ schedules nextID, t = { s with schedules := schedules, nextID := nextID } := by
  unfold Store.insertSchedule at h
  split at h
  · simp at h
  · exact ⟨_,_,(Option.some.inj h).symm⟩

theorem detachJob_eq {p : VgBackupPolicy} {s t : Store} {job : VgBackupJob}
    (h : s.detachJob p job = some t) :
    ∃ schedules nextID, t = { s with
      jobs := (s.updateJobs job.id (p.settle s.clock) fun _ => rfl).jobs
      schedules := schedules, nextID := nextID } := by
  unfold Store.detachJob at h
  dsimp only at h
  split at h
  · split at h
    · exact insertSchedule_eq h
    · exact ⟨_,_,(Option.some.inj h).symm⟩
  · exact ⟨_,_,(Option.some.inj h).symm⟩

theorem detachJobs_rel {p : VgBackupPolicy} {R : Store → Store → Prop} (hr : ∀ s, R s s)
    (ht : ∀ s t u, R s t → R t u → R s u)
    (hd : ∀ s t job, s.detachJob p job = some t → R s t) {js : List VgBackupJob} {s t : Store}
    (h : js.foldlM (Store.detachJob p) s = some t) : R s t := by
  induction js generalizing s with
  | nil =>
    simp only [List.foldlM_nil,Option.pure_def,Option.some.injEq] at h
    exact h ▸ hr s
  | cons j js ih =>
    simp only [List.foldlM_cons,Option.bind_eq_bind,Option.bind_eq_some_iff] at h
    obtain ⟨u,hu,hv⟩ := h
    exact ht s u t (hd s u j hu) (ih hv)

theorem jobRowsOnly_detachJob {p : VgBackupPolicy} {s t : Store} {job : VgBackupJob}
    (h : s.detachJob p job = some t) : JobRowsOnly s t := by
  obtain ⟨_,_,rfl⟩ := detachJob_eq h
  exact ⟨_,_,_,rfl⟩

theorem jobRowsOnly_detachJobs {p : VgBackupPolicy} {js : List VgBackupJob} {s t : Store}
    (h : js.foldlM (Store.detachJob p) s = some t) : JobRowsOnly s t :=
  detachJobs_rel (R := JobRowsOnly) (fun _ => ⟨_,_,_,rfl⟩) (fun _ _ _ => jobRowsOnly_trans)
    (fun _ _ _ => jobRowsOnly_detachJob) h

theorem jobsOnly_detachPolicy {p : VgBackupPolicy} {attached : List VgBackupJob} {s t : Store}
    (h : s.detachPolicy p attached = some t) : JobsOnly s t := by
  simp only [Store.detachPolicy,Option.map_eq_some_iff] at h
  obtain ⟨u,hu,rfl⟩ := h
  obtain ⟨_,_,_,rfl⟩ := jobRowsOnly_detachJobs hu
  exact ⟨_,_,_,_,_,rfl⟩

theorem jobsOnly_exec (s : Store) {β : Type} (w : JobWrite β) : JobsOnly s (w.exec s).1 := by
  cases w with
  | insertSchedule job cronExpr timezone =>
    simp only [JobWrite.exec]
    split
    · rename_i t h
      obtain ⟨_,_,rfl⟩ := insertSchedule_eq h
      exact ⟨_,_,_,_,_,rfl⟩
    · exact ⟨_,_,_,_,_,rfl⟩
  | detachPolicy p attached =>
    simp only [JobWrite.exec]
    split
    · rename_i t h
      exact jobsOnly_detachPolicy h
    · exact ⟨_,_,_,_,_,rfl⟩
  | insertConnection c =>
    simp only [JobWrite.exec,Store.insertConnection]
    split <;> exact ⟨_,_,_,_,_,rfl⟩
  | updateConnection id p =>
    simp only [JobWrite.exec]
    split <;> exact ⟨_,_,_,_,_,rfl⟩
  | _ => exact ⟨_,_,_,_,_,rfl⟩

def SideOnly (s t : Store) : Prop :=
  ∃ agents artifacts chunks baselines files nextID,
    t = { s with
      agents := agents, artifacts := artifacts, chunks := chunks, baselines := baselines
      files := files, nextID := nextID }

theorem sideOnly_exec (s : Store) {β : Type} (w : SideWrite β) : SideOnly s (w.exec s).1 := by
  cases w with
  | insertBaseline job avgBytes sampleCount now =>
    simp only [SideWrite.exec,Store.insertBaseline]
    split <;> exact ⟨_,_,_,_,_,_,rfl⟩
  | insertArtifact n =>
    simp only [SideWrite.exec,Store.insertArtifact]
    split <;> exact ⟨_,_,_,_,_,_,rfl⟩
  | insertChunk n =>
    simp only [SideWrite.exec,Store.insertChunk]
    split <;> exact ⟨_,_,_,_,_,_,rfl⟩
  | _ => exact ⟨_,_,_,_,_,_,rfl⟩

theorem updateRestore_cases (s : Store) (w : RestoreWhere) (p : RestorePatch) :
    ((RestoreWrite.update w p).exec s).1 = s ∨
    ((RestoreWrite.update w p).exec s).1 = s.updateRestore w p := by
  simp only [RestoreWrite.exec]
  split
  · exact .inr rfl
  · exact .inl rfl

def RestoresOnly (s t : Store) : Prop :=
  ∃ restores nextID, t = { s with restores := restores, nextID := nextID }

theorem restoresOnly_exec (s : Store) {β : Type} (w : RestoreWrite β) :
    RestoresOnly s (w.exec s).1 := by
  cases w with
  | insert n =>
    simp only [RestoreWrite.exec,Store.insertRestore]
    split <;> exact ⟨_,_,rfl⟩
  | update w p =>
    rcases updateRestore_cases s w p with he | he
    · rw [he]
      exact ⟨_,_,rfl⟩
    · rw [he]
      exact ⟨_,_,rfl⟩

def RunsOnly (s t : Store) : Prop :=
  ∃ runs nextID runLock, t = { s with runs := runs, nextID := nextID, runLock := runLock }

theorem runsOnly_insertRun (s : Store) (n : NewRun) (b : Bool) : RunsOnly s (s.insertRun n b).1 := by
  unfold Store.insertRun
  split
  · exact ⟨_,_,_,rfl⟩
  · split <;> exact ⟨_,_,_,rfl⟩

inductive RunEffect (pid : Nat) (s : Store) : {β : Type} → RunWrite β → Store → β → Prop
  | update (w : RunWhere) (p : RunPatch) :
      RunEffect pid s (.update w p) (s.updateRun w p) (s.runs.count w.matches)
  | insert (n : NewRun) (c : Bool) :
      RunEffect pid s (.insert n c) (s.insertRun n c).1 (s.insertRun n c).2
  | delete (id : UUID) : RunEffect pid s (.delete id) (s.deleteRun id) ()
  | lock (id : UUID) (l : UUID → Option Nat) (r : Option VgBackupRun) :
      RunEffect pid s (.lock id) { s with runLock := l } r
  | insertCommit (n : NewRun) :
      RunEffect pid s (.insertCommit n) ((s.insertRun n false).1.unlock pid) (s.insertRun n false).2
  | commit : RunEffect pid s .commit (s.unlock pid) ()

theorem run_effect {s t : Store} {pid : Nat} {β : Type} {w : RunWrite β} {b : β}
    (h : w.exec pid s = some (t,b)) : RunEffect pid s w t b := by
  cases w with
  | update w p =>
    simp only [RunWrite.exec] at h
    split at h
    · simp at h
    · obtain ⟨rfl,rfl⟩ := Prod.mk.inj (Option.some.inj h)
      exact .update w p
  | insert n c =>
    have hi : s.insertRun n c = (t,b) := Option.some.inj h
    have ht : (s.insertRun n c).1 = t := congrArg Prod.fst hi
    have hb : (s.insertRun n c).2 = b := congrArg Prod.snd hi
    subst ht hb
    exact .insert n c
  | delete id =>
    simp only [RunWrite.exec] at h
    split at h
    · simp at h
    · obtain ⟨rfl,rfl⟩ := Prod.mk.inj (Option.some.inj h)
      exact .delete id
  | lock id =>
    simp only [RunWrite.exec] at h
    split at h
    · obtain ⟨rfl,rfl⟩ := Prod.mk.inj (Option.some.inj h)
      exact .lock id s.runLock none
    · split at h
      · simp at h
      · obtain ⟨rfl,rfl⟩ := Prod.mk.inj (Option.some.inj h)
        exact .lock id _ _
  | insertCommit n =>
    obtain ⟨rfl,rfl⟩ := Prod.mk.inj (Option.some.inj h)
    exact .insertCommit n
  | commit =>
    obtain ⟨rfl,rfl⟩ := Prod.mk.inj (Option.some.inj h)
    exact .commit

theorem runsOnly_exec {s t : Store} {pid : Nat} {β : Type} {w : RunWrite β} {b : β}
    (h : w.exec pid s = some (t,b)) : RunsOnly s t := by
  cases run_effect h with
  | insert n c => exact runsOnly_insertRun s n c
  | insertCommit n =>
    obtain ⟨_,_,_,hi⟩ := runsOnly_insertRun s n false
    rw [hi]
    exact ⟨_,_,_,rfl⟩
  | _ => exact ⟨_,_,_,rfl⟩

def AgentsOnly (s t : Store) : Prop :=
  ∃ agents tokens machines tokenLock nextID,
    t = { s with
      agents := agents, tokens := tokens, machines := machines, tokenLock := tokenLock
      nextID := nextID }

inductive AgentEffect (pid : Nat) (s : Store) : {β : Type} → AgentWrite β → Store → β → Prop
  | heartbeat (id : UUID) (now : Time) (version : Option String) :
      AgentEffect pid s (.heartbeat id now version) (s.updateAgents id (fun a => { a with
        updatedAt := s.clock, status := .online, lastSeenAt := some now
        version := version.getD a.version }) fun _ => rfl) ()
  | heartbeatRefused (id : UUID) (now : Time) (version : Option String) :
      AgentEffect pid s (.heartbeat id now version) s ()
  | register (id : UUID) (p : Registration) :
      AgentEffect pid s (.register id p) (s.updateAgents id (p.apply s.clock) fun _ => rfl) ()
  | registerRefused (id : UUID) (p : Registration) : AgentEffect pid s (.register id p) s ()
  | rotate (id : UUID) (tokenHash : String) (h : (first s.agents id).any (·.revokedAt.isNone) = true) :
      AgentEffect pid s (.rotate id tokenHash) (s.updateAgents id (fun a => { a with
        updatedAt := s.clock, tokenHash := some tokenHash, tokenRotatedAt := some s.clock })
        fun _ => rfl) true
  | rotateRefused (id : UUID) (tokenHash : String)
      (h : (first s.agents id).any (·.revokedAt.isNone) = false) :
      AgentEffect pid s (.rotate id tokenHash) s false
  | revoke (id : UUID) (now : Time) :
      AgentEffect pid s (.revoke id now) (s.updateAgents id (fun a => { a with
        updatedAt := s.clock, revokedAt := some now, status := .offline }) fun _ => rfl) ()
  | insert (a : VgAgent) (h : s.keyTaken a = false) :
      AgentEffect pid s (.insert a) (s.addAgent a) (.created s.nextID)
  | insertTaken (a : VgAgent) (h : s.keyTaken a = true) :
      AgentEffect pid s (.insert a) s .violation
  | insertWithToken (a : VgAgent) (t : VgEnrollmentToken)
      (h : (s.tokens.rows.any fun r => r.tokenHash == t.tokenHash) = false) :
      AgentEffect pid s (.insertWithToken a t)
        ((s.addAgent a).addToken { t with agentID := some s.nextID }) (.created s.nextID)
  | insertWithTokenTaken (a : VgAgent) (t : VgEnrollmentToken)
      (h : (s.tokens.rows.any fun r => r.tokenHash == t.tokenHash) = true) :
      AgentEffect pid s (.insertWithToken a t) s .violation
  | saveMachine (found : Option UUID) (m : MachineFacts) :
      AgentEffect pid s (.saveMachine found m) (s.saveMachine found m) ()
  | saveMachineRefused (found : Option UUID) (m : MachineFacts) :
      AgentEffect pid s (.saveMachine found m) s ()
  | claimToken (id : UUID) (ho : s.openToken id = true) (hl : s.tokenLock id = none) :
      AgentEffect pid s (.claimToken id)
        { s with tokenLock := Function.update s.tokenLock id (some pid) } true
  | claimLost (id : UUID) (ho : s.openToken id = false) :
      AgentEffect pid s (.claimToken id) s false
  | commitEnrollment (token : UUID) (usedAt : Time) (agent : UUID) (p : Installation)
      (found : Option UUID) (m : MachineFacts) (hl : s.tokenLock token = some pid) :
      AgentEffect pid s (.commitEnrollment token usedAt agent p found m)
        ((s.enroll token usedAt agent p found m).releaseTokens pid) true
  | commitRefused (token : UUID) (usedAt : Time) (agent : UUID) (p : Installation)
      (found : Option UUID) (m : MachineFacts) :
      AgentEffect pid s (.commitEnrollment token usedAt agent p found m) (s.releaseTokens pid) false
  | rollback : AgentEffect pid s .rollback (s.releaseTokens pid) ()
  | revokeToken (id : UUID) (now : Time) (ho : s.openToken id = true)
      (hl : s.tokenLock id = none) :
      AgentEffect pid s (.revokeToken id now) (s.updateTokens id (fun t => { t with
        updatedAt := s.clock, revokedAt := some now }) fun _ => rfl) true
  | revokeLost (id : UUID) (now : Time) (ho : s.openToken id = false) :
      AgentEffect pid s (.revokeToken id now) s false

theorem agent_effect {s t : Store} {pid : Nat} {β : Type} {w : AgentWrite β} {b : β}
    (h : w.exec pid s = some (t,b)) : AgentEffect pid s w t b := by
  cases w with
  | heartbeat id now version =>
    simp only [AgentWrite.exec] at h
    split at h
    · obtain ⟨rfl,-⟩ := Prod.mk.inj (Option.some.inj h)
      exact .heartbeat id now version
    · obtain ⟨rfl,-⟩ := Prod.mk.inj (Option.some.inj h)
      exact .heartbeatRefused id now version
  | register id p =>
    simp only [AgentWrite.exec] at h
    split at h
    · obtain ⟨rfl,-⟩ := Prod.mk.inj (Option.some.inj h)
      exact .register id p
    · obtain ⟨rfl,-⟩ := Prod.mk.inj (Option.some.inj h)
      exact .registerRefused id p
  | rotate id tokenHash =>
    simp only [AgentWrite.exec] at h
    split at h
    · rename_i hl
      obtain ⟨rfl,rfl⟩ := Prod.mk.inj (Option.some.inj h)
      exact .rotate id tokenHash hl
    · rename_i hl
      obtain ⟨rfl,rfl⟩ := Prod.mk.inj (Option.some.inj h)
      exact .rotateRefused id tokenHash (Bool.eq_false_iff.mpr hl)
  | revoke id now =>
    obtain ⟨rfl,-⟩ := Prod.mk.inj (Option.some.inj h)
    exact .revoke id now
  | insert a =>
    simp only [AgentWrite.exec] at h
    split at h
    · rename_i hk
      obtain ⟨rfl,rfl⟩ := Prod.mk.inj (Option.some.inj h)
      exact .insertTaken a hk
    · rename_i hk
      obtain ⟨rfl,rfl⟩ := Prod.mk.inj (Option.some.inj h)
      exact .insert a (Bool.eq_false_iff.mpr hk)
  | insertWithToken a t =>
    simp only [AgentWrite.exec] at h
    split at h
    · rename_i hk
      obtain ⟨rfl,rfl⟩ := Prod.mk.inj (Option.some.inj h)
      exact .insertWithTokenTaken a t hk
    · rename_i hk
      obtain ⟨rfl,rfl⟩ := Prod.mk.inj (Option.some.inj h)
      exact .insertWithToken a t (Bool.eq_false_iff.mpr hk)
  | saveMachine found m =>
    simp only [AgentWrite.exec] at h
    split at h
    · obtain ⟨rfl,-⟩ := Prod.mk.inj (Option.some.inj h)
      exact .saveMachine found m
    · obtain ⟨rfl,-⟩ := Prod.mk.inj (Option.some.inj h)
      exact .saveMachineRefused found m
  | claimToken id =>
    simp only [AgentWrite.exec] at h
    split at h
    · rename_i ho
      split at h
      · simp at h
      · rename_i hl
        obtain ⟨rfl,rfl⟩ := Prod.mk.inj (Option.some.inj h)
        exact .claimToken id ho (by simpa using hl)
    · rename_i ho
      obtain ⟨rfl,rfl⟩ := Prod.mk.inj (Option.some.inj h)
      exact .claimLost id (Bool.eq_false_iff.mpr ho)
  | commitEnrollment token usedAt agent p found m =>
    simp only [AgentWrite.exec] at h
    split at h
    · rename_i hl
      split at h
      · obtain ⟨rfl,rfl⟩ := Prod.mk.inj (Option.some.inj h)
        exact .commitEnrollment token usedAt agent p found m hl
      · obtain ⟨rfl,rfl⟩ := Prod.mk.inj (Option.some.inj h)
        exact .commitRefused token usedAt agent p found m
    · simp at h
  | rollback =>
    obtain ⟨rfl,-⟩ := Prod.mk.inj (Option.some.inj h)
    exact .rollback
  | revokeToken id now =>
    simp only [AgentWrite.exec] at h
    split at h
    · rename_i ho
      split at h
      · simp at h
      · rename_i hl
        obtain ⟨rfl,rfl⟩ := Prod.mk.inj (Option.some.inj h)
        exact .revokeToken id now ho (by simpa using hl)
    · rename_i ho
      obtain ⟨rfl,rfl⟩ := Prod.mk.inj (Option.some.inj h)
      exact .revokeLost id now (Bool.eq_false_iff.mpr ho)

theorem agentsOnly_exec {s t : Store} {pid : Nat} {β : Type} {w : AgentWrite β} {b : β}
    (h : w.exec pid s = some (t,b)) : AgentsOnly s t := by
  cases agent_effect h with
  | saveMachine found m => cases found <;> exact ⟨_,_,_,_,_,rfl⟩
  | commitEnrollment token usedAt agent p found m hl =>
    cases found <;> exact ⟨_,_,_,_,_,rfl⟩
  | _ => exact ⟨_,_,_,_,_,rfl⟩

inductive Effect (pid : Nat) (s : Store) : {β : Type} → Stmt β → Store → β → Prop
  | select {β : Type} (q : Select β) : Effect pid s (.select q) s (q.eval s)
  | run {β : Type} {w : RunWrite β} {t : Store} {b : β} (h : RunEffect pid s w t b)
      (hx : w.exec pid s = some (t,b)) : Effect pid s (.run w) t b
  | restore {β : Type} (w : RestoreWrite β) : Effect pid s (.restore w) (w.exec s).1 (w.exec s).2
  | job {β : Type} (w : JobWrite β) : Effect pid s (.job w) (w.exec s).1 (w.exec s).2
  | side {β : Type} (w : SideWrite β) : Effect pid s (.side w) (w.exec s).1 (w.exec s).2
  | agent {β : Type} {w : AgentWrite β} {t : Store} {b : β} (hx : w.exec pid s = some (t,b)) :
      Effect pid s (.agent w) t b

theorem stmt_effect {s t : Store} {pid : Nat} {β : Type} {i : Stmt β} {b : β}
    (h : i.exec pid s = some (t,b)) : Effect pid s i t b := by
  have pair : ∀ r : Store × β, some r = some (t,b) → r.1 = t ∧ r.2 = b := by
    intro r hr
    exact Prod.mk.inj (Option.some.inj hr)
  cases i with
  | select q =>
    obtain ⟨rfl,rfl⟩ := pair _ h
    exact .select q
  | run w => exact .run (run_effect h) h
  | restore w =>
    obtain ⟨rfl,rfl⟩ := pair _ h
    exact .restore w
  | job w =>
    obtain ⟨rfl,rfl⟩ := pair _ h
    exact .job w
  | side w =>
    obtain ⟨rfl,rfl⟩ := pair _ h
    exact .side w
  | agent w => exact .agent h

theorem runs_restore (s : Store) {β : Type} (w : RestoreWrite β) : (w.exec s).1.runs = s.runs := by
  obtain ⟨_,_,h⟩ := restoresOnly_exec s w
  rw [h]

theorem runs_job (s : Store) {β : Type} (w : JobWrite β) : (w.exec s).1.runs = s.runs := by
  obtain ⟨_,_,_,_,_,h⟩ := jobsOnly_exec s w
  rw [h]

theorem runs_agent {s t : Store} {pid : Nat} {β : Type} {w : AgentWrite β} {b : β}
    (h : w.exec pid s = some (t,b)) : t.runs = s.runs := by
  obtain ⟨_,_,_,_,_,rfl⟩ := agentsOnly_exec h
  rfl

theorem runs_side (s : Store) {β : Type} (w : SideWrite β) : (w.exec s).1.runs = s.runs := by
  obtain ⟨_,_,_,_,_,_,h⟩ := sideOnly_exec s w
  rw [h]

end VgBackup
