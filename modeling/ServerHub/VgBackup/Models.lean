import ServerHub.Go.Strings

namespace VgBackup

abbrev UUID := Nat

abbrev Time := Int

def uuidNil : UUID := 0

def second : Int := 1000000000

structure VgBase where
  id : UUID
  createdAt : Time
  updatedAt : Time
  deletedAt : Option Time
deriving DecidableEq

def VgBase.zero : VgBase := ⟨uuidNil,0,0,none⟩

inductive VgAgentStatus where
  | online
  | offline
deriving DecidableEq

structure VgAgent extends VgBase where
  createdByUserID : Nat
  name : String
  tokenHash : Option String
  tokenRotatedAt : Option Time
  status : VgAgentStatus
  version : String
  lastSeenAt : Option Time
  registrationKey : Option String
  platform : String
  architecture : String
  machineName : String
  installedAt : Option Time
  revokedAt : Option Time
  registrationExpiresAt : Option Time
deriving DecidableEq

def VgAgent.zero : VgAgent :=
  ⟨VgBase.zero,0,"",none,none,.offline,"",none,none,"","","",none,none,none⟩

structure VgEnrollmentToken extends VgBase where
  agentID : Option UUID
  tokenHash : String
  expiresAt : Time
  usedAt : Option Time
  revokedAt : Option Time
  createdByUserID : Nat
deriving DecidableEq

structure VgMachine extends VgBase where
  agentID : UUID
  hostname : String
  os : String
  ipAddress : String
deriving DecidableEq

inductive VgStorageType where
  | s3
  | localDisk
  | smb
  | other (raw : String)
deriving DecidableEq

structure VgStorageTarget extends VgBase where
  createdByUserID : Nat
  name : String
  type : VgStorageType
  bucket : String
  region : String
  endpoint : String
  usePathStyle : Bool
  encryptedAccessKey : String
  encryptedSecretKey : String
  path : String
deriving DecidableEq

def VgStorageTarget.zero : VgStorageTarget :=
  ⟨VgBase.zero,0,"",.other "","","","",false,"","",""⟩

inductive VgConnectionStatus where
  | unknown
  | connected
  | disconnected
  | error
deriving DecidableEq

structure VgDatabaseConnection extends VgBase where
  createdByUserID : Nat
  agentID : UUID
  name : String
  type : String
  host : String
  port : Int
  username : String
  encryptedPassword : String
  status : VgConnectionStatus
  lastCheckedAt : Option Time
  databaseNames : String
deriving DecidableEq

def VgDatabaseConnection.zero : VgDatabaseConnection :=
  ⟨VgBase.zero,0,uuidNil,"","","",0,"","",.unknown,none,""⟩

inductive VgBackupSourceType where
  | filesystem
  | sqlServer
  | mssqlServer
  | dbf
  | postgres
  | mongo
  | other (raw : String)
deriving DecidableEq

inductive VgBackupMode where
  | normal
  | compressed
  | other (raw : String)
deriving DecidableEq

structure VgBackupJob extends VgBase where
  createdByUserID : Nat
  agentID : UUID
  storageTargetID : UUID
  policyID : Option UUID
  name : String
  sourceType : VgBackupSourceType
  connectionID : Option UUID
  sourcePath : String
  sourceDatabase : String
  includePatterns : String
  excludePatterns : String
  exportFormat : String
  mode : VgBackupMode
  encrypted : Bool
  retentionDays : Int
  enabled : Bool
  slaTargetMinutes : Int
  rpoTargetMinutes : Int
  rtoTargetMinutes : Int
deriving DecidableEq

def VgBackupJob.zero : VgBackupJob :=
  ⟨VgBase.zero,0,uuidNil,uuidNil,none,"",.other "",none,"","","","","",.other "",false,0,false,0,0,0⟩

structure VgBackupPolicy extends VgBase where
  createdByUserID : Nat
  name : String
  strategy : String
  cronExpr : String
  timezone : String
  enabled : Bool
  mode : VgBackupMode
  encrypted : Bool
  retentionDays : Int
  verificationEnabled : Bool
  maxRetries : Int
  retryDelaySeconds : Int
  slaTargetMinutes : Int
  rpoTargetMinutes : Int
  rtoTargetMinutes : Int
deriving DecidableEq

def VgBackupPolicy.zero : VgBackupPolicy :=
  ⟨VgBase.zero,0,"","","","",false,.other "",false,0,false,0,0,0,0,0⟩

structure VgBackupSchedule extends VgBase where
  backupJobID : UUID
  cronExpr : String
  timezone : String
deriving DecidableEq

structure LoadedJob where
  row : VgBackupJob
  schedule : Option VgBackupSchedule
  policy : Option VgBackupPolicy
  storageTarget : VgStorageTarget
  connection : Option VgDatabaseConnection
deriving DecidableEq

def LoadedJob.zero : LoadedJob := ⟨VgBackupJob.zero,none,none,VgStorageTarget.zero,none⟩

structure ResolvedPolicy where
  cronExpr : String
  timezone : String
  enabled : Bool
  mode : VgBackupMode
  encrypted : Bool
  retentionDays : Int
  verificationEnabled : Bool
  maxRetries : Int
  retryDelaySeconds : Int
  slaTargetMinutes : Int
  rpoTargetMinutes : Int
  rtoTargetMinutes : Int
  fromPolicy : Bool
  policyID : Option UUID
deriving DecidableEq

def orUTC (tz : String) : String := if tz = "" then "UTC" else tz

@[simp] theorem orUTC_orUTC (tz : String) : orUTC (orUTC tz) = orUTC tz := by
  by_cases h : tz = "" <;> simp [orUTC,h]

def effectivePolicy (job : LoadedJob) : ResolvedPolicy :=
  match job.policy, job.row.policyID with
  | some p, some pid =>
      let schedule : String × String :=
        if p.cronExpr ≠ "" then (p.cronExpr,orUTC p.timezone)
        else match job.schedule with
          | some s => (s.cronExpr,s.timezone)
          | none => ("","")
      { cronExpr := schedule.1
        timezone := orUTC schedule.2
        enabled := p.enabled
        mode := p.mode
        encrypted := p.encrypted
        retentionDays := p.retentionDays
        verificationEnabled := p.verificationEnabled
        maxRetries := p.maxRetries
        retryDelaySeconds := p.retryDelaySeconds
        slaTargetMinutes := p.slaTargetMinutes
        rpoTargetMinutes := p.rpoTargetMinutes
        rtoTargetMinutes := p.rtoTargetMinutes
        fromPolicy := true
        policyID := some pid }
  | _, _ =>
      let schedule : String × String := match job.schedule with
        | some s => (s.cronExpr,orUTC s.timezone)
        | none => ("","UTC")
      { cronExpr := schedule.1
        timezone := schedule.2
        enabled := job.row.enabled
        mode := job.row.mode
        encrypted := job.row.encrypted
        retentionDays := job.row.retentionDays
        verificationEnabled := true
        maxRetries := 0
        retryDelaySeconds := 300
        slaTargetMinutes := job.row.slaTargetMinutes
        rpoTargetMinutes := job.row.rpoTargetMinutes
        rtoTargetMinutes := job.row.rtoTargetMinutes
        fromPolicy := false
        policyID := none }

inductive RunStatus where
  | pending
  | running
  | uploading
  | verifying
  | completed
  | failed
  | cancelled
deriving DecidableEq, Repr

namespace RunStatus

def text : RunStatus → String
  | .pending => "PENDING"
  | .running => "RUNNING"
  | .uploading => "UPLOADING"
  | .verifying => "VERIFYING"
  | .completed => "COMPLETED"
  | .failed => "FAILED"
  | .cancelled => "CANCELLED"

def all : List RunStatus :=
  [.pending,.running,.uploading,.verifying,.completed,.failed,.cancelled]

def parse (raw : String) : Option RunStatus := all.find? fun s => s.text = raw

def inflight : RunStatus → Bool
  | .pending | .running | .uploading | .verifying => true
  | _ => false

def active : RunStatus → Bool
  | .running | .uploading | .verifying => true
  | _ => false

def terminal : RunStatus → Bool
  | .completed | .failed | .cancelled => true
  | _ => false

end RunStatus

def canTransition (a b : RunStatus) : Bool :=
  match a with
  | .pending => b = .running || b = .cancelled
  | .running => b = .uploading || b = .failed || b = .cancelled
  | .uploading => b = .verifying || b = .failed || b = .cancelled
  | .verifying => b = .completed || b = .failed || b = .cancelled
  | _ => false

structure VgBackupRun extends VgBase where
  backupJobID : UUID
  agentID : UUID
  storageTargetID : UUID
  status : RunStatus
  scheduledFor : Option Time
  cancelRequested : Bool
  retryOfRunID : Option UUID
  retryAttempt : Int
  startedAt : Option Time
  completedAt : Option Time
  bytesRead : Int
  bytesCompressed : Int
  bytesUploaded : Int
  durationSeconds : Int
  sourceType : VgBackupSourceType
  errorMessage : String
  failureCategory : String
  storagePath : String
  checksum : String
  dataKeyEncrypted : String
deriving DecidableEq

def VgBackupRun.zero : VgBackupRun :=
  { VgBase.zero with
    backupJobID := uuidNil, agentID := uuidNil, storageTargetID := uuidNil, status := .pending,
    scheduledFor := none, cancelRequested := false, retryOfRunID := none, retryAttempt := 0,
    startedAt := none, completedAt := none, bytesRead := 0, bytesCompressed := 0,
    bytesUploaded := 0, durationSeconds := 0, sourceType := .other "", errorMessage := "",
    failureCategory := "", storagePath := "", checksum := "", dataKeyEncrypted := "" }

inductive VerificationStatus where
  | unverified
  | verified
  | verifyFail
deriving DecidableEq

structure VgBackupArtifact extends VgBase where
  backupRunID : UUID
  name : String
  size : Int
  checksum : String
  storagePath : String
  storageTargetID : UUID
  verifiedAt : Option Time
  verificationStatus : VerificationStatus
deriving DecidableEq

structure VgBackupChunk extends VgBase where
  artifactID : UUID
  index : Int
  size : Int
  checksum : String
  storagePath : String
  uploaded : Bool
deriving DecidableEq

structure VgBackupSizeBaseline extends VgBase where
  backupJobID : UUID
  avgBytes : Int
  sampleCount : Nat
  lastUpdatedAt : Time
deriving DecidableEq

inductive RestoreStatus where
  | pending
  | running
  | completed
  | failed
deriving DecidableEq, Repr

namespace RestoreStatus

def text : RestoreStatus → String
  | .pending => "PENDING"
  | .running => "RUNNING"
  | .completed => "COMPLETED"
  | .failed => "FAILED"

def parse (raw : String) : Option RestoreStatus :=
  [RestoreStatus.pending,.running,.completed,.failed].find? fun s => s.text = raw

def active : RestoreStatus → Bool
  | .pending | .running => true
  | _ => false

end RestoreStatus

def canRestoreTransition (a b : RestoreStatus) : Bool :=
  match a with
  | .pending => b = .running || b = .failed
  | .running => b = .completed || b = .failed
  | _ => false

structure VgRestoreJob extends VgBase where
  backupRunID : UUID
  agentID : UUID
  connectionID : Option UUID
  status : RestoreStatus
  destinationPath : String
  targetDatabase : String
  startedAt : Option Time
  completedAt : Option Time
  durationSeconds : Int
  errorMessage : String
deriving DecidableEq

theorem canTransition_terminal {a b : RunStatus} (h : canTransition a b = true) :
    a.terminal = false := by
  cases a <;> simp_all [canTransition,RunStatus.terminal]

theorem canTransition_not_pending {a b : RunStatus} (h : canTransition a b = true) :
    b ≠ .pending := by
  cases a <;> rintro rfl <;> simp [canTransition] at h

theorem active_canTransition {a : RunStatus} (h : a.active = true) :
    canTransition a .failed = true ∧ canTransition a .cancelled = true := by
  cases a <;> simp_all [canTransition,RunStatus.active]

end VgBackup
