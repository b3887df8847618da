import ServerHub.Interleave.Program
import ServerHub.Relational.Table
import ServerHub.VgBackup.Models
import ServerHub.VgBackup.StorageFiles

namespace VgBackup

open Relational

class Row (α : Type) where
  base : α → VgBase
  setBase : α → VgBase → α
  base_setBase : ∀ r b, base (setBase r b) = b

instance (priority := low) rowKeyed {α : Type} [Row α] : Keyed α := ⟨fun r => (Row.base r).id⟩

instance : Row VgAgent := ⟨VgAgent.toVgBase,fun r b => { r with toVgBase := b },fun _ _ => rfl⟩
instance : Row VgStorageTarget := ⟨VgStorageTarget.toVgBase,fun r b => { r with toVgBase := b },fun _ _ => rfl⟩
instance : Row VgDatabaseConnection :=
  ⟨VgDatabaseConnection.toVgBase,fun r b => { r with toVgBase := b },fun _ _ => rfl⟩
instance : Row VgBackupPolicy := ⟨VgBackupPolicy.toVgBase,fun r b => { r with toVgBase := b },fun _ _ => rfl⟩
instance : Row VgBackupJob := ⟨VgBackupJob.toVgBase,fun r b => { r with toVgBase := b },fun _ _ => rfl⟩
instance : Row VgBackupRun := ⟨VgBackupRun.toVgBase,fun r b => { r with toVgBase := b },fun _ _ => rfl⟩
instance : Row VgBackupArtifact := ⟨VgBackupArtifact.toVgBase,fun r b => { r with toVgBase := b },fun _ _ => rfl⟩
instance : Row VgBackupChunk := ⟨VgBackupChunk.toVgBase,fun r b => { r with toVgBase := b },fun _ _ => rfl⟩
instance : Row VgEnrollmentToken :=
  ⟨VgEnrollmentToken.toVgBase,fun r b => { r with toVgBase := b },fun _ _ => rfl⟩
instance : Row VgMachine := ⟨VgMachine.toVgBase,fun r b => { r with toVgBase := b },fun _ _ => rfl⟩
instance : Row VgRestoreJob := ⟨VgRestoreJob.toVgBase,fun r b => { r with toVgBase := b },fun _ _ => rfl⟩

def VgBase.live (b : VgBase) : Bool := b.deletedAt.isNone

section Rows

variable {α : Type} [Row α]

def live (r : α) : Bool := (Row.base r).live

def erased (now : Time) (r : α) : α := Row.setBase r { Row.base r with deletedAt := some now }

theorem key_erased (now : Time) (r : α) : key (erased now r) = key r := by
  simp [key,erased,Row.base_setBase]

def softDelete (t : Table α) (now : Time) (p : α → Bool) : Table α :=
  t.modify (fun r => live r && p r) (erased now) (key_erased now)

def first (t : Table α) (id : UUID) : Option α := (t.find id).filter live

def firstWhere (t : Table α) (p : α → Bool) : Option α := t.rows.find? fun r => live r && p r

def allWhere (t : Table α) (p : α → Bool) : List α := t.select fun r => live r && p r

def countWhere (t : Table α) (p : α → Bool) : Nat := t.count fun r => live r && p r

end Rows

structure Store where
  agents : Table VgAgent
  targets : Table VgStorageTarget
  connections : Table VgDatabaseConnection
  policies : Table VgBackupPolicy
  jobs : Table VgBackupJob
  schedules : UUID → Option VgBackupSchedule
  runs : Table VgBackupRun
  artifacts : Table VgBackupArtifact
  chunks : Table VgBackupChunk
  baselines : UUID → Option VgBackupSizeBaseline
  restores : Table VgRestoreJob
  tokens : Table VgEnrollmentToken
  machines : Table VgMachine
  files : Posix.FileTree Posix.Text
  clock : Time
  nextID : UUID
  runLock : UUID → Option Nat
  tokenLock : UUID → Option Nat

namespace Store

def scheduleOf (s : Store) (job : UUID) : Option VgBackupSchedule :=
  (s.schedules job).filter fun r => r.live

def baselineOf (s : Store) (job : UUID) : Option VgBackupSizeBaseline :=
  (s.baselines job).filter fun r => r.live

def preload (s : Store) (job : VgBackupJob) : LoadedJob where
  row := job
  schedule := s.scheduleOf job.id
  policy := job.policyID.bind (first s.policies)
  storageTarget := (first s.targets job.storageTargetID).getD VgStorageTarget.zero
  connection := job.connectionID.bind (first s.connections)

def loadJob (s : Store) (id : UUID) : Option LoadedJob := (first s.jobs id).map s.preload

def jobOf (s : Store) (run : VgBackupRun) : LoadedJob :=
  (s.loadJob run.backupJobID).getD LoadedJob.zero

def inflight (s : Store) (job : UUID) : Nat :=
  countWhere s.runs fun r => r.backupJobID == job && r.status.inflight

def activeRestores (s : Store) (run : UUID) : Nat :=
  countWhere s.restores fun r => r.backupRunID == run && r.status.active

def newer : Option VgBackupRun → VgBackupRun → Option VgBackupRun
  | none, r => some r
  | some a, r => if a.createdAt < r.createdAt then some r else some a

def newest (runs : List VgBackupRun) : Option VgBackupRun := runs.foldl newer none

def latestRun (s : Store) (job : UUID) : Option VgBackupRun :=
  newest (allWhere s.runs fun r => r.backupJobID == job)

def completedRuns (s : Store) (limit : Nat) : List VgBackupRun :=
  (orderBy (nullsLast VgBackupRun.completedAt)
    (allWhere s.runs fun r => decide (r.status = .completed))).take limit

def uploadedSizes (s : Store) (job : UUID) (limit : Nat) : List Int :=
  ((orderBy (Function.swap (nullsLast VgBackupRun.completedAt)) (allWhere s.runs fun r =>
    r.backupJobID == job && decide (r.status = .completed) && decide (0 < r.bytesUploaded))).take
      limit).map (·.bytesUploaded)

def machineOf (s : Store) (agent : UUID) : Option VgMachine :=
  (orderBy (fun a b => decide (a.id ≤ b.id)) (allWhere s.machines fun m => m.agentID == agent)).head?

end Store

structure RestoreKey where
  backupRunID : UUID
  agentID : UUID
  destinationPath : String
  targetDatabase : String
deriving DecidableEq

def VgRestoreJob.restoreKey (r : VgRestoreJob) : RestoreKey :=
  ⟨r.backupRunID,r.agentID,r.destinationPath,r.targetDatabase⟩

structure LoadedRestore where
  row : VgRestoreJob
  connection : Option VgDatabaseConnection
  run : VgBackupRun
  job : LoadedJob

inductive Select : Type → Type where
  | now : Select Time
  | firstAgent (id : UUID) : Select (Option VgAgent)
  | agentByKey (digest : String) : Select (Option VgAgent)
  | firstToken (id : UUID) : Select (Option VgEnrollmentToken)
  | tokenByHash (digest : String) : Select (Option VgEnrollmentToken)
  | machineOf (agent : UUID) : Select (Option VgMachine)
  | firstTarget (id : UUID) : Select (Option VgStorageTarget)
  | firstConnection (id : UUID) : Select (Option VgDatabaseConnection)
  | connectionJobs (id : UUID) : Select Nat
  | firstPolicy (id : UUID) : Select (Option VgBackupPolicy)
  | attachedJobs (policy : UUID) : Select (List VgBackupJob)
  | firstJob (id : UUID) : Select (Option VgBackupJob)
  | loadJob (id : UUID) : Select (Option LoadedJob)
  | allJobs : Select (List LoadedJob)
  | firstSchedule (job : UUID) : Select (Option VgBackupSchedule)
  | firstRun (id : UUID) (agent : Option UUID) : Select (Option VgBackupRun)
  | loadRun (id : UUID) : Select (Option (VgBackupRun × LoadedJob))
  | inflight (job : UUID) : Select Nat
  | latestRun (job : UUID) : Select (Option VgBackupRun)
  | retriesOf (run : UUID) : Select Nat
  | staleRuns (cutoff : Time) : Select (List VgBackupRun)
  | expiredRuns (job : UUID) (cutoff : Time) : Select (List VgBackupRun)
  | artifactsOf (run : UUID) : Select (List VgBackupArtifact)
  | artifactNamed (run : UUID) (name : String) : Select (Option VgBackupArtifact)
  | firstArtifact (id : UUID) : Select (Option VgBackupArtifact)
  | chunkAt (artifact : UUID) (index : Int) : Select (Option VgBackupChunk)
  | unverifiedArtifacts (run : UUID) : Select (List VgBackupArtifact)
  | completedRuns (limit : Nat) : Select (List (VgBackupRun × LoadedJob))
  | uploadedSizes (job : UUID) (limit : Nat) : Select (List Int)
  | firstBaseline (job : UUID) : Select (Option VgBackupSizeBaseline)
  | readFile (path : Posix.Text) : Select (Option Posix.Text)
  | activeRestores (run : UUID) : Select Nat
  | pendingRestore (k : RestoreKey) : Select (Option VgRestoreJob)
  | firstRestore (id : UUID) (agent : UUID) : Select (Option VgRestoreJob)
  | loadRestore (id : UUID) : Select (Option LoadedRestore)

def Select.eval : {β : Type} → Select β → Store → β
  | _, .now, s => s.clock
  | _, .firstAgent id, s => first s.agents id
  | _, .agentByKey digest, s => firstWhere s.agents fun a => a.registrationKey == some digest
  | _, .firstToken id, s => first s.tokens id
  | _, .tokenByHash digest, s =>
      firstWhere s.tokens fun t => t.tokenHash == digest && t.revokedAt.isNone
  | _, .machineOf agent, s => s.machineOf agent
  | _, .firstTarget id, s => first s.targets id
  | _, .firstConnection id, s => first s.connections id
  | _, .connectionJobs id, s => countWhere s.jobs fun j => j.connectionID == some id
  | _, .firstPolicy id, s => first s.policies id
  | _, .attachedJobs policy, s => allWhere s.jobs fun j => j.policyID == some policy
  | _, .firstJob id, s => first s.jobs id
  | _, .loadJob id, s => s.loadJob id
  | _, .allJobs, s => (allWhere s.jobs fun _ => true).map s.preload
  | _, .firstSchedule job, s => s.scheduleOf job
  | _, .firstRun id agent, s => (first s.runs id).filter fun r => agent.all (· == r.agentID)
  | _, .loadRun id, s => (first s.runs id).map fun r => (r,s.jobOf r)
  | _, .inflight job, s => s.inflight job
  | _, .latestRun job, s => s.latestRun job
  | _, .retriesOf run, s => countWhere s.runs fun r => r.retryOfRunID == some run
  | _, .staleRuns cutoff, s =>
      allWhere s.runs fun r => r.status.active && decide (r.updatedAt < cutoff)
  | _, .expiredRuns job cutoff, s => allWhere s.runs fun r =>
      r.backupJobID == job && r.status.terminal && r.completedAt.any (decide <| · < cutoff)
  | _, .artifactsOf run, s => allWhere s.artifacts fun a => a.backupRunID == run
  | _, .artifactNamed run name, s =>
      firstWhere s.artifacts fun a => a.backupRunID == run && a.name == name
  | _, .firstArtifact id, s => first s.artifacts id
  | _, .chunkAt artifact index, s =>
      firstWhere s.chunks fun c => c.artifactID == artifact && c.index == index
  | _, .unverifiedArtifacts run, s => allWhere s.artifacts fun a =>
      a.backupRunID == run && decide (a.verificationStatus = .unverified)
  | _, .completedRuns limit, s => (s.completedRuns limit).map fun r => (r,s.jobOf r)
  | _, .uploadedSizes job limit, s => s.uploadedSizes job limit
  | _, .firstBaseline job, s => s.baselineOf job
  | _, .readFile path, s => s.files.read path
  | _, .activeRestores run, s => s.activeRestores run
  | _, .pendingRestore k, s =>
      firstWhere s.restores fun r => decide (r.restoreKey = k) && decide (r.status = .pending)
  | _, .firstRestore id agent, s => (first s.restores id).filter fun r => r.agentID == agent
  | _, .loadRestore id, s => (first s.restores id).map fun r =>
      let run := (first s.runs r.backupRunID).getD VgBackupRun.zero
      { row := r
        connection := r.connectionID.bind (first s.connections)
        run := run
        job := s.jobOf run }

structure RunWhere where
  id : UUID
  agent : Option UUID := none
  status : Option RunStatus := none
deriving DecidableEq

def RunWhere.matches (w : RunWhere) (r : VgBackupRun) : Bool :=
  live r && r.id == w.id && w.agent.all (· == r.agentID) && w.status.all (· == r.status)

structure RunPatch where
  status : Option RunStatus := none
  startedAt : Option Time := none
  completedAt : Option Time := none
  cancelRequested : Option Bool := none
  bytesRead : Option Int := none
  bytesCompressed : Option Int := none
  bytesUploaded : Option Int := none
  durationSeconds : Option Int := none
  errorMessage : Option String := none
  failureCategory : Option String := none
  storagePath : Option String := none
  checksum : Option String := none
  dataKeyEncrypted : Option String := none
deriving DecidableEq

def RunPatch.apply (p : RunPatch) (now : Time) (r : VgBackupRun) : VgBackupRun :=
  { r with
    updatedAt := now
    status := p.status.getD r.status
    startedAt := p.startedAt.or r.startedAt
    completedAt := p.completedAt.or r.completedAt
    cancelRequested := p.cancelRequested.getD r.cancelRequested
    bytesRead := p.bytesRead.getD r.bytesRead
    bytesCompressed := p.bytesCompressed.getD r.bytesCompressed
    bytesUploaded := p.bytesUploaded.getD r.bytesUploaded
    durationSeconds := p.durationSeconds.getD r.durationSeconds
    errorMessage := p.errorMessage.getD r.errorMessage
    failureCategory := p.failureCategory.getD r.failureCategory
    storagePath := p.storagePath.getD r.storagePath
    checksum := p.checksum.getD r.checksum
    dataKeyEncrypted := p.dataKeyEncrypted.getD r.dataKeyEncrypted }

structure NewRun where
  backupJobID : UUID
  agentID : UUID
  storageTargetID : UUID
  sourceType : VgBackupSourceType
  scheduledFor : Option Time := none
  retryOfRunID : Option UUID := none
  retryAttempt : Int := 0
deriving DecidableEq

def NewRun.row (n : NewRun) (id : UUID) (now : Time) : VgBackupRun :=
  { VgBackupRun.zero with
    id := id, createdAt := now, updatedAt := now
    backupJobID := n.backupJobID, agentID := n.agentID, storageTargetID := n.storageTargetID
    status := .pending, sourceType := n.sourceType, scheduledFor := n.scheduledFor
    retryOfRunID := n.retryOfRunID, retryAttempt := n.retryAttempt }

inductive Insert where
  | created (id : UUID)
  | nothing
  | violation
deriving DecidableEq

def Store.scheduledTaken (s : Store) (n : NewRun) : Bool :=
  n.scheduledFor.isSome && s.runs.rows.any fun r =>
    r.backupJobID == n.backupJobID && r.scheduledFor == n.scheduledFor

def Store.retryTaken (s : Store) (n : NewRun) : Bool :=
  n.retryOfRunID.isSome && s.runs.rows.any fun r =>
    r.backupJobID == n.backupJobID && r.retryOfRunID == n.retryOfRunID

def Store.addRun (s : Store) (n : NewRun) : Store :=
  { s with runs := s.runs.insert (n.row s.nextID s.clock), nextID := s.nextID + 1 }

def Store.insertRun (s : Store) (n : NewRun) (onConflictDoNothing : Bool) : Store × Insert :=
  if s.retryTaken n then (s,.violation)
  else if s.scheduledTaken n then (s,if onConflictDoNothing then .nothing else .violation)
  else (s.addRun n,.created s.nextID)

def Store.held (s : Store) (pid : Nat) (id : UUID) : Bool := (s.runLock id).any (· != pid)

def Store.unlock (s : Store) (pid : Nat) : Store :=
  { s with runLock := fun id => (s.runLock id).filter (· != pid) }

inductive RunWrite : Type → Type where
  | update (w : RunWhere) (p : RunPatch) : RunWrite Nat
  | insert (n : NewRun) (onConflictDoNothing : Bool) : RunWrite Insert
  | delete (id : UUID) : RunWrite Unit
  | lock (id : UUID) : RunWrite (Option VgBackupRun)
  | insertCommit (n : NewRun) : RunWrite Insert
  | commit : RunWrite Unit

def Store.updateRun (s : Store) (w : RunWhere) (p : RunPatch) : Store :=
  { s with runs := s.runs.modify w.matches (p.apply s.clock) fun _ => rfl }

def Store.deleteRun (s : Store) (id : UUID) : Store :=
  { s with runs := softDelete s.runs s.clock fun r => r.id == id }

def RunWrite.exec (pid : Nat) : {β : Type} → RunWrite β → Store → Option (Store × β)
  | _, .update w p, s =>
      if s.held pid w.id && s.runs.rows.any w.matches then none
      else some (s.updateRun w p,s.runs.count w.matches)
  | _, .insert n doNothing, s => some (s.insertRun n doNothing)
  | _, .delete id, s =>
      if s.held pid id && (first s.runs id).isSome then none else some (s.deleteRun id,())
  | _, .lock id, s =>
      match first s.runs id with
      | none => some (s,none)
      | some r => if s.held pid id then none
          else some ({ s with runLock := Function.update s.runLock id (some pid) },some r)
  | _, .insertCommit n, s => some ((s.insertRun n false).1.unlock pid,(s.insertRun n false).2)
  | _, .commit, s => some (s.unlock pid,())

structure RestoreWhere where
  id : UUID
  agent : Option UUID := none
  status : Option RestoreStatus := none
deriving DecidableEq

def RestoreWhere.matches (w : RestoreWhere) (r : VgRestoreJob) : Bool :=
  live r && r.id == w.id && w.agent.all (· == r.agentID) && w.status.all (· == r.status)

def storable (text : String) : Bool := !text.toList.contains '\x00'

structure RestorePatch where
  status : RestoreStatus
  startedAt : Option Time := none
  completedAt : Option Time := none
  durationSeconds : Option Int := none
  errorMessage : Option String := none
deriving DecidableEq

def RestorePatch.apply (p : RestorePatch) (now : Time) (r : VgRestoreJob) : VgRestoreJob :=
  { r with
    updatedAt := now
    status := p.status
    startedAt := p.startedAt.or r.startedAt
    completedAt := p.completedAt.or r.completedAt
    durationSeconds := p.durationSeconds.getD r.durationSeconds
    errorMessage := p.errorMessage.getD r.errorMessage }

def RestorePatch.storable (p : RestorePatch) : Bool := p.errorMessage.all VgBackup.storable

structure NewRestore where
  dedupe : RestoreKey
  connectionID : Option UUID
deriving DecidableEq

def NewRestore.row (n : NewRestore) (id : UUID) (now : Time) : VgRestoreJob :=
  { id := id, createdAt := now, updatedAt := now, deletedAt := none
    backupRunID := n.dedupe.backupRunID, agentID := n.dedupe.agentID
    connectionID := n.connectionID, status := .pending
    destinationPath := n.dedupe.destinationPath, targetDatabase := n.dedupe.targetDatabase
    startedAt := none, completedAt := none, durationSeconds := 0, errorMessage := "" }

inductive RestoreWrite : Type → Type where
  | insert (n : NewRestore) : RestoreWrite (Option VgRestoreJob)
  | update (w : RestoreWhere) (p : RestorePatch) : RestoreWrite Nat

def Store.insertRestore (s : Store) (n : NewRestore) : Store × Option VgRestoreJob :=
  if s.restores.rows.any fun r => decide (r.restoreKey = n.dedupe) && decide (r.status = .pending)
  then (s,none)
  else ({ s with restores := s.restores.insert (n.row s.nextID s.clock), nextID := s.nextID + 1 },
    some (n.row s.nextID s.clock))

def Store.updateRestore (s : Store) (w : RestoreWhere) (p : RestorePatch) : Store :=
  { s with restores := s.restores.modify w.matches (p.apply s.clock) fun _ => rfl }

def RestoreWrite.exec : {β : Type} → RestoreWrite β → Store → Store × β
  | _, .insert n, s => s.insertRestore n
  | _, .update w p, s =>
      if p.storable then (s.updateRestore w p,s.restores.count w.matches) else (s,0)

end VgBackup
