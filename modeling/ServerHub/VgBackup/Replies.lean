import ServerHub.VgBackup.Statements

namespace VgBackup

structure Env where
  parseUUID : String → Option UUID
  uuidString : UUID → String
  encrypt : String → Option String
  decrypt : String → Option String
  parseCron : String → Except String (String → Time → Time)
  loadLocation : String → Bool
  addDate : Time → Int → Time
  deleteRoot : String
  workDir : String
  sha256 : Posix.Text → String
  sha256Hex : String → String
  randomHex : Nat → Nat → String
  bcryptHash : Nat → String → Option String
  bcryptMatches : String → String → Bool
  readError : String → String
  bindError : String → String
  quote : String → String

structure RunDTO where
  id : UUID
  backupJobID : UUID
  status : RunStatus
  createdAt : Time
deriving DecidableEq

structure ConnectionDTO where
  id : UUID
  type : String
  host : String
  port : Int
  username : String
  password : String
deriving DecidableEq

structure StorageConfigDTO where
  type : VgStorageType
  path : String
  bucket : String
  region : String
  endpoint : String
  usePathStyle : Bool
  accessKey : String
  secretKey : String
deriving DecidableEq

structure JobConfigDTO where
  jobID : UUID
  organizationID : String
  name : String
  sourceType : VgBackupSourceType
  connectionID : Option UUID
  sourcePath : String
  sourceDatabase : String
  includePatterns : String
  excludePatterns : String
  mode : VgBackupMode
  encrypted : Bool
  retentionDays : Int
  exportFormat : String
  connection : Option ConnectionDTO
  storageType : VgStorageType
  storageBucket : String
  storageRegion : String
  storageEndpoint : String
  storagePath : String
  storage : StorageConfigDTO
deriving DecidableEq

structure RestoreDTO where
  id : UUID
  backupRunID : UUID
  destinationPath : String
  targetDatabase : String
  status : RestoreStatus
  storagePath : String
  storageType : VgStorageType
  storage : StorageConfigDTO
  dataKey : String
  connection : Option ConnectionDTO
  sourceType : VgBackupSourceType
  sourceDatabase : String
  exportFormat : String
  createdAt : Time
deriving DecidableEq

inductive Body where
  | empty
  | error (message : String)
  | updated (cancelRequested : Option Bool)
  | status (s : RunStatus)
  | created (id : UUID)
  | claimed (run : RunDTO) (cancelRequested : Bool) (config : JobConfigDTO)
  | restore (dto : RestoreDTO)
  | restoreJob (row : VgRestoreJob)
  | job (row : Option LoadedJob)
  | credential (agent : UUID) (token : String)
  | registrationKey (agent : UUID) (plaintext : String)
  | enrollmentToken (agent : UUID) (plaintext : String) (expiresAt : Time)
  | revoked
  | beat (serverTime : Time)
  | artifact (row : VgBackupArtifact)
  | chunk (row : VgBackupChunk)
  | connection (row : Option VgDatabaseConnection)
  | tested (databases : String)
  | policy (row : Option VgBackupPolicy)
  | enabled (now : Bool)
  | verified (same : Bool) (expected actual : String)
deriving DecidableEq

structure Reply where
  code : Nat
  body : Body
deriving DecidableEq

def fail (code : Nat) (message : String) : Handler Reply := .ret ⟨code,.error message⟩

inductive BackupRole where
  | viewer
  | operator
  | admin
deriving DecidableEq

structure Actor where
  role : BackupRole
  userID : Nat
deriving DecidableEq

def canAccessBackupResource (a : Actor) (ownerID : Nat) : Bool :=
  if a.userID = 0 then false
  else match a.role with
    | .admin => true
    | .viewer | .operator => a.userID == ownerID

end VgBackup
