import ServerHub.Go.Time
import ServerHub.Interleave.Routine
import ServerHub.Transfer.Service

namespace Transfer

open Posix Interleave Interleave.Prog

section Names

def validUploadID (id : Name) : Bool :=
  decide (1 ≤ id.length ∧ id.length ≤ 64) && id.all fun c => c.isAlphanum || c == '_' || c == '-'

def decimal (n : Nat) : Char := Char.ofNat (48 + n % 10)

-- the five digits of an index below 100000
def chunkName (n : Nat) : Name :=
  [decimal (n / 10000),decimal (n / 1000),decimal (n / 100),decimal (n / 10),decimal n]

theorem decimal_below : ∀ a < 10, ∀ b < 10, (decimal a < decimal b ↔ a < b) ∧
    (decimal a = decimal b ↔ a = b) := by decide

theorem decimal_mod (n : Nat) : decimal n = decimal (n % 10) := by simp [decimal]

theorem decimal_lt {a b : Nat} : decimal a < decimal b ↔ a % 10 < b % 10 := by
  rw [decimal_mod a,decimal_mod b]
  exact (decimal_below _ (Nat.mod_lt _ (by decide)) _ (Nat.mod_lt _ (by decide))).1

theorem decimal_eq {a b : Nat} : decimal a = decimal b ↔ a % 10 = b % 10 := by
  rw [decimal_mod a,decimal_mod b]
  exact (decimal_below _ (Nat.mod_lt _ (by decide)) _ (Nat.mod_lt _ (by decide))).2

theorem chunkName_le {a b : Nat} (ha : a < 100000) (hb : b < 100000)
    (h : FileTree.nameLe (chunkName a) (chunkName b) = true) : a ≤ b := by
  simp only [chunkName,FileTree.nameLe,decimal_eq,decimal_lt] at h
  split_ifs at h <;> simp at h <;> omega

theorem chunkName_inj {a b : Nat} (ha : a < 100000) (hb : b < 100000)
    (h : chunkName a = chunkName b) : a = b := by
  simp only [chunkName,List.cons.injEq,decimal_eq] at h
  omega

end Names

structure ChunkFile where
  session : Name
  name : Name
  inode : Nat
deriving DecidableEq

-- os.TempDir()/sh-chunks: the directories with their modification times, and what is in them
structure ChunkArea where
  sessions : List (Name × Int)
  files : List ChunkFile
  bytes : Nat → Bytes
  next : Nat

namespace ChunkArea

variable (a : ChunkArea)

def find (session name : Name) : Option ChunkFile :=
  a.files.find? fun f => f.session = session ∧ f.name = name

def touch (session : Name) (t : Int) : List (Name × Int) :=
  a.sessions.map fun d => if d.1 = session then (d.1,t) else d

def hasSession (session : Name) : Bool := a.sessions.any fun d => d.1 = session

def listing (session : Name) : List ChunkFile :=
  (a.files.filter fun f => f.session = session).insertionSort fun f g => FileTree.nameLe f.name g.name

def content (l : List ChunkFile) : Bytes := (l.map fun f => a.bytes f.inode).flatten

variable {a : ChunkArea} {session : Name} {f : ChunkFile}

theorem mem_listing : f ∈ a.listing session ↔ f ∈ a.files ∧ f.session = session := by
  simp [listing]

theorem listing_sorted : (a.listing session).Pairwise fun f g =>
    FileTree.nameLe f.name g.name = true := by
  let r : ChunkFile → ChunkFile → Prop := fun f g => FileTree.nameLe f.name g.name = true
  have htotal : Std.Total r := ⟨fun f g => FileTree.nameLe_total f.name g.name⟩
  have htrans : IsTrans ChunkFile r := ⟨fun _ _ _ => FileTree.nameLe_trans⟩
  exact List.pairwise_insertionSort r _

theorem listing_nodup (h : (a.files.filter fun f => f.session = session).Nodup) :
    (a.listing session).Nodup := (List.perm_insertionSort _ _).nodup_iff.mpr h

end ChunkArea

structure Uploads where
  area : ChunkArea
  disk : Disk
  clock : Int
  -- calls on the chunk area fail while this is set
  faulty : Bool
  cancelled : Nat → Bool

-- a request body: what its reads return, and whether they end with an error
structure Source where
  pieces : List Bytes
  cut : Bool
deriving DecidableEq

def Source.payload (src : Source) : Bytes := src.pieces.flatten

inductive ChunkRequest where
  | saveChunk (uploadID : Name) (chunkIndex : Int) (src : Source)
  | finalizeChunk (uploadID : Name) (destDir : Text) (filename : Name)
deriving DecidableEq

-- none is the error of the cancelled context
inductive ChunkAnswer where
  | saved (r : Except AppError Unit)
  | finalized (r : Except (Option AppError) Text)
deriving DecidableEq

inductive ChunkCall : Type → Type where
  | sessionDirs : ChunkCall (List Name)
  | now : ChunkCall Int
  | isStale (session : Name) (cutoff : Int) : ChunkCall Bool
  | mkdirAll (session : Name) : ChunkCall Bool
  | openExcl (session name : Name) : ChunkCall (Except SysErr Nat)
  | write (i : Nat) (b : Bytes) : ChunkCall Bool
  | close (i : Nat) : ChunkCall Bool
  | readDir (session : Name) : ChunkCall (Option (List Name))
  | size (session name : Name) : ChunkCall (Option Nat)
  | openRead (session name : Name) : ChunkCall (Option Nat)
  | read (i : Nat) : ChunkCall (Option Bytes)
  | leftovers (session : Name) : ChunkCall (List Name)
  | unlink (session name : Name) : ChunkCall Unit
  | rmdir (session : Name) : ChunkCall Unit
  | resolve (requestedPath : Text) : ChunkCall (Except AppError Text)
  | cancelled : ChunkCall Bool
  -- the call returns to its caller
  | reply (r : ChunkRequest) (a : ChunkAnswer) : ChunkCall Unit

-- the calls on the storage, and those on the chunk area
abbrev ChunkOp (β : Type) : Type := Syscall β ⊕ ChunkCall β

abbrev ChunkCalls := Prog ChunkOp

section Exec

variable (root : Text)

def Uploads.stale (s : Uploads) (session : Name) (cutoff : Int) : Bool :=
  !s.faulty && s.area.sessions.any fun d => d.1 = session ∧ d.2 < cutoff

def Uploads.opening (s : Uploads) (session name : Name) : Except SysErr ChunkArea :=
  if s.faulty then .error .other
  else if !s.area.hasSession session then .error .notExist
  else if (s.area.find session name).isSome then .error .exist
  else
    .ok { s.area with
      sessions := s.area.touch session s.clock
      files := ⟨session,name,s.area.next⟩ :: s.area.files
      bytes := Function.update s.area.bytes s.area.next []
      next := s.area.next + 1 }

def Uploads.unlinked (s : Uploads) (session name : Name) : Option ChunkFile :=
  if s.faulty then none else s.area.find session name

def ChunkArea.without (a : ChunkArea) (f : ChunkFile) (t : Int) : ChunkArea :=
  { a with
    sessions := a.touch f.session t
    files := a.files.filter fun g => ¬(g.session = f.session ∧ g.name = f.name) }

def Uploads.rmdir (s : Uploads) (session : Name) : ChunkArea :=
  if s.faulty || s.area.files.any fun f => f.session = session then s.area
  else { s.area with sessions := s.area.sessions.filter fun d => d.1 ≠ session }

def execChunk (pid : Nat) : {β : Type} → ChunkCall β → Uploads → Option (Uploads × β)
  | _, .sessionDirs, s =>
      some (s,if s.faulty then [] else
        (s.area.sessions.map Prod.fst).dedup.insertionSort fun a b => FileTree.nameLe a b)
  | _, .now, s => some (s,s.clock)
  | _, .isStale session cutoff, s => some (s,s.stale session cutoff)
  | _, .mkdirAll session, s =>
      if s.faulty then some (s,false)
      else if s.area.hasSession session then some (s,true)
      else some ({ s with area.sessions := (session,s.clock) :: s.area.sessions },true)
  | _, .openExcl session name, s =>
      match s.opening session name with
      | .error e => some (s,.error e)
      | .ok a => some ({ s with area := a },.ok s.area.next)
  | _, .write i b, s =>
      if s.faulty then some (s,false)
      else some ({ s with area.bytes := Function.update s.area.bytes i (s.area.bytes i ++ b) },true)
  | _, .close _, s => some (s,!s.faulty)
  | _, .readDir session, s =>
      some (s,if s.faulty || !s.area.hasSession session then none
        else some ((s.area.listing session).map ChunkFile.name))
  | _, .size session name, s =>
      some (s,if s.faulty then none
        else (s.area.find session name).map fun f => (s.area.bytes f.inode).length)
  | _, .openRead session name, s =>
      some (s,if s.faulty then none else (s.area.find session name).map ChunkFile.inode)
  | _, .read i, s => some (s,if s.faulty then none else some (s.area.bytes i))
  | _, .leftovers session, s =>
      some (s,if s.faulty then [] else (s.area.listing session).map ChunkFile.name)
  | _, .unlink session name, s =>
      match s.unlinked session name with
      | none => some (s,())
      | some f => some ({ s with area := s.area.without f s.clock },())
  | _, .rmdir session, s => some ({ s with area := s.rmdir session },())
  | _, .resolve requestedPath, s => some (s,resolveSafePath s.disk.tree root requestedPath)
  | _, .cancelled, s => some (s,s.cancelled pid)
  | _, .reply _ _, s => some (s,())

def exec (pid : Nat) : {β : Type} → ChunkOp β → Uploads → Option (Uploads × β)
  | _, .inl c, s => some ({ s with disk := (s.disk.run c).disk },(s.disk.run c).answer)
  | _, .inr i, s => execChunk root pid i s

end Exec

section Service

def chunk {β : Type} (i : ChunkCall β) : ChunkCalls β := perform (ι := ChunkOp) (Sum.inr i)

def storage {β : Type} (s : Syscall β) : ChunkCalls β := perform (ι := ChunkOp) (Sum.inl s)

-- os.RemoveAll of the directory of an upload
def removeSession (session : Name) : ChunkCalls Unit := do
  let names ← chunk (.leftovers session)
  each (fun name => chunk (.unlink session name)) names
  chunk (.rmdir session)

def reapStale (cutoff : Int) (session : Name) : ChunkCalls Unit := do
  if ← chunk (.isStale session cutoff) then removeSession session else return ()

def sweepStaleChunks : ChunkCalls Unit := do
  let entries ← chunk .sessionDirs
  let t ← chunk .now
  each (reapStale (t - 24 * Go.hour)) entries

-- io.Copy from an io.LimitReader: the bytes written, and whether a read or a write failed
def receive (i : Nat) (cut : Bool) : Nat → List Bytes → Nat → ChunkCalls (Nat × Bool)
  | 0, _, written => return (written,false)
  | _ + 1, [], written => return (written,cut)
  | left + 1, p :: ps, written => do
      if p = [] then receive i cut (left + 1) ps written
      else
      let b := p.take (left + 1)
      if ← chunk (.write i b) then receive i cut (left + 1 - b.length) ps (written + b.length)
      else return (written,true)

-- maxUploadSize is an int64
def saveChunk (maxUploadSize : Int) (uploadID : Name) (chunkIndex : Int) (src : Source) :
    ChunkCalls (Except AppError Unit) := do
  if validUploadID uploadID = false then return .error ⟨.invalidRequest,"invalid upload_id"⟩
  else if chunkIndex < 0 ∨ chunkIndex > 99999 then
    return .error ⟨.invalidRequest,"index out of range"⟩
  else
  sweepStaleChunks
  match ← chunk (.mkdirAll uploadID) with
  | false => return .error ⟨.internal,"cannot create chunk dir"⟩
  | true =>
  let name := chunkName chunkIndex.toNat
  match ← chunk (.openExcl uploadID name) with
  | .error .exist => return .error ⟨.fileExists,"chunk already received"⟩
  | .error _ => return .error ⟨.internal,"cannot create chunk file"⟩
  | .ok i =>
  let (written,copyErr) ← receive i src.cut (Go.int64 (maxUploadSize + 1)).toNat src.pieces 0
  let closed ← chunk (.close i)
  if copyErr || !closed then
    chunk (.unlink uploadID name)
    return .error ⟨.internal,"chunk write failed"⟩
  else if written > maxUploadSize then
    chunk (.unlink uploadID name)
    return .error ⟨.fileTooLarge,"chunk exceeds maximum upload size"⟩
  else return .ok ()

def totalSize (uploadID : Name) : List Name → Nat → ChunkCalls Nat
  | [], total => return total
  | name :: names, total => do
      match ← chunk (.size uploadID name) with
      | some n => totalSize uploadID names (total + n)
      | none => totalSize uploadID names total

def discard (destAbs : Text) (e : Option AppError) : ChunkCalls (Option (Option AppError)) := do
  let _ ← storage (.remove destAbs)
  return some e

-- the copying of the listed chunks into the new file; some is the error it ends with
def assemble (out : Nat) (destAbs : Text) (uploadID : Name) :
    List Name → ChunkCalls (Option (Option AppError))
  | [] => return none
  | name :: names => do
      match ← chunk .cancelled with
      | true => discard destAbs none
      | false =>
      match ← chunk (.openRead uploadID name) with
      | none => discard destAbs (some ⟨.internal,"cannot read chunk"⟩)
      | some f =>
      match ← chunk (.read f) with
      | none => discard destAbs (some ⟨.internal,"chunk assembly failed"⟩)
      | some b =>
      storage (.append out b)
      assemble out destAbs uploadID names

def tooLarge : AppError := ⟨.fileTooLarge,"file exceeds maximum upload size"⟩

-- from the listing of the directory on
def gather (root : Text) (maxUploadSize : Int) (uploadID : Name) (destAbs : Text) (entries : List Name) :
    ChunkCalls (Except (Option AppError) Text) := do
  let total ← totalSize uploadID entries 0
  if total > maxUploadSize then return .error (some tooLarge)
  else
  match ← storage (.createExcl destAbs) with
  | .error .exist => return .error (some ⟨.fileExists,"file already exists"⟩)
  | .error _ => return .error (some ⟨.internal,"cannot create output file"⟩)
  | .ok out =>
  match ← assemble out destAbs uploadID entries with
  | some e => return .error e
  | none =>
  let info ← storage (.stat destAbs)
  if (info.map fun i => decide (i.size ≤ maxUploadSize)) = .ok true then
    removeSession uploadID
    return .ok (toClientPath root destAbs)
  else
    let _ ← storage (.remove destAbs)
    removeSession uploadID
    return .error (some tooLarge)

def finalizeChunk (root : Text) (maxUploadSize : Int) (uploadID : Name) (destDir : Text)
    (filename : Name) : ChunkCalls (Except (Option AppError) Text) := do
  if validUploadID uploadID = false then
    return .error (some ⟨.invalidRequest,"invalid upload_id"⟩)
  else
  match validateFileName filename with
  | .error e => return .error (some e)
  | .ok _ =>
  if filename = trashDirName then return .error (some ⟨.invalidFileName,"name is reserved"⟩)
  else
  match rejectTrash destDir with
  | .error e => return .error (some e)
  | .ok _ =>
  match ← chunk (.resolve destDir) with
  | .error e => return .error (some e)
  | .ok absDir =>
  let destAbs := joinPath absDir filename
  match ← storage (.stat destAbs) with
  | .ok _ => return .error (some ⟨.fileExists,"file already exists"⟩)
  | .error _ =>
  match ← chunk (.readDir uploadID) with
  | none => return .error (some ⟨.internal,"chunk dir not found"⟩)
  | some entries =>
  gather root maxUploadSize uploadID destAbs entries

def answerChunk (root : Text) (maxUploadSize : Int) : ChunkRequest → ChunkCalls ChunkAnswer
  | .saveChunk uploadID chunkIndex src => do
      return .saved (← saveChunk maxUploadSize uploadID chunkIndex src)
  | .finalizeChunk uploadID destDir filename => do
      return .finalized (← finalizeChunk root maxUploadSize uploadID destDir filename)

def handleChunk (root : Text) (maxUploadSize : Int) (r : ChunkRequest) : ChunkCalls ChunkAnswer := do
  let a ← answerChunk root maxUploadSize r
  chunk (.reply r a)
  return a

end Service

section System

inductive ChunkEnv where
  | tick (t : Int)
  | fault (on : Bool)
  | cancel (pid : Nat)

def ChunkEnv.act : ChunkEnv → Uploads → Option Uploads
  | .tick t, s => if s.clock ≤ t then some { s with clock := t } else none
  | .fault on, s => some { s with faulty := on }
  | .cancel pid, s => some { s with cancelled := Function.update s.cancelled pid true }

theorem act_same {e : ChunkEnv} {s t : Uploads} (h : e.act s = some t) :
    t.area = s.area ∧ t.disk = s.disk ∧ ((∀ on, e ≠ .fault on) → t.faulty = s.faulty) := by
  cases e with
  | tick n =>
    obtain ⟨-,he⟩ := Option.ite_none_right_eq_some.mp h
    obtain rfl := Option.some.inj he
    exact ⟨rfl,rfl,fun _ => rfl⟩
  | fault on =>
    obtain rfl := Option.some.inj h
    exact ⟨rfl,rfl,fun hf => absurd rfl (hf on)⟩
  | cancel pid =>
    obtain rfl := Option.some.inj h
    exact ⟨rfl,rfl,fun _ => rfl⟩

def chunkedUploads (root : Text) (maxUploadSize : Int) : System where
  Instr := ChunkOp
  State := Uploads
  Request := ChunkRequest
  Answer := ChunkAnswer
  Env := ChunkEnv
  exec := exec root
  handle := handleChunk root maxUploadSize
  env := ChunkEnv.act

-- what a step leaves behind in the history of a run
inductive ChunkNote where
  | opened (session name : Name) (i : Nat)
  | wrote (i : Nat) (b : Bytes)
  | stale (session : Name)
  | swept (session : Name)
  | unlinked (f : ChunkFile)
  | stuck (session : Name)
  | listed (session : Name) (files : List ChunkFile)
  | found (f : ChunkFile)
  | read (i : Nat) (b : Bytes)
  | created (p : Text) (e : FileTree.Entry) (i : Nat)
  | copied (i : Nat) (b : Bytes)
  | withdrawn (p : Text)
  | replied (r : ChunkRequest) (a : ChunkAnswer)
deriving DecidableEq

def noteStorage (d : Disk) : {β : Type} → Syscall β → β → Option ChunkNote
  | _, .createExcl p, .ok i => (d.vacantEntry p).toOption.map fun e => .created p e i
  | _, .append i b, _ => some (.copied i b)
  | _, .remove p, _ => some (.withdrawn p)
  | _, _, _ => none

def noteChunk : {β : Type} → ChunkCall β → Uploads → β → Option ChunkNote
  | _, .openExcl session name, _, .ok i => some (.opened session name i)
  | _, .write i b, _, true => some (.wrote i b)
  | _, .isStale session _, _, true => some (.stale session)
  | _, .rmdir session, _, _ => some (.swept session)
  | _, .unlink session name, s, _ =>
      if s.faulty then some (.stuck session) else (s.area.find session name).map .unlinked
  | _, .readDir session, s, some _ => some (.listed session (s.area.listing session))
  | _, .openRead session name, _, some i => some (.found ⟨session,name,i⟩)
  | _, .read i, _, some b => some (.read i b)
  | _, .reply r a, _, _ => some (.replied r a)
  | _, _, _, _ => none

def chunkNote : (β : Type) → ChunkOp β → Uploads → β → Option ChunkNote
  | _, .inl c, s, b => noteStorage s.disk c b
  | _, .inr i, s, b => noteChunk i s b

end System

end Transfer
