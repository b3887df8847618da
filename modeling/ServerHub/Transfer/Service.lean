import ServerHub.Go.Hex
import ServerHub.Posix.Os
import ServerHub.Transfer.SafePath

namespace Transfer

open Posix Interleave Interleave.Prog

def trashDirName : Name := ['.','t','r','a','s','h']

theorem valid_trashDirName : ValidName trashDirName := by
  unfold ValidName
  decide

def isTrashPath (clientPath : Text) : Bool :=
  let p := if hasPrefix clientPath ['/'] then clientPath else '/' :: clientPath
  let c := clean p
  c == '/' :: trashDirName || hasPrefix c ('/' :: trashDirName ++ ['/'])

def rejectTrash (clientPath : Text) : Except AppError Unit :=
  if isTrashPath clientPath then .error ⟨.invalidPath,"path is inside the trash area"⟩ else .ok ()

def validateFileName (name : Name) : Except AppError Unit :=
  if name = [] ∨ '/' ∈ name ∨ '\\' ∈ name ∨ name = dot ∨ name = dotdot then
    .error ⟨.invalidFileName,"invalid file name: " ++ String.ofList (Go.quote name)⟩
  else .ok ()

theorem valid_newName {n : Name} (h : validateFileName n = .ok ()) : ValidName n := by
  unfold validateFileName at h
  split at h
  · cases h
  · rename_i hn
    simp only [not_or] at hn
    exact ⟨hn.1,hn.2.2.2.1,hn.2.2.2.2,hn.2.1⟩

def toClientPath (root abs : Text) : Text :=
  let slashed := relPath root abs
  if slashed = dot then ['/'] else '/' :: slashed

inductive Own : Type → Type where
  | resolve (requestedPath : Text) : Own (Except AppError Text)
  | lock : Own Unit
  | unlock : Own Unit

abbrev Op (β : Type) : Type := Syscall β ⊕ Own β

abbrev Service := Prog Op

def sys {β : Type} (s : Syscall β) : Service β := perform (ι := Op) (Sum.inl s)

def os {α : Type} (p : Calls α) : Service α := p.lift Sum.inl

def own {β : Type} (o : Own β) : Service β := perform (ι := Op) (Sum.inr o)

def resolve (requestedPath : Text) : Service (Except AppError Text) := own (.resolve requestedPath)

def lock : Service Unit := own .lock

def unlock : Service Unit := own .unlock

-- the error of a failed step: the service's own, or any other
abbrev Result := Except (Option AppError) Unit

def alreadyExists : AppError := ⟨.fileExists,"destination already exists"⟩

def renameFallback (src dst : Text) : Service Result := do
  match ← os (Os.rename src dst) with
  | .ok _ => return .ok ()
  | .error .exist => return .error (some alreadyExists)
  | .error _ => return .error none

def renameNoReplace (src dst : Text) : Service Result := do
  match ← sys (.stat src) with
  | .ok ⟨.dir,_,_⟩ => renameFallback src dst
  | _ =>
      match ← sys (.link src dst) with
      | .ok _ =>
          match ← sys (.remove src) with
          | .ok _ => return .ok ()
          | .error _ => return .error none
      | .error .exist => return .error (some alreadyExists)
      | .error _ => renameFallback src dst

-- an error that is not the service's own is reported with the operation's own text
def reported (text : String) : Result → Except AppError Unit
  | .ok _ => .ok ()
  | .error (some e) => .error e
  | .error none => .error ⟨.internal,text⟩

-- the locked check-and-rename that Rename, Move, TrashRestore and SaveUpload end with
def finalize (src dst : Text) (text : String) : Service (Except AppError Unit) := do
  lock
  match ← sys (.stat dst) with
  | .ok _ =>
      unlock
      return .error alreadyExists
  | .error _ =>
      let r ← renameNoReplace src dst
      unlock
      return reported text r

def rename (clientPath : Text) (newName : Name) : Service (Except AppError Unit) := do
  match validateFileName newName with
  | .error e => return .error e
  | .ok _ =>
  if newName = trashDirName then return .error ⟨.invalidFileName,"name is reserved"⟩
  else
  match rejectTrash clientPath with
  | .error e => return .error e
  | .ok _ =>
  match ← resolve clientPath with
  | .error e => return .error e
  | .ok abs =>
  match ← sys (.stat abs) with
  | .error _ => return .error ⟨.fileNotFound,"source not found"⟩
  | .ok _ => finalize abs (joinPath (dir abs) newName) "rename failed"

def move (srcPath dstPath : Text) : Service (Except AppError Unit) := do
  match rejectTrash srcPath with
  | .error e => return .error e
  | .ok _ =>
  match rejectTrash dstPath with
  | .error e => return .error e
  | .ok _ =>
  match ← resolve srcPath with
  | .error e => return .error e
  | .ok srcAbs =>
  match ← resolve dstPath with
  | .error e => return .error e
  | .ok dstAbs =>
  match ← sys (.stat srcAbs) with
  | .error _ => return .error ⟨.fileNotFound,"source not found"⟩
  | .ok _ =>
  match ← sys (.stat dstAbs) with
  | .ok _ => return .error alreadyExists
  | .error _ =>
  if hasPrefix (dstAbs ++ ['/']) (srcAbs ++ ['/']) then
    return .error ⟨.invalidPath,"cannot move directory into itself"⟩
  else finalize srcAbs dstAbs "move failed"

def delete (root clientPath : Text) (recursive : Bool) : Service (Except AppError Unit) := do
  match rejectTrash clientPath with
  | .error e => return .error e
  | .ok _ =>
  match ← resolve clientPath with
  | .error e => return .error e
  | .ok abs =>
  if abs = clean root then return .error ⟨.invalidPath,"cannot delete storage root"⟩
  else
  match ← sys (.stat abs) with
  | .error .notExist => return .error ⟨.fileNotFound,"path not found"⟩
  | .error _ => return .error ⟨.internal,"cannot stat path"⟩
  | .ok info =>
  if info.kind = .dir ∧ recursive = false then
    return .error ⟨.invalidRequest,"set recursive=true to delete a directory"⟩
  else
  match ← sys (.removeAll abs) with
  | .error _ => return .error ⟨.internal,"delete failed"⟩
  | .ok _ => return .ok ()

structure TrashItem where
  id : Name
  originalPath : Text
  name : Name
  isDir : Bool
  size : Nat
  deletedAt : Int
deriving DecidableEq

-- the digits of a clock reading
structure TrashId where
  digits : Name
  short : 1 ≤ digits.length ∧ digits.length ≤ 20
  decimal : ∀ c ∈ digits, c = '-' ∨ '0' ≤ c ∧ c ≤ '9'

def TrashId.meta (id : TrashId) : Name := id.digits ++ ['.','m','e','t','a']

def trashDir (root : Text) : Text := joinPath root trashDirName

def trashInto (trash abs : Text) (id : TrashId) (metaBytes : Bytes) :
    Service (Except AppError Unit) := do
  match ← os (Os.writeFile (joinPath trash id.meta) metaBytes) with
  | .error _ => return .error ⟨.internal,"cannot write trash metadata"⟩
  | .ok _ =>
  match ← os (Os.rename abs (joinPath trash id.digits)) with
  | .ok _ => return .ok ()
  | .error _ =>
      let _ ← sys (.remove (joinPath trash id.meta))
      return .error ⟨.internal,"trash move failed"⟩

def trashMove (marshal : TrashItem → Bytes) (root clientPath : Text) (id : TrashId) (now : Int) :
    Service (Except AppError Unit) := do
  match rejectTrash clientPath with
  | .error e => return .error e
  | .ok _ =>
  match ← resolve clientPath with
  | .error e => return .error e
  | .ok abs =>
  if abs = clean root then return .error ⟨.invalidPath,"cannot trash storage root"⟩
  else
  match ← sys (.stat abs) with
  | .error .notExist => return .error ⟨.fileNotFound,"path not found"⟩
  | .error _ => return .error ⟨.internal,"cannot stat path"⟩
  | .ok info =>
  match ← os (Os.mkdirAll (trashDir root)) with
  | .error _ => return .error ⟨.internal,"cannot create trash directory"⟩
  | .ok _ =>
  let item : TrashItem :=
    ⟨id.digits,toClientPath root abs,(components abs).getLastD [],info.kind = .dir,info.size,now⟩
  trashInto (trashDir root) abs id (marshal item)

end Transfer
