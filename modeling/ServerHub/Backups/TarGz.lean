import ServerHub.Posix.Os

namespace Backups

open Posix Interleave Interleave.Prog

inductive Typeflag where
  | dir
  | reg
  | regA
  | symlink
  | link
  | other
deriving DecidableEq

structure Header where
  name : Text
  typeflag : Typeflag
  linkname : Text
  size : Nat
deriving DecidableEq

-- the data the reader gives for an entry, and whether the stream breaks off after them
structure TarEntry where
  header : Header
  data : Bytes
  broken : Bool

inductive Failure where
  | text (s : String)
  | sys (e : SysErr)
  | stream
deriving DecidableEq

-- what tr.Next gives up to io.EOF: none is an error
abbrev TarStream := List (Option TarEntry)

section Write

-- what tar.FileInfoHeader makes of a directory, a regular file or a link, under the name rel
def fileHeader (info : Stat) (rel linkname : Text) : Header :=
  match info.kind with
  | .dir => ⟨rel,.dir,[],0⟩
  | .file => ⟨rel,.reg,[],info.size⟩
  | .link => ⟨rel,.symlink,linkname,0⟩

variable (srcDir : Text)

def readAll (path : Text) : Calls Bytes := do
  match ← call (.openRead path) with
  | .ok (some i) => call (.read i)
  | _ => return []

-- a regular file whose data are not as long as its header says breaks the stream off
def writeData (s : List TarEntry) (path rel : Text) (info : Stat) :
    Calls (List TarEntry × Option (Flow Failure)) := do
  let header := fileHeader info rel []
  let data ← readAll path
  if data.length = info.size then return (s ++ [⟨header,data,false⟩],none)
  else return (s,some (.failed .stream))

def writeEntry (s : List TarEntry) (path : Text) (_ : Kind) :
    Calls (List TarEntry × Option (Flow Failure)) := do
  if path = srcDir then return (s,none)
  else
  let rel := relPath srcDir path
  match ← call (.lstat path) with
  | .error _ => return (s,none)
  | .ok info =>
  match info.kind with
  | .dir => return (s ++ [⟨fileHeader info rel [],[],false⟩],none)
  | .link =>
      match ← call (.readLink path) with
      | .error _ => return (s,none)
      | .ok target => return (s ++ [⟨fileHeader info rel target,[],false⟩],none)
  | .file => writeData s path rel info

def writeTarGz (depth : Nat) : Calls (Except (Option Failure) (List TarEntry × Nat)) := do
  match ← Os.walkDir (writeEntry srcDir) (fun _ => none) depth [] srcDir with
  | (_,some (.failed e)) => return .error (some e)
  | (_,some _) => return .error none
  | (entries,none) => return .ok (entries,(entries.map fun e => e.data.length).sum)

end Write

structure Limits where
  maxExtractFiles : Nat
  maxExtractBytes : Nat
  maxSingleFile : Nat

def limits : Limits where
  maxExtractFiles := 100000
  maxExtractBytes := 10 * 2 ^ 30
  maxSingleFile := 2 * 2 ^ 30

def escapes (cleaned : Text) : Bool := isAbs cleaned || hasPrefix cleaned dotdot

section Extract

variable (lim : Limits) (destDir : Text)

def extractData (total : Nat) (e : TarEntry) (target : Text) : Calls (Except Failure Nat) := do
  match ← call (.create target) with
  | .error err => return .error (.sys err)
  | .ok i =>
  let copied := e.data.take (lim.maxSingleFile + 1)
  call (.append i copied)
  if e.broken ∧ e.data.length ≤ lim.maxSingleFile then return .error .stream
  else if total + copied.length > lim.maxExtractBytes then
    return .error (.text "archive exceeds total size limit")
  else return .ok (total + copied.length)

def extractReg (total : Nat) (e : TarEntry) (target : Text) : Calls (Except Failure Nat) := do
  if e.header.size > lim.maxSingleFile then
    return .error (.text ("archive entry \"" ++ String.ofList (clean e.header.name) ++
      "\" exceeds per-file limit"))
  else
  match ← Os.mkdirAll (dir target) with
  | .error err => return .error (.sys err)
  | .ok _ => extractData lim total e target

def extractLink (e : TarEntry) (target : Text) : Calls Unit := do
  let _ ← call (.remove target)
  if escapes (clean e.header.linkname) then return ()
  else
    let _ ← call (.symlink e.header.linkname target)
    return ()

def extractEntry (total : Nat) (e : TarEntry) : Calls (Except Failure Nat) := do
  let cleaned := clean e.header.name
  if escapes cleaned then return .ok total
  else
  let target := joinPath destDir cleaned
  match e.header.typeflag with
  | .dir =>
      match ← Os.mkdirAll target with
      | .error err => return .error (.sys err)
      | .ok _ => return .ok total
  | .reg | .regA => extractReg lim total e target
  | .symlink | .link =>
      extractLink e target
      return .ok total
  | .other => return .ok total

def extractFrom (files total : Nat) : TarStream → Calls (Except Failure Unit)
  | [] => return .ok ()
  | none :: _ => return .error .stream
  | some e :: rest => do
      if files + 1 > lim.maxExtractFiles then
        return .error (.text ("archive exceeds file-count limit (" ++ toString lim.maxExtractFiles ++ ")"))
      else
      match ← extractEntry lim destDir total e with
      | .error err => return .error err
      | .ok total' => extractFrom (files + 1) total' rest

-- opened is what os.Open, gzip.NewReader and tar.NewReader make of the archive
def extractTarGz (opened : Except Failure TarStream) : Calls (Except Failure Unit) := do
  if destDir = [] then return .error (.text "no deployment_path configured")
  else
  match opened with
  | .error err => return .error err
  | .ok stream =>
  match ← Os.mkdirAll destDir with
  | .error err => return .error (.sys err)
  | .ok _ => extractFrom lim destDir 0 0 stream

end Extract

end Backups
