import ServerHub.Go.Strings
import ServerHub.Posix.Disk

namespace Deploy

open Posix

def base (p : Text) : Text :=
  if p = [] then dot
  else
    match ((segments p).reverse.dropWhile (· = [])).head? with
    | none => ['/']
    | some c => c

def validateComposeFile (name : Text) : Except Text Unit :=
  if name = [] then .error "compose_file is required".toList
  else if base name ≠ name ∨ hasPrefix name ['-'] ∨ isAbs name then
    .error
      "compose_file must be a plain filename with no path separators or leading dashes".toList
  else .ok ()

def withinRoots (cleaned : Text) (roots : List Text) : Bool :=
  roots.any fun r => isAbs (clean r) && within (clean r) cleaned

def validateWrite (path : Text) (roots : List Text) : Except Text Text :=
  if Go.trim path = [] then .ok []
  else if isAbs (clean path) = false then
    .error "deployment_path must be an absolute path".toList
  else if roots ≠ [] ∧ withinRoots (clean path) roots = false then
    .error "deployment_path must be inside an allowed deployment root".toList
  else .ok (clean path)

-- a YAML document as far as the scan looks into it
inductive Yaml where
  | text (s : Text)
  | list (items : List Yaml)
  | map (entries : List (Text × Yaml))
  | other

def Yaml.field : Yaml → Text → Option Yaml
  | .map entries, key => (entries.find? fun e => e.1 = key).map Prod.snd
  | _, _ => none

def Yaml.asText : Yaml → Option Text
  | .text s => some s
  | _ => none

def Yaml.items : Option Yaml → List Yaml
  | some (.text s) => [.text s]
  | some (.list items) => items
  | _ => []

structure OutsideRef where
  field : Text
  value : Text
deriving DecidableEq

-- what the host makes of files and commands: the machine that the pipelines run on
structure Host where
  tree : FileTree Bytes
  unmarshal : Bytes → Option Yaml
  resolveError : Text → Text
  statError : Text → Text
  readError : Text → Text
  urlError : Text → Option Text
  command : Text → Text → List Text → Text × Option Text
  health : Text → Bool → Bool × Text

namespace Host

variable (h : Host)

-- filepath.EvalSymlinks: an error comes with its text
def evalSymlinks (p : Text) : Except (Errno × Text) Text :=
  match h.tree.evalSymlinks p with
  | .ok q => .ok q
  | .error e => .error (e,h.resolveError p)

def stat (p : Text) : Option Nat :=
  match h.tree.walk FileTree.osLinkLimit [] (segments p) with
  | .error _ => none
  | .ok q => (h.tree.node q).map fun nd => match nd with
    | .file data => data.length
    | _ => 0

end Host

section Scan

def maxComposeBytes : Nat := 4 * 2 ^ 20

def contains (s sub : Text) : Bool := decide (sub <:+: s)

def looksLikeHostPath (v : Text) : Bool :=
  let v := Go.trim v
  if v = [] ∨ hasPrefix v ['$'] then false
  else if contains v "://".toList then false
  else hasPrefix v ['/'] || hasPrefix v ['.'] || hasPrefix v ['~'] || contains v ['/']

def resolvedOutsideBase (h : Host) (value dir : Text) (roots : List Text) : Bool :=
  if hasPrefix value ['~'] then true
  else
    let cleaned := clean (if isAbs value then value else joinPath dir value)
    if withinRoots cleaned roots then
      match h.evalSymlinks cleaned with
      | .ok res => !withinRoots (clean res) roots
      | .error _ => false
    else true

def strField (v : Yaml) (key : Text) : Text := ((v.field key).bind Yaml.asText).getD []

def pathOf : Yaml → Text
  | .text s => s
  | v => strField v "path".toList

def includePath (v : Yaml) : Text := pathOf v

def envFilePath (v : Yaml) : Text := pathOf v

def volumeHostPath : Yaml → Text
  | .text s => if ':' ∈ s then s.takeWhile (· ≠ ':') else []
  | v =>
      let typ := strField v "type".toList
      let src := strField v "source".toList
      if typ = "bind".toList ∨ (typ = [] ∧ looksLikeHostPath src) then src else []

def indexed (field : Text) (paths : List Text) : List OutsideRef :=
  paths.mapIdx fun i v => ⟨field ++ ['['] ++ Nat.toDigits 10 i ++ [']'],v⟩

def serviceRefs (name : Text) (svc : Yaml) : List OutsideRef :=
  let service := "services.".toList ++ name
  indexed (service ++ ".env_file".toList) ((Yaml.items (svc.field "env_file".toList)).map envFilePath) ++
  (match ((svc.field "extends".toList).bind (·.field "file".toList)).bind Yaml.asText with
    | some f => [⟨service ++ ".extends.file".toList,f⟩]
    | none => []) ++
  (match ((svc.field "build".toList).bind (·.field "context".toList)).bind Yaml.asText with
    | some c => if c = [] ∨ c = dot then [] else [⟨service ++ ".build.context".toList,c⟩]
    | none => []) ++
  indexed (service ++ ".volumes".toList) ((Yaml.items (svc.field "volumes".toList)).map volumeHostPath)

def isMap : Yaml → Bool
  | .map _ => true
  | _ => false

def services (doc : Yaml) : List (Text × Yaml) :=
  match doc.field "services".toList with
  | some (.map entries) =>
      (entries.filter fun e => isMap e.2).insertionSort fun a b => FileTree.nameLe a.1 b.1
  | _ => []

def composeRefs (doc : Yaml) : List OutsideRef :=
  indexed "include".toList ((Yaml.items (doc.field "include".toList)).map includePath) ++
  (services doc).flatMap fun e => serviceRefs e.1 e.2

def checkComposeRefs (h : Host) (composePath : Text) (roots : List Text) :
    Except Text (List OutsideRef) :=
  if roots = [] then .ok []
  else
    match h.stat composePath with
    | none => .error (h.statError composePath)
    | some size =>
        if size > maxComposeBytes then
          .error ("compose file too large to scan (".toList ++ Nat.toDigits 10 size ++ " bytes)".toList)
        else
          match h.tree.read composePath with
          | none => .error (h.readError composePath)
          | some raw =>
              match h.unmarshal raw with
              | none => .ok []
              | some doc => .ok ((composeRefs doc).filter fun r =>
                  r.value ≠ [] && looksLikeHostPath r.value &&
                    resolvedOutsideBase h r.value (dir composePath) roots)

end Scan

end Deploy
