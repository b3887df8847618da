import ServerHub.Posix.FileTree

namespace VgBackup

open Posix

def vgIsWithinBase (base child : Text) : Bool :=
  let b := clean base
  let c := clean child
  within b c ||
  (b == ['/'] && hasPrefix child ['/']) ||
  within b c ||
  (isAbs b && dir b == b && isAbs c)

def errnoText : Errno → String
  | .notExist => "no such file or directory"
  | .notDir => "not a directory"
  | .loop => "EvalSymlinks: too many links"

variable {δ : Type}

def validateSafeStoragePath (t : FileTree δ) (root p : Text) : Except String Unit :=
  if !isAbs p then .error "path is not absolute"
  else
    let cleanP := clean p
    let cleanRoot := clean root
    if !within cleanRoot cleanP then .error "path escapes storage root"
    else match t.evalSymlinks cleanRoot with
      | .error e => .error ("eval symlink root: " ++ errnoText e)
      | .ok realRoot =>
          match t.evalSymlinks cleanP with
          | .ok realP =>
              if within realRoot realP then .ok () else .error "symlink escapes storage root"
          | .error .notExist =>
              match t.evalSymlinks (dir cleanP) with
              | .ok realParent =>
                  if within realRoot realParent then .ok ()
                  else .error "parent symlink escapes storage root"
              | .error _ => .ok ()
          | .error _ => .ok ()

structure Removal (δ : Type) where
  tree : FileTree δ
  path : Text
  entry : FileTree.Entry

def removePass (cleanRoot deleteRoot : Text) :
    FileTree δ → List Text → List Text → List (Removal δ) × FileTree δ
  | t, _, [] => ([],t)
  | t, seen, p :: ps =>
      if p = [] ∨ p ∈ seen then removePass cleanRoot deleteRoot t seen ps
      else match validateSafeStoragePath t cleanRoot p with
        | .error _ => removePass cleanRoot deleteRoot t (p :: seen) ps
        | .ok _ =>
            if deleteRoot = [] then removePass cleanRoot deleteRoot t (p :: seen) ps
            else match validateSafeStoragePath t deleteRoot p with
              | .error _ => removePass cleanRoot deleteRoot t (p :: seen) ps
              | .ok _ =>
                  match t.remove p with
                  | none => removePass cleanRoot deleteRoot t (p :: seen) ps
                  | some (e,t') =>
                      let rest := removePass cleanRoot deleteRoot t' (p :: seen) ps
                      (⟨t,p,e⟩ :: rest.1,rest.2)

def deleteFiles (t : FileTree δ) (targetPath deleteRoot : Text) (paths : List Text) :
    List (Removal δ) × FileTree δ :=
  if targetPath = [] ∨ isAbs targetPath = false then ([],t)
  else removePass (clean targetPath) (if isAbs deleteRoot then clean deleteRoot else []) t [] paths

end VgBackup
