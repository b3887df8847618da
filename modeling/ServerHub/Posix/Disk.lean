import ServerHub.Interleave.Sequential
import ServerHub.Posix.Mutation

namespace Posix

open FileTree

abbrev Bytes := List UInt8

inductive Kind where
  | dir
  | file
  | link
deriving DecidableEq

structure Stat where
  kind : Kind
  size : Nat
  ident : Place ⊕ Nat
deriving DecidableEq

inductive SysErr where
  | notExist
  | exist
  | other
deriving DecidableEq

def SysErr.ofErrno : Errno → SysErr
  | .notExist => .notExist
  | _ => .other

-- a regular file's node carries its inode number
structure Disk where
  tree : FileTree Nat
  bytes : Nat → Bytes
  next : Nat
  hardLinks : Bool

inductive Effect where
  | create (e : Entry)
  | remove (e : Entry)
  | rename (a b : Entry)
  | write (q : Place)
deriving DecidableEq

def Effect.entries : Effect → List Entry
  | .create e | .remove e => [e]
  | .rename a b => [a,b]
  | .write _ => []

inductive Syscall : Type → Type where
  | stat (p : Text) : Syscall (Except SysErr Stat)
  | lstat (p : Text) : Syscall (Except SysErr Stat)
  | readDir (p : Text) : Syscall (Except SysErr (List (Name × Kind)))
  | readLink (p : Text) : Syscall (Except SysErr Text)
  | openRead (p : Text) : Syscall (Except SysErr (Option Nat))
  | create (p : Text) : Syscall (Except SysErr Nat)
  | createExcl (p : Text) : Syscall (Except SysErr Nat)
  | read (i : Nat) : Syscall Bytes
  | append (i : Nat) (b : Bytes) : Syscall Unit
  | mkdir (p : Text) : Syscall (Except SysErr Unit)
  | remove (p : Text) : Syscall (Except SysErr Unit)
  | removeAll (p : Text) : Syscall (Except SysErr Unit)
  | rename (a b : Text) : Syscall (Except SysErr Unit)
  | link (a b : Text) : Syscall (Except SysErr Unit)
  | symlink (target p : Text) : Syscall (Except SysErr Unit)

structure Outcome (β : Type) where
  disk : Disk
  answer : β
  effects : List Effect

def kindOf : Node Nat → Kind
  | .dir => .dir
  | .file _ => .file
  | .link _ => .link

namespace FileTree

variable (t : FileTree Nat)

def vacant (e : Entry) : Bool := t.dirAt e.parent && (t.node e.place).isNone

-- what rename(2) asks before it replaces the entry y by x
def renamable (x y : Entry) (nd : Node Nat) : Except SysErr Unit :=
  if !t.dirAt y.parent then .error .other
  else if nd = .dir ∧ x.place <+: y.place then .error .other
  else
    match t.node y.place, nd with
    | none, _ => .ok ()
    | some .dir, .dir => if t.leaf y.place then .ok () else .error .exist
    | some .dir, _ => .error .other
    | some _, .dir => .error .other
    | some _, _ => .ok ()

def below (e : Entry) : List Entry :=
  (t.nodes.filter fun x => e.place.isPrefixOf x.1).map fun x => ⟨x.1.dropLast,x.1.getLastD []⟩

end FileTree

namespace Disk

variable (d : Disk)

def info (q : Place) : Node Nat → Stat
  | .dir => ⟨.dir,0,.inl q⟩
  | .file i => ⟨.file,(d.bytes i).length,.inr i⟩
  | .link target => ⟨.link,(target.map Char.utf8Size).sum,.inl q⟩

def resolved (p : Text) : Except SysErr Place :=
  match d.tree.walk osLinkLimit [] (segments p) with
  | .ok q => .ok q
  | .error e => .error (.ofErrno e)

def found (p : Text) : Except SysErr (Place × Node Nat) :=
  match d.resolved p with
  | .error e => .error e
  | .ok q =>
      match d.tree.node q with
      | none => .error .notExist
      | some nd => .ok (q,nd)

def stat (p : Text) : Except SysErr Stat := (d.found p).map fun x => d.info x.1 x.2

def named (p : Text) : Except SysErr (Entry × Node Nat) :=
  match d.tree.entryAt p with
  | none => (d.resolved p).bind fun _ => .error .other
  | some e =>
      if !d.tree.dirAt e.parent then .error .other
      else
        match d.tree.node e.place with
        | none => .error .notExist
        | some nd => .ok (e,nd)

-- the root, and a path that ends in . or .., names no entry and is looked up as by stat
def lstat (p : Text) : Except SysErr Stat :=
  match d.tree.entryAt p with
  | none => d.stat p
  | some _ => (d.named p).map fun x => d.info x.1.place x.2

def readDir (p : Text) : Except SysErr (List (Name × Kind)) :=
  match d.found p with
  | .error e => .error e
  | .ok (q,.dir) =>
      .ok ((d.tree.children q).filterMap fun c => (d.tree.node (q ++ [c])).map fun nd => (c,kindOf nd))
  | .ok _ => .error .other

def readLink (p : Text) : Except SysErr Text :=
  match d.named p with
  | .error e => .error e
  | .ok (_,.link target) => .ok target
  | .ok _ => .error .other

def openRead (p : Text) : Except SysErr (Option Nat) :=
  match d.found p with
  | .error e => .error e
  | .ok (_,.file i) => .ok (some i)
  | .ok _ => .ok none

def failed {β : Type} (e : SysErr) : Outcome (Except SysErr β) := ⟨d,.error e,[]⟩

def enter (e : Entry) (nd : Node Nat) : Disk := { d with tree := d.tree.put e.place nd }

def allocate (e : Entry) : Disk :=
  { d.enter e (.file d.next) with bytes := Function.update d.bytes d.next [], next := d.next + 1 }

def vacantEntry (p : Text) : Except SysErr Entry :=
  match d.tree.entryAt p with
  | none => .error .other
  | some e => if d.tree.vacant e then .ok e else if d.tree.dirAt e.parent then .error .exist else .error .other

def enterAt (p : Text) (nd : Node Nat) : Outcome (Except SysErr Unit) :=
  match d.vacantEntry p with
  | .error e => d.failed e
  | .ok e => ⟨d.enter e nd,.ok (),[.create e]⟩

def createExcl (p : Text) : Outcome (Except SysErr Nat) :=
  match d.vacantEntry p with
  | .error e => d.failed e
  | .ok e => ⟨d.allocate e,.ok d.next,[.create e]⟩

def create (p : Text) : Outcome (Except SysErr Nat) :=
  match d.found p with
  | .ok (q,.file i) => ⟨{ d with bytes := Function.update d.bytes i [] },.ok i,[.write q]⟩
  | .ok _ => d.failed .other
  | .error _ =>
      match d.tree.landing p with
      | none => d.failed .notExist
      | some e => ⟨d.allocate e,.ok d.next,[.create e]⟩

def removing (p : Text) : Outcome (Except SysErr Unit) :=
  match d.tree.remove p with
  | some (e,t) => ⟨{ d with tree := t },.ok (),[.remove e]⟩
  | none =>
      match d.named p with
      | .error e => d.failed e
      | .ok _ => d.failed .exist

def removingAll (p : Text) : Outcome (Except SysErr Unit) :=
  match d.named p with
  | .error .notExist => ⟨d,.ok (),[]⟩
  | .error e => d.failed e
  | .ok (e,_) => ⟨{ d with tree := d.tree.prune e.place },.ok (),(d.tree.below e).map .remove⟩

-- two names of one file: rename does nothing and succeeds
def same (x y : Entry) (nd : Node Nat) : Bool :=
  d.tree.node y.place == some nd && (x == y || kindOf nd == .file)

def moving (a b : Text) : Outcome (Except SysErr Unit) :=
  match d.named a, d.tree.entryAt b with
  | .error e, _ => d.failed e
  | .ok _, none => d.failed .other
  | .ok (x,nd), some y =>
      if d.same x y nd then ⟨d,.ok (),[]⟩
      else
        match d.tree.renamable x y nd with
        | .error e => d.failed e
        | .ok _ => ⟨{ d with tree := d.tree.move x.place y.place },.ok (),[.rename x y]⟩

def linking (a b : Text) : Outcome (Except SysErr Unit) :=
  match d.named a with
  | .error e => d.failed e
  | .ok (_,nd) =>
      match d.vacantEntry b with
      | .error e => d.failed e
      | .ok y =>
          if nd = .dir ∨ d.hardLinks = false then d.failed .other
          else ⟨d.enter y nd,.ok (),[.create y]⟩

def run (d : Disk) : {β : Type} → Syscall β → Outcome β
  | _, .stat p => ⟨d,d.stat p,[]⟩
  | _, .lstat p => ⟨d,d.lstat p,[]⟩
  | _, .readDir p => ⟨d,d.readDir p,[]⟩
  | _, .readLink p => ⟨d,d.readLink p,[]⟩
  | _, .openRead p => ⟨d,d.openRead p,[]⟩
  | _, .create p => d.create p
  | _, .createExcl p => d.createExcl p
  | _, .read i => ⟨d,d.bytes i,[]⟩
  | _, .append i b => ⟨{ d with bytes := Function.update d.bytes i (d.bytes i ++ b) },(),[]⟩
  | _, .mkdir p => d.enterAt p .dir
  | _, .remove p => d.removing p
  | _, .removeAll p => d.removingAll p
  | _, .rename a b => d.moving a b
  | _, .link a b => d.linking a b
  | _, .symlink target p => if target = [] then d.failed .notExist else d.enterAt p (.link target)

end Disk

end Posix
