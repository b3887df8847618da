import Mathlib.Data.List.AList
import Mathlib.Order.Bounds.Basic
import ServerHub.Go.Slice
import ServerHub.Go.Time

namespace Auth

open Go

def ipMaxAttempts : Nat := 5

def ipWindow : Int := minute

def acctMaxFailures : Nat := 10

def baseLockout : Int := minute

def maxLockout : Int := 30 * minute

def maxTrackedIPs : Nat := 10000

def maxTrackedAccts : Nat := 10000

structure AcctState where
  failures : Nat
  lockoutUntil : Int
  lockLevel : Nat
deriving DecidableEq

def AcctState.fresh : AcctState := ⟨0,0,0⟩

def AcctState.fail (st : AcctState) (now : Int) : AcctState :=
  let counted := { st with failures := st.failures + 1 }
  if acctMaxFailures ≤ counted.failures ∧ st.lockoutUntil < now then
    let doubled := int64 (baseLockout * 2 ^ st.lockLevel)
    let backoff := if maxLockout < doubled ∨ doubled ≤ 0 then maxLockout else doubled
    { counted with
      lockoutUntil := now + backoff
      lockLevel := if backoff < maxLockout then st.lockLevel + 1 else st.lockLevel }
  else counted

structure LoginLimiter where
  heap : Heap Int
  ipHits : AList fun _ : String => Slice
  accounts : AList fun _ : String => AcctState

def live (now t : Int) : Bool := decide (sub now t < ipWindow)

def oldest : List Int → Int
  | [] => 0
  | t :: ts => ts.foldl (fun old t => if t < old then t else old) t

namespace LoginLimiter

def fresh : LoginLimiter := ⟨Heap.empty,∅,∅⟩

def hits (l : LoginLimiter) (ip : String) : Slice := (l.ipHits.lookup ip).getD .nil

section Calls

variable (spare : Nat → List Int)

def pruneLocked (l : LoginLimiter) (now : Int) (ip : String) : LoginLimiter × Slice :=
  ({ l with heap := (l.heap.compact spare (live now) (l.hits ip)).1 },
    (l.heap.compact spare (live now) (l.hits ip)).2)

def blocked (l : LoginLimiter) (now later : Int) (ip user : String) : LoginLimiter × Bool × Int :=
  let x := l.pruneLocked spare now ip
  if ipMaxAttempts ≤ x.2.length then
    (x.1,true,ipWindow - sub now (oldest (x.1.heap.read x.2)))
  else if user != "" then
    match l.accounts.lookup user with
    | some st => if now < st.lockoutUntil then (x.1,true,sub st.lockoutUntil later) else (x.1,false,0)
    | none => (x.1,false,0)
  else (x.1,false,0)

def recordHit (l : LoginLimiter) (now : Int) (ip : String) : LoginLimiter :=
  let l := if maxTrackedIPs ≤ l.ipHits.keys.length then { l with ipHits := ∅ } else l
  let x := l.pruneLocked spare now ip
  let y := x.1.heap.append spare x.2 now
  { x.1 with heap := y.1, ipHits := x.1.ipHits.insert ip y.2 }

def recordAccount (l : LoginLimiter) (now : Int) (user : String) : LoginLimiter :=
  let accounts := if maxTrackedAccts ≤ l.accounts.keys.length then ∅ else l.accounts
  { l with accounts := accounts.insert user (((accounts.lookup user).getD .fresh).fail now) }

def recordFailure (l : LoginLimiter) (now : Int) (ip user : String) : LoginLimiter :=
  if user = "" then l.recordHit spare now ip
  else (l.recordHit spare now ip).recordAccount now user

end Calls

def recordSuccess (l : LoginLimiter) (user : String) : LoginLimiter :=
  if user = "" then l else { l with accounts := l.accounts.erase user }

end LoginLimiter

inductive Call where
  | blocked (ip user : String) (later : Int)
  | recordFailure (ip user : String)
  | recordSuccess (user : String)
deriving DecidableEq

structure TimedCall where
  now : Int
  call : Call
deriving DecidableEq

namespace LoginLimiter

def serve (spare : Nat → List Int) (l : LoginLimiter) (c : TimedCall) : LoginLimiter :=
  match c.call with
  | .blocked ip user later => (l.blocked spare c.now later ip user).1
  | .recordFailure ip user => l.recordFailure spare c.now ip user
  | .recordSuccess user => l.recordSuccess user

def after (spare : Nat → List Int) (cs : List TimedCall) : LoginLimiter :=
  cs.foldl (serve spare) fresh

end LoginLimiter

def failureAt (ip : String) (c : TimedCall) : Option Int :=
  match c.call with
  | .recordFailure ip' _ => if ip' = ip then some c.now else none
  | _ => none

def failures (ip : String) (cs : List TimedCall) : List Int := cs.filterMap (failureAt ip)

def inWindow (now : Int) (ts : List Int) : List Int := ts.filter fun t => decide (now - t < ipWindow)

def failedFrom (c : TimedCall) : Option String :=
  match c.call with
  | .recordFailure ip _ => some ip
  | _ => none

def addresses (cs : List TimedCall) : List String := (cs.filterMap failedFrom).dedup

def Ordered (cs : List TimedCall) (now : Int) : Prop :=
  cs.Pairwise (fun c d => c.now ≤ d.now) ∧ ∀ c ∈ cs, c.now ≤ now

def Steady (ts : List Int) (now : Int) : Prop :=
  ∀ last, ts.getLast? = some last → now - last < ipWindow →
    ∀ t ∈ ts, last - t < ipWindow → now - t < ipWindow

def SteadyCalls (ip : String) (cs : List TimedCall) : Prop :=
  ∀ before c later user other, cs = before ++ c :: later → c.call = .blocked ip user other →
    Steady (failures ip before) c.now

end Auth
