import ServerHub.Delivery.Store
import ServerHub.Interleave.Sequential

namespace Delivery

open Go Relational Interleave

def maxAttempts : Nat := 5

def circuitThreshold : Int := 5

def circuitOpenFor : Int := 5 * minute

def claimBatchSize : Nat := 25

-- the statements of sendOne whose errors the worker discards
inductive Fallible where
  | providerState
  | sentCount
  | openCircuit
  | closeCircuit
  | attempt
  | rowUpdate
deriving DecidableEq

structure Outside where
  clock : Int
  clock_nonneg : 0 ≤ clock
  dbClock : Int
  policy : Option Policy
  windows : List MaintenanceWindow
  quiet : Nat → Option QuietInfo
  refusal : Option String
  answer : Option String
  latency : Int
  random : Int
  lockedRow : Nat → Bool
  lockedBatch : Nat → Bool
  fault : Fallible → Bool

structure State where
  store : Store
  tick : Nat
  outside : Nat → Outside

def State.now (s : State) : Outside := s.outside s.tick

inductive Resolution where
  | deferred (error : String) (retryAt : Int)
  | retry (error : Option String) (retryAt : Int)
  | failed (error : Option String)
  | sent (sentAt : Int)
deriving DecidableEq

namespace Resolution

def error : Resolution → Option String
  | .deferred e _ => some e
  | .retry e _ | .failed e => column e
  | .sent _ => some ""

def apply (x : Resolution) (r : OutboxRow) : OutboxRow :=
  match x with
  | .deferred _ t => { r with
      status := .deferred, lastError := x.error.getD "", nextRetryAt := t }
  | .retry _ t => { r with
      status := .pending, attempts := r.attempts + 1, lastError := x.error.getD "", nextRetryAt := t }
  | .failed _ => { r with
      status := .failed, attempts := r.attempts + 1, lastError := x.error.getD "" }
  | .sent t => { r with
      status := .sent, sentAt := some t, attempts := r.attempts + 1, lastError := "" }

theorem key_apply (x : Resolution) (r : OutboxRow) : key (x.apply r) = key r := by
  cases x <;> rfl

end Resolution

def DigestBatch.title (b : DigestBatch) : String :=
  "[" ++ b.severity.text ++ "] " ++ toString b.count ++ " grouped notifications"

def DigestBatch.body (b : DigestBatch) : Option String :=
  truncate (toString b.count ++ " notification(s) grouped by " ++ b.digestKey ++ ":\n" ++ b.titles ++
    if b.resources = "" then "" else "\nResources: " ++ b.resources) 4000

def DigestBatch.summary (b : DigestBatch) (ts : Int) : Option Draft := do
  let title ← column (some b.title)
  let body ← column b.body
  return { dedupeKey := "digest:" ++ toString b.id ++ ":" ++ toString (unixNano ts)
           severity := b.severity, channel := b.channel, groupID := b.groupID
           title := title, body := body, nextRetryAt := ts }

def OutboxRow.overflow (r : OutboxRow) (ts : Int) : Option Entry := do
  let title ← truncate r.title 150
  let title ← column (some ("throttled: " ++ title))
  return { digestKey := "overflow::" ++ r.channel.text
           windowEnd := truncateTo ts (15 * minute) + 15 * minute
           channel := r.channel, groupID := r.groupID, severity := .warning
           title := title, resource := r.dedupeKey, ts := ts }

namespace Store

def due (s : Store) (locked : Nat → Bool) (ts : Int) : List OutboxRow :=
  (orderBy (fun a b => decide (a.nextRetryAt ≤ b.nextRetryAt)) (s.outbox.select fun r =>
    r.status.due && decide (r.nextRetryAt ≤ ts) && !locked r.id)).take claimBatchSize

def markSending (s : Store) (rows : List OutboxRow) : Store :=
  let outbox := s.outbox.modify (fun r => rows.any (·.id == r.id))
    (fun r => { r with status := .sending }) fun _ => rfl
  { s with outbox := outbox }

def resolve (s : Store) (id : Nat) (x : Resolution) : Store :=
  if x.error.isSome then { s with outbox := s.outbox.modify (·.id == id) x.apply x.key_apply }
  else s

def requeue (s : Store) : Store :=
  let outbox := s.outbox.modify (fun r => decide (r.status = .sending))
    (fun r => { r with status := .pending }) fun _ => rfl
  { s with outbox := outbox }

def sentSince (s : Store) (ch : Channel) (since : Int) : Nat :=
  s.outbox.count fun r => r.channel == ch && decide (r.status = .sent) &&
    r.sentAt.any fun t => decide (since < t)

def openCircuit (s : Store) (ch : Channel) (n : Int) (until_ : Option Int) (ts : Int) : Store :=
  { s with providers := Function.update s.providers ch (some
      ⟨n,until_,(s.providers ch).bind (·.lastSuccessAt),some ts⟩) }

def closeCircuit (s : Store) (ch : Channel) (ts : Int) : Store :=
  { s with providers := Function.update s.providers ch (some
      ⟨0,none,some ts,(s.providers ch).bind (·.lastFailureAt)⟩) }

def recordAttempt (s : Store) (id : Nat) (ok : Bool) (error : Option String) (latency now : Int) :
    Store :=
  match column error with
  | none => s
  | some e => { s with attempts := s.attempts ++ [⟨id,ok,e,latency,now⟩] }

def recordOverflow (s : Store) (r : OutboxRow) (ts : Int) : Store × Option Nat :=
  match r.overflow ts with
  | none => (s,none)
  | some e => s.upsertBatch e true

def dueBatches (s : Store) (locked : Nat → Bool) (ts : Int) : List DigestBatch :=
  (orderBy (fun a b => decide (a.windowEnd ≤ b.windowEnd)) (s.batches.select fun b =>
    decide (b.status = .opened) && decide (b.windowEnd ≤ ts) && !locked b.id)).take 25

def markFlushed (s : Store) (bs : List DigestBatch) : Store :=
  let batches := s.batches.modify (fun b => bs.any (·.id == b.id))
    (fun b => { b with status := .flushed }) fun _ => rfl
  { s with batches := batches }

def insertSummary (s : Store) (b : DigestBatch) (ts : Int) : Store × Option Nat :=
  match b.summary ts with
  | none => (s,none)
  | some d => (s.addOutbox d,some s.outbox.next)

end Store

inductive Stmt : Type → Type where
  | clock : Stmt Int
  | policy : Stmt (Option Policy)
  | seedPolicy : Stmt Unit
  | windows (ts : Int) : Stmt (List MaintenanceWindow)
  | quiet (group : Nat) : Stmt (Option QuietInfo)
  | touch (n : Notice) (reason : Reason) : Stmt Unit
  | claim (pol : Policy) (n : Notice) (ts : Int) : Stmt (Except String Receipt)
  | claimDue (ts : Int) : Stmt (List OutboxRow)
  | provider (ch : Channel) : Stmt (Option ProviderState)
  | sentSince (ch : Channel) (since : Int) : Stmt Nat
  | send (ts : Int) (r : OutboxRow) : Stmt (Option String)
  | elapsed : Stmt Int
  | random (n : Int) : Stmt Int
  | openCircuit (ch : Channel) (n : Int) (until_ : Option Int) (ts : Int) : Stmt Unit
  | closeCircuit (ch : Channel) (ts : Int) : Stmt Unit
  | recordAttempt (id : Nat) (ok : Bool) (error : Option String) (latency : Int) : Stmt Unit
  | resolve (id : Nat) (x : Resolution) : Stmt Unit
  | overflow (r : OutboxRow) (ts : Int) : Stmt (Option Nat)
  | requeueStale : Stmt Nat
  | flushDue (ts : Int) : Stmt (List DigestBatch)
  | insertSummary (b : DigestBatch) (ts : Int) : Stmt (Option Nat)

def claimed (pol : Policy) (n : Notice) (ts : Int) (refusal : Option String) (s : Store) :
    Store × Except String Receipt :=
  match refusal, claimAndEnqueue pol n ts s with
  | some e, _ => (s,.error e)
  | none, .error e => (s,.error e)
  | none, .ok (t,r) => (t,.ok r)

theorem claimed_cases (pol : Policy) (n : Notice) (ts : Int) (refusal : Option String) (s : Store) :
    (∃ e, claimed pol n ts refusal s = (s,.error e)) ∨
      ∃ t rc, claimAndEnqueue pol n ts s = .ok (t,rc) ∧ claimed pol n ts refusal s = (t,.ok rc) := by
  unfold claimed
  split
  · exact .inl ⟨_,rfl⟩
  · exact .inl ⟨_,rfl⟩
  · rename_i h
    exact .inr ⟨_,_,h,rfl⟩

def Stmt.effect (o : Outside) (s : Store) : {β : Type} → Stmt β → Store × β
  | _, .clock => (s,o.clock)
  | _, .policy => (s,o.policy)
  | _, .seedPolicy => (s,())
  | _, .windows ts => (s,o.windows.filter (·.covers ts))
  | _, .quiet g => (s,o.quiet g)
  | _, .touch n reason => (touchSuppressed n reason o.dbClock s,())
  | _, .claim pol n ts => claimed pol n ts o.refusal s
  | _, .claimDue ts => (s.markSending (s.due o.lockedRow ts),s.due o.lockedRow ts)
  | _, .provider ch => (s,if o.fault .providerState then none else s.providers ch)
  | _, .sentSince ch since => (s,if o.fault .sentCount then 0 else s.sentSince ch since)
  | _, .send _ _ => (s,o.answer)
  | _, .elapsed => (s,o.latency)
  | _, .random n => (s,o.random % n)
  | _, .openCircuit ch n until_ ts =>
      (if o.fault .openCircuit then s else s.openCircuit ch n until_ ts,())
  | _, .closeCircuit ch ts => (if o.fault .closeCircuit then s else s.closeCircuit ch ts,())
  | _, .recordAttempt id ok error latency =>
      (if o.fault .attempt then s else s.recordAttempt id ok error latency o.dbClock,())
  | _, .resolve id x => (if o.fault .rowUpdate then s else s.resolve id x,())
  | _, .overflow r ts => s.recordOverflow r ts
  | _, .requeueStale => (s.requeue,s.outbox.count fun r => decide (r.status = .sending))
  | _, .flushDue ts => (s.markFlushed (s.dueBatches o.lockedBatch ts),s.dueBatches o.lockedBatch ts)
  | _, .insertSummary b ts => s.insertSummary b ts

def Stmt.step {β : Type} (i : Stmt β) (s : State) : State × β :=
  (⟨(i.effect s.now s.store).1,s.tick + 1,s.outside⟩,(i.effect s.now s.store).2)

end Delivery
