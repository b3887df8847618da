import ServerHub.Delivery.Policy
import ServerHub.Relational.Serial
import Mathlib.Logic.Function.Basic

namespace Delivery

open Go Relational

inductive OutboxStatus where
  | pending
  | sending
  | sent
  | failed
  | deferred
deriving DecidableEq

def OutboxStatus.due : OutboxStatus → Bool
  | .pending | .deferred => true
  | _ => false

structure OutboxRow where
  id : Nat
  dedupeKey : String
  severity : Severity
  channel : Channel
  groupID : Nat
  title : String
  body : String
  status : OutboxStatus
  attempts : Nat
  nextRetryAt : Int
  lastError : String
  sentAt : Option Int
deriving DecidableEq

inductive IncidentState where
  | blank
  | firing
  | resolved
deriving DecidableEq

structure DeliveryState where
  severity : Severity
  firstNotifiedAt : Int
  lastNotifiedAt : Int
  repeatCount : Int
  lastState : IncidentState
  suppressedCount : Int
  lastSuppressReason : Option Reason
  updatedAt : Int
deriving DecidableEq

structure ProviderState where
  consecutiveFailures : Int
  openedUntil : Option Int
  lastSuccessAt : Option Int
  lastFailureAt : Option Int
deriving DecidableEq

inductive BatchStatus where
  | opened
  | flushed
deriving DecidableEq

structure DigestBatch where
  id : Nat
  digestKey : String
  windowEnd : Int
  channel : Channel
  groupID : Nat
  severity : Severity
  count : Nat
  titles : String
  resources : String
  status : BatchStatus
  updatedAt : Int
deriving DecidableEq

structure DeliveryAttempt where
  outboxID : Nat
  ok : Bool
  error : String
  latencyMs : Int
  createdAt : Int
deriving DecidableEq

instance : Keyed OutboxRow := ⟨OutboxRow.id⟩

instance : Keyed DigestBatch := ⟨DigestBatch.id⟩

structure Store where
  states : String → Option DeliveryState
  outbox : Serial OutboxRow
  attempts : List DeliveryAttempt
  providers : Channel → Option ProviderState
  batches : Serial DigestBatch

def truncate (s : String) (max : Nat) : Option String :=
  if max = 0 ∨ utf8Length s ≤ max then some s
  else (cut max s.toList).map fun cs => String.ofList cs ++ "…(truncated)"

def column (s : Option String) : Option String := s.filter fun t => !t.toList.contains '\x00'

def invalidText : String := "invalid byte sequence for encoding \"UTF8\""

structure Draft where
  dedupeKey : String
  severity : Severity
  channel : Channel
  groupID : Nat
  title : String
  body : String
  nextRetryAt : Int
deriving DecidableEq

def Draft.row (d : Draft) (id : Nat) : OutboxRow where
  id := id
  dedupeKey := d.dedupeKey
  severity := d.severity
  channel := d.channel
  groupID := d.groupID
  title := d.title
  body := d.body
  status := .pending
  attempts := 0
  nextRetryAt := d.nextRetryAt
  lastError := ""
  sentAt := none

def Store.addOutbox (s : Store) (d : Draft) : Store :=
  { s with outbox := s.outbox.insert d.row fun _ => rfl }

structure Entry where
  digestKey : String
  windowEnd : Int
  channel : Channel
  groupID : Nat
  severity : Severity
  title : String
  resource : String
  ts : Int
deriving DecidableEq

def Entry.row (e : Entry) (id : Nat) : DigestBatch where
  id := id
  digestKey := e.digestKey
  windowEnd := e.windowEnd
  channel := e.channel
  groupID := e.groupID
  severity := e.severity
  count := 1
  titles := e.title
  resources := e.resource
  status := .opened
  updatedAt := e.ts

theorem Entry.keyed (e : Entry) (id : Nat) : key (e.row id) = id := rfl

def substring (s : String) (n : Nat) : String := String.ofList (s.toList.take n)

def Entry.merge (e : Entry) (keepResources : Bool) (b : DigestBatch) : DigestBatch :=
  { b with
    count := b.count + 1
    titles := substring (b.titles ++ "\n" ++ e.title) 4000
    resources := if keepResources then b.resources
      else substring (b.resources ++ "," ++ e.resource) 2000
    updatedAt := e.ts }

def Entry.target (e : Entry) (s : Store) : Option DigestBatch :=
  s.batches.rows.find? fun b => b.digestKey == e.digestKey && b.windowEnd == e.windowEnd

def Store.mergeBatch (s : Store) (e : Entry) (keepResources : Bool) (id : Nat) :
    Serial DigestBatch :=
  s.batches.modify (fun b => b.id == id) (e.merge keepResources) fun _ => rfl

def Store.upsertBatch (s : Store) (e : Entry) (keepResources : Bool) : Store × Option Nat :=
  match e.target s with
  | none => ({ s with batches := s.batches.insert e.row fun _ => rfl },some s.batches.next)
  | some b =>
      if b.status = .opened then
        ({ s with batches := s.mergeBatch e keepResources b.id },some b.id)
      else (s,none)

structure Input where
  key : String
  severity : String
  title : String
  body : String
  channels : List String
  groupID : Nat
  serverID : Option Nat
  ruleID : Nat
  labels : List (String × String)
  resource : String
  isRecovery : Bool
  cooldownSec : Int
  repeatSec : Int
  maxRepeats : Int
  notifyRecovery : Bool
  digestMode : String
  digestIntervalMin : Int
  groupBy : List String
deriving DecidableEq

structure Notice where
  input : Input
  severity : Severity
  channels : List Channel
  title : String
deriving DecidableEq

def Input.notice (i : Input) : Notice where
  input := i
  severity := normalizeSeverity i.severity
  channels := cleanChannels i.channels
  title := if i.title = "" then i.key else i.title

inductive Action where
  | queued
  | digested
  | suppressed
deriving DecidableEq

structure Outcome where
  action : Action
  reason : Option Reason
deriving DecidableEq

structure Receipt where
  outcome : Outcome
  hits : List (Channel × Option Nat)
deriving DecidableEq

def digestKey (i : Input) : String :=
  let base := "rule:" ++ toString i.ruleID
  let parts := (i.groupBy.map trimSpace).filterMap fun k =>
    if k = "" then none else some (k ++ "=" ++ (i.labels.lookup k).getD "")
  if parts = [] then base else base ++ "|" ++ ",".intercalate parts

def digestWindow (i : Input) (ts : Int) : Int :=
  let interval := if i.digestIntervalMin ≤ 0 then 60 else i.digestIntervalMin
  truncateTo ts (minutes interval) + minutes interval

def Notice.entry (n : Notice) (ts : Int) (ch : Channel) : Option Entry := do
  let title ← column (truncate n.title 200)
  let resource ← column (truncate (if n.input.resource = "" then n.input.key else n.input.resource) 200)
  return { digestKey := digestKey n.input ++ "::" ++ ch.text, windowEnd := digestWindow n.input ts,
           channel := ch, groupID := n.input.groupID, severity := n.severity, title := title,
           resource := resource, ts := ts }

def appendDigest (n : Notice) (ts : Int) :
    List Channel → Store → Except String (Store × List (Channel × Option Nat))
  | [], s => .ok (s,[])
  | ch :: chs, s =>
      match n.entry ts ch with
      | none => .error invalidText
      | some e => do
          let (t,hit) := s.upsertBatch e false
          let (u,hits) ← appendDigest n ts chs t
          return (u,(ch,hit) :: hits)

def Notice.draft (n : Notice) (ts : Int) (ch : Channel) : Option Draft := do
  let title ← column (truncate n.title 300)
  let body ← column (truncate n.input.body 4000)
  return { dedupeKey := n.input.key, severity := n.severity, channel := ch,
           groupID := n.input.groupID, title := title, body := body, nextRetryAt := ts }

def enqueue (n : Notice) (ts : Int) : List Channel → Store → Except String Store
  | [], s => .ok s
  | ch :: chs, s =>
      match n.draft ts ch with
      | none => .error invalidText
      | some d => enqueue n ts chs (s.addOutbox d)

structure Locals where
  hasRow : Bool
  lastNotified : Int
  repeatCount : Int
  lastState : IncidentState
  suppressed : Int
deriving DecidableEq

def Locals.scan : Option DeliveryState → Locals
  | none => ⟨false,0,0,.blank,0⟩
  | some r => ⟨true,r.lastNotifiedAt,r.repeatCount,r.lastState,r.suppressedCount⟩

def Locals.repeats (l : Locals) (state : IncidentState) (notified : Bool) : Int :=
  if !notified then l.repeatCount
  else if l.hasRow && decide (l.lastState = .firing) && decide (state = .firing) then
    l.repeatCount + 1
  else if !l.hasRow || decide (l.lastState = .resolved) then 0
  else l.repeatCount

def stateRow (n : Notice) (ts : Int) (l : Locals) (state : IncidentState) (notified : Bool)
    (reason : Option Reason) (suppr first : Int) : DeliveryState where
  severity := n.severity
  firstNotifiedAt := first
  lastNotifiedAt := if notified then ts else l.lastNotified
  repeatCount := l.repeats state notified
  lastState := state
  suppressedCount := suppr
  lastSuppressReason := reason
  updatedAt := ts

def setState (n : Notice) (ts : Int) (l : Locals) (state : IncidentState) (notified : Bool)
    (reason : Option Reason) (suppr : Int) (s : Store) : Store :=
  let row := stateRow n ts l state notified reason suppr
  let written := if l.hasRow then (s.states n.input.key).map fun r => row r.firstNotifiedAt
    else some (row (if notified then ts else 0))
  { s with states := Function.update s.states n.input.key written }

structure Cadence where
  cooldown : Int
  repeatSec : Int
  maxRepeats : Int
deriving DecidableEq

def cadence (pol : Policy) (n : Notice) : Cadence where
  cooldown := if n.input.cooldownSec ≤ 0 then pol.cooldownFor n.severity
    else seconds n.input.cooldownSec
  repeatSec := if n.input.repeatSec ≤ 0 then pol.repeatIntervalSec else n.input.repeatSec
  maxRepeats := if n.input.maxRepeats ≤ 0 then pol.maxRepeats else n.input.maxRepeats

def suppressed (n : Notice) (ts : Int) (l : Locals) (state : IncidentState) (reason : Reason)
    (s : Store) : Except String (Store × Receipt) :=
  .ok (setState n ts l state false (some reason) (l.suppressed + 1) s,
    ⟨⟨.suppressed,some reason⟩,[]⟩)

def digested (n : Notice) (ts : Int) (l : Locals) (state : IncidentState) (s : Store) :
    Except String (Store × Receipt) := do
  let (t,hits) ← appendDigest n ts n.channels s
  return (setState n ts l state true none l.suppressed t,⟨⟨.digested,some .digestBatched⟩,hits⟩)

def queued (n : Notice) (ts : Int) (l : Locals) (state : IncidentState) (s : Store) :
    Except String (Store × Receipt) := do
  let t ← enqueue n ts n.channels s
  return (setState n ts l state true none l.suppressed t,⟨⟨.queued,none⟩,[]⟩)

def recover (pol : Policy) (n : Notice) (ts : Int) (l : Locals) (s : Store) :
    Except String (Store × Receipt) :=
  let notifyRec := n.input.notifyRecovery ||
    (!l.hasRow && pol.notifyOnRecovery && n.input.isRecovery)
  if !notifyRec || decide (l.lastState ≠ .firing) then suppressed n ts l .resolved .recoveryMuted s
  else if n.input.digestMode = "digest" then digested n ts l .resolved s
  else queued n ts l .resolved s

def Locals.retriggers (l : Locals) : Bool := l.hasRow && decide (l.lastState = .resolved)

def Locals.reopened (l : Locals) : Locals := ⟨false,l.lastNotified,0,.blank,0⟩

def Store.forget (s : Store) (key : String) : Store :=
  { s with states := Function.update s.states key none }

def Locals.held (l : Locals) (c : Cadence) (ts : Int) : Option Reason :=
  if l.hasRow && decide (l.lastState = .firing) then
    if sub ts l.lastNotified < c.cooldown then some .cooldown
    else if c.maxRepeats ≤ l.repeatCount then some .maxRepeats
    else if 0 < c.repeatSec ∧ sub ts l.lastNotified < seconds c.repeatSec then some .cooldown
    else none
  else none

def notify (n : Notice) (ts : Int) (l : Locals) (s : Store) : Except String (Store × Receipt) :=
  if n.input.digestMode = "digest" ∧ n.severity ≠ .critical then digested n ts l .firing s
  else queued n ts l .firing s

def fire (pol : Policy) (n : Notice) (ts : Int) (l : Locals) (s : Store) :
    Except String (Store × Receipt) :=
  if l.retriggers then notify n ts l.reopened (s.forget n.input.key)
  else match l.held (cadence pol n) ts with
    | some reason => suppressed n ts l .firing reason s
    | none => notify n ts l s

def claimAndEnqueue (pol : Policy) (n : Notice) (ts : Int) (s : Store) :
    Except String (Store × Receipt) :=
  let l := Locals.scan (s.states n.input.key)
  if n.input.isRecovery then recover pol n ts l s else fire pol n ts l s

def touchSuppressed (n : Notice) (reason : Reason) (now : Int) (s : Store) : Store :=
  let row := match s.states n.input.key with
    | none => ⟨n.severity,now,now,0,.blank,1,some reason,now⟩
    | some r => { r with
        suppressedCount := r.suppressedCount + 1
        lastSuppressReason := some reason
        updatedAt := now }
  { s with states := Function.update s.states n.input.key (some row) }

end Delivery
