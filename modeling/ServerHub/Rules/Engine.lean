import ServerHub.Interleave.Sequential
import ServerHub.Rules.Validate

namespace Rules

open Go Relational Interleave Interleave.Prog

structure Engine where
  enabled : Bool
  hasDB : Bool
  hasSender : Bool
  delivers : Bool
deriving DecidableEq

def Engine.on (e : Engine) : Bool := e.enabled && e.hasDB && e.hasSender

structure RuleRow where
  id : Nat
  name : String
  eventType : EventType
  severity : String
  conditionJSON : String
  notificationGroupID : Nat
  channels : List Channel
  cooldownSeconds : Int
  notifyOnRecovery : Bool
  repeatIntervalSec : Int
  maxRepeats : Int
  digestMode : String
  digestIntervalMin : Int
  groupBy : List String
deriving DecidableEq

def StoredRule.row (r : StoredRule) : RuleRow where
  id := r.id
  name := r.name
  eventType := r.eventType
  severity := r.severity
  conditionJSON := r.conditionJSON
  notificationGroupID := r.notificationGroupID
  channels := parseChannels r.channels
  cooldownSeconds := r.cooldownSeconds
  notifyOnRecovery := r.notifyOnRecovery
  repeatIntervalSec := r.repeatIntervalSec
  maxRepeats := r.maxRepeats
  digestMode := r.digestMode
  digestIntervalMin := r.digestIntervalMin
  groupBy := splitCSV r.groupBy

inductive LastState where
  | blank
  | firing
  | resolved
deriving DecidableEq

structure RuleState where
  lastNotifiedAt : Int
  lastState : LastState
  lastEventAt : Int
  createdAt : Int
  updatedAt : Int
deriving DecidableEq

inductive Suppression where
  | withoutFiring
  | cooldown
deriving DecidableEq

def Suppression.text : Suppression → String
  | .withoutFiring => "recovery without preceding firing"
  | .cooldown => "cooldown"

structure Store where
  rules : Serial StoredRule
  states : Nat → String → Option RuleState

namespace Store

def put (s : Store) (ruleID : Nat) (fingerprint : String) (row : RuleState) : Store :=
  let rows := Function.update (s.states ruleID) fingerprint (some row)
  { s with states := Function.update s.states ruleID rows }

def upsertState (s : Store) (ruleID : Nat) (ev : Event) (now : Int) (state : LastState) : Store :=
  let created := match s.states ruleID ev.fingerprint with
    | some row => row.createdAt
    | none => now
  s.put ruleID ev.fingerprint ⟨now,state,ev.timestamp,created,now⟩

def touchEvent (s : Store) (ruleID : Nat) (ev : Event) (now : Int) : Store :=
  match s.states ruleID ev.fingerprint with
  | some row => s.put ruleID ev.fingerprint { row with lastEventAt := ev.timestamp, updatedAt := now }
  | none => s

def lastState (s : Store) (ruleID : Nat) (fingerprint : String) : LastState :=
  ((s.states ruleID fingerprint).map (·.lastState)).getD .blank

def cooling (s : Store) (r : RuleRow) (ev : Event) (now : Int) : Bool :=
  decide (0 < r.cooldownSeconds) && (s.states r.id ev.fingerprint).any fun row =>
    decide (row.lastState = .firing) &&
      decide (sub now row.lastNotifiedAt < seconds r.cooldownSeconds)

def claim (s : Store) (r : RuleRow) (ev : Event) (now : Int) : Store × Option Suppression :=
  if ev.isRecovery then
    if !r.notifyOnRecovery || s.lastState r.id ev.fingerprint != .firing then
      (s.upsertState r.id ev now .resolved,some .withoutFiring)
    else (s.upsertState r.id ev now .resolved,none)
  else if s.cooling r ev now then (s.touchEvent r.id ev now,some .cooldown)
  else (s.upsertState r.id ev now .firing,none)

def offered (s : Store) (first second recoveryOnly : EventType) : List StoredRule :=
  orderBy (fun a b => decide (a.id ≤ b.id)) (s.rules.select fun r =>
    r.enabled && (r.eventType == first || r.eventType == second) &&
      (r.eventType != recoveryOnly || r.notifyOnRecovery))

end Store

structure DeliveryRequest where
  ruleID : Nat
  groupID : Nat
  serverID : Option Nat
  key : String
  fingerprint : String
  severity : String
  title : String
  body : String
  channels : List Channel
  labels : List (String × String)
  resource : String
  isRecovery : Bool
  cooldownSec : Int
  repeatSec : Int
  maxRepeats : Int
  notifyRecovery : Bool
  digestMode : String
  digestIntervalMin : Int
  groupBy : List String
deriving DecidableEq

inductive Handoff where
  | inApp (serverID : Option Nat) (alertID : Option Int) (title body : String)
  | email (groupID : Nat) (subject text : String)
  | telegram (text : String)
  | deliver (req : DeliveryRequest)
deriving DecidableEq

def Handoff.channels : Handoff → List Channel
  | .inApp _ _ _ _ => [.inApp]
  | .email _ _ _ => [.email]
  | .telegram _ => [.telegram]
  | .deliver req => req.channels

structure Outside where
  clock : Int
  fault : Option String
  sendError : Option String

structure State where
  store : Store
  tick : Nat
  outside : Nat → Outside

def State.now (s : State) : Outside := s.outside s.tick

inductive Stmt : Type → Type where
  | clock : Stmt Int
  | rules (first second recoveryOnly : EventType) : Stmt (Except String (List StoredRule))
  | claim (r : RuleRow) (ev : Event) : Stmt (Except String (Option Suppression))
  | hand (h : Handoff) : Stmt (Option String)

def Stmt.effect (o : Outside) (s : Store) : {β : Type} → Stmt β → Store × β
  | _, .clock => (s,o.clock)
  | _, .rules first second recoveryOnly =>
      match o.fault with
      | some e => (s,.error e)
      | none => (s,.ok (s.offered first second recoveryOnly))
  | _, .claim r ev =>
      match o.fault with
      | some e => (s,.error e)
      | none => ((s.claim r ev o.clock).1,.ok (s.claim r ev o.clock).2)
  | _, .hand _ => (s,o.sendError)

def Stmt.exec {β : Type} (i : Stmt β) (s : State) : State × β :=
  (⟨(i.effect s.now s.store).1,s.tick + 1,s.outside⟩,(i.effect s.now s.store).2)

abbrev Job := Prog Stmt

def EventType.firing : EventType → EventType
  | .agentOnline => .agentOffline
  | .serverAlertResolved => .serverAlert
  | _ => .blank

def loadRules (t : EventType) : Job (Except String (List RuleRow)) := do
  let rows ← perform (.rules t t.firing t.firing)
  return rows.map fun rs => rs.map StoredRule.row

def Event.identity (ev : Event) : String :=
  if ev.fingerprint != "" then ev.fingerprint
  else match ev.serverID with
    | some id => "server:" ++ toString id ++ ":" ++ ev.condition
    | none => "global:" ++ ev.condition

def Event.title (ev : Event) : String :=
  if ev.severity = "" then ev.message else ev.severity ++ ": " ++ ev.message

def Handoff.direct (r : RuleRow) (ev : Event) : Channel → Handoff
  | .email => .email r.notificationGroupID ev.title ev.message
  | .telegram => .telegram (ev.title ++ "\n" ++ ev.message)
  | .inApp => .inApp ev.serverID ev.alertID ev.title ev.message

def DeliveryRequest.of (r : RuleRow) (ev : Event) (external : List Channel) : DeliveryRequest where
  ruleID := r.id
  groupID := r.notificationGroupID
  serverID := ev.serverID
  key := "rule:" ++ toString r.id ++ ":" ++ ev.fingerprint
  fingerprint := ev.fingerprint
  severity := ev.severity
  title := ev.title
  body := ev.message
  channels := external
  labels := [("condition",ev.condition)]
  resource := ev.message
  isRecovery := ev.isRecovery
  cooldownSec := r.cooldownSeconds
  repeatSec := r.repeatIntervalSec
  maxRepeats := r.maxRepeats
  notifyRecovery := r.notifyOnRecovery
  digestMode := r.digestMode
  digestIntervalMin := r.digestIntervalMin
  groupBy := r.groupBy

def handoffs (eng : Engine) (r : RuleRow) (ev : Event) : List Handoff :=
  let external := r.channels.filter (· != .inApp)
  (r.channels.filter (· == .inApp)).map (.direct r ev) ++
    if external = [] then []
    else if eng.delivers then [.deliver (.of r ev external)]
    else external.map (.direct r ev)

inductive Verdict where
  | unmatched
  | suppressed (reason : Suppression)
  | notified (handed : List (Handoff × Option String))
deriving DecidableEq

def matchRule (env : Env) (r : RuleRow) (ev : Event) : Except String Bool :=
  if ev.isRecovery then .ok true
  else if r.severity != "" && !equalFold r.severity ev.severity then .ok false
  else match parseCondition env r.conditionJSON with
    | .error e => .error ("rule " ++ env.quote r.name ++ " bad condition: " ++ e)
    | .ok c => .ok (Condition.Matches c ev)

def handOver (h : Handoff) : Job (Handoff × Option String) := do
  let e ← perform (.hand h)
  return (h,e)

def notify (eng : Engine) (r : RuleRow) (ev : Event) : Job (Except String Verdict) := do
  match ← perform (.claim r ev) with
  | .error e => return .error e
  | .ok (some reason) => return .ok (.suppressed reason)
  | .ok none =>
      let handed ← collect handOver (handoffs eng r ev)
      return .ok (.notified handed)

def evaluateRule (env : Env) (eng : Engine) (r : RuleRow) (ev : Event) : Job (Except String Verdict) :=
  match matchRule env r ev with
  | .error e => return .error e
  | .ok false => return .ok .unmatched
  | .ok true =>
      if r.channels = [] then return .error ("rule " ++ env.quote r.name ++ " has no valid channels")
      else notify eng r ev

def ruleResult (env : Env) (eng : Engine) (ev : Event) (r : RuleRow) :
    Job (Nat × Except String Verdict) := do
  let v ← evaluateRule env eng r ev
  return (r.id,v)

def stamp (ev : Event) : Job Event := do
  if ev.timestamp = 0 then
    let ts ← perform .clock
    return { ev with timestamp := ts }
  else return ev

abbrev Report := Except String (List (Nat × Except String Verdict))

def evaluate (env : Env) (eng : Engine) (ev : Event) : Job Report := do
  if eng.on then
    let ev ← stamp { ev with fingerprint := ev.identity }
    match ← loadRules ev.type with
    | .error e => return .error ("load rules: " ++ e)
    | .ok rules =>
        let results ← collect (ruleResult env eng ev) rules
        return .ok results
  else return .ok []

end Rules
