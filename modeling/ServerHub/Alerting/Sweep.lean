import ServerHub.Alerting.Store
import ServerHub.Interleave.Program

namespace Alerting

open Go Relational Interleave Interleave.Prog

structure Env where
  rules : Bool
  fixed : Nat → Int → String

def plain : Env := ⟨true,fun _ n => toString n⟩

structure Thresholds where
  cpu : Int
  ram : Int
  disk : Int
  offlineAfter : Int
deriving DecidableEq

def defaultOfflineThreshold : Int := 3 * minute

def offlineThreshold (th : Thresholds) : Int :=
  if 30 * second ≤ th.offlineAfter then th.offlineAfter else defaultOfflineThreshold

structure WebhookAlert where
  status : String
  labels : List (String × String)
  annotations : List (String × String)
  fingerprint : String
deriving DecidableEq

structure MetricsBody where
  cpuUsage : Int
  memoryUsage : Int
  diskUsage : Int
  hostname : String
  os : String
deriving DecidableEq

inductive Request where
  | sweep (th : Thresholds)
  | webhook (authorised : Bool) (payload : Option (List WebhookAlert))
  | heartbeat (agent : Option Nat)
  | ingestMetrics (agent : Option Nat) (body : Except String MetricsBody)
  | resolve (id : Option Int)
deriving DecidableEq

inductive Reply where
  | swept
  | ok
  | received (n : Nat)
  | failed (status : Nat) (text : String)
deriving DecidableEq

abbrev Handler := Prog Query

def label (labels : List (String × String)) (key : String) : String := (labels.lookup key).getD ""

def fingerprint (serverID : Nat) (condition : String) : String :=
  "server:" ++ toString serverID ++ ":" ++ condition

def counted (answer : Except String Nat) : Nat :=
  match answer with
  | .error _ => 0
  | .ok n => n

def notify (serverID : Option Nat) (title body category : String) (alertID : Option Nat) :
    Handler Unit := do
  match ← perform .usernames with
  | .error _ => return ()
  | .ok users =>
      each (fun u => do
        let _ ← perform (.insertNotification ⟨u,title,body,category,serverID,alertID⟩)) users

def notifyAllUsers (serverID : Nat) (title body category : String) : Handler Unit :=
  notify (some serverID) title body category none

def notifyWebhookUsers (serverID : Option Nat) (title body category : String) (alertID : Nat) :
    Handler Unit :=
  notify serverID title body category (some alertID)

def report (env : Env) (ev : Rules.Event) : Handler Unit :=
  if env.rules then perform (.evaluate ev) else return ()

def alertEvent (type : Rules.EventType) (serverID : Option Nat) (severity condition : String)
    (value : Int) (message fingerprint : String) (alertID : Option Int) : Rules.Event :=
  ⟨type,serverID,severity,condition,value,message,fingerprint,0,alertID⟩

def firingType (condition : String) : Rules.EventType :=
  if condition = "offline" then .agentOffline else .serverAlert

def fireAlert (env : Env) (serverID : Nat) (condition : String) (value threshold : Int)
    (severity message : String) : Handler Unit := do
  if 0 < counted (← perform (.countLive serverID condition)) then return ()
  else
    match ← perform (.insertAlert serverID condition threshold severity message) with
    | .error _ => return ()
    | .ok _ =>
        notifyAllUsers serverID (severity ++ ": " ++ message) message "alert"
        report env (alertEvent (firingType condition) (some serverID) severity condition value message
          (fingerprint serverID condition) none)

def resolveAlert (serverID : Nat) (condition : String) : Handler Bool := do
  let n ← perform (.resolveLive serverID condition)
  return decide (0 < counted n)

def resolveReporting (env : Env) (serverID : Nat) (condition : String) (ev : Rules.Event) :
    Handler Unit := do
  if ← resolveAlert serverID condition then report env ev

def declareOffline (env : Env) (row : Nat × String) : Handler Unit := do
  let _ ← perform (.markOffline row.1)
  fireAlert env row.1 "offline" 0 0 "CRITICAL" ("Server " ++ row.2 ++ " is offline (no heartbeat)")

def backOnline (env : Env) (id : Nat) : Handler Unit :=
  resolveReporting env id "offline" (alertEvent .agentOnline (some id) "INFO" "offline" 0
    ("Server " ++ toString id ++ " is back online") (fingerprint id "offline") none)

def checkOffline (env : Env) (th : Thresholds) : Handler Unit := do
  let now ← perform .clock
  let cutoff := now - offlineThreshold th
  match ← perform (.offlineCandidates cutoff) with
  | .error _ => return ()
  | .ok rows =>
      each (declareOffline env) rows
      match ← perform .onlineServers with
      | .error _ => return ()
      | .ok ids => each (backOnline env) ids

structure Check where
  condition : String
  value : Int
  threshold : Int
  severity : String
deriving DecidableEq

def checks (th : Thresholds) (m : Metric) : List Check :=
  [⟨"cpu_high",m.cpuUsage,th.cpu,"WARNING"⟩,⟨"ram_high",m.memoryUsage,th.ram,"WARNING"⟩,
    ⟨"disk_high",m.diskUsage,th.disk,"CRITICAL"⟩]

def Check.text (env : Env) (ch : Check) (verb : String) : String :=
  ch.condition ++ verb ++ env.fixed 1 ch.value ++ "% (threshold " ++ env.fixed 0 ch.threshold ++ "%)"

def checkValue (env : Env) (serverID : Nat) (ch : Check) : Handler Unit :=
  if ch.threshold ≤ 0 then return ()
  else if ch.threshold < ch.value then
    fireAlert env serverID ch.condition ch.value ch.threshold ch.severity (ch.text env " reached ")
  else
    resolveReporting env serverID ch.condition (alertEvent .serverAlertResolved (some serverID)
      ch.severity ch.condition ch.value (ch.text env " recovered to ")
      (fingerprint serverID ch.condition) none)

def checkMetric (env : Env) (th : Thresholds) (m : Metric) : Handler Unit :=
  each (checkValue env m.serverID) (checks th m)

def closeStale (serverID : Nat) : Handler Unit := do
  let _ ← resolveAlert serverID "cpu_high"
  let _ ← resolveAlert serverID "ram_high"
  let _ ← resolveAlert serverID "disk_high"

def checkMetricThresholds (env : Env) (th : Thresholds) : Handler Unit := do
  let now ← perform .clock
  let freshSince := now - offlineThreshold th
  match ← perform (.freshMetrics freshSince) with
  | .error _ => return ()
  | .ok rows =>
      each (checkMetric env th) rows
      match ← perform (.staleServers freshSince) with
      | .error _ => return ()
      | .ok ids => each closeStale ids

def runChecks (env : Env) (th : Thresholds) : Handler Reply := do
  checkOffline env th
  checkMetricThresholds env th
  return .swept

def hostPart (address : String) : String :=
  let trimmed := trimSpace address
  let host := ((trimmed.toList.reverse.dropWhile (· != ':')).drop 1).reverse
  if host = [] then trimmed else String.ofList host

def parseUint (raw : String) : Option Nat :=
  (digits raw.toList).filter fun n => decide (n < 18446744073709551616)

def firstServer : List String → Handler (Option Nat)
  | [] => return none
  | name :: names =>
      if name = "" then firstServer names
      else do
        match ← perform (.serverAt name) with
        | .error _ => firstServer names
        | .ok id => return some id

def resolveAlertServer (labels : List (String × String)) : Handler (Option Nat) :=
  let byAddress :=
    firstServer [trimSpace (label labels "hostname"),hostPart (label labels "instance")]
  let raw := trimSpace (label labels "server_id")
  if raw = "" then byAddress
  else
    match parseUint raw with
    | none => byAddress
    | some id => do
        if 0 < counted (← perform (.countServer id)) then return some id
        else byAddress

namespace WebhookAlert

def severity (a : WebhookAlert) : String :=
  let severity := toUpper (trimSpace (label a.labels "severity"))
  if severity ∈ ["INFO","WARNING","CRITICAL"] then severity else "WARNING"

def condition (a : WebhookAlert) : String :=
  let condition := trimSpace (label a.labels "alertname")
  if condition = "" then "alertmanager" else condition

def message (a : WebhookAlert) : String :=
  let summary := trimSpace (label a.annotations "summary")
  let description := trimSpace (label a.annotations "description")
  if summary != "" then summary
  else if description != "" then description
  else a.condition ++ " firing on " ++ hostPart (label a.labels "instance")

end WebhookAlert

def resolveWebhook (env : Env) (a : WebhookAlert) (serverID : Option Nat) : Handler Unit := do
  if 0 < counted (← perform (.resolveFingerprint a.fingerprint)) then
    report env (alertEvent .serverAlertResolved serverID a.severity a.condition 0
      (a.condition ++ " resolved") a.fingerprint none)

def fireWebhook (env : Env) (a : WebhookAlert) (serverID : Option Nat) : Handler Unit := do
  if 0 < counted (← perform (.countFingerprint a.fingerprint)) then return ()
  else
    match ← perform (.insertWebhookAlert serverID a.condition a.severity a.message a.fingerprint) with
    | .error _ => return ()
    | .ok alertID =>
        notifyWebhookUsers serverID (a.severity ++ ": " ++ a.message) a.message "alert" alertID
        report env (alertEvent .serverAlert serverID a.severity a.condition 0 a.message
          a.fingerprint (some alertID))

def persistWebhookAlert (env : Env) (a : WebhookAlert) (serverID : Option Nat) : Handler Unit :=
  if a.fingerprint = "" then return ()
  else if a.status = "resolved" then resolveWebhook env a serverID
  else fireWebhook env a serverID

def deliver (env : Env) (a : WebhookAlert) : Handler Unit := do
  let serverID ← resolveAlertServer a.labels
  persistWebhookAlert env a serverID

def alertmanagerWebhook (env : Env) (authorised : Bool) (payload : Option (List WebhookAlert)) :
    Handler Reply :=
  if !authorised then return .failed 401 "invalid secret or signature"
  else
    match payload with
    | none => return .failed 400 "invalid payload"
    | some alerts => do
        each (deliver env) alerts
        return .received alerts.length

def heartbeat (agent : Option Nat) : Handler Reply :=
  match agent with
  | none => return .failed 401 "unauthenticated"
  | some id => do
      let now ← perform .clock
      match ← perform (.heartbeat now id) with
      | .error e => return .failed 500 e
      | .ok _ => return .ok

def ingestMetrics (agent : Option Nat) (body : Except String MetricsBody) : Handler Reply :=
  match agent with
  | none => return .failed 401 "unauthenticated"
  | some id =>
      match body with
      | .error e => return .failed 400 e
      | .ok b => do
          let now ← perform .clock
          match ← perform (.insertMetrics ⟨id,now,b.cpuUsage,b.memoryUsage,b.diskUsage⟩) with
          | .error e => return .failed 500 e
          | .ok _ =>
              if b.hostname != "" || b.os != "" then
                let _ ← perform (.refreshInfo b.hostname now id)
                return .ok
              else
                let _ ← perform (.heartbeat now id)
                return .ok

def resolve (id : Option Int) : Handler Reply :=
  match id with
  | none => return .failed 400 "invalid id"
  | some id => do
      let now ← perform .clock
      match ← perform (.resolveID now id) with
      | .error e => return .failed 500 e
      | .ok 0 =>
          if counted (← perform (.countID id)) = 0 then return .failed 404 "alert not found"
          else return .ok
      | .ok _ => return .ok

def handle (env : Env) : Request → Handler Reply
  | .sweep th => runChecks env th
  | .webhook authorised payload => alertmanagerWebhook env authorised payload
  | .heartbeat agent => heartbeat agent
  | .ingestMetrics agent body => ingestMetrics agent body
  | .resolve id => resolve id

def alerting (env : Env) : System where
  Instr := Query
  State := Database
  Request := Request
  Answer := Reply
  Env := Empty
  exec _ _ q d := some (q.exec d)
  handle := handle env
  env e _ := e.elim

end Alerting
