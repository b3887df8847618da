import ServerHub.Relational.Serial
import ServerHub.Rules.Condition

namespace Alerting

open Go Relational

inductive ServerStatus where
  | unknown
  | online
  | offline
deriving DecidableEq

inductive AgentStatus where
  | unknown
  | connected
  | disconnected
deriving DecidableEq

inductive AlertStatus where
  | triggered
  | resolved
deriving DecidableEq

inductive Source where
  | blank
  | alertmanager
deriving DecidableEq

structure Server where
  id : Nat
  name : String
  hostname : String
  ipAddress : String
  status : ServerStatus
  agentStatus : AgentStatus
  lastHeartbeat : Option Int
deriving DecidableEq

instance : Keyed Server := ⟨Server.id⟩

structure Metric where
  serverID : Nat
  timestamp : Int
  cpuUsage : Int
  memoryUsage : Int
  diskUsage : Int
deriving DecidableEq

structure Alert where
  id : Nat
  serverID : Option Nat
  condition : String
  threshold : Int
  severity : String
  status : AlertStatus
  message : String
  triggeredAt : Int
  resolvedAt : Option Int
  fingerprint : String
  source : Source
deriving DecidableEq

instance : Keyed Alert := ⟨Alert.id⟩

structure Notification where
  username : String
  title : String
  body : String
  category : String
  serverID : Option Nat
  alertID : Option Nat
deriving DecidableEq

structure Store where
  servers : Serial Server
  metrics : List Metric
  alerts : Serial Alert
  users : List String
  notifications : List Notification

def anyOf {α : Type} (choice : Nat) (rows : List α) : Option α := rows[choice % rows.length]?

def Server.staleBefore (cutoff : Int) (heartbeat : Option Int) : Bool :=
  match heartbeat with
  | none => true
  | some t => decide (t < cutoff)

def Server.candidate (cutoff : Int) (s : Server) : Bool :=
  s.status == .online && Server.staleBefore cutoff s.lastHeartbeat

def Server.addressed (name : String) (s : Server) : Bool :=
  s.hostname == name || s.ipAddress == name || s.name == name

def Server.beaten (now : Int) (s : Server) : Server :=
  { s with lastHeartbeat := some now, agentStatus := .connected, status := .online }

def Alert.live (a : Alert) : Bool := a.status == .triggered

def Alert.liveOn (serverID : Nat) (condition : String) (a : Alert) : Bool :=
  a.serverID == some serverID && a.condition == condition && a.live

def Alert.liveAs (fingerprint : String) (a : Alert) : Bool := a.fingerprint == fingerprint && a.live

def Alert.liveID (id : Int) (a : Alert) : Bool := decide ((a.id : Int) = id) && a.live

def Alert.closedAt (now : Int) (a : Alert) : Alert :=
  { a with status := .resolved, resolvedAt := some now }

namespace Store

def empty : Store := ⟨.empty,[],.empty,[],[]⟩

def markOffline (s : Store) (id : Nat) : Store :=
  let servers := s.servers.modify (fun r => r.id == id)
    (fun r => { r with status := .offline, agentStatus := .disconnected }) fun _ => rfl
  { s with servers := servers }

def heartbeat (s : Store) (now : Int) (id : Nat) : Store :=
  { s with servers := s.servers.modify (fun r => r.id == id) (Server.beaten now) fun _ => rfl }

def refreshInfo (s : Store) (hostname : String) (now : Int) (id : Nat) : Store :=
  let info := fun r : Server => if hostname = "" then r else { r with hostname := hostname }
  let servers := s.servers.modify (fun r => r.id == id) (fun r => Server.beaten now (info r))
    fun r => by
      show (info r).id = r.id
      simp only [info]
      split <;> rfl
  { s with servers := servers }

def insertAlert (s : Store) (row : Nat → Alert) (h : ∀ n, (row n).id = n) : Store :=
  { s with alerts := s.alerts.insert row h }

def closeAlerts (s : Store) (p : Alert → Bool) (now : Int) : Store :=
  { s with alerts := s.alerts.modify p (Alert.closedAt now) fun _ => rfl }

def freshMetrics (s : Store) (choice : Nat) (since : Int) : List Metric :=
  let rows := s.metrics.filter fun m => decide (since ≤ m.timestamp)
  let newest := fun sid => anyOf choice (rows.filter fun m => m.serverID == sid &&
    rows.all fun n => n.serverID != sid || decide (n.timestamp ≤ m.timestamp))
  (orderBy (fun a b => decide (a ≤ b)) (rows.map Metric.serverID).dedup).filterMap newest

def staleServers (s : Store) (since : Int) : List Nat :=
  (s.metrics.map Metric.serverID).dedup.filter fun sid =>
    s.metrics.all fun m => m.serverID != sid || decide (m.timestamp < since)

end Store

def internalAlert (serverID : Nat) (condition : String) (threshold : Int) (severity message : String)
    (now : Int) (id : Nat) : Alert :=
  ⟨id,some serverID,condition,threshold,severity,.triggered,message,now,none,"",.blank⟩

def webhookAlert (serverID : Option Nat) (condition severity message fingerprint : String)
    (now : Int) (id : Nat) : Alert :=
  ⟨id,serverID,condition,0,severity,.triggered,message,now,none,fingerprint,.alertmanager⟩

inductive Query : Type → Type where
  | clock : Query Int
  | offlineCandidates (cutoff : Int) : Query (Except String (List (Nat × String)))
  | markOffline (id : Nat) : Query (Except String Unit)
  | onlineServers : Query (Except String (List Nat))
  | freshMetrics (since : Int) : Query (Except String (List Metric))
  | staleServers (since : Int) : Query (Except String (List Nat))
  | countLive (serverID : Nat) (condition : String) : Query (Except String Nat)
  | insertAlert (serverID : Nat) (condition : String) (threshold : Int) (severity message : String) :
      Query (Except String Unit)
  | resolveLive (serverID : Nat) (condition : String) : Query (Except String Nat)
  | countFingerprint (fingerprint : String) : Query (Except String Nat)
  | insertWebhookAlert (serverID : Option Nat) (condition severity message fingerprint : String) :
      Query (Except String Nat)
  | resolveFingerprint (fingerprint : String) : Query (Except String Nat)
  | resolveID (now : Int) (id : Int) : Query (Except String Nat)
  | countID (id : Int) : Query (Except String Nat)
  | usernames : Query (Except String (List String))
  | insertNotification (n : Notification) : Query (Except String Unit)
  | heartbeat (now : Int) (id : Nat) : Query (Except String Unit)
  | insertMetrics (m : Metric) : Query (Except String Unit)
  | refreshInfo (hostname : String) (now : Int) (id : Nat) : Query (Except String Unit)
  | countServer (id : Nat) : Query (Except String Nat)
  | serverAt (name : String) : Query (Except String Nat)
  | evaluate (ev : Rules.Event) : Query Unit

structure Outside where
  fault : Option String
  clock : Int
  current : Int
  choice : Nat

def found {α : Type} : Option α → Except String α
  | some a => .ok a
  | none => .error "sql: no rows in result set"

def Query.effect (o : Outside) (s : Store) : {β : Type} → Query β → Store × β
  | _, .clock => (s,o.clock)
  | _, .offlineCandidates cutoff =>
      (s,.ok ((s.servers.select (Server.candidate cutoff)).map fun r => (r.id,r.name)))
  | _, .markOffline id => (s.markOffline id,.ok ())
  | _, .onlineServers => (s,.ok ((s.servers.select fun r => r.status == .online).map Server.id))
  | _, .freshMetrics since => (s,.ok (s.freshMetrics o.choice since))
  | _, .staleServers since => (s,.ok (s.staleServers since))
  | _, .countLive serverID condition => (s,.ok (s.alerts.count (Alert.liveOn serverID condition)))
  | _, .insertAlert serverID condition threshold severity message =>
      (s.insertAlert (internalAlert serverID condition threshold severity message o.current)
        fun _ => rfl,.ok ())
  | _, .resolveLive serverID condition =>
      (s.closeAlerts (Alert.liveOn serverID condition) o.current,
        .ok (s.alerts.count (Alert.liveOn serverID condition)))
  | _, .countFingerprint fingerprint => (s,.ok (s.alerts.count (Alert.liveAs fingerprint)))
  | _, .insertWebhookAlert serverID condition severity message fingerprint =>
      (s.insertAlert (webhookAlert serverID condition severity message fingerprint o.current)
        fun _ => rfl,.ok s.alerts.next)
  | _, .resolveFingerprint fingerprint =>
      (s.closeAlerts (Alert.liveAs fingerprint) o.current,
        .ok (s.alerts.count (Alert.liveAs fingerprint)))
  | _, .resolveID now id =>
      (s.closeAlerts (Alert.liveID id) now,.ok (s.alerts.count (Alert.liveID id)))
  | _, .countID id => (s,.ok (s.alerts.count fun a => decide ((a.id : Int) = id)))
  | _, .usernames => (s,.ok s.users)
  | _, .insertNotification n => ({ s with notifications := s.notifications ++ [n] },.ok ())
  | _, .heartbeat now id => (s.heartbeat now id,.ok ())
  | _, .insertMetrics m => ({ s with metrics := s.metrics ++ [m] },.ok ())
  | _, .refreshInfo hostname now id => (s.refreshInfo hostname now id,.ok ())
  | _, .countServer id => (s,.ok (s.servers.count fun r => r.id == id))
  | _, .serverAt name =>
      (s,found ((anyOf o.choice (s.servers.select (Server.addressed name))).map Server.id))
  | _, .evaluate _ => (s,())

def Query.refuse (o : Outside) (e : String) : {β : Type} → Query β → β
  | _, .clock => o.clock
  | _, .offlineCandidates _ | _, .markOffline _ | _, .onlineServers | _, .freshMetrics _
  | _, .staleServers _ | _, .countLive _ _ | _, .insertAlert _ _ _ _ _ | _, .resolveLive _ _
  | _, .countFingerprint _ | _, .insertWebhookAlert _ _ _ _ _ | _, .resolveFingerprint _
  | _, .resolveID _ _ | _, .countID _ | _, .usernames | _, .insertNotification _
  | _, .heartbeat _ _ | _, .insertMetrics _ | _, .refreshInfo _ _ _ | _, .countServer _
  | _, .serverAt _ => .error e
  | _, .evaluate _ => ()

structure Database where
  store : Store
  tick : Nat
  outside : Nat → Outside

def Database.now (d : Database) : Outside := d.outside d.tick

def Query.exec {β : Type} (q : Query β) (d : Database) : Database × β :=
  match d.now.fault with
  | some e => (⟨d.store,d.tick + 1,d.outside⟩,q.refuse d.now e)
  | none => (⟨(q.effect d.now d.store).1,d.tick + 1,d.outside⟩,(q.effect d.now d.store).2)

end Alerting
