import ServerHub.Go.Hex
import ServerHub.Go.Strings
import ServerHub.Interleave.Transcript
import ServerHub.Relational.Serial

namespace Servers

open Relational Interleave Interleave.Prog

abbrev Text := List Char

inductive Status where
  | unknown
  | online
  | offline
deriving DecidableEq

inductive AgentStatus where
  | unknown
  | connected
  | disconnected
deriving DecidableEq

structure ManagedServer where
  id : Nat
  name : Text
  hostname : Text
  ipAddress : Text
  os : Text
  osVersion : Text
  arch : Text
  cpuInfo : Text
  cpuCores : Int
  ramTotal : Int
  diskTotal : Int
  status : Status
  agentStatus : AgentStatus
  lastHeartbeat : Option Int
  groupID : Option Nat

structure AgentToken where
  id : Nat
  serverID : Int
  tokenHash : Text
  label : Text
  revoked : Bool
  lastUsedAt : Option Int

-- F: the readings are floats that nothing here computes with
structure Report (F : Type) where
  cpuUsage : F
  memoryUsage : F
  memoryUsedMB : F
  diskUsage : F
  diskUsedGB : F
  netRx : Int
  netTx : Int
  loadAvg1 : F
  uptimeSec : Int
  hostname : Text
  os : Text
  osVersion : Text
  arch : Text
  cpuInfo : Text
  cpuCores : Int
  ramTotal : Int
  diskTotal : Int

structure ServerMetric (F : Type) where
  id : Nat
  serverID : Nat
  timestamp : Int
  cpuUsage : F
  memoryUsage : F
  memoryUsedMB : F
  diskUsage : F
  diskUsedGB : F
  netRx : Int
  netTx : Int
  loadAvg1 : F
  uptimeSec : Int

instance : Keyed ManagedServer := ⟨ManagedServer.id⟩

instance : Keyed AgentToken := ⟨AgentToken.id⟩

instance {F : Type} : Keyed (ServerMetric F) := ⟨ServerMetric.id⟩

structure ServerForm where
  name : Text
  hostname : Text
  ipAddress : Text
  groupID : Option Nat

structure ServerPatch where
  name : Option Text
  hostname : Option Text
  ipAddress : Option Text
  groupID : Option Nat

-- none: the id of the path is no number
inductive Request (F : Type) where
  | create (form : Option ServerForm)
  | update (id : Option Int) (patch : Except Text ServerPatch)
  | delete (id : Option Int)
  | createToken (id : Option Int) (label : Text)
  | revokeToken (id : Option Int)
  | heartbeat (header : Text)
  | ingestMetrics (header : Text) (report : Except Text (Report F))

inductive Reply where
  | error (status : Nat) (text : Text)
  -- 500 with the text of the driver
  | databaseError
  | ok
  | server (id : Nat) (name : Text)
  | token (id : Nat) (raw label : Text)
deriving DecidableEq

structure State (F : Type) where
  clock : Int
  servers : Serial ManagedServer
  tokens : Serial AgentToken
  metrics : Serial (ServerMetric F)
  -- the tokens that a goroutine is still to write last_used_at of
  pending : List Nat
  random : Nat → Option (List UInt8)
  drawn : Nat
  lookupFails : Bool

inductive Instr (F : Type) : Type → Type where
  | now : Instr F Int
  | random : Instr F (Option (List UInt8))
  | insertServer (form : ServerForm) : Instr F Nat
  | updateServer (id : Int) (patch : ServerPatch) : Instr F Unit
  | selectTokens (server : Int) : Instr F (List Nat)
  | selectMetrics (server : Int) : Instr F (List Nat)
  | commitDelete (server : Int) (tokens metrics : List Nat) : Instr F Unit
  | insertToken (server : Int) (hash label : Text) : Instr F (Option Nat)
  | revokeToken (id : Int) : Instr F Unit
  | findToken (hash : Text) : Instr F (Option (Nat × Nat × Bool))
  | useToken (id : Nat) : Instr F Unit
  | beat (now : Int) (server : Nat) : Instr F Unit
  | insertMetric (server : Nat) (now : Int) (report : Report F) : Instr F Unit
  | describe (report : Report F) (now : Int) (server : Nat) : Instr F Unit

section Statements

variable {F : Type}

def ServerForm.row (form : ServerForm) (id : Nat) : ManagedServer where
  id := id
  name := form.name
  hostname := form.hostname
  ipAddress := form.ipAddress
  os := []
  osVersion := []
  arch := []
  cpuInfo := []
  cpuCores := 0
  ramTotal := 0
  diskTotal := 0
  status := .unknown
  agentStatus := .unknown
  lastHeartbeat := none
  groupID := form.groupID

def ServerPatch.apply (p : ServerPatch) (r : ManagedServer) : ManagedServer :=
  { r with
    name := p.name.getD r.name
    hostname := p.hostname.getD r.hostname
    ipAddress := p.ipAddress.getD r.ipAddress
    groupID := p.groupID.or r.groupID }

def ManagedServer.beat (now : Int) (r : ManagedServer) : ManagedServer :=
  { r with lastHeartbeat := some now, agentStatus := .connected, status := .online }

def orKept (new old : Text) : Text := if new ≠ [] then new else old

def ManagedServer.describe (b : Report F) (now : Int) (r : ManagedServer) : ManagedServer :=
  { r with
    hostname := orKept b.hostname r.hostname
    os := orKept b.os r.os
    osVersion := orKept b.osVersion r.osVersion
    arch := orKept b.arch r.arch
    cpuInfo := orKept b.cpuInfo r.cpuInfo
    -- int32(body.CPUCores)
    cpuCores := if Int.bmod b.cpuCores (2 ^ 32) > 0 then Int.bmod b.cpuCores (2 ^ 32) else r.cpuCores
    ramTotal := if b.ramTotal > 0 then b.ramTotal else r.ramTotal
    diskTotal := if b.diskTotal > 0 then b.diskTotal else r.diskTotal
    lastHeartbeat := some now
    agentStatus := .connected
    status := .online }

def Report.row (b : Report F) (server : Nat) (now : Int) (id : Nat) : ServerMetric F :=
  ⟨id,server,now,b.cpuUsage,b.memoryUsage,b.memoryUsedMB,b.diskUsage,b.diskUsedGB,b.netRx,b.netTx,
    b.loadAvg1,b.uptimeSec⟩

namespace State

variable (s : State F)

def setServer (id : Int) (f : ManagedServer → ManagedServer) (hf : ∀ r, (f r).id = r.id) : State F :=
  { s with servers := s.servers.modify (fun r => r.id = id) f hf }

-- the rows of alerts and notifications that go with it are not modelled
def commitDelete (server : Int) (tokens metrics : List Nat) : State F :=
  { s with
    tokens := s.tokens.remove fun r => r.id ∈ tokens
    metrics := s.metrics.remove fun r => r.id ∈ metrics
    servers := s.servers.remove fun r => r.id = server }

def insertToken (server : Int) (hash label : Text) : State F × Option Nat :=
  if s.tokens.rows.any fun r => r.tokenHash = hash then (s,none)
  else ({ s with
    tokens := s.tokens.insert (fun id => ⟨id,server,hash,label,false,none⟩) fun _ => rfl },some s.tokens.next)

def revokeToken (id : Int) : State F :=
  { s with
    tokens := s.tokens.modify (fun r => r.id = id) (fun r => { r with revoked := true }) fun _ => rfl }

-- Scan reads the server id into a uint
def findToken (hash : Text) : Option (Nat × Nat × Bool) :=
  if s.lookupFails then none
  else
    match s.tokens.rows.find? fun r => r.tokenHash = hash with
    | none => none
    | some r => if r.serverID < 0 then none else some (r.id,r.serverID.toNat,r.revoked)

def tokenUsed (id : Nat) : State F :=
  { s with
    pending := s.pending.erase id
    tokens := s.tokens.modify (fun r => r.id = id) (fun r => { r with lastUsedAt := some s.clock })
      fun _ => rfl }

end State

def exec : {β : Type} → Instr F β → State F → State F × β
  | _, .now, s => (s,s.clock)
  | _, .random, s => ({ s with drawn := s.drawn + 1 },s.random s.drawn)
  | _, .insertServer form, s =>
      ({ s with servers := s.servers.insert form.row fun _ => rfl },s.servers.next)
  | _, .updateServer id patch, s => (s.setServer id patch.apply fun _ => rfl,())
  | _, .selectTokens server, s => (s,(s.tokens.select fun r => r.serverID = server).map AgentToken.id)
  | _, .selectMetrics server, s => (s,(s.metrics.select fun r => r.serverID = server).map ServerMetric.id)
  | _, .commitDelete server tokens metrics, s => (s.commitDelete server tokens metrics,())
  | _, .insertToken server hash label, s => s.insertToken server hash label
  | _, .revokeToken id, s => (s.revokeToken id,())
  | _, .findToken hash, s => (s,s.findToken hash)
  | _, .useToken id, s => ({ s with pending := id :: s.pending },())
  | _, .beat now server, s => (s.setServer server (.beat now) fun _ => rfl,())
  | _, .insertMetric server now report, s =>
      ({ s with metrics := s.metrics.insert (report.row server now) fun _ => rfl },())
  | _, .describe report now server, s => (s.setServer server (.describe report now) fun _ => rfl,())

-- the clock, the database, the goroutines of the middleware, the sweep that finds a server silent, the pruning of
-- metrics, and a group that is deleted
inductive Edit where
  | tick (d : Nat)
  | outage (fails : Bool)
  | used (id : Nat)
  | offline (id : Nat)
  | prune (ids : List Nat)
  | ungroup (group : Nat)
deriving DecidableEq

def Edit.apply : Edit → State F → Option (State F)
  | .tick d, s => some { s with clock := s.clock + d }
  | .outage fails, s => some { s with lookupFails := fails }
  | .used id, s => if id ∈ s.pending then some (s.tokenUsed id) else none
  | .offline id, s =>
      some (s.setServer id (fun r => { r with status := .offline, agentStatus := .disconnected }) fun _ => rfl)
  | .prune ids, s => some { s with metrics := s.metrics.remove fun r => r.id ∈ ids }
  | .ungroup group, s =>
      some { s with
        servers := s.servers.modify (fun r => r.groupID = some group) (fun r => { r with groupID := none })
          fun _ => rfl }

end Statements

section Handlers

variable {F : Type}

abbrev Handler (F : Type) := Prog (Instr F)

-- the audit rows and the broker's events are not modelled
def create : Option ServerForm → Handler F Reply
  | none => return .error 400 "name is required".toList
  | some form => do
      if form.name = [] then return .error 400 "name is required".toList
      else
        let id ← perform (.insertServer form)
        return .server id form.name

def update : Option Int → Except Text ServerPatch → Handler F Reply
  | none, _ => return .error 400 "invalid id".toList
  | some _, .error e => return .error 400 e
  | some id, .ok patch => do
      perform (.updateServer id patch)
      return .ok

-- what a statement of the transaction deletes is gone for the others at its commit
def delete : Option Int → Handler F Reply
  | none => return .error 400 "invalid id".toList
  | some id => do
      let tokens ← perform (.selectTokens id)
      let metrics ← perform (.selectMetrics id)
      perform (.commitDelete id tokens metrics)
      return .ok

variable (digest : Text → Text)

def generateToken : Handler F (Option (Text × Text)) := do
  match ← perform .random with
  | none => return none
  | some b => return some (Go.encodeToString b,digest (Go.encodeToString b))

def createToken : Option Int → Text → Handler F Reply
  | none, _ => return .error 400 "invalid id".toList
  | some id, label => do
      match ← generateToken digest with
      | none => return .error 500 "could not generate token".toList
      | some (raw,hash) =>
        match ← perform (.insertToken id hash label) with
        | none => return .databaseError
        | some tokenID => return .token tokenID raw label

def revokeToken : Option Int → Handler F Reply
  | none => return .error 400 "invalid token id".toList
  | some id => do
      perform (.revokeToken id)
      return .ok

def bearer : Text := "Bearer ".toList

def trimPrefix (s pre : Text) : Text := if pre.isPrefixOf s then s.drop pre.length else s

def agentAuth (header : Text) : Handler F (Except Text Nat) := do
  let raw := trimPrefix header bearer
  if raw = [] ∨ raw = header then return .error "agent token required".toList
  else
    match ← perform (.findToken (digest raw)) with
    | none => return .error "invalid agent token".toList
    | some (tokenID,serverID,revoked) =>
      if revoked then return .error "agent token revoked".toList
      else
        perform (.useToken tokenID)
        return .ok serverID

def heartbeat (header : Text) : Handler F Reply := do
  match ← agentAuth digest header with
  | .error e => return .error 401 e
  | .ok serverID =>
    let now ← perform .now
    perform (.beat now serverID)
    return .ok

def ingestMetrics (header : Text) (body : Except Text (Report F)) : Handler F Reply := do
  match ← agentAuth digest header with
  | .error e => return .error 401 e
  | .ok serverID =>
    match body with
    | .error e => return .error 400 e
    | .ok report =>
      let now ← perform .now
      perform (.insertMetric serverID now report)
      if report.hostname ≠ [] ∨ report.os ≠ [] then perform (.describe report now serverID)
      else perform (.beat now serverID)
      return .ok

def handle : Request F → Handler F Reply
  | .create form => create form
  | .update id patch => update id patch
  | .delete id => delete id
  | .createToken id label => createToken digest id label
  | .revokeToken id => revokeToken id
  | .heartbeat header => heartbeat digest header
  | .ingestMetrics header report => ingestMetrics digest header report

def system (F : Type) (digest : Text → Text) : System where
  Instr := Instr F
  State := State F
  Request := Request F
  Answer := Reply
  Env := Edit
  exec _ _ i s := some (exec i s)
  handle := handle digest
  env := Edit.apply

end Handlers

end Servers
