import ServerHub.Rules.Engine

namespace Rules

open Go Relational Interleave Interleave.Prog

structure NotificationGroup where
  id : Nat
deriving DecidableEq

instance : Keyed NotificationGroup := ⟨NotificationGroup.id⟩

structure GroupMember where
  groupID : Nat
deriving DecidableEq

structure Records where
  store : Store
  groups : Table NotificationGroup
  members : List GroupMember
  emailGroupID : Option String

structure Draft where
  params : RuleParams
  notificationGroupID : Nat
  enabled : Bool
  notifyOnRecovery : Bool
  groupBy : String
deriving DecidableEq

def Draft.row (d : Draft) (id : Nat) : StoredRule where
  id := id
  name := d.params.name
  description := d.params.description
  enabled := d.enabled
  eventType := d.params.eventType
  severity := d.params.severity
  conditionJSON := d.params.conditionJSON
  notificationGroupID := d.notificationGroupID
  channels := normalizeChannels d.params.channels
  cooldownSeconds := d.params.cooldownSeconds
  notifyOnRecovery := d.notifyOnRecovery
  repeatIntervalSec := d.params.repeatIntervalSec
  maxRepeats := d.params.maxRepeats
  digestMode := d.params.digestMode
  digestIntervalMin := d.params.digestIntervalMin
  groupBy := d.groupBy

def duplicateName : String := "duplicate key value violates unique constraint"

def noRows : String := "sql: no rows in result set"

inductive Query : Type → Type where
  | loadRule (id : Int) : Query (Except String StoredRule)
  | groupCount (id : Nat) : Query (Except String Nat)
  | insertRule (d : Draft) : Query (Except String Nat)
  | updateRule (id : Int) (d : Draft) : Query (Except String Nat)
  | deleteRule (id : Int) : Query (Except String Nat)
  | deleteStates (ruleID : Int) : Query (Except String Unit)
  | countRefs (groupID : Int) : Query (Except String Nat)
  | deleteMembers (groupID : Int) : Query (Except String Unit)
  | deleteGroup (id : Int) : Query (Except String Nat)
  | clearEmailGroup : Query (Except String Unit)

namespace Records

def ruleAt (r : Records) (id : Int) : Option StoredRule :=
  r.store.rules.rows.find? fun row => decide ((row.id : Int) = id)

def insertRule (r : Records) (d : Draft) : Records × Except String Nat :=
  if r.store.rules.rows.any fun row => row.name == d.params.name then (r,.error duplicateName)
  else ({ r with store.rules := r.store.rules.insert d.row fun _ => rfl },.ok r.store.rules.next)

def updateRule (r : Records) (id : Int) (d : Draft) : Records × Except String Nat :=
  match r.ruleAt id with
  | none => (r,.ok 0)
  | some row =>
      if r.store.rules.rows.any fun other => other.id != row.id && other.name == d.params.name then
        (r,.error duplicateName)
      else
        let rules := r.store.rules.modify (fun other => other.id == row.id)
          (fun other => d.row other.id) fun _ => rfl
        ({ r with store.rules := rules },.ok 1)

def deleteRule (r : Records) (id : Int) : Records × Except String Nat :=
  ({ r with store.rules := r.store.rules.remove fun row => decide ((row.id : Int) = id) },
    .ok (r.store.rules.count fun row => decide ((row.id : Int) = id)))

def deleteStates (r : Records) (ruleID : Int) : Records :=
  { r with store.states := fun id fp => if (id : Int) = ruleID then none else r.store.states id fp }

def deleteGroup (r : Records) (id : Int) : Records × Except String Nat :=
  ({ r with groups := r.groups.remove fun g => decide ((g.id : Int) = id) },
    .ok (r.groups.count fun g => decide ((g.id : Int) = id)))

end Records

def Query.effect (r : Records) : {β : Type} → Query β → Records × β
  | _, .loadRule id => (r,match r.ruleAt id with | some row => .ok row | none => .error noRows)
  | _, .groupCount id => (r,.ok (r.groups.count fun g => g.id == id))
  | _, .insertRule d => r.insertRule d
  | _, .updateRule id d => r.updateRule id d
  | _, .deleteRule id => r.deleteRule id
  | _, .deleteStates id => (r.deleteStates id,.ok ())
  | _, .countRefs id =>
      (r,.ok (r.store.rules.count fun row => decide ((row.notificationGroupID : Int) = id)))
  | _, .deleteMembers id =>
      ({ r with members := r.members.filter fun m => !decide ((m.groupID : Int) = id) },.ok ())
  | _, .deleteGroup id => r.deleteGroup id
  | _, .clearEmailGroup => ({ r with emailGroupID := none },.ok ())

def Query.refuse (e : String) : {β : Type} → Query β → β
  | _, .loadRule _ | _, .groupCount _ | _, .insertRule _ | _, .updateRule _ _ | _, .deleteRule _
  | _, .deleteStates _ | _, .countRefs _ | _, .deleteMembers _ | _, .deleteGroup _
  | _, .clearEmailGroup => .error e

structure Database where
  records : Records
  tick : Nat
  faults : Nat → Option String

def Query.exec {β : Type} (q : Query β) (s : Database) : Database × β :=
  match s.faults s.tick with
  | some e => (⟨s.records,s.tick + 1,s.faults⟩,q.refuse e)
  | none => (⟨(q.effect s.records).1,s.tick + 1,s.faults⟩,(q.effect s.records).2)

def EventType.ofText (raw : String) : EventType :=
  match supportedEventTypes.find? fun t => t.text == raw with
  | some t => t
  | none => if h : raw ∈ ["AGENT_OFFLINE","AGENT_ONLINE","SERVER_ALERT","SERVER_ALERT_RESOLVED"] then
      .blank
    else .other raw h

def normalizeSeverity (s : String) : String := toUpper (trimSpace s)

def addGroupKey (out : List String) (k : String) : List String :=
  if groupByKeys.contains k && !out.contains k && out.length < 3 then out ++ [k] else out

def normalizeGroupBy (keys : List String) : String :=
  join ((keys.map fun k => toLower (trimSpace k)).foldl addGroupKey []) ','

def splitGroupBy (raw : String) : List String := splitCSV raw

def strOr (s : Option String) (default : String) : String :=
  match s with
  | none => default
  | some s => trimSpace s

structure RuleBody where
  name : Option String
  description : Option String
  enabled : Option Bool
  eventType : Option String
  severity : Option String
  conditionJSON : Option String
  notificationGroupID : Option Nat
  channels : Option (List String)
  cooldownSeconds : Option Int
  notifyOnRecovery : Option Bool
  repeatIntervalSec : Option Int
  maxRepeats : Option Int
  digestMode : Option String
  digestIntervalMin : Option Int
  groupBy : Option (List String)
deriving DecidableEq

namespace RuleBody

def digestModeOr (b : RuleBody) (default : String) : String :=
  match b.digestMode with
  | none => default
  | some m => if trimSpace m != "" then toLower (trimSpace m) else default

def fresh (b : RuleBody) (name eventType : String) (group : Nat) : Draft :=
  let groupBy := normalizeGroupBy (b.groupBy.getD [])
  { params := {
      name := trimSpace name
      description := strOr b.description ""
      eventType := .ofText (toUpper (trimSpace eventType))
      severity := normalizeSeverity (strOr b.severity "")
      conditionJSON := strOr b.conditionJSON ""
      channels := b.channels.getD ["EMAIL"]
      cooldownSeconds := b.cooldownSeconds.getD 0
      repeatIntervalSec := b.repeatIntervalSec.getD 0
      maxRepeats := b.maxRepeats.getD 0
      digestMode := b.digestModeOr "immediate"
      digestIntervalMin := b.digestIntervalMin.getD 60
      groupBy := splitGroupBy groupBy }
    notificationGroupID := group
    enabled := b.enabled.getD true
    notifyOnRecovery := b.notifyOnRecovery.getD false
    groupBy := groupBy }

def merged (b : RuleBody) (cur : StoredRule) : Draft :=
  let groupBy := (b.groupBy.map normalizeGroupBy).getD cur.groupBy
  { params := {
      name := strOr b.name cur.name
      description := strOr b.description cur.description
      eventType := (b.eventType.map fun t => .ofText (toUpper (trimSpace t))).getD cur.eventType
      severity := (b.severity.map normalizeSeverity).getD cur.severity
      conditionJSON := (b.conditionJSON.map trimSpace).getD cur.conditionJSON
      channels := b.channels.getD (split cur.channels ',')
      cooldownSeconds := b.cooldownSeconds.getD cur.cooldownSeconds
      repeatIntervalSec := b.repeatIntervalSec.getD cur.repeatIntervalSec
      maxRepeats := b.maxRepeats.getD cur.maxRepeats
      digestMode := b.digestModeOr cur.digestMode
      digestIntervalMin := b.digestIntervalMin.getD cur.digestIntervalMin
      groupBy := splitGroupBy groupBy }
    notificationGroupID := b.notificationGroupID.getD cur.notificationGroupID
    enabled := b.enabled.getD cur.enabled
    notifyOnRecovery := b.notifyOnRecovery.getD cur.notifyOnRecovery
    groupBy := groupBy }

end RuleBody

inductive Reply where
  | failed (status : Nat) (error : String)
  | created (id : Nat) (name : String)
  | done
deriving DecidableEq

def mentions (text part : String) : Bool := decide (part.toList <:+: text.toList)

def Reply.refused (e : String) : Reply :=
  if mentions e "duplicate" || mentions e "unique" then .failed 409 "rule name already exists"
  else .failed 500 e

abbrev Handler := Prog Query

def groupExists (id : Nat) : Handler Bool := do
  match ← perform (.groupCount id) with
  | .error _ => return false
  | .ok count => return decide (0 < count)

def createRule (env : Env) (body : Option RuleBody) : Handler Reply :=
  match body with
  | none => return .failed 400 "invalid request"
  | some b =>
      match b.name, b.eventType, b.notificationGroupID with
      | some name, some eventType, some group =>
          let d := b.fresh name eventType group
          match validateRuleFull env d.params with
          | .error e => return .failed 400 e
          | .ok _ => do
              if ← groupExists group then
                match ← perform (.insertRule d) with
                | .error e => return .refused e
                | .ok id => return .created id d.params.name
              else return .failed 400 "notification group not found"
      | _, _, _ => return .failed 400 "name, eventType, and notificationGroupId are required"

def updateRule (env : Env) (id : Option Int) (body : Option RuleBody) : Handler Reply :=
  match id, body with
  | none, _ => return .failed 400 "invalid id"
  | some _, none => return .failed 400 "invalid request"
  | some id, some b => do
      match ← perform (.loadRule id) with
      | .error _ => return .failed 404 "rule not found"
      | .ok cur =>
          let d := b.merged cur
          match validateRuleFull env d.params with
          | .error e => return .failed 400 e
          | .ok _ =>
              if ← groupExists d.notificationGroupID then
                match ← perform (.updateRule id d) with
                | .error e => return .refused e
                | .ok _ => return .done
              else return .failed 400 "notification group not found"

def deleteRule (id : Option Int) : Handler Reply :=
  match id with
  | none => return .failed 400 "invalid id"
  | some id => do
      match ← perform (.deleteRule id) with
      | .error e => return .failed 500 e
      | .ok 0 => return .failed 404 "rule not found"
      | .ok _ =>
          let _ ← perform (.deleteStates id)
          return .done

def deleteGroup (id : Option Int) : Handler Reply :=
  match id with
  | none => return .failed 400 "invalid id"
  | some id => do
      match ← perform (.countRefs id) with
      | .error e => return .failed 500 e
      | .ok refs =>
          if 0 < refs then return .failed 409 "group is referenced by notification rules"
          else
            let _ ← perform (.deleteMembers id)
            match ← perform (.deleteGroup id) with
            | .error e => return .failed 500 e
            | .ok 0 => return .failed 404 "group not found"
            | .ok _ =>
                let _ ← perform .clearEmailGroup
                return .done

inductive Request where
  | create (body : Option RuleBody)
  | update (id : Option Int) (body : Option RuleBody)
  | delete (id : Option Int)
  | deleteGroup (id : Option Int)
deriving DecidableEq

def handle (env : Env) : Request → Handler Reply
  | .create body => createRule env body
  | .update id body => updateRule env id body
  | .delete id => deleteRule id
  | .deleteGroup id => Rules.deleteGroup id

end Rules
