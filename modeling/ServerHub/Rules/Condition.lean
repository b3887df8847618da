import ServerHub.Go.Time

namespace Rules

open Go

inductive EventType where
  | agentOffline
  | agentOnline
  | serverAlert
  | serverAlertResolved
  | other (raw : String)
      (unknown : raw ∉ ["AGENT_OFFLINE","AGENT_ONLINE","SERVER_ALERT","SERVER_ALERT_RESOLVED"])
deriving DecidableEq

namespace EventType

def text : EventType → String
  | .agentOffline => "AGENT_OFFLINE"
  | .agentOnline => "AGENT_ONLINE"
  | .serverAlert => "SERVER_ALERT"
  | .serverAlertResolved => "SERVER_ALERT_RESOLVED"
  | .other raw _ => raw

def isRecovery (t : EventType) : Bool := t == .agentOnline || t == .serverAlertResolved

def blank : EventType := .other "" (by decide)

end EventType

def supportedEventTypes : List EventType :=
  [.agentOffline,.agentOnline,.serverAlert,.serverAlertResolved]

def validEventType (t : EventType) : Bool := supportedEventTypes.contains t

structure Event where
  type : EventType
  serverID : Option Nat
  severity : String
  condition : String
  value : Int
  message : String
  fingerprint : String
  timestamp : Int
  alertID : Option Int
deriving DecidableEq

def Event.isRecovery (ev : Event) : Bool := ev.type.isRecovery

inductive Field where
  | severity
  | condition
  | value
  | serverId
  | other (raw : String)
deriving DecidableEq

namespace Field

def text : Field → String
  | .severity => "severity"
  | .condition => "condition"
  | .value => "value"
  | .serverId => "serverId"
  | .other raw => raw

def stringField : Field → Bool
  | .severity | .condition => true
  | _ => false

def numberField : Field → Bool
  | .value | .serverId => true
  | _ => false

end Field

inductive Operator where
  | eq
  | neq
  | contains
  | gt
  | gte
  | lt
  | lte
  | oneOf
  | other (raw : String)
deriving DecidableEq

def Operator.text : Operator → String
  | .eq => "eq"
  | .neq => "neq"
  | .contains => "contains"
  | .gt => "gt"
  | .gte => "gte"
  | .lt => "lt"
  | .lte => "lte"
  | .oneOf => "in"
  | .other raw => raw

inductive Scalar where
  | text (s : String)
  | number (n : Int)
  | other
deriving DecidableEq

inductive Value where
  | one (v : Scalar)
  | many (items : List Scalar)
deriving DecidableEq

def Value.scalar : Value → Scalar
  | .one v => v
  | .many _ => .other

def Value.items : Value → List Scalar
  | .one _ => []
  | .many items => items

structure Condition where
  field : Field
  operator : Operator
  value : Value
deriving DecidableEq

structure Env where
  quote : String → String
  decode : String → Except String Condition

def toFloat : Scalar → Option Int
  | .number n => some n
  | _ => none

def knownSeverity (s : String) : Bool := ["INFO","WARNING","CRITICAL"].contains (toUpper s)

def checkText (env : Env) (field : Field) : Scalar → Except String Unit
  | .text s =>
      if trimSpace s = "" then
        .error ("field " ++ env.quote field.text ++ " needs a non-empty string value")
      else if field = .severity ∧ knownSeverity s = false then
        .error "severity must be INFO|WARNING|CRITICAL"
      else .ok ()
  | _ => .error ("field " ++ env.quote field.text ++ " needs a non-empty string value")

def checkValueKind (env : Env) (field : Field) (v : Scalar) : Except String Unit :=
  match field with
  | .severity | .condition => checkText env field v
  | .value | .serverId =>
      if (toFloat v).isSome then .ok ()
      else .error ("field " ++ env.quote field.text ++ " needs a numeric value")
  | .other _ => .ok ()

namespace Condition

def checkField (env : Env) (c : Condition) : Except String Unit :=
  if c.field.stringField || c.field.numberField then .ok ()
  else .error ("unsupported condition field " ++ env.quote c.field.text ++
    " (use severity|condition|value|serverId)")

def checkOperator (env : Env) (c : Condition) : Except String Unit :=
  match c.operator with
  | .eq | .neq | .oneOf => .ok ()
  | .contains =>
      if c.field.stringField then .ok ()
      else .error ("operator " ++ env.quote c.operator.text ++ " needs a string field")
  | .gt | .gte | .lt | .lte =>
      if c.field.numberField then .ok ()
      else .error ("operator " ++ env.quote c.operator.text ++ " needs a numeric field")
  | .other raw => .error ("unsupported operator " ++ env.quote raw ++
      " (use eq|neq|gt|gte|lt|lte|contains|in)")

def checkValue (env : Env) (c : Condition) : Except String Unit :=
  if c.operator = .oneOf then
    if c.value.items = [] then .error "operator \"in\" needs a non-empty array value"
    else c.value.items.forM (checkValueKind env c.field)
  else checkValueKind env c.field c.value.scalar

def validate (env : Env) (c : Condition) : Except String Unit := do
  c.checkField env
  c.checkOperator env
  c.checkValue env

end Condition

def parseCondition (env : Env) (raw : String) : Except String (Option Condition) :=
  let raw := trimSpace raw
  if raw = "" ∨ raw = "null" then .ok none
  else match env.decode raw with
    | .error e => .error ("condition must be JSON \x7bfield, operator, value\x7d: " ++ e)
    | .ok c => do
        c.validate env
        return some c

def matchString (s : String) (op : Operator) (v : Value) : Bool :=
  let want := match v.scalar with
    | .text w => w
    | _ => ""
  match op with
  | .oneOf => v.items.any fun item => match item with
      | .text w => equalFold s w
      | _ => false
  | .eq => equalFold s want
  | .neq => !equalFold s want
  | .contains => decide ((toLower want).toList <:+: (toLower s).toList)
  | _ => false

def matchNumber (n : Int) (op : Operator) (v : Value) : Bool :=
  match op with
  | .oneOf => v.items.any fun item => (toFloat item).any (· == n)
  | _ => (toFloat v.scalar).any fun want => match op with
      | .eq => n == want
      | .neq => n != want
      | .gt => decide (want < n)
      | .gte => decide (want ≤ n)
      | .lt => decide (n < want)
      | .lte => decide (n ≤ want)
      | _ => false

def Condition.Matches (c : Option Condition) (ev : Event) : Bool :=
  match c with
  | none => true
  | some c => match c.field with
    | .severity => matchString (toUpper ev.severity) c.operator c.value
    | .condition => matchString ev.condition c.operator c.value
    | .value => matchNumber ev.value c.operator c.value
    | .serverId => matchNumber ((ev.serverID.map Int.ofNat).getD (-1)) c.operator c.value
    | .other _ => false

end Rules
