import ServerHub.Deploy.Compose
import ServerHub.Interleave.Sequential

namespace Deploy

open Posix Interleave Interleave.Prog

structure Project where
  id : Int
  name : Text
  repository : Text
  branch : Text
  deploymentPath : Text
  composeFile : Text
  healthURL : Text
  autoDeploy : Bool
deriving DecidableEq

inductive DeployStatus where
  | pending
  | running
  | success
  | failed
deriving DecidableEq

structure NewDeployment where
  projectID : Int
  commitSHA : Text
  branch : Text
  trigger : Text
  status : DeployStatus
  logs : Text
deriving DecidableEq

-- creator is no column: the request that inserted the row
structure Deployment extends NewDeployment where
  id : Nat
  creator : Nat
deriving DecidableEq

inductive StageState where
  | pending
  | active
  | done
  | failed
deriving DecidableEq

inductive OpStatus where
  | queued
  | running
  | success
  | failed
deriving DecidableEq

structure NewOperation where
  type : Text
  targetType : Text
  targetID : Int
  initiatedBy : Text
  stages : List Text
deriving DecidableEq

structure Operation where
  id : Text
  type : Text
  targetType : Text
  targetID : Int
  status : OpStatus
  stage : Text
  stages : List (Text × StageState)
  initiatedBy : Text
  error : Text
deriving DecidableEq

def NewOperation.row (n : NewOperation) (id : Text) : Operation where
  id := id
  type := n.type
  targetType := n.targetType
  targetID := n.targetID
  status := .queued
  stage := []
  stages := n.stages.map fun s => (s,.pending)
  initiatedBy := n.initiatedBy
  error := []

def Operation.setStage (op : Operation) (idx : Nat) (failed : Bool) (label : Text) : Operation :=
  { op with
    stages := op.stages.mapIdx fun i s =>
      (s.1,if i < idx then .done
        else if i = idx then (if failed then .failed else .active)
        else .pending)
    stage := if label = [] then ((op.stages[idx]?).map Prod.fst).getD label else label }

def Operation.finish (op : Operation) (status : OpStatus) (errMsg : Text) : Operation :=
  { op with
    status := status
    error := errMsg
    stages := op.stages.map fun s =>
      (s.1,if s.2 = .active ∨ s.2 = .pending then
          (if status = .success then .done else if s.2 = .active then .failed else s.2)
        else s.2) }

structure Job where
  opID : Text
  deployID : Nat
  project : Project
  actor : Text
  commit : Text
deriving DecidableEq

-- a job is queued with the request that handed it over
structure Records where
  projects : List Project
  deployments : List Deployment
  nextDeployment : Nat
  operations : List Operation
  inserts : Nat
  jobs : List (Nat × Job)

inductive Outcome where
  | success
  | failed
deriving DecidableEq

def Outcome.status : Outcome → DeployStatus
  | .success => .success
  | .failed => .failed

inductive DeployCall : Type → Type where
  | project (id : Int) : DeployCall (Option Project)
  | projects : DeployCall (List Project)
  | deploymentOf (id project : Int) : DeployCall (Option (Deployment × Project))
  | deployment (id : Nat) : DeployCall (Option Deployment)
  | insertDeployment (d : NewDeployment) : DeployCall (Option Nat)
  | finishDeployment (id : Nat) (status : DeployStatus) (logs : Text) : DeployCall Unit
  | createOp (n : NewOperation) : DeployCall (Option Text)
  | startOp (id : Text) : DeployCall Unit
  | setStage (id : Text) (idx : Nat) (failed : Bool) (label : Text) : DeployCall Unit
  | finishOp (id : Text) (status : OpStatus) (errMsg : Text) : DeployCall Unit
  | spawn (job : Job) : DeployCall Unit
  | take : DeployCall (Nat × Job)
  | evalSymlinks (path : Text) : DeployCall (Except (Errno × Text) Text)
  | validateURL (url : Text) : DeployCall (Option Text)
  | stat (path : Text) : DeployCall (Option Nat)
  | scan (path : Text) (roots : List Text) : DeployCall (Except Text (List OutsideRef))
  | command (dir name : Text) (args : List Text) : DeployCall (Text × Option Text)
  | health (url : Text) (strict : Bool) : DeployCall (Bool × Text)

abbrev Pipeline := Prog DeployCall

namespace Records

variable (s : Records)

def updateOp (id : Text) (f : Operation → Operation) : Records :=
  { s with operations := s.operations.map fun op => if op.id = id then f op else op }

def addDeployment (pid : Nat) (d : NewDeployment) : Records :=
  { s with
    deployments := s.deployments ++ [{ d with id := s.nextDeployment, creator := pid }]
    nextDeployment := s.nextDeployment + 1 }

def finishDeployment (id : Nat) (status : DeployStatus) (logs : Text) : Records :=
  { s with
    deployments := s.deployments.map fun d =>
      if d.id = id then { d with status := status, logs := logs } else d }

end Records

end Deploy
