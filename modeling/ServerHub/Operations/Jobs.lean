import ServerHub.Containers.Grants
import ServerHub.Deploy.Requests
import ServerHub.Go.Hex
import ServerHub.Interleave.Lowering
import ServerHub.Relational.Table

namespace Operations

open Interleave Interleave.Prog

abbrev Text := List Char

abbrev StageState := Deploy.StageState

abbrev OpStatus := Deploy.OpStatus

structure Operation where
  id : Text
  type : Text
  targetType : Text
  targetID : Text
  status : OpStatus
  stage : Text
  stages : List (Text × StageState)
  initiatedBy : Text
  error : Text
  createdAt : Int
  startedAt : Option Int
  completedAt : Option Int
deriving DecidableEq

structure Target where
  type : Text
  targetType : Text
  targetID : Text
  initiatedBy : Text
  stages : List Text

def newID (b : List UInt8) : Text := "op_".toList ++ Go.encodeToString b

def Target.row (t : Target) (id : Text) (now : Int) : Operation where
  id := id
  type := t.type
  targetType := t.targetType
  targetID := t.targetID
  status := .queued
  stage := []
  stages := t.stages.map fun s => (s,.pending)
  initiatedBy := t.initiatedBy
  error := []
  createdAt := now
  startedAt := none
  completedAt := none

def markStages (idx : Nat) (failed : Bool) (stages : List (Text × StageState)) :
    List (Text × StageState) :=
  stages.mapIdx fun i s =>
    (s.1,if i < idx then .done
      else if i = idx then (if failed then .failed else .active)
      else .pending)

def stageName (op : Operation) (idx : Nat) (label : Text) : Text :=
  if label = [] then ((op.stages[idx]?).map Prod.fst).getD label else label

def closeStages (status : OpStatus) (stages : List (Text × StageState)) : List (Text × StageState) :=
  stages.map fun s =>
    (s.1,if s.2 = .active ∨ s.2 = .pending then
        (if status = .success then .done else if s.2 = .active then .failed else s.2)
      else s.2)

def Operation.start (now : Int) (op : Operation) : Operation :=
  { op with status := .running, startedAt := some now }

def Operation.saveStages (stages : List (Text × StageState)) (stage : Text) (op : Operation) : Operation :=
  { op with stages := stages, stage := stage }

def Operation.complete (status : OpStatus) (error : Text) (stages : List (Text × StageState)) (now : Int)
    (op : Operation) : Operation :=
  { op with status := status, error := error, stages := stages, completedAt := some now }

inductive Work where
  | container (action id : Text)
  | stat (path : Text)
  | mkdirAll
  | create
  | writeTarGz (path : Text)
  | close
  | recordBackup
  | snapshotLive (dest : Text)
  | extractTarGz (dest : Text)

inductive Call : Type → Type where
  | random : Call (List UInt8)
  | now : Call Int
  | insert (op : Operation) : Call (Option Text)
  | start (id : Text) : Call (Option Text)
  | select (id : Text) : Call (Option Operation)
  | saveStages (id : Text) (stages : List (Text × StageState)) (stage : Text) : Call (Option Text)
  | complete (id : Text) (status : OpStatus) (error : Text) (stages : List (Text × StageState)) :
      Call (Option Text)
  | newest (limit : Nat) : Call (Except Text (List Operation))
  | available : Call Bool
  | inspect (id : Text) : Call (Option (Text × Text))
  | hostname : Call Text
  | attempt (w : Work) : Call (Option Text)

-- a deployment also makes the calls of its pipeline
abbrev Instr := Beside Call Deploy.DeployCall

-- what the random source, the database, docker and the disk answer at one step
structure Outside where
  random : List UInt8
  fault : Option Text
  available : Bool
  found : Option (Text × Text)
  hostname : Text
  failure : Option Text

structure State where
  operations : List Operation
  clock : Int
  outside : Nat → Outside
  asked : Nat

def State.tick (s : State) : State := { s with asked := s.asked + 1 }

def State.ask {β : Type} (s : State) (f : Outside → β) : State × β := (s.tick,f (s.outside s.asked))

def State.find (s : State) (id : Text) : Option Operation := s.operations.find? fun op => op.id = id

def duplicate : Text := "duplicate key value violates unique constraint".toList

-- UPDATE operations SET … WHERE id=?
def State.update (s : State) (id : Text) (f : Operation → Operation) : State × Option Text :=
  match (s.outside s.asked).fault with
  | some e => (s.tick,some e)
  | none => ({ s.tick with
      operations := s.operations.map fun op => if op.id = id then f op else op },none)

structure Machine where
  host : Deploy.Host
  projects : List Deploy.Project

-- the calls of the deployment pipeline that do not go to the operations table
def Machine.answer (m : Machine) : {β : Type} → Deploy.DeployCall β → Option β
  | _, .project id => some (m.projects.find? fun q => q.id = id)
  | _, .projects => some m.projects
  | _, .deploymentOf _ _ => some none
  | _, .deployment _ => some none
  | _, .insertDeployment _ => some none
  | _, .finishDeployment _ _ _ => some ()
  | _, .createOp _ => some none
  | _, .startOp _ => some ()
  | _, .setStage _ _ _ _ => some ()
  | _, .finishOp _ _ _ => some ()
  | _, .spawn _ => some ()
  | _, .take => none
  | _, .evalSymlinks path => some (m.host.evalSymlinks path)
  | _, .validateURL url => some (m.host.urlError url)
  | _, .stat path => some (m.host.stat path)
  | _, .scan path roots => some (Deploy.checkComposeRefs m.host path roots)
  | _, .command dir name args => some (m.host.command dir name args)
  | _, .health url strict => some (m.host.health url strict)

def run : {β : Type} → Call β → State → State × β
  | _, .random, s => s.ask Outside.random
  | _, .now, s => (s,s.clock)
  | _, .insert op, s => match (s.outside s.asked).fault with
      | some e => (s.tick,some e)
      | none =>
          if s.find op.id = none then
            ({ s.tick with operations := s.operations ++ [op] },none)
          else (s.tick,some duplicate)
  | _, .start id, s => s.update id (Operation.start s.clock)
  | _, .select id, s => match (s.outside s.asked).fault with
      | some _ => (s.tick,none)
      | none => (s.tick,s.find id)
  | _, .saveStages id stages stage, s => s.update id (Operation.saveStages stages stage)
  | _, .complete id status error stages, s =>
      s.update id (Operation.complete status error stages s.clock)
  | _, .newest limit, s => match (s.outside s.asked).fault with
      | some e => (s.tick,.error e)
      | none => (s.tick,.ok ((Relational.orderBy (fun a b => decide (b.createdAt ≤ a.createdAt))
          s.operations).take limit))
  | _, .available, s => s.ask Outside.available
  | _, .inspect _, s => s.ask Outside.found
  | _, .hostname, s => s.ask Outside.hostname
  | _, .attempt _, s => s.ask Outside.failure

def exec (m : Machine) : {β : Type} → Instr β → State → Option (State × β)
  | _, .main call, s => some (run call s)
  | _, .side call, s => (m.answer call).map fun b => (s,b)

abbrev Handler := Prog Instr

def ask {β : Type} (call : Call β) : Handler β := perform (.main call)

section Package

def create (t : Target) : Handler (Except Text Operation) := do
  let b ← ask .random
  let now ← ask .now
  match ← ask (.insert (t.row (newID b) now)) with
  | some e => return .error e
  | none => return .ok (t.row (newID b) now)

def start (id : Text) : Handler Unit := do
  let _ ← ask (.start id)
  return ()

def setStage (id : Text) (idx : Nat) (failed : Bool) (label : Text) : Handler Unit := do
  match ← ask (.select id) with
  | none => return ()
  | some op =>
    let _ ← ask (.saveStages id (markStages idx failed op.stages) (stageName op idx label))
    return ()

def finish (id : Text) (status : OpStatus) (errMsg : Text) : Handler Unit := do
  match ← ask (.select id) with
  | none => return ()
  | some op =>
    let _ ← ask (.complete id status errMsg (closeStages status op.stages))
    return ()

def get (id : Text) : Handler (Option Operation) := ask (.select id)

def list (limit : Int) : Handler (Except Text (List Operation)) :=
  ask (.newest (if limit ≤ 0 ∨ 200 < limit then 50 else limit.toNat))

end Package

inductive Reply where
  | unconfirmed
  | forbidden (reason : Text)
  | untracked
  | refused (code : Nat)
  | tracked (op : Text)
  | done (op : Text)
  | failed (op error : Text)
  | deployed (op : Text) (outcome : Deploy.Outcome)
  | operation (op : Operation)
  | missing
  | operations (ops : List Operation)
  | broken (error : Text)

section Drivers

def fail (id msg : Text) : Handler Reply := do
  finish id .failed msg
  return .failed id msg

def succeed (id : Text) : Handler Reply := do
  finish id .success []
  return .done id

def runContainer (op action id : Text) : Handler Reply := do
  if ← ask .available then
    start op
    setStage op 0 false []
    match ← ask (.attempt (.container action id)) with
    | some e =>
      setStage op 0 true []
      fail op e
    | none => succeed op
  else fail op "docker unavailable".toList

def denyProtected (id : Text) : Handler Text := do
  if ← ask .available then
    match ← ask (.inspect id) with
    | none => return []
    | some info => return Containers.protectedTarget info.1 info.2 (← ask .hostname)
  else return []

def confirmedDeny (needConfirm : Bool) (id : Text) : Handler Text :=
  if needConfirm then denyProtected id else return []

def tracked (t : Target) (job : Text → Handler Reply) : Handler Reply := do
  match ← create t with
  | .error _ => return .untracked
  | .ok op => job op.id

def containerTarget (action id actor : Text) : Target :=
  ⟨"container.".toList ++ action,"container".toList,id,actor,[action]⟩

def lifecycle (action id actor : Text) (needConfirm confirmed : Bool) : Handler Reply := do
  if needConfirm ∧ ¬confirmed then return .unconfirmed
  else
    let reason ← confirmedDeny needConfirm id
    if reason ≠ [] then return .forbidden reason
    else tracked (containerTarget action id actor) fun op => runContainer op action id

def itoa (n : Int) : Text := (toString n).toList

def backupTarget (pid : Int) (actor : Text) : Target :=
  ⟨"backup".toList,"project".toList,itoa pid,actor,["Snapshot files".toList,"Write manifest".toList]⟩

def snapshotFailed (werr : Option Text) : Text :=
  "snapshot failed".toList ++ (werr.map fun e => ": ".toList ++ e).getD []

def recordSnapshot (op : Text) : Handler Reply := do
  setStage op 1 false []
  match ← ask (.attempt .recordBackup) with
  | some e => fail op ("cannot record backup: ".toList ++ e)
  | none => succeed op

def writeSnapshot (op path : Text) : Handler Reply := do
  setStage op 0 false []
  match ← ask (.attempt .create) with
  | some e => fail op ("cannot create archive: ".toList ++ e)
  | none =>
    let werr ← ask (.attempt (.writeTarGz path))
    let cerr ← ask (.attempt .close)
    if werr ≠ none ∨ cerr ≠ none then fail op (snapshotFailed werr)
    else recordSnapshot op

def runBackup (op path : Text) : Handler Reply := do
  start op
  if path = [] then fail op "no deployment_path configured".toList
  else
    match ← ask (.attempt (.stat path)) with
    | some _ => fail op ("deployment_path not found: ".toList ++ path)
    | none =>
      match ← ask (.attempt .mkdirAll) with
      | some e => fail op ("cannot create backup dir: ".toList ++ e)
      | none => writeSnapshot op path

def restoreTarget (id : Int) (actor : Text) : Target :=
  ⟨"restore".toList,"backup".toList,itoa id,actor,
    ["Snapshot live files".toList,"Extract archive".toList]⟩

-- a failed extraction is put down to the first stage
def runRestore (op dest : Text) : Handler Reply := do
  start op
  setStage op 0 false []
  match ← ask (.attempt (.snapshotLive dest)) with
  | some e =>
    setStage op 0 true []
    fail op ("pre-restore snapshot failed: ".toList ++ e)
  | none =>
    setStage op 1 false []
    match ← ask (.attempt (.extractTarGz dest)) with
    | some e =>
      setStage op 0 true []
      fail op e
    | none => succeed op

def lowerCall : {β : Type} → Deploy.DeployCall β → Handler β
  | _, .createOp n => do
      match ← create ⟨n.type,n.targetType,itoa n.targetID,n.initiatedBy,n.stages⟩ with
      | .error _ => return none
      | .ok op => return some op.id
  | _, .startOp id => start id
  | _, .setStage id idx failed label => setStage id idx failed label
  | _, .finishOp id status errMsg => finish id status errMsg
  | _, call => perform (.side call)

def lifecycleReply (r : Deploy.LifecycleReply) : Reply :=
  if r.operationID = [] then (if r.code = 500 then .untracked else .refused r.code)
  else if r.code = 200 then .done r.operationID
  else .failed r.operationID r.error

def runOne (roots : List Text) (actor : Text) (pid : Int) (action : Text) (args : List Text) :
    Handler Reply := do
  let r ← (Deploy.runOne roots actor pid action args).lower lowerCall
  return lifecycleReply r

-- the deployment row is there already, the goroutine is the end of its request
def deployment (policy : Deploy.ExecPolicy) (type : Text) (q : Deploy.Project) (actor commit : Text)
    (deployID : Nat) : Deploy.Pipeline (Option (Text × Deploy.Outcome)) := do
  match ← perform (.createOp (Deploy.deployOp type q.id actor)) with
  | none => return none
  | some opID =>
    let out ← Deploy.executeDeploy policy ⟨opID,deployID,q,actor,commit⟩
    return some (opID,out)

def deployReply : Option (Text × Deploy.Outcome) → Reply
  | none => .untracked
  | some (op,out) => .deployed op out

def runDeployment (policy : Deploy.ExecPolicy) (type : Text) (q : Deploy.Project) (actor commit : Text)
    (deployID : Nat) : Handler Reply := do
  let r ← (deployment policy type q actor commit deployID).lower lowerCall
  return deployReply r

def shellTarget (id actor : Text) : Target :=
  ⟨"container.exec".toList,"container".toList,id,actor,["shell".toList]⟩

-- the operation of an exec session is never touched again
def shell (id actor : Text) : Handler Reply := tracked (shellTarget id actor) fun op => return .tracked op

end Drivers

-- checks before the operation is made are left to their own models
inductive Request where
  | container (action id actor : Text) (needConfirm confirmed : Bool)
  | project (roots : List Text) (actor : Text) (pid : Int) (action : Text) (args : List Text)
  | backup (pid : Int) (path actor : Text)
  | restore (id : Int) (dest actor : Text)
  | deployment (policy : Deploy.ExecPolicy) (type : Text) (q : Deploy.Project) (actor commit : Text)
      (deployID : Nat)
  | shell (id actor : Text)
  | get (id : Text)
  | list (limit : Option Int)

def shownLimit (limit : Option Int) : Int :=
  match limit with
  | none => 50
  | some v => if 1 ≤ v ∧ v ≤ 200 then v else 50

def getReply : Option Operation → Reply
  | none => .missing
  | some op => .operation op

def listReply : Except Text (List Operation) → Reply
  | .error e => .broken e
  | .ok ops => .operations ops

def handle : Request → Handler Reply
  | .container action id actor needConfirm confirmed => lifecycle action id actor needConfirm confirmed
  | .project roots actor pid action args => runOne roots actor pid action args
  | .backup pid path actor => tracked (backupTarget pid actor) fun op => runBackup op path
  | .restore id dest actor => tracked (restoreTarget id actor) fun op => runRestore op dest
  | .deployment policy type q actor commit deployID => runDeployment policy type q actor commit deployID
  | .shell id actor => shell id actor
  | .get id => do return getReply (← get id)
  | .list limit => do return listReply (← list (shownLimit limit))

inductive Env where
  | clock (now : Int)

def jobs (m : Nat → Machine) : System where
  Instr := Instr
  State := State
  Request := Request
  Answer := Reply
  Env := Env
  exec pid _ i s := exec (m pid) i s
  handle := handle
  env
    | .clock now, s => some { s with clock := now }

end Operations
