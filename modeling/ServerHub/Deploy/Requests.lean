import ServerHub.Deploy.Pipeline
import ServerHub.Interleave.Program

namespace Deploy

open Posix Interleave Interleave.Prog

-- what the handlers use of the machine's libraries
structure Library where
  hmac : Bytes → Bytes → Bytes
  decodeHex : Text → Option Bytes
  parseInt : Text → Option Int

structure PushPayload where
  ref : Text
  after : Text
  fullName : Text
  htmlURL : Text
deriving DecidableEq

inductive DeployReply where
  | error (code : Nat) (message : Text)
  | pong
  | ignored (event : Text)
  | accepted (d : Option Deployment) (operationID note : Text)
  | pushed (results : List (Text × Option Text))
deriving DecidableEq

def trimSuffix (s suffix : Text) : Text :=
  if suffix.isSuffixOf s then s.take (s.length - suffix.length) else s

def trimPrefix (s pre : Text) : Text := if hasPrefix s pre then s.drop pre.length else s

def dotGit : Text := ".git".toList

def gitHubURL : Text := "https://github.com/".toList

def repoMatch (p : PushPayload) (repo : Text) : Bool :=
  repo ≠ [] && (contains repo p.fullName ||
    trimSuffix repo dotGit == trimSuffix p.htmlURL dotGit ||
    trimSuffix repo dotGit == trimSuffix (gitHubURL ++ p.fullName) dotGit)

def pushedBranch (p : PushPayload) : Text := trimPrefix p.ref "refs/heads/".toList

def matched (p : PushPayload) (projects : List Project) : List Project :=
  projects.filter fun q => q.branch == pushedBranch p && repoMatch p q.repository

def gitHubTrigger : Text := "github-webhook".toList

def webhookActor : Text := "webhook".toList

def deployOp (type : Text) (target : Int) (actor : Text) : NewOperation :=
  ⟨type,"project".toList,target,actor,deployStages⟩

def deployMatched (p : PushPayload) (q : Project) : Pipeline (Text × Option Text) := do
  if q.autoDeploy then
    let deployID ← perform (.insertDeployment
      ⟨q.id,p.after,pushedBranch p,gitHubTrigger,.running,[]⟩)
    let op ← perform (.createOp (deployOp "deploy".toList q.id webhookActor))
    let opID := op.getD []
    perform (.spawn ⟨opID,deployID.getD 0,q,webhookActor,p.after⟩)
    return (q.name,some opID)
  else
    let _ ← perform (.insertDeployment ⟨q.id,p.after,pushedBranch p,gitHubTrigger,.pending,
      "Auto-deploy disabled; manual deploy required.".toList⟩)
    return (q.name,none)

def verifySignature (lib : Library) (secret : Text) (body : Bytes) (header : Text) : Bool :=
  let pre := "sha256=".toList
  hasPrefix header pre &&
    match lib.decodeHex (header.drop pre.length) with
    | none => false
    | some sig => lib.hmac ((String.ofList secret).toUTF8.toList) body == sig

structure PushRequest where
  body : Bytes
  signature : Text
  event : Text
  decoded : Option PushPayload

def bodyLimit : Nat := 2 ^ 20

-- decoded is what json.Unmarshal makes of the body as far as it is read
def gitHub (lib : Library) (secret : Text) (r : PushRequest) : Pipeline DeployReply := do
  if secret = [] then
    return .error 503 "webhooks not configured (GITHUB_WEBHOOK_SECRET unset)".toList
  else if verifySignature lib secret (r.body.take bodyLimit) r.signature = false then
    return .error 401 "invalid signature".toList
  else if r.event = "ping".toList then return .pong
  else if r.event ≠ "push".toList then return .ignored r.event
  else
  match r.decoded with
  | none => return .error 400 "invalid payload".toList
  | some p =>
  if pushedBranch p = [] ∨ p.after = [] then return .error 400 "missing ref/after".toList
  else
    let projects ← perform .projects
    let results ← collect (deployMatched p) (matched p projects)
    return .pushed results

structure DeployBody where
  commitSHA : Text
  branch : Text

def track (type : Text) (q : Project) (actor commit : Text) (deployID : Nat) (note : Text) :
    Pipeline DeployReply := do
  match ← perform (.createOp (deployOp type q.id actor)) with
  | none => return .error 500 "could not track operation".toList
  | some opID =>
      perform (.spawn ⟨opID,deployID,q,actor,commit⟩)
      let d ← perform (.deployment deployID)
      return .accepted d opID note

def deploy (lib : Library) (actor param : Text) (body : DeployBody) : Pipeline DeployReply := do
  match lib.parseInt param with
  | none => return .error 400 "invalid project id".toList
  | some id =>
  match ← perform (.project id) with
  | none => return .error 404 "project not found".toList
  | some q =>
  let branch := if body.branch = [] then q.branch else body.branch
  match ← perform (.insertDeployment
      ⟨id,body.commitSHA,branch,"manual@serverhub".toList,.running,[]⟩) with
  | none => return .error 500 "could not create deployment".toList
  | some deployID => track "deploy".toList q actor body.commitSHA deployID []

def rollbackNote : Text :=
  ("rollback reapplies the project's current compose files (redeploy); " ++
    "it does not check out the recorded commit").toList

def rollback (lib : Library) (actor param depParam insertError : Text) :
    Pipeline DeployReply := do
  match lib.parseInt param, lib.parseInt depParam with
  | none, _ => return .error 400 "invalid project id".toList
  | some _, none => return .error 400 "invalid deployment id".toList
  | some id, some depID =>
  match ← perform (.deploymentOf depID id) with
  | none => return .error 404 "deployment not found for this project".toList
  | some (d,q) =>
  match ← perform (.insertDeployment ⟨id,d.commitSHA,d.branch,
      "rollback:".toList ++ (toString depID).toList,.running,[]⟩) with
  | none => return .error 500 insertError
  | some newID => track "rollback".toList q actor d.commitSHA newID rollbackNote

inductive DeployRequest where
  | deploy (actor param : Text) (body : DeployBody)
  | rollback (actor param depParam insertError : Text)
  | gitHub (r : PushRequest)
  | pipeline

inductive DeployAnswer where
  | reply (r : DeployReply)
  | outcome (creator : Nat) (job : Job) (o : Outcome)
deriving DecidableEq

def pipeline (policy : ExecPolicy) : Pipeline DeployAnswer := do
  let (creator,job) ← perform .take
  let o ← executeDeploy policy job
  return .outcome creator job o

def answered (p : Pipeline DeployReply) : Pipeline DeployAnswer := do
  let r ← p
  return .reply r

structure Server where
  lib : Library
  secret : Text
  policy : ExecPolicy

def handle (srv : Server) : DeployRequest → Pipeline DeployAnswer
  | .deploy actor param body => answered (deploy srv.lib actor param body)
  | .rollback actor param depParam insertError =>
      answered (rollback srv.lib actor param depParam insertError)
  | .gitHub r => answered (gitHub srv.lib srv.secret r)
  | .pipeline => pipeline srv.policy

def opID (n : Nat) : Text := "op_".toList ++ Nat.toDigits 16 n

-- host is the machine as the request or pipeline pid finds it, fails the inserts that go wrong
def exec (host : Nat → Host) (fails : Nat → Bool) (pid : Nat) :
    {β : Type} → DeployCall β → Records → Option (Records × β)
  | _, .project id, s => some (s,s.projects.find? fun q => q.id = id)
  | _, .projects, s => some (s,s.projects)
  | _, .deploymentOf id project, s =>
      some (s,(s.deployments.find? fun d => d.id = id ∧ d.projectID = project).bind fun d =>
        (s.projects.find? fun q => q.id = d.projectID).map fun q => (d,q))
  | _, .deployment id, s => some (s,s.deployments.find? fun d => d.id = id)
  | _, .insertDeployment d, s =>
      if fails s.inserts then some ({ s with inserts := s.inserts + 1 },none)
      else some ({ s.addDeployment pid d with inserts := s.inserts + 1 },some s.nextDeployment)
  | _, .finishDeployment id status logs, s => some (s.finishDeployment id status logs,())
  | _, .createOp n, s =>
      if fails s.inserts then some ({ s with inserts := s.inserts + 1 },none)
      else some ({ s with
        inserts := s.inserts + 1
        operations := s.operations ++ [n.row (opID s.inserts)] },some (opID s.inserts))
  | _, .startOp id, s => some (s.updateOp id fun op => { op with status := .running },())
  | _, .setStage id idx failed label, s => some (s.updateOp id (·.setStage idx failed label),())
  | _, .finishOp id status errMsg, s => some (s.updateOp id (·.finish status errMsg),())
  | _, .spawn job, s => some ({ s with jobs := s.jobs ++ [(pid,job)] },())
  | _, .take, s =>
      match s.jobs with
      | [] => none
      | job :: rest => some ({ s with jobs := rest },job)
  | _, .evalSymlinks path, s => some (s,(host pid).evalSymlinks path)
  | _, .validateURL url, s => some (s,(host pid).urlError url)
  | _, .stat path, s => some (s,(host pid).stat path)
  | _, .scan path roots, s => some (s,checkComposeRefs (host pid) path roots)
  | _, .command dir name args, s => some (s,(host pid).command dir name args)
  | _, .health url strict, s => some (s,(host pid).health url strict)

-- an administrator may edit the projects between any two steps
def deployments (srv : Server) (host : Nat → Host) (fails : Nat → Bool) : System where
  Instr := DeployCall
  State := Records
  Request := DeployRequest
  Answer := DeployAnswer
  Env := List Project
  exec := exec host fails
  handle := handle srv
  env projects s := some { s with projects := projects }

end Deploy
