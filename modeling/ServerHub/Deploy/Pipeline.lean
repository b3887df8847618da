import ServerHub.Deploy.Records

namespace Deploy

open Posix Interleave Interleave.Prog

structure ExecPolicy where
  roots : List Text
  strictEgress : Bool

def deployStages : List Text := ["Pull images".toList,"Start services".toList,"Health check".toList]

def resolveExec (path : Text) (roots : List Text) : Pipeline (Except Text Text) := do
  match validateWrite path roots with
  | .error e => return .error e
  | .ok cleaned =>
  if cleaned = [] then return .error "no deployment_path configured".toList
  else
  match ← perform (.evalSymlinks cleaned) with
  | .error (.notExist,_) => return .ok cleaned
  | .error (_,e) => return .error ("cannot resolve deployment_path: ".toList ++ e)
  | .ok resolved =>
  if roots ≠ [] ∧ withinRoots (clean resolved) roots = false then
    return .error "deployment_path escapes the allowed deployment roots (symlink)".toList
  else return .ok (clean resolved)

def refLine (head : Text) (r : OutsideRef) : Text := head ++ r.field ++ ": ".toList ++ r.value ++ ['\n']

def scanError (e : Text) : Text := "compose scan: ".toList ++ e ++ ['\n']

def warnComposeRefs (composePath : Text) (roots : List Text) : Pipeline Text := do
  match ← perform (.scan composePath roots) with
  | .error e => return scanError e
  | .ok refs =>
      if refs = [] then return []
      else return "compose references outside deployment roots (review):\n".toList ++
        refs.flatMap (refLine "  - ".toList)

def shownArgs (args : List Text) : Text := ['['] ++ [' '].intercalate args ++ [']']

def run (buf dir name : Text) (args : List Text) : Pipeline (Text × Option Text) := do
  let (out,err) ← perform (.command dir name args)
  return (buf ++ "$ ".toList ++ name ++ [' '] ++ shownArgs args ++ ['\n'] ++ out,err)

def docker : Text := "docker".toList

def dockerCompose : Text := "docker-compose".toList

def pullArgs : List Text := ["pull".toList]

def upArgs : List Text := ["up".toList,"-d".toList,"--remove-orphans".toList]

def fail (job : Job) (logs : Text) : Pipeline Outcome := do
  perform (.finishDeployment job.deployID .failed logs)
  perform (.finishOp job.opID .failed logs)
  return .failed

def succeed (job : Job) (logs : Text) : Pipeline Outcome := do
  perform (.finishDeployment job.deployID .success logs)
  perform (.finishOp job.opID .success [])
  return .success

def checkHealth (policy : ExecPolicy) (job : Job) (buf : Text) : Pipeline Outcome := do
  perform (.setStage job.opID 2 false [])
  if job.project.healthURL = [] then succeed job buf
  else
  let buf := buf ++ "health check: polling ".toList ++ job.project.healthURL ++
    " for 200 (30s budget)\n".toList
  match ← perform (.health job.project.healthURL policy.strictEgress) with
  | (true,_) => succeed job (buf ++ "health check: healthy\n".toList)
  | (false,reason) =>
      perform (.setStage job.opID 2 true [])
      let buf := if reason = [] then buf
        else buf ++ "health check: ".toList ++ reason ++ ['\n']
      fail job (buf ++ "\nhealth check failed: endpoint did not return 2xx in time".toList)

def failUp (job : Job) (buf err : Text) : Pipeline Outcome := do
  perform (.setStage job.opID 1 true [])
  fail job (buf ++ "\ndeploy failed: ".toList ++ err)

def startServices (policy : ExecPolicy) (job : Job) (dir buf : Text) : Pipeline Outcome := do
  perform (.setStage job.opID 1 false [])
  match ← run buf dir docker ("compose".toList :: upArgs) with
  | (buf,none) => checkHealth policy job buf
  | (buf,some err) =>
  match ← run buf dir dockerCompose pullArgs with
  | (buf,some _) => failUp job buf err
  | (buf,none) =>
  match ← run buf dir dockerCompose upArgs with
  | (buf,some _) => failUp job buf err
  | (buf,none) => checkHealth policy job buf

def pullImages (policy : ExecPolicy) (job : Job) (dir buf : Text) : Pipeline Outcome := do
  perform (.setStage job.opID 0 false [])
  match ← run buf dir docker ("compose".toList :: pullArgs) with
  | (buf,none) => startServices policy job dir buf
  | (buf,some err) =>
      startServices policy job dir (buf ++ "pull warning: ".toList ++ err ++ ['\n'])

def checkURL (url : Text) : Pipeline (Option Text) :=
  if url = [] then return none else perform (.validateURL url)

def executeDeploy (policy : ExecPolicy) (job : Job) : Pipeline Outcome := do
  perform (.startOp job.opID)
  match ← resolveExec job.project.deploymentPath policy.roots with
  | .error e => fail job e
  | .ok dir =>
  match validateComposeFile job.project.composeFile with
  | .error e => fail job e
  | .ok _ =>
  match ← checkURL job.project.healthURL with
  | some e => fail job ("health_url: ".toList ++ e)
  | none =>
  let composePath := joinPath dir job.project.composeFile
  match ← perform (.stat composePath) with
  | none => fail job ("Compose file not found: ".toList ++ composePath)
  | some _ =>
      let buf ← warnComposeRefs composePath policy.roots
      pullImages policy job dir buf

structure LifecycleReply where
  code : Nat
  error : Text
  logs : Text
  operationID : Text
deriving DecidableEq

def refused (code : Nat) (error : Text) : LifecycleReply := ⟨code,error,[],[]⟩

def composeDefault : Text := "docker-compose.yml".toList

def effectiveCompose (pid : Int) (dir : Text) : Pipeline (Except LifecycleReply Text) := do
  match ← perform (.stat (joinPath dir composeDefault)) with
  | some _ => return .ok composeDefault
  | none =>
  let declared := match ← perform (.project pid) with
    | none => []
    | some p => p.composeFile
  let composeFile := if declared = [] then composeDefault else declared
  match validateComposeFile composeFile with
  | .error e => return .error (refused 400 e)
  | .ok _ =>
  match ← perform (.stat (joinPath dir composeFile)) with
  | none => return .error (refused 400 "compose file not found in deployment_path".toList)
  | some _ => return .ok composeFile

def scanLog (composePath : Text) (roots : List Text) : Pipeline Text := do
  match ← perform (.scan composePath roots) with
  | .error e => return scanError e
  | .ok refs =>
      return refs.flatMap
        (refLine "compose reference outside deployment roots (review): ".toList)

def runCompose (name action dir opID buf : Text) (composeArgs : List Text) :
    Pipeline LifecycleReply := do
  perform (.startOp opID)
  perform (.setStage opID 0 false [])
  let shown := buf ++ "$ docker compose ".toList ++ shownArgs composeArgs ++ " (project ".toList ++
    name ++ ")\n".toList
  match ← perform (.command dir docker ("compose".toList :: composeArgs)) with
  | (out,none) =>
      perform (.finishOp opID .success [])
      return ⟨200,[],shown ++ out,opID⟩
  | (out,some _) =>
  match ← perform (.command dir dockerCompose composeArgs) with
  | (more,none) =>
      perform (.finishOp opID .success [])
      return ⟨200,[],shown ++ out ++ more,opID⟩
  | (more,some _) =>
      let msg := "docker compose ".toList ++ action ++ " failed".toList
      perform (.setStage opID 0 true [])
      perform (.finishOp opID .failed msg)
      return ⟨502,msg,shown ++ out ++ more,opID⟩

def runOne (roots : List Text) (actor : Text) (pid : Int) (action : Text) (composeArgs : List Text) :
    Pipeline LifecycleReply := do
  match ← perform (.project pid) with
  | none => return refused 404 "project not found".toList
  | some p =>
  match ← resolveExec p.deploymentPath roots with
  | .error e => return refused 400 e
  | .ok dir =>
  match ← effectiveCompose pid dir with
  | .error reply => return reply
  | .ok composeFile =>
  let buf ← scanLog (joinPath dir composeFile) roots
  match ← perform (.createOp ⟨"project.".toList ++ action,"project".toList,pid,actor,[action]⟩) with
  | none => return refused 500 "could not track operation".toList
  | some opID => runCompose p.name action dir opID buf composeArgs

end Deploy
