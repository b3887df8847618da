import ServerHub.Go.Strings
import ServerHub.Interleave.Program
import ServerHub.Relational.Serial

namespace Health

open Go Relational Interleave Interleave.Prog

inductive Resource where
  | service
  | project
deriving DecidableEq

structure Service where
  id : Nat
  projectID : Nat
  name : String
  healthURL : String
  status : String
  lastHealth : String
  responseTimeMs : Option Int
deriving DecidableEq

structure Project where
  id : Nat
  name : String
  healthURL : String
  status : String
deriving DecidableEq

instance : Keyed Service := ⟨Service.id⟩

instance : Keyed Project := ⟨Project.id⟩

structure Transition where
  resource : Resource
  id : Nat
  name : String
  before : String
  after : String
deriving DecidableEq

structure Item where
  id : Nat
  name : String
  url : String
  before : String
deriving DecidableEq

structure Aggregated where
  id : Nat
  name : String
  after : String
deriving DecidableEq

-- probed counts the probes; comparing is set from the snapshot of the aggregate statuses until they
-- are read again
structure State where
  services : Serial Service
  projects : Serial Project
  probed : Nat
  announced : List Transition
  comparing : Bool

inductive Instr : Type → Type where
  | selectServices : Instr (List Item)
  | selectProjects : Instr (List Item)
  | get (url : String) : Instr (Option Int × Int)
  | updateService (state : String) (rt : Int) (id : Nat) : Instr Unit
  | updateProject (state : String) (id : Nat) : Instr Unit
  | snapshot : Instr (List (Nat × String))
  | aggregate : Instr Unit
  | reread : Instr (List Aggregated)
  | announce (t : Transition) : Instr Unit

-- none: the URL is malformed or nobody answers
def stateOf : Option Int → String
  | none => "DOWN"
  | some code =>
      if 200 ≤ code ∧ code < 300 then "HEALTHY"
      else if code ≥ 500 then "DOWN"
      else "DEGRADED"

def probe (url : String) : Prog Instr (String × Int) := do
  let (resp,rt) ← perform (.get url)
  return (stateOf resp,rt)

def transition (resource : Resource) (id : Nat) (name before after : String) : Prog Instr Unit :=
  if toUpper before = toUpper after ∨ toUpper before = "" ∨ toUpper before = "UNKNOWN" then .ret ()
  else perform (.announce ⟨resource,id,name,toUpper before,toUpper after⟩)

def checkService (s : Item) : Prog Instr Unit := do
  let (state,rt) ← probe s.url
  perform (.updateService state rt s.id)
  transition .service s.id s.name s.before state

def checkProject (p : Item) : Prog Instr Unit := do
  let (state,_) ← probe p.url
  perform (.updateProject state p.id)
  transition .project p.id p.name p.before state

-- a project that is not in the map reads as the empty status
def compare (before : List (Nat × String)) (a : Aggregated) : Prog Instr Unit :=
  transition .project a.id a.name ((before.lookup a.id).getD "") a.after

def check : Prog Instr Unit := do
  let svcs ← perform .selectServices
  each checkService svcs
  let projs ← perform .selectProjects
  each checkProject projs
  let before ← perform .snapshot
  perform .aggregate
  let after ← perform .reread
  each (compare before) after

def aggregateOf (services : List Service) : String :=
  if services.length = 0 then "unknown"
  else if services.countP (fun s => s.status = "DOWN") > 0 then "down"
  else if services.countP (fun s => s.status = "DEGRADED") > 0 then "degraded"
  else if services.countP (fun s => s.status = "HEALTHY") = services.length then "healthy"
  else "unknown"

def Service.item (r : Service) : Item := ⟨r.id,r.name,r.healthURL,r.lastHealth⟩

def Project.item (r : Project) : Item := ⟨r.id,r.name,r.healthURL,r.status⟩

namespace State

variable (s : State)

def setService (state : String) (rt : Int) (id : Nat) : Serial Service :=
  s.services.modify (fun r => r.id = id)
    (fun r => { r with status := state, lastHealth := state, responseTimeMs := some rt }) fun _ => rfl

def setProject (state : String) (id : Nat) : Serial Project :=
  s.projects.modify (fun r => r.id = id) (fun r => { r with status := state }) fun _ => rfl

def setAggregate : Serial Project :=
  s.projects.modify (fun r => r.healthURL = "")
    (fun r => { r with status := aggregateOf (s.services.select fun v => v.projectID = r.id) }) fun _ => rfl

end State

section Exec

variable (web : Nat → String → Option Int × Int)

def exec : {β : Type} → Instr β → State → State × β
  | _, .selectServices, s => (s,(s.services.select fun r => r.healthURL ≠ "").map Service.item)
  | _, .selectProjects, s => (s,(s.projects.select fun r => r.healthURL ≠ "").map Project.item)
  | _, .get url, s => ({ s with probed := s.probed + 1 },web s.probed url)
  | _, .updateService state rt id, s => ({ s with services := s.setService state rt id },())
  | _, .updateProject state id, s => ({ s with projects := s.setProject state id },())
  | _, .snapshot, s =>
      ({ s with comparing := true },
        (s.projects.select fun r => r.healthURL = "").map fun r => (r.id,r.status))
  | _, .aggregate, s => ({ s with projects := s.setAggregate },())
  | _, .reread, s =>
      ({ s with comparing := false },
        (s.projects.select fun r => r.healthURL = "").map fun r => ⟨r.id,r.name,r.status⟩)
  | _, .announce t, s => ({ s with announced := t :: s.announced },())

-- the statements of the handlers that edit services and projects
inductive Edit where
  | createService (projectID : Nat) (name healthURL : String)
  | updateService (id : Nat) (name healthURL : String)
  | deleteService (id : Nat)
  | createProject (name healthURL : String)
  | updateProject (id : Nat) (name healthURL : String)
  | deleteProject (id : Nat)
deriving DecidableEq

def Edit.apply : Edit → State → State
  | .createService projectID name healthURL, s =>
      { s with
        services := s.services.insert
          (fun id => ⟨id,projectID,name,healthURL,"unknown","UNKNOWN",none⟩) fun _ => rfl }
  | .updateService id name healthURL, s =>
      { s with
        services := s.services.modify (fun r => r.id = id)
          (fun r => { r with name := name, healthURL := healthURL }) fun _ => rfl }
  | .deleteService id, s => { s with services := s.services.remove fun r => r.id = id }
  | .createProject name healthURL, s =>
      { s with projects := s.projects.insert (fun id => ⟨id,name,healthURL,"unknown"⟩) fun _ => rfl }
  | .updateProject id name healthURL, s =>
      { s with
        projects := s.projects.modify (fun r => r.id = id)
          (fun r => { r with name := name, healthURL := healthURL }) fun _ => rfl }
  | .deleteProject id, s => { s with projects := s.projects.remove fun r => r.id = id }

-- two services of one project have different names
def Edit.refused : Edit → State → Bool
  | .createService projectID name _, s =>
      s.services.rows.any fun r => r.projectID = projectID ∧ r.name = name
  | .updateService id name _, s =>
      s.services.rows.any fun r => r.id = id ∧
        s.services.rows.any fun other => other.id ≠ id ∧ other.projectID = r.projectID ∧ other.name = name
  | _, _ => false

-- a request is the loop, with the number of its rounds
def monitor : System where
  Instr := Instr
  State := State
  Request := Nat
  Answer := Unit
  Env := Edit
  exec _ _ i s := some (exec web i s)
  handle rounds := each (fun _ => check) (List.replicate rounds ())
  env e s := if e.refused s then none else some (e.apply s)

end Exec

end Health
