import ServerHub.Deploy.Compose
import ServerHub.Discovery.Compose
import ServerHub.Relational.Serial

namespace Discovery

open Posix (clean joinPath)
open Relational (Keyed Serial)

structure Container where
  names : List Text
  image : Text
  state : Text
  labels : List (Text × Text)

def Container.label (c : Container) (key : Text) : Text := (c.labels.lookup key).getD []

def Container.project (c : Container) : Text := c.label "com.docker.compose.project".toList

def Container.service (c : Container) : Text := c.label "com.docker.compose.service".toList

def Container.workdir (c : Container) : Text := c.label "com.docker.compose.project.working_dir".toList

def Container.configs (c : Container) : Text := c.label "com.docker.compose.project.config_files".toList

def trimSlash : Text → Text
  | '/' :: rest => rest
  | s => s

def Container.name (c : Container) : Text :=
  match c.names with
  | [] => []
  | n :: _ => trimSlash n

structure Service where
  name : Text
  container : Text
  image : Text
  state : Text
  type : Text
deriving DecidableEq

structure Project where
  name : Text
  deploymentPath : Text
  composeFile : Text
  registered : Bool
  services : List Service
deriving DecidableEq

def guessType (name image : Text) : Text :=
  let hay := (name ++ ' ' :: image).map Go.lower
  let has (words : List String) : Bool := words.any fun w => Deploy.contains hay w.toList
  if has ["postgres","mysql","mariadb","mongo","sqlite","/db"] || "db".toList.isSuffixOf hay || has ["db:"] then
    "database".toList
  else if has ["redis","memcached","cache"] then "cache".toList
  else if has ["worker","queue","celery"] then "worker".toList
  else if has ["api","backend","server"] then "backend".toList
  else if has ["front","web","ui","client","nginx","caddy"] then "frontend".toList
  else "other".toList

def dir (p : Text) : Text := clean (p.rdropWhile (· ≠ '/'))

def firstConfig (configs : Text) : Text := (configs.splitOn ',').headD []

def defaultFile : Text := "docker-compose.yml".toList

def Project.locate (g : Project) (workdir configs : Text) : Project :=
  if g.deploymentPath = [] then
    if workdir ≠ [] then { g with deploymentPath := workdir }
    else if configs ≠ [] then
      { g with
        deploymentPath := dir (firstConfig configs)
        composeFile := Deploy.base (firstConfig configs) }
    else g
  else g

def Project.fillFile (g : Project) : Project :=
  if g.composeFile = [] then { g with composeFile := defaultFile } else g

def Container.listed (c : Container) : Service :=
  let service := if c.service = [] then c.name else c.service
  ⟨service,c.name,c.image,c.state,guessType service c.image⟩

def Project.serve (g : Project) (c : Container) : Project :=
  { g with services := g.services ++ [c.listed] }

def newProject (key : Text) : Project := ⟨key,[],[],false,[]⟩

structure Groups where
  groups : Text → Option Project
  order : List Text

def Groups.add (s : Groups) (key : Text) : Groups × Project :=
  match s.groups key with
  | some g => (s,g)
  | none =>
      (⟨Function.update s.groups key (some (newProject key)),s.order ++ [key]⟩,newProject key)

def scanStep (s : Groups) (c : Container) : Groups :=
  if c.project ≠ [] then
    let (s,g) := s.add c.project
    let g := (g.locate c.workdir c.configs).fillFile.serve c
    { s with groups := Function.update s.groups c.project (some g) }
  else
    -- a standalone container is a group of its own
    let (s,g) := s.add c.name
    let g := g.fillFile.serve c
    { s with groups := Function.update s.groups c.name (some g) }

def detectStep (name : Text) (found : Option Project) (c : Container) : Option Project :=
  let key := if c.project = [] then c.name else c.project
  if key ≠ name then found
  else some (((found.getD (newProject name)).locate c.workdir c.configs).fillFile.serve c)

structure ProjectRow where
  id : Nat
  name : Text
  branch : Text
  environment : Text
  deploymentPath : Text
  composeFile : Text
  status : Text

structure ServiceRow where
  id : Nat
  projectId : Nat
  name : Text
  type : Text
  containerName : Text
  status : Text

instance : Keyed ProjectRow := ⟨ProjectRow.id⟩

instance : Keyed ServiceRow := ⟨ServiceRow.id⟩

structure DB where
  projects : Serial ProjectRow
  services : Serial ServiceRow

def DB.project (db : DB) (name : Text) : Option ProjectRow := db.projects.rows.find? fun r => r.name = name

-- what ListContainers answers, what the scan of the file system finds and the files it reads
structure Fleet where
  containers : Except Text (List Container)
  detectFS : Text → Option (Text × Text)
  readFile : Text → Option Text

def scanDocker (db : DB) (f : Fleet) : List Project :=
  match f.containers with
  | .error _ => []
  | .ok list =>
      let s := list.foldl scanStep ⟨fun _ => none,[]⟩
      s.order.filterMap fun key =>
        (s.groups key).map fun g => { g with registered := (db.project g.name).isSome }

def detect (f : Fleet) (name : Text) : Except Text (Option Project) :=
  match f.containers with
  | .error e => .error e
  | .ok list => .ok (list.foldl (detectStep name) none)

structure Imported where
  id : Nat
  name : Text
  branch : Text
  environment : Text
  deploymentPath : Text
  composeFile : Text
  status : Text
  servicesAdded : Nat

def unknown : Text := "unknown".toList

def DB.addProject (db : DB) (name path file : Text) : DB :=
  { db with
    projects := db.projects.insert
      (fun id => ⟨id,name,"main".toList,"production".toList,path,file,unknown⟩) fun _ => rfl }

def DB.addService (db : DB) (pid : Nat) (s : Service) : DB :=
  { db with
    services := db.services.insert (fun id => ⟨id,pid,s.name,s.type,s.container,unknown⟩) fun _ => rfl }

def importService (pid : Nat) (x : DB × Nat) (s : Service) : DB × Nat :=
  if x.1.services.rows.any (fun r => r.projectId = pid && r.name = s.name) then x
  else (x.1.addService pid s,x.2 + 1)

def fsServices (f : Fleet) (name path file : Text) : List Service :=
  let services := if file = [] then [] else
    (parseComposeServices (f.readFile (joinPath path file))).map fun s => ⟨s,[],[],[],guessType s []⟩
  if services = [] then [⟨name,[],[],[],"other".toList⟩] else services

def plan (f : Fleet) (name : Text) : Except (Nat × Text) (Text × Text × List Service) :=
  match f.detectFS name with
  | some (path,file) =>
      .ok (path,if file = [] then defaultFile else file,fsServices f name path file)
  | none =>
      match detect f name with
      | .error e => .error (503,e)
      | .ok none => .error (404,"no such project in the shipyard scan".toList)
      | .ok (some g) => .ok (g.deploymentPath,g.composeFile,g.services)

def store (db : DB) (name path file : Text) (services : List Service) : DB × Imported :=
  let (db,pid) :=
    match db.project name with
    | some r => (db,r.id)
    | none => (db.addProject name path file,db.projects.next)
  let (db,added) := services.foldl (importService pid) (db,0)
  match db.projects.find pid with
  | some r => (db,⟨pid,name,r.branch,r.environment,r.deploymentPath,r.composeFile,r.status,added⟩)
  | none => (db,⟨pid,name,[],[],path,file,[],added⟩)

def importProject (db : DB) (f : Fleet) (name : Text) : DB × Except (Nat × Text) Imported :=
  match plan f name with
  | .error e => (db,.error e)
  | .ok (path,file,services) =>
      let (db,reply) := store db name path file services
      (db,.ok reply)

def Container.key (c : Container) : Text := if c.project = [] then c.name else c.project

def Container.located (c : Container) : Bool := c.workdir ≠ [] || c.configs ≠ []

def Container.place (c : Container) : Text × Text :=
  if c.workdir ≠ [] then (c.workdir,defaultFile)
  else (dir (firstConfig c.configs),Deploy.base (firstConfig c.configs))

-- where a group lies when the containers that satisfy p may say so
def placeOf (p : Container → Bool) (cs : List Container) : Text × Text :=
  match cs.find? fun c => p c && c.located with
  | none => ([],defaultFile)
  | some c => c.place

def Container.labelled (c : Container) : Bool := c.project ≠ []

def anywhere (_ : Container) : Bool := true

def group (name : Text) (cs : List Container) : List Container := cs.filter fun c => c.key = name

def visit (p : Container → Bool) (g : Project) (c : Container) : Project :=
  (if p c then g.locate c.workdir c.configs else g).fillFile.serve c

section Visits

variable {p : Container → Bool} {g : Project} {c : Container} {cs : List Container}

theorem base_ne_nil (t : Text) : Deploy.base t ≠ [] := by
  unfold Deploy.base
  split
  · decide
  · split
    · decide
    · rename_i c hc
      obtain ⟨rest,hrest⟩ := List.head?_eq_some_iff.mp hc
      have hfirst := List.head?_dropWhile_not (fun c : Text => decide (c = [])) (Posix.segments t).reverse
      rw [hrest] at hfirst
      simpa using hfirst

theorem defaultFile_ne_nil : defaultFile ≠ [] := by decide

theorem place_ne_nil (c : Container) : c.place.1 ≠ [] ∧ c.place.2 ≠ [] := by
  unfold Container.place
  split
  · rename_i hw
    exact ⟨hw,defaultFile_ne_nil⟩
  · exact ⟨Posix.clean_ne_nil _,base_ne_nil _⟩

theorem visit_settled (hpath : g.deploymentPath ≠ []) (hfile : g.composeFile ≠ []) :
    visit p g c = g.serve c := by
  have hlocate : g.locate c.workdir c.configs = g := if_neg hpath
  rw [visit,hlocate,ite_self,Project.fillFile,if_neg hfile]

theorem visits_settled (hpath : g.deploymentPath ≠ []) (hfile : g.composeFile ≠ []) :
    cs.foldl (visit p) g = { g with services := g.services ++ cs.map Container.listed } := by
  induction cs generalizing g with
  | nil => simp
  | cons c cs ih =>
    rw [List.foldl_cons,visit_settled hpath hfile,ih (g := g.serve c) hpath hfile]
    simp [Project.serve]

theorem visit_placed (hpath : g.deploymentPath = []) (hfile : g.composeFile = defaultFile)
    (h : (p c && c.located) = true) : visit p g c = { g with
      deploymentPath := c.place.1, composeFile := c.place.2, services := g.services ++ [c.listed] } := by
  obtain ⟨hp,hc⟩ := Bool.and_eq_true_iff.mp h
  have hlocate : g.locate c.workdir c.configs =
      { g with deploymentPath := c.place.1, composeFile := c.place.2 } := by
    rw [Project.locate,if_pos hpath,Container.place]
    split
    · rw [← hfile]
    · rename_i hw
      have hconfigs : c.configs ≠ [] := by simpa [Container.located,not_not.mp hw] using hc
      rw [if_pos hconfigs]
  rw [visit,if_pos hp,hlocate,Project.fillFile,if_neg (place_ne_nil c).2]
  rfl

theorem visit_unplaced (hpath : g.deploymentPath = []) (hfile : g.composeFile = defaultFile)
    (h : (p c && c.located) = false) : visit p g c = g.serve c := by
  have hlocate : (if p c then g.locate c.workdir c.configs else g) = g := by
    split
    · rename_i hp
      rw [hp,Bool.true_and,Container.located,Bool.or_eq_false_iff] at h
      have hw : c.workdir = [] := by simpa using h.1
      have hconfigs : c.configs = [] := by simpa using h.2
      simp [Project.locate,hpath,hw,hconfigs]
    · rfl
  rw [visit,hlocate,Project.fillFile,if_neg (hfile ▸ defaultFile_ne_nil)]

theorem visits_open (hpath : g.deploymentPath = []) (hfile : g.composeFile = defaultFile) :
    cs.foldl (visit p) g = { g with
      deploymentPath := (placeOf p cs).1, composeFile := (placeOf p cs).2
      services := g.services ++ cs.map Container.listed } := by
  induction cs generalizing g with
  | nil =>
    obtain ⟨name,path,file,registered,services⟩ := g
    obtain rfl : path = [] := hpath
    obtain rfl : file = defaultFile := hfile
    simp [placeOf]
  | cons c cs ih =>
    rw [List.foldl_cons]
    cases hc : p c && c.located with
    | true =>
      rw [visit_placed hpath hfile hc,visits_settled (place_ne_nil c).1 (place_ne_nil c).2]
      simp [placeOf,hc]
    | false =>
      rw [visit_unplaced hpath hfile hc,ih (g := g.serve c) hpath hfile]
      simp [placeOf,hc,Project.serve]

theorem visit_fresh (name : Text) (c : Container) : visit p (newProject name) c =
    visit p { newProject name with composeFile := defaultFile } c := by
  cases hp : p c with
  | false => simp [visit,hp,newProject,Project.fillFile,defaultFile_ne_nil]
  | true =>
    by_cases hw : c.workdir = [] <;> by_cases hconfigs : c.configs = [] <;>
      simp [visit,hp,Project.locate,newProject,Project.fillFile,defaultFile_ne_nil,base_ne_nil,hw,hconfigs]

def gathered (p : Container → Bool) (name : Text) (cs : List Container) : Project :=
  ⟨name,(placeOf p cs).1,(placeOf p cs).2,false,cs.map Container.listed⟩

theorem visits_fresh (name : Text) (hcs : cs ≠ []) :
    cs.foldl (visit p) (newProject name) = gathered p name cs := by
  obtain ⟨c,cs,rfl⟩ := List.exists_cons_of_ne_nil hcs
  rw [List.foldl_cons,visit_fresh,← List.foldl_cons,visits_open rfl rfl]
  simp [gathered,newProject]

def gather (p : Container → Bool) (name : Text) (found : Option Project) (c : Container) : Option Project :=
  if c.key = name then some (visit p (found.getD (newProject name)) c) else found

theorem group_of_key {name : Text} (h : c.key = name) : group name (c :: cs) = c :: group name cs :=
  List.filter_cons_of_pos (decide_eq_true h)

theorem group_of_other {name : Text} (h : c.key ≠ name) : group name (c :: cs) = group name cs :=
  List.filter_cons_of_neg (by simpa using h)

theorem gather_some (name : Text) (g : Project) :
    cs.foldl (gather p name) (some g) = some ((group name cs).foldl (visit p) g) := by
  induction cs generalizing g with
  | nil => rfl
  | cons c cs ih =>
    rw [List.foldl_cons,gather]
    split
    · rename_i hkey
      rw [group_of_key hkey,List.foldl_cons,Option.getD_some]
      exact ih _
    · rename_i hkey
      rw [group_of_other hkey]
      exact ih g

theorem gather_none (p : Container → Bool) (name : Text) (cs : List Container) :
    cs.foldl (gather p name) none =
      if group name cs = [] then none else some (gathered p name (group name cs)) := by
  induction cs with
  | nil => rfl
  | cons c cs ih =>
    rw [List.foldl_cons,gather]
    split
    · rename_i hkey
      rw [group_of_key hkey,if_neg (List.cons_ne_nil _ _),gather_some,Option.getD_none,← List.foldl_cons,
        visits_fresh name (List.cons_ne_nil _ _)]
    · rename_i hkey
      rw [group_of_other hkey]
      exact ih

theorem detectStep_eq (name : Text) : detectStep name = gather anywhere name := by
  funext found c
  show (if c.key ≠ name then found else some (visit anywhere (found.getD (newProject name)) c)) = _
  exact ite_not ..

theorem scanStep_eq (s : Groups) (c : Container) : scanStep s c =
    ⟨Function.update (s.add c.key).1.groups c.key (some (visit Container.labelled (s.add c.key).2 c)),
      (s.add c.key).1.order⟩ := by
  by_cases hproject : c.project = []
  · simp [scanStep,hproject,Container.key,visit,Container.labelled]
  · simp [scanStep,hproject,Container.key,visit,Container.labelled]

theorem scanStep_groups (s : Groups) (c : Container) (k : Text) :
    (scanStep s c).groups k = gather Container.labelled k (s.groups k) c := by
  rw [scanStep_eq,gather,Groups.add]
  dsimp only
  by_cases hkey : c.key = k
  · subst hkey
    rw [Function.update_self,if_pos rfl]
    cases s.groups c.key <;> rfl
  · rw [Function.update_of_ne (Ne.symm hkey),if_neg hkey]
    cases s.groups c.key with
    | some g => rfl
    | none => exact Function.update_of_ne (Ne.symm hkey) _ _

theorem scanStep_order (s : Groups) (c : Container) :
    (scanStep s c).order = if (s.groups c.key).isSome then s.order else s.order ++ [c.key] := by
  rw [scanStep_eq,Groups.add]
  cases s.groups c.key <;> rfl

theorem scan_groups (s : Groups) (k : Text) :
    (cs.foldl scanStep s).groups k = cs.foldl (gather Container.labelled k) (s.groups k) := by
  induction cs generalizing s with
  | nil => rfl
  | cons c cs ih => rw [List.foldl_cons,List.foldl_cons,ih,scanStep_groups]

structure Groups.Ordered (s : Groups) : Prop where
  mem : ∀ k, k ∈ s.order ↔ (s.groups k).isSome = true

theorem scanStep_ordered {s : Groups} (h : s.Ordered) (c : Container) : (scanStep s c).Ordered := by
  refine ⟨fun k => ?_⟩
  have hkeys : ((scanStep s c).groups k).isSome = true ↔ (s.groups k).isSome = true ∨ k = c.key := by
    rw [scanStep_groups,gather]
    by_cases hkey : c.key = k
    · simp [hkey]
    · simp [hkey,Ne.symm hkey]
  rw [hkeys,scanStep_order]
  split
  · rename_i hsome
    rw [h.mem k]
    refine ⟨.inl,fun hk => hk.elim id ?_⟩
    rintro rfl
    exact hsome
  · rw [List.mem_append,List.mem_singleton,h.mem k]

theorem scan_ordered {s : Groups} (h : s.Ordered) : (cs.foldl scanStep s).Ordered := by
  induction cs generalizing s with
  | nil => exact h
  | cons c cs ih => exact ih (scanStep_ordered h c)

end Visits

section Scans

variable {db : DB} {f : Fleet} {cs : List Container} {g : Project} {name : Text}

theorem mem_scanDocker (h : f.containers = .ok cs) : g ∈ scanDocker db f ↔
    ∃ name, group name cs ≠ [] ∧
      g = { gathered Container.labelled name (group name cs) with registered := (db.project name).isSome } := by
  have hordered : (cs.foldl scanStep ⟨fun _ => none,[]⟩).Ordered := scan_ordered ⟨by simp⟩
  have hgroups (k : Text) : (cs.foldl scanStep ⟨fun _ => none,[]⟩).groups k =
      if group k cs = [] then none else some (gathered Container.labelled k (group k cs)) := by
    rw [scan_groups,gather_none]
  rw [scanDocker,h]
  dsimp only
  rw [List.mem_filterMap]
  constructor
  · rintro ⟨k,-,hk⟩
    rw [hgroups] at hk
    split at hk
    · cases hk
    · rename_i hne
      exact ⟨k,hne,(Option.some.inj hk).symm⟩
  · rintro ⟨k,hne,rfl⟩
    refine ⟨k,(hordered.mem k).mpr ?_,?_⟩
    · rw [hgroups,if_neg hne]
      rfl
    · rw [hgroups,if_neg hne]
      rfl

theorem detect_eq (h : f.containers = .ok cs) (name : Text) : detect f name =
    .ok (if group name cs = [] then none else some (gathered anywhere name (group name cs))) := by
  rw [detect,h]
  dsimp only
  rw [detectStep_eq,gather_none]

def rowsOf (db : DB) (pid : Nat) : List (Text × Text × Text) :=
  (db.services.rows.filter fun r => r.projectId = pid).map fun r => (r.name,r.type,r.containerName)

def missing (names : List Text) : List Service → List Service
  | [] => []
  | s :: ss => if s.name ∈ names then missing names ss else s :: missing (names ++ [s.name]) ss

theorem named_iff {pid : Nat} {s : Service} :
    db.services.rows.any (fun r => r.projectId = pid && r.name = s.name) = true ↔
      s.name ∈ (rowsOf db pid).map Prod.fst := by
  simp only [rowsOf,List.map_map,List.mem_map,List.mem_filter,List.any_eq_true,Function.comp_apply,
    Bool.and_eq_true,decide_eq_true_eq,and_assoc]

theorem rowsOf_addService (db : DB) (pid : Nat) (s : Service) :
    rowsOf (db.addService pid s) pid = rowsOf db pid ++ [(s.name,s.type,s.container)] := by
  simp [rowsOf,DB.addService,Serial.insert]

theorem importServices_spec (pid : Nat) (services : List Service) (db : DB) (n : Nat) :
    (services.foldl (importService pid) (db,n)).1.projects = db.projects ∧
      rowsOf (services.foldl (importService pid) (db,n)).1 pid = rowsOf db pid ++
        (missing ((rowsOf db pid).map Prod.fst) services).map fun s => (s.name,s.type,s.container) := by
  induction services generalizing db n with
  | nil => simp [missing]
  | cons s services ih =>
    rw [List.foldl_cons,importService,missing]
    by_cases hnamed : s.name ∈ (rowsOf db pid).map Prod.fst
    · rw [if_pos (named_iff.mpr hnamed),if_pos hnamed]
      exact ih db n
    · obtain ⟨hprojects,hrows⟩ := ih (db.addService pid s) (n + 1)
      rw [if_neg (fun h => hnamed (named_iff.mp h)),if_neg hnamed]
      refine ⟨hprojects,?_⟩
      rw [hrows,rowsOf_addService]
      simp

-- the rows an import leaves for a group that the scan shows
def Stored (db : DB) (g : Project) (x : DB × Except (Nat × Text) Imported) : Prop :=
  ∃ r, x.2 = .ok r ∧
    (g.registered = false → r.deploymentPath = g.deploymentPath ∧ r.composeFile = g.composeFile ∧
      x.1.projects.find r.id = some ⟨r.id,g.name,"main".toList,"production".toList,g.deploymentPath,
        g.composeFile,unknown⟩) ∧
    rowsOf x.1 r.id = rowsOf db r.id ++
      (missing ((rowsOf db r.id).map Prod.fst) g.services).map fun s => (s.name,s.type,s.container)

structure Agrees (db : DB) (f : Fleet) : Prop where
  found : ∀ g ∈ scanDocker db f, ∃ p, detect f g.name = .ok (some p) ∧
    p.deploymentPath = g.deploymentPath ∧ p.composeFile = g.composeFile ∧ p.services = g.services
  others : ∀ name, (∀ g ∈ scanDocker db f, g.name ≠ name) → detect f name = .ok none
  stored : ∀ g ∈ scanDocker db f, f.detectFS g.name = none → Stored db g (importProject db f g.name)

-- a container outside every compose project names no other place than the project's own first one
def Located (cs : List Container) : Prop :=
  ∀ c ∈ cs, placeOf Container.labelled (group c.key cs) = placeOf anywhere (group c.key cs)

theorem store_spec (db : DB) (name path file : Text) (services : List Service) :
    (db.project name = none → (store db name path file services).2.deploymentPath = path ∧
      (store db name path file services).2.composeFile = file ∧
      (store db name path file services).1.projects.find (store db name path file services).2.id =
        some ⟨(store db name path file services).2.id,name,"main".toList,"production".toList,path,file,unknown⟩) ∧
    rowsOf (store db name path file services).1 (store db name path file services).2.id =
      rowsOf db (store db name path file services).2.id ++
        (missing ((rowsOf db (store db name path file services).2.id).map Prod.fst) services).map
          fun s => (s.name,s.type,s.container) := by
  unfold store
  cases hproject : db.project name with
  | some r =>
    refine ⟨nofun,?_⟩
    obtain ⟨-,hrows⟩ := importServices_spec r.id services db 0
    dsimp only
    cases hfind : (services.foldl (importService r.id) (db,0)).1.projects.find r.id <;> exact hrows
  | none =>
    obtain ⟨hprojects,hrows⟩ :=
      importServices_spec db.projects.next services (db.addProject name path file) 0
    have hfind : (services.foldl (importService db.projects.next) (db.addProject name path file,0)).1.projects.find
        db.projects.next =
          some ⟨db.projects.next,name,"main".toList,"production".toList,path,file,unknown⟩ := by
      rw [hprojects]
      exact Serial.find_insert_self db.projects _ _
    dsimp only
    rw [hfind]
    exact ⟨fun _ => ⟨rfl,rfl,hfind⟩,hrows⟩

theorem plan_detected (hfs : f.detectFS name = none) (h : detect f name = .ok (some g)) :
    plan f name = .ok (g.deploymentPath,g.composeFile,g.services) := by
  rw [plan,hfs]
  dsimp only
  rw [h]

theorem import_stored (hplan : plan f g.name = .ok (g.deploymentPath,g.composeFile,g.services))
    (hregistered : g.registered = (db.project g.name).isSome) : Stored db g (importProject db f g.name) := by
  obtain ⟨hrow,hrows⟩ := store_spec db g.name g.deploymentPath g.composeFile g.services
  rw [importProject,hplan]
  refine ⟨_,rfl,fun hnew => hrow ?_,hrows⟩
  rw [hregistered] at hnew
  exact Option.isNone_iff_eq_none.mp (Option.isSome_eq_false_iff.mp hnew)

theorem group_ne_nil {c : Container} (h : c ∈ cs) : group c.key cs ≠ [] :=
  List.ne_nil_of_mem (List.mem_filter.mpr ⟨h,by simp⟩)

theorem key_of_group (h : group name cs ≠ []) : ∃ c ∈ cs, c.key = name := by
  obtain ⟨c,hc⟩ := List.exists_mem_of_ne_nil _ h
  obtain ⟨hmem,hkey⟩ := List.mem_filter.mp hc
  exact ⟨c,hmem,by simpa using hkey⟩

theorem scan_agrees_iff (db : DB) (fs : Text → Option (Text × Text)) (readFile : Text → Option Text)
    (cs : List Container) : Agrees db ⟨.ok cs,fs,readFile⟩ ↔ Located cs := by
  have hscan {g : Project} : g ∈ scanDocker db ⟨.ok cs,fs,readFile⟩ ↔ ∃ name, group name cs ≠ [] ∧
      g = { gathered Container.labelled name (group name cs) with
        registered := (db.project name).isSome } := mem_scanDocker rfl
  have hdetect := detect_eq (f := ⟨.ok cs,fs,readFile⟩) rfl
  constructor
  · intro h c hc
    have hne := group_ne_nil hc
    obtain ⟨p,hp,hpath,hfile,-⟩ := h.found _ (hscan.mpr ⟨c.key,hne,rfl⟩)
    have hfound := hdetect c.key
    rw [if_neg hne] at hfound
    obtain rfl := Option.some.inj (Except.ok.inj (hfound.symm.trans hp))
    exact Prod.ext hpath.symm hfile.symm
  · intro hlocated
    have hfound {name : Text} (hne : group name cs ≠ []) :
        detect ⟨.ok cs,fs,readFile⟩ name = .ok (some (gathered Container.labelled name (group name cs))) := by
      obtain ⟨c,hc,rfl⟩ := key_of_group hne
      rw [hdetect,if_neg hne,gathered,gathered,hlocated c hc]
    refine ⟨?_,?_,?_⟩
    · intro g hg
      obtain ⟨name,hne,rfl⟩ := hscan.mp hg
      exact ⟨_,hfound hne,rfl,rfl,rfl⟩
    · intro name hother
      rw [hdetect]
      refine congrArg _ (if_pos ?_)
      by_contra hne
      exact hother _ (hscan.mpr ⟨name,hne,rfl⟩) rfl
    · intro g hg hfs
      obtain ⟨name,hne,rfl⟩ := hscan.mp hg
      have hplan : plan ⟨.ok cs,fs,readFile⟩ name = .ok ((placeOf Container.labelled (group name cs)).1,
          (placeOf Container.labelled (group name cs)).2,(group name cs).map Container.listed) :=
        plan_detected hfs (hfound hne)
      exact import_stored hplan rfl

def stray : Container :=
  ⟨[['/','w']],[],[],[("com.docker.compose.project.working_dir".toList,['/','s'])]⟩

theorem stray_container_moves : ¬∀ (db : DB) (fs : Text → Option (Text × Text))
    (readFile : Text → Option Text) (cs : List Container), Agrees db ⟨.ok cs,fs,readFile⟩ := by
  intro h
  have hagrees := h ⟨Serial.empty,Serial.empty⟩ (fun _ => none) (fun _ => none) [stray]
  have hscan : (⟨['w'],[],defaultFile,false,[stray.listed]⟩ : Project) ∈
      scanDocker ⟨Serial.empty,Serial.empty⟩ ⟨.ok [stray],fun _ => none,fun _ => none⟩ := by
    decide +kernel
  obtain ⟨p,hp,hpath,-,-⟩ := hagrees.found _ hscan
  have hdetect : detect ⟨.ok [stray],fun _ => none,fun _ => none⟩ ['w'] =
      .ok (some ⟨['w'],['/','s'],defaultFile,false,[stray.listed]⟩) := rfl
  obtain rfl := Option.some.inj (Except.ok.inj (hdetect.symm.trans hp))
  cases hpath

end Scans

end Discovery
