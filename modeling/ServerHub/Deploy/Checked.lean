import ServerHub.Deploy.Requests
import ServerHub.Interleave.Precondition

namespace Deploy

open Posix Interleave Interleave.Prog

-- what docker compose looks for in its working directory, in this order
def composeNames : List Text :=
  ["compose.yaml".toList,"compose.yml".toList,"docker-compose.yaml".toList,composeDefault]

namespace Host

variable (h : Host)

def real (p : Text) : Option Place :=
  (h.tree.walk FileTree.osLinkLimit [] (segments p)).toOption

def SameFile (p q : Text) : Prop := ∃ x, h.real p = some x ∧ h.real q = some x

def Confined (roots : List Text) (p : Text) : Prop :=
  ∃ x, h.real p = some x ∧ withinRoots (absText x) roots = true

def loads (dir : Text) : Option Text :=
  (composeNames.map (joinPath dir)).find? fun p => (h.stat p).isSome

def Scannable (p : Text) : Prop :=
  (∃ size, h.stat p = some size ∧ size ≤ maxComposeBytes) ∧ (h.tree.read p).isSome = true

def resolvedDir (path : Text) (roots : List Text) : Except Text Text :=
  match validateWrite path roots with
  | .error e => .error e
  | .ok cleaned =>
  if cleaned = [] then .error "no deployment_path configured".toList
  else
  match h.evalSymlinks cleaned with
  | .error (.notExist,_) => .ok cleaned
  | .error (_,e) => .error ("cannot resolve deployment_path: ".toList ++ e)
  | .ok resolved =>
  if roots ≠ [] ∧ withinRoots (clean resolved) roots = false then
    .error "deployment_path escapes the allowed deployment roots (symlink)".toList
  else .ok (clean resolved)

-- nothing changes during a call: the tree and the projects answer the same all along
def Gives (projects : List Project) : {β : Type} → DeployCall β → β → Prop
  | _, .project id, b => b = projects.find? fun q => q.id = id
  | _, .evalSymlinks p, b => b = h.evalSymlinks p
  | _, .stat p, b => b = h.stat p
  | _, .scan p roots, b => b = checkComposeRefs h p roots
  | _, _, _ => True

end Host

-- the file whose existence was checked last and the file that was scanned last
structure Checked where
  statted : Option Text
  scanned : Option Text

def Checked.note (c : Checked) : {β : Type} → DeployCall β → β → Checked
  | _, .stat p, some _ => { c with statted := some p }
  | _, .scan p _, .ok _ => { c with scanned := some p }
  | _, _, _ => c

def LoadsChecked (h : Host) (roots : List Text) (dir : Text) (c : Checked) : Prop :=
  ∀ f, h.loads dir = some f →
    (∃ p, c.statted = some p ∧ h.SameFile p f) ∧ (∃ p, c.scanned = some p ∧ h.SameFile p f) ∧
      (roots ≠ [] → h.Confined roots f)

def atCommand (h : Host) (roots : List Text) (c : Checked) : {β : Type} → DeployCall β → Prop
  | _, .command dir _ _ => LoadsChecked h roots dir c
  | _, _ => True

def watcher (h : Host) (projects : List Project) (roots : List Text) :
    Observer DeployCall Checked where
  Answers := h.Gives projects
  Allowed := atCommand h roots
  note := Checked.note

-- each docker compose of the call loads the file that this call has checked and scanned
def RunsChecked (h : Host) (projects : List Project) (roots : List Text) {α : Type}
    (p : Pipeline α) : Prop :=
  (watcher h projects roots).wp p (fun _ _ => True) ⟨none,none⟩

def deployFile (h : Host) (dir declared : Text) : Option Text :=
  if validateComposeFile declared = .ok () ∧ (h.stat (joinPath dir declared)).isSome then some declared
  else none

def lifecycleFile (h : Host) (dir declared : Text) : Option Text :=
  if (h.stat (joinPath dir composeDefault)).isSome then some composeDefault
  else deployFile h dir (if declared = [] then composeDefault else declared)

def Agrees (h : Host) (roots : List Text) (dir name : Text) : Prop :=
  ∀ f, h.loads dir = some f → h.SameFile (joinPath dir name) f ∧
    (roots ≠ [] → h.Scannable (joinPath dir name) ∧ h.Confined roots f)

section Watched

variable {h : Host} {projects : List Project} {roots : List Text} {c : Checked} {α : Type}

def still : {β : Type} → DeployCall β → Prop
  | _, .command _ _ _ => False
  | _, .stat _ => False
  | _, .scan _ _ => False
  | _, _ => True

theorem quiet_still : (watcher h projects roots).Quiet still where
  allowed i hi c := by cases i <;> trivial
  unnoted i hi c b := by cases i <;> first | rfl | cases hi

theorem fail_still (job : Job) (logs : Text) : (fail job logs).Uses still :=
  ⟨trivial,fun _ => ⟨trivial,fun _ => trivial⟩⟩

theorem succeed_still (job : Job) (logs : Text) : (succeed job logs).Uses still :=
  ⟨trivial,fun _ => ⟨trivial,fun _ => trivial⟩⟩

theorem checkHealth_still (policy : ExecPolicy) (job : Job) (buf : Text) :
    (checkHealth policy job buf).Uses still := by
  refine ⟨trivial,fun _ => ?_⟩
  refine uses_ite (succeed_still job buf) ⟨trivial,fun b => ?_⟩
  obtain ⟨healthy,reason⟩ := b
  cases healthy
  · exact ⟨trivial,fun _ => fail_still job _⟩
  · exact succeed_still job _

theorem failUp_still (job : Job) (buf err : Text) : (failUp job buf err).Uses still :=
  ⟨trivial,fun _ => fail_still job _⟩

abbrev Loading (h : Host) (projects : List Project) (roots : List Text) (c : Checked)
    (p : Pipeline α) : Prop := (watcher h projects roots).wp p (fun _ _ => True) c

theorem loading_still {p : Pipeline α} (hp : p.Uses still) : Loading h projects roots c p :=
  quiet_still.wp hp fun _ => trivial

theorem loading_run {buf dir name : Text} {args : List Text}
    {f : Text × Option Text → Pipeline α} :
    Loading h projects roots c (run buf dir name args >>= f) ↔ LoadsChecked h roots dir c ∧
      ∀ out err, Loading h projects roots c
        (f (buf ++ "$ ".toList ++ name ++ [' '] ++ shownArgs args ++ ['\n'] ++ out,err)) := by
  refine and_congr_right fun _ => ⟨fun hf out err => hf (out,err) trivial,fun hf b _ => ?_⟩
  exact hf b.1 b.2

theorem loading_startServices (policy : ExecPolicy) (job : Job) (dir buf : Text) :
    Loading h projects roots c (startServices policy job dir buf) ↔ LoadsChecked h roots dir c := by
  refine ⟨fun hs => (loading_run.mp (hs.2 () trivial)).1,fun hd => ⟨trivial,fun _ _ => ?_⟩⟩
  refine loading_run.mpr ⟨hd,fun out err => ?_⟩
  cases err with
  | none => exact loading_still (checkHealth_still policy job _)
  | some err =>
    refine loading_run.mpr ⟨hd,fun out' err' => ?_⟩
    cases err' with
    | some _ => exact loading_still (failUp_still job _ err)
    | none =>
      refine loading_run.mpr ⟨hd,fun out'' err'' => ?_⟩
      cases err'' with
      | some _ => exact loading_still (failUp_still job _ err)
      | none => exact loading_still (checkHealth_still policy job _)

theorem loading_pullImages (policy : ExecPolicy) (job : Job) (dir buf : Text) :
    Loading h projects roots c (pullImages policy job dir buf) ↔ LoadsChecked h roots dir c := by
  refine ⟨fun hs => (loading_run.mp (hs.2 () trivial)).1,fun hd => ⟨trivial,fun _ _ => ?_⟩⟩
  refine loading_run.mpr ⟨hd,fun out err => ?_⟩
  cases err with
  | none => exact (loading_startServices policy job dir _).mpr hd
  | some err => exact (loading_startServices policy job dir _).mpr hd

theorem wp_evalSymlinks {path : Text} {f : Except (Errno × Text) Text → Pipeline α}
    {Q : α → Checked → Prop} :
    (watcher h projects roots).wp (perform (.evalSymlinks path) >>= f) Q c ↔
      (watcher h projects roots).wp (f (h.evalSymlinks path)) Q c :=
  ⟨fun hw => hw.2 _ rfl,fun hw => ⟨trivial,fun _ hb => hb ▸ hw⟩⟩

theorem wp_stat {path : Text} {f : Option Nat → Pipeline α} {Q : α → Checked → Prop} :
    (watcher h projects roots).wp (perform (.stat path) >>= f) Q c ↔
      (watcher h projects roots).wp (f (h.stat path)) Q (c.note (.stat path) (h.stat path)) :=
  ⟨fun hw => hw.2 _ rfl,fun hw => ⟨trivial,fun _ hb => hb ▸ hw⟩⟩

theorem wp_scan {path : Text} {rs : List Text} {f : Except Text (List OutsideRef) → Pipeline α}
    {Q : α → Checked → Prop} :
    (watcher h projects roots).wp (perform (.scan path rs) >>= f) Q c ↔
      (watcher h projects roots).wp (f (checkComposeRefs h path rs)) Q
        (c.note (.scan path rs) (checkComposeRefs h path rs)) :=
  ⟨fun hw => hw.2 _ rfl,fun hw => ⟨trivial,fun _ hb => hb ▸ hw⟩⟩

theorem wp_resolveExec {path : Text} {rs : List Text} {Q : Except Text Text → Checked → Prop} :
    (watcher h projects roots).wp (resolveExec path rs) Q c ↔ Q (h.resolvedDir path rs) c := by
  unfold resolveExec Host.resolvedDir
  cases validateWrite path rs with
  | error e => exact Iff.rfl
  | ok cleaned =>
    dsimp only
    split_ifs with hempty
    · exact Iff.rfl
    · rw [wp_evalSymlinks]
      match h.evalSymlinks cleaned with
      | .error (.notExist,_) => exact Iff.rfl
      | .error (.notDir,_) => exact Iff.rfl
      | .error (.loop,_) => exact Iff.rfl
      | .ok resolved =>
        dsimp only
        split_ifs <;> exact Iff.rfl

variable (roots) in
theorem scan_ok_iff {p : Text} (hp : (h.stat p).isSome = true) :
    (∃ refs, checkComposeRefs h p roots = .ok refs) ↔ (roots ≠ [] → h.Scannable p) := by
  obtain ⟨size,hsize⟩ := Option.isSome_iff_exists.mp hp
  unfold checkComposeRefs Host.Scannable
  by_cases hr : roots = []
  · simp [hr]
  · simp only [hr,if_false,hsize,ne_eq,not_false_eq_true,true_implies,Option.some.injEq,
      exists_eq_left']
    by_cases hbig : size > maxComposeBytes
    · simp [hbig]
    · rw [if_neg hbig]
      cases h.tree.read p with
      | none => simp
      | some raw => cases hd : h.unmarshal raw <;> simp [not_lt.mp hbig,hd]

theorem loadsChecked_scanned {dir p : Text} (hp : (h.stat p).isSome = true) :
    LoadsChecked h roots dir
        (Checked.note ⟨some p,none⟩ (.scan p roots) (checkComposeRefs h p roots)) ↔
      ∀ f, h.loads dir = some f → h.SameFile p f ∧
        (roots ≠ [] → h.Scannable p ∧ h.Confined roots f) := by
  refine forall₂_congr fun f _ => ?_
  have hscan := scan_ok_iff roots hp
  cases hs : checkComposeRefs h p roots with
  | ok refs =>
    have hsc := hscan.mp ⟨refs,hs⟩
    simp only [Checked.note,Option.some.injEq,exists_eq_left']
    constructor
    · rintro ⟨hf,-,hr⟩
      exact ⟨hf,fun hne => ⟨hsc hne,hr hne⟩⟩
    · rintro ⟨hf,hr⟩
      exact ⟨hf,hf,fun hne => (hr hne).2⟩
  | error e =>
    have hno : ¬ (roots ≠ [] → h.Scannable p) := by
      rw [← hscan]
      rintro ⟨refs,hok⟩
      cases hs.symm.trans hok
    simp only [Checked.note,reduceCtorEq,false_and,exists_false,and_false,false_iff]
    exact fun ⟨_,hr⟩ => hno fun hne => (hr hne).1

theorem loading_warn {p dir : Text} {f : Text → Pipeline α}
    (hf : ∀ buf c, Loading h projects roots c (f buf) ↔ LoadsChecked h roots dir c) :
    Loading h projects roots c (warnComposeRefs p roots >>= f) ↔
      LoadsChecked h roots dir (c.note (.scan p roots) (checkComposeRefs h p roots)) := by
  rw [Loading,Observer.wp_bind,warnComposeRefs,wp_scan]
  cases checkComposeRefs h p roots with
  | error e => exact hf _ _
  | ok refs =>
    dsimp only
    split_ifs <;> exact hf _ _

theorem loading_scanLog {p dir : Text} {f : Text → Pipeline α}
    (hf : ∀ buf c, Loading h projects roots c (f buf) ↔ LoadsChecked h roots dir c) :
    Loading h projects roots c (scanLog p roots >>= f) ↔
      LoadsChecked h roots dir (c.note (.scan p roots) (checkComposeRefs h p roots)) := by
  rw [Loading,Observer.wp_bind,scanLog,wp_scan]
  cases checkComposeRefs h p roots with
  | error e => exact hf _ _
  | ok refs => exact hf _ _

theorem loading_checkURL {url : Text} {f : Option Text → Pipeline α} (T : Prop)
    (hf : ∀ e, Loading h projects roots c (f (some e)))
    (hn : Loading h projects roots c (f none) ↔ T) :
    Loading h projects roots c (checkURL url >>= f) ↔ T := by
  unfold checkURL
  split_ifs with hu
  · exact hn
  · constructor
    · exact fun hw => hn.mp (hw.2 none trivial)
    · intro ht
      refine ⟨trivial,fun b _ => ?_⟩
      cases b with
      | none => exact hn.mpr ht
      | some e => exact hf e

theorem loading_quiet {β : Type} {i : DeployCall β} (hi : still i) {f : β → Pipeline α} :
    Loading h projects roots c (perform i >>= f) ↔
      ∀ b, h.Gives projects i b → Loading h projects roots c (f b) := by
  rw [Loading,Observer.wp_perform_bind]
  refine ⟨fun hw b hb => ?_,fun hw => ⟨quiet_still.allowed i hi c,fun b hb => ?_⟩⟩
  · have := hw.2 b hb
    rwa [quiet_still.unnoted i hi c b] at this
  · rw [quiet_still.unnoted i hi c b]
    exact hw b hb

theorem loading_fail {job : Job} {e : Text} : Loading h projects roots c (fail job e) ↔ True :=
  iff_true_intro (loading_still (fail_still job e))

theorem deployFile_eq_some {dir declared name : Text} :
    deployFile h dir declared = some name ↔
      validateComposeFile declared = .ok () ∧ (h.stat (joinPath dir declared)).isSome = true ∧
        name = declared := by
  unfold deployFile
  split_ifs with hd
  · simp [hd,eq_comm]
  · simp only [false_iff]
    exact fun hn => hd ⟨hn.1,hn.2.1⟩

theorem executeDeploy_checked (policy : ExecPolicy) (job : Job) :
    RunsChecked h projects policy.roots (executeDeploy policy job) ↔
      ∀ dir, h.resolvedDir job.project.deploymentPath policy.roots = .ok dir →
        ∀ name, deployFile h dir job.project.composeFile = some name →
          Agrees h policy.roots dir name := by
  unfold executeDeploy
  refine (loading_quiet (show still (.startOp job.opID) from trivial)).trans ?_
  refine Iff.trans ⟨fun hw => hw () trivial,fun hw _ _ => hw⟩ ?_
  rw [Loading,Observer.wp_bind,wp_resolveExec]
  cases h.resolvedDir job.project.deploymentPath policy.roots with
  | error e => exact loading_fail.trans (by simp)
  | ok dir =>
    simp only [deployFile_eq_some,Except.ok.injEq,forall_eq']
    cases hv : validateComposeFile job.project.composeFile with
    | error e => exact loading_fail.trans (by simp)
    | ok u =>
      refine loading_checkURL _ (fun e => loading_still (fail_still job _)) ?_
      dsimp only
      rw [Loading,wp_stat]
      cases hs : h.stat (joinPath dir job.project.composeFile) with
      | none => exact loading_fail.trans (by simp)
      | some size =>
        simp only [Option.isSome_some,true_and,forall_eq]
        refine (loading_warn fun buf c => loading_pullImages policy job dir buf).trans ?_
        exact loadsChecked_scanned (by rw [hs]; rfl)

theorem lifecycleFile_found {dir declared name : Text}
    (hn : lifecycleFile h dir declared = some name) :
    (h.stat (joinPath dir name)).isSome = true := by
  unfold lifecycleFile at hn
  split at hn
  · rename_i hd
    exact Option.some.inj hn ▸ hd
  · obtain ⟨-,hs,rfl⟩ := deployFile_eq_some.mp hn
    exact hs

theorem wp_project {pid : Int} {p : Project} (hp : projects.find? (fun q => q.id = pid) = some p)
    {f : Option Project → Pipeline α} {Q : α → Checked → Prop} :
    (watcher h projects roots).wp (perform (.project pid) >>= f) Q c ↔
      (watcher h projects roots).wp (f (some p)) Q c :=
  ⟨fun hw => hw.2 _ hp.symm,fun hw => ⟨trivial,fun _ hb => hb.trans hp ▸ hw⟩⟩

theorem wp_effectiveCompose {pid : Int} {p : Project} {dir : Text}
    (hp : projects.find? (fun q => q.id = pid) = some p)
    {Q : Except LifecycleReply Text → Checked → Prop} (hQ : ∀ reply c, Q (.error reply) c) :
    (watcher h projects roots).wp (effectiveCompose pid dir) Q ⟨none,none⟩ ↔
      ∀ name, lifecycleFile h dir p.composeFile = some name →
        Q (.ok name) ⟨some (joinPath dir name),none⟩ := by
  unfold effectiveCompose lifecycleFile
  rw [wp_stat]
  cases hs : h.stat (joinPath dir composeDefault) with
  | some size =>
    simp only [Option.isSome_some,if_true,Option.some.injEq,forall_eq']
    exact Iff.rfl
  | none =>
    dsimp only
    rw [wp_project hp]
    simp only [Option.isSome_none,Bool.false_eq_true,if_false,deployFile_eq_some]
    cases hv : validateComposeFile (if p.composeFile = [] then composeDefault else p.composeFile) with
    | error e => simp [hQ]
    | ok u =>
      dsimp only
      rw [wp_stat]
      cases hd : h.stat (joinPath dir (if p.composeFile = [] then composeDefault else p.composeFile)) with
      | none => simp [hQ]
      | some size => simp [Checked.note]

theorem runCompose_checked (name action dir opID buf : Text) (args : List Text) :
    Loading h projects roots c (runCompose name action dir opID buf args) ↔
      LoadsChecked h roots dir c := by
  refine ⟨fun hw => ((hw.2 () trivial).2 () trivial).1,fun hd => ?_⟩
  refine ⟨trivial,fun _ _ => ⟨trivial,fun _ _ => ⟨hd,fun b _ => ?_⟩⟩⟩
  obtain ⟨out,err⟩ := b
  cases err with
  | none => exact ⟨trivial,fun _ _ => trivial⟩
  | some _ =>
    refine ⟨hd,fun b _ => ?_⟩
    obtain ⟨more,err⟩ := b
    cases err with
    | none => exact ⟨trivial,fun _ _ => trivial⟩
    | some _ => exact ⟨trivial,fun _ _ => ⟨trivial,fun _ _ => trivial⟩⟩

theorem runOne_checked {pid : Int} (actor action : Text) (args : List Text) :
    RunsChecked h projects roots (runOne roots actor pid action args) ↔
      ∀ p, projects.find? (fun q => q.id = pid) = some p →
        ∀ dir, h.resolvedDir p.deploymentPath roots = .ok dir →
          ∀ name, lifecycleFile h dir p.composeFile = some name → Agrees h roots dir name := by
  unfold runOne RunsChecked
  cases hp : projects.find? (fun q => q.id = pid) with
  | none =>
    refine iff_of_true ⟨trivial,fun b hb => ?_⟩ (by simp)
    obtain rfl : b = none := hb.trans hp
    trivial
  | some p =>
    rw [wp_project hp]
    dsimp only
    rw [Observer.wp_bind,wp_resolveExec]
    cases hr : h.resolvedDir p.deploymentPath roots with
    | error e =>
      refine iff_of_true trivial ?_
      rintro _ ⟨⟩ dir hdir
      cases hr.symm.trans hdir
    | ok dir =>
      dsimp only
      rw [Observer.wp_bind,wp_effectiveCompose hp (fun _ _ => trivial)]
      simp only [Option.some.injEq,forall_eq',hr,Except.ok.injEq]
      refine forall₂_congr fun name hname => ?_
      refine (loading_scanLog fun buf c => ?_).trans
        (loadsChecked_scanned (lifecycleFile_found hname))
      refine Iff.trans (loading_quiet (by trivial)) ?_
      refine ⟨fun hw => (runCompose_checked _ _ _ _ _ _).mp (hw (some []) trivial),fun hd b _ => ?_⟩
      cases b with
      | none => trivial
      | some opID => exact (runCompose_checked _ _ _ _ _ _).mpr hd

end Watched

theorem compose_checked_iff (h : Host) (projects : List Project) :
    (∀ policy job, RunsChecked h projects policy.roots (executeDeploy policy job) ↔
      ∀ dir, h.resolvedDir job.project.deploymentPath policy.roots = .ok dir →
        ∀ name, deployFile h dir job.project.composeFile = some name →
          Agrees h policy.roots dir name) ∧
    (∀ roots actor pid action args,
      RunsChecked h projects roots (runOne roots actor pid action args) ↔
        ∀ p, projects.find? (fun q => q.id = pid) = some p →
          ∀ dir, h.resolvedDir p.deploymentPath roots = .ok dir →
            ∀ name, lifecycleFile h dir p.composeFile = some name → Agrees h roots dir name) :=
  ⟨executeDeploy_checked,fun _ actor _ action args => runOne_checked actor action args⟩

section Sample

def twoFiles : Host where
  tree :=
    { nodes := [(["srv".toList],.dir),(["srv".toList,"web".toList],.dir),
        (["srv".toList,"web".toList,"compose.yaml".toList],.file [35]),
        (["srv".toList,"web".toList,"docker-compose.yml".toList],.file [])]
      rooted := by decide }
  unmarshal _ := none
  resolveError _ := "no such file".toList
  statError _ := "no such file".toList
  readError _ := "no such file".toList
  urlError _ := none
  command _ _ _ := ([],none)
  health _ _ := (true,[])

def webProject : Project where
  id := 1
  name := "web".toList
  repository := []
  branch := "main".toList
  deploymentPath := "/srv/web".toList
  composeFile := "docker-compose.yml".toList
  healthURL := []
  autoDeploy := true

def webJob : Job := ⟨"op_1".toList,1,webProject,"admin".toList,[]⟩

theorem twoFiles_disagree :
    ¬ Agrees twoFiles ["/srv".toList] "/srv/web".toList "docker-compose.yml".toList := by
  intro ha
  obtain ⟨⟨x,hx,hy⟩,-⟩ := ha "/srv/web/compose.yaml".toList rfl
  have hx' : some x = some ["srv".toList,"web".toList,"docker-compose.yml".toList] := hx.symm.trans rfl
  have hy' : some x = some ["srv".toList,"web".toList,"compose.yaml".toList] := hy.symm.trans rfl
  exact absurd (hx'.symm.trans hy') (by decide)

theorem twoFiles_dir :
    twoFiles.resolvedDir "/srv/web".toList ["/srv".toList] = .ok "/srv/web".toList := rfl

theorem compose_yaml_runs_unchecked :
    ¬ RunsChecked twoFiles [webProject] ["/srv".toList]
        (executeDeploy ⟨["/srv".toList],false⟩ webJob) ∧
      ¬ RunsChecked twoFiles [webProject] ["/srv".toList]
        (runOne ["/srv".toList] "admin".toList 1 "start".toList upArgs) := by
  constructor
  · intro hall
    have hdeploy := (executeDeploy_checked ⟨["/srv".toList],false⟩ webJob).mp hall
    exact twoFiles_disagree (hdeploy "/srv/web".toList twoFiles_dir "docker-compose.yml".toList rfl)
  · intro hall
    have hstart := (runOne_checked "admin".toList "start".toList upArgs).mp hall
    exact twoFiles_disagree (hstart webProject rfl "/srv/web".toList twoFiles_dir
      "docker-compose.yml".toList rfl)

end Sample

end Deploy
