import ServerHub.Deploy.Journal
import ServerHub.Deploy.Repository

namespace Deploy

open Posix Interleave Interleave.Prog Interleave.Ledger

abbrev journaled (srv : Server) (host : Nat → Host) (fails : Nat → Bool) : System :=
  (deployments srv host fails).observe note

section Condition

variable (fails : Nat → Bool) (pushes : Nat → Prop)

-- a failing insert hits neither the row of a project that a push deploys nor the operation of a
-- Deploy or Rollback
def InsertsKept (pid : Nat) (x : Traced Records Note) {β : Type} (i : DeployCall β) : Prop :=
  fails x.state.inserts = true → match i with
    | .insertDeployment d => pushes pid → d.status ≠ .running
    | .createOp _ => pushes pid
    | _ => True

def bookkeeping (srv : Server) (host : Nat → Host) (first : Nat) :
    Ledger (deployments srv host fails) note where
  Inv := Books first
  Allow := InsertsKept fails pushes
  Duty _ _ _ _ := True

end Condition

section Tells

variable {srv : Server} {host : Nat → Host} {fails : Nat → Bool} {pushes : Nat → Prop}
  {first pid : Nat} {α β : Type} {J : List Note → Prop}

abbrev Keeps (srv : Server) (host : Nat → Host) (fails : Nat → Bool) (pushes : Nat → Prop)
    (first pid : Nat) (J : List Note → Prop) (p : Pipeline α) (Q : α → List Note → Prop) : Prop :=
  (bookkeeping fails pushes srv host first).Tells pid J p Q

def unlogged : {β : Type} → DeployCall β → Prop
  | _, .insertDeployment _ => False
  | _, .finishDeployment _ _ _ => False
  | _, .spawn _ => False
  | _, .take => False
  | _, _ => True

theorem exec_unlogged {i : DeployCall β} (hi : unlogged i) {s t : Records} {b : β}
    (h : exec host fails pid i s = some (t,b)) :
    t.deployments = s.deployments ∧ t.nextDeployment = s.nextDeployment ∧ t.jobs = s.jobs ∧
      note β i s b = none := by
  cases i <;> simp only [unlogged] at hi
  all_goals simp only [exec] at h
  all_goals try split at h
  all_goals
    obtain ⟨rfl,rfl⟩ := Prod.mk.inj (Option.some.inj h)
    exact ⟨rfl,rfl,rfl,rfl⟩

theorem keeps_unlogged {i : DeployCall β} (hi : unlogged i) :
    Keeps srv host fails pushes first pid J (perform i) fun _ => J := by
  refine tells_perform fun x t b hx hJ _ hexec => ?_
  obtain ⟨hd,hn,hj,hnote⟩ := exec_unlogged hi hexec
  have hnote' : note β i x.state b = none := hnote
  rw [hnote']
  exact ⟨trivial,hx.still hd hn hj,hJ⟩

theorem keeps_uses {p : Pipeline α} (hp : p.Uses unlogged) :
    Keeps srv host fails pushes first pid J p fun _ => J := by
  induction p with
  | ret a => exact tells_ret fun _ h => h
  | step i k ih => exact tells_bind (keeps_unlogged hp.1) fun b => ih b (hp.2 b)

section Execute

variable {creator : Nat} {job : Job}

def Took (creator : Nat) (job : Job) (ns : List Note) : Prop := ns = [.took creator job]

def Ended (creator : Nat) (job : Job) (o : Outcome) (ns : List Note) : Prop :=
  ns = [.closed job.deployID o.status,.took creator job]

theorem keeps_finish (o : Outcome) (logs : Text) :
    Keeps srv host fails pushes first pid (Took creator job)
      (perform (.finishDeployment job.deployID o.status logs)) fun _ => Ended creator job o := by
  refine tells_perform fun x t b hx hJ _ hexec => ?_
  obtain ⟨rfl,-⟩ := Prod.mk.inj (Option.some.inj hexec)
  have hheld : job.deployID ∈ hands pid x.log := by
    rw [hands,show notesOf pid x.log = _ from hJ]
    exact List.mem_cons_self
  refine ⟨trivial,hx.finish hheld (by cases o <;> decide),?_⟩
  show [Note.closed _ _] ++ notesOf pid x.log = _
  rw [show notesOf pid x.log = _ from hJ]
  rfl

theorem keeps_fail (logs : Text) :
    Keeps srv host fails pushes first pid (Took creator job) (fail job logs) (Ended creator job) := by
  refine tells_bind (keeps_finish .failed logs) fun _ => ?_
  exact tells_bind (keeps_unlogged trivial) fun _ => tells_ret fun _ h => h

theorem keeps_succeed (logs : Text) :
    Keeps srv host fails pushes first pid (Took creator job) (succeed job logs)
      (Ended creator job) := by
  refine tells_bind (keeps_finish .success logs) fun _ => ?_
  exact tells_bind (keeps_unlogged trivial) fun _ => tells_ret fun _ h => h

theorem keeps_checkHealth (policy : ExecPolicy) (buf : Text) :
    Keeps srv host fails pushes first pid (Took creator job) (checkHealth policy job buf)
      (Ended creator job) := by
  refine tells_bind (keeps_unlogged trivial) fun _ => ?_
  split
  · exact keeps_succeed buf
  · refine tells_bind (keeps_unlogged trivial) fun b => ?_
    obtain ⟨healthy,reason⟩ := b
    cases healthy with
    | true => exact keeps_succeed _
    | false => exact tells_bind (keeps_unlogged trivial) fun _ => keeps_fail _

theorem keeps_failUp (buf err : Text) :
    Keeps srv host fails pushes first pid (Took creator job) (failUp job buf err)
      (Ended creator job) :=
  tells_bind (keeps_unlogged trivial) fun _ => keeps_fail _

theorem run_unlogged (buf dir name : Text) (args : List Text) :
    (run buf dir name args).Uses unlogged := ⟨trivial,fun _ => trivial⟩

theorem keeps_startServices (policy : ExecPolicy) (dir buf : Text) :
    Keeps srv host fails pushes first pid (Took creator job) (startServices policy job dir buf)
      (Ended creator job) := by
  refine tells_bind (keeps_unlogged trivial) fun _ => ?_
  refine tells_bind (keeps_uses (run_unlogged _ _ _ _)) fun b => ?_
  obtain ⟨buf,err⟩ := b
  cases err with
  | none => exact keeps_checkHealth policy buf
  | some err =>
    refine tells_bind (keeps_uses (run_unlogged _ _ _ _)) fun b => ?_
    obtain ⟨buf,err'⟩ := b
    cases err' with
    | some _ => exact keeps_failUp buf err
    | none =>
      refine tells_bind (keeps_uses (run_unlogged _ _ _ _)) fun b => ?_
      obtain ⟨buf,err''⟩ := b
      cases err'' with
      | some _ => exact keeps_failUp buf err
      | none => exact keeps_checkHealth policy buf

theorem keeps_pullImages (policy : ExecPolicy) (dir buf : Text) :
    Keeps srv host fails pushes first pid (Took creator job) (pullImages policy job dir buf)
      (Ended creator job) := by
  refine tells_bind (keeps_unlogged trivial) fun _ => ?_
  refine tells_bind (keeps_uses (run_unlogged _ _ _ _)) fun b => ?_
  obtain ⟨buf,err⟩ := b
  cases err <;> exact keeps_startServices policy dir _

theorem resolveExec_unlogged (path : Text) (roots : List Text) :
    (resolveExec path roots).Uses unlogged := by
  unfold resolveExec
  cases validateWrite path roots with
  | error e => trivial
  | ok cleaned =>
    refine uses_ite trivial ⟨trivial,fun b => ?_⟩
    match b with
    | .error (.notExist,_) => trivial
    | .error (.notDir,_) => trivial
    | .error (.loop,_) => trivial
    | .ok resolved => exact uses_ite trivial trivial

theorem warnComposeRefs_unlogged (p : Text) (roots : List Text) :
    (warnComposeRefs p roots).Uses unlogged := by
  refine ⟨trivial,fun b => ?_⟩
  cases b with
  | error e => trivial
  | ok refs => exact uses_ite trivial trivial

theorem checkURL_unlogged (url : Text) : (checkURL url).Uses unlogged :=
  uses_ite trivial ⟨trivial,fun _ => trivial⟩

theorem keeps_executeDeploy (policy : ExecPolicy) :
    Keeps srv host fails pushes first pid (Took creator job) (executeDeploy policy job)
      (Ended creator job) := by
  refine tells_bind (keeps_unlogged trivial) fun _ => ?_
  refine tells_bind (keeps_uses (resolveExec_unlogged _ _)) fun r => ?_
  cases r with
  | error e => exact keeps_fail e
  | ok dir =>
    dsimp only
    cases validateComposeFile job.project.composeFile with
    | error e => exact keeps_fail e
    | ok _ =>
      refine tells_bind (keeps_uses (checkURL_unlogged _)) fun e => ?_
      cases e with
      | some e => exact keeps_fail _
      | none =>
        refine tells_bind (keeps_unlogged trivial) fun found => ?_
        cases found with
        | none => exact keeps_fail _
        | some _ =>
          refine tells_bind (keeps_uses (warnComposeRefs_unlogged _ _)) fun buf => ?_
          exact keeps_pullImages policy dir buf

theorem keeps_take :
    Keeps srv host fails pushes first pid (· = []) (perform .take) fun b => Took b.1 b.2 := by
  refine tells_perform fun x t b hx hJ _ hexec => ?_
  have hexec : exec host fails pid .take x.state = some (t,b) := hexec
  simp only [exec] at hexec
  split at hexec
  · cases hexec
  · rename_i job rest hjobs
    obtain ⟨rfl,rfl⟩ := Prod.mk.inj (Option.some.inj hexec)
    refine ⟨trivial,hx.take hjobs,?_⟩
    show [Note.took _ _] ++ notesOf pid x.log = _
    rw [show notesOf pid x.log = [] from hJ]
    rfl

theorem keeps_pipeline (policy : ExecPolicy) :
    Keeps srv host fails pushes first pid (· = []) (pipeline policy) fun a ns =>
      ∃ creator job o, a = .outcome creator job o ∧ Ended creator job o ns := by
  refine tells_bind keeps_take fun b => ?_
  obtain ⟨creator,job⟩ := b
  refine tells_bind (keeps_executeDeploy policy) fun o => ?_
  exact tells_ret fun ns h => ⟨creator,job,o,rfl,h⟩

end Execute

section Handlers

def Clean (ns : List Note) : Prop := holds ns = [] ∧ ∀ creator job, .took creator job ∉ ns

def Has (id : Nat) (ns : List Note) : Prop :=
  holds ns = [id] ∧ .opened id ∈ ns ∧ ∀ creator job, .took creator job ∉ ns

theorem Clean.opened {ns : List Note} (h : Clean ns) (id : Nat) : Has id (.opened id :: ns) := by
  refine ⟨?_,List.mem_cons_self,?_⟩
  · simp [holds,h.1,Note.grants]
  · simpa using h.2

theorem Has.handed {ns : List Note} {id : Nat} (h : Has id ns) : Clean (.handed id :: ns) := by
  refine ⟨?_,?_⟩
  · simp [holds,h.1,Note.grants,Note.releases]
  · simpa using h.2.2

theorem keeps_insert (d : NewDeployment) :
    Keeps srv host fails pushes first pid Clean (perform (.insertDeployment d)) fun b ns =>
      match b with
      | none => Clean ns ∧ (pushes pid → d.status ≠ .running)
      | some id => if d.status = .running then Has id ns else Clean ns := by
  refine tells_perform fun x t b hx hJ hallow hexec => ?_
  have hexec : exec host fails pid (.insertDeployment d) x.state = some (t,b) := hexec
  simp only [exec] at hexec
  split at hexec
  · rename_i hfail
    obtain ⟨rfl,rfl⟩ := Prod.mk.inj (Option.some.inj hexec)
    exact ⟨trivial,hx.still rfl rfl rfl,hJ,hallow hfail⟩
  · obtain ⟨rfl,rfl⟩ := Prod.mk.inj (Option.some.inj hexec)
    refine ⟨trivial,?_,?_⟩
    · exact (hx.addDeployment pid d).still rfl rfl rfl
    · show if d.status = .running then Has _ ((if d.status = .running then _ else _ : Option Note).toList ++ _)
        else Clean ((if d.status = .running then _ else _ : Option Note).toList ++ _)
      split_ifs with hr
      · exact hJ.opened _
      · exact hJ

theorem keeps_spawn {job : Job} {id : Nat} (hid : job.deployID = id) :
    Keeps srv host fails pushes first pid (Has id) (perform (.spawn job)) fun _ => Clean := by
  subst hid
  refine tells_perform fun x t b hx hJ _ hexec => ?_
  obtain ⟨rfl,-⟩ := Prod.mk.inj (Option.some.inj hexec)
  refine ⟨trivial,hx.spawn ?_ (mem_notesOf.mp hJ.2.1) fun c j hm => hJ.2.2 c j (mem_notesOf.mpr hm),
    hJ.handed⟩
  rw [hands,hJ.1]
  exact List.mem_singleton_self _

theorem keeps_createOp {n : NewOperation} (hpush : ¬ pushes pid) :
    Keeps srv host fails pushes first pid J (perform (.createOp n)) fun b ns =>
      b.isSome = true ∧ J ns := by
  refine tells_perform fun x t b hx hJ hallow hexec => ?_
  have hexec : exec host fails pid (.createOp n) x.state = some (t,b) := hexec
  simp only [exec] at hexec
  split at hexec
  · rename_i hfail
    exact absurd (hallow hfail) hpush
  · obtain ⟨rfl,rfl⟩ := Prod.mk.inj (Option.some.inj hexec)
    exact ⟨trivial,hx.still rfl rfl rfl,rfl,hJ⟩

theorem keeps_track (hpush : ¬ pushes pid) {type : Text} {q : Project} {actor commit text : Text}
    {id : Nat} :
    Keeps srv host fails pushes first pid (Has id) (track type q actor commit id text)
      fun _ => Clean := by
  refine tells_bind (keeps_createOp hpush) fun b => ?_
  cases b with
  | none => exact tells_ret fun _ h => nomatch h.1
  | some opID =>
    refine tells_bind (tells_mono (fun _ h => h.2) (fun _ _ h => h) (keeps_spawn rfl)) fun _ => ?_
    exact tells_bind (keeps_unlogged trivial) fun _ => tells_ret fun _ h => h

theorem keeps_opened {d : NewDeployment} (hr : d.status = .running) {γ : Type}
    {f : Option Nat → Pipeline γ} (hnone : Keeps srv host fails pushes first pid Clean (f none) fun _ => Clean)
    (hsome : ∀ id, Keeps srv host fails pushes first pid (Has id) (f (some id)) fun _ => Clean) :
    Keeps srv host fails pushes first pid Clean (perform (.insertDeployment d) >>= f)
      fun _ => Clean := by
  refine tells_bind (keeps_insert d) fun b => ?_
  cases b with
  | none => exact tells_mono (fun _ h => h.1) (fun _ _ h => h) hnone
  | some id => exact tells_mono (fun _ h => by simpa [hr] using h) (fun _ _ h => h) (hsome id)

theorem keeps_deploy (hpush : ¬ pushes pid) (lib : Library) (actor param : Text) (body : DeployBody) :
    Keeps srv host fails pushes first pid Clean (deploy lib actor param body) fun _ => Clean := by
  unfold deploy
  cases lib.parseInt param with
  | none => exact tells_ret fun _ h => h
  | some id =>
    refine tells_bind (keeps_unlogged trivial) fun found => ?_
    cases found with
    | none => exact tells_ret fun _ h => h
    | some q => exact keeps_opened rfl (tells_ret fun _ h => h) fun _ => keeps_track hpush

theorem keeps_rollback (hpush : ¬ pushes pid) (lib : Library)
    (actor param depParam insertError : Text) :
    Keeps srv host fails pushes first pid Clean (rollback lib actor param depParam insertError)
      fun _ => Clean := by
  unfold rollback
  cases lib.parseInt param with
  | none => exact tells_ret fun _ h => h
  | some id =>
    cases lib.parseInt depParam with
    | none => exact tells_ret fun _ h => h
    | some depID =>
      refine tells_bind (keeps_unlogged trivial) fun found => ?_
      cases found with
      | none => exact tells_ret fun _ h => h
      | some row => exact keeps_opened rfl (tells_ret fun _ h => h) fun _ => keeps_track hpush

theorem keeps_deployMatched (hpush : pushes pid) (p : PushPayload) (q : Project) :
    Keeps srv host fails pushes first pid Clean (deployMatched p q) fun _ => Clean := by
  unfold deployMatched
  split
  · refine tells_bind (keeps_insert _) fun b => ?_
    cases b with
    | none => exact fun x hx hJ => absurd rfl (hJ.2 hpush)
    | some id =>
      refine tells_bind (Q := fun _ => Has id) ?_ fun op => ?_
      · exact tells_mono (fun _ h => h) (fun _ _ h => h) (keeps_unlogged trivial)
      · exact tells_bind (keeps_spawn rfl) fun _ => tells_ret fun _ h => h
  · refine tells_bind (keeps_insert _) fun b => tells_ret fun ns h => ?_
    cases b with
    | none => exact h.1
    | some id => exact h

theorem tells_collect {f : α → Pipeline β} {as : List α}
    (h : ∀ a, Keeps srv host fails pushes first pid J (f a) fun _ => J) :
    Keeps srv host fails pushes first pid J (collect f as) fun _ => J := by
  induction as with
  | nil => exact tells_ret fun _ h => h
  | cons a as ih =>
    rw [collect_cons]
    exact tells_bind (h a) fun _ => tells_bind ih fun _ => tells_ret fun _ h => h

theorem keeps_gitHub (hpush : pushes pid) (lib : Library) (secret : Text) (r : PushRequest) :
    Keeps srv host fails pushes first pid Clean (gitHub lib secret r) fun _ => Clean := by
  unfold gitHub
  split_ifs
  · exact tells_ret fun _ h => h
  · exact tells_ret fun _ h => h
  · exact tells_ret fun _ h => h
  · exact tells_ret fun _ h => h
  · cases r.decoded with
    | none => exact tells_ret fun _ h => h
    | some p =>
      dsimp only
      split_ifs
      · exact tells_ret fun _ h => h
      · refine tells_bind (keeps_unlogged trivial) fun projects => ?_
        refine tells_bind (tells_collect (keeps_deployMatched hpush p)) fun results => ?_
        exact tells_ret fun _ h => h

end Handlers

end Tells

section Runs

variable {srv : Server} {host : Nat → Host} {fails : Nat → Bool} {s : Records}
  {es : List (Event (journaled srv host fails))} {v : World (journaled srv host fails)}

def Pushes (es : List (Event (journaled srv host fails))) (pid : Nat) : Prop :=
  ∃ r, .start pid (.gitHub r) ∈ es

-- every pipeline's row is its own, and no row is left RUNNING when all is done
structure Logged (first : Nat) (v : World (journaled srv host fails)) : Prop where
  row : ∀ pid creator job o, v.answer pid = some (.outcome creator job o) →
    ∃ d ∈ v.state.state.deployments, d.id = job.deployID ∧ first ≤ d.id ∧ d.creator = creator ∧
      d.status = o.status ∧ ∀ d' ∈ v.state.state.deployments, d'.id = job.deployID → d' = d
  own : ∀ pid q c c' job job' o o', v.answer pid = some (.outcome c job o) →
    v.answer q = some (.outcome c' job' o') → job.deployID = job'.deployID → pid = q
  done : v.state.state.jobs = [] → (∀ pid p, v.pool pid = some p → v.returned pid = true) →
    ∀ d ∈ v.state.state.deployments, first ≤ d.id → d.status ≠ .running

def Kept (es : List (Event (journaled srv host fails))) (s : Records) : Prop :=
  Along (Landing fun pid x {_} i => InsertsKept fails (Pushes es) pid x i) (begun s) es

def Told : DeployRequest → DeployAnswer → List Note → Prop
  | .pipeline, a, ns => ∃ creator job o, a = .outcome creator job o ∧ Ended creator job o ns
  | _, a, ns => (∃ reply, a = .reply reply) ∧ Clean ns

theorem clean_nil : Clean [] := ⟨rfl,nofun⟩

theorem keeps_answered {pushes : Nat → Prop} {first pid : Nat} {p : Pipeline DeployReply}
    (h : Keeps srv host fails pushes first pid Clean p fun _ => Clean) :
    Keeps srv host fails pushes first pid (· = []) (answered p) fun a ns =>
      (∃ reply, a = .reply reply) ∧ Clean ns :=
  tells_bind (tells_mono (fun _ h => h ▸ clean_nil) (fun _ _ h => h) h) fun reply =>
    tells_ret fun _ h => ⟨⟨reply,rfl⟩,h⟩

theorem books_begun (hid : (s.deployments.map Deployment.id).Nodup)
    (hnext : ∀ d ∈ s.deployments, d.id < s.nextDeployment) (hjobs : s.jobs = []) :
    Books s.nextDeployment ⟨s,[]⟩ where
  below := hnext
  unique := hid
  start := le_rfl
  queued j hj := by simp [hjobs] at hj
  held _ _ h := nomatch h
  line := by simp [queuedIDs,hjobs]
  apart _ _ h := nomatch h
  sole _ _ _ h := nomatch h
  kept d hd hfirst := absurd (hnext d hd) (not_lt.mpr hfirst)
  opener _ _ h := nomatch h
  taken _ _ _ h := nomatch h
  gone _ _ _ h := nomatch h
  taker _ _ _ _ h := nomatch h
  once _ _ _ _ _ _ h := nomatch h
  closed _ _ _ h := nomatch h

theorem not_pushes {pid : Nat} {r : DeployRequest} (hv : (begun s).run es = some v)
    (hm : .start pid r ∈ es) (hr : ∀ p, r ≠ .gitHub p) : ¬ Pushes es pid := by
  rintro ⟨p,hp⟩
  exact hr p (started_once (S := journaled srv host fails) hv hm hp)

theorem keeps_handle {first pid : Nat} {r : DeployRequest} (hv : (begun s).run es = some v)
    (hm : .start pid r ∈ es) :
    Keeps srv host fails (Pushes es) first pid (· = []) (handle srv r) (Told r) := by
  cases r with
  | deploy actor param body =>
    exact keeps_answered (keeps_deploy (not_pushes hv hm nofun) srv.lib actor param body)
  | rollback actor param depParam insertError =>
    exact keeps_answered
      (keeps_rollback (not_pushes hv hm nofun) srv.lib actor param depParam insertError)
  | gitHub r => exact keeps_answered (keeps_gitHub ⟨r,hm⟩ srv.lib srv.secret r)
  | pipeline => exact keeps_pipeline srv.policy

theorem books_env {first : Nat} {x y : Traced Records Note} {projects : List Project}
    (hx : Books first x) (he : (journaled srv host fails).env projects x = some y) :
    Books first y := by
  obtain ⟨he,hlog⟩ := env_observe he
  obtain ⟨t,log⟩ := y
  obtain rfl : log = x.log := hlog
  have ht : { x.state with projects := projects } = t := Option.some.inj he
  exact hx.still (by rw [← ht]) (by rw [← ht]) (by rw [← ht])

theorem told_pipeline {r : DeployRequest} {creator : Nat} {job : Job} {o : Outcome} {ns : List Note}
    (h : Told r (.outcome creator job o) ns) : Ended creator job o ns := by
  cases r with
  | pipeline =>
    obtain ⟨c,j,o',he,hend⟩ := h
    obtain ⟨rfl,rfl,rfl⟩ := DeployAnswer.outcome.inj he
    exact hend
  | deploy actor param body => exact nomatch h.1
  | rollback actor param depParam insertError => exact nomatch h.1
  | gitHub r => exact nomatch h.1

theorem told_holds {r : DeployRequest} {a : DeployAnswer} {ns : List Note} (h : Told r a ns) :
    holds ns = [] := by
  cases r with
  | pipeline =>
    obtain ⟨c,j,o,-,hend⟩ := h
    rw [hend]
    simp [holds,Note.grants,Note.releases]
  | deploy actor param body => exact h.2.1
  | rollback actor param depParam insertError => exact h.2.1
  | gitHub r => exact h.2.1

theorem deployments_logged (hid : (s.deployments.map Deployment.id).Nodup)
    (hnext : ∀ d ∈ s.deployments, d.id < s.nextDeployment) (hjobs : s.jobs = [])
    (hkept : Kept es s) (hv : (begun s).run es = some v) : Logged s.nextDeployment v := by
  obtain ⟨hbooks,htold⟩ := told (L := bookkeeping fails (Pushes es) srv host s.nextDeployment)
    (fun _ _ hm => keeps_handle hv hm) (fun _ _ _ hx he => books_env hx he)
    (books_begun hid hnext hjobs) hkept hv
  have hanswer : ∀ pid a, v.answer pid = some a → ∃ r, Told r a (notesOf pid v.state.log) := by
    intro pid a ha
    have hpool := World.answer_eq.mp ha
    obtain ⟨r,hm⟩ := pool_started (S := journaled srv host fails) hv rfl hpool
    exact ⟨r,htold pid r a hm hpool⟩
  have hended : ∀ pid creator job o, v.answer pid = some (.outcome creator job o) →
      (pid,.closed job.deployID o.status) ∈ v.state.log ∧ (pid,.took creator job) ∈ v.state.log := by
    intro pid creator job o ha
    obtain ⟨r,hr⟩ := hanswer pid _ ha
    have hend : notesOf pid v.state.log = _ := told_pipeline hr
    rw [← mem_notesOf,← mem_notesOf,hend]
    exact ⟨List.mem_cons_self,List.mem_cons_of_mem _ List.mem_cons_self⟩
  constructor
  case row =>
    intro pid creator job o ha
    obtain ⟨hclosed,htook⟩ := hended pid creator job o ha
    obtain ⟨d,hd,hdid,hfirst,hc⟩ := hbooks.taken pid creator job htook
    obtain ⟨-,d',hd',hdid',hst⟩ := hbooks.closed pid _ _ hclosed
    have huniq : ∀ e ∈ v.state.state.deployments, e.id = job.deployID → e = d := fun e he hide =>
      List.inj_on_of_nodup_map hbooks.unique he hd (hide.trans hdid.symm)
    obtain rfl := huniq d' hd' hdid'
    exact ⟨d',hd,hdid,hfirst,hc,hst,huniq⟩
  case own =>
    intro pid q c c' job job' o o' ha ha' he
    exact hbooks.once pid q c c' job job' (hended pid c job o ha).2 (hended q c' job' o' ha').2 he
  case done =>
    intro hempty hall d hd hfirst hrun
    rcases hbooks.kept d hd hfirst hrun with ⟨pid,hpid⟩ | hq
    · cases hp : v.pool pid with
      | none =>
        rw [hands,notesOf,unseen_run hv pid hp] at hpid
        cases hpid
      | some p =>
        obtain ⟨a,ha⟩ := Option.isSome_iff_exists.mp (hall pid p hp)
        obtain ⟨r,hr⟩ := hanswer pid a ha
        rw [hands,told_holds hr] at hpid
        cases hpid
    · simp [queuedIDs,hempty] at hq

end Runs

section Sample

def deployServer : Server where
  lib := { pushLibrary with parseInt := fun _ => some 1 }
  secret := "secret".toList
  policy := ⟨[],false⟩

def deployRequest : DeployRequest := .deploy "admin".toList "1".toList ⟨[],[]⟩

abbrev onQuietHost (fails : Nat → Bool) : System := journaled deployServer (fun _ => quietHost) fails

def deployRun (fails : Nat → Bool) : List (Event (onQuietHost fails)) :=
  .start 0 deployRequest :: List.replicate 5 (.act 0) ++ .start 1 .pipeline :: List.replicate 6 (.act 1)

def webRecords : Records := trackedRecords "https://github.com/acme/p1".toList

theorem kept_unfailing (es : List (Event (onQuietHost fun _ => false))) (s : Records) : Kept es s := by
  refine along_of_mem (fun e _ w => ?_) _
  cases e with
  | start pid r => trivial
  | act pid => exact fun _ _ _ _ _ _ _ hfail => absurd hfail Bool.false_ne_true
  | env e => trivial

theorem deploy_logged :
    ∃ v : World (onQuietHost fun _ => false),
      (begun webRecords).run (deployRun fun _ => false) = some v ∧ Logged 1 v ∧
        v.state.state.deployments.map (·.status) = [.failed] := by
  have hrun : ((begun webRecords).run (deployRun fun _ => false)).map
      (fun v => v.state.state.deployments.map (·.status)) = some [.failed] := by rfl
  obtain ⟨v,hv,hst⟩ := Option.map_eq_some_iff.mp hrun
  exact ⟨v,hv,deployments_logged (s := webRecords) (by decide) nofun rfl (kept_unfailing _ _) hv,hst⟩

def untrackedRun : List (Event (onQuietHost fun n => n = 1)) :=
  .start 0 deployRequest :: List.replicate 3 (.act 0)

def rowlessRun : List (Event (onQuietHost fun n => n = 0)) :=
  .start 0 (.gitHub samplePush) :: List.replicate 4 (.act 0) ++
    .start 1 .pipeline :: List.replicate 6 (.act 1)

theorem failed_inserts_unlogged :
    (∃ v : World (onQuietHost fun n => n = 1),
      (begun webRecords).run untrackedRun = some v ∧ ¬ Logged 1 v) ∧
    ∃ v : World (onQuietHost fun n => n = 0),
      (begun webRecords).run rowlessRun = some v ∧ ¬ Logged 1 v := by
  constructor
  · have hrun : ((begun webRecords).run untrackedRun).map
        (fun v => (v.state.state.deployments.map fun d => (d.id,d.status),v.state.state.jobs,
          v.returned 0)) = some ([(1,.running)],[],true) := by rfl
    obtain ⟨v,hv,hst⟩ := Option.map_eq_some_iff.mp hrun
    obtain ⟨hrows,hrest⟩ := Prod.mk.inj hst
    obtain ⟨hjobs,hreturned⟩ := Prod.mk.inj hrest
    have hall : ∀ pid p, v.pool pid = some p → v.returned pid = true := by
      intro pid p hp
      obtain ⟨r,hm⟩ := pool_started (S := onQuietHost fun n => n = 1) hv rfl hp
      simp only [untrackedRun,List.mem_cons,List.mem_replicate,reduceCtorEq,and_false,or_false] at hm
      exact (Event.start.inj hm).1 ▸ hreturned
    have hleft : (1,DeployStatus.running) ∈ v.state.state.deployments.map fun d => (d.id,d.status) :=
      hrows ▸ List.mem_singleton_self _
    obtain ⟨d,hd,he⟩ := List.mem_map.mp hleft
    obtain ⟨hid,hrunning⟩ := Prod.mk.inj he
    exact ⟨v,hv,fun h => h.done hjobs hall d hd hid.ge hrunning⟩
  · have hrun : ((begun webRecords).run rowlessRun).map
        (fun v => (v.state.state.deployments.length,v.answer 1)) =
          some (0,some (.outcome 0 ⟨opID 1,0,trackedProject "https://github.com/acme/p1".toList,
            webhookActor,"c0ffee".toList⟩ .failed)) := by rfl
    obtain ⟨v,hv,hst⟩ := Option.map_eq_some_iff.mp hrun
    obtain ⟨hrows,hanswer⟩ := Prod.mk.inj hst
    refine ⟨v,hv,fun h => ?_⟩
    obtain ⟨d,hd,-⟩ := h.row 1 0 _ _ hanswer
    rw [List.length_eq_zero_iff.mp hrows] at hd
    exact nomatch hd

end Sample

end Deploy
