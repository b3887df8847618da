import ServerHub.VgBackup.RestoreGuard

namespace VgBackup

open Relational Interleave

structure Sourced (s : Store) : Prop where
  run : ∀ id r, s.runs.find id = some r →
    ∃ j, s.jobs.find r.backupJobID = some j ∧ j.storageTargetID = r.storageTargetID
  job : ∀ id j, s.jobs.find id = some j →
    accepted j.sourceType = true ∧ (first s.targets j.storageTargetID).isSome = true

def JobsDescend (t u : Table VgBackupJob) : Prop :=
  ∀ id j', u.find id = some j' → ∃ j, t.find id = some j ∧ j'.origin = j.origin

theorem jobsDescend_refl (t : Table VgBackupJob) : JobsDescend t t := fun _ j h => ⟨j,h,rfl⟩

theorem jobsDescend_trans {t u v : Table VgBackupJob} (h : JobsDescend t u)
    (k : JobsDescend u v) : JobsDescend t v := by
  intro id j hj
  obtain ⟨a,ha,hoa⟩ := k id j hj
  obtain ⟨b,hb,hob⟩ := h id a ha
  exact ⟨b,hb,hoa.trans hob⟩

theorem jobsDescend_modify {t : Table VgBackupJob} {p : VgBackupJob → Bool}
    {f : VgBackupJob → VgBackupJob} (hf : ∀ j, key (f j) = key j)
    (ho : ∀ j, (f j).origin = j.origin) : JobsDescend t (t.modify p f hf) := by
  intro id j' hj'
  rw [Table.find_modify,Option.map_eq_some_iff] at hj'
  obtain ⟨j,hj,rfl⟩ := hj'
  refine ⟨j,hj,?_⟩
  split
  · exact ho j
  · rfl

theorem jobsDescend_updateJobs {s : Store} {id : UUID} {f : VgBackupJob → VgBackupJob}
    {hf : ∀ j, (f j).id = j.id} (ho : ∀ j, (f j).origin = j.origin) :
    JobsDescend s.jobs (s.updateJobs id f hf).jobs := jobsDescend_modify hf ho

theorem jobsDescend_detachJobs {p : VgBackupPolicy} {js : List VgBackupJob} {s t : Store}
    (h : js.foldlM (Store.detachJob p) s = some t) : JobsDescend s.jobs t.jobs := by
  refine detachJobs_rel (R := fun s t => JobsDescend s.jobs t.jobs) (fun _ => jobsDescend_refl _)
    (fun _ _ _ => jobsDescend_trans) ?_ h
  intro s t job hd
  obtain ⟨_,_,rfl⟩ := detachJob_eq hd
  have hu : JobsDescend s.jobs (s.updateJobs job.id (p.settle s.clock) fun _ => rfl).jobs :=
    jobsDescend_updateJobs fun _ => rfl
  exact hu

theorem job_write {s : Store} {β : Type} {w : JobWrite β} (hb : w.Backed s) :
    JobsDescend s.jobs (w.exec s).1.jobs ∨
    ∃ j, (w.exec s).1.jobs = s.jobs.insert j ∧ accepted j.sourceType = true ∧
      (first s.targets j.storageTargetID).isSome = true := by
  cases w with
  | insert j => exact .inr ⟨_,rfl,hb⟩
  | update id p => exact .inl (jobsDescend_updateJobs (f := p.apply s.clock) fun _ => rfl)
  | delete id => exact .inl (jobsDescend_modify (key_erased s.clock) fun _ => rfl)
  | insertSchedule job cronExpr timezone =>
    refine .inl ?_
    simp only [JobWrite.exec]
    split
    · rename_i t h
      obtain ⟨_,_,rfl⟩ := insertSchedule_eq h
      exact jobsDescend_refl _
    · exact jobsDescend_refl _
  | updateSchedule job cronExpr timezone => exact .inl (jobsDescend_refl _)
  | deleteSchedules job => exact .inl (jobsDescend_refl _)
  | detachPolicy p attached =>
    refine .inl ?_
    simp only [JobWrite.exec]
    split
    · rename_i t h
      simp only [Store.detachPolicy,Option.map_eq_some_iff] at h
      obtain ⟨u,hu,rfl⟩ := h
      have hd : JobsDescend s.jobs u.jobs := jobsDescend_detachJobs hu
      exact hd
    · exact jobsDescend_refl _
  | setEnabled id enabled =>
    exact .inl (jobsDescend_updateJobs
      (f := fun j => { j with updatedAt := s.clock, enabled := enabled }) fun _ => rfl)
  | insertPolicy p => exact .inl (jobsDescend_refl _)
  | flagPolicy id enabled encrypted verificationEnabled => exact .inl (jobsDescend_refl _)
  | updatePolicy id p => exact .inl (jobsDescend_refl _)
  | insertConnection c =>
    refine .inl ?_
    simp only [JobWrite.exec,Store.insertConnection]
    split <;> exact jobsDescend_refl _
  | updateConnection id p =>
    refine .inl ?_
    simp only [JobWrite.exec]
    split <;> exact jobsDescend_refl _
  | checkConnection id status now => exact .inl (jobsDescend_refl _)
  | deleteConnection id => exact .inl (jobsDescend_refl _)

theorem job_exec {s t : Store} {pid : Nat} {β : Type} {i : Stmt β} {b : β} (hb : i.Backed s)
    (hx : i.exec pid s = some (t,b)) :
    JobsDescend s.jobs t.jobs ∨
    ∃ j, t.jobs = s.jobs.insert j ∧ accepted j.sourceType = true ∧
      (first s.targets j.storageTargetID).isSome = true := by
  have hsame : t.jobs = s.jobs → JobsDescend s.jobs t.jobs := fun h => h ▸ jobsDescend_refl _
  cases stmt_effect hx with
  | select q => exact .inl (hsame rfl)
  | run he hw =>
    obtain ⟨_,_,_,rfl⟩ := runsOnly_exec hw
    exact .inl (hsame rfl)
  | restore w =>
    obtain ⟨_,_,ht⟩ := restoresOnly_exec s w
    exact .inl (hsame (by rw [ht]))
  | job w => exact job_write hb
  | side w =>
    obtain ⟨_,_,_,_,_,_,ht⟩ := sideOnly_exec s w
    exact .inl (hsame (by rw [ht]))
  | agent hw =>
    obtain ⟨_,_,_,_,_,rfl⟩ := agentsOnly_exec hw
    exact .inl (hsame rfl)

theorem onUpdate_true {β : Type} (i : Stmt β) : i.OnUpdate (fun _ _ => True) := by
  cases i with
  | run w => cases w <;> trivial
  | _ => trivial

theorem sourced_exec {s t : Store} {pid : Nat} {β : Type} {i : Stmt β} {b : β} (h : Sourced s)
    (hb : i.Backed s) (hx : i.exec pid s = some (t,b)) : Sourced t := by
  have hl : s.Later t := hb.later hx
  have hmove : RunMove (fun _ _ _ => True) s t.runs := runMove_exec hb (onUpdate_true i) hx
  have hkept : ∀ id j, s.jobs.find id = some j →
      ∃ j', t.jobs.find id = some j' ∧ j'.storageTargetID = j.storageTargetID := by
    intro id j hj
    obtain ⟨j',hj',ho⟩ := hl.jobs id j hj
    exact ⟨j',hj',congrArg JobOrigin.storageTargetID ho.origin⟩
  refine ⟨?_,?_⟩
  · intro id r' hr'
    rcases row_cases hmove hr' with ⟨r,hr,hrow⟩ | ⟨-,n,⟨j,hj,-,hst,-⟩,rfl⟩
    · obtain ⟨j,hj,hst⟩ := h.run id r hr
      obtain ⟨j',hj',hst'⟩ := hkept _ _ hj
      have hjob : r'.backupJobID = r.backupJobID := congrArg RunOrigin.backupJobID hrow.origin
      have htar : r'.storageTargetID = r.storageTargetID :=
        congrArg RunOrigin.storageTargetID hrow.origin
      exact ⟨j',by rw [hjob]; exact hj',by rw [hst',hst,htar]⟩
    · obtain ⟨j',hj',hst'⟩ := hkept _ _ hj
      exact ⟨j',hj',hst'.trans hst.symm⟩
  · intro id j' hj'
    rw [hl.targets]
    rcases job_exec hb hx with hd | ⟨j,he,hacc,htar⟩
    · obtain ⟨j,hj,ho⟩ := hd id j' hj'
      have hsrc : j'.sourceType = j.sourceType := congrArg JobOrigin.sourceType ho
      have hst : j'.storageTargetID = j.storageTargetID := congrArg JobOrigin.storageTargetID ho
      rw [hsrc,hst]
      exact h.job id j hj
    · rw [he] at hj'
      obtain ⟨hm,hid⟩ := Table.find_some hj'
      rcases Table.mem_insert hm with hold | rfl
      · exact h.job _ j' (Table.find_of_mem hold)
      · exact ⟨hacc,htar⟩

theorem unlapped_alone {pid : Nat} {x : Trace} (h : ∀ e ∈ x.log, e.1 = pid) {β : Type}
    (i : Stmt β) : Unlapped pid x i := by
  cases i with
  | run w =>
    cases w with
    | delete id => exact fun _ => not_overtaken_alone h
    | _ => trivial
  | restore w =>
    cases w with
    | insert n => exact fun _ => not_overtaken_alone h
    | update w p => trivial
  | _ => trivial

def ByOne {env : Env} (pid : Nat) (e : Event (history env)) : Prop :=
  e = .act pid ∨ ∃ r, e = .start pid r

theorem heeding_alone {env : Env} (pid : Nat) {s : Store} {es : List (Event (history env))}
    (h : ∀ e ∈ es, ByOne pid e) : Along (Heeding Unlapped) (start s) es := by
  refine along_mono (C := fun _ e => ByOne pid e)
    (I := fun w : World (history env) => ∀ e ∈ w.state.log, e.1 = pid) ?_ ?_
    (by simp [start,World.traced]) (along_of_mem (fun e he _ => h e he) _)
  · intro w e v hlog hone hs
    rcases hone with rfl | ⟨r,rfl⟩
    · obtain ⟨β,i,k,b,-,hx,-⟩ := step_act hs
      obtain ⟨-,hl⟩ := exec_history hx
      rw [hl]
      exact record_alone hlog _
    · rw [(step_start hs).2.1]
      exact hlog
  · intro w e hlog hone
    rcases hone with rfl | ⟨r,rfl⟩
    · intro β i k hp y b hx
      exact unlapped_alone hlog i
    · trivial

inductive Served (env : Env) (s : Store) : Store → Prop
  | start : Served env s s
  | request {t u : Store} (pid : Nat) (r : Request) (a : Answer) (ht : Served env s t)
      (h : serve env pid r t = some (u,a)) : Served env s u
  | wait {t u : Store} (now : Time) (ht : Served env s t) (h : advance now t = some u) :
      Served env s u

structure Anchored (s : Store) : Prop where
  sourced : Sourced s
  backed : RestoresBacked s

theorem anchored_serve {env : Env} {pid : Nat} {r : Request} {s t : Store} {a : Answer}
    (hs : Anchored s) (h : serve env pid r s = some (t,a)) : Anchored t := by
  obtain ⟨n,v,hv,rfl,-⟩ := serve_run h
  have halone : Along (Heeding Unlapped) (start s)
      (watched (.start pid r :: List.replicate n (.act pid) : List (Event (system env)))) := by
    refine heeding_alone pid fun e he => ?_
    simp only [watched,List.map_cons,List.map_replicate,List.mem_cons,List.mem_replicate] at he
    rcases he with rfl | ⟨-,rfl⟩
    · exact .inr ⟨r,rfl⟩
    · exact .inl rfl
  obtain ⟨log,hg,hsrc⟩ := trace_reached (I := fun x => GuardInv x ∧ Sourced x.state)
    (fun x t _ hi => ⟨⟨hi.1.backed,hi.1.unrestored,hi.1.found⟩,⟨hi.2.run,hi.2.job⟩⟩)
    (fun pid x _ i u b hi hb hseen hc hx =>
      ⟨guard_exec pid x i u b hi.1 hb hseen hc hx,sourced_exec hi.2 hb hx⟩)
    ⟨guardInv_init hs.backed,hs.sourced⟩ halone (List.append_nil _).symm hv
  exact ⟨hsrc,restoresBacked_of_guard hg⟩

theorem anchored_served {env : Env} {s t : Store} (h0 : Anchored s) (h : Served env s t) : Anchored t := by
  induction h with
  | start => exact h0
  | request pid r a _ h ih => exact anchored_serve ih h
  | wait now _ h ih =>
    obtain ⟨-,rfl⟩ := advance_eq h
    exact ⟨⟨ih.sourced.run,ih.sourced.job⟩,ih.backed⟩

def UnwrapsTo (env : Env) (run : VgBackupRun) (dataKey : String) : Prop :=
  (run.dataKeyEncrypted = "" ∧ dataKey = "") ∨ env.decrypt run.dataKeyEncrypted = some dataKey

def CarriesJob (env : Env) (t : Store) : Body → Prop
  | .claimed dto _ config => ∃ run job target, first t.runs dto.id = some run ∧
      dto.backupJobID = run.backupJobID ∧ first t.jobs run.backupJobID = some job ∧
      config = jobConfig env (t.preload job) ∧ config.jobID = run.backupJobID ∧
      accepted config.sourceType = true ∧ first t.targets run.storageTargetID = some target ∧
      config.storage = vgStorageConfigFor env target
  | .restore dto => ∃ row run job target, first t.restores dto.id = some row ∧
      dto.backupRunID = row.backupRunID ∧ first t.runs row.backupRunID = some run ∧
      dto.storagePath = run.storagePath ∧ UnwrapsTo env run dto.dataKey ∧
      first t.jobs run.backupJobID = some job ∧ dto.sourceType = job.sourceType ∧
      accepted dto.sourceType = true ∧ first t.targets run.storageTargetID = some target ∧
      dto.storage = vgStorageConfigFor env target
  | _ => False

def runJobLive (s : Store) (id : UUID) : Bool :=
  (first s.runs id).any fun run => (first s.jobs run.backupJobID).isSome

def restoreJobLive (s : Store) (id : UUID) : Bool :=
  (first s.restores id).any fun r => runJobLive s r.backupRunID

theorem solo_vgTouch (pid : Nat) (agent : UUID) (s : Store) :
    solo pid (vgTouch agent) s = some ((SideWrite.touchAgent agent s.clock).exec s) := by
  rw [vgTouch,solo_query_bind,solo_side]
  rfl

theorem code_of_fail {pid code : Nat} {message : String} {s t : Store} {reply : Reply}
    (h : solo pid (fail code message) s = some (t,reply)) : reply.code = code := by
  rw [solo_fail,Option.some.injEq,Prod.mk.injEq] at h
  rw [← h.2]

theorem vgClaimRun_accepted {env : Env} {pid : Nat} {agent : UUID} {param : String} {s t : Store}
    {reply : Reply} (h : serve env pid (.vgClaimRun agent param) s = some (t,some reply))
    (hc : reply.code = 200) :
    ∃ id w p run, env.parseUUID param = some id ∧ t.runs = (s.updateRun w p).runs ∧
      t.jobs = s.jobs ∧ first t.runs id = some run ∧
      reply.body = .claimed ⟨run.id,run.backupJobID,run.status,run.createdAt⟩ run.cancelRequested
        (jobConfig env (t.jobOf run)) := by
  rw [serve,handle,solo_answered,vgClaimRun,solo_bind,solo_vgTouch,Option.bind_some] at h
  cases hid : env.parseUUID param with
  | none =>
    simp only [hid] at h
    simp [code_of_fail h] at hc
  | some id =>
    simp only [hid,solo_query_bind,solo_run_bind,Option.bind_eq_some_iff] at h
    obtain ⟨⟨v,rows⟩,hv,hrest⟩ := h
    obtain ⟨rfl,-,-⟩ := update_exec hv
    dsimp only at hrest
    split at hrest
    · rw [solo_query_bind] at hrest
      split at hrest <;> simp [code_of_fail hrest] at hc
    · simp only [solo_query_bind,Select.eval] at hrest
      split at hrest
      · simp [code_of_fail hrest] at hc
      · rename_i run job hload
        split at hrest
        · simp only [solo_query_bind,solo_run_bind,Option.bind_eq_some_iff] at hrest
          obtain ⟨⟨x,n⟩,-,hfail⟩ := hrest
          simp [code_of_fail hfail] at hc
        · simp only [Option.map_eq_some_iff,Prod.mk.injEq] at hload
          obtain ⟨_,hrun,rfl,rfl⟩ := hload
          obtain ⟨rfl,rfl⟩ := Prod.mk.inj (Option.some.inj hrest)
          exact ⟨id,_,_,_,rfl,rfl,rfl,hrun,rfl⟩

theorem find_updateRestore (s : Store) (w : RestoreWhere) (p : RestorePatch) (id : UUID) :
    (s.updateRestore w p).restores.find id =
      (s.restores.find id).map fun r => if w.matches r then p.apply s.clock r else r :=
  Table.find_modify s.restores w.matches (p.apply s.clock) (fun _ => rfl) id

theorem first_updateRestore {s : Store} {w : RestoreWhere} (h : s.restores.count w.matches ≠ 0)
    (p : RestorePatch) :
    ∃ r, first s.restores w.id = some r ∧
      first (s.updateRestore w p).restores w.id = some (p.apply s.clock r) := by
  obtain ⟨r,hr,hm⟩ := List.countP_pos_iff.mp (Nat.pos_of_ne_zero h)
  obtain ⟨hl,hid,-⟩ := matches_restore hm
  have hf : s.restores.find w.id = some r := by
    rw [← hid]
    exact Table.find_of_mem hr
  have hl' : live (p.apply s.clock r) = true := hl
  refine ⟨r,by simp [first,hf,hl],?_⟩
  rw [first,find_updateRestore,hf,Option.map_some,if_pos hm]
  simp [hl']

def loadedRestore (t : Store) (row : VgRestoreJob) (run : VgBackupRun) : LoadedRestore where
  row := row
  connection := row.connectionID.bind (first t.connections)
  run := run
  job := t.jobOf run

theorem code_of_failRestoreClaim {pid : Nat} {job : VgRestoreJob} {message : String} {s t : Store}
    {reply : Reply} (h : solo pid (failRestoreClaim job message) s = some (t,reply)) :
    reply.code = 500 := by
  rw [failRestoreClaim,solo_query_bind,solo_restore_bind] at h
  exact code_of_fail h

theorem vgClaimRestore_accepted {env : Env} {pid : Nat} {agent : UUID} {param : String}
    {s t : Store} {reply : Reply}
    (h : serve env pid (.vgClaimRestore agent param) s = some (t,some reply))
    (hc : reply.code = 200) :
    ∃ id r row, env.parseUUID param = some id ∧ t.runs = s.runs ∧ t.jobs = s.jobs ∧
      first s.restores id = some r ∧ first t.restores id = some row ∧
      row.backupRunID = r.backupRunID ∧ row.status = .running ∧
      ∀ run, (first t.runs row.backupRunID).getD VgBackupRun.zero = run →
        ¬(run.dataKeyEncrypted ≠ "" ∧ env.decrypt run.dataKeyEncrypted = none) ∧
        reply.body = .restore (vgRestoreDTO env (loadedRestore t row run)) := by
  rw [serve,handle,solo_answered,vgClaimRestore,solo_bind,solo_vgTouch,Option.bind_some] at h
  cases hid : env.parseUUID param with
  | none =>
    simp only [hid] at h
    simp [code_of_fail h] at hc
  | some id =>
    simp only [hid,solo_query_bind,solo_restore_bind] at h
    split at h
    · rw [solo_query_bind] at h
      split at h <;> simp [code_of_fail h] at hc
    · rename_i hrows
      obtain ⟨r,hr,hrow⟩ := first_updateRestore hrows { status := .running, startedAt := some s.clock }
      generalize hu : ((RestoreWrite.update { id := id, agent := some agent, status := some .pending }
        { status := .running, startedAt := some (Select.now.eval
          ((SideWrite.touchAgent agent s.clock).exec s).1) }).exec
        ((SideWrite.touchAgent agent s.clock).exec s).1).1 = u at h
      have hrow' : first u.restores id =
          some (RestorePatch.apply { status := .running, startedAt := some s.clock } s.clock r) := by
        rw [← hu]
        exact hrow
      have hruns : u.runs = s.runs := hu ▸ rfl
      have hjobs : u.jobs = s.jobs := hu ▸ rfl
      simp only [solo_query_bind,Select.eval,hrow',Option.map_some] at h
      split at h
      · simp [code_of_failRestoreClaim h] at hc
      · split at h
        · simp [code_of_failRestoreClaim h] at hc
        · rename_i hkey
          obtain ⟨rfl,rfl⟩ := Prod.mk.inj (Option.some.inj h)
          refine ⟨id,r,_,rfl,hruns,hjobs,hr,hrow',rfl,rfl,?_⟩
          rintro run rfl
          exact ⟨hkey,rfl⟩

theorem storage_of_job {s : Store} {run : VgBackupRun} {id : UUID} {job : VgBackupJob}
    (h : Anchored s) (hr : first s.runs id = some run)
    (hj : first s.jobs run.backupJobID = some job) :
    accepted job.sourceType = true ∧ ∃ target, first s.targets run.storageTargetID = some target ∧
      (s.preload job).storageTarget = target := by
  obtain ⟨j,hf,hst⟩ := h.sourced.run id run (first_some hr).1
  obtain ⟨hacc,htar⟩ := h.sourced.job _ job (first_some hj).1
  have hjob : job = j := Option.some.inj ((first_some hj).1.symm.trans hf)
  obtain ⟨target,ht⟩ := Option.isSome_iff_exists.mp htar
  refine ⟨hacc,target,?_,?_⟩
  · rw [← hst,← hjob]
    exact ht
  · simp [Store.preload,ht]

theorem jobOf_live {s : Store} {run : VgBackupRun} {job : VgBackupJob}
    (h : first s.jobs run.backupJobID = some job) : s.jobOf run = s.preload job := by
  simp [Store.jobOf,Store.loadJob,h]

theorem runJobLive_iff {s t : Store} {id : UUID} {run : VgBackupRun} {w : RunWhere} {p : RunPatch}
    (hruns : t.runs = (s.updateRun w p).runs) (hjobs : t.jobs = s.jobs)
    (hr : first t.runs id = some run) :
    runJobLive s id = true ↔ ∃ job, first t.jobs run.backupJobID = some job := by
  obtain ⟨hf,hl⟩ := first_some hr
  rw [hruns,find_updateRun,Option.map_eq_some_iff] at hf
  obtain ⟨r,hfr,rfl⟩ := hf
  have hlive : live r = true := by
    split at hl <;> exact hl
  have hjob : (if w.matches r = true then p.apply s.clock r else r).backupJobID =
      r.backupJobID := by
    split <;> rfl
  rw [hjob,hjobs,runJobLive,first,hfr]
  simp [hlive,Option.isSome_iff_exists]

theorem vgClaimRun_carries {env : Env} {pid : Nat} {agent : UUID} {param : String} {s t : Store}
    {reply : Reply} (h0 : Anchored s)
    (h : serve env pid (.vgClaimRun agent param) s = some (t,some reply))
    (hc : reply.code = 200) : ∃ id, env.parseUUID param = some id ∧
      (CarriesJob env t reply.body ↔ runJobLive s id = true) := by
  have ht : Anchored t := anchored_serve h0 h
  obtain ⟨id,w,p,run,hid,hruns,hjobs,hr,hbody⟩ := vgClaimRun_accepted h hc
  have hrid : run.id = id := (Table.find_some (first_some hr).1).2
  refine ⟨id,hid,?_⟩
  rw [hbody,runJobLive_iff hruns hjobs hr]
  constructor
  · rintro ⟨run',job,-,hr',-,hj,-⟩
    rw [show first t.runs run.id = some run by rw [hrid]; exact hr,Option.some.injEq] at hr'
    exact ⟨job,hr' ▸ hj⟩
  · rintro ⟨job,hj⟩
    obtain ⟨hacc,target,htar,hstore⟩ := storage_of_job ht hr hj
    have hjid : job.id = run.backupJobID := (Table.find_some (first_some hj).1).2
    rw [jobOf_live hj]
    refine ⟨run,job,target,by rw [hrid]; exact hr,rfl,hj,rfl,hjid,hacc,htar,?_⟩
    rw [← hstore]
    rfl

theorem active_of_running {s : Store} {id : UUID} {row : VgRestoreJob}
    (hr : first s.restores id = some row) (hst : row.status = .running) :
    0 < s.activeRestores row.backupRunID := by
  obtain ⟨hf,hl⟩ := first_some hr
  have hne : s.activeRestores row.backupRunID ≠ 0 := fun hz =>
    activeRestores_zero.mp hz ⟨row,(Table.find_some hf).1,hl,rfl,by rw [hst]; rfl⟩
  exact Nat.pos_of_ne_zero hne

theorem vgClaimRestore_carries {env : Env} {pid : Nat} {agent : UUID} {param : String}
    {s t : Store} {reply : Reply} (h0 : Anchored s)
    (h : serve env pid (.vgClaimRestore agent param) s = some (t,some reply))
    (hc : reply.code = 200) : ∃ id, env.parseUUID param = some id ∧
      (CarriesJob env t reply.body ↔ restoreJobLive s id = true) := by
  have ht : Anchored t := anchored_serve h0 h
  obtain ⟨id,r,row,hid,hruns,hjobs,hr,hrow,hsame,hst,hload⟩ := vgClaimRestore_accepted h hc
  obtain ⟨run,hrun⟩ := Option.isSome_iff_exists.mp
    (ht.backed row.backupRunID (active_of_running hrow hst))
  obtain ⟨hkey,hbody⟩ := hload run (by rw [hrun]; rfl)
  have hrid : row.id = id := (Table.find_some (first_some hrow).1).2
  have hlive : restoreJobLive s id = true ↔ ∃ job, first t.jobs run.backupJobID = some job := by
    rw [restoreJobLive,hr,Option.any_some,runJobLive,← hsame,← hruns,hrun,hjobs]
    simp [Option.isSome_iff_exists]
  refine ⟨id,hid,?_⟩
  rw [hbody,hlive]
  constructor
  · rintro ⟨row',run',job,-,hrow',-,hrun',-,-,hj,-⟩
    have hd : first t.restores id = some row' := by
      rw [← hrid]
      exact hrow'
    obtain rfl : row = row' := Option.some.inj (hrow.symm.trans hd)
    obtain rfl : run = run' := Option.some.inj (hrun.symm.trans hrun')
    exact ⟨job,hj⟩
  · rintro ⟨job,hj⟩
    obtain ⟨hacc,target,htar,hstore⟩ := storage_of_job ht hrun hj
    have hjob : (loadedRestore t row run).job = t.preload job := jobOf_live hj
    refine ⟨row,run,job,target,?_,rfl,hrun,rfl,?_,hj,?_,?_,htar,?_⟩
    · show first t.restores row.id = some row
      rw [hrid]
      exact hrow
    · show UnwrapsTo env run (if run.dataKeyEncrypted ≠ "" then _ else "")
      by_cases hk : run.dataKeyEncrypted = ""
      · exact .inl ⟨hk,by simp [hk]⟩
      · obtain ⟨key,hkey'⟩ := Option.ne_none_iff_exists'.mp fun hn => hkey ⟨hk,hn⟩
        refine .inr ?_
        simp [hk,hkey',loadedRestore]
    · show (loadedRestore t row run).job.row.sourceType = job.sourceType
      rw [hjob]
      rfl
    · show accepted (loadedRestore t row run).job.row.sourceType = true
      rw [hjob]
      exact hacc
    · show vgStorageConfigFor env (loadedRestore t row run).job.storageTarget = _
      rw [hjob,hstore]

structure NoJobs (s : Store) : Prop where
  jobs : s.jobs.rows = []
  runs : s.runs.rows = []
  restores : s.restores.rows = []

theorem anchored_noJobs {s : Store} (h : NoJobs s) : Anchored s := by
  refine ⟨⟨?_,?_⟩,?_⟩
  · intro id r hr
    have hm := (Table.find_some hr).1
    simp [h.runs] at hm
  · intro id j hj
    have hm := (Table.find_some hj).1
    simp [h.jobs] at hm
  · intro run hpos
    simp [Store.activeRestores,countWhere,Table.count,h.restores] at hpos

theorem claims_carry_job_iff (env : Env) (s₀ s : Store) (h0 : NoJobs s₀)
    (hs : Served env s₀ s) :
    (∀ pid agent param t reply, serve env pid (.vgClaimRun agent param) s = some (t,some reply) →
      reply.code = 200 → ∃ id, env.parseUUID param = some id ∧
        (CarriesJob env t reply.body ↔ runJobLive s id = true)) ∧
    ∀ pid agent param t reply, serve env pid (.vgClaimRestore agent param) s =
      some (t,some reply) → reply.code = 200 → ∃ id, env.parseUUID param = some id ∧
        (CarriesJob env t reply.body ↔ restoreJobLive s id = true) := by
  have hanch : Anchored s := anchored_served (anchored_noJobs h0) hs
  exact ⟨fun _ _ _ _ _ h hc => vgClaimRun_carries hanch h hc,
    fun _ _ _ _ _ h hc => vgClaimRestore_carries hanch h hc⟩

def jobRequest : JobRequest where
  agentID := agentParam
  storageTargetID := "00000000-0000-0000-0000-000000000004"
  name := "files"
  sourceType := .filesystem
  connectionID := ""
  sourcePath := "/srv"
  sourceDatabase := ""
  includePatterns := ""
  excludePatterns := ""
  mode := ""
  encrypted := false
  retentionDays := 0
  exportFormat := ""
  cronExpr := ""
  timezone := ""
  policyID := ""
  slaTargetMinutes := 0
  rpoTargetMinutes := 0
  rtoTargetMinutes := 0

def unusedStore : Store := { sampleStore with jobs := .empty, runs := .empty }

def createdJob : String := "00000000-0000-0000-0000-000000000008"

def createdRun : String := "00000000-0000-0000-0000-000000000009"

def createAndRun : List Request :=
  [.createBackupJob ⟨.admin,1⟩ jobRequest,.runNow ⟨.admin,1⟩ createdJob]

def runClaim : Request := .vgClaimRun 3 createdRun

def serveAll (s : Store) (rs : List Request) : Option Store :=
  rs.foldlM (fun s r => (serve sampleEnv 0 r s).map Prod.fst) s

theorem served_serveAll {s t u : Store} {rs : List Request} (h : Served sampleEnv s t)
    (hr : serveAll t rs = some u) : Served sampleEnv s u := by
  induction rs generalizing t with
  | nil =>
    simp only [serveAll,List.foldlM_nil,Option.pure_def,Option.some.injEq] at hr
    exact hr ▸ h
  | cons r rs ih =>
    simp only [serveAll,List.foldlM_cons,Option.bind_eq_bind,Option.bind_eq_some_iff,
      Option.map_eq_some_iff] at hr
    obtain ⟨v,⟨⟨v',a⟩,hs,rfl⟩,hrest⟩ := hr
    exact ih (.request 0 r a h hs) hrest

def claimedIDs : Body → Option (UUID × UUID)
  | .claimed run _ config => some (run.backupJobID,config.jobID)
  | _ => none

theorem carried_ids {env : Env} {t : Store} {body : Body} {job config : UUID}
    (hc : claimedIDs body = some (job,config)) (h : CarriesJob env t body) : config = job := by
  cases body with
  | claimed dto cancel cfg =>
    obtain ⟨rfl,rfl⟩ := Prod.mk.inj (Option.some.inj hc)
    obtain ⟨run,_,_,-,hrun,-,-,hjob,-⟩ := h
    rw [hjob,hrun]
  | _ => simp [claimedIDs] at hc

def claimView (s : Store) : Option (Bool × Option (Nat × Option (UUID × UUID))) :=
  (serve sampleEnv 0 runClaim s).map fun r =>
    (runJobLive s 9,r.2.map fun reply => (reply.code,claimedIDs reply.body))

theorem claim_of_view {s : Store} {rs : List Request} {b : Bool} {ids : Option (UUID × UUID)}
    (h : (serveAll s rs).bind claimView = some (b,some (200,ids))) :
    ∃ u t reply, Served sampleEnv s u ∧ serve sampleEnv 0 runClaim u = some (t,some reply) ∧
      reply.code = 200 ∧ runJobLive u 9 = b ∧ claimedIDs reply.body = ids := by
  obtain ⟨u,hu,hv⟩ := Option.bind_eq_some_iff.mp h
  obtain ⟨⟨t,a⟩,ht,he⟩ := Option.map_eq_some_iff.mp hv
  obtain ⟨hb,hr⟩ := Prod.mk.inj he
  obtain ⟨reply,rfl,hreply⟩ := Option.map_eq_some_iff.mp hr
  obtain ⟨hcode,hids⟩ := Prod.mk.inj hreply
  exact ⟨u,t,reply,served_serveAll .start hu,ht,hcode,hb,hids⟩

theorem noJobs_unusedStore : NoJobs unusedStore := ⟨rfl,rfl,rfl⟩

theorem created_job_claimed :
    ∃ s t reply, Served sampleEnv unusedStore s ∧
      serve sampleEnv 0 runClaim s = some (t,some reply) ∧ reply.code = 200 ∧
      CarriesJob sampleEnv t reply.body := by
  have hview : (serveAll unusedStore createAndRun).bind claimView =
      some (true,some (200,some (8,8))) := by decide
  obtain ⟨s,t,reply,hs,ht,hcode,hlive,-⟩ := claim_of_view hview
  obtain ⟨id,hid,hiff⟩ := (claims_carry_job_iff sampleEnv unusedStore s noJobs_unusedStore hs).1
    0 3 createdRun t reply ht hcode
  have hnine : sampleEnv.parseUUID createdRun = some 9 := by decide
  obtain rfl : 9 = id := Option.some.inj (hnine.symm.trans hid)
  exact ⟨s,t,reply,hs,ht,hcode,hiff.mpr hlive⟩

theorem deleted_job_claimed :
    ∃ s t reply, NoJobs unusedStore ∧ Served sampleEnv unusedStore s ∧
      serve sampleEnv 0 runClaim s = some (t,some reply) ∧ reply.code = 200 ∧
      ¬ CarriesJob sampleEnv t reply.body := by
  have hview : (serveAll unusedStore
      (createAndRun ++ [.deleteBackupJob ⟨.admin,1⟩ createdJob])).bind claimView =
      some (false,some (200,some (8,0))) := by decide
  obtain ⟨s,t,reply,hs,ht,hcode,-,hids⟩ := claim_of_view hview
  refine ⟨s,t,reply,noJobs_unusedStore,hs,ht,hcode,?_⟩
  intro h
  have hzero : (0 : UUID) = 8 := carried_ids hids h
  simp at hzero

end VgBackup
