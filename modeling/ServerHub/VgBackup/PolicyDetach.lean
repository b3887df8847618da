import ServerHub.VgBackup.StatusMachine

namespace VgBackup

open Relational Interleave

structure CarriedPolicy where
  cronExpr : String
  timezone : String
  enabled : Bool
  mode : VgBackupMode
  encrypted : Bool
  retentionDays : Int
  slaTargetMinutes : Int
  rpoTargetMinutes : Int
  rtoTargetMinutes : Int
deriving DecidableEq

def ResolvedPolicy.carried (r : ResolvedPolicy) : CarriedPolicy :=
  ⟨r.cronExpr,r.timezone,r.enabled,r.mode,r.encrypted,r.retentionDays,r.slaTargetMinutes,
    r.rpoTargetMinutes,r.rtoTargetMinutes⟩

def timing : Option VgBackupSchedule → String × String
  | some s => (s.cronExpr,orUTC s.timezone)
  | none => ("","UTC")

def VgBackupPolicy.timing (p : VgBackupPolicy) (schedule : Option VgBackupSchedule) :
    String × String :=
  if p.cronExpr ≠ "" then (p.cronExpr,orUTC p.timezone) else VgBackup.timing schedule

def VgBackupPolicy.detachedTiming (p : VgBackupPolicy) (schedule : Option VgBackupSchedule) :
    String × String :=
  if Go.trimSpace p.cronExpr ≠ "" then (p.cronExpr,orUTC (Go.trimSpace p.timezone))
  else VgBackup.timing schedule

def CarriesTiming (p : VgBackupPolicy) (schedule : Option VgBackupSchedule) : Prop :=
  p.cronExpr = "" ∨
  (Go.trimSpace p.cronExpr ≠ "" ∧ Go.trimSpace p.timezone = p.timezone) ∨
  (Go.trimSpace p.cronExpr = "" ∧
    ∃ r, schedule = some r ∧ r.cronExpr = p.cronExpr ∧ orUTC r.timezone = orUTC p.timezone)

def Transferable (p : VgBackupPolicy) (j : VgBackupJob) (schedule : Option VgBackupSchedule) :
    Prop :=
  p.enabled = j.enabled ∧ CarriesTiming p schedule

theorem orUTC_trimSpace {tz : String} :
    orUTC (Go.trimSpace tz) = orUTC tz ↔ Go.trimSpace tz = tz := by
  refine ⟨?_,fun h => by rw [h]⟩
  intro h
  by_cases h0 : tz = ""
  · subst h0
    exact Go.trimSpace_empty
  · by_cases ht : Go.trimSpace tz = ""
    · have hutc : "UTC" = tz := by simpa [orUTC,h0,ht] using h
      subst hutc
      exact absurd ht (by decide)
    · simpa [orUTC,h0,ht] using h

theorem detachedTiming_iff (p : VgBackupPolicy) (schedule : Option VgBackupSchedule) :
    p.detachedTiming schedule = p.timing schedule ↔ CarriesTiming p schedule := by
  by_cases h0 : p.cronExpr = ""
  · simp [CarriesTiming,VgBackupPolicy.detachedTiming,VgBackupPolicy.timing,h0]
  · by_cases ht : Go.trimSpace p.cronExpr = ""
    · cases schedule with
      | none =>
        simp [CarriesTiming,VgBackupPolicy.detachedTiming,VgBackupPolicy.timing,VgBackup.timing,h0,ht,
          Ne.symm h0]
      | some r =>
        simp [CarriesTiming,VgBackupPolicy.detachedTiming,VgBackupPolicy.timing,VgBackup.timing,h0,ht]
    · simp [CarriesTiming,VgBackupPolicy.detachedTiming,VgBackupPolicy.timing,h0,ht,orUTC_trimSpace]

theorem effectivePolicy_attached {job : LoadedJob} {p : VgBackupPolicy} {id : UUID}
    (hp : job.policy = some p) (hid : job.row.policyID = some id) :
    (effectivePolicy job).carried =
      ⟨(p.timing job.schedule).1,(p.timing job.schedule).2,p.enabled,p.mode,p.encrypted,
        p.retentionDays,p.slaTargetMinutes,p.rpoTargetMinutes,p.rtoTargetMinutes⟩ := by
  simp only [effectivePolicy,hp,hid,ResolvedPolicy.carried,VgBackupPolicy.timing]
  by_cases h0 : p.cronExpr = ""
  · cases hs : job.schedule with
    | none => simp [h0,timing,orUTC]
    | some r => simp [h0,timing]
  · simp [h0]

theorem effectivePolicy_detached {job : LoadedJob} (hid : job.row.policyID = none) :
    (effectivePolicy job).carried =
      ⟨(timing job.schedule).1,(timing job.schedule).2,job.row.enabled,job.row.mode,
        job.row.encrypted,job.row.retentionDays,job.row.slaTargetMinutes,
        job.row.rpoTargetMinutes,job.row.rtoTargetMinutes⟩ := by
  simp only [effectivePolicy,hid,ResolvedPolicy.carried,timing]
  cases job.policy <;> cases job.schedule <;> rfl

structure Detached (p : VgBackupPolicy) (s t : Store) (id : UUID) : Prop where
  job : t.jobs.find id =
    (s.jobs.find id).map fun j => if live j then p.settle s.clock j else j
  schedule : timing (t.scheduleOf id) = p.detachedTiming (s.scheduleOf id)

def Untouched (s t : Store) (id : UUID) : Prop :=
  t.jobs.find id = s.jobs.find id ∧ t.schedules id = s.schedules id

theorem find_updateJobs (s : Store) (id : UUID) (f : VgBackupJob → VgBackupJob)
    (hf : ∀ j, (f j).id = j.id) (k : UUID) :
    (s.updateJobs id f hf).jobs.find k =
      if k = id then (s.jobs.find k).map fun j => if live j then f j else j
      else s.jobs.find k := by
  simp only [Store.updateJobs,Table.find_modify]
  cases hk : s.jobs.find k with
  | none => simp
  | some j =>
    have hid : j.id = k := (Table.find_some hk).2
    by_cases h : k = id
    · simp [h,hid]
    · simp [h,hid]

theorem schedule_written {s t : Store} {job : UUID} {cronExpr tz : String}
    (h : (match s.scheduleOf job with
      | none => s.insertSchedule job cronExpr tz
      | some _ => some (s.updateSchedule job cronExpr tz)) = some t) :
    timing (t.scheduleOf job) = (cronExpr,orUTC tz) ∧ t.jobs = s.jobs ∧
    ∀ k, k ≠ job → t.schedules k = s.schedules k := by
  cases hs : s.scheduleOf job with
  | none =>
    rw [hs] at h
    dsimp only at h
    unfold Store.insertSchedule at h
    split at h
    · simp at h
    · rw [Option.some.injEq] at h
      subst h
      refine ⟨?_,rfl,fun k hk => Function.update_of_ne hk _ _⟩
      simp [Store.scheduleOf,timing,VgBase.live,Option.filter]
  | some r =>
    rw [hs] at h
    rw [Option.some.injEq] at h
    subst h
    simp only [Store.scheduleOf,Option.filter_eq_some_iff] at hs
    obtain ⟨hr,hl⟩ := hs
    refine ⟨?_,rfl,fun k hk => Function.update_of_ne hk _ _⟩
    have hd : r.deletedAt = none := by simpa [VgBase.live] using hl
    simp [Store.updateSchedule,Store.scheduleOf,timing,VgBase.live,Option.filter,hr,hd]

theorem detachJob_spec {p : VgBackupPolicy} {s t : Store} {job : VgBackupJob}
    (h : s.detachJob p job = some t) :
    Detached p s t job.id ∧ ∀ k, k ≠ job.id → Untouched s t k := by
  have hjob := find_updateJobs s job.id (p.settle s.clock) fun _ => rfl
  unfold Store.detachJob at h
  dsimp only at h
  by_cases hc : Go.trimSpace p.cronExpr = ""
  · rw [if_neg (by simpa using hc),Option.some.injEq] at h
    subst h
    refine ⟨⟨by simpa using hjob job.id,?_⟩,fun k hk => ⟨by simpa [hk] using hjob k,rfl⟩⟩
    simp [VgBackupPolicy.detachedTiming,hc,Store.scheduleOf,Store.updateJobs]
  · rw [if_pos hc] at h
    obtain ⟨ht,hj,hk⟩ := schedule_written h
    refine ⟨⟨by simpa [hj] using hjob job.id,?_⟩,?_⟩
    · rw [ht,orUTC_orUTC]
      simp [VgBackupPolicy.detachedTiming,hc]
    · intro k hne
      exact ⟨by simpa [hj,hne] using hjob k,hk k hne⟩

theorem detach_fold {p : VgBackupPolicy} {js : List VgBackupJob} {s t : Store}
    (h : js.foldlM (Store.detachJob p) s = some t) (hn : (js.map (·.id)).Nodup) :
    (∀ j ∈ js, Detached p s t j.id) ∧ ∀ k, k ∉ js.map (·.id) → Untouched s t k := by
  induction js generalizing s with
  | nil =>
    simp only [List.foldlM_nil,Option.pure_def,Option.some.injEq] at h
    subst h
    exact ⟨by simp,fun _ _ => ⟨rfl,rfl⟩⟩
  | cons j js ih =>
    simp only [List.foldlM_cons,Option.bind_eq_bind,Option.bind_eq_some_iff] at h
    obtain ⟨u,hu,ht⟩ := h
    simp only [List.map_cons,List.nodup_cons] at hn
    obtain ⟨hown,hother⟩ := detachJob_spec hu
    obtain ⟨hlater,hrest⟩ := ih ht hn.2
    obtain ⟨_,_,_,hclock⟩ := jobRowsOnly_detachJob hu
    refine ⟨?_,?_⟩
    · intro a ha
      rcases List.mem_cons.mp ha with rfl | ha
      · obtain ⟨h1,h2⟩ := hrest a.id hn.1
        exact ⟨h1.trans hown.job,by rw [Store.scheduleOf,h2]; exact hown.schedule⟩
      · have hne : a.id ≠ j.id := fun e => hn.1 (e ▸ List.mem_map_of_mem ha)
        obtain ⟨h1,h2⟩ := hother a.id hne
        have hd := hlater a ha
        refine ⟨?_,?_⟩
        · rw [hd.job,h1,hclock]
        · rw [hd.schedule,Store.scheduleOf,h2]
          rfl
    · intro k hk
      simp only [List.map_cons,List.mem_cons,not_or] at hk
      obtain ⟨h1,h2⟩ := hrest k hk.2
      obtain ⟨g1,g2⟩ := hother k hk.1
      exact ⟨h1.trans g1,h2.trans g2⟩

def Preserved (s t : Store) (policy : UUID) (j : VgBackupJob) : Prop :=
  if j.policyID = some policy then
    ∃ j', t.loadJob j.id = some j' ∧
      (effectivePolicy j').carried = (effectivePolicy (s.preload j)).carried
  else t.loadJob j.id = some (s.preload j)

theorem deletePolicy_accepted {env : Env} {pid : Nat} {actor : Actor} {param : String}
    {s t : Store} (h : serve env pid (.deletePolicy actor param) s = some (t,some ⟨204,.empty⟩)) :
    ∃ id p, env.parseUUID param = some id ∧ first s.policies id = some p ∧
      s.detachPolicy p (allWhere s.jobs fun j => j.policyID == some id) = some t := by
  rw [serve,handle,solo_answered,deletePolicy] at h
  cases hid : env.parseUUID param with
  | none => simp [hid] at h
  | some id =>
    simp only [hid,solo_query_bind,Select.eval] at h
    cases hp : first s.policies id with
    | none => simp [hp] at h
    | some p =>
      refine ⟨id,p,rfl,hp,?_⟩
      simp only [hp] at h
      split at h
      · simp at h
      · rw [solo_query_bind,solo_job_bind] at h
        simp only [JobWrite.exec,Select.eval] at h
        cases hd : s.detachPolicy p (allWhere s.jobs fun j => j.policyID == some id) with
        | none => simp [hd] at h
        | some u =>
          simp [hd] at h
          exact congrArg some h

theorem first_softDelete_ne {α : Type} [Row α] {t : Table α} {now : Time} {id k : UUID}
    (h : k ≠ id) : first (softDelete t now fun r => key r == id) k = first t k := by
  simp only [first,softDelete,Table.find_modify]
  cases hk : t.find k with
  | none => rfl
  | some r =>
    have hid : key r = k := (Table.find_some hk).2
    simp [hid,h]

theorem detachPolicy_spec {p : VgBackupPolicy} {attached : List VgBackupJob} {s t : Store}
    (h : s.detachPolicy p attached = some t) (hn : (attached.map (·.id)).Nodup) :
    (∀ j ∈ attached, Detached p s t j.id) ∧
    (∀ k, k ∉ attached.map (·.id) → Untouched s t k) ∧
    (∀ k, k ≠ p.id → first t.policies k = first s.policies k) ∧
    t.targets = s.targets ∧ t.connections = s.connections := by
  simp only [Store.detachPolicy,Option.map_eq_some_iff] at h
  obtain ⟨u,hu,rfl⟩ := h
  obtain ⟨hin,hout⟩ := detach_fold hu hn
  obtain ⟨_,_,_,hrest⟩ := jobRowsOnly_detachJobs hu
  refine ⟨fun j hj => ⟨(hin j hj).job,(hin j hj).schedule⟩,hout,?_,by rw [hrest],by rw [hrest]⟩
  intro k hk
  have hpol : u.policies = s.policies := by rw [hrest]
  exact (first_softDelete_ne hk).trans (by rw [hpol])

theorem mem_attached {s : Store} {id : UUID} {j : VgBackupJob} (hj : first s.jobs j.id = some j)
    (h : j.policyID = some id) : j ∈ allWhere s.jobs fun j => j.policyID == some id := by
  obtain ⟨hf,hl⟩ := first_some hj
  simp only [allWhere,Table.select,List.mem_filter]
  exact ⟨(Table.find_some hf).1,by simp [hl,h]⟩

theorem attached_of_mem {s : Store} {id : UUID} {j : VgBackupJob}
    (hj : first s.jobs j.id = some j)
    (h : j.id ∈ (allWhere s.jobs fun j => j.policyID == some id).map (·.id)) :
    j.policyID = some id := by
  obtain ⟨hf,-⟩ := first_some hj
  obtain ⟨a,ha,he⟩ := List.mem_map.mp h
  simp only [allWhere,Table.select,List.mem_filter,Bool.and_eq_true,beq_iff_eq] at ha
  have hfa : s.jobs.find a.id = some a := Table.find_of_mem ha.1
  rw [he,hf,Option.some.injEq] at hfa
  rw [hfa]
  exact ha.2.2

theorem nodup_attached (s : Store) (q : VgBackupJob → Bool) :
    ((allWhere s.jobs q).map (·.id)).Nodup :=
  (List.filter_sublist.map _).nodup s.jobs.nodup

theorem preserved_detached {p : VgBackupPolicy} {s t : Store} {id : UUID} {j : VgBackupJob}
    (hp : first s.policies id = some p) (hj : first s.jobs j.id = some j)
    (hpol : j.policyID = some id) (h : Detached p s t j.id) :
    Preserved s t id j ↔ Transferable p j (s.scheduleOf j.id) := by
  obtain ⟨hf,hl⟩ := first_some hj
  have hrow : first t.jobs j.id = some (p.settle s.clock j) := by
    have hlive : live (p.settle s.clock j) = true := hl
    rw [first,h.job,hf]
    simp [hl,hlive]
  have hload : t.loadJob j.id = some (t.preload (p.settle s.clock j)) := by
    rw [Store.loadJob,hrow,Option.map_some]
  have hpre : (s.preload j).policy = some p := by simp [Store.preload,hpol,hp]
  have hbefore : (effectivePolicy (s.preload j)).carried =
      ⟨(p.timing (s.scheduleOf j.id)).1,(p.timing (s.scheduleOf j.id)).2,p.enabled,p.mode,
        p.encrypted,p.retentionDays,p.slaTargetMinutes,p.rpoTargetMinutes,p.rtoTargetMinutes⟩ :=
    effectivePolicy_attached hpre hpol
  have htime : timing (t.preload (p.settle s.clock j)).schedule =
      p.detachedTiming (s.scheduleOf j.id) := h.schedule
  have hafter : (effectivePolicy (t.preload (p.settle s.clock j))).carried =
      ⟨(p.detachedTiming (s.scheduleOf j.id)).1,(p.detachedTiming (s.scheduleOf j.id)).2,j.enabled,
        p.mode,p.encrypted,p.retentionDays,p.slaTargetMinutes,p.rpoTargetMinutes,
        p.rtoTargetMinutes⟩ := by
    rw [effectivePolicy_detached rfl,htime]
    rfl
  simp only [Preserved,hpol,if_pos,hload,Option.some.injEq,exists_eq_left',hbefore,hafter,
    CarriedPolicy.mk.injEq,and_true]
  rw [Transferable,← detachedTiming_iff,Prod.ext_iff]
  constructor
  · rintro ⟨h1,h2,h3⟩
    exact ⟨h3.symm,h1,h2⟩
  · rintro ⟨h3,h1,h2⟩
    exact ⟨h1,h2,h3.symm⟩

theorem deletePolicy_preserves_iff (env : Env) (pid : Nat) (actor : Actor) (param : String)
    (s t : Store)
    (h : serve env pid (.deletePolicy actor param) s = some (t,some ⟨204,.empty⟩)) :
    ∃ id p, env.parseUUID param = some id ∧ first s.policies id = some p ∧
      ∀ j, first s.jobs j.id = some j →
        (Preserved s t id j ↔ (j.policyID = some id → Transferable p j (s.scheduleOf j.id))) := by
  obtain ⟨id,p,hid,hp,hd⟩ := deletePolicy_accepted h
  have hpid : p.id = id := (Table.find_some (first_some hp).1).2
  obtain ⟨hin,hout,hpol,htar,hcon⟩ := detachPolicy_spec hd (nodup_attached s _)
  refine ⟨id,p,hid,hp,?_⟩
  intro j hj
  by_cases ha : j.policyID = some id
  · rw [preserved_detached hp hj ha (hin j (mem_attached hj ha))]
    simp [ha]
  · obtain ⟨h1,h2⟩ := hout j.id fun hm => ha (attached_of_mem hj hm)
    have hpolicy : j.policyID.bind (first t.policies) = j.policyID.bind (first s.policies) := by
      cases hq : j.policyID with
      | none => rfl
      | some q => exact hpol q fun e => ha (by rw [hq,e,hpid])
    have hload : t.loadJob j.id = some (s.preload j) := by
      have hf : first t.jobs j.id = some j := by rw [first,h1]; exact hj
      rw [Store.loadJob,hf,Option.map_some]
      simp only [Store.preload,Store.scheduleOf,h2,hpolicy,htar,hcon]
    simp [Preserved,ha,hload]

def policyParam : String := "00000000-0000-0000-0000-000000000009"

def pausedPolicy : VgBackupPolicy := { retryPolicy with enabled := false }

def pausedStore : Store := { retryStore with policies := singleRow pausedPolicy }

def policyJob : VgBackupJob := { sampleJob with policyID := some 9, connectionID := some 6 }

def policyDeletion : Request := .deletePolicy ⟨.admin,1⟩ policyParam

theorem serve_answer {env : Env} {pid : Nat} {r : Request} {s : Store} {a : Answer}
    (h : (serve env pid r s).map Prod.snd = some a) : ∃ t, serve env pid r s = some (t,a) := by
  obtain ⟨⟨t,b⟩,ht,hb⟩ := Option.map_eq_some_iff.mp h
  exact ⟨t,by rw [ht,← hb]⟩

theorem attached_policy_transfers :
    ∃ t, serve sampleEnv 0 policyDeletion retryStore = some (t,some ⟨204,.empty⟩) ∧
      Preserved retryStore t 9 policyJob := by
  obtain ⟨t,ht⟩ := serve_answer (show (serve sampleEnv 0 policyDeletion retryStore).map Prod.snd =
    some (some ⟨204,.empty⟩) by decide)
  refine ⟨t,ht,?_⟩
  obtain ⟨id,p,hid,hp,hall⟩ := deletePolicy_preserves_iff _ _ _ _ _ _ ht
  obtain rfl : 9 = id := Option.some.inj ((show sampleEnv.parseUUID policyParam = some 9 by
    decide).symm.trans hid)
  obtain rfl : retryPolicy = p := Option.some.inj hp
  exact (hall policyJob rfl).mpr fun _ => ⟨rfl,.inl rfl⟩

theorem paused_policy_deletion_enables_job :
    ∃ t, serve sampleEnv 0 policyDeletion pausedStore = some (t,some ⟨204,.empty⟩) ∧
      first pausedStore.jobs 5 = some policyJob ∧ policyJob.policyID = some pausedPolicy.id ∧
      ¬ Preserved pausedStore t 9 policyJob := by
  have hrun : (serve sampleEnv 0 policyDeletion pausedStore).map
      (fun r => (r.2,(r.1.loadJob 5).map fun j => (effectivePolicy j).carried.enabled)) =
      some (some ⟨204,.empty⟩,some true) := by decide
  obtain ⟨⟨t,a⟩,ht,he⟩ := Option.map_eq_some_iff.mp hrun
  obtain ⟨rfl,hafter⟩ := Prod.mk.inj he
  refine ⟨t,ht,rfl,rfl,?_⟩
  intro hp
  rw [Preserved,if_pos (show policyJob.policyID = some 9 from rfl)] at hp
  obtain ⟨j,hj,heq⟩ := hp
  have hload : t.loadJob 5 = some j := hj
  have hen : (effectivePolicy j).carried.enabled = true := by simpa [hload] using hafter
  rw [heq] at hen
  exact absurd hen (by decide)

end VgBackup
