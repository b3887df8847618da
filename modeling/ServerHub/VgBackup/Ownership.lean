import ServerHub.VgBackup.Outcomes
import ServerHub.VgBackup.Verification

namespace VgBackup

open Relational Interleave

def roleLevel : BackupRole → Nat
  | .viewer => 1
  | .operator => 2
  | .admin => 3

def BackupRole.text : BackupRole → String
  | .viewer => "viewer"
  | .operator => "operator"
  | .admin => "admin"

def managed : Request → Option (Actor × BackupRole)
  | .createConnection actor _ | .updateConnection actor _ _ | .testConnection actor _ _ =>
      some (actor,.operator)
  | .createPolicy actor _ | .updatePolicy actor _ _ => some (actor,.operator)
  | .createBackupJob actor _ | .updateBackupJob actor _ _ | .setJobEnabled actor _ _
  | .runNow actor _ => some (actor,.operator)
  | .cancelBackupRun actor _ | .verifyRun actor _ | .createRestore actor _ =>
      some (actor,.operator)
  | .deleteConnection actor _ | .deletePolicy actor _ | .deleteBackupJob actor _ =>
      some (actor,.admin)
  | .generateRegistrationToken actor _ | .rotateAgentToken actor _ _ | .revokeAgent actor _ =>
      some (actor,.admin)
  | .generateEnrollmentToken actor _ _ | .revokeEnrollmentToken actor _ => some (actor,.admin)
  | _ => none

def requireRole (minRole : BackupRole) (actor : Actor) (next : Handler Answer) : Handler Answer :=
  if roleLevel actor.role < roleLevel minRole then
    answered (fail 403 ("forbidden: requires " ++ minRole.text ++ " role"))
  else next

def route (env : Env) (r : Request) : Handler Answer :=
  match managed r with
  | some (actor,minRole) => requireRole minRole actor (handle env r)
  | none => handle env r

section Rows

variable {α : Type} [Keyed α]

def Spared (t t' : Table α) (mine : α → Prop) : Prop :=
  ∀ id r, t.find id = some r → ¬ mine r → t'.find id = some r

def Adds (t t' : Table α) (Q : α → Prop) : Prop :=
  ∀ id r, t'.find id = some r → t.find id = none → Q r

variable {t : Table α} {mine Q : α → Prop}

theorem Spared.refl (t : Table α) : Spared t t mine := fun _ _ h _ => h

theorem Adds.refl (t : Table α) : Adds t t Q := by
  intro id r h hn
  rw [hn] at h
  simp at h

theorem spared_modify {p : α → Bool} {f : α → α} {hf : ∀ r, key (f r) = key r}
    (h : ∀ r ∈ t.rows, p r = true → mine r) : Spared t (t.modify p f hf) mine := by
  intro id r hr hn
  have hp : p r ≠ true := fun hp => hn (h r (Table.find_some hr).1 hp)
  rw [Table.find_modify,hr,Option.map_some,if_neg hp]

theorem adds_modify {p : α → Bool} {f : α → α} {hf : ∀ r, key (f r) = key r} :
    Adds t (t.modify p f hf) Q := by
  intro id r hr hn
  rw [Table.find_modify,hn] at hr
  simp at hr

theorem spared_insert (t : Table α) (n : α) : Spared t (t.insert n) mine :=
  fun _ _ h _ => Table.find_insert_of_some h

theorem adds_insert {n : α} (h : Q n) : Adds t (t.insert n) Q := by
  intro id r hr hn
  obtain ⟨hm,hk⟩ := Table.find_some hr
  rcases Table.mem_insert hm with hold | rfl
  · rw [← hk,Table.find_of_mem hold] at hn
    simp at hn
  · exact h

theorem spared_insert_modify {n : α} {k : Nat} {p : α → Bool} {f : α → α}
    {hf : ∀ r, key (f r) = key r} (hk : t.find k = none) (hp : ∀ r, p r = true → key r = k) :
    Spared t ((t.insert n).modify p f hf) mine := by
  intro id r hr _
  have hne : p r ≠ true := by
    intro ht
    rw [← hp r ht,(Table.find_some hr).2,hr] at hk
    simp at hk
  rw [Table.find_modify,Table.find_insert_of_some hr,Option.map_some,if_neg hne]

theorem adds_insert_modify {n : α} {p : α → Bool} {f : α → α} {hf : ∀ r, key (f r) = key r}
    (hn : Q n) (hq : ∀ r, Q r → Q (f r)) : Adds t ((t.insert n).modify p f hf) Q := by
  intro id r hr hnone
  rw [Table.find_modify,Option.map_eq_some_iff] at hr
  obtain ⟨b,hb,rfl⟩ := hr
  have hqb : Q b := adds_insert hn id b hb hnone
  split
  · exact hq b hqb
  · exact hqb

end Rows

section Owners

variable (s : Store) (u : Nat)

def OwnsAgent (id : UUID) : Prop := ∃ a, first s.agents id = some a ∧ a.createdByUserID = u

def OwnsTarget (id : UUID) : Prop := ∃ r, first s.targets id = some r ∧ r.createdByUserID = u

def OwnsConnection (id : UUID) : Prop :=
  ∃ c, first s.connections id = some c ∧ c.createdByUserID = u

def OwnsPolicy (id : UUID) : Prop := ∃ p, first s.policies id = some p ∧ p.createdByUserID = u

def OwnsJob (id : UUID) : Prop := ∃ j, first s.jobs id = some j ∧ j.createdByUserID = u

def OwnsRun (id : UUID) : Prop := ∃ r, first s.runs id = some r ∧ OwnsJob s u r.backupJobID

end Owners

structure OthersKept (u : Nat) (s t : Store) : Prop where
  agents : Spared s.agents t.agents (·.createdByUserID = u)
  targets : Spared s.targets t.targets (·.createdByUserID = u)
  connections : Spared s.connections t.connections (·.createdByUserID = u)
  policies : Spared s.policies t.policies (·.createdByUserID = u)
  jobs : Spared s.jobs t.jobs (·.createdByUserID = u)
  schedules : ∀ job r, s.schedules job = some r → ¬ OwnsJob s u job → t.schedules job = some r
  runs : Spared s.runs t.runs (OwnsJob s u ·.backupJobID)
  artifacts : Spared s.artifacts t.artifacts (OwnsRun s u ·.backupRunID)
  chunks : t.chunks = s.chunks
  baselines : t.baselines = s.baselines
  restores : Spared s.restores t.restores (OwnsRun s u ·.backupRunID)
  tokens : Spared s.tokens t.tokens (·.createdByUserID = u)
  machines : t.machines = s.machines

structure RefersOwn (u : Nat) (s : Store) (j : VgBackupJob) : Prop where
  owner : j.createdByUserID = u
  agent : OwnsAgent s u j.agentID
  target : OwnsTarget s u j.storageTargetID
  connection : ∀ k, j.connectionID = some k → OwnsConnection s u k
  policy : ∀ k, j.policyID = some k → OwnsPolicy s u k

structure OwnRefs (u : Nat) (s t : Store) (run : VgBackupRun → Prop) (restore : VgRestoreJob → Prop) :
    Prop where
  agents : Adds s.agents t.agents fun _ => False
  targets : Adds s.targets t.targets fun _ => False
  connections : Adds s.connections t.connections fun c =>
    c.createdByUserID = u ∧ OwnsAgent s u c.agentID
  policies : Adds s.policies t.policies (·.createdByUserID = u)
  jobs : Adds s.jobs t.jobs (RefersOwn u s)
  runs : Adds s.runs t.runs run
  artifacts : Adds s.artifacts t.artifacts fun _ => False
  restores : Adds s.restores t.restores restore
  tokens : Adds s.tokens t.tokens fun _ => False

def RunOfOwn (u : Nat) (s : Store) (r : VgBackupRun) : Prop :=
  OwnsJob s u r.backupJobID ∧ OwnsAgent s u r.agentID ∧ OwnsTarget s u r.storageTargetID

def RestoreOfOwn (u : Nat) (s : Store) (r : VgRestoreJob) : Prop :=
  OwnsRun s u r.backupRunID ∧ OwnsAgent s u r.agentID ∧
    ∀ k, r.connectionID = some k → OwnsConnection s u k

def RunOfJob (u : Nat) (s : Store) (r : VgBackupRun) : Prop :=
  ∃ j, first s.jobs r.backupJobID = some j ∧ j.createdByUserID = u ∧
    r.agentID = j.agentID ∧ r.storageTargetID = j.storageTargetID

def RestoreOfJob (u : Nat) (s : Store) (r : VgRestoreJob) : Prop :=
  OwnsAgent s u r.agentID ∧ ∃ run j, first s.runs r.backupRunID = some run ∧
    first s.jobs run.backupJobID = some j ∧ j.createdByUserID = u ∧
    ∀ k, r.connectionID = some k → j.connectionID = some k

def KeepsOwnership (env : Env) (u : Nat) (run : Nat → Store → VgBackupRun → Prop)
    (restore : Nat → Store → VgRestoreJob → Prop) : Prop :=
  ∀ pid r actor minRole s t a, managed r = some (actor,minRole) → actor.userID = u →
    actor.role ≠ .admin → s.policies.find s.nextID = none →
    solo pid (route env r) s = some (t,a) →
    OthersKept u s t ∧ OwnRefs u s t (run u s) (restore u s)

section Frames

variable {u : Nat} {s t : Store} {run : VgBackupRun → Prop} {restore : VgRestoreJob → Prop}

theorem OthersKept.refl (u : Nat) (s : Store) : OthersKept u s s :=
  ⟨.refl _,.refl _,.refl _,.refl _,.refl _,fun _ _ h _ => h,.refl _,.refl _,rfl,rfl,.refl _,.refl _,rfl⟩

theorem OwnRefs.refl (u : Nat) (s : Store) : OwnRefs u s s run restore :=
  ⟨.refl _,.refl _,.refl _,.refl _,.refl _,.refl _,.refl _,.refl _,.refl _⟩

def Guarded (u : Nat) (s t : Store) : Prop :=
  OthersKept u s t ∧ OwnRefs u s t (RunOfJob u s) (RestoreOfJob u s)

theorem Guarded.refl (u : Nat) (s : Store) : Guarded u s s := ⟨.refl u s,.refl u s⟩

theorem guarded_connections {connections : Table VgDatabaseConnection} {n : UUID}
    (hs : Spared s.connections connections (·.createdByUserID = u))
    (ha : Adds s.connections connections fun c =>
      c.createdByUserID = u ∧ OwnsAgent s u c.agentID) :
    Guarded u s { s with connections := connections, nextID := n } :=
  ⟨{ (Guarded.refl u s).1 with connections := hs },{ (Guarded.refl u s).2 with connections := ha }⟩

theorem guarded_policies {policies : Table VgBackupPolicy} {n : UUID}
    (hs : Spared s.policies policies (·.createdByUserID = u))
    (ha : Adds s.policies policies (·.createdByUserID = u)) :
    Guarded u s { s with policies := policies, nextID := n } :=
  ⟨{ (Guarded.refl u s).1 with policies := hs },{ (Guarded.refl u s).2 with policies := ha }⟩

theorem guarded_jobs {jobs : Table VgBackupJob} {schedules : UUID → Option VgBackupSchedule}
    {n : UUID} (hs : Spared s.jobs jobs (·.createdByUserID = u))
    (ha : Adds s.jobs jobs (RefersOwn u s))
    (hk : ∀ job r, s.schedules job = some r → ¬ OwnsJob s u job → schedules job = some r) :
    Guarded u s { s with jobs := jobs, schedules := schedules, nextID := n } :=
  ⟨{ (Guarded.refl u s).1 with jobs := hs, schedules := hk },{ (Guarded.refl u s).2 with jobs := ha }⟩

theorem guarded_runs {runs : Table VgBackupRun} {n : UUID}
    (hs : Spared s.runs runs (OwnsJob s u ·.backupJobID))
    (ha : Adds s.runs runs (RunOfJob u s)) : Guarded u s { s with runs := runs, nextID := n } :=
  ⟨{ (Guarded.refl u s).1 with runs := hs },{ (Guarded.refl u s).2 with runs := ha }⟩

theorem guarded_restores {restores : Table VgRestoreJob} {n : UUID}
    (hs : Spared s.restores restores (OwnsRun s u ·.backupRunID))
    (ha : Adds s.restores restores (RestoreOfJob u s)) :
    Guarded u s { s with restores := restores, nextID := n } :=
  ⟨{ (Guarded.refl u s).1 with restores := hs },{ (Guarded.refl u s).2 with restores := ha }⟩

theorem guarded_artifacts {artifacts : Table VgBackupArtifact}
    (hs : Spared s.artifacts artifacts (OwnsRun s u ·.backupRunID))
    (ha : Adds s.artifacts artifacts fun _ => False) :
    Guarded u s { s with artifacts := artifacts } :=
  ⟨{ (Guarded.refl u s).1 with artifacts := hs },{ (Guarded.refl u s).2 with artifacts := ha }⟩

end Frames

section Access

variable {s : Store} {actor : Actor} {u : Nat}

theorem access_own (hr : actor.role ≠ .admin) {owner : Nat}
    (h : canAccessBackupResource actor owner = true) :
    owner = actor.userID ∧ actor.userID ≠ 0 := by
  unfold canAccessBackupResource at h
  split at h
  · simp at h
  · rename_i hne
    cases hrole : actor.role with
    | admin => exact absurd hrole hr
    | viewer =>
      simp only [hrole,beq_iff_eq] at h
      exact ⟨h.symm,hne⟩
    | operator =>
      simp only [hrole,beq_iff_eq] at h
      exact ⟨h.symm,hne⟩

theorem any_own {α : Type} [Row α] (hr : actor.role ≠ .admin) {t : Table α} {id : UUID}
    {owner : α → Nat}
    (h : (first t id).any (fun r => canAccessBackupResource actor (owner r)) = true) :
    ∃ r, first t id = some r ∧ owner r = actor.userID := by
  obtain ⟨r,hf,ha⟩ := (Option.any_eq_true _ _).mp h
  exact ⟨r,hf,(access_own hr ha).1⟩

theorem jobOf_own (hr : actor.role ≠ .admin) {run : VgBackupRun}
    (h : canAccessBackupResource actor (s.jobOf run).row.createdByUserID = true) :
    ∃ j, first s.jobs run.backupJobID = some j ∧ j.createdByUserID = actor.userID ∧
      (s.jobOf run).row = j := by
  obtain ⟨hown,hne⟩ := access_own hr h
  cases hj : first s.jobs run.backupJobID with
  | none =>
    have hzero : (s.jobOf run).row.createdByUserID = 0 := by
      simp [Store.jobOf,Store.loadJob,hj,LoadedJob.zero,VgBackupJob.zero]
    exact absurd (hown.symm.trans hzero) hne
  | some j =>
    have hrow : (s.jobOf run).row = j := by
      simp [Store.jobOf,Store.loadJob,hj,Store.preload]
    exact ⟨j,rfl,hrow ▸ hown,hrow⟩

theorem same_row {α : Type} [Row α] {t : Table α} {id : UUID} {r r' : α} (h : first t id = some r)
    (hr : r' ∈ t.rows) (hk : key r' = id) : r' = r := by
  have hf := Table.find_of_mem hr
  rw [hk,(first_some h).1,Option.some.injEq] at hf
  exact hf.symm

end Access

section Handlers

variable {env : Env} {pid : Nat} {s t : Store} {actor : Actor} {param : String} {a : Reply}

theorem guarded_createConnection (hr : actor.role ≠ .admin) {req : ConnectionRequest}
    (h : solo pid (createConnection env actor req) s = some (t,a)) :
    Guarded actor.userID s t := by
  rcases createConnection_outcome h with rfl | ⟨c,howner,hagent,rfl⟩
  · exact .refl _ _
  · unfold Store.insertConnection
    split
    · exact .refl _ _
    · exact guarded_connections (spared_insert _ _) (adds_insert ⟨howner,any_own hr hagent⟩)

theorem guarded_updateConnections (hr : actor.role ≠ .admin) {c : VgDatabaseConnection}
    (hc : first s.connections c.id = some c)
    (ha : canAccessBackupResource actor c.createdByUserID = true)
    (f : VgDatabaseConnection → VgDatabaseConnection) (hf : ∀ c, (f c).id = c.id) :
    Guarded actor.userID s (s.updateConnections c.id f hf) := by
  refine guarded_connections (n := s.nextID) (spared_modify ?_) adds_modify
  intro r hm hp
  simp only [Bool.and_eq_true,beq_iff_eq] at hp
  rw [same_row hc hm hp.2]
  exact (access_own hr ha).1

theorem guarded_updateConnection (hr : actor.role ≠ .admin) {req : ConnectionRequest}
    (h : solo pid (updateConnection env actor param req) s = some (t,a)) :
    Guarded actor.userID s t := by
  rcases updateConnection_outcome h with rfl | ⟨c,patch,hc,ha,rfl⟩
  · exact .refl _ _
  · simp only [JobWrite.exec]
    split
    · exact .refl _ _
    · exact guarded_updateConnections hr hc ha _ _

theorem guarded_testConnection (hr : actor.role ≠ .admin) {dialFailure : Option String}
    (h : solo pid (testConnection env actor param dialFailure) s = some (t,a)) :
    Guarded actor.userID s t := by
  rcases testConnection_outcome h with rfl | ⟨c,status,hc,ha,rfl⟩
  · exact .refl _ _
  · exact guarded_updateConnections hr hc ha _ _

theorem guarded_createPolicy (hfresh : s.policies.find s.nextID = none) {req : PolicyRequest}
    (h : solo pid (createPolicy env actor req) s = some (t,a)) : Guarded actor.userID s t := by
  rcases createPolicy_outcome h with rfl | ⟨want,-,rfl⟩
  · exact .refl _ _
  · refine guarded_policies (spared_insert_modify hfresh ?_)
      (adds_insert_modify rfl fun _ h => h)
    intro p hp
    simp only [Bool.and_eq_true,beq_iff_eq] at hp
    exact hp.2

theorem guarded_updatePolicy (hr : actor.role ≠ .admin) {req : PolicyRequest}
    (h : solo pid (updatePolicy env actor param req) s = some (t,a)) :
    Guarded actor.userID s t := by
  rcases updatePolicy_outcome h with rfl | ⟨p,want,hp,ha,-,rfl⟩
  · exact .refl _ _
  · refine guarded_policies (n := s.nextID) (spared_modify ?_) adds_modify
    intro r hm hpr
    simp only [Bool.and_eq_true,beq_iff_eq] at hpr
    rw [same_row hp hm hpr.2]
    exact (access_own hr ha).1

theorem insertSchedule_keeps (job : UUID) (cronExpr timezone : String) (s : Store) :
    ∃ schedules n, ((JobWrite.insertSchedule job cronExpr timezone).exec s).1 =
      { s with schedules := schedules, nextID := n } ∧
      ∀ k r, s.schedules k = some r → schedules k = some r := by
  cases hj : s.schedules job with
  | some r =>
    refine ⟨s.schedules,s.nextID,?_,fun _ _ h => h⟩
    simp [JobWrite.exec,Store.insertSchedule,hj]
  | none =>
    refine ⟨Function.update s.schedules job (some
      { id := s.nextID, createdAt := s.clock, updatedAt := s.clock, deletedAt := none
        backupJobID := job, cronExpr := cronExpr, timezone := orUTC timezone }),s.nextID + 1,?_,?_⟩
    · simp [JobWrite.exec,Store.insertSchedule,hj]
    · intro k r hr
      have hne : k ≠ job := by
        rintro rfl
        rw [hj] at hr
        simp at hr
      rw [Function.update_of_ne hne]
      exact hr

theorem guarded_createBackupJob (hr : actor.role ≠ .admin) {req : JobRequest}
    (h : solo pid (createBackupJob env actor req) s = some (t,a)) : Guarded actor.userID s t := by
  rcases createBackupJob_outcome h with rfl | ⟨c,rfl⟩
  · exact .refl _ _
  · have hrow : ∀ base : VgBase, RefersOwn actor.userID s { c.row.stored with toVgBase := base } := by
      intro base
      refine ⟨rfl,any_own hr c.agent,any_own hr c.target,?_,?_⟩
      · intro k hk
        obtain ⟨conn,hconn,ha,-⟩ := c.connection.some k hk
        exact ⟨conn,hconn,(access_own hr ha).1⟩
      · intro k hk
        obtain ⟨p,hp,ha⟩ := c.policy k hk
        exact ⟨p,hp,(access_own hr ha).1⟩
    unfold JobCreation.result
    split
    · obtain ⟨schedules,n,hx,hk⟩ := insertSchedule_keeps s.nextID req.cronExpr
        (orUTC req.timezone) (s.insertJob c.row)
      rw [hx]
      exact guarded_jobs (spared_insert _ _) (adds_insert (hrow _)) fun k r hk' _ => hk k r hk'
    · exact guarded_jobs (spared_insert _ _) (adds_insert (hrow _)) fun _ _ h _ => h

theorem spared_job (hr : actor.role ≠ .admin) {job : VgBackupJob}
    (hj : first s.jobs job.id = some job)
    (ha : canAccessBackupResource actor job.createdByUserID = true)
    (f : VgBackupJob → VgBackupJob) (hf : ∀ j, (f j).id = j.id) :
    Spared s.jobs (s.updateJobs job.id f hf).jobs (·.createdByUserID = actor.userID) := by
  show Spared s.jobs (s.jobs.modify (fun j => live j && j.id == job.id) f hf) _
  refine spared_modify ?_
  intro r hm hp
  simp only [Bool.and_eq_true,beq_iff_eq] at hp
  rw [same_row hj hm hp.2]
  exact (access_own hr ha).1

theorem adds_updateJobs (id : UUID) (f : VgBackupJob → VgBackupJob) (hf : ∀ j, (f j).id = j.id)
    {Q : VgBackupJob → Prop} : Adds s.jobs (s.updateJobs id f hf).jobs Q := by
  show Adds s.jobs (s.jobs.modify (fun j => live j && j.id == id) f hf) Q
  exact adds_modify

theorem savedSchedule_keeps (job : UUID) (cronExpr timezone : String) (s : Store) :
    ∃ schedules n, s.savedSchedule job cronExpr timezone =
      { s with schedules := schedules, nextID := n } ∧
      ∀ k r, k ≠ job → s.schedules k = some r → schedules k = some r := by
  unfold Store.savedSchedule
  split
  · split
    · obtain ⟨schedules,n,hx,hk⟩ := insertSchedule_keeps job cronExpr (orUTC timezone) s
      exact ⟨schedules,n,hx,fun k r _ => hk k r⟩
    · refine ⟨_,s.nextID,rfl,?_⟩
      intro k r hne hk
      rw [Function.update_of_ne hne]
      exact hk
  · exact ⟨s.schedules,s.nextID,rfl,fun _ _ _ h => h⟩

theorem guarded_updateBackupJob (hr : actor.role ≠ .admin) {req : JobRequest}
    (h : solo pid (updateBackupJob env actor param req) s = some (t,a)) :
    Guarded actor.userID s t := by
  rcases updateBackupJob_outcome h with rfl | ⟨c,rfl⟩
  · exact .refl _ _
  · unfold JobUpdate.result
    obtain ⟨schedules,n,hx,hk⟩ := savedSchedule_keeps c.job.id req.cronExpr req.timezone
      (s.updateJobs c.job.id ((jobPatch req c.job c.mode c.exportFormat c.connectionID
        c.policyID).apply s.clock) fun _ => rfl)
    rw [hx]
    refine guarded_jobs (spared_job hr c.stored c.access _ _) (adds_updateJobs _ _ _) ?_
    intro k r hkr hn
    refine hk k r ?_ hkr
    rintro rfl
    exact hn ⟨c.job,c.stored,(access_own hr c.access).1⟩

theorem guarded_updateJobs (hr : actor.role ≠ .admin) {job : VgBackupJob}
    (hj : first s.jobs job.id = some job)
    (ha : canAccessBackupResource actor job.createdByUserID = true)
    (f : VgBackupJob → VgBackupJob) (hf : ∀ j, (f j).id = j.id) :
    Guarded actor.userID s (s.updateJobs job.id f hf) :=
  guarded_jobs (n := s.nextID) (spared_job hr hj ha f hf) (adds_updateJobs job.id f hf)
    fun _ _ h _ => h

theorem guarded_setJobEnabled (hr : actor.role ≠ .admin) {enabled : Bool}
    (h : solo pid (setJobEnabled env actor param enabled) s = some (t,a)) :
    Guarded actor.userID s t := by
  rcases setJobEnabled_outcome h with rfl | ⟨job,hj,ha,rfl⟩
  · exact .refl _ _
  · exact guarded_updateJobs hr hj ha _ _

theorem guarded_runNow (hr : actor.role ≠ .admin)
    (h : solo pid (runNow env actor param) s = some (t,a)) : Guarded actor.userID s t := by
  rcases runNow_outcome h with rfl | ⟨job,hj,ha,rfl⟩
  · exact .refl _ _
  · rcases insertRun_cases s (manualRun job) false with ⟨hs,-⟩ | ⟨-,-,hadd⟩
    · rw [hs]
      exact .refl _ _
    · rw [hadd]
      exact guarded_runs (spared_insert _ _)
        (adds_insert ⟨job,hj,(access_own hr ha).1,rfl,rfl⟩)

theorem guarded_cancelBackupRun (hr : actor.role ≠ .admin)
    (h : solo pid (cancelBackupRun env actor param) s = some (t,a)) :
    Guarded actor.userID s t := by
  rcases cancelBackupRun_outcome h with rfl | ⟨run,hrun,ha,rfl⟩
  · exact .refl _ _
  · refine guarded_runs (n := s.nextID) (spared_modify ?_) adds_modify
    intro r hm hp
    obtain ⟨j,hj,hown,-⟩ := jobOf_own hr ha
    rw [same_row hrun hm (matches_run hp).2.1]
    exact ⟨j,hj,hown⟩

theorem guarded_verifyRun (hr : actor.role ≠ .admin)
    (h : solo pid (verifyRun env actor param) s = some (t,a)) : Guarded actor.userID s t := by
  cases hj : judgedRun env s actor param with
  | none =>
    obtain ⟨reply,hs,-⟩ := verifyRun_refuses pid hj
    rw [h,Option.some.injEq,Prod.mk.injEq] at hs
    rw [hs.1]
    exact .refl _ _
  | some jr =>
    obtain ⟨run,data⟩ := jr
    obtain ⟨id,-,-,hrun,-,-,ha,-⟩ := judgedRun_some hj
    have hs := verifyRun_judges pid hj
    rw [h,Option.some.injEq,Prod.mk.injEq] at hs
    rw [hs.1]
    obtain ⟨j,hjob,hown,-⟩ := jobOf_own hr ha
    refine guarded_artifacts (spared_modify ?_) adds_modify
    intro b _ hp
    simp only [Bool.and_eq_true,beq_iff_eq] at hp
    obtain rfl := first_id hrun
    rw [hp.2]
    exact ⟨run,hrun,j,hjob,hown⟩

theorem guarded_createRestore (hr : actor.role ≠ .admin) {req : RestoreRequest}
    (h : solo pid (createRestore env actor req) s = some (t,a)) : Guarded actor.userID s t := by
  rcases createRestore_outcome h with rfl | ⟨n,run,hrun,ha,hagent,hconn,rfl⟩
  · exact .refl _ _
  · unfold Store.insertRestore
    split
    · exact .refl _ _
    · obtain ⟨j,hj,hown,hrow⟩ := jobOf_own hr ha
      refine guarded_restores (spared_insert _ _) (adds_insert ?_)
      exact ⟨any_own hr hagent,run,j,hrun,hj,hown,fun k hk => hrow ▸ hconn k hk⟩

end Handlers

theorem refused_of_admin {env : Env} {pid : Nat} {r : Request} {actor : Actor} {s t : Store}
    {a : Answer} (hm : managed r = some (actor,.admin)) (hr : actor.role ≠ .admin)
    (h : solo pid (route env r) s = some (t,a)) : t = s := by
  have hlow : roleLevel actor.role < roleLevel .admin := by
    cases hrole : actor.role with
    | admin => exact absurd hrole hr
    | viewer => decide
    | operator => decide
  simp only [route,hm,requireRole,if_pos hlow] at h
  obtain ⟨b,hb⟩ := solo_answered_some h
  exact solo_fail_eq hb

theorem route_operator {env : Env} {pid : Nat} {r : Request} {actor : Actor} {s t : Store}
    {a : Answer} {p : Handler Reply} (hm : managed r = some (actor,.operator))
    (hh : handle env r = answered p) (h : solo pid (route env r) s = some (t,a)) :
    t = s ∨ ∃ b, solo pid p s = some (t,b) := by
  simp only [route,hm,requireRole] at h
  split at h
  · obtain ⟨b,hb⟩ := solo_answered_some h
    exact .inl (solo_fail_eq hb)
  · rw [hh] at h
    exact .inr (solo_answered_some h)

theorem management_keeps_ownership (env : Env) (u : Nat) :
    KeepsOwnership env u RunOfJob RestoreOfJob := by
  rintro pid r actor minRole s t a hm rfl hr hfresh h
  show Guarded actor.userID s t
  have hadmin : managed r = some (actor,.admin) → Guarded actor.userID s t := by
    intro ha
    rw [refused_of_admin ha hr h]
    exact .refl _ _
  have hop : ∀ p, handle env r = answered p → managed r = some (actor,.operator) →
      (∀ b, solo pid p s = some (t,b) → Guarded actor.userID s t) → Guarded actor.userID s t := by
    intro p hh hmo hg
    rcases route_operator hmo hh h with rfl | ⟨b,hb⟩
    · exact .refl _ _
    · exact hg b hb
  cases r with
  | createConnection actor' req =>
    obtain ⟨rfl,-⟩ := Prod.mk.inj (Option.some.inj hm)
    exact hop _ rfl rfl fun _ => guarded_createConnection hr
  | updateConnection actor' param req =>
    obtain ⟨rfl,-⟩ := Prod.mk.inj (Option.some.inj hm)
    exact hop _ rfl rfl fun _ => guarded_updateConnection hr
  | testConnection actor' param dialFailure =>
    obtain ⟨rfl,-⟩ := Prod.mk.inj (Option.some.inj hm)
    exact hop _ rfl rfl fun _ => guarded_testConnection hr
  | createPolicy actor' req =>
    obtain ⟨rfl,-⟩ := Prod.mk.inj (Option.some.inj hm)
    exact hop _ rfl rfl fun _ => guarded_createPolicy hfresh
  | updatePolicy actor' param req =>
    obtain ⟨rfl,-⟩ := Prod.mk.inj (Option.some.inj hm)
    exact hop _ rfl rfl fun _ => guarded_updatePolicy hr
  | createBackupJob actor' req =>
    obtain ⟨rfl,-⟩ := Prod.mk.inj (Option.some.inj hm)
    exact hop _ rfl rfl fun _ => guarded_createBackupJob hr
  | updateBackupJob actor' param req =>
    obtain ⟨rfl,-⟩ := Prod.mk.inj (Option.some.inj hm)
    exact hop _ rfl rfl fun _ => guarded_updateBackupJob hr
  | setJobEnabled actor' param enabled =>
    obtain ⟨rfl,-⟩ := Prod.mk.inj (Option.some.inj hm)
    exact hop _ rfl rfl fun _ => guarded_setJobEnabled hr
  | runNow actor' param =>
    obtain ⟨rfl,-⟩ := Prod.mk.inj (Option.some.inj hm)
    exact hop _ rfl rfl fun _ => guarded_runNow hr
  | cancelBackupRun actor' param =>
    obtain ⟨rfl,-⟩ := Prod.mk.inj (Option.some.inj hm)
    exact hop _ rfl rfl fun _ => guarded_cancelBackupRun hr
  | verifyRun actor' param =>
    obtain ⟨rfl,-⟩ := Prod.mk.inj (Option.some.inj hm)
    exact hop _ rfl rfl fun _ => guarded_verifyRun hr
  | createRestore actor' req =>
    obtain ⟨rfl,-⟩ := Prod.mk.inj (Option.some.inj hm)
    exact hop _ rfl rfl fun _ => guarded_createRestore hr
  | deleteConnection actor' param =>
    obtain ⟨rfl,-⟩ := Prod.mk.inj (Option.some.inj hm)
    exact hadmin rfl
  | deletePolicy actor' param =>
    obtain ⟨rfl,-⟩ := Prod.mk.inj (Option.some.inj hm)
    exact hadmin rfl
  | deleteBackupJob actor' param =>
    obtain ⟨rfl,-⟩ := Prod.mk.inj (Option.some.inj hm)
    exact hadmin rfl
  | generateRegistrationToken actor' draw =>
    obtain ⟨rfl,-⟩ := Prod.mk.inj (Option.some.inj hm)
    exact hadmin rfl
  | rotateAgentToken actor' draw param =>
    obtain ⟨rfl,-⟩ := Prod.mk.inj (Option.some.inj hm)
    exact hadmin rfl
  | revokeAgent actor' param =>
    obtain ⟨rfl,-⟩ := Prod.mk.inj (Option.some.inj hm)
    exact hadmin rfl
  | generateEnrollmentToken actor' draw req =>
    obtain ⟨rfl,-⟩ := Prod.mk.inj (Option.some.inj hm)
    exact hadmin rfl
  | revokeEnrollmentToken actor' param =>
    obtain ⟨rfl,-⟩ := Prod.mk.inj (Option.some.inj hm)
    exact hadmin rfl
  | _ => simp [managed] at hm

def foreignStore : Store :=
  { sampleStore with
    agents := singleRow { sampleAgent with createdByUserID := 2 }, runs := .empty }

theorem run_on_foreign_agent : ¬ KeepsOwnership sampleEnv 1 RunOfOwn RestoreOfOwn := by
  intro h
  have hrun : ((solo 0 (route sampleEnv (.runNow ⟨.operator,1⟩ jobParam)) foreignStore).map fun r =>
      (r.1.runs.find 8).map (·.agentID)) = some (some 3) := by decide
  simp only [Option.map_eq_some_iff] at hrun
  obtain ⟨⟨t,a⟩,ht,r,hr,hagent⟩ := hrun
  obtain ⟨-,⟨g,hg,howner⟩,-⟩ := (h 0 _ ⟨.operator,1⟩ .operator foreignStore t a rfl rfl (by decide)
    (by decide) ht).2.runs 8 r hr (by decide)
  rw [hagent] at hg
  have hother : first foreignStore.agents 3 = some { sampleAgent with createdByUserID := 2 } := by
    decide
  rw [hother,Option.some.injEq] at hg
  rw [← hg] at howner
  simp at howner

end VgBackup
