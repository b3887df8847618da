import ServerHub.VgBackup.ClaimConfig
import ServerHub.VgBackup.Retention
import ServerHub.VgBackup.Outcomes

namespace VgBackup

open Relational Interleave

def AllLive {α : Type} [Row α] (Q : α → Prop) (t : Table α) : Prop :=
  ∀ r ∈ t.rows, live r = true → Q r

section AllLive

variable {α : Type} [Row α] {Q R : α → Prop} {t : Table α}

theorem AllLive.first {id : UUID} {r : α} (h : AllLive Q t) (hr : first t id = some r) : Q r := by
  obtain ⟨hf,hl⟩ := first_some hr
  exact h r (Table.find_some hf).1 hl

theorem AllLive.insert {n : α} (h : AllLive Q t) (hn : Q n) : AllLive Q (t.insert n) := by
  intro r hr hl
  rcases Table.mem_insert hr with hm | rfl
  · exact h r hm hl
  · exact hn

theorem AllLive.modify {p : α → Bool} {f : α → α} {hf : ∀ r, key (f r) = key r}
    (h : AllLive Q t)
    (hq : ∀ r ∈ t.rows, p r = true → live (f r) = true → live r = true ∧ (Q r → Q (f r))) :
    AllLive Q (t.modify p f hf) := by
  intro r hr hlive
  obtain ⟨a,ha,rfl⟩ := (Table.mem_modify hf).mp hr
  by_cases hp : p a = true
  · rw [if_pos hp] at hlive ⊢
    obtain ⟨hl,hstep⟩ := hq a ha hp hlive
    exact hstep (h a ha hl)
  · rw [if_neg hp] at hlive ⊢
    exact h a ha hlive

theorem AllLive.softDelete {now : Time} {p : α → Bool} (h : AllLive Q t) :
    AllLive Q (softDelete t now p) := by
  refine h.modify ?_
  intro r _ _ hl
  rw [live_erased] at hl
  simp at hl

end AllLive

def Connected (connections : Table VgDatabaseConnection) (j : VgBackupJob) : Prop :=
  ∃ id c, j.connectionID = some id ∧ first connections id = some c ∧ c.agentID = j.agentID

structure JobSound (connections : Table VgDatabaseConnection) (j : VgBackupJob) : Prop where
  source : accepted j.sourceType = true
  path : isPathSource j.sourceType = true → blank j.sourcePath = false
  database : isDatabaseSource j.sourceType = true →
    Connected connections j ∨ blank j.sourceDatabase = false
  mode : Usable j.mode
  retention : Retainable j.retentionDays

structure Executable (env : Env) (s : Store) : Prop where
  jobs : AllLive (JobSound s.connections) s.jobs
  schedules : ∀ job r, s.schedules job = some r → Schedulable env r.cronExpr r.timezone

structure PolicySound (env : Env) (p : VgBackupPolicy) : Prop where
  mode : Usable p.mode
  retention : Retainable p.retentionDays
  schedule : Go.trimSpace p.cronExpr ≠ "" →
    Schedulable env p.cronExpr (orUTC (Go.trimSpace p.timezone))

structure Sound (env : Env) (s : Store) : Prop extends Executable env s where
  policies : AllLive (PolicySound env) s.policies

section Writes

variable {env : Env} {s t : Store}

theorem trim_orUTC (raw : String) :
    Go.trimSpace (orUTC (Go.trimSpace raw)) = orUTC (Go.trimSpace raw) := by
  unfold orUTC
  split
  · decide
  · exact Go.trimSpace_trimSpace raw

theorem PolicyChecked.sound {p : VgBackupPolicy} (h : PolicyChecked env p) : PolicySound env p := by
  refine ⟨h.mode,h.retention,?_⟩
  intro hne
  obtain ⟨raw,hraw⟩ := h.trimmed
  refine ⟨h.cron ?_,?_⟩
  · rintro hempty
    rw [hempty] at hne
    simp at hne
  · rw [hraw,trim_orUTC,orUTC_orUTC,← hraw]
    exact h.zone

theorem usable_ne {m : VgBackupMode} (h : Usable m) : m ≠ .other "" := by
  rintro rfl
  rcases h with h | h <;> simp at h

theorem retainable_default {days : Int} (h : Retainable days) :
    Retainable (if days = 0 then 30 else days) := by
  unfold Retainable at h ⊢
  split <;> omega

theorem PolicyChecked.stored {p : VgBackupPolicy} (h : PolicyChecked env p) :
    PolicySound env p.stored := by
  obtain ⟨raw,hraw⟩ := h.trimmed
  refine ⟨?_,retainable_default h.retention,?_⟩
  · show Usable (if p.mode = .other "" then .normal else p.mode)
    rw [if_neg (usable_ne h.mode)]
    exact h.mode
  · intro hne
    have hs := h.sound.schedule hne
    have hz : p.stored.timezone = p.timezone := by
      show orUTC p.timezone = p.timezone
      rw [hraw,orUTC_orUTC]
    rw [hz]
    exact hs

def Kept (cs ds : Table VgDatabaseConnection) (j : VgBackupJob) : Prop :=
  ∀ id c, j.connectionID = some id → first cs id = some c →
    ∃ d, first ds id = some d ∧ d.agentID = c.agentID

theorem JobSound.kept {cs ds : Table VgDatabaseConnection} {j : VgBackupJob}
    (h : JobSound cs j) (hk : Kept cs ds j) : JobSound ds j := by
  refine ⟨h.source,h.path,?_,h.mode,h.retention⟩
  intro hsource
  refine (h.database hsource).imp_left ?_
  rintro ⟨id,c,hid,hc,ha⟩
  obtain ⟨d,hd,hda⟩ := hk id c hid hc
  exact ⟨id,d,hid,hd,hda.trans ha⟩

theorem Sound.setJobs {jobs : Table VgBackupJob} {n : UUID} (h : Sound env s)
    (hj : AllLive (JobSound s.connections) jobs) :
    Sound env { s with jobs := jobs, nextID := n } := ⟨⟨hj,h.schedules⟩,h.policies⟩

theorem Sound.setPolicies {policies : Table VgBackupPolicy} {n : UUID} (h : Sound env s)
    (hp : AllLive (PolicySound env) policies) :
    Sound env { s with policies := policies, nextID := n } := ⟨⟨h.jobs,h.schedules⟩,hp⟩

theorem Sound.setSchedules {schedules : UUID → Option VgBackupSchedule} {n : UUID}
    (h : Sound env s)
    (hs : ∀ job r, schedules job = some r → Schedulable env r.cronExpr r.timezone) :
    Sound env { s with schedules := schedules, nextID := n } := ⟨⟨h.jobs,hs⟩,h.policies⟩

theorem Sound.setConnections {connections : Table VgDatabaseConnection} {n : UUID}
    (h : Sound env s)
    (hk : ∀ j ∈ s.jobs.rows, live j = true → Kept s.connections connections j) :
    Sound env { s with connections := connections, nextID := n } :=
  ⟨⟨fun j hj hl => (h.jobs j hj hl).kept (hk j hj hl),h.schedules⟩,h.policies⟩

theorem Sound.updateJobs {id : UUID} {f : VgBackupJob → VgBackupJob} {hf : ∀ j, (f j).id = j.id}
    (h : Sound env s) (hl : ∀ j, live (f j) = live j)
    (hq : ∀ j, first s.jobs id = some j → JobSound s.connections j →
      JobSound s.connections (f j)) : Sound env (s.updateJobs id f hf) := by
  refine h.setJobs (n := s.nextID) (h.jobs.modify ?_)
  intro j hj hp hlive
  rw [hl] at hlive
  simp only [Bool.and_eq_true,beq_iff_eq] at hp
  obtain ⟨-,rfl⟩ := hp
  have hfind : s.jobs.find j.id = some j := Table.find_of_mem hj
  exact ⟨hlive,hq j (by simp [first,hfind,hlive])⟩

theorem Sound.insertSchedule {job : UUID} {cronExpr timezone : String} (h : Sound env s)
    (hc : Schedulable env cronExpr (orUTC timezone))
    (hx : s.insertSchedule job cronExpr timezone = some t) : Sound env t := by
  unfold Store.insertSchedule at hx
  split at hx
  · simp at hx
  · obtain rfl := Option.some.inj hx
    refine h.setSchedules ?_
    intro k r hr
    by_cases hk : k = job
    · subst hk
      rw [Function.update_self,Option.some.injEq] at hr
      exact hr ▸ hc
    · rw [Function.update_of_ne hk] at hr
      exact h.schedules k r hr

theorem Sound.mapSchedule {job : UUID} {f : VgBackupSchedule → VgBackupSchedule}
    (h : Sound env s) (hf : ∀ r, s.schedules job = some r →
      Schedulable env (f r).cronExpr (f r).timezone) :
    Sound env { s with schedules := Function.update s.schedules job ((s.schedules job).map f) } := by
  refine h.setSchedules (n := s.nextID) ?_
  intro k r hr
  by_cases hk : k = job
  · subst hk
    rw [Function.update_self,Option.map_eq_some_iff] at hr
    obtain ⟨a,ha,rfl⟩ := hr
    exact hf a ha
  · rw [Function.update_of_ne hk] at hr
    exact h.schedules k r hr

theorem Sound.updateSchedule {job : UUID} {cronExpr timezone : String} (h : Sound env s)
    (hc : Schedulable env cronExpr timezone) :
    Sound env (s.updateSchedule job cronExpr timezone) := by
  refine h.mapSchedule ?_
  intro r hr
  split
  · exact hc
  · exact h.schedules job r hr

theorem Sound.deleteSchedules (h : Sound env s) (job : UUID) :
    Sound env (s.deleteSchedules job) := by
  refine h.mapSchedule ?_
  intro r hr
  split <;> exact h.schedules job r hr

theorem Sound.detachJob {p : VgBackupPolicy} {job : VgBackupJob} (h : Sound env s)
    (hp : PolicySound env p) (hx : s.detachJob p job = some t) : Sound env t := by
  have hset : Sound env (s.updateJobs job.id (p.settle s.clock) fun _ => rfl) := by
    refine h.updateJobs (fun _ => rfl) ?_
    intro j _ hj
    exact ⟨hj.source,hj.path,hj.database,hp.mode,hp.retention⟩
  unfold Store.detachJob at hx
  dsimp only at hx
  split at hx
  · rename_i hne
    have hs := hp.schedule hne
    split at hx
    · refine hset.insertSchedule ?_ hx
      rw [orUTC_orUTC]
      exact hs
    · obtain rfl := Option.some.inj hx
      exact hset.updateSchedule hs
  · obtain rfl := Option.some.inj hx
    exact hset

theorem Sound.detachPolicy {p : VgBackupPolicy} {attached : List VgBackupJob} (h : Sound env s)
    (hp : PolicySound env p) (hx : s.detachPolicy p attached = some t) : Sound env t := by
  simp only [Store.detachPolicy,Option.map_eq_some_iff] at hx
  obtain ⟨u,hu,rfl⟩ := hx
  have hall : Sound env s → Sound env u :=
    detachJobs_rel (R := fun s t => Sound env s → Sound env t) (fun _ => id)
      (fun _ _ _ hst htu => htu ∘ hst) (fun _ _ _ hd hs => hs.detachJob hp hd) hu
  exact (hall h).setPolicies (n := u.nextID) (hall h).policies.softDelete

end Writes

def ScheduledAsSent (env : Env) (req : JobRequest) : Prop :=
  validateJobSchedule env req.cronExpr req.timezone = .ok () → req.cronExpr ≠ "" →
    Schedulable env req.cronExpr (orUTC req.timezone)

theorem blank_keptWhenBlank {new old : String} (h : blank old = false) :
    blank (keptWhenBlank new old) = false := by
  unfold keptWhenBlank
  split
  · exact h
  · rename_i hn
    simpa using hn

section Handlers

variable {env : Env} {pid : Nat} {s t : Store} {actor : Actor} {param : String} {a : Reply}

theorem JobCreation.sound {req : JobRequest} (c : JobCreation env s actor req) :
    JobSound s.connections c.row.stored := by
  refine ⟨c.checked.source,?_,?_,?_,retainable_default c.checked.retention⟩
  · intro hsource
    have hp := c.path
    rw [show isPathSource req.sourceType = true from hsource,Bool.true_and] at hp
    exact hp
  · intro hsource
    have hdb : isDatabaseSource req.sourceType = true := hsource
    cases hconn : c.connectionID with
    | none =>
      have hd := c.database
      rw [c.connection.none hconn,hdb,Bool.true_and,Bool.true_and] at hd
      exact .inr hd
    | some k =>
      obtain ⟨conn,hk,-,hagent⟩ := c.connection.some k hconn
      exact .inl ⟨k,conn,hconn,hk,hagent hdb⟩
  · show Usable (if c.mode = .other "" then .normal else c.mode)
    rw [if_neg (usable_ne c.checked.mode)]
    exact c.checked.mode

theorem sound_insertSchedule {job : UUID} {cronExpr timezone : String} (h : Sound env s)
    (hc : Schedulable env cronExpr (orUTC timezone)) :
    Sound env ((JobWrite.insertSchedule job cronExpr timezone).exec s).1 := by
  cases hx : s.insertSchedule job cronExpr timezone with
  | none =>
    simp only [JobWrite.exec,hx]
    exact h
  | some u =>
    simp only [JobWrite.exec,hx]
    exact h.insertSchedule hc hx

theorem sound_createBackupJob {req : JobRequest} (h : Sound env s) (hreq : ScheduledAsSent env req)
    (hx : solo pid (createBackupJob env actor req) s = some (t,a)) : Sound env t := by
  rcases createBackupJob_outcome hx with rfl | ⟨c,rfl⟩
  · exact h
  · have hsound := c.sound
    have hinsert : Sound env (s.insertJob c.row) := by
      refine h.setJobs (h.jobs.insert ?_)
      exact ⟨hsound.source,hsound.path,hsound.database,hsound.mode,hsound.retention⟩
    unfold JobCreation.result
    split
    · rename_i hcron
      refine sound_insertSchedule hinsert ?_
      rw [orUTC_orUTC]
      exact hreq c.checked.schedule hcron
    · exact hinsert

theorem JobUpdate.sound {req : JobRequest} (c : JobUpdate env s actor req) (now : Time)
    (h : JobSound s.connections c.job) :
    JobSound s.connections ((jobPatch req c.job c.mode c.exportFormat c.connectionID
      c.policyID).apply now c.job) := by
  generalize hrow : (jobPatch req c.job c.mode c.exportFormat c.connectionID
    c.policyID).apply now c.job = row
  simp only [JobPatch.apply,jobPatch] at hrow
  have hsource : row.sourceType = c.job.sourceType := by rw [← hrow]
  have hagent : row.agentID = c.job.agentID := by rw [← hrow]
  have hpath : row.sourcePath = keptWhenBlank req.sourcePath c.job.sourcePath := by rw [← hrow]
  have hdatabase : row.sourceDatabase = keptWhenBlank req.sourceDatabase c.job.sourceDatabase := by
    rw [← hrow]
  have hconn : row.connectionID = c.connectionID.or c.job.connectionID := by rw [← hrow]
  have hmode : row.mode = c.mode := by rw [← hrow]
  have hdays : row.retentionDays = req.retentionDays := by rw [← hrow]
  refine ⟨hsource ▸ h.source,?_,?_,hmode ▸ c.checked.mode h.mode,hdays ▸ c.checked.retention⟩
  · rw [hsource,hpath]
    exact c.checked.path
  · rw [hsource,hdatabase]
    intro hdb
    cases hchosen : c.connectionID with
    | some k =>
      obtain ⟨conn,hk,-,hown⟩ := c.connection.some k hchosen
      exact .inl ⟨k,conn,by rw [hconn,hchosen,Option.some_or],hk,(hown hdb).trans hagent.symm⟩
    | none =>
      rcases h.database hdb with ⟨k,conn,hid,hk,hown⟩ | hold
      · exact .inl ⟨k,conn,by rw [hconn,hchosen,Option.none_or,hid],hk,hown.trans hagent.symm⟩
      · exact .inr (blank_keptWhenBlank hold)

theorem sound_savedSchedule {job : UUID} {cronExpr timezone : String} (h : Sound env s)
    (hc : cronExpr ≠ "" → Schedulable env cronExpr (orUTC timezone)) :
    Sound env (s.savedSchedule job cronExpr timezone) := by
  unfold Store.savedSchedule
  split
  · rename_i hcron
    split
    · refine sound_insertSchedule h ?_
      rw [orUTC_orUTC]
      exact hc hcron
    · exact h.updateSchedule (hc hcron)
  · exact h

theorem sound_updateBackupJob {req : JobRequest} (h : Sound env s) (hreq : ScheduledAsSent env req)
    (hx : solo pid (updateBackupJob env actor param req) s = some (t,a)) : Sound env t := by
  rcases updateBackupJob_outcome hx with rfl | ⟨c,rfl⟩
  · exact h
  · refine sound_savedSchedule ?_ (hreq c.checked.schedule)
    refine h.updateJobs (fun _ => rfl) ?_
    intro j hj hsound
    obtain rfl : c.job = j := Option.some.inj (c.stored.symm.trans hj)
    exact c.sound s.clock hsound

theorem sound_deleteBackupJob (h : Sound env s)
    (hx : solo pid (deleteBackupJob env actor param) s = some (t,a)) : Sound env t := by
  rcases deleteBackupJob_outcome hx with rfl | ⟨job,-,-,rfl⟩
  · exact h
  · have hd := h.deleteSchedules job.id
    exact hd.setJobs (n := s.nextID) hd.jobs.softDelete

theorem sound_setJobEnabled {enabled : Bool} (h : Sound env s)
    (hx : solo pid (setJobEnabled env actor param enabled) s = some (t,a)) : Sound env t := by
  rcases setJobEnabled_outcome hx with rfl | ⟨job,-,-,rfl⟩
  · exact h
  · refine h.updateJobs (fun _ => rfl) ?_
    intro j _ hj
    exact ⟨hj.source,hj.path,hj.database,hj.mode,hj.retention⟩

theorem sound_deletePolicy (h : Sound env s)
    (hx : solo pid (deletePolicy env actor param) s = some (t,a)) : Sound env t := by
  rcases deletePolicy_outcome hx with rfl | ⟨p,hp,-,hd⟩
  · exact h
  · exact h.detachPolicy (h.policies.first hp) hd

theorem sound_updatePolicies {id : UUID} {f : VgBackupPolicy → VgBackupPolicy}
    {hf : ∀ p, (f p).id = p.id} (h : Sound env s) (hl : ∀ p, live (f p) = live p)
    (hq : ∀ p, PolicySound env p → PolicySound env (f p)) :
    Sound env (s.updatePolicies id f hf) := by
  refine h.setPolicies (n := s.nextID) (h.policies.modify ?_)
  intro p _ _ hlive
  exact ⟨hl p ▸ hlive,hq p⟩

theorem sound_createPolicy {req : PolicyRequest} (h : Sound env s)
    (hx : solo pid (createPolicy env actor req) s = some (t,a)) : Sound env t := by
  rcases createPolicy_outcome hx with rfl | ⟨want,hwant,rfl⟩
  · exact h
  · have hw := (validatePolicy_checked hwant).stored
    have hinsert : Sound env (s.insertPolicy { want with createdByUserID := actor.userID }) :=
      h.setPolicies (h.policies.insert ⟨hw.mode,hw.retention,hw.schedule⟩)
    refine sound_updatePolicies hinsert (fun _ => rfl) ?_
    intro p hp
    exact ⟨hp.mode,hp.retention,hp.schedule⟩

theorem sound_updatePolicy {req : PolicyRequest} (h : Sound env s)
    (hx : solo pid (updatePolicy env actor param req) s = some (t,a)) : Sound env t := by
  rcases updatePolicy_outcome hx with rfl | ⟨p,want,-,-,hwant,rfl⟩
  · exact h
  · have hw := (validatePolicy_checked hwant).sound
    refine sound_updatePolicies h (fun _ => rfl) ?_
    intro q _
    exact ⟨hw.mode,hw.retention,hw.schedule⟩

theorem kept_updateConnections {id : UUID} {f : VgDatabaseConnection → VgDatabaseConnection}
    (hf : ∀ c, (f c).id = c.id) (hl : ∀ c, live (f c) = live c)
    (ha : ∀ c, (f c).agentID = c.agentID) (j : VgBackupJob) :
    Kept s.connections (s.updateConnections id f hf).connections j := by
  intro k c _ hc
  obtain ⟨hfind,hlive⟩ := first_some hc
  by_cases hp : c.id = id
  · refine ⟨f c,?_,ha c⟩
    simp [first,Store.updateConnections,Table.find_modify,hfind,hp,hl,hlive]
  · refine ⟨c,?_,rfl⟩
    simp [first,Store.updateConnections,Table.find_modify,hfind,hp,hlive]

theorem sound_updateConnection {req : ConnectionRequest} (h : Sound env s)
    (hx : solo pid (updateConnection env actor param req) s = some (t,a)) : Sound env t := by
  rcases updateConnection_outcome hx with rfl | ⟨c,patch,-,-,rfl⟩
  · exact h
  · simp only [JobWrite.exec]
    split
    · exact h
    · exact h.setConnections (n := s.nextID) fun j _ _ =>
        kept_updateConnections (f := patch.apply s.clock) (fun _ => rfl) (fun _ => rfl)
          (fun _ => rfl) j

theorem sound_deleteConnection (h : Sound env s)
    (hx : solo pid (deleteConnection env actor param) s = some (t,a)) : Sound env t := by
  rcases deleteConnection_outcome hx with rfl | ⟨c,-,-,hcount,rfl⟩
  · exact h
  · refine h.setConnections (n := s.nextID) ?_
    intro j hj hl k d hk hd
    have hne : k ≠ c.id := by
      rintro rfl
      have hno := List.countP_eq_zero.mp hcount j hj
      simp [hl,hk] at hno
    refine ⟨d,?_,rfl⟩
    have hid : d.id = k := first_id hd
    simp [first_softDelete,hd,Option.filter,hid,hne]

end Handlers

def Adjusts : Request → Prop
  | .createBackupJob _ _ | .updateBackupJob _ _ _ | .deleteBackupJob _ _ => True
  | .updateConnection _ _ _ | .deleteConnection _ _ => True
  | .createPolicy _ _ | .updatePolicy _ _ _ | .deletePolicy _ _ => True
  | .setJobEnabled _ _ _ => True
  | _ => False

def SentSchedule (env : Env) : Request → Prop
  | .createBackupJob _ req | .updateBackupJob _ _ req => ScheduledAsSent env req
  | _ => True

inductive ServedBy (env : Env) (P : Request → Prop) (s : Store) : Store → Prop
  | start : ServedBy env P s s
  | request {t u : Store} (pid : Nat) (r : Request) (a : Answer) (ht : ServedBy env P s t)
      (hr : P r) (h : serve env pid r t = some (u,a)) : ServedBy env P s u
  | wait {t u : Store} (now : Time) (ht : ServedBy env P s t) (h : advance now t = some u) :
      ServedBy env P s u

def Moored (j j' : VgBackupJob) : Prop :=
  j'.agentID = j.agentID ∧ j'.storageTargetID = j.storageTargetID ∧ j'.sourceType = j.sourceType

def StaysExecutable (env : Env) (P : Request → Prop) (s : Store) : Prop :=
  ∀ t, ServedBy env P s t → Executable env t ∧
    ∀ u, ServedBy env P t u → Grows Moored t.jobs u.jobs

theorem sound_serve {env : Env} {pid : Nat} {r : Request} {s t : Store} {a : Answer}
    (h : Sound env s) (hr : Adjusts r) (hsent : SentSchedule env r)
    (hx : serve env pid r s = some (t,a)) : Sound env t := by
  cases r with
  | createBackupJob actor req =>
    obtain ⟨b,hb⟩ := solo_answered_some hx
    exact sound_createBackupJob h hsent hb
  | updateBackupJob actor param req =>
    obtain ⟨b,hb⟩ := solo_answered_some hx
    exact sound_updateBackupJob h hsent hb
  | deleteBackupJob actor param =>
    obtain ⟨b,hb⟩ := solo_answered_some hx
    exact sound_deleteBackupJob h hb
  | updateConnection actor param req =>
    obtain ⟨b,hb⟩ := solo_answered_some hx
    exact sound_updateConnection h hb
  | deleteConnection actor param =>
    obtain ⟨b,hb⟩ := solo_answered_some hx
    exact sound_deleteConnection h hb
  | createPolicy actor req =>
    obtain ⟨b,hb⟩ := solo_answered_some hx
    exact sound_createPolicy h hb
  | updatePolicy actor param req =>
    obtain ⟨b,hb⟩ := solo_answered_some hx
    exact sound_updatePolicy h hb
  | deletePolicy actor param =>
    obtain ⟨b,hb⟩ := solo_answered_some hx
    exact sound_deletePolicy h hb
  | setJobEnabled actor param enabled =>
    obtain ⟨b,hb⟩ := solo_answered_some hx
    exact sound_setJobEnabled h hb
  | _ => exact hr.elim

theorem sound_servedBy {env : Env} {s t : Store} (h : Sound env s)
    (hst : ServedBy env (fun r => Adjusts r ∧ SentSchedule env r) s t) : Sound env t := by
  induction hst with
  | start => exact h
  | request pid r a _ hr hx ih => exact sound_serve ih hr.1 hr.2 hx
  | wait now _ hx ih =>
    obtain ⟨-,rfl⟩ := advance_eq hx
    exact ⟨⟨ih.jobs,ih.schedules⟩,ih.policies⟩

theorem servedBy_later {env : Env} {P : Request → Prop} {s t : Store}
    (h : ServedBy env P s t) : s.Later t := by
  induction h with
  | start => exact .refl s
  | request pid r a _ _ hx ih => exact ih.trans (serve_later hx)
  | wait now _ hx ih => exact ih.trans (later_advance hx)

theorem jobs_stay_executable (env : Env) (s : Store) (h : Sound env s) :
    StaysExecutable env (fun r => Adjusts r ∧ SentSchedule env r) s := by
  intro t hst
  refine ⟨(sound_servedBy h hst).toExecutable,?_⟩
  intro u htu id j hj
  obtain ⟨j',hj',hl⟩ := (servedBy_later htu).jobs id j hj
  exact ⟨j',hj',congrArg JobOrigin.agentID hl.origin,congrArg JobOrigin.storageTargetID hl.origin,
    congrArg JobOrigin.sourceType hl.origin⟩

theorem sound_sampleStore : Sound sampleEnv sampleStore := by
  refine ⟨⟨?_,by simp [sampleStore]⟩,?_⟩
  · intro j hj _
    obtain rfl := List.mem_singleton.mp hj
    have hdays : Retainable sampleJob.retentionDays := ⟨by decide,by decide⟩
    exact ⟨rfl,by decide,by simp [sampleJob,isDatabaseSource],.inl rfl,hdays⟩
  · intro p hp
    simp [sampleStore,Table.empty] at hp

theorem sample_stays_executable : Sound sampleEnv sampleStore ∧
    StaysExecutable sampleEnv (fun r => Adjusts r ∧ SentSchedule sampleEnv r) sampleStore :=
  ⟨sound_sampleStore,jobs_stay_executable sampleEnv sampleStore sound_sampleStore⟩

def blankCron : Request := .createBackupJob ⟨.admin,1⟩ { jobRequest with cronExpr := "   " }

theorem blank_cron_stored : ¬ StaysExecutable sampleEnv Adjusts sampleStore := by
  intro h
  have hrun : ((serve sampleEnv 0 blankCron sampleStore).map fun r =>
      (r.1.schedules 8).map (·.cronExpr)) = some (some "   ") := by decide
  simp only [Option.map_eq_some_iff] at hrun
  obtain ⟨⟨t,a⟩,ht,r,hr,-⟩ := hrun
  obtain ⟨next,hnext⟩ := ((h t (.request 0 blankCron a .start trivial ht)).1.schedules 8 r hr).cron
  simp [sampleEnv] at hnext

end VgBackup
