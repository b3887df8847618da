import ServerHub.Interleave.History
import ServerHub.VgBackup.System

namespace VgBackup

open Relational Interleave

structure RunOrigin where
  id : UUID
  createdAt : Time
  backupJobID : UUID
  agentID : UUID
  storageTargetID : UUID
  sourceType : VgBackupSourceType
  scheduledFor : Option Time
  retryOfRunID : Option UUID
  retryAttempt : Int
deriving DecidableEq

def VgBackupRun.origin (r : VgBackupRun) : RunOrigin :=
  ⟨r.id,r.createdAt,r.backupJobID,r.agentID,r.storageTargetID,r.sourceType,r.scheduledFor,
    r.retryOfRunID,r.retryAttempt⟩

structure JobOrigin where
  id : UUID
  createdByUserID : Nat
  agentID : UUID
  storageTargetID : UUID
  sourceType : VgBackupSourceType
deriving DecidableEq

def VgBackupJob.origin (j : VgBackupJob) : JobOrigin :=
  ⟨j.id,j.createdByUserID,j.agentID,j.storageTargetID,j.sourceType⟩

structure VgBackupRun.Later (r r' : VgBackupRun) : Prop where
  origin : r'.origin = r.origin
  claimed : r.status ≠ .pending → r'.status ≠ .pending
  finished : r.status.terminal = true → r'.status.terminal = true
  gone : live r' = true → live r = true

structure VgRestoreJob.Later (r r' : VgRestoreJob) : Prop where
  restoreKey : r'.restoreKey = r.restoreKey
  active : r'.status.active = true → r.status.active = true
  gone : live r' = true → live r = true

structure VgBackupJob.Later (j j' : VgBackupJob) : Prop where
  origin : j'.origin = j.origin
  gone : live j' = true → live j = true

def Grows {α : Type} [Keyed α] (R : α → α → Prop) (t u : Table α) : Prop :=
  ∀ id r, t.find id = some r → ∃ r', u.find id = some r' ∧ R r r'

structure Store.Later (s t : Store) : Prop where
  clock : s.clock ≤ t.clock
  targets : t.targets = s.targets
  runs : Grows VgBackupRun.Later s.runs t.runs
  jobs : Grows VgBackupJob.Later s.jobs t.jobs
  restores : Grows VgRestoreJob.Later s.restores t.restores

theorem VgBackupRun.Later.refl (r : VgBackupRun) : r.Later r := ⟨rfl,id,id,id⟩

theorem VgBackupJob.Later.refl (j : VgBackupJob) : j.Later j := ⟨rfl,id⟩

theorem VgRestoreJob.Later.refl (r : VgRestoreJob) : r.Later r := ⟨rfl,id,id⟩

theorem VgBackupRun.Later.trans {a b c : VgBackupRun} (h : a.Later b) (k : b.Later c) :
    a.Later c :=
  ⟨k.origin.trans h.origin,k.claimed ∘ h.claimed,k.finished ∘ h.finished,h.gone ∘ k.gone⟩

theorem VgBackupJob.Later.trans {a b c : VgBackupJob} (h : a.Later b) (k : b.Later c) :
    a.Later c :=
  ⟨k.origin.trans h.origin,h.gone ∘ k.gone⟩

theorem VgRestoreJob.Later.trans {a b c : VgRestoreJob} (h : a.Later b) (k : b.Later c) :
    a.Later c :=
  ⟨k.restoreKey.trans h.restoreKey,h.active ∘ k.active,h.gone ∘ k.gone⟩

section Grows

variable {α : Type} [Keyed α] {R : α → α → Prop}

theorem Grows.refl (hr : ∀ r, R r r) (t : Table α) : Grows R t t :=
  fun _ r h => ⟨r,h,hr r⟩

theorem Grows.trans (ht : ∀ a b c, R a b → R b c → R a c) {t u v : Table α}
    (h : Grows R t u) (k : Grows R u v) : Grows R t v := by
  intro id r hr
  obtain ⟨r',hr',h1⟩ := h id r hr
  obtain ⟨r'',hr'',h2⟩ := k id r' hr'
  exact ⟨r'',hr'',ht _ _ _ h1 h2⟩

theorem grows_insert (hr : ∀ r, R r r) (t : Table α) (n : α) : Grows R t (t.insert n) :=
  fun _ r h => ⟨r,Table.find_insert_of_some h,hr r⟩

theorem grows_modify (hr : ∀ r, R r r) {t : Table α} {p : α → Bool} {f : α → α}
    {hf : ∀ r, key (f r) = key r} (h : ∀ r ∈ t.rows, p r = true → R r (f r)) :
    Grows R t (t.modify p f hf) := by
  intro id r hfind
  refine ⟨if p r then f r else r,by rw [Table.find_modify,hfind]; rfl,?_⟩
  split
  · rename_i hp
    exact h r (Table.find_some hfind).1 hp
  · exact hr r

end Grows

theorem Store.Later.refl (s : Store) : s.Later s :=
  ⟨Int.le_refl _,rfl,.refl .refl _,.refl .refl _,.refl .refl _⟩

theorem Store.Later.trans {s t u : Store} (h : s.Later t) (k : t.Later u) : s.Later u :=
  ⟨Int.le_trans h.clock k.clock,k.targets.trans h.targets,
    h.runs.trans (fun _ _ _ => .trans) k.runs,
    h.jobs.trans (fun _ _ _ => .trans) k.jobs,
    h.restores.trans (fun _ _ _ => .trans) k.restores⟩

theorem later_of_runs {s : Store} {t : Table VgBackupRun} {n : UUID} {l : UUID → Option Nat}
    (h : Grows VgBackupRun.Later s.runs t) :
    s.Later { s with runs := t, nextID := n, runLock := l } :=
  ⟨Int.le_refl _,rfl,h,.refl .refl _,.refl .refl _⟩

theorem later_of_jobs {s : Store} {t : Table VgBackupJob}
    {f : UUID → Option VgBackupSchedule} {p : Table VgBackupPolicy}
    {c : Table VgDatabaseConnection} {n : UUID} (h : Grows VgBackupJob.Later s.jobs t) :
    s.Later { s with jobs := t, schedules := f, policies := p, connections := c, nextID := n } :=
  ⟨Int.le_refl _,rfl,.refl .refl _,h,.refl .refl _⟩

theorem later_of_restores {s : Store} {t : Table VgRestoreJob} {n : UUID}
    (h : Grows VgRestoreJob.Later s.restores t) : s.Later { s with restores := t, nextID := n } :=
  ⟨Int.le_refl _,rfl,.refl .refl _,.refl .refl _,h⟩

def accepted : VgBackupSourceType → Bool
  | .other _ => false
  | _ => true

def Grounded (s : Store) (n : NewRun) : Prop :=
  ∃ j, s.jobs.find n.backupJobID = some j ∧ n.agentID = j.agentID ∧
    n.storageTargetID = j.storageTargetID ∧ n.sourceType = j.sourceType

inductive RunBacked (s : Store) : RunWhere → RunPatch → Prop
  | claim (id agent : UUID) (now : Time) :
      RunBacked s { id := id, agent := some agent, status := some .pending }
        { status := some .running, startedAt := some now }
  | report (run : VgBackupRun) (req : RunReport) (st : RunStatus) (now : Time)
      (wrapped : Option String) (h : canTransition run.status st = true) (hn : now ≤ s.clock) :
      RunBacked s { id := run.id, status := some run.status } (req.transition st run now wrapped)
  | progress (id : UUID) (req : RunReport) : RunBacked s { id := id } req.counters
  | cancel (run : VgBackupRun) : RunBacked s { id := run.id } (cancelPatch run)
  | credential (run : VgBackupRun) (now : Time) (hn : now ≤ s.clock)
      (h : ∀ r, s.runs.find run.id = some r → r.status ≠ .pending) :
      RunBacked s { id := run.id } (credentialFailure run now)
  | stale (run : VgBackupRun) (now : Time) (h : run.status.active = true) (hn : now ≤ s.clock) :
      RunBacked s { id := run.id, status := some run.status } (stalePatch now run)

def RunWrite.Backed (s : Store) : {β : Type} → RunWrite β → Prop
  | _, .update w p => RunBacked s w p
  | _, .insert n _ => Grounded s n ∧ n.retryOfRunID = none ∧ n.retryAttempt = 0
  | _, .insertCommit n => Grounded s n
  | _, _ => True

def RestoreWrite.Backed : {β : Type} → RestoreWrite β → Prop
  | _, .insert _ => True
  | _, .update w p => p.status.active = true → ∃ a, w.status = some a ∧ a.active = true

def JobWrite.Backed (s : Store) : {β : Type} → JobWrite β → Prop
  | _, .insert j => accepted j.sourceType = true ∧ (first s.targets j.storageTargetID).isSome
  | _, _ => True

def Stmt.Backed (s : Store) {β : Type} : Stmt β → Prop
  | .run w => w.Backed s
  | .restore w => w.Backed
  | .job w => w.Backed s
  | _ => True

section Rows

variable {α : Type} [Row α]

theorem first_some {t : Table α} {id : UUID} {r : α} (h : first t id = some r) :
    t.find id = some r ∧ live r = true := by
  simpa [first,Option.filter_eq_some_iff] using h

theorem first_id {t : Table α} {id : UUID} {r : α} (h : first t id = some r) : key r = id :=
  (Table.find_some (first_some h).1).2

theorem live_erased (now : Time) (r : α) : live (erased now r) = false := by
  simp [live,erased,Row.base_setBase,VgBase.live]

end Rows

theorem matches_run {w : RunWhere} {r : VgBackupRun} (h : w.matches r = true) :
    live r = true ∧ r.id = w.id ∧ (∀ a, w.status = some a → r.status = a) := by
  simp only [RunWhere.matches,Bool.and_eq_true,beq_iff_eq] at h
  refine ⟨h.1.1.1,h.1.1.2,?_⟩
  intro a ha
  have hs := h.2
  simp only [ha,Option.all_some,beq_iff_eq] at hs
  exact hs.symm

theorem matches_restore {w : RestoreWhere} {r : VgRestoreJob} (h : w.matches r = true) :
    live r = true ∧ r.id = w.id ∧ (∀ a, w.status = some a → r.status = a) := by
  simp only [RestoreWhere.matches,Bool.and_eq_true,beq_iff_eq] at h
  refine ⟨h.1.1.1,h.1.1.2,?_⟩
  intro a ha
  have hs := h.2
  simp only [ha,Option.all_some,beq_iff_eq] at hs
  exact hs.symm

theorem update_exec {pid : Nat} {s t : Store} {w : RunWhere} {p : RunPatch} {n : Nat}
    (h : (RunWrite.update w p).exec pid s = some (t,n)) :
    t = s.updateRun w p ∧ n = s.runs.count w.matches ∧
      ¬(s.held pid w.id = true ∧ s.runs.rows.any w.matches = true) := by
  simp only [RunWrite.exec] at h
  split at h
  · simp at h
  · rename_i hb
    simp only [Option.some.injEq,Prod.mk.injEq] at h
    refine ⟨h.1.symm,h.2.symm,?_⟩
    simpa using hb

theorem active_terminal {a : RunStatus} (h : a.active = true) : a.terminal = false := by
  cases a <;> simp_all [RunStatus.active,RunStatus.terminal]

inductive RunUnguarded (s : Store) : RunWhere → RunPatch → Prop
  | progress (id : UUID) (req : RunReport) : RunUnguarded s { id := id } req.counters
  | cancel (run : VgBackupRun) : RunUnguarded s { id := run.id } (cancelPatch run)
  | credential (run : VgBackupRun) (now : Time) (hn : now ≤ s.clock) :
      RunUnguarded s { id := run.id } (credentialFailure run now)

theorem RunBacked.unguarded {s : Store} {w : RunWhere} {p : RunPatch} (h : RunBacked s w p)
    {r : VgBackupRun} (hm : w.matches r = true) (ht : r.status.terminal = true) :
    RunUnguarded s w p := by
  obtain ⟨-,-,hs⟩ := matches_run hm
  cases h with
  | claim id agent now =>
    rw [hs _ rfl] at ht
    simp [RunStatus.terminal] at ht
  | report run req st now wrapped hc hn =>
    rw [hs _ rfl,canTransition_terminal hc] at ht
    simp at ht
  | progress id req => exact .progress id req
  | cancel run => exact .cancel run
  | credential run now hn hpend => exact .credential run now hn
  | stale run now ha hn =>
    rw [hs _ rfl,active_terminal ha] at ht
    simp at ht

theorem RunBacked.later {s : Store} {w : RunWhere} {p : RunPatch} (h : RunBacked s w p)
    {r : VgBackupRun} (hm : w.matches r = true) (now : Time) : r.Later (p.apply now r) := by
  refine ⟨rfl,?_,?_,id⟩
  · intro hr
    cases h with
    | claim id agent t => simp [RunPatch.apply]
    | report run req st t wrapped hc =>
      simpa [RunPatch.apply,RunReport.transition] using canTransition_not_pending hc
    | progress id req => simpa [RunPatch.apply,RunReport.counters] using hr
    | cancel run =>
      simp only [RunPatch.apply,cancelPatch]
      split
      · simp
      · simpa using hr
    | credential run t => simp [RunPatch.apply,credentialFailure]
    | stale run t =>
      simp only [RunPatch.apply,stalePatch,Option.getD_some]
      split <;> simp
  · intro hr
    cases h.unguarded hm hr with
    | progress id req => simpa [RunPatch.apply,RunReport.counters] using hr
    | cancel run =>
      simp only [RunPatch.apply,cancelPatch]
      split
      · rfl
      · simpa using hr
    | credential run t => rfl

theorem runs_softDelete (t : Table VgBackupRun) (now : Time) (p : VgBackupRun → Bool) :
    Grows VgBackupRun.Later t (softDelete t now p) := by
  refine grows_modify .refl ?_
  intro r _ _
  refine ⟨rfl,id,id,?_⟩
  intro h
  rw [live_erased] at h
  simp at h

theorem jobs_softDelete (t : Table VgBackupJob) (now : Time) (p : VgBackupJob → Bool) :
    Grows VgBackupJob.Later t (softDelete t now p) := by
  refine grows_modify .refl ?_
  intro j _ _
  refine ⟨rfl,?_⟩
  intro h
  rw [live_erased] at h
  simp at h

theorem insertRun_cases (s : Store) (n : NewRun) (b : Bool) :
    ((s.insertRun n b).1 = s ∧ ∀ id, (s.insertRun n b).2 ≠ .created id) ∨
    (s.retryTaken n = false ∧ s.scheduledTaken n = false ∧
      s.insertRun n b = (s.addRun n,.created s.nextID)) := by
  unfold Store.insertRun
  cases h1 : s.retryTaken n with
  | true => exact .inl ⟨rfl,by simp⟩
  | false =>
    cases h2 : s.scheduledTaken n with
    | true =>
      refine .inl ⟨rfl,?_⟩
      intro id
      cases b <;> simp
    | false => exact .inr ⟨rfl,rfl,rfl⟩

theorem later_insertRun (s : Store) (n : NewRun) (b : Bool) : s.Later (s.insertRun n b).1 := by
  rcases insertRun_cases s n b with ⟨h,-⟩ | ⟨-,-,h⟩
  · rw [h]
    exact .refl s
  · rw [h]
    exact later_of_runs (grows_insert .refl _ _)

theorem later_unlock (s : Store) (pid : Nat) : s.Later (s.unlock pid) :=
  later_of_runs (.refl .refl _)

theorem RunWrite.Backed.later {s t : Store} {pid : Nat} {β : Type} {w : RunWrite β} {b : β}
    (h : w.Backed s) (hx : w.exec pid s = some (t,b)) : s.Later t := by
  cases run_effect hx with
  | update w p =>
    exact later_of_runs (grows_modify .refl fun r _ hm => RunBacked.later h hm s.clock)
  | insert n c => exact later_insertRun s n c
  | delete id => exact later_of_runs (runs_softDelete _ _ _)
  | lock id l r => exact later_of_runs (.refl .refl _)
  | insertCommit n => exact (later_insertRun s n false).trans (later_unlock _ pid)
  | commit => exact later_unlock s pid

theorem RestoreWrite.Backed.later {s : Store} {β : Type} {w : RestoreWrite β}
    (h : w.Backed) : s.Later (w.exec s).1 := by
  cases w with
  | insert n =>
    simp only [RestoreWrite.exec,Store.insertRestore]
    split
    · exact .refl s
    · exact later_of_restores (grows_insert .refl _ _)
  | update w p =>
    rcases updateRestore_cases s w p with he | he
    · rw [he]
      exact .refl s
    · rw [he]
      refine later_of_restores (grows_modify .refl ?_)
      intro r _ hm
      obtain ⟨-,-,hs⟩ := matches_restore hm
      refine ⟨rfl,?_,id⟩
      intro ha
      obtain ⟨a,hw,haa⟩ := h ha
      rw [hs a hw]
      exact haa

theorem later_updateJobs {s : Store} {id : UUID} {f : VgBackupJob → VgBackupJob}
    {hf : ∀ j, (f j).id = j.id} (h : ∀ j : VgBackupJob, j.Later (f j)) :
    s.Later (s.updateJobs id f hf) :=
  later_of_jobs (grows_modify .refl fun j _ _ => h j)

theorem later_detachJob {p : VgBackupPolicy} {s t : Store} {job : VgBackupJob}
    (h : s.detachJob p job = some t) : s.Later t := by
  obtain ⟨_,_,rfl⟩ := detachJob_eq h
  have hu : s.Later (s.updateJobs job.id (p.settle s.clock) fun _ => rfl) :=
    later_updateJobs fun _ => ⟨rfl,id⟩
  exact later_of_jobs hu.jobs

theorem later_detachPolicy {p : VgBackupPolicy} {attached : List VgBackupJob} {s t : Store}
    (h : s.detachPolicy p attached = some t) : s.Later t := by
  simp only [Store.detachPolicy,Option.map_eq_some_iff] at h
  obtain ⟨u,hu,rfl⟩ := h
  have hl : s.Later u :=
    detachJobs_rel (R := Store.Later) .refl (fun _ _ _ => .trans) (fun _ _ _ => later_detachJob) hu
  exact hl.trans (later_of_jobs (.refl .refl _))

theorem JobWrite.later {s : Store} {β : Type} (w : JobWrite β) : s.Later (w.exec s).1 := by
  cases w with
  | insert j => exact later_of_jobs (grows_insert .refl _ _)
  | update id p => exact later_updateJobs fun _ => ⟨rfl,fun h => h⟩
  | delete id => exact later_of_jobs (jobs_softDelete _ _ _)
  | insertSchedule job cronExpr timezone =>
    simp only [JobWrite.exec]
    split
    · rename_i t h
      obtain ⟨_,_,rfl⟩ := insertSchedule_eq h
      exact later_of_jobs (.refl .refl _)
    · exact .refl s
  | updateSchedule job cronExpr timezone => exact later_of_jobs (.refl .refl _)
  | deleteSchedules job => exact later_of_jobs (.refl .refl _)
  | detachPolicy p attached =>
    simp only [JobWrite.exec]
    split
    · rename_i t h
      exact later_detachPolicy h
    · exact .refl s
  | setEnabled id enabled => exact later_updateJobs fun _ => ⟨rfl,fun h => h⟩
  | insertPolicy p => exact later_of_jobs (.refl .refl _)
  | flagPolicy id enabled encrypted verificationEnabled => exact later_of_jobs (.refl .refl _)
  | updatePolicy id p => exact later_of_jobs (.refl .refl _)
  | insertConnection c =>
    simp only [JobWrite.exec,Store.insertConnection]
    split
    · exact .refl s
    · exact later_of_jobs (.refl .refl _)
  | updateConnection id p =>
    simp only [JobWrite.exec]
    split
    · exact .refl s
    · exact later_of_jobs (.refl .refl _)
  | checkConnection id status now => exact later_of_jobs (.refl .refl _)
  | deleteConnection id => exact later_of_jobs (.refl .refl _)

theorem SideWrite.later {s : Store} {β : Type} (w : SideWrite β) : s.Later (w.exec s).1 := by
  obtain ⟨_,_,_,_,_,_,ht⟩ := sideOnly_exec s w
  rw [ht]
  exact ⟨Int.le_refl _,rfl,.refl .refl _,.refl .refl _,.refl .refl _⟩

theorem AgentWrite.later {s t : Store} {pid : Nat} {β : Type} {w : AgentWrite β} {b : β}
    (h : w.exec pid s = some (t,b)) : s.Later t := by
  obtain ⟨_,_,_,_,_,rfl⟩ := agentsOnly_exec h
  exact ⟨Int.le_refl _,rfl,.refl .refl _,.refl .refl _,.refl .refl _⟩

theorem Stmt.Backed.later {s t : Store} {pid : Nat} {β : Type} {i : Stmt β} {b : β}
    (h : i.Backed s) (hx : i.exec pid s = some (t,b)) : s.Later t := by
  cases stmt_effect hx with
  | select q => exact .refl s
  | run he hw => exact RunWrite.Backed.later h hw
  | restore w => exact RestoreWrite.Backed.later h
  | job w => exact w.later
  | side w => exact w.later
  | agent hx => exact AgentWrite.later hx

theorem later_advance {s t : Store} {now : Time} (h : advance now s = some t) : s.Later t := by
  obtain ⟨hc,rfl⟩ := advance_eq h
  exact ⟨hc,rfl,.refl .refl _,.refl .refl _,.refl .refl _⟩

inductive Note where
  | loaded (jobs : List LoadedJob)
  | counted (job : UUID) (n : Nat)
  | latest (run : VgBackupRun)
  | created (job : UUID)
  | found (run : UUID) (there : Bool)
  | restores (run : UUID) (n : Nat)
  | restored (run : UUID)
  | deleted (run : UUID)
deriving DecidableEq

namespace Note

def countOf (job : UUID) : Note → Bool
  | .counted j _ => j == job
  | _ => false

def createOf (job : UUID) : Note → Bool
  | .created j => j == job
  | _ => false

def foundOf (run : UUID) : Note → Bool
  | .found r _ => r == run
  | _ => false

def restoresOf (run : UUID) : Note → Bool
  | .restores r _ => r == run
  | _ => false

def restoredOf (run : UUID) : Note → Bool
  | .restored r => r == run
  | _ => false

def deleteOf (run : UUID) : Note → Bool
  | .deleted r => r == run
  | _ => false

end Note

def Select.note : {β : Type} → Select β → β → Option Note
  | _, .loadJob _, job => some (.loaded job.toList)
  | _, .allJobs, jobs => some (.loaded jobs)
  | _, .inflight job, n => some (.counted job n)
  | _, .latestRun _, run => run.map .latest
  | _, .loadRun id, run => some (.found id run.isSome)
  | _, .activeRestores run, n => some (.restores run n)
  | _, _, _ => none

def Insert.made : Insert → Bool
  | .created _ => true
  | _ => false

def Insert.note (n : Note) : Insert → Option Note
  | .created _ => some n
  | _ => none

def RunWrite.note : {β : Type} → RunWrite β → β → Option Note
  | _, .insert n _, out => out.note (.created n.backupJobID)
  | _, .insertCommit n, out => out.note (.created n.backupJobID)
  | _, .delete id, _ => some (.deleted id)
  | _, _, _ => none

def RestoreWrite.note : {β : Type} → RestoreWrite β → β → Option Note
  | _, .insert n, out => out.map fun _ => .restored n.dedupe.backupRunID
  | _, .update _ _, _ => none

def Stmt.note {β : Type} : Stmt β → β → Option Note
  | .select q, b => q.note b
  | .run w, b => w.note b
  | .restore w, b => w.note b
  | _, _ => none

def noted (β : Type) (i : Stmt β) (b : β) : Option Note := i.note b

abbrev history (env : Env) : System := (system env).watch noted

abbrev Trace := Traced Store Note

def Counted (pid : Nat) (job : UUID) (x : Trace) : Prop :=
  lastOwn (fun n => n.countOf job || n.createOf job) pid x.log = some (.counted job 0)

def RetrySeen (pid : Nat) (x : Trace) (n : NewRun) : Prop :=
  ∃ jobs job run now, (pid,Note.loaded jobs) ∈ x.log ∧ job ∈ jobs ∧ (pid,Note.latest run) ∈ x.log ∧
    now ≤ x.state.clock ∧ run.backupJobID = job.row.id ∧
    retryDue (effectivePolicy job) now run = true ∧ n = retryRun job.row run

def Unrestored (pid : Nat) (run : UUID) (x : Trace) : Prop :=
  lastOwn (fun n => n.restoresOf run || n.restoredOf run) pid x.log = some (.restores run 0)

def Found (pid : Nat) (run : UUID) (x : Trace) : Prop :=
  lastOwn (fun n => n.foundOf run || n.deleteOf run) pid x.log = some (.found run true)

def RunWrite.Seen (pid : Nat) (x : Trace) : {β : Type} → RunWrite β → Prop
  | _, .insert n _ => Counted pid n.backupJobID x
  | _, .insertCommit n => Counted pid n.backupJobID x ∧ RetrySeen pid x n
  | _, .delete id => Unrestored pid id x
  | _, _ => True

def RestoreWrite.Seen (pid : Nat) (x : Trace) : {β : Type} → RestoreWrite β → Prop
  | _, .insert n => Found pid n.dedupe.backupRunID x
  | _, _ => True

def Stmt.Seen (pid : Nat) (x : Trace) {β : Type} : Stmt β → Prop
  | .run w => w.Seen pid x
  | .restore w => w.Seen pid x
  | _ => True

structure After (x y : Trace) : Prop where
  later : x.state.Later y.state
  log : x.log <:+ y.log

theorem After.refl (x : Trace) : After x x := ⟨.refl _,List.suffix_rfl⟩

theorem After.trans {x y z : Trace} (h : After x y) (k : After y z) : After x z :=
  ⟨h.later.trans k.later,h.log.trans k.log⟩

structure Meanwhile (pid : Nat) (x y : Trace) : Prop extends After x y where
  own : own pid y.log = own pid x.log

theorem Meanwhile.refl (pid : Nat) (x : Trace) : Meanwhile pid x x := ⟨.refl x,rfl⟩

theorem Meanwhile.trans {pid : Nat} {x y z : Trace} (h : Meanwhile pid x y)
    (k : Meanwhile pid y z) : Meanwhile pid x z :=
  ⟨h.toAfter.trans k.toAfter,k.own.trans h.own⟩

def backing (env : Env) : Discipline (history env) where
  Inv _ := True
  Rely pid x y := Meanwhile pid x y
  Allow _ _ _ _ := True
  Duty pid x _ i := Stmt.Backed x.state i ∧ Stmt.Seen pid x i
  rely_refl pid x := .refl pid x
  rely_trans _ _ _ _ := .trans

theorem exec_history {env : Env} {pid : Nat} {β : Type} {i : Stmt β} {x y : Trace} {b : β}
    (h : (history env).exec pid i x = some (y,b)) :
    i.exec pid x.state = some (y.state,b) ∧ y.log = record pid x.log (i.note b) :=
  exec_watch (S := system env) h

end VgBackup
