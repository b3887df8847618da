import ServerHub.VgBackup.Backed

namespace VgBackup

open Relational Interleave

section SoftDelete

variable {α : Type} [Row α]

theorem softDelete_none (t : Table α) (now : Time) : softDelete t now (fun _ => false) = t := by
  refine Table.eq_of_rows ?_
  simp [softDelete,Table.modify]

theorem softDelete_softDelete (t : Table α) (now : Time) (p q : α → Bool) :
    softDelete (softDelete t now p) now q = softDelete t now fun r => p r || q r := by
  refine Table.eq_of_rows ?_
  simp only [softDelete,Table.modify,List.map_map]
  refine List.map_congr_left ?_
  intro r _
  rcases Bool.eq_false_or_eq_true (live r) with hl | hl
  · rcases Bool.eq_false_or_eq_true (p r) with hp | hp
    · simp [hl,hp,live_erased]
    · simp [hl,hp]
  · simp [hl]

theorem any_allWhere (t : Table α) (p q : α → Bool) (id : UUID) :
    (allWhere t p).any (fun r => key r == id && q r) =
      (first t id).any fun r => p r && q r := by
  rw [Bool.eq_iff_iff]
  simp only [allWhere,Table.select,List.any_eq_true,List.mem_filter,Bool.and_eq_true,beq_iff_eq,
    Option.any_eq_true_iff_get]
  constructor
  · rintro ⟨r,⟨hr,hl,hp⟩,rfl,hq⟩
    have hf : first t (key r) = some r := by simp [first,Table.find_of_mem hr,hl]
    simp [hf,hp,hq]
  · rintro ⟨hs,hp⟩
    obtain ⟨r,hr⟩ := Option.isSome_iff_exists.mp hs
    simp only [hr,Option.get_some] at hp
    obtain ⟨hf,hl⟩ := first_some hr
    obtain ⟨hm,hk⟩ := Table.find_some hf
    exact ⟨r,⟨hm,hl,hp.1⟩,hk,hp.2⟩

end SoftDelete

def purge (s : Store) (gone : UUID → Bool) (files : Posix.FileTree Posix.Text) : Store :=
  { s with
    runs := softDelete s.runs s.clock fun r => gone r.id
    artifacts := softDelete s.artifacts s.clock fun a => gone a.backupRunID
    chunks := softDelete s.chunks s.clock fun c =>
      (first s.artifacts c.artifactID).any fun a => gone a.backupRunID
    files := files }

structure Purged (s t : Store) (gone : UUID → Bool) : Prop where
  rows : ∃ files, t = purge s gone files
  idle : (∀ id, gone id = false) → t = s

theorem Purged.refl (s : Store) : Purged s s fun _ => false := by
  refine ⟨⟨s.files,?_⟩,fun _ => rfl⟩
  simp [purge,softDelete_none]

theorem first_softDelete {α : Type} [Row α] (t : Table α) (now : Time) (p : α → Bool) (id : UUID) :
    first (softDelete t now p) id = (first t id).filter fun r => !p r := by
  simp only [first,softDelete,Table.find_modify]
  cases t.find id with
  | none => rfl
  | some r =>
    rcases Bool.eq_false_or_eq_true (live r) with hl | hl
    · rcases Bool.eq_false_or_eq_true (p r) with hp | hp
      · simp [Option.filter,hl,hp,live_erased]
      · simp [Option.filter,hl,hp]
    · simp [Option.filter,hl]

theorem Purged.trans {s t u : Store} {g h : UUID → Bool} (hst : Purged s t g)
    (htu : Purged t u h) : Purged s u fun id => g id || h id := by
  obtain ⟨⟨f1,ht⟩,hidle1⟩ := hst
  obtain ⟨⟨f2,hu⟩,hidle2⟩ := htu
  refine ⟨⟨f2,?_⟩,?_⟩
  · rw [hu,ht]
    have hchunks : (fun c : VgBackupChunk =>
        ((first s.artifacts c.artifactID).any fun a => g a.backupRunID) ||
        ((first (softDelete s.artifacts s.clock fun a => g a.backupRunID) c.artifactID).any
          fun a => h a.backupRunID)) =
        fun c => (first s.artifacts c.artifactID).any fun a => g a.backupRunID || h a.backupRunID := by
      funext c
      rw [first_softDelete]
      cases first s.artifacts c.artifactID with
      | none => rfl
      | some a => cases hg : g a.backupRunID <;> simp [hg]
    simp only [purge,softDelete_softDelete]
    rw [hchunks]
  · intro hn
    have h1 : t = s := hidle1 fun id => (Bool.or_eq_false_iff.mp (hn id)).1
    have h2 : u = t := hidle2 fun id => (Bool.or_eq_false_iff.mp (hn id)).2
    exact h2.trans h1

def Restoring (s : Store) (run : UUID) : Prop :=
  ∃ r ∈ s.restores.rows, live r = true ∧ r.backupRunID = run ∧ r.status.active = true

theorem activeRestores_zero {s : Store} {run : UUID} :
    s.activeRestores run = 0 ↔ ¬ Restoring s run := by
  simp only [Store.activeRestores,countWhere,Table.count,List.countP_eq_zero,Restoring]
  simp

theorem first_deleteRun_of_ne (s : Store) {id id' : UUID} (h : id' ≠ id) :
    (s.deleteRun id).runs.find id' = s.runs.find id' := by
  simp only [Store.deleteRun,softDelete,Table.find_modify]
  cases hf : s.runs.find id' with
  | none => rfl
  | some r =>
    have hid : r.id = id' := (Table.find_some hf).2
    simp [hid,h]

section Retire

variable {env : Env} {pid : Nat} {s t : Store}

theorem deleteRunFiles_files {run : VgBackupRun}
    (h : solo pid (deleteRunFiles env run) s = some (t,())) :
    ∃ files, t = { s with files := files } := by
  simp only [deleteRunFiles,solo_query_bind] at h
  split at h
  · exact ⟨s.files,(solo_ret_eq h).1⟩
  · split at h
    · exact ⟨s.files,(solo_ret_eq h).1⟩
    · split at h
      · exact ⟨s.files,(solo_ret_eq h).1⟩
      · rw [solo_query_bind,solo_side,Option.some.injEq] at h
        exact ⟨_,(congrArg Prod.fst h).symm⟩

theorem deleteChunks_rows {artifacts : List VgBackupArtifact}
    (h : solo pid (Prog.each (fun a => writeSide (.deleteChunks a.id)) artifacts) s =
      some (t,())) :
    t = { s with chunks := softDelete s.chunks s.clock fun c =>
      artifacts.any fun a => a.id == c.artifactID } := by
  induction artifacts generalizing s with
  | nil =>
    rw [(solo_ret_eq h).1]
    simp [softDelete_none]
  | cons a artifacts ih =>
    rw [Prog.each_cons,solo_side_bind] at h
    rw [ih h]
    have hor : (fun c : VgBackupChunk => c.artifactID == a.id ||
        artifacts.any fun b => b.id == c.artifactID) =
        fun c => (a :: artifacts).any fun b => b.id == c.artifactID := by
      funext c
      simp [Bool.beq_comm]
    simp only [SideWrite.exec,softDelete_softDelete]
    rw [hor]

theorem delete_exec {id : UUID} (h : (RunWrite.delete id).exec pid s = some (t,())) :
    t = s.deleteRun id := by
  simp only [RunWrite.exec] at h
  split at h
  · simp at h
  · simp only [Option.some.injEq,Prod.mk.injEq,and_true] at h
    exact h.symm

theorem retireRun_purged {run : VgBackupRun} (h : solo pid (retireRun env run) s = some (t,())) :
    Purged s t fun id => run.id == id && s.activeRestores run.id == 0 := by
  simp only [retireRun,solo_query_bind] at h
  split at h
  · rename_i hpos
    have hne : s.activeRestores run.id ≠ 0 := Nat.ne_of_gt hpos
    have hnone : (fun id => run.id == id && s.activeRestores run.id == 0) =
        fun _ : UUID => false := by
      funext id
      simp [hne]
    rw [(solo_ret_eq h).1,hnone]
    exact .refl s
  · rename_i hpos
    have hz : s.activeRestores run.id = 0 := Nat.eq_zero_of_not_pos hpos
    rw [solo_bind,Option.bind_eq_some_iff] at h
    obtain ⟨⟨s1,_⟩,h1,h⟩ := h
    rw [solo_query_bind,solo_bind,Option.bind_eq_some_iff] at h
    obtain ⟨⟨s2,_⟩,h2,h⟩ := h
    rw [solo_side_bind,solo_run] at h
    obtain ⟨files,hs1⟩ := deleteRunFiles_files h1
    refine ⟨⟨files,?_⟩,?_⟩
    · have hchunks : (fun c : VgBackupChunk =>
          (allWhere s.artifacts fun a => a.backupRunID == run.id).any
            fun a => a.id == c.artifactID) =
          fun c => (first s.artifacts c.artifactID).any fun a => run.id == a.backupRunID := by
        funext c
        have hany := any_allWhere s.artifacts (fun a => a.backupRunID == run.id) (fun _ => true)
          c.artifactID
        simp only [Bool.and_true] at hany
        rw [show (fun a : VgBackupArtifact => run.id == a.backupRunID) =
          fun a => a.backupRunID == run.id from funext fun a => Bool.beq_comm]
        exact hany
      rw [delete_exec h,deleteChunks_rows h2]
      simp only [hs1,Select.eval,SideWrite.exec,Store.deleteRun,purge,hz]
      rw [hchunks]
      simp [Bool.beq_comm]
    · intro hn
      have := hn run.id
      simp [hz] at this

theorem lockless_deleteRunFiles (env : Env) (run : VgBackupRun) :
    (deleteRunFiles env run).Uses Stmt.Lockless := by
  refine Prog.uses_bind (Prog.uses_perform trivial) fun target => ?_
  split
  · trivial
  · split
    · trivial
    · split
      · trivial
      · exact Prog.uses_bind (Prog.uses_perform trivial) fun _ => Prog.uses_perform trivial

theorem lockless_retireRun (env : Env) (run : VgBackupRun) : (retireRun env run).Uses Stmt.Lockless := by
  refine Prog.uses_bind (Prog.uses_perform trivial) fun active => ?_
  split
  · trivial
  · refine Prog.uses_bind (lockless_deleteRunFiles env run) fun _ => ?_
    refine Prog.uses_bind (Prog.uses_perform trivial) fun artifacts => ?_
    refine Prog.uses_bind (Prog.uses_each fun _ _ => Prog.uses_perform trivial) fun _ => ?_
    exact Prog.uses_bind (Prog.uses_perform trivial) fun _ => Prog.uses_perform trivial

theorem lockless_enforceRetention (env : Env) (now : Time) :
    (enforceRetention env now).Uses Stmt.Lockless := by
  refine Prog.uses_bind (Prog.uses_perform trivial) fun jobs => Prog.uses_each fun job _ => ?_
  unfold retainJob
  dsimp only
  split
  · trivial
  · exact Prog.uses_bind (Prog.uses_perform trivial) fun _ =>
      Prog.uses_each fun run _ => lockless_retireRun env run

theorem Purged.activeRestores {gone : UUID → Bool} (h : Purged s t gone) (id : UUID) :
    t.activeRestores id = s.activeRestores id := by
  obtain ⟨files,rfl⟩ := h.rows
  rfl

theorem retireRuns_purged {runs : List VgBackupRun}
    (h : solo pid (Prog.each (retireRun env) runs) s = some (t,())) :
    Purged s t fun id => runs.any fun r => r.id == id && s.activeRestores r.id == 0 := by
  induction runs generalizing s with
  | nil =>
    rw [(solo_ret_eq h).1]
    exact .refl s
  | cons r runs ih =>
    rw [Prog.each_cons,solo_bind,Option.bind_eq_some_iff] at h
    obtain ⟨⟨u,_⟩,hu,h⟩ := h
    have hfirst := retireRun_purged hu
    have hrest := ih h
    simp only [hfirst.activeRestores] at hrest
    exact hfirst.trans hrest

end Retire

def overdue (env : Env) (now : Time) (job : LoadedJob) (r : VgBackupRun) : Bool :=
  let days := (effectivePolicy job).retentionDays
  decide (0 < days) && r.status.terminal &&
    r.completedAt.any (decide <| · < env.addDate now (-days))

def jobRetires (env : Env) (now : Time) (s : Store) (job : LoadedJob) (r : VgBackupRun) : Bool :=
  r.backupJobID == job.row.id && overdue env now job r && s.activeRestores r.id == 0

def retires (env : Env) (now : Time) (s : Store) (r : VgBackupRun) : Bool :=
  (s.loadJob r.backupJobID).any (overdue env now · r) && s.activeRestores r.id == 0

section Retain

variable {env : Env} {pid : Nat} {now : Time} {s t u : Store} {gone : UUID → Bool}

theorem retainJob_purged {job : LoadedJob} (hu : Purged s u gone)
    (h : solo pid (retainJob env now job) u = some (t,())) :
    Purged s t fun id => gone id || (first s.runs id).any (jobRetires env now s job) := by
  simp only [retainJob] at h
  split at h
  · rename_i hd
    have hnone : ∀ r, jobRetires env now s job r = false := by
      intro r
      have hpos : ¬ 0 < (effectivePolicy job).retentionDays := Int.not_lt.mpr hd
      simp [jobRetires,overdue,hpos]
    have hsame : (fun id => gone id || (first s.runs id).any (jobRetires env now s job)) = gone := by
      funext id
      cases first s.runs id <;> simp [hnone]
    rw [(solo_ret_eq h).1,hsame]
    exact hu
  · rename_i hd
    have hpos : 0 < (effectivePolicy job).retentionDays := Int.not_le.mp hd
    rw [solo_query_bind] at h
    have hstep := hu.trans (retireRuns_purged h)
    have hsame : (fun id => gone id || (Select.eval (.expiredRuns job.row.id
        (env.addDate now (-(effectivePolicy job).retentionDays))) u).any
          fun r => r.id == id && u.activeRestores r.id == 0) =
        fun id => gone id || (first s.runs id).any (jobRetires env now s job) := by
      funext id
      have hany := any_allWhere u.runs (fun r => r.backupJobID == job.row.id &&
        r.status.terminal && r.completedAt.any
          (decide <| · < env.addDate now (-(effectivePolicy job).retentionDays)))
        (fun r => u.activeRestores r.id == 0) id
      have hkey : ∀ r : VgBackupRun, key r = r.id := fun _ => rfl
      simp only [hkey] at hany
      simp only [Select.eval]
      rw [hany]
      simp only [hu.activeRestores]
      obtain ⟨files,hrows⟩ := hu.rows
      have hruns : u.runs = softDelete s.runs s.clock fun r => gone r.id := by rw [hrows,purge]
      rw [hruns,first_softDelete]
      cases hf : first s.runs id with
      | none => rfl
      | some r =>
        have hid : r.id = id := first_id hf
        cases hg : gone id with
        | true => simp
        | false => simp [Option.filter,hid,hg,jobRetires,overdue,hpos,Bool.and_assoc]
    rw [← hsame]
    exact hstep

theorem retainJobs_purged {jobs : List LoadedJob} (hu : Purged s u gone)
    (h : solo pid (Prog.each (retainJob env now) jobs) u = some (t,())) :
    Purged s t fun id => gone id ||
      jobs.any fun job => (first s.runs id).any (jobRetires env now s job) := by
  induction jobs generalizing u gone with
  | nil =>
    rw [(solo_ret_eq h).1]
    simpa using hu
  | cons job jobs ih =>
    rw [Prog.each_cons,solo_bind,Option.bind_eq_some_iff] at h
    obtain ⟨⟨v,_⟩,hv,h⟩ := h
    have hrest := ih (retainJob_purged hu hv) h
    simpa only [List.any_cons,Bool.or_assoc] using hrest

theorem any_allJobs (s : Store) (r : VgBackupRun) :
    ((Select.allJobs.eval s).any fun job => jobRetires env now s job r) =
      retires env now s r := by
  have hany := any_allWhere s.jobs (fun _ => true)
    (fun j => overdue env now (s.preload j) r && s.activeRestores r.id == 0) r.backupJobID
  have hkey : ∀ j : VgBackupJob, key j = j.id := fun _ => rfl
  simp only [hkey,Bool.true_and] at hany
  have hrow : ∀ j, (s.preload j).row.id = j.id := fun _ => rfl
  simp only [Select.eval,List.any_map,Function.comp_def,jobRetires,hrow,retires,Store.loadJob,
    Bool.beq_comm (a := r.backupJobID),Bool.and_assoc]
  rw [hany]
  cases first s.jobs r.backupJobID <;> simp

theorem enforceRetention_purged (h : solo pid (enforceRetention env now) s = some (t,())) :
    Purged s t fun id => (first s.runs id).any (retires env now s) := by
  simp only [enforceRetention,solo_query_bind] at h
  have hall := retainJobs_purged (.refl s) h
  have hsame : (fun id => false || (Select.allJobs.eval s).any fun job =>
      (first s.runs id).any (jobRetires env now s job)) =
      fun id => (first s.runs id).any (retires env now s) := by
    funext id
    cases first s.runs id with
    | none => simp
    | some r => simpa using any_allJobs s r
  rw [← hsame]
  exact hall

end Retain

end VgBackup
