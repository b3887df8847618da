import ServerHub.VgBackup.Retention
import ServerHub.VgBackup.StatusMachine

namespace VgBackup

open Relational Interleave

def autoVerdict (env : Env) (files : Posix.FileTree Posix.Text) (run : VgBackupRun)
    (a : VgBackupArtifact) : Option VerificationStatus :=
  if artifactPath run a = "" ∨ expectedChecksum run a = "" then none
  else (files.read (openedPath env (artifactPath run a))).map
    (verdict env · (expectedChecksum run a))

def judged (clock now : Time) (v : UUID → Option VerificationStatus) (a : VgBackupArtifact) :
    VgBackupArtifact :=
  { a with
    updatedAt := clock, verificationStatus := (v a.id).getD a.verificationStatus
    verifiedAt := some now }

def judge (s : Store) (now : Time) (v : UUID → Option VerificationStatus) : Store :=
  { s with
    artifacts := s.artifacts.modify (fun a => live a && (v a.id).isSome) (judged s.clock now v)
      fun _ => rfl }

section Judge

variable {env : Env} {pid : Nat} {now : Time} {s : Store}

theorem judge_none (s : Store) (now : Time) : judge s now (fun _ => none) = s := by
  have h : (judge s now fun _ => none).artifacts = s.artifacts := by
    refine Table.eq_of_rows ?_
    simp [judge,Table.modify]
  show { s with artifacts := (judge s now fun _ => none).artifacts } = s
  rw [h]

theorem judge_judge (s : Store) (now : Time) (v w : UUID → Option VerificationStatus) :
    judge (judge s now v) now w = judge s now fun id => (w id).or (v id) := by
  have h : (judge (judge s now v) now w).artifacts =
      (judge s now fun id => (w id).or (v id)).artifacts := by
    refine Table.eq_of_rows ?_
    simp only [judge,Table.modify,List.map_map]
    refine List.map_congr_left ?_
    intro a _
    have hlive : live (judged s.clock now v a) = live a := rfl
    have hid : (judged s.clock now v a).id = a.id := rfl
    rcases Bool.eq_false_or_eq_true (live a) with hl | hl
    · rcases Option.eq_none_or_eq_some (v a.id) with hv | ⟨x,hv⟩
      · rcases Option.eq_none_or_eq_some (w a.id) with hw | ⟨y,hw⟩ <;> simp [hl,hv,hw,judged]
      · rcases Option.eq_none_or_eq_some (w a.id) with hw | ⟨y,hw⟩
        · simp [hl,hv,hw,judged]
        · simp only [Function.comp_apply,hl,hv,hw,hlive,hid,Option.isSome_some,Bool.and_true,if_true,
            Option.some_or]
          simp [judged,hw]
    · simp [hl]
  show { s with artifacts := (judge (judge s now v) now w).artifacts } = _
  rw [h]
  rfl

theorem settleArtifact_exec (s : Store) (now : Time) (id : UUID) (st : VerificationStatus) :
    (SideWrite.settleArtifact id st now).exec s =
      (judge s now fun k => if k = id then some st else none,()) := by
  have h : ((SideWrite.settleArtifact id st now).exec s).1.artifacts =
      (judge s now fun k => if k = id then some st else none).artifacts := by
    refine Table.eq_of_rows ?_
    simp only [SideWrite.exec,judge,Table.modify]
    refine List.map_congr_left ?_
    intro a _
    by_cases hid : a.id = id <;> simp [hid,judged]
  show ({ s with artifacts := ((SideWrite.settleArtifact id st now).exec s).1.artifacts },()) = _
  rw [h]
  rfl

theorem verifyArtifact_judges (run : VgBackupRun) (a : VgBackupArtifact) (s : Store) :
    solo pid (verifyArtifact env now run a) s =
      some (judge s now fun k => if k = a.id then autoVerdict env s.files run a else none,()) := by
  have hskip : autoVerdict env s.files run a = none →
      judge s now (fun k => if k = a.id then autoVerdict env s.files run a else none) = s := by
    intro h
    simp only [h,ite_self]
    exact judge_none s now
  unfold verifyArtifact
  split
  · rename_i hno
    rw [hskip (by rw [autoVerdict,if_pos hno])]
    rfl
  · rename_i hyes
    rw [solo_query_bind]
    cases hread : s.files.read (openedPath env (artifactPath run a)) with
    | none =>
      rw [hskip (by rw [autoVerdict,if_neg hyes,hread]; rfl)]
      simp only [Select.eval,hread]
      rfl
    | some data =>
      have hv : autoVerdict env s.files run a = some (verdict env data (expectedChecksum run a)) := by
        rw [autoVerdict,if_neg hyes,hread]
        rfl
      simp only [Select.eval,hread,solo_side,settleArtifact_exec,hv]
      rfl

def listVerdicts (env : Env) (files : Posix.FileTree Posix.Text) (run : VgBackupRun) :
    List VgBackupArtifact → UUID → Option VerificationStatus
  | [], _ => none
  | a :: as, k =>
      (listVerdicts env files run as k).or (if k = a.id then autoVerdict env files run a else none)

theorem verifyArtifacts_judge (run : VgBackupRun) (as : List VgBackupArtifact) (s : Store) :
    solo pid (Prog.each (verifyArtifact env now run) as) s =
      some (judge s now (listVerdicts env s.files run as),()) := by
  induction as generalizing s with
  | nil =>
    rw [show listVerdicts env s.files run [] = fun _ => none from rfl,judge_none]
    rfl
  | cons a as ih =>
    rw [Prog.each_cons,solo_bind,verifyArtifact_judges,Option.bind_some,ih,judge_judge]
    rfl

theorem listVerdicts_some {run : VgBackupRun} {as : List VgBackupArtifact} {k : UUID}
    {v : VerificationStatus} {files : Posix.FileTree Posix.Text}
    (h : listVerdicts env files run as k = some v) :
    ∃ a ∈ as, a.id = k ∧ autoVerdict env files run a = some v := by
  induction as with
  | nil => simp [listVerdicts] at h
  | cons a as ih =>
    simp only [listVerdicts,Option.or_eq_some_iff] at h
    rcases h with h | ⟨-,h⟩
    · obtain ⟨b,hb,hk,hv⟩ := ih h
      exact ⟨b,List.mem_cons_of_mem a hb,hk,hv⟩
    · split at h
      · rename_i hk
        exact ⟨a,List.mem_cons_self,hk.symm,h⟩
      · simp at h

theorem verdict_decided (data : Posix.Text) (checksum : String) :
    verdict env data checksum ≠ .unverified := by
  unfold verdict
  split <;> simp

theorem autoVerdict_decided {files : Posix.FileTree Posix.Text} {run : VgBackupRun}
    {a : VgBackupArtifact} {v : VerificationStatus} (h : autoVerdict env files run a = some v) :
    v ≠ .unverified := by
  unfold autoVerdict at h
  split at h
  · simp at h
  · obtain ⟨data,-,rfl⟩ := Option.map_eq_some_iff.mp h
    exact verdict_decided data _

theorem listVerdicts_isSome {run : VgBackupRun} {as : List VgBackupArtifact}
    {a : VgBackupArtifact} {files : Posix.FileTree Posix.Text} (ha : a ∈ as)
    (hv : (autoVerdict env files run a).isSome = true) :
    (listVerdicts env files run as a.id).isSome = true := by
  induction as with
  | nil => simp at ha
  | cons b as ih =>
    rw [listVerdicts,Option.isSome_or,Bool.or_eq_true]
    rcases List.mem_cons.mp ha with rfl | ha
    · exact .inr (by simpa using hv)
    · exact .inl (ih ha)

end Judge

def Verifiable (s : Store) (run : VgBackupRun) : Prop :=
  (effectivePolicy (s.jobOf run)).verificationEnabled = true ∧
    ∃ target, first s.targets run.storageTargetID = some target ∧ target.type = .localDisk

structure Eligible (env : Env) (s : Store) (run : VgBackupRun) (a : VgBackupArtifact) : Prop where
  completed : run ∈ allWhere s.runs fun r => decide (r.status = .completed)
  verifiable : Verifiable s run
  artifact : a ∈ allWhere s.artifacts fun a =>
    a.backupRunID == run.id && decide (a.verificationStatus = .unverified)
  checkable : (autoVerdict env s.files run a).isSome = true

def Covered (env : Env) (s : Store) : Prop := ∀ run a, ¬ Eligible env s run a

def passes (env : Env) (pid : Nat) : List Time → Store → Option Store
  | [], s => some s
  | now :: nows, s =>
      (solo pid (verifyCompletedRuns env now) { s with clock := now }).bind fun r =>
        passes env pid nows r.1

def EventuallyCovered (env : Env) (pid : Nat) (s : Store) : Prop :=
  ∃ n, ∀ nows : List Time, nows.length = n → ∃ t, passes env pid nows s = some t ∧ Covered env t

structure Settles (env : Env) (s : Store) (runs : List VgBackupRun)
    (v : UUID → Option VerificationStatus) : Prop where
  within : ∀ k x, v k = some x → x ≠ .unverified ∧
    ∃ a ∈ s.artifacts.rows, a.id = k ∧ ∃ run ∈ runs, a.backupRunID = run.id
  reaches : ∀ run ∈ runs, ∀ a, Eligible env s run a → (v a.id).isSome = true

section Passes

variable {env : Env} {pid : Nat} {now : Time} {s : Store}

theorem mem_judge_iff {s : Store} {now : Time} {v : UUID → Option VerificationStatus}
    {b : VgBackupArtifact} : b ∈ (judge s now v).artifacts.rows ↔ ∃ a ∈ s.artifacts.rows,
      (if live a && (v a.id).isSome then judged s.clock now v a else a) = b := by
  simp [judge,Table.modify]

theorem mem_judge {s : Store} {now : Time} {v : UUID → Option VerificationStatus}
    {b : VgBackupArtifact} (h : b ∈ (judge s now v).artifacts.rows) :
    ∃ a ∈ s.artifacts.rows, a.id = b.id ∧ a.backupRunID = b.backupRunID := by
  obtain ⟨a,ha,rfl⟩ := mem_judge_iff.mp h
  refine ⟨a,ha,?_⟩
  split <;> exact ⟨rfl,rfl⟩

theorem judge_keeps {s : Store} {now : Time} {v : UUID → Option VerificationStatus}
    {a : VgBackupArtifact} (ha : a ∈ s.artifacts.rows) (hv : v a.id = none) :
    a ∈ (judge s now v).artifacts.rows :=
  mem_judge_iff.mpr ⟨a,ha,by simp [hv]⟩

theorem judge_settles {s : Store} {now : Time} {v : UUID → Option VerificationStatus}
    {b : VgBackupArtifact} (h : b ∈ (judge s now v).artifacts.rows) (hl : live b = true) :
    v b.id = none ∧ b ∈ s.artifacts.rows ∨ ∃ x, v b.id = some x ∧ b.verificationStatus = x := by
  obtain ⟨a,ha,hb⟩ := mem_judge_iff.mp h
  rcases Option.eq_none_or_eq_some (v a.id) with hv | ⟨x,hv⟩
  · obtain rfl : a = b := by simpa [hv] using hb
    exact .inl ⟨hv,ha⟩
  · by_cases hla : live a = true
    · obtain rfl : judged s.clock now v a = b := by simpa [hv,hla] using hb
      exact .inr ⟨x,hv,by simp [judged,hv]⟩
    · obtain rfl : a = b := by simpa [hla] using hb
      exact absurd hl hla

theorem Eligible.of_judge {run : VgBackupRun} {a : VgBackupArtifact}
    {v : UUID → Option VerificationStatus} (h : Eligible env s run a) (hv : v a.id = none) :
    Eligible env (judge s now v) run a := by
  obtain ⟨hm,hp⟩ := List.mem_filter.mp h.artifact
  exact ⟨h.completed,h.verifiable,List.mem_filter.mpr ⟨judge_keeps hm hv,hp⟩,h.checkable⟩

theorem verifyCompletedRun_judges (env : Env) (pid : Nat) (now : Time) (run : VgBackupRun)
    (s : Store) :
    ∃ v, solo pid (verifyCompletedRun env now (run,s.jobOf run)) s = some (judge s now v,()) ∧
      Settles env s [run] v := by
  have hidle : ¬ Verifiable s run → Settles env s [run] fun _ => none := by
    intro hno
    refine ⟨by simp,?_⟩
    intro r hr a ha
    obtain rfl := List.mem_singleton.mp hr
    exact absurd ha.verifiable hno
  by_cases hv : Verifiable s run
  · obtain ⟨hen,target,ht,hlocal⟩ := id hv
    refine ⟨listVerdicts env s.files run (Select.eval (.unverifiedArtifacts run.id) s),?_,?_,?_⟩
    · simp only [verifyCompletedRun,hen,if_true,solo_query_bind,Select.eval,ht,hlocal,ne_eq,
        not_true_eq_false,if_false]
      exact verifyArtifacts_judge run _ s
    · intro k x hk
      obtain ⟨a,ha,hid,hx⟩ := listVerdicts_some hk
      obtain ⟨hm,hp⟩ := List.mem_filter.mp ha
      simp only [Bool.and_eq_true,beq_iff_eq] at hp
      exact ⟨autoVerdict_decided hx,a,hm,hid,run,List.mem_singleton_self run,hp.2.1⟩
    · intro r hr a ha
      obtain rfl := List.mem_singleton.mp hr
      exact listVerdicts_isSome ha.artifact ha.checkable
  · refine ⟨fun _ => none,?_,hidle hv⟩
    rw [judge_none]
    unfold verifyCompletedRun
    split
    · rename_i hen
      rw [solo_query_bind]
      cases ht : first s.targets run.storageTargetID with
      | none =>
        simp only [Select.eval,ht]
        rfl
      | some target =>
        have hremote : target.type ≠ .localDisk := fun hl => hv ⟨hen,target,ht,hl⟩
        simp only [Select.eval,ht,ne_eq,hremote,not_false_eq_true,if_true]
        rfl
    · rfl

theorem verifyRuns_judge (env : Env) (pid : Nat) (now : Time) (runs : List VgBackupRun)
    (s : Store) :
    ∃ v, solo pid (Prog.each (verifyCompletedRun env now) (runs.map fun r => (r,s.jobOf r))) s =
      some (judge s now v,()) ∧ Settles env s runs v := by
  induction runs generalizing s with
  | nil =>
    refine ⟨fun _ => none,?_,by simp,by simp⟩
    rw [judge_none]
    rfl
  | cons r runs ih =>
    obtain ⟨v,hv,hin,hreach⟩ := verifyCompletedRun_judges env pid now r s
    obtain ⟨w,hw,hin',hreach'⟩ := ih (judge s now v)
    refine ⟨fun id => (w id).or (v id),?_,?_,?_⟩
    · rw [List.map_cons,Prog.each_cons,solo_bind,hv,Option.bind_some,← judge_judge]
      exact hw
    · intro k x hk
      rcases Option.or_eq_some_iff.mp hk with hk | ⟨-,hk⟩
      · obtain ⟨hx,b,hb,hid,r',hr',hrun⟩ := hin' k x hk
        obtain ⟨a,ha,hai,har⟩ := mem_judge hb
        exact ⟨hx,a,ha,hai.trans hid,r',List.mem_cons_of_mem r hr',har.trans hrun⟩
      · obtain ⟨hx,a,ha,hid,r',hr',hrun⟩ := hin k x hk
        rw [List.mem_singleton.mp hr'] at hrun
        exact ⟨hx,a,ha,hid,r,List.mem_cons_self,hrun⟩
    · intro r' hr' a ha
      rw [Option.isSome_or,Bool.or_eq_true]
      rcases Option.eq_none_or_eq_some (v a.id) with hnone | ⟨x,hx⟩
      · rcases List.mem_cons.mp hr' with rfl | hr'
        · exact .inr (hreach r' (List.mem_singleton_self r') a ha)
        · exact .inl (hreach' r' hr' a (ha.of_judge hnone))
      · exact .inr (by simp [hx])

theorem pass_judges (env : Env) (pid : Nat) (now : Time) (s : Store) :
    ∃ v, solo pid (verifyCompletedRuns env now) s = some (judge s now v,()) ∧
      Settles env s (s.completedRuns verifyBatchLimit) v := by
  obtain ⟨v,hv,hs⟩ := verifyRuns_judge env pid now (s.completedRuns verifyBatchLimit) s
  refine ⟨v,?_,hs⟩
  rw [verifyCompletedRuns,solo_query_bind]
  exact hv

def Windowed (env : Env) (s : Store) : Prop :=
  ∀ run a, Eligible env s run a → run ∈ s.completedRuns verifyBatchLimit

theorem pass_covers (pid : Nat) (now : Time) (h : Windowed env s) :
    ∃ t, solo pid (verifyCompletedRuns env now) s = some (t,()) ∧ Covered env t := by
  obtain ⟨v,hv,hs⟩ := pass_judges env pid now s
  refine ⟨judge s now v,hv,?_⟩
  intro run b hb
  obtain ⟨hm,hp⟩ := List.mem_filter.mp hb.artifact
  simp only [Bool.and_eq_true,decide_eq_true_eq] at hp
  rcases judge_settles hm hp.1 with ⟨hnone,hmem⟩ | ⟨x,hx,hst⟩
  · have hold : Eligible env s run b :=
      ⟨hb.completed,hb.verifiable,List.mem_filter.mpr ⟨hmem,by simpa using hp⟩,hb.checkable⟩
    have hsome := hs.reaches run (h run b hold) b hold
    rw [hnone] at hsome
    simp at hsome
  · obtain ⟨hne,-⟩ := hs.within b.id x hx
    exact absurd (hst.symm.trans hp.2.2) hne

theorem pass_skips {run : VgBackupRun} {a : VgBackupArtifact} {t : Store}
    (h : Eligible env s run a) (hout : run ∉ s.completedRuns verifyBatchLimit)
    (hr : solo pid (verifyCompletedRuns env now) s = some (t,())) :
    Eligible env t run a ∧ run ∉ t.completedRuns verifyBatchLimit := by
  obtain ⟨v,hv,hs⟩ := pass_judges env pid now s
  obtain rfl : judge s now v = t := congrArg Prod.fst (Option.some.inj (hv.symm.trans hr))
  have hnone : v a.id = none := by
    by_contra hne
    obtain ⟨x,hx⟩ := Option.ne_none_iff_exists'.mp hne
    obtain ⟨-,b,hb,hid,r,hrw,hrun⟩ := hs.within a.id x hx
    obtain ⟨hm,hp⟩ := List.mem_filter.mp h.artifact
    simp only [Bool.and_eq_true,beq_iff_eq] at hp
    obtain rfl : b = a := by
      have hba : s.artifacts.find b.id = some b := Table.find_of_mem hb
      have haa : s.artifacts.find a.id = some a := Table.find_of_mem hm
      rw [hid,haa,Option.some.injEq] at hba
      exact hba.symm
    have hin : r ∈ allWhere s.runs fun r => decide (r.status = .completed) :=
      (List.mem_insertionSort _).mp (List.mem_of_mem_take hrw)
    have hsame : r = run := by
      have h1 : s.runs.find r.id = some r := Table.find_of_mem (List.mem_filter.mp hin).1
      have h2 : s.runs.find run.id = some run :=
        Table.find_of_mem (List.mem_filter.mp h.completed).1
      rw [← hrun,hp.2.1,h2,Option.some.injEq] at h1
      exact h1.symm
    exact hout (hsame ▸ hrw)
  exact ⟨h.of_judge hnone,hout⟩

theorem passes_skip {run : VgBackupRun} {a : VgBackupArtifact} {nows : List Time} {t : Store}
    (h : Eligible env s run a) (hout : run ∉ s.completedRuns verifyBatchLimit)
    (hr : passes env pid nows s = some t) : Eligible env t run a := by
  induction nows generalizing s with
  | nil =>
    simp only [passes,Option.some.injEq] at hr
    exact hr ▸ h
  | cons now nows ih =>
    simp only [passes,Option.bind_eq_some_iff] at hr
    obtain ⟨⟨u,_⟩,hu,hr⟩ := hr
    have hclock : Eligible env { s with clock := now } run a :=
      ⟨h.completed,h.verifiable,h.artifact,h.checkable⟩
    obtain ⟨hel,hout'⟩ := pass_skips hclock hout hu
    exact ih hel hout' hr

theorem verification_reaches_window (env : Env) (pid : Nat) (s : Store) :
    EventuallyCovered env pid s ↔ Windowed env s := by
  constructor
  · rintro ⟨n,hn⟩ run a ha
    by_contra hout
    obtain ⟨t,ht,hc⟩ := hn (List.replicate n 0) List.length_replicate
    exact hc run a (passes_skip ha hout ht)
  · intro h
    refine ⟨1,?_⟩
    intro nows hlen
    obtain ⟨now,rfl⟩ := List.length_eq_one_iff.mp hlen
    have hclock : Windowed env { s with clock := now } := by
      intro run a ha
      exact h run a ⟨ha.completed,ha.verifiable,ha.artifact,ha.checkable⟩
    obtain ⟨t,ht,hc⟩ := pass_covers pid now hclock
    exact ⟨t,by simp [passes,ht],hc⟩

end Passes

def digestA : String := "ca978112ca1bbdcafac231b39a23dc4da786eff8147c4e72b9807785afee48bb"

def digestB : String := "3e23e8160039594a33894f6564e1b1348bbd7a0088d42c4acb73eeaed59c009d"

def digestEnv : Env :=
  { sampleEnv with
    sha256 := fun data => if data = ['a'] then digestA else if data = ['b'] then digestB else "" }

def storedFiles : Posix.FileTree Posix.Text where
  nodes := [(["backups".toList],.dir),(["backups".toList,"a".toList],.file ['a']),
    (["backups".toList,"b".toList],.file ['b'])]
  rooted := by decide

def finishedRun (id : UUID) : VgBackupRun :=
  { sampleRun with
    id := id, status := .completed, completedAt := some (Int.ofNat id), checksum := digestA
    storagePath := "/backups/a" }

def pendingArtifact (run : UUID) : VgBackupArtifact :=
  { VgBase.zero with
    id := 300, backupRunID := run, name := "archive", size := 1, checksum := digestB
    storagePath := "/backups/b", storageTargetID := 4, verifiedAt := none
    verificationStatus := .unverified }

def backlogStore : Store :=
  { sampleStore with
    runs := ⟨(List.range 51).map fun i => finishedRun (100 + i),by decide⟩
    artifacts := singleRow (pendingArtifact 150)
    files := storedFiles }

theorem backlog_never_reached : ¬ EventuallyCovered digestEnv 0 backlogStore := by
  rintro ⟨n,hn⟩
  have hel : Eligible digestEnv backlogStore (finishedRun 150) (pendingArtifact 150) :=
    ⟨by decide,⟨by decide,sampleTarget,by decide,rfl⟩,by decide,by decide⟩
  have hout : finishedRun 150 ∉ backlogStore.completedRuns verifyBatchLimit := by decide
  obtain ⟨t,ht,hc⟩ := hn (List.replicate n 0) List.length_replicate
  exact hc _ _ (passes_skip hel hout ht)

def judgedRun (env : Env) (s : Store) (actor : Actor) (param : String) :
    Option (VgBackupRun × Posix.Text) := do
  let id ← env.parseUUID param
  let run ← first s.runs id
  let target ← first s.targets run.storageTargetID
  let data ← s.files.read (openedPath env run.storagePath)
  if canAccessBackupResource actor (s.jobOf run).row.createdByUserID ∧ run.status = .completed ∧
      run.checksum ≠ "" ∧ target.type = .localDisk then some (run,data)
  else none

def VerdictsAgree (env : Env) (pid : Nat) (s : Store) (actor : Actor) (param : String) : Prop :=
  ∃ t reply, serve env pid (.verifyRun actor param) s = some (t,some reply) ∧
    (reply.code ≠ 200 → t = s) ∧
    (reply.code = 200 → ∃ id run, env.parseUUID param = some id ∧ first s.runs id = some run ∧
      ∀ a ∈ allWhere t.artifacts fun a => a.backupRunID == id,
        (a.verificationStatus = .verified → autoVerdict env s.files run a = some .verified) ∧
        (a.verificationStatus = .verifyFail → autoVerdict env s.files run a ≠ some .verified))

section Manual

variable {env : Env} {pid : Nat} {s : Store} {actor : Actor} {param : String}

theorem judgedRun_some {run : VgBackupRun} {data : Posix.Text}
    (h : judgedRun env s actor param = some (run,data)) :
    ∃ id target, env.parseUUID param = some id ∧ first s.runs id = some run ∧
      first s.targets run.storageTargetID = some target ∧
      s.files.read (openedPath env run.storagePath) = some data ∧
      canAccessBackupResource actor (s.jobOf run).row.createdByUserID = true ∧
      run.status = .completed ∧ run.checksum ≠ "" ∧ target.type = .localDisk := by
  simp only [judgedRun,Option.bind_eq_bind,Option.bind_eq_some_iff] at h
  obtain ⟨id,hid,r,hr,target,ht,d,hd,h⟩ := h
  split at h
  · rename_i hc
    simp only [Option.some.injEq,Prod.mk.injEq] at h
    obtain ⟨rfl,rfl⟩ := h
    exact ⟨id,target,hid,hr,ht,hd,hc⟩
  · simp at h

theorem verifyRun_judges (pid : Nat) {run : VgBackupRun} {data : Posix.Text}
    (h : judgedRun env s actor param = some (run,data)) :
    solo pid (verifyRun env actor param) s =
      some (((SideWrite.judgeArtifacts run.id (verdict env data run.checksum) s.clock).exec s).1,
        ⟨200,.verified (decide (verdict env data run.checksum = .verified)) run.checksum
          (env.sha256 data)⟩) := by
  obtain ⟨id,target,hid,hr,ht,hd,ha,hs,hc,hl⟩ := judgedRun_some h
  simp [verifyRun,hid,Select.eval,hr,ha,hs,hc,ht,hl,hd]

theorem verifyRun_refuses (pid : Nat) (h : judgedRun env s actor param = none) :
    ∃ reply, solo pid (verifyRun env actor param) s = some (s,reply) ∧ reply.code ≠ 200 := by
  unfold verifyRun
  cases hid : env.parseUUID param with
  | none => exact ⟨_,rfl,by simp⟩
  | some id =>
    simp only [solo_query_bind,Select.eval]
    cases hr : first s.runs id with
    | none => exact ⟨_,rfl,by simp⟩
    | some run =>
      simp only [Option.map_some]
      split
      · exact ⟨_,rfl,by simp⟩
      · rename_i ha
        split
        · exact ⟨_,rfl,by simp⟩
        · rename_i hs
          split
          · exact ⟨_,rfl,by simp⟩
          · rename_i hc
            simp only [solo_query_bind,Select.eval]
            cases ht : first s.targets run.storageTargetID with
            | none => exact ⟨_,rfl,by simp⟩
            | some target =>
              dsimp only
              split
              · exact ⟨_,rfl,by simp⟩
              · rename_i hl
                simp only [solo_query_bind,Select.eval]
                cases hd : s.files.read (openedPath env run.storagePath) with
                | none => exact ⟨_,rfl,by simp⟩
                | some data => simp_all [judgedRun]

theorem mem_judgeArtifacts {run : UUID} {st : VerificationStatus} {now : Time}
    {b : VgBackupArtifact} :
    b ∈ allWhere ((SideWrite.judgeArtifacts run st now).exec s).1.artifacts
        (fun a => a.backupRunID == run) ↔
      ∃ a ∈ allWhere s.artifacts fun a => a.backupRunID == run, b = { a with
        updatedAt := s.clock, verificationStatus := st, verifiedAt := some now } := by
  have hlive : ∀ a : VgBackupArtifact, live ({ a with
      updatedAt := s.clock, verificationStatus := st, verifiedAt := some now } :
        VgBackupArtifact) = live a := fun _ => rfl
  simp only [allWhere,Table.select,SideWrite.exec,Table.modify,List.mem_filter,List.mem_map]
  constructor
  · rintro ⟨⟨a,ha,rfl⟩,hb⟩
    by_cases hp : (live a && a.backupRunID == run) = true
    · exact ⟨a,⟨ha,hp⟩,by rw [if_pos hp]⟩
    · rw [if_neg hp] at hb
      exact absurd hb hp
  · rintro ⟨a,⟨ha,hp⟩,rfl⟩
    refine ⟨⟨a,ha,by rw [if_pos hp]⟩,?_⟩
    rw [hlive]
    exact hp

theorem verdict_verified (env : Env) {data : Posix.Text} {checksum : String} :
    verdict env data checksum = .verified ↔ env.sha256 data = Go.toLower checksum := by
  unfold verdict
  split <;> simp_all

end Manual

theorem manual_verdict_agrees (env : Env) (pid : Nat) (s : Store) (actor : Actor)
    (param : String) :
    VerdictsAgree env pid s actor param ↔
      ∀ run data, judgedRun env s actor param = some (run,data) →
        ∀ a ∈ allWhere s.artifacts fun a => a.backupRunID == run.id,
          (autoVerdict env s.files run a = some .verified ↔
            env.sha256 data = Go.toLower run.checksum) := by
  simp only [VerdictsAgree,serve,handle,solo_answered]
  constructor
  · rintro ⟨t,reply,hs,-,hok⟩ run data hj a ha
    obtain ⟨id,target,hid,hr,-⟩ := judgedRun_some hj
    rw [verifyRun_judges pid hj,Option.some.injEq,Prod.mk.injEq] at hs
    obtain ⟨rfl,rfl⟩ := hs
    obtain ⟨id',run',hid',hr',hall⟩ := hok rfl
    obtain rfl : id = id' := Option.some.inj (hid.symm.trans hid')
    obtain rfl : run = run' := Option.some.inj (hr.symm.trans hr')
    obtain rfl : run.id = id := first_id hr
    obtain ⟨hyes,hno⟩ := hall _ (mem_judgeArtifacts.mpr ⟨a,ha,rfl⟩)
    rw [← verdict_verified env]
    refine ⟨?_,fun hv => hyes hv⟩
    intro hown
    by_contra hne
    refine hno ?_ hown
    simp only [verdict] at hne ⊢
    split <;> simp_all
  · intro h
    cases hj : judgedRun env s actor param with
    | none =>
      obtain ⟨reply,hs,hc⟩ := verifyRun_refuses pid hj
      exact ⟨s,reply,hs,fun _ => rfl,fun hk => absurd hk hc⟩
    | some jr =>
      obtain ⟨run,data⟩ := jr
      obtain ⟨id,target,hid,hr,-⟩ := judgedRun_some hj
      refine ⟨_,_,verifyRun_judges pid hj,fun hk => absurd rfl hk,fun _ => ⟨id,run,hid,hr,?_⟩⟩
      intro b hb
      obtain rfl : run.id = id := first_id hr
      obtain ⟨a,ha,rfl⟩ := mem_judgeArtifacts.mp hb
      have hiff := h run data hj a ha
      rw [← verdict_verified env] at hiff
      refine ⟨fun hv => hiff.mpr hv,?_⟩
      intro hf hown
      have hv : verdict env data run.checksum = .verified := hiff.mp hown
      have hf' : verdict env data run.checksum = .verifyFail := hf
      rw [hv] at hf'
      simp at hf'

def mixedArtifact : VgBackupArtifact := { pendingArtifact 7 with checksum := digestA }

def mixedStore : Store :=
  { sampleStore with
    runs := singleRow (finishedRun 7), artifacts := singleRow mixedArtifact, files := storedFiles }

theorem manual_verdict_wrong :
    ¬ VerdictsAgree digestEnv 0 mixedStore ⟨.admin,1⟩ runParam := by
  rintro ⟨t,reply,hs,-,hok⟩
  have hrun : ((serve digestEnv 0 (.verifyRun ⟨.admin,1⟩ runParam) mixedStore).map fun r =>
      (r.2.map (·.code),allWhere r.1.artifacts fun a => a.backupRunID == 7)) =
      some (some 200,[{ mixedArtifact with
        verificationStatus := .verified, verifiedAt := some 0 }]) := by decide
  rw [hs,Option.map_some,Option.some.injEq,Prod.mk.injEq] at hrun
  obtain ⟨hcode,hrows⟩ := hrun
  obtain ⟨id,run,hid,hr,hall⟩ := hok (Option.some.inj hcode)
  obtain rfl : 7 = id := Option.some.inj hid
  obtain rfl : finishedRun 7 = run := Option.some.inj hr
  rw [hrows] at hall
  have hown := (hall _ (List.mem_singleton_self _)).1 rfl
  exact absurd hown (by decide)

end VgBackup
