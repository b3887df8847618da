import ServerHub.VgBackup.RunMoves

namespace VgBackup

open Relational Interleave

def SparesFinished : UpdateRule := fun s w p =>
  w.status = none → ∀ r ∈ s.runs.rows, w.matches r = true → r.status.terminal = true →
    ∀ b, p.status = some b → b = r.status

def StatusEdge (s t : Store) : Prop :=
  ∀ id r r', s.runs.find id = some r → t.runs.find id = some r' →
    r'.status = r.status ∨ canTransition r.status r'.status = true

def FinishedKept (s t : Store) : Prop :=
  ∀ id r, s.runs.find id = some r → r.status.terminal = true →
    ∃ r', t.runs.find id = some r' ∧ r'.status = r.status

theorem not_terminal_canTransition {a : RunStatus} (h : a.terminal = false) :
    canTransition a .cancelled = true ∧ (a ≠ .pending → canTransition a .failed = true) := by
  cases a <;> simp_all [canTransition,RunStatus.terminal]

theorem rowMove_status {s : Store} {r r' : VgBackupRun} (h : RowMove SparesFinished s r r')
    (hf : s.runs.find r.id = some r) :
    r'.status = r.status ∨ canTransition r.status r'.status = true := by
  cases h with
  | same => exact .inl rfl
  | delete => exact .inl rfl
  | update w p hb hp hm =>
    obtain ⟨-,hid,hs⟩ := matches_run hm
    have hmem : r ∈ s.runs.rows := (Table.find_some hf).1
    cases hb with
    | claim id agent now =>
      rw [hs _ rfl]
      exact .inr rfl
    | report run req st now wrapped hc hn =>
      rw [hs _ rfl]
      exact .inr hc
    | progress id req => exact .inl rfl
    | cancel run =>
      by_cases hpend : run.status = .pending
      · cases ht : r.status.terminal with
        | true =>
          have he := hp rfl r hmem hm ht .cancelled (by simp [cancelPatch,hpend])
          exact .inl (by simp [RunPatch.apply,cancelPatch,hpend,he])
        | false =>
          refine .inr ?_
          simpa [RunPatch.apply,cancelPatch,hpend] using (not_terminal_canTransition ht).1
      · exact .inl (by simp [RunPatch.apply,cancelPatch,hpend])
    | credential run now hn hpend =>
      cases ht : r.status.terminal with
      | true =>
        have he := hp rfl r hmem hm ht .failed rfl
        exact .inl he
      | false =>
        have hne : r.status ≠ .pending := hpend r (by rw [← hf,hid])
        exact .inr ((not_terminal_canTransition ht).2 hne)
    | stale run now ha hn =>
      rw [hs _ rfl]
      refine .inr ?_
      simp only [RunPatch.apply,stalePatch,Option.getD_some]
      split
      · exact (active_canTransition ha).2
      · exact (active_canTransition ha).1

theorem moved_status {s t : Store} (h : Moved SparesFinished s t) : StatusEdge s t := by
  intro id r r' hr hr'
  obtain ⟨a,ha,-,hm⟩ := moved_row h hr
  obtain rfl : a = r' := Option.some.inj (ha.symm.trans hr')
  have hid : r.id = id := (Table.find_some hr).2
  exact rowMove_status hm (hid.symm ▸ hr)

theorem finished_of_edge {s t : Store} (hl : s.Later t) (h : StatusEdge s t) :
    FinishedKept s t := by
  intro id r hr ht
  obtain ⟨r',hr',-⟩ := hl.runs id r hr
  rcases h id r r' hr hr' with he | hc
  · exact ⟨r',hr',he⟩
  · rw [canTransition_terminal hc] at ht
    simp at ht

theorem finishedKept_refl (s : Store) : FinishedKept s s := fun _ r hr _ => ⟨r,hr,rfl⟩

theorem finishedKept_trans {s t u : Store} (h : FinishedKept s t) (k : FinishedKept t u) :
    FinishedKept s u := by
  intro id r hr ht
  obtain ⟨a,ha,he⟩ := h id r hr ht
  obtain ⟨b,hb,he'⟩ := k id a ha (he ▸ ht)
  exact ⟨b,hb,he'.trans he⟩

theorem spares_of_edge {s : Store} {w : RunWhere} {p : RunPatch}
    (h : StatusEdge s (s.updateRun w p)) : SparesFinished s w p := by
  intro _ r hr hm hterm b hb
  have hf : s.runs.find r.id = some r := Table.find_of_mem hr
  have hf' : (s.updateRun w p).runs.find r.id = some (p.apply s.clock r) := by
    rw [find_updateRun,hf]
    simp [hm]
  have hst : (p.apply s.clock r).status = b := by simp [RunPatch.apply,hb]
  rcases h _ r _ hf hf' with he | hc
  · exact hst.symm.trans he
  · rw [canTransition_terminal hc] at hterm
    simp at hterm

def StatusMachine (env : Env) (s : Store) (es : List (Event (system env))) : Prop :=
  Along (Changes (S := system env) StatusEdge) (World.idle s) es ∧
  ∀ xs ys u v, es = xs ++ ys → (World.idle (S := system env) s).run xs = some u →
    u.run ys = some v → FinishedKept u.state v.state

theorem status_machine_iff (env : Env) (s : Store) (es : List (Event (system env))) :
    StatusMachine env s es ↔ Along (Updating SparesFinished) (World.idle s) es := by
  constructor
  · rintro ⟨h,-⟩
    exact along_imp (fun _ _ hc => updating_of_changes (fun _ _ _ => spares_of_edge) hc) h
  · intro h
    have hm := along_moved h
    have hedge : Along (Changes (S := system env) StatusEdge) (World.idle s) es :=
      along_imp (fun _ _ hc v hv => moved_status (hc v hv)) hm
    have hkept : Along (Changes (S := system env) FinishedKept) (World.idle s) es :=
      along_imp (fun _ _ hc v hv => finished_of_edge (hc v hv).1 (moved_status (hc v hv))) hm
    refine ⟨hedge,?_⟩
    rintro xs ys u v rfl hu hv
    exact changes_run (P := FinishedKept) finishedKept_refl (fun _ _ _ => finishedKept_trans)
      (along_append hkept hu).2 hv

def hexDigit (c : Char) : Option Nat :=
  if '0' ≤ c ∧ c ≤ '9' then some (c.toNat - '0'.toNat)
  else if 'a' ≤ c ∧ c ≤ 'f' then some (c.toNat - 'a'.toNat + 10)
  else none

def canonicalUUID (s : String) : Option UUID :=
  if s.toList.length = 36 then
    (s.toList.filter (· ≠ '-')).foldlM (fun n c => (hexDigit c).map (16 * n + ·)) 0
  else none

def sampleEnv : Env where
  parseUUID := canonicalUUID
  uuidString _ := ""
  encrypt s := some s
  decrypt _ := none
  parseCron _ := .error "empty spec string"
  loadLocation tz := tz = "UTC"
  addDate t days := t + days * 24 * minutes 60
  deleteRoot := ""
  workDir := "/"
  sha256 _ := ""
  sha256Hex s := s
  randomHex _ _ := ""
  bcryptHash _ s := some s
  bcryptMatches hash raw := hash = raw
  readError _ := ""
  bindError field := field
  quote s := s

def sampleAgent : VgAgent :=
  { VgAgent.zero with id := 3, createdByUserID := 1, status := .online }

def sampleTarget : VgStorageTarget :=
  { VgStorageTarget.zero with
    id := 4, createdByUserID := 1, name := "disk", type := .localDisk, path := "/backups" }

def sampleJob : VgBackupJob :=
  { VgBackupJob.zero with
    id := 5, createdByUserID := 1, agentID := 3, storageTargetID := 4, name := "files"
    sourceType := .filesystem, sourcePath := "/srv", exportFormat := "ARCHIVE", mode := .normal
    retentionDays := 30, enabled := true }

def sampleRun : VgBackupRun :=
  { VgBackupRun.zero with
    id := 7, backupJobID := 5, agentID := 3, storageTargetID := 4, sourceType := .filesystem }

def singleRow {α : Type} [Keyed α] (a : α) : Table α := ⟨[a],by simp⟩

def sampleStore : Store where
  agents := singleRow sampleAgent
  targets := singleRow sampleTarget
  connections := .empty
  policies := .empty
  jobs := singleRow sampleJob
  schedules _ := none
  runs := singleRow sampleRun
  artifacts := .empty
  chunks := .empty
  baselines _ := none
  restores := .empty
  tokens := .empty
  machines := .empty
  files := ⟨[],by simp⟩
  clock := 0
  nextID := 8
  runLock _ := none
  tokenLock _ := none

def retryPolicy : VgBackupPolicy :=
  { VgBase.zero with
    id := 9, createdByUserID := 1, name := "nightly", strategy := "FULL", cronExpr := ""
    timezone := "UTC", enabled := true, mode := .normal, encrypted := false, retentionDays := 30
    verificationEnabled := true, maxRetries := 3, retryDelaySeconds := 300
    slaTargetMinutes := 0, rpoTargetMinutes := 0, rtoTargetMinutes := 0 }

def retryStore : Store :=
  { sampleStore with
    policies := singleRow retryPolicy
    jobs := singleRow { sampleJob with policyID := some 9, connectionID := some 6 } }

def jobParam : String := "00000000-0000-0000-0000-000000000005"

def runParam : String := "00000000-0000-0000-0000-000000000007"

abbrev SampleEvent := Event (system sampleEnv)

def acts (pid n : Nat) : List SampleEvent := List.replicate n (.act pid)

def claimEvents : List SampleEvent := .start 1 (.vgClaimRun 3 runParam) :: acts 1 5

def failedReport : RunReport := ⟨"FAILED",0,0,0,"disk error","","",""⟩

def failEvents : List SampleEvent :=
  .start 2 (.vgUpdateRunStatus 3 runParam failedReport) :: acts 2 3

def cancelRead : List SampleEvent := [.start 0 (.cancelBackupRun ⟨.admin,1⟩ runParam),.act 0]

def runStatusAfter (s : Store) (es : List SampleEvent) (id : UUID) : Option RunStatus :=
  ((World.idle (S := system sampleEnv) s).run es).bind fun w =>
    (w.state.runs.find id).map (·.status)

theorem status_of_run {s : Store} {es : List SampleEvent} {id : UUID} {a : RunStatus}
    (h : runStatusAfter s es id = some a) :
    ∃ w r, (World.idle (S := system sampleEnv) s).run es = some w ∧
      w.state.runs.find id = some r ∧ r.status = a := by
  simp only [runStatusAfter,Option.bind_eq_some_iff,Option.map_eq_some_iff] at h
  obtain ⟨w,hw,r,hr,ha⟩ := h
  exact ⟨w,r,hw,hr,ha⟩

theorem late_cancel_overwrites_failed :
    ¬ StatusMachine sampleEnv sampleStore (cancelRead ++ claimEvents ++ failEvents ++ [.act 0]) := by
  rintro ⟨-,h⟩
  have hbefore : runStatusAfter sampleStore (cancelRead ++ claimEvents ++ failEvents) 7 =
      some .failed := by decide
  have hafter : runStatusAfter sampleStore (cancelRead ++ claimEvents ++ failEvents ++ [.act 0]) 7 =
      some .cancelled := by decide
  obtain ⟨u,r,hu,hr,hf⟩ := status_of_run hbefore
  obtain ⟨v,r',hv,hr',hc⟩ := status_of_run hafter
  rw [run_append,hu,Option.bind_some] at hv
  obtain ⟨q,hq,hs⟩ := h _ [.act 0] u v rfl hu hv 7 r hr (by rw [hf]; rfl)
  rw [hr',Option.some.injEq] at hq
  rw [← hq,hc,hf] at hs
  simp at hs

structure RunResult where
  bytesRead : Int
  bytesCompressed : Int
  bytesUploaded : Int
  storagePath : String
  checksum : String
  dataKeyEncrypted : String
deriving DecidableEq

def VgBackupRun.result (r : VgBackupRun) : RunResult :=
  ⟨r.bytesRead,r.bytesCompressed,r.bytesUploaded,r.storagePath,r.checksum,r.dataKeyEncrypted⟩

def SparesCounters : UpdateRule := fun s w p =>
  w.status = none → ∀ r ∈ s.runs.rows, w.matches r = true → r.status.terminal = true →
    p.bytesRead.getD r.bytesRead = r.bytesRead ∧
    p.bytesCompressed.getD r.bytesCompressed = r.bytesCompressed ∧
    p.bytesUploaded.getD r.bytesUploaded = r.bytesUploaded

instance (s : Store) (w : RunWhere) (p : RunPatch) : Decidable (SparesCounters s w p) :=
  inferInstanceAs (Decidable (_ → ∀ r ∈ s.runs.rows, _ → _ → _))

def ResultKept (s t : Store) : Prop :=
  ∀ id r, s.runs.find id = some r → r.status.terminal = true →
    ∃ r', t.runs.find id = some r' ∧ r'.status.terminal = true ∧ r'.result = r.result

theorem rowMove_result {s : Store} {r r' : VgBackupRun} (h : RowMove SparesCounters s r r')
    (hmem : r ∈ s.runs.rows) (ht : r.status.terminal = true) : r'.result = r.result := by
  cases h with
  | same => rfl
  | delete => rfl
  | update w p hb hp hm =>
    cases hb.unguarded hm ht with
    | progress id req =>
      obtain ⟨h1,h2,h3⟩ := hp rfl r hmem hm ht
      simp only [RunReport.counters,Option.getD_some] at h1 h2 h3
      simp [VgBackupRun.result,RunPatch.apply,RunReport.counters,h1,h2,h3]
    | cancel run => rfl
    | credential run now hn => rfl

theorem moved_result {s t : Store} (h : Moved SparesCounters s t) : ResultKept s t := by
  intro id r hr ht
  obtain ⟨r',hr',hl,hm⟩ := moved_row h hr
  exact ⟨r',hr',hl.finished ht,rowMove_result hm (Table.find_some hr).1 ht⟩

theorem resultKept_refl (s : Store) : ResultKept s s := fun _ r hr ht => ⟨r,hr,ht,rfl⟩

theorem resultKept_trans {s t u : Store} (h : ResultKept s t) (k : ResultKept t u) :
    ResultKept s u := by
  intro id r hr ht
  obtain ⟨a,ha,hta,hea⟩ := h id r hr ht
  obtain ⟨b,hb,htb,heb⟩ := k id a ha hta
  exact ⟨b,hb,htb,heb.trans hea⟩

def FrozenResults (env : Env) (s : Store) (es : List (Event (system env))) : Prop :=
  ∀ xs ys u v, es = xs ++ ys → (World.idle (S := system env) s).run xs = some u →
    u.run ys = some v → ∀ id r, u.state.runs.find id = some r →
    (r.status = .completed ∨ r.status = .failed) →
    ∃ r', v.state.runs.find id = some r' ∧ r'.result = r.result

theorem frozen_results (env : Env) (s : Store) (es : List (Event (system env)))
    (h : Along (Updating SparesCounters) (World.idle s) es) : FrozenResults env s es := by
  have hkept : Along (Changes (S := system env) ResultKept) (World.idle s) es :=
    along_imp (fun _ _ hc v hv => moved_result (hc v hv)) (along_moved h)
  rintro xs ys u v rfl hu hv id r hr hst
  have ht : r.status.terminal = true := by
    rcases hst with hst | hst <;> rw [hst] <;> rfl
  obtain ⟨r',hr',-,he⟩ := changes_run (P := ResultKept) resultKept_refl
    (fun _ _ _ => resultKept_trans) (along_append hkept hu).2 hv id r hr ht
  exact ⟨r',hr',he⟩

def progressReport : RunReport := ⟨"RUNNING",10,10,10,"","","",""⟩

def progressRead : List SampleEvent :=
  [.start 0 (.vgUpdateRunStatus 3 runParam progressReport),.act 0]

theorem frozen_results_progress :
    Along (Updating SparesCounters) (World.idle sampleStore)
      (claimEvents ++ progressRead ++ acts 0 1 ++ failEvents) ∧
    FrozenResults sampleEnv sampleStore (claimEvents ++ progressRead ++ acts 0 1 ++ failEvents) :=
  have h : Along (Updating SparesCounters) (World.idle sampleStore)
      (claimEvents ++ progressRead ++ acts 0 1 ++ failEvents) := by decide
  ⟨h,frozen_results sampleEnv sampleStore _ h⟩

def bytesAfter (s : Store) (es : List SampleEvent) (id : UUID) : Option (RunStatus × Int) :=
  ((World.idle (S := system sampleEnv) s).run es).bind fun w =>
    (w.state.runs.find id).map fun r => (r.status,r.bytesUploaded)

theorem bytes_of_run {s : Store} {es : List SampleEvent} {id : UUID} {a : RunStatus} {n : Int}
    (h : bytesAfter s es id = some (a,n)) :
    ∃ w r, (World.idle (S := system sampleEnv) s).run es = some w ∧
      w.state.runs.find id = some r ∧ r.status = a ∧ r.bytesUploaded = n := by
  simp only [bytesAfter,Option.bind_eq_some_iff,Option.map_eq_some_iff,Prod.mk.injEq] at h
  obtain ⟨w,hw,r,hr,ha,hn⟩ := h
  exact ⟨w,r,hw,hr,ha,hn⟩

theorem late_progress_changes_failed :
    ¬ FrozenResults sampleEnv sampleStore (claimEvents ++ progressRead ++ failEvents ++ acts 0 1) := by
  intro h
  have hbefore : bytesAfter sampleStore (claimEvents ++ progressRead ++ failEvents) 7 =
      some (.failed,0) := by decide
  have hafter : bytesAfter sampleStore (claimEvents ++ progressRead ++ failEvents ++ acts 0 1) 7 =
      some (.failed,10) := by decide
  obtain ⟨u,r,hu,hr,hf,hn⟩ := bytes_of_run hbefore
  obtain ⟨v,r',hv,hr',-,hn'⟩ := bytes_of_run hafter
  rw [run_append,hu,Option.bind_some] at hv
  obtain ⟨q,hq,hs⟩ := h _ (acts 0 1) u v rfl hu hv 7 r hr (.inr hf)
  rw [hr',Option.some.injEq] at hq
  have hb : r'.bytesUploaded = r.bytesUploaded := by
    rw [hq]
    exact congrArg RunResult.bytesUploaded hs
  rw [hn,hn'] at hb
  simp at hb

end VgBackup
