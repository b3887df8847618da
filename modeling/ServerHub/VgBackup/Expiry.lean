import ServerHub.VgBackup.Retention
import ServerHub.VgBackup.StatusMachine

namespace VgBackup

open Relational Interleave

section Retention

variable {env : Env} {pid : Nat} {s t : Store} {now : Time}

def Expired (env : Env) (now : Time) (job : LoadedJob) (r : VgBackupRun) : Prop :=
  0 < (effectivePolicy job).retentionDays ∧ r.backupJobID = job.row.id ∧
  r.status.terminal = true ∧
  ∃ c, r.completedAt = some c ∧ c < env.addDate now (-(effectivePolicy job).retentionDays)

theorem first_purged {gone : UUID → Bool} (h : Purged s t gone) (id : UUID) :
    first t.runs id = (first s.runs id).filter fun _ => !gone id := by
  obtain ⟨files,rfl⟩ := h.rows
  rw [purge,first_softDelete]
  cases hf : first s.runs id with
  | none => rfl
  | some r =>
    have hid : r.id = id := first_id hf
    simp [Option.filter,hid]

theorem enforceRetention_removes {id : UUID} {r : VgBackupRun} {job : LoadedJob}
    (h : solo pid (enforceRetention env now) s = some (t,()))
    (hjob : s.loadJob r.backupJobID = some job) (hr : s.runs.find id = some r)
    (he : Expired env now job r) (hz : s.activeRestores id = 0) : first t.runs id = none := by
  have hid : r.id = id := (Table.find_some hr).2
  obtain ⟨hd,-,ht,c,hc,hlt⟩ := he
  rw [first_purged (enforceRetention_purged h)]
  cases hl : live r with
  | false => simp [first,hr,hl]
  | true =>
    have hf : first s.runs id = some r := by simp [first,hr,hl]
    have hgone : retires env now s r = true := by
      simp [retires,hjob,overdue,hd,ht,hc,hlt,hid,hz]
    simp [Option.filter,hf,hgone]

theorem retires_iff {r : VgBackupRun} : retires env now s r = true ↔
    ∃ job, s.loadJob r.backupJobID = some job ∧ 0 < (effectivePolicy job).retentionDays ∧
      r.status.terminal = true ∧ (∃ c, r.completedAt = some c ∧
        c < env.addDate now (-(effectivePolicy job).retentionDays)) ∧
      s.activeRestores r.id = 0 := by
  simp only [retires,overdue,Bool.and_eq_true,beq_iff_eq,Option.any_eq_true,decide_eq_true_eq]
  constructor
  · rintro ⟨⟨job,hjob,⟨hd,ht⟩,hc⟩,hz⟩
    exact ⟨job,hjob,hd,ht,hc,hz⟩
  · rintro ⟨job,hjob,hd,ht,hc,hz⟩
    exact ⟨⟨job,hjob,⟨hd,ht⟩,hc⟩,hz⟩

def Retirable (env : Env) (now : Time) (s : Store) (r : VgBackupRun) : Prop :=
  ∃ job, s.loadJob r.backupJobID = some job ∧ 0 < (effectivePolicy job).retentionDays ∧
    (r.status = .completed ∨ r.status = .failed ∨ r.status = .cancelled) ∧
    (∃ c, r.completedAt = some c ∧
      c < env.addDate now (-(effectivePolicy job).retentionDays)) ∧
    ∀ x ∈ s.restores.rows, live x = true → x.backupRunID = r.id →
      x.status ≠ .pending ∧ x.status ≠ .running

theorem terminal_iff (a : RunStatus) :
    a.terminal = true ↔ a = .completed ∨ a = .failed ∨ a = .cancelled := by
  cases a <;> simp [RunStatus.terminal]

theorem idle_iff (a : RestoreStatus) : a.active = false ↔ a ≠ .pending ∧ a ≠ .running := by
  cases a <;> simp [RestoreStatus.active]

theorem retires_retirable {r : VgBackupRun} :
    retires env now s r = true ↔ Retirable env now s r := by
  have hfree : s.activeRestores r.id = 0 ↔ ∀ x ∈ s.restores.rows, live x = true →
      x.backupRunID = r.id → x.status ≠ .pending ∧ x.status ≠ .running := by
    rw [activeRestores_zero]
    constructor
    · intro h x hx hl hr
      refine (idle_iff x.status).mp (Bool.eq_false_iff.mpr ?_)
      exact fun ha => h ⟨x,hx,hl,hr,ha⟩
    · rintro h ⟨x,hx,hl,hr,ha⟩
      rw [(idle_iff x.status).mpr (h x hx hl hr)] at ha
      simp at ha
  rw [retires_iff]
  simp only [Retirable,terminal_iff,hfree]

structure RetentionExact (env : Env) (now : Time) (s t : Store) : Prop where
  removed : ∀ id r, first s.runs id = some r → (first t.runs id = none ↔ Retirable env now s r)
  rows : ∃ files, t = purge s (fun id => (first s.runs id).any (retires env now s)) files

theorem retentionExact_of_purged
    (h : Purged s t fun id => (first s.runs id).any (retires env now s)) :
    RetentionExact env now s t := by
  refine ⟨?_,h.rows⟩
  intro id r hr
  rw [first_purged h,hr,← retires_retirable]
  cases hx : retires env now s r <;> simp [Option.filter,hx]

theorem retires_purged {gone : UUID → Bool} (h : Purged s t gone) (r : VgBackupRun) :
    retires env now t r = retires env now s r := by
  obtain ⟨files,rfl⟩ := h.rows
  rfl

theorem purged_settled (h : Purged s t fun id => (first s.runs id).any (retires env now s))
    (id : UUID) : (first t.runs id).any (retires env now t) = false := by
  rw [first_purged h]
  cases hf : first s.runs id with
  | none => rfl
  | some r =>
    cases hr : retires env now s r with
    | true => simp [Option.filter,hr]
    | false => simp [Option.filter,hr,retires_purged h]

end Retention

theorem retention_exact (env : Env) (pid : Nat) (now : Time) (s : Store) (h : Unblocked pid s) :
    ∃ t, solo pid (enforceRetention env now) s = some (t,()) ∧ RetentionExact env now s t ∧
      solo pid (enforceRetention env now) t = some (t,()) := by
  obtain ⟨t,_,ht,hfree⟩ := solo_total h (lockless_enforceRetention env now)
  obtain ⟨u,_,hu,-⟩ := solo_total hfree (lockless_enforceRetention env now)
  have hp := enforceRetention_purged ht
  have hsame : u = t := (enforceRetention_purged hu).idle (purged_settled hp)
  exact ⟨t,ht,retentionExact_of_purged hp,hsame ▸ hu⟩

def finishedStore : Store :=
  { sampleStore with
    runs := singleRow { sampleRun with status := .failed, completedAt := some 0 } }

def fortyDays : Time := 40 * 24 * minutes 60

theorem retention_exact_finished :
    Unblocked 0 finishedStore ∧
    ∃ t, solo 0 (enforceRetention sampleEnv fortyDays) finishedStore = some (t,()) ∧
      RetentionExact sampleEnv fortyDays finishedStore t ∧
      solo 0 (enforceRetention sampleEnv fortyDays) t = some (t,()) :=
  have h : Unblocked 0 finishedStore := fun _ => rfl
  ⟨h,retention_exact sampleEnv 0 fortyDays finishedStore h⟩

def DatesFinish : UpdateRule := fun s w p =>
  ∀ r ∈ s.runs.rows, w.matches r = true →
    (p.status = some .cancelled → p.completedAt = none → r.completedAt ≠ none) ∧
    (w.status = none → p.status = some .failed → r.status.terminal = false)

instance (s : Store) (w : RunWhere) (p : RunPatch) : Decidable (DatesFinish s w p) :=
  inferInstanceAs (Decidable (∀ r ∈ s.runs.rows, _ → _))

def RunDated (clock : Time) (r : VgBackupRun) : Prop :=
  (r.status.terminal = true → r.completedAt.isSome = true) ∧
  ∀ c, r.completedAt = some c → c ≤ clock

def Dated (s : Store) : Prop := ∀ id r, s.runs.find id = some r → RunDated s.clock r

theorem runDated_of_some {clock now : Time} {r : VgBackupRun} (h : r.completedAt = some now)
    (hn : now ≤ clock) : RunDated clock r := by
  refine ⟨fun _ => by simp [h],?_⟩
  intro c hc
  rw [h,Option.some.injEq] at hc
  exact hc ▸ hn

theorem runDated_of_same {clock : Time} {r r' : VgBackupRun} (h : RunDated clock r)
    (hc : r'.completedAt = r.completedAt)
    (hs : r'.status.terminal = true → r.completedAt.isSome = true) : RunDated clock r' := by
  refine ⟨fun ht => hc.symm ▸ hs ht,?_⟩
  intro c hr
  exact h.2 c (hc ▸ hr)

theorem rowMove_dated {s : Store} {r r' : VgBackupRun} (h : RowMove DatesFinish s r r')
    (hmem : r ∈ s.runs.rows) (hd : RunDated s.clock r) : RunDated s.clock r' := by
  cases h with
  | same => exact hd
  | delete => exact hd
  | update w p hb hp hm =>
    obtain ⟨hcancel,-⟩ := hp r hmem hm
    cases hb with
    | claim id agent now =>
      refine runDated_of_same hd rfl ?_
      intro ht
      simp [RunPatch.apply,RunStatus.terminal] at ht
    | report run req st now wrapped hc hn =>
      by_cases hdone : st = .completed ∨ st = .failed
      · have hat : ((req.transition st run now wrapped).apply s.clock r).completedAt = some now := by
          simp [RunPatch.apply,RunReport.transition,hdone]
        exact runDated_of_some hat hn
      · refine runDated_of_same hd ?_ ?_
        · simp [RunPatch.apply,RunReport.transition,hdone]
        · intro ht
          have hst : st = .cancelled := by
            cases st <;> simp_all [RunPatch.apply,RunReport.transition,RunStatus.terminal]
          have hne := hcancel (by simp [RunReport.transition,hst])
            (by simp [RunReport.transition,hst])
          exact Option.isSome_iff_ne_none.mpr hne
    | progress id req => exact runDated_of_same hd rfl hd.1
    | cancel run =>
      refine runDated_of_same hd rfl ?_
      intro ht
      by_cases hpend : run.status = .pending
      · have hne := hcancel (by simp [cancelPatch,hpend]) rfl
        exact Option.isSome_iff_ne_none.mpr hne
      · simp only [RunPatch.apply,cancelPatch,hpend,if_false,Option.getD_none] at ht
        exact hd.1 ht
    | credential run now hn hpend => exact runDated_of_some rfl hn
    | stale run now ha hn => exact runDated_of_some rfl hn

theorem moved_dated {s t : Store} (h : Moved DatesFinish s t) (hd : Dated s) : Dated t := by
  have hclock : s.clock ≤ t.clock := h.1.clock
  have hlift : ∀ r, RunDated s.clock r → RunDated t.clock r :=
    fun r hr => ⟨hr.1,fun c hc => Int.le_trans (hr.2 c hc) hclock⟩
  intro id r' hr'
  rcases row_cases h.2 hr' with ⟨r,hr,hm⟩ | ⟨-,n,-,rfl⟩
  · exact hlift r' (rowMove_dated hm (Table.find_some hr).1 (hd id r hr))
  · refine ⟨?_,?_⟩
    · intro ht
      simp [NewRun.row,RunStatus.terminal] at ht
    · intro c hc
      simp [NewRun.row,VgBackupRun.zero] at hc

theorem rowMove_completedAt {s : Store} {r r' : VgBackupRun} (h : RowMove DatesFinish s r r')
    (hmem : r ∈ s.runs.rows) (ht : r.status.terminal = true) :
    r'.completedAt = r.completedAt := by
  cases h with
  | same => rfl
  | delete => rfl
  | update w p hb hp hm =>
    obtain ⟨-,hfail⟩ := hp r hmem hm
    cases hb.unguarded hm ht with
    | progress id req => rfl
    | cancel run => rfl
    | credential run now hn =>
      rw [hfail rfl rfl] at ht
      simp at ht

def FinishKept (s t : Store) : Prop :=
  ∀ id r, s.runs.find id = some r → r.status.terminal = true →
    ∃ r', t.runs.find id = some r' ∧ r'.status.terminal = true ∧ r'.origin = r.origin ∧
      r'.completedAt = r.completedAt

theorem moved_finish {s t : Store} (h : Moved DatesFinish s t) : FinishKept s t := by
  intro id r hr ht
  obtain ⟨r',hr',hl,hm⟩ := moved_row h hr
  exact ⟨r',hr',hl.finished ht,hl.origin,rowMove_completedAt hm (Table.find_some hr).1 ht⟩

theorem finishKept_refl (s : Store) : FinishKept s s := fun _ r hr ht => ⟨r,hr,ht,rfl,rfl⟩

theorem finishKept_trans {s t u : Store} (h : FinishKept s t) (k : FinishKept t u) :
    FinishKept s u := by
  intro id r hr ht
  obtain ⟨a,ha,hta,hoa,hea⟩ := h id r hr ht
  obtain ⟨b,hb,htb,hob,heb⟩ := k id a ha hta
  exact ⟨b,hb,htb,hob.trans hoa,heb.trans hea⟩

def FinishedExpire (env : Env) (s : Store) (es : List (Event (system env))) : Prop :=
  ∀ xs ys u v, es = xs ++ ys → (World.idle (S := system env) s).run xs = some u →
    u.run ys = some v → ∀ id r, u.state.runs.find id = some r → r.status.terminal = true →
    r.completedAt.isSome = true ∧
    ∀ job, v.state.loadJob r.backupJobID = some job → 0 < (effectivePolicy job).retentionDays →
      v.state.activeRestores id = 0 → ∀ pid now,
      u.state.clock < env.addDate now (-(effectivePolicy job).retentionDays) →
      (∀ t, solo pid (enforceRetention env now) v.state = some (t,()) →
        first t.runs id = none) ∧
      (Unblocked pid v.state → ∃ t, solo pid (enforceRetention env now) v.state = some (t,()))

theorem finished_runs_expire (env : Env) (s : Store) (es : List (Event (system env)))
    (h0 : Dated s) (h : Along (Updating DatesFinish) (World.idle s) es) :
    FinishedExpire env s es := by
  have hm := along_moved h
  have hkept : Along (Changes (S := system env) FinishKept) (World.idle s) es :=
    along_imp (fun _ _ hc v hv => moved_finish (hc v hv)) hm
  rintro xs ys u v rfl hu hv id r hr ht
  have hdated : Dated u.state :=
    along_invariant (I := fun w => Dated w.state) (fun w e v hw hc hv => moved_dated (hc v hv) hw)
      h0 (along_append hm hu).1 hu
  obtain ⟨hsome,hle⟩ := hdated id r hr
  obtain ⟨c,hc⟩ := Option.isSome_iff_exists.mp (hsome ht)
  refine ⟨hsome ht,?_⟩
  intro job hjob hd hz pid now hlt
  obtain ⟨r',hr',ht',ho,hc'⟩ := changes_run (P := FinishKept) finishKept_refl
    (fun _ _ _ => finishKept_trans) (along_append hkept hu).2 hv id r hr ht
  have hjid : r'.backupJobID = r.backupJobID := congrArg RunOrigin.backupJobID ho
  have hrow : job.row.id = r.backupJobID := by
    simp only [Store.loadJob,Option.map_eq_some_iff] at hjob
    obtain ⟨j,hj,rfl⟩ := hjob
    exact (Table.find_some (first_some hj).1).2
  refine ⟨?_,?_⟩
  · intro t hs
    refine enforceRetention_removes hs (hjid.symm ▸ hjob) hr' ?_ hz
    refine ⟨hd,hjid.trans hrow.symm,ht',c,hc'.trans hc,?_⟩
    exact Int.lt_of_le_of_lt (hle c hc) hlt
  · intro hb
    obtain ⟨t,_,hs,-⟩ := solo_total hb (lockless_enforceRetention env now)
    exact ⟨t,hs⟩

theorem dated_sampleStore : Dated sampleStore := by
  intro id r hr
  have hmem : r ∈ [sampleRun] := (Table.find_some hr).1
  rw [List.mem_singleton.mp hmem]
  refine ⟨fun h => by simp [sampleRun,VgBackupRun.zero,RunStatus.terminal] at h,?_⟩
  intro c hc
  simp [sampleRun,VgBackupRun.zero] at hc

theorem failed_run_expires :
    Along (Updating DatesFinish) (World.idle sampleStore) (claimEvents ++ failEvents) ∧
    FinishedExpire sampleEnv sampleStore (claimEvents ++ failEvents) :=
  have h : Along (Updating DatesFinish) (World.idle sampleStore) (claimEvents ++ failEvents) := by
    decide
  ⟨h,finished_runs_expire sampleEnv sampleStore _ dated_sampleStore h⟩

theorem cancelled_run_undated :
    ¬ FinishedExpire sampleEnv sampleStore (cancelRead ++ acts 0 1) := by
  intro h
  have hrun : (((World.idle (S := system sampleEnv) sampleStore).run (cancelRead ++ acts 0 1)).bind
      fun w => (w.state.runs.find 7).map fun r => (r.status,r.completedAt)) =
      some (.cancelled,none) := by decide
  simp only [Option.bind_eq_some_iff,Option.map_eq_some_iff,Prod.mk.injEq] at hrun
  obtain ⟨w,hw,r,hr,hs,hc⟩ := hrun
  obtain ⟨hsome,-⟩ := h _ [] w w (List.append_nil _).symm hw rfl 7 r hr (by rw [hs]; rfl)
  rw [hc] at hsome
  simp at hsome

end VgBackup
