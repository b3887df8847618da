import ServerHub.VgBackup.Orderly.Rules

namespace VgBackup

open Relational Interleave

variable {env : Env} {pid : Nat} {x : Trace}

theorem orderly_fire {job : VgBackupJob} (h : Known job x.state) (boundary : Time) :
    Orderly env pid (fire job boundary) x := by
  refine orderly_query_noted fun t1 t2 _ _ h2 hlog => ?_
  split
  · exact orderly_ret _
  · rename_i hzero
    rw [Nat.eq_zero_of_not_pos hzero] at hlog
    refine orderly_run ?_ ?_ fun _ _ _ => orderly_ret _
    · intro t3 h3
      exact ⟨grounded_of_known (known_later (h2.trans h3).later h) rfl rfl rfl rfl,rfl,rfl⟩
    · intro t3 h3
      exact counted_meanwhile h3 (counted_noted hlog)

def Loaded (pid : Nat) (now : Time) (job : LoadedJob) (x : Trace) : Prop :=
  Known job.row x.state ∧ (∃ jobs, (pid,Note.loaded jobs) ∈ x.log ∧ job ∈ jobs) ∧
    now ≤ x.state.clock

theorem loaded_after {now : Time} {job : LoadedJob} {y : Trace} (h : After x y)
    (hl : Loaded pid now job x) : Loaded pid now job y := by
  obtain ⟨hk,⟨jobs,hm,hj⟩,hn⟩ := hl
  exact ⟨known_later h.later hk,⟨jobs,mem_after h hm,hj⟩,Int.le_trans hn h.later.clock⟩

theorem orderly_fireRetry {job : LoadedJob} {latest : VgBackupRun} {now : Time}
    (hl : Loaded pid now job x) (hc : Counted pid job.row.id x)
    (hrun : (pid,Note.latest latest) ∈ x.log) (hj : latest.backupJobID = job.row.id)
    (hd : retryDue (effectivePolicy job) now latest = true) :
    Orderly env pid (fireRetry job.row latest) x := by
  refine orderly_quiet (fun _ => rfl) (fun _ _ => trivial) (fun _ _ => trivial) fun t1 b h1 => ?_
  split
  · exact orderly_ret _
  · refine orderly_bind_quiet (quiet_query fun _ => rfl) fun existing t2 h2 => ?_
    split
    · exact orderly_last (fun _ _ => trivial) fun _ _ => trivial
    · refine orderly_run ?_ ?_ fun _ _ _ => orderly_ret _
      · intro t3 h3
        have hk := (loaded_after ((h1.trans h2).toAfter.trans h3) hl).1
        exact grounded_of_known hk rfl rfl rfl rfl
      · intro t3 h3
        have h13 : Meanwhile pid x t3 := h1.trans (h2.trans h3)
        obtain ⟨-,⟨jobs,hm,hjob⟩,hn⟩ := loaded_after h13.toAfter hl
        refine ⟨counted_meanwhile h13 hc,jobs,job,latest,now,hm,hjob,?_,hn,hj,hd,rfl⟩
        exact mem_after h13.toAfter hrun

theorem newer_cases {acc : Option VgBackupRun} {a r : VgBackupRun}
    (h : Store.newer acc a = some r) : acc = some r ∨ a = r := by
  cases acc with
  | none => exact .inr (Option.some.inj h)
  | some c =>
    simp only [Store.newer] at h
    split at h
    · exact .inr (Option.some.inj h)
    · exact .inl h

theorem foldl_newer {runs : List VgBackupRun} {acc : Option VgBackupRun} {r : VgBackupRun}
    (h : runs.foldl Store.newer acc = some r) : acc = some r ∨ r ∈ runs := by
  induction runs generalizing acc with
  | nil => exact .inl h
  | cons a runs ih =>
    rcases ih h with hacc | hmem
    · rcases newer_cases hacc with hold | rfl
      · exact .inl hold
      · exact .inr List.mem_cons_self
    · exact .inr (List.mem_cons_of_mem a hmem)

theorem newest_mem {runs : List VgBackupRun} {r : VgBackupRun} (h : Store.newest runs = some r) :
    r ∈ runs := by
  rcases foldl_newer h with hnone | hmem
  · simp at hnone
  · exact hmem

theorem latestRun_job {s : Store} {job : UUID} {r : VgBackupRun}
    (h : s.latestRun job = some r) : r ∈ s.runs.rows ∧ live r = true ∧ r.backupJobID = job := by
  have hm := newest_mem h
  simp only [allWhere,Table.select,List.mem_filter,Bool.and_eq_true,beq_iff_eq] at hm
  exact ⟨hm.1,hm.2.1,hm.2.2⟩

theorem orderly_maybeFireRetry {job : LoadedJob} {now : Time} (hl : Loaded pid now job x) :
    Orderly env pid (maybeFireRetry job (effectivePolicy job) now) x := by
  unfold maybeFireRetry
  split
  · exact orderly_ret _
  · refine orderly_query_noted fun t1 t2 _ _ h2 hlog => ?_
    split
    · exact orderly_ret _
    · rename_i hzero
      rw [Nat.eq_zero_of_not_pos hzero] at hlog
      refine orderly_query_noted fun t3 t4 h3 hst h4 hlog' => ?_
      split
      · exact orderly_ret _
      · rename_i latest hlatest
        rw [hlatest] at hlog'
        split
        · rename_i hdue
          have hc : Counted pid job.row.id t4 := by
            have hc3 : Counted pid job.row.id t3 := counted_meanwhile h3 (counted_noted hlog)
            refine Eq.trans ?_ hc3
            rw [hlog']
            refine lastOwn_record ?_
            intro m hm
            rw [← Option.some.inj hm]
            rfl
          exact orderly_fireRetry (loaded_after (h2.trans h4) hl) hc (mem_noted hlog')
            (latestRun_job hlatest).2.2 hdue
        · exact orderly_ret _

theorem orderly_tickJob {job : LoadedJob} {now : Time} (hl : Loaded pid now job x) (prev : Time) :
    Orderly env pid (tickJob env prev now job) x := by
  unfold tickJob
  dsimp only
  split
  · refine orderly_bind (orderly_maybeFireRetry hl) fun _ t1 h1 => ?_
    split
    · exact orderly_ret _
    · split
      · exact orderly_ret _
      · exact orderly_fire (known_later h1.later hl.1) _
  · exact orderly_ret _

theorem orderly_tickJobs {now : Time} (hn : now ≤ x.state.clock) (prev : Time) :
    Orderly env pid (tickJobs env prev now) x := by
  refine orderly_query_noted fun t1 t2 _ hst h2 hlog => ?_
  refine orderly_each (I := Loaded pid now) (fun _ _ _ => loaded_after)
    (fun _ _ h => orderly_tickJob h prev) ?_
  intro job hjob
  refine ⟨?_,⟨_,mem_noted hlog,hjob⟩,Int.le_trans hn h2.later.clock⟩
  rw [hst]
  exact known_all hjob

theorem orderly_checkStaleRun {run : VgBackupRun} {now : Time} (ha : run.status.active = true)
    (hn : now ≤ x.state.clock) : Orderly env pid (checkStaleRun now run) x := by
  refine orderly_query fun t1 h1 => ?_
  split
  · exact orderly_ret _
  · split
    · exact orderly_ret _
    · refine orderly_run ?_ (fun _ _ => trivial) fun _ _ _ => orderly_ret _
      intro t2 h2
      exact RunBacked.stale run now ha (Int.le_trans hn (h1.trans h2).later.clock)

theorem orderly_checkStaleRuns {now : Time} (hn : now ≤ x.state.clock) :
    Orderly env pid (checkStaleRuns now) x := by
  refine orderly_query fun t1 h1 => ?_
  refine orderly_each (I := fun (run : VgBackupRun) t => run.status.active = true ∧ now ≤ t.state.clock)
    (fun _ _ _ h hi => ⟨hi.1,Int.le_trans hi.2 h.later.clock⟩)
    (fun _ _ h => orderly_checkStaleRun h.1 h.2) ?_
  intro run hrun
  simp only [Select.eval,allWhere,Table.select,List.mem_filter,Bool.and_eq_true] at hrun
  exact ⟨hrun.2.2.1,Int.le_trans hn h1.later.clock⟩

theorem quiet_deleteRunFiles (run : VgBackupRun) : Quiet env pid (deleteRunFiles env run) x := by
  refine quiet_bind (quiet_query fun _ => rfl) fun target _ => ?_
  split
  · exact quiet_ret _
  · split
    · exact quiet_ret _
    · split
      · exact quiet_ret _
      · exact quiet_bind (quiet_query fun _ => rfl) fun _ _ => quiet_side _

theorem orderly_retireRun (run : VgBackupRun) : Orderly env pid (retireRun env run) x := by
  refine orderly_query_noted fun t1 t2 _ _ _ hlog => ?_
  split
  · exact orderly_ret _
  · rename_i hzero
    rw [Nat.eq_zero_of_not_pos hzero] at hlog
    refine orderly_bind_quiet (quiet_deleteRunFiles run) fun _ t3 h3 => ?_
    refine orderly_bind_quiet (quiet_query fun _ => rfl) fun artifacts t4 h4 => ?_
    refine orderly_bind_quiet (quiet_each (fun _ _ => quiet_side _) artifacts) fun _ t5 h5 => ?_
    refine orderly_bind_quiet (quiet_side _) fun _ t6 h6 => ?_
    refine orderly_last (fun _ _ => trivial) fun t7 h7 => ?_
    have h27 : Meanwhile pid t2 t7 := h3.trans (h4.trans (h5.trans (h6.trans h7)))
    exact unrestored_meanwhile h27 (unrestored_noted hlog)

theorem orderly_retainJob (now : Time) (job : LoadedJob) :
    Orderly env pid (retainJob env now job) x := by
  unfold retainJob
  dsimp only
  split
  · exact orderly_ret _
  · refine orderly_query fun t1 _ => ?_
    exact orderly_each (I := fun _ _ => True) (fun _ _ _ _ _ => trivial)
      (fun run _ _ => orderly_retireRun run) fun _ _ => trivial

theorem orderly_enforceRetention (now : Time) :
    Orderly env pid (enforceRetention env now) x := by
  refine orderly_query fun t1 _ => ?_
  exact orderly_each (I := fun _ _ => True) (fun _ _ _ _ _ => trivial)
    (fun job _ _ => orderly_retainJob now job) fun _ _ => trivial

theorem quiet_verifyArtifact (now : Time) (run : VgBackupRun) (a : VgBackupArtifact) :
    Quiet env pid (verifyArtifact env now run a) x := by
  unfold verifyArtifact
  split
  · exact quiet_ret _
  · refine quiet_bind (quiet_query fun _ => rfl) fun data _ => ?_
    split
    · exact quiet_ret _
    · exact quiet_side _

theorem orderly_verifyCompletedRun (now : Time) (run : VgBackupRun × LoadedJob) :
    Orderly env pid (verifyCompletedRun env now run) x := by
  unfold verifyCompletedRun
  split
  · refine orderly_query fun t1 _ => ?_
    split
    · exact orderly_ret _
    · split
      · exact orderly_ret _
      · refine orderly_query fun t2 _ => ?_
        exact orderly_of_quiet (quiet_each (fun a _ => quiet_verifyArtifact now run.1 a) _)
  · exact orderly_ret _

theorem orderly_verifyCompletedRuns (now : Time) :
    Orderly env pid (verifyCompletedRuns env now) x := by
  refine orderly_query fun t1 _ => ?_
  exact orderly_each (I := fun _ _ => True) (fun _ _ _ _ _ => trivial)
    (fun run _ _ => orderly_verifyCompletedRun now run) fun _ _ => trivial

theorem orderly_updateSizeBaseline (now : Time) (job : LoadedJob) :
    Orderly env pid (updateSizeBaseline now job) x := by
  refine orderly_query fun t1 _ => ?_
  dsimp only
  split
  · exact orderly_ret _
  · refine orderly_query fun t2 _ => ?_
    split <;> exact orderly_of_quiet (quiet_side _)

theorem orderly_updateSizeBaselines (now : Time) :
    Orderly env pid (updateSizeBaselines now) x := by
  refine orderly_query fun t1 _ => ?_
  exact orderly_each (I := fun _ _ => True) (fun _ _ _ _ _ => trivial)
    (fun job _ _ => orderly_updateSizeBaseline now job) fun _ _ => trivial

theorem orderly_tick {now : Time} (hn : now ≤ x.state.clock) (prev : Time) :
    Orderly env pid (tick env prev now) x := by
  have hrest : ∀ y, After x y → Orderly env pid (do
      checkStaleRuns now
      enforceRetention env now
      verifyCompletedRuns env now
      updateSizeBaselines now) y := by
    intro y hy
    refine orderly_bind (orderly_checkStaleRuns (Int.le_trans hn hy.later.clock)) fun _ _ _ => ?_
    refine orderly_bind (orderly_enforceRetention now) fun _ _ _ => ?_
    refine orderly_bind (orderly_verifyCompletedRuns now) fun _ _ _ => ?_
    exact orderly_updateSizeBaselines now
  unfold tick
  split
  · exact orderly_bind (orderly_tickJobs hn prev) fun _ y hy => hrest y hy
  · exact hrest x (.refl x)

theorem orderly_fireJob (id : UUID) (boundary : Time) :
    Orderly env pid (fireJob id boundary) x := by
  refine orderly_query fun t1 _ => ?_
  split
  · exact orderly_ret _
  · rename_i job hjob
    exact orderly_fire (known_loaded hjob) boundary

theorem orderly_retryJob {now : Time} (hn : now ≤ x.state.clock) (id : UUID) :
    Orderly env pid (retryJob id now) x := by
  refine orderly_query_noted fun t1 t2 _ hst h2 hlog => ?_
  split
  · exact orderly_ret _
  · rename_i job hjob
    rw [hjob] at hlog
    refine orderly_maybeFireRetry ⟨?_,⟨_,mem_noted hlog,by simp⟩,Int.le_trans hn h2.later.clock⟩
    rw [hst]
    exact known_loaded hjob

theorem orderly_atNow {p : Time → Handler Unit}
    (h : ∀ now y, now ≤ y.state.clock → Orderly env pid (p now) y) :
    Orderly env pid (atNow p) x :=
  orderly_query fun y _ => h y.state.clock y (Int.le_refl _)

end VgBackup
