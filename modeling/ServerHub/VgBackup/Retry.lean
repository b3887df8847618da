import ServerHub.VgBackup.StatusMachine

namespace VgBackup

open Relational Interleave

structure RetrySane (m : UUID → Int) (s : Store) : Prop where
  parent : ∀ id x rid, s.runs.find id = some x → x.retryOfRunID = some rid →
    ∃ r, s.runs.find rid = some r ∧ r.backupJobID = x.backupJobID ∧
      x.retryAttempt = r.retryAttempt + 1 ∧ x.retryAttempt ≤ m x.backupJobID
  linear : ∀ id id' x x' rid, s.runs.find id = some x → s.runs.find id' = some x' →
    x.retryOfRunID = some rid → x'.retryOfRunID = some rid → id = id'
  nonneg : ∀ id x, s.runs.find id = some x → 0 ≤ x.retryAttempt

def RetryChain (s : Store) : VgBackupRun → List VgBackupRun → Prop
  | _, [] => True
  | r, x :: xs => s.runs.find x.id = some x ∧ x.retryOfRunID = some r.id ∧ RetryChain s x xs

theorem retryChain_attempt {m : UUID → Int} {s : Store} (h : RetrySane m s)
    {xs : List VgBackupRun} {r : VgBackupRun} (hr : s.runs.find r.id = some r)
    (hc : RetryChain s r xs) :
    xs = [] ∨ r.retryAttempt + xs.length ≤ m r.backupJobID := by
  induction xs generalizing r with
  | nil => exact .inl rfl
  | cons x xs ih =>
    obtain ⟨hx,hof,hrest⟩ := hc
    obtain ⟨r',hr',hj,ha,hle⟩ := h.parent x.id x r.id hx hof
    obtain rfl : r = r' := Option.some.inj (hr.symm.trans hr')
    refine .inr ?_
    rw [hj]
    rcases ih hx hrest with rfl | hlen
    · simp only [List.length_cons,List.length_nil]
      omega
    · simp only [List.length_cons]
      omega

theorem retryChain_length {m : UUID → Int} {s : Store} (h : RetrySane m s)
    {xs : List VgBackupRun} {r : VgBackupRun} (hr : s.runs.find r.id = some r)
    (hc : RetryChain s r xs) : xs.length ≤ (m r.backupJobID).toNat := by
  have hpos := h.nonneg r.id r hr
  rcases retryChain_attempt h hr hc with rfl | hlen
  · exact Nat.zero_le _
  · omega

theorem retrySane_kept {m : UUID → Int} {s u : Store} (h : RetrySane m s) (hl : s.Later u)
    (hk : ∀ id x', u.runs.find id = some x' → ∃ x, s.runs.find id = some x ∧ x'.origin = x.origin) :
    RetrySane m u := by
  have hfields : ∀ {x x' : VgBackupRun}, x'.origin = x.origin →
      x'.retryOfRunID = x.retryOfRunID ∧ x'.retryAttempt = x.retryAttempt ∧
      x'.backupJobID = x.backupJobID := by
    intro x x' ho
    simp only [VgBackupRun.origin,RunOrigin.mk.injEq] at ho
    exact ⟨ho.2.2.2.2.2.2.2.1,ho.2.2.2.2.2.2.2.2,ho.2.2.1⟩
  refine ⟨?_,?_,?_⟩
  · intro id x' rid hx' hof
    obtain ⟨x,hx,ho⟩ := hk id x' hx'
    obtain ⟨h1,h2,h3⟩ := hfields ho
    obtain ⟨r,hr,hj,ha,hle⟩ := h.parent id x rid hx (h1 ▸ hof)
    obtain ⟨r',hr',hlr⟩ := hl.runs rid r hr
    obtain ⟨-,g2,g3⟩ := hfields hlr.origin
    exact ⟨r',hr',by rw [g3,h3,hj],by rw [h2,g2,ha],by rw [h2,h3]; exact hle⟩
  · intro id id' x x' rid hx hx' hof hof'
    obtain ⟨y,hy,ho⟩ := hk id x hx
    obtain ⟨y',hy',ho'⟩ := hk id' x' hx'
    exact h.linear id id' y y' rid hy hy' ((hfields ho).1 ▸ hof) ((hfields ho').1 ▸ hof')
  · intro id x' hx'
    obtain ⟨x,hx,ho⟩ := hk id x' hx'
    rw [(hfields ho).2.1]
    exact h.nonneg id x hx

theorem exec_created {pid : Nat} {x : Trace} {β : Type} {i : Stmt β} {u : Store} {b : β}
    (hb : i.Backed x.state) (hs : i.Seen pid x) (hx : i.exec pid x.state = some (u,b)) :
    (∀ id r', u.runs.find id = some r' →
      ∃ r, x.state.runs.find id = some r ∧ r'.origin = r.origin) ∨
    ∃ n, u.runs = (x.state.addRun n).runs ∧ x.state.retryTaken n = false ∧
      ((n.retryOfRunID = none ∧ n.retryAttempt = 0) ∨ RetrySeen pid x n) := by
  have hsame : u.runs = x.state.runs → ∀ id r', u.runs.find id = some r' →
      ∃ r, x.state.runs.find id = some r ∧ r'.origin = r.origin :=
    fun he id r' hr => ⟨r',he ▸ hr,rfl⟩
  cases stmt_effect hx with
  | select q => exact .inl (hsame rfl)
  | restore w => exact .inl (hsame (runs_restore _ w))
  | job w => exact .inl (hsame (runs_job _ w))
  | side w => exact .inl (hsame (runs_side _ w))
  | agent hw => exact .inl (hsame (runs_agent hw))
  | run he hw =>
    cases he with
    | update w p =>
      refine .inl ?_
      intro id r' hr'
      rw [find_updateRun,Option.map_eq_some_iff] at hr'
      obtain ⟨r,hr,rfl⟩ := hr'
      refine ⟨r,hr,?_⟩
      split <;> rfl
    | insert n c =>
      rcases insertRun_cases x.state n c with ⟨he,-⟩ | ⟨hr,-,he⟩
      · exact .inl (hsame (by rw [he]))
      · exact .inr ⟨n,by rw [he],hr,.inl ⟨hb.2.1,hb.2.2⟩⟩
    | delete id =>
      refine .inl ?_
      intro id' r' hr'
      simp only [Store.deleteRun,softDelete] at hr'
      rw [Table.find_modify,Option.map_eq_some_iff] at hr'
      obtain ⟨r,hr,rfl⟩ := hr'
      refine ⟨r,hr,?_⟩
      split <;> rfl
    | lock id l r => exact .inl (hsame rfl)
    | insertCommit n =>
      rcases insertRun_cases x.state n false with ⟨he,-⟩ | ⟨hr,-,he⟩
      · exact .inl (hsame (by rw [he]; rfl))
      · exact .inr ⟨n,by rw [he]; rfl,hr,.inr hs.2⟩
    | commit => exact .inl (hsame rfl)

def SteadyRetries (m d : UUID → Int) (s : Store) : Prop :=
  ∀ job ∈ Select.allJobs.eval s, (effectivePolicy job).maxRetries = m job.row.id ∧
    retryDelay (effectivePolicy job) = d job.row.id

def FailedKept (s t : Store) : Prop :=
  ∀ r ∈ s.runs.rows, r.status = .failed →
    (t.runs.find r.id).any (fun r' => decide (r'.status = .failed)) = true

instance (m d : UUID → Int) (s : Store) : Decidable (SteadyRetries m d s) :=
  inferInstanceAs (Decidable (∀ job ∈ Select.allJobs.eval s, _))

instance instDecidableFailedKept (s t : Store) : Decidable (FailedKept s t) :=
  inferInstanceAs (Decidable (∀ r ∈ s.runs.rows, _ → _))

def Steady (m d : UUID → Int) {env : Env} (w : World (system env)) (_ : Event (system env)) :
    Prop :=
  SteadyRetries m d w.state

instance (m d : UUID → Int) {env : Env} (w : World (system env)) (e : Event (system env)) :
    Decidable (Steady m d w e) :=
  inferInstanceAs (Decidable (∀ job ∈ Select.allJobs.eval w.state, _))

def KeepsFailed {env : Env} (w : World (system env)) (e : Event (system env)) : Prop :=
  Changes (S := system env) FailedKept w e

instance {env : Env} (w : World (system env)) (e : Event (system env)) :
    Decidable (KeepsFailed w e) :=
  @changesDecidable (system env) FailedKept (fun s t => instDecidableFailedKept s t) w e

def SparesFailureTime : UpdateRule := fun s w p =>
  w.status = none → p.status = some .failed →
    ∀ r ∈ s.runs.rows, w.matches r = true → r.status ≠ .failed

instance (s : Store) (w : RunWhere) (p : RunPatch) : Decidable (SparesFailureTime s w p) :=
  inferInstanceAs (Decidable (_ → _ → ∀ r ∈ s.runs.rows, _ → _))

def RetryStep (m d : UUID → Int) (s t : Store) : Prop :=
  ∀ id x rid, s.runs.find id = none → t.runs.find id = some x → x.retryOfRunID = some rid →
    ∃ r c, s.runs.find rid = some r ∧ r.backupJobID = x.backupJobID ∧ r.status = .failed ∧
      r.completedAt = some c ∧ c + d x.backupJobID * second ≤ s.clock ∧
      x.retryAttempt = r.retryAttempt + 1 ∧ x.retryAttempt ≤ m x.backupJobID

structure RetryInv (m d : UUID → Int) (x : Trace) : Prop where
  sane : RetrySane m x.state
  jobs : ∀ pid jobs job, (pid,Note.loaded jobs) ∈ x.log → job ∈ jobs →
    (effectivePolicy job).maxRetries = m job.row.id ∧
    retryDelay (effectivePolicy job) = d job.row.id
  runs : ∀ pid r, (pid,Note.latest r) ∈ x.log → r.status = .failed →
    ∃ r', x.state.runs.find r.id = some r' ∧ r'.origin = r.origin ∧ r'.status = .failed ∧
      r'.completedAt = r.completedAt

theorem mem_record {pid : Nat} {log : List (Nat × Note)} {n : Option Note} {e : Nat × Note}
    (h : e ∈ record pid log n) : e ∈ log ∨ n = some e.2 := by
  cases n with
  | none => exact .inl h
  | some m =>
    rcases List.mem_cons.mp h with rfl | h
    · exact .inr rfl
    · exact .inl h

theorem note_insert {n m : Note} {out : Insert} (h : out.note n = some m) : m = n := by
  cases out <;> simp only [Insert.note,Option.some.injEq,reduceCtorEq] at h
  exact h.symm

theorem note_select {β : Type} {i : Stmt β} {b : β} {m : Note} (h : i.note b = some m)
    (hm : (∃ r, m = .latest r) ∨ ∃ jobs, m = .loaded jobs) :
    ∃ q : Select β, i = .select q ∧ q.note b = some m := by
  cases i with
  | select q => exact ⟨q,rfl,h⟩
  | run w =>
    cases w with
    | insert n c =>
      have := note_insert h
      rcases hm with ⟨r,hr⟩ | ⟨jobs,hr⟩ <;> simp [hr] at this
    | insertCommit n =>
      have := note_insert h
      rcases hm with ⟨r,hr⟩ | ⟨jobs,hr⟩ <;> simp [hr] at this
    | delete id =>
      simp only [Stmt.note,RunWrite.note,Option.some.injEq] at h
      rcases hm with ⟨r,hr⟩ | ⟨jobs,hr⟩ <;> simp [hr] at h
    | _ => simp [Stmt.note,RunWrite.note] at h
  | restore w =>
    cases w with
    | insert n =>
      obtain ⟨row,-,hn⟩ := Option.map_eq_some_iff.mp h
      rcases hm with ⟨r,hr⟩ | ⟨jobs,hr⟩ <;> simp [hr] at hn
    | update w p => simp [Stmt.note,RestoreWrite.note] at h
  | job w => simp [Stmt.note] at h
  | side w => simp [Stmt.note] at h
  | agent w => simp [Stmt.note] at h

theorem latest_of_note {s : Store} {β : Type} {q : Select β} {r : VgBackupRun}
    (h : q.note (q.eval s) = some (.latest r)) : r ∈ s.runs.rows := by
  cases q with
  | latestRun job =>
    simp only [Select.note,Option.map_eq_some_iff,Note.latest.injEq] at h
    obtain ⟨a,ha,rfl⟩ := h
    exact (latestRun_job ha).1
  | _ => simp [Select.note] at h

theorem mem_allJobs {s : Store} {id : UUID} {job : LoadedJob} (h : s.loadJob id = some job) :
    job ∈ Select.allJobs.eval s := by
  simp only [Store.loadJob,Option.map_eq_some_iff] at h
  obtain ⟨j,hj,rfl⟩ := h
  obtain ⟨hf,hl⟩ := first_some hj
  simp only [Select.eval,allWhere,Table.select,List.mem_map,List.mem_filter]
  exact ⟨j,⟨(Table.find_some hf).1,by simp [hl]⟩,rfl⟩

theorem loaded_of_note {s : Store} {β : Type} {q : Select β} {jobs : List LoadedJob}
    (h : q.note (q.eval s) = some (.loaded jobs)) {job : LoadedJob} (hj : job ∈ jobs) :
    job ∈ Select.allJobs.eval s := by
  cases q with
  | loadJob id =>
    simp only [Select.note,Select.eval,Option.some.injEq,Note.loaded.injEq] at h
    rw [← h,Option.mem_toList] at hj
    exact mem_allJobs hj
  | allJobs =>
    simp only [Select.note,Option.some.injEq,Note.loaded.injEq] at h
    rw [← h] at hj
    exact hj
  | _ => simp [Select.note] at h

theorem rowMove_failureTime {s : Store} {r r' : VgBackupRun}
    (h : RowMove SparesFailureTime s r r') (hmem : r ∈ s.runs.rows) (hf : r.status = .failed) :
    r'.completedAt = r.completedAt := by
  have ht : r.status.terminal = true := by rw [hf]; rfl
  cases h with
  | same => rfl
  | delete => rfl
  | update w p hb hp hm =>
    cases hb.unguarded hm ht with
    | progress id req => rfl
    | cancel run => rfl
    | credential run now hn => exact absurd hf (hp rfl rfl r hmem hm)

theorem due_run {eff : ResolvedPolicy} {now : Time} {r : VgBackupRun}
    (h : retryDue eff now r = true) : r.status = .failed ∧ r.retryAttempt < eff.maxRetries ∧
      ∃ c, r.completedAt = some c ∧ retryDelay eff * second ≤ now - c := by
  simp only [retryDue,Bool.and_eq_true,decide_eq_true_eq,Option.any_eq_true] at h
  obtain ⟨⟨h1,h2⟩,c,hc,hd⟩ := h
  exact ⟨h1,h2,c,hc,hd⟩

theorem retry_parent {m d : UUID → Int} {pid : Nat} {x : Trace} {n : NewRun}
    (hi : RetryInv m d x) (hs : RetrySeen pid x n) :
    ∃ r c, n.retryOfRunID = some r.id ∧ x.state.runs.find r.id = some r ∧
      r.backupJobID = n.backupJobID ∧ r.status = .failed ∧ r.completedAt = some c ∧
      c + d n.backupJobID * second ≤ x.state.clock ∧ n.retryAttempt = r.retryAttempt + 1 ∧
      n.retryAttempt ≤ m n.backupJobID := by
  obtain ⟨jobs,job,latest,now,hload,hjob,hlog,hnow,hj,hdue,rfl⟩ := hs
  obtain ⟨hfail,hlt,c,hc,hdelay⟩ := due_run hdue
  obtain ⟨hmax,hd⟩ := hi.jobs pid jobs job hload hjob
  obtain ⟨r,hr,ho,hst,hct⟩ := hi.runs pid latest hlog hfail
  simp only [VgBackupRun.origin,RunOrigin.mk.injEq] at ho
  obtain ⟨hid,-,hjid,-,-,-,-,-,hatt⟩ := ho
  rw [hd] at hdelay
  rw [hmax] at hlt
  refine ⟨r,c,by rw [hid]; rfl,by rw [hid]; exact hr,hjid.trans hj,hst,hct.trans hc,?_,?_,?_⟩
  · exact Int.le_trans (Int.add_le_of_le_sub_left hdelay) hnow
  · simp only [retryRun,hatt]
  · simp only [retryRun]
    omega

theorem parent_of_retry {m d : UUID → Int} {pid : Nat} {x : Trace} {n : NewRun} {rid : UUID}
    (hi : RetryInv m d x)
    (hn : (n.retryOfRunID = none ∧ n.retryAttempt = 0) ∨ RetrySeen pid x n)
    (hof : n.retryOfRunID = some rid) :
    ∃ r c, x.state.runs.find rid = some r ∧ r.backupJobID = n.backupJobID ∧ r.status = .failed ∧
      r.completedAt = some c ∧ c + d n.backupJobID * second ≤ x.state.clock ∧
      n.retryAttempt = r.retryAttempt + 1 ∧ n.retryAttempt ≤ m n.backupJobID := by
  rcases hn with ⟨h0,-⟩ | hseen
  · rw [h0] at hof
    simp at hof
  · obtain ⟨r,c,hof',hr,hrest⟩ := retry_parent hi hseen
    obtain rfl : r.id = rid := Option.some.inj (hof'.symm.trans hof)
    exact ⟨r,c,hr,hrest⟩

theorem retry_untaken {m d : UUID → Int} {pid : Nat} {x : Trace} {n : NewRun} {id rid : UUID}
    {y : VgBackupRun} (hi : RetryInv m d x) (htaken : x.state.retryTaken n = false)
    (hn : (n.retryOfRunID = none ∧ n.retryAttempt = 0) ∨ RetrySeen pid x n)
    (hy : x.state.runs.find id = some y) (hof : y.retryOfRunID = some rid) :
    n.retryOfRunID ≠ some rid := by
  intro hofn
  obtain ⟨r,c,hr,hj,-⟩ := parent_of_retry hi hn hofn
  obtain ⟨r',hr',hj',-,-⟩ := hi.sane.parent id y rid hy hof
  obtain rfl : r = r' := Option.some.inj (hr.symm.trans hr')
  simp only [Store.retryTaken,hofn,Option.isSome_some,Bool.true_and] at htaken
  rw [List.any_eq_false] at htaken
  refine htaken y (Table.find_some hy).1 ?_
  simp [hof,← hj,← hj']

theorem sane_addRun {m d : UUID → Int} {pid : Nat} {x : Trace} {n : NewRun} {u : Store}
    (hi : RetryInv m d x) (hu : u.runs = (x.state.addRun n).runs)
    (htaken : x.state.retryTaken n = false)
    (hn : (n.retryOfRunID = none ∧ n.retryAttempt = 0) ∨ RetrySeen pid x n) :
    RetrySane m u := by
  have hcases : ∀ id y, u.runs.find id = some y →
      x.state.runs.find id = some y ∨
      (x.state.runs.find id = none ∧ y = n.row x.state.nextID x.state.clock) :=
    fun id y hy => find_addRun (hu ▸ hy)
  have hold : ∀ id y, x.state.runs.find id = some y → u.runs.find id = some y := by
    intro id y hy
    rw [hu]
    exact Table.find_insert_of_some hy
  refine ⟨?_,?_,?_⟩
  · intro id y rid hy hof
    rcases hcases id y hy with hy | ⟨-,rfl⟩
    · obtain ⟨r,hr,hrest⟩ := hi.sane.parent id y rid hy hof
      exact ⟨r,hold rid r hr,hrest⟩
    · obtain ⟨r,c,hr,hj,-,-,-,hatt,hle⟩ := parent_of_retry hi hn hof
      exact ⟨r,hold rid r hr,hj,hatt,hle⟩
  · intro id id' y y' rid hy hy' hof hof'
    rcases hcases id y hy with hy | ⟨hnone,rfl⟩
    · rcases hcases id' y' hy' with hy' | ⟨-,rfl⟩
      · exact hi.sane.linear id id' y y' rid hy hy' hof hof'
      · exact absurd hof' (retry_untaken hi htaken hn hy hof)
    · rcases hcases id' y' hy' with hy' | ⟨hnone',rfl⟩
      · exact absurd hof (retry_untaken hi htaken hn hy' hof')
      · have h1 := (Table.find_some hy).2
        have h2 := (Table.find_some hy').2
        exact h1.symm.trans h2
  · intro id y hy
    rcases hcases id y hy with hy | ⟨-,rfl⟩
    · exact hi.sane.nonneg id y hy
    · rcases hn with ⟨-,h0⟩ | hseen
      · simp [NewRun.row,h0]
      · obtain ⟨r,c,-,hr,-,-,-,-,hatt,-⟩ := retry_parent hi hseen
        have := hi.sane.nonneg r.id r hr
        simp only [NewRun.row,hatt]
        omega

theorem retry_exec {m d : UUID → Int} {pid : Nat} {x : Trace} {β : Type} {i : Stmt β} {u : Store}
    {b : β} (hi : RetryInv m d x) (hb : i.Backed x.state) (hs : i.Seen pid x)
    (hx : i.exec pid x.state = some (u,b)) (hm : SteadyRetries m d x.state)
    (hf : FailedKept x.state u) (hp : i.OnUpdate (SparesFailureTime x.state)) :
    RetryInv m d ⟨u,record pid x.log (i.note b)⟩ ∧ RetryStep m d x.state u := by
  have hmoved : Moved SparesFailureTime x.state u := ⟨hb.later hx,runMove_exec hb hp hx⟩
  have hnote : ∀ e ∈ record pid x.log (i.note b), ∀ n, e.2 = n →
      ((∃ r, n = .latest r) ∨ ∃ jobs, n = .loaded jobs) → e ∈ x.log ∨
      (u = x.state ∧ ∃ q : Select β, q.note (q.eval x.state) = some n) := by
    intro e he n hn hkind
    rcases mem_record he with hold | hnew
    · exact .inl hold
    · rw [hn] at hnew
      obtain ⟨q,rfl,hq⟩ := note_select hnew hkind
      simp only [Stmt.exec,Option.some.injEq,Prod.mk.injEq] at hx
      obtain ⟨rfl,rfl⟩ := hx
      exact .inr ⟨rfl,q,hq⟩
  refine ⟨⟨?_,?_,?_⟩,?_⟩
  · rcases exec_created hb hs hx with hk | ⟨n,hu,htaken,hn⟩
    · exact retrySane_kept hi.sane hmoved.1 hk
    · exact sane_addRun hi hu htaken hn
  · intro q jobs job hlog hjob
    rcases hnote _ hlog _ rfl (.inr ⟨jobs,rfl⟩) with hold | ⟨-,sel,hsel⟩
    · exact hi.jobs q jobs job hold hjob
    · exact hm job (loaded_of_note hsel hjob)
  · intro q r hlog hfail
    rcases hnote _ hlog _ rfl (.inl ⟨r,rfl⟩) with hold | ⟨hu,sel,hsel⟩
    · obtain ⟨a,ha,ho,hst,hct⟩ := hi.runs q r hold hfail
      obtain ⟨a',ha',hl,hmv⟩ := moved_row hmoved ha
      have hid : a.id = r.id := (Table.find_some ha).2
      have hst' := hf a (Table.find_some ha).1 hst
      rw [hid,ha',Option.any_some,decide_eq_true_eq] at hst'
      refine ⟨a',ha',hl.origin.trans ho,hst',?_⟩
      exact (rowMove_failureTime hmv (Table.find_some ha).1 hst).trans hct
    · subst hu
      exact ⟨r,Table.find_of_mem (latest_of_note hsel),rfl,hfail,rfl⟩
  · intro id y rid hnone hy hof
    rcases exec_created hb hs hx with hk | ⟨n,hu,-,hn⟩
    · obtain ⟨a,ha,-⟩ := hk id y hy
      rw [hnone] at ha
      simp at ha
    · rw [hu] at hy
      rcases find_addRun hy with hy | ⟨-,rfl⟩
      · rw [hnone] at hy
        simp at hy
      · exact parent_of_retry hi hn hof

structure RetryBounds (m d : UUID → Int) (env : Env) (s : Store)
    (es : List (Event (system env))) : Prop where
  created : Along (Changes (S := system env) (RetryStep m d)) (World.idle s) es
  sane : ∀ xs ys v, es = xs ++ ys → (World.idle (S := system env) s).run xs = some v →
    RetrySane m v.state
  bounded : ∀ xs ys v, es = xs ++ ys → (World.idle (S := system env) s).run xs = some v →
    ∀ r retries, v.state.runs.find r.id = some r → RetryChain v.state r retries →
      retries.length ≤ (m r.backupJobID).toNat

section Bounds

variable {env : Env} {m d : UUID → Int}

def Undisturbed (m d : UUID → Int) {env : Env} (w : World (history env))
    (e : Event (history env)) : Prop :=
  SteadyRetries m d w.state.state ∧
  Changes (S := history env) (fun x y => FailedKept x.state y.state) w e ∧
  Landing (S := history env) (fun _ x _ i => Stmt.OnUpdate (SparesFailureTime x.state) i) w e

theorem along_undisturbed {s : Store} {es : List (Event (system env))}
    (hm : Along (Steady m d) (World.idle (S := system env) s) es)
    (hf : Along KeepsFailed (World.idle s) es)
    (hc : Along (Updating SparesFailureTime) (World.idle s) es) :
    Along (Undisturbed m d) (start s) (watched es) := by
  refine along_traced noted ?_ [] (along_and hm (along_and hf hc))
  rintro w log e ⟨h1,h2,h3⟩
  refine ⟨h1,?_,?_⟩
  · intro v hv
    obtain ⟨u,log',hu,rfl⟩ := step_untraced (S := system env) noted hv
    exact h2 u hu
  · cases e with
    | start pid r => trivial
    | env now => trivial
    | act pid =>
      intro β i k hp y b hx
      exact h3 β i k hp y.state b (exec_history hx).1

theorem retryStep_same {s t : Store} (h : t.runs = s.runs) : RetryStep m d s t := by
  intro id x rid hnone hx
  rw [h,hnone] at hx
  simp at hx

theorem retry_step {w v : World (history env)} {e : Event (history env)}
    (hi : RetryInv m d w.state) (hinf : Informed w e) (hu : Undisturbed m d w e)
    (h : w.step e = some v) :
    RetryInv m d v.state ∧ RetryStep m d w.state.state v.state.state := by
  rcases trace_cases hinf h with hst | ⟨t,hle,hst⟩ | ⟨pid,β,i,k,b,rfl,hp,hx,hb,hs⟩
  · rw [hst]
    exact ⟨hi,retryStep_same rfl⟩
  · rw [hst]
    exact ⟨⟨⟨hi.sane.parent,hi.sane.linear,hi.sane.nonneg⟩,hi.jobs,hi.runs⟩,retryStep_same rfl⟩
  · obtain ⟨hex,hlog⟩ := exec_history hx
    have hstep := retry_exec hi hb hs hex hu.1 (hu.2.1 v h) (hu.2.2 β i k hp v.state b hx)
    rw [← hlog] at hstep
    exact hstep

theorem retryInv_init {s : Store} (h : RetrySane m s) : RetryInv m d ⟨s,[]⟩ :=
  ⟨h,by simp,by simp⟩

end Bounds

theorem retry_chains_bounded (env : Env) (m d : UUID → Int) (s : Store)
    (es : List (Event (system env))) (h0 : RetrySane m s)
    (hm : Along (Steady m d) (World.idle (S := system env) s) es)
    (hf : Along KeepsFailed (World.idle s) es)
    (hc : Along (Updating SparesFailureTime) (World.idle s) es) : RetryBounds m d env s es := by
  have hboth := along_and (issued_informed env s (watched es)) (along_undisturbed hm hf hc)
  have hinit : RetryInv m d (start s : World (history env)).state := retryInv_init h0
  have hsteps : Along (fun (w : World (history env)) e => ∀ v, w.step e = some v →
      RetryStep m d w.state.state v.state.state) (start s) (watched es) :=
    along_mono (I := fun w => RetryInv m d w.state)
      (fun _ _ _ hi hw hs => (retry_step hi hw.1 hw.2 hs).1)
      (fun _ _ hi hw _ hs => (retry_step hi hw.1 hw.2 hs).2) hinit hboth
  have hsane : ∀ xs ys v, es = xs ++ ys → (World.idle (S := system env) s).run xs = some v →
      RetrySane m v.state := by
    intro xs ys v he hv
    obtain ⟨log,hr⟩ := run_traced (S := system env) noted hv []
    rw [he,watched_append] at hboth
    have hi : RetryInv m d (v.traced noted log).state :=
      along_invariant (I := fun w => RetryInv m d w.state)
        (fun _ _ _ hi hw hs => (retry_step hi hw.1 hw.2 hs).1) hinit (along_append hboth hr).1 hr
    exact hi.sane
  refine ⟨?_,hsane,?_⟩
  · refine along_untraced noted ?_ hsteps
    intro w log e h v hv
    obtain ⟨log',hl⟩ := step_traced noted hv log
    exact h _ hl
  · intro xs ys v he hv r retries hr hchain
    exact retryChain_length (hsane xs ys v he hv) hr hchain

def failedStore : Store :=
  { retryStore with runs := singleRow { sampleRun with status := .failed, completedAt := some 0 } }

def tickEvents (n : Nat) : List SampleEvent :=
  .env (400 * second) :: .start 3 (.tick second) :: acts 3 n

def threeRetries : UUID → Int := fun _ => 3

def fiveMinutes : UUID → Int := fun _ => 300

theorem retrySane_single {r : VgBackupRun} {s : Store} {m : UUID → Int}
    (hs : s.runs = singleRow r) (hof : r.retryOfRunID = none) (ha : r.retryAttempt = 0) :
    RetrySane m s := by
  have hrow : ∀ id x, s.runs.find id = some x → x = r := by
    intro id x hx
    have hmem := (Table.find_some hx).1
    rw [hs] at hmem
    exact List.mem_singleton.mp hmem
  refine ⟨?_,?_,?_⟩
  · intro id x rid hx hr
    rw [hrow id x hx,hof] at hr
    simp at hr
  · intro id id' x x' rid hx _ hr _
    rw [hrow id x hx,hof] at hr
    simp at hr
  · intro id x hx
    have hzero : x.retryAttempt = 0 := by rw [hrow id x hx,ha]
    omega

theorem failed_run_retried :
    RetrySane threeRetries failedStore ∧
    RetryBounds threeRetries fiveMinutes sampleEnv failedStore (tickEvents 7) := by
  have h0 : RetrySane threeRetries failedStore := retrySane_single rfl rfl rfl
  exact ⟨h0,retry_chains_bounded sampleEnv threeRetries fiveMinutes failedStore (tickEvents 7) h0
    (by decide) (by decide) (by decide)⟩

def earlyRetry : List SampleEvent :=
  claimEvents ++ failEvents ++ tickEvents 4 ++ acts 1 2 ++ acts 3 2

def retryView (w : World (system sampleEnv)) : Option (Option UUID) × Option (Option Time) × Time :=
  ((w.state.runs.find 8).map (·.retryOfRunID),(w.state.runs.find 7).map (·.completedAt),w.state.clock)

theorem credential_write_precedes_retry :
    RetrySane threeRetries retryStore ∧
    Along (Steady threeRetries fiveMinutes) (World.idle (S := system sampleEnv) retryStore)
      (earlyRetry ++ [.act 3]) ∧
    Along KeepsFailed (World.idle (S := system sampleEnv) retryStore) (earlyRetry ++ [.act 3]) ∧
    ¬ RetryBounds threeRetries fiveMinutes sampleEnv retryStore (earlyRetry ++ [.act 3]) := by
  refine ⟨retrySane_single rfl rfl rfl,by decide,by decide,?_⟩
  intro h
  have hbefore : ((World.idle (S := system sampleEnv) retryStore).run earlyRetry).map retryView =
      some (none,some (some (400 * second)),400 * second) := by decide
  have hafter : ((World.idle (S := system sampleEnv) retryStore).run
      (earlyRetry ++ [.act 3])).map (fun w => (retryView w).1) = some (some (some 7)) := by decide
  rw [Option.map_eq_some_iff] at hbefore hafter
  obtain ⟨u,hu,hub⟩ := hbefore
  obtain ⟨v,hv,hvb⟩ := hafter
  rw [run_append,hu,Option.bind_some] at hv
  simp only [World.run,Option.bind_eq_some_iff,Option.some.injEq,exists_eq_right] at hv
  simp only [retryView,Prod.mk.injEq,Option.map_eq_some_iff,Option.map_eq_none_iff] at hub hvb
  obtain ⟨hnone,⟨r,hr,hct⟩,hclock⟩ := hub
  obtain ⟨x,hx,hof⟩ := hvb
  obtain ⟨r',c,hr',-,-,hc,hdelay,-⟩ := (along_append h.created hu).2.1 v hv 8 x 7 hnone hx hof
  obtain rfl : r = r' := Option.some.inj (hr.symm.trans hr')
  obtain rfl : 400 * second = c := Option.some.inj (hct.symm.trans hc)
  rw [hclock] at hdelay
  simp [fiveMinutes,second] at hdelay

end VgBackup
