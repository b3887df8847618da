import ServerHub.VgBackup.StatusMachine

namespace VgBackup

open Relational Interleave

def RunWrite.Unraced (pid : Nat) (x : Trace) : {β : Type} → RunWrite β → Prop
  | _, .insert n c => (x.state.insertRun n c).2.made = true →
      overtaken (Note.countOf n.backupJobID) (Note.createOf n.backupJobID) pid x.log = false
  | _, .insertCommit n => (x.state.insertRun n false).2.made = true →
      overtaken (Note.countOf n.backupJobID) (Note.createOf n.backupJobID) pid x.log = false
  | _, _ => True

def Unraced : TraceRule := fun pid x _ i => match i with
  | .run w => w.Unraced pid x
  | _ => True

instance unracedWriteDecidable (pid : Nat) (x : Trace) :
    {β : Type} → (w : RunWrite β) → Decidable (w.Unraced pid x)
  | _, .insert _ _ | _, .insertCommit _ => inferInstanceAs (Decidable (_ → _))
  | _, .update _ _ | _, .delete _ | _, .lock _ | _, .commit => isTrue trivial

instance unracedDecidable (pid : Nat) (x : Trace) (β : Type) :
    (i : Stmt β) → Decidable (Unraced pid x i)
  | .run w => unracedWriteDecidable pid x w
  | .select _ | .restore _ | .job _ | .side _ | .agent _ => isTrue trivial

def OneInflight (s : Store) : Prop := ∀ job, s.inflight job ≤ 1

theorem inflight_terminal (a : RunStatus) : a.inflight = !a.terminal := by cases a <;> rfl

theorem inflight_congr {s t : Store} (h : t.runs = s.runs) (job : UUID) :
    t.inflight job = s.inflight job := by
  simp only [Store.inflight,h]

theorem inflight_update {s : Store} {w : RunWhere} {p : RunPatch} (h : RunBacked s w p)
    (job : UUID) : (s.updateRun w p).inflight job ≤ s.inflight job := by
  refine Table.count_modify_le (t := s.runs) (f := p.apply s.clock) (fun _ => rfl) ?_
  intro r _ hm hq
  have hl : r.Later (p.apply s.clock r) := h.later hm s.clock
  have hj : (p.apply s.clock r).backupJobID = r.backupJobID :=
    congrArg RunOrigin.backupJobID hl.origin
  simp only [Bool.and_eq_true,beq_iff_eq,inflight_terminal,Bool.not_eq_true'] at hq ⊢
  refine ⟨hl.gone hq.1,hj ▸ hq.2.1,?_⟩
  cases ht : r.status.terminal with
  | false => rfl
  | true =>
    rw [hl.finished ht] at hq
    simp at hq

theorem inflight_delete (s : Store) (id job : UUID) :
    (s.deleteRun id).inflight job ≤ s.inflight job := by
  refine Table.count_modify_le (key_erased s.clock) ?_
  intro r _ _ hq
  rw [live_erased] at hq
  simp at hq

theorem inflight_addRun (s : Store) (n : NewRun) (job : UUID) :
    (s.addRun n).inflight job ≤ s.inflight job + if n.backupJobID = job then 1 else 0 := by
  have h := Table.count_insert_le s.runs (n.row s.nextID s.clock)
    fun r => live r && (r.backupJobID == job && r.status.inflight)
  by_cases e : n.backupJobID = job
  · rw [if_pos e]
    refine h.trans (Nat.add_le_add_left ?_ _)
    split <;> omega
  · rw [if_neg e]
    have hq : (live (n.row s.nextID s.clock) && ((n.row s.nextID s.clock).backupJobID == job &&
        (n.row s.nextID s.clock).status.inflight)) = false := by
      simp [NewRun.row,e]
    rw [hq] at h
    exact h

def Noticed (x : Trace) : Prop :=
  ∀ pid job, standing (Note.countOf job) (Note.createOf job) pid x.log = some (.counted job 0) →
    x.state.inflight job = 0

def InflightInv (x : Trace) : Prop := OneInflight x.state ∧ Noticed x

theorem inv_created {pid : Nat} {x : Trace} {n : NewRun} {u : Store} (hi : InflightInv x)
    (hc : Counted pid n.backupJobID x)
    (ho : overtaken (Note.countOf n.backupJobID) (Note.createOf n.backupJobID) pid x.log = false)
    (hu : u.runs = (x.state.addRun n).runs) :
    InflightInv ⟨u,(pid,.created n.backupJobID) :: x.log⟩ := by
  have hzero : x.state.inflight n.backupJobID = 0 :=
    hi.2 pid n.backupJobID (standing_of_lastOwn hc rfl ho)
  refine ⟨?_,?_⟩
  · intro job
    have ha := inflight_addRun x.state n job
    rw [← inflight_congr hu] at ha
    by_cases e : n.backupJobID = job
    · subst e
      simp only [hzero,if_true] at ha
      exact ha
    · simp only [e,if_false] at ha
      exact ha.trans (hi.1 job)
  · intro q job hst
    have ha := inflight_addRun x.state n job
    rw [← inflight_congr hu] at ha
    by_cases e : n.backupJobID = job
    · rw [standing_theirs rfl (by simp [Note.createOf,e])] at hst
      simp at hst
    · rw [standing_other (.inr rfl) (by simp [Note.createOf,e])] at hst
      rw [hi.2 q job hst,if_neg e] at ha
      exact Nat.le_zero.mp ha

theorem inv_still {pid : Nat} {x : Trace} {u : Store} {n : Option Note} (hi : InflightInv x)
    (hu : ∀ job, u.inflight job ≤ x.state.inflight job)
    (hn : ∀ m, n = some m → ∀ job, m.countOf job = false ∧ m.createOf job = false) :
    InflightInv ⟨u,record pid x.log n⟩ := by
  refine ⟨fun job => (hu job).trans (hi.1 job),?_⟩
  intro q job hst
  have hold : standing (Note.countOf job) (Note.createOf job) q x.log =
      some (.counted job 0) := by
    cases n with
    | none => exact hst
    | some m =>
      obtain ⟨h1,h2⟩ := hn m rfl job
      exact (standing_other (.inr h1) h2).symm.trans hst
  exact Nat.le_zero.mp ((hu job).trans (hi.2 q job hold).le)

theorem inv_counted {pid : Nat} {x : Trace} {job : UUID} (hi : InflightInv x) :
    InflightInv ⟨x.state,(pid,.counted job (x.state.inflight job)) :: x.log⟩ := by
  refine ⟨hi.1,?_⟩
  intro q job' hst
  by_cases e : pid = q ∧ job = job'
  · obtain ⟨rfl,rfl⟩ := e
    rw [standing_mine (by simp [Note.countOf]),Option.some.injEq,Note.counted.injEq] at hst
    exact hst.2
  · rw [standing_other ?_ rfl] at hst
    · exact hi.2 q job' hst
    · by_cases hq : pid = q
      · exact .inr (by simpa [Note.countOf] using fun hj => e ⟨hq,hj⟩)
      · exact .inl hq

theorem inv_insert {pid : Nat} {x : Trace} {n : NewRun} {c : Bool} {u : Store}
    (hi : InflightInv x) (hc : Counted pid n.backupJobID x)
    (ho : (x.state.insertRun n c).2.made = true →
      overtaken (Note.countOf n.backupJobID) (Note.createOf n.backupJobID) pid x.log = false)
    (hu : u.runs = (x.state.insertRun n c).1.runs) :
    InflightInv ⟨u,record pid x.log ((x.state.insertRun n c).2.note (.created n.backupJobID))⟩ := by
  rcases insertRun_cases x.state n c with ⟨hs,hout⟩ | ⟨-,-,hs⟩
  · have hnote : (x.state.insertRun n c).2.note (.created n.backupJobID) = none := by
      cases ho' : (x.state.insertRun n c).2 with
      | created id => exact absurd ho' (hout id)
      | _ => rfl
    rw [hnote]
    refine inv_still hi (fun job => ?_) (by simp)
    rw [inflight_congr (hu.trans (congrArg Store.runs hs))]
  · rw [hs] at ho hu ⊢
    exact inv_created hi hc (ho rfl) hu

theorem inv_select (pid : Nat) (x : Trace) {β : Type} (q : Select β) (hi : InflightInv x) :
    InflightInv ⟨x.state,record pid x.log (q.note (q.eval x.state))⟩ := by
  have hsame : ∀ n : Option Note,
      (∀ m, n = some m → ∀ job, m.countOf job = false ∧ m.createOf job = false) →
      InflightInv ⟨x.state,record pid x.log n⟩ := fun _ => inv_still hi fun _ => Nat.le_refl _
  cases q with
  | inflight job => exact inv_counted hi
  | latestRun job =>
    simp only [Select.note]
    cases Select.eval (.latestRun job) x.state with
    | none => exact hsame _ (by simp)
    | some r => exact hsame _ fun m hm => Option.some.inj hm ▸ fun _ => ⟨rfl,rfl⟩
  | loadJob id => exact hsame _ fun m hm => Option.some.inj hm ▸ fun _ => ⟨rfl,rfl⟩
  | allJobs => exact hsame _ fun m hm => Option.some.inj hm ▸ fun _ => ⟨rfl,rfl⟩
  | loadRun id => exact hsame _ fun m hm => Option.some.inj hm ▸ fun _ => ⟨rfl,rfl⟩
  | activeRestores run => exact hsame _ fun m hm => Option.some.inj hm ▸ fun _ => ⟨rfl,rfl⟩
  | _ => exact hsame _ (by simp [Select.note])

theorem inv_exec (pid : Nat) (x : Trace) {β : Type} (i : Stmt β) (u : Store) (b : β)
    (hi : InflightInv x) (hb : i.Backed x.state) (hs : i.Seen pid x) (hc : Unraced pid x i)
    (hx : i.exec pid x.state = some (u,b)) : InflightInv ⟨u,record pid x.log (i.note b)⟩ := by
  cases stmt_effect hx with
  | select q => exact inv_select pid x q hi
  | run he hw =>
    cases he with
    | update w p => exact inv_still hi (inflight_update hb) (by simp [Stmt.note,RunWrite.note])
    | insert n c => exact inv_insert hi hs hc rfl
    | delete id =>
      refine inv_still hi (inflight_delete _ id) ?_
      intro m hm
      simp only [Stmt.note,RunWrite.note,Option.some.injEq] at hm
      exact hm ▸ fun _ => ⟨rfl,rfl⟩
    | lock id l r => exact inv_still hi (fun _ => Nat.le_refl _) (by simp [Stmt.note,RunWrite.note])
    | insertCommit n => exact inv_insert hi hs.1 hc rfl
    | commit => exact inv_still hi (fun _ => Nat.le_refl _) (by simp [Stmt.note,RunWrite.note])
  | restore w =>
    refine inv_still hi (fun job => (inflight_congr (runs_restore _ w) job).le) ?_
    intro m hm
    cases w with
    | insert n =>
      simp only [Stmt.note,RestoreWrite.note] at hm
      obtain ⟨row,-,rfl⟩ := Option.map_eq_some_iff.mp hm
      exact fun _ => ⟨rfl,rfl⟩
    | update w p => simp [Stmt.note,RestoreWrite.note] at hm
  | job w =>
    exact inv_still hi (fun job => (inflight_congr (runs_job _ w) job).le) (by simp [Stmt.note])
  | side w =>
    exact inv_still hi (fun job => (inflight_congr (runs_side _ w) job).le) (by simp [Stmt.note])
  | agent hw =>
    exact inv_still hi (fun job => (inflight_congr (runs_agent hw) job).le) (by simp [Stmt.note])

def KeepsOneInflight (env : Env) (s : Store) (es : List (Event (system env))) : Prop :=
  ∀ xs ys v, es = xs ++ ys → (World.idle (S := system env) s).run xs = some v →
    OneInflight v.state

theorem keeps_one_inflight (env : Env) (s : Store) (es : List (Event (system env)))
    (h0 : OneInflight s) (h : Along (Heeding Unraced) (start s) (watched es)) :
    KeepsOneInflight env s es := by
  intro xs ys v he hv
  have hinit : InflightInv ⟨s,[]⟩ := ⟨h0,by intro _ _ hst; simp [standing] at hst⟩
  obtain ⟨log,hi⟩ := trace_reached (I := InflightInv) (fun _ _ _ hi => hi) inv_exec hinit h he hv
  exact hi.1

def idleStore : Store := { sampleStore with runs := .empty }

def runNowEvents (pid n : Nat) : List SampleEvent :=
  .start pid (.runNow ⟨.admin,1⟩ jobParam) :: acts pid n

theorem oneInflight_idleStore : OneInflight idleStore := fun _ => Nat.zero_le 1

theorem second_runNow_refused :
    Along (Heeding Unraced) (start idleStore) (watched (runNowEvents 0 3 ++ runNowEvents 1 2)) ∧
    KeepsOneInflight sampleEnv idleStore (runNowEvents 0 3 ++ runNowEvents 1 2) :=
  have h : Along (Heeding Unraced) (start idleStore)
      (watched (runNowEvents 0 3 ++ runNowEvents 1 2)) := by decide
  ⟨h,keeps_one_inflight sampleEnv idleStore _ oneInflight_idleStore h⟩

theorem runNow_race_breaks_one_inflight :
    OneInflight idleStore ∧
    ¬ KeepsOneInflight sampleEnv idleStore (runNowEvents 0 2 ++ runNowEvents 1 3 ++ acts 0 1) := by
  refine ⟨oneInflight_idleStore,?_⟩
  intro h
  have hrun : ((World.idle (S := system sampleEnv) idleStore).run
      (runNowEvents 0 2 ++ runNowEvents 1 3 ++ acts 0 1)).map (fun w => w.state.inflight 5) =
      some 2 := by decide
  rw [Option.map_eq_some_iff] at hrun
  obtain ⟨w,hw,hn⟩ := hrun
  have hle := h _ [] w (List.append_nil _).symm hw 5
  omega

end VgBackup
