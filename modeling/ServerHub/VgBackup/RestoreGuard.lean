import ServerHub.VgBackup.Expiry

namespace VgBackup

open Relational Interleave

def RunWrite.Unlapped (pid : Nat) (x : Trace) : {β : Type} → RunWrite β → Prop
  | _, .delete id => (first x.state.runs id).isSome = true →
      overtaken (Note.restoresOf id) (Note.restoredOf id) pid x.log = false
  | _, _ => True

def RestoreWrite.Unlapped (pid : Nat) (x : Trace) : {β : Type} → RestoreWrite β → Prop
  | _, .insert n => (x.state.insertRestore n).2.isSome = true →
      overtaken (Note.foundOf n.dedupe.backupRunID) (Note.deleteOf n.dedupe.backupRunID) pid
        x.log = false
  | _, _ => True

def Unlapped : TraceRule := fun pid x _ i => match i with
  | .run w => w.Unlapped pid x
  | .restore w => w.Unlapped pid x
  | _ => True

instance unlappedRunDecidable (pid : Nat) (x : Trace) :
    {β : Type} → (w : RunWrite β) → Decidable (w.Unlapped pid x)
  | _, .delete _ => inferInstanceAs (Decidable (_ → _))
  | _, .update _ _ | _, .insert _ _ | _, .lock _ | _, .insertCommit _ | _, .commit => isTrue trivial

instance unlappedRestoreDecidable (pid : Nat) (x : Trace) :
    {β : Type} → (w : RestoreWrite β) → Decidable (w.Unlapped pid x)
  | _, .insert _ => inferInstanceAs (Decidable (_ → _))
  | _, .update _ _ => isTrue trivial

instance unlappedDecidable (pid : Nat) (x : Trace) (β : Type) :
    (i : Stmt β) → Decidable (Unlapped pid x i)
  | .run w => unlappedRunDecidable pid x w
  | .restore w => unlappedRestoreDecidable pid x w
  | .select _ | .job _ | .side _ | .agent _ => isTrue trivial

def Present (s : Store) (run : UUID) : Prop := (first s.runs run).isSome = true

theorem present_find {s : Store} {run : UUID} :
    Present s run ↔ ∃ r, s.runs.find run = some r ∧ live r = true := by
  simp only [Present,first,Option.isSome_iff_exists,Option.filter_eq_some_iff]

def RestoresBacked (s : Store) : Prop :=
  ∀ run, 0 < s.activeRestores run → (first s.runs run).isSome = true

structure GuardInv (x : Trace) : Prop where
  backed : ∀ run, Restoring x.state run → Present x.state run
  unrestored : ∀ pid run, standing (Note.restoresOf run) (Note.restoredOf run) pid x.log =
    some (.restores run 0) → ¬ Restoring x.state run
  found : ∀ pid run, standing (Note.foundOf run) (Note.deleteOf run) pid x.log =
    some (.found run true) → Present x.state run

def Note.unrelated (n : Note) : Prop :=
  ∀ run, n.restoresOf run = false ∧ n.restoredOf run = false ∧ n.foundOf run = false ∧
    n.deleteOf run = false

theorem guard_still {pid : Nat} {x : Trace} {u : Store} {n : Option Note} (hi : GuardInv x)
    (hr : ∀ run, Restoring u run → Restoring x.state run)
    (hp : ∀ run, Present x.state run → Present u run)
    (hn : ∀ m, n = some m → m.unrelated) : GuardInv ⟨u,record pid x.log n⟩ := by
  have hsame : ∀ q run,
      standing (Note.restoresOf run) (Note.restoredOf run) q (record pid x.log n) =
        standing (Note.restoresOf run) (Note.restoredOf run) q x.log ∧
      standing (Note.foundOf run) (Note.deleteOf run) q (record pid x.log n) =
        standing (Note.foundOf run) (Note.deleteOf run) q x.log := by
    intro q run
    cases n with
    | none => exact ⟨rfl,rfl⟩
    | some m =>
      obtain ⟨h1,h2,h3,h4⟩ := hn m rfl run
      exact ⟨standing_other (.inr h1) h2,standing_other (.inr h3) h4⟩
  refine ⟨?_,?_,?_⟩
  · exact fun run h => hp run (hi.backed run (hr run h))
  · intro q run hst h
    exact hi.unrestored q run ((hsame q run).1.symm.trans hst) (hr run h)
  · intro q run hst
    exact hp run (hi.found q run ((hsame q run).2.symm.trans hst))

theorem guard_same {pid : Nat} {x : Trace} {n : Option Note} (hi : GuardInv x)
    (hn : ∀ m, n = some m → m.unrelated) : GuardInv ⟨x.state,record pid x.log n⟩ :=
  guard_still hi (fun _ h => h) (fun _ h => h) hn

theorem guard_counted {pid : Nat} {x : Trace} {run : UUID} (hi : GuardInv x) :
    GuardInv ⟨x.state,(pid,.restores run (x.state.activeRestores run)) :: x.log⟩ := by
  refine ⟨hi.backed,?_,?_⟩
  · intro q run' hst
    by_cases e : pid = q ∧ run = run'
    · obtain ⟨rfl,rfl⟩ := e
      rw [standing_mine (by simp [Note.restoresOf]),Option.some.injEq,Note.restores.injEq] at hst
      exact activeRestores_zero.mp hst.2
    · rw [standing_other ?_ rfl] at hst
      · exact hi.unrestored q run' hst
      · by_cases hq : pid = q
        · exact .inr (by simpa [Note.restoresOf] using fun hj => e ⟨hq,hj⟩)
        · exact .inl hq
  · intro q run' hst
    rw [standing_other (.inr rfl) rfl] at hst
    exact hi.found q run' hst

theorem guard_found {pid : Nat} {x : Trace} {run : UUID} (hi : GuardInv x) :
    GuardInv ⟨x.state,(pid,.found run (first x.state.runs run).isSome) :: x.log⟩ := by
  refine ⟨hi.backed,?_,?_⟩
  · intro q run' hst
    rw [standing_other (.inr rfl) rfl] at hst
    exact hi.unrestored q run' hst
  · intro q run' hst
    by_cases e : pid = q ∧ run = run'
    · obtain ⟨rfl,rfl⟩ := e
      rw [standing_mine (by simp [Note.foundOf]),Option.some.injEq,Note.found.injEq] at hst
      exact hst.2
    · rw [standing_other ?_ rfl] at hst
      · exact hi.found q run' hst
      · by_cases hq : pid = q
        · exact .inr (by simpa [Note.foundOf] using fun hj => e ⟨hq,hj⟩)
        · exact .inl hq

theorem present_deleteRun {s : Store} {id run : UUID} (hne : run ≠ id) (h : Present s run) :
    Present (s.deleteRun id) run := by
  rw [present_find,first_deleteRun_of_ne s hne]
  exact present_find.mp h

theorem guard_deleted {pid : Nat} {x : Trace} {id : UUID} (hi : GuardInv x)
    (hs : Unrestored pid id x)
    (ho : (first x.state.runs id).isSome = true →
      overtaken (Note.restoresOf id) (Note.restoredOf id) pid x.log = false) :
    GuardInv ⟨x.state.deleteRun id,(pid,.deleted id) :: x.log⟩ := by
  have hfree : ¬ Restoring x.state id := by
    intro hr
    have hp : Present x.state id := hi.backed id hr
    exact hi.unrestored pid id (standing_of_lastOwn hs rfl (ho hp)) hr
  refine ⟨?_,?_,?_⟩
  · intro run hr
    have hr' : Restoring x.state run := hr
    have hne : run ≠ id := by
      rintro rfl
      exact hfree hr'
    exact present_deleteRun hne (hi.backed run hr')
  · intro q run hst
    rw [standing_other (.inr rfl) rfl] at hst
    exact hi.unrestored q run hst
  · intro q run hst
    by_cases e : id = run
    · rw [standing_theirs rfl (by simp [Note.deleteOf,e])] at hst
      simp at hst
    · rw [standing_other (.inr rfl) (by simp [Note.deleteOf,e])] at hst
      exact present_deleteRun (fun h => e h.symm) (hi.found q run hst)

theorem insertRestore_cases (s : Store) (n : NewRestore) :
    ((s.insertRestore n).1 = s ∧ (s.insertRestore n).2 = none) ∨
    ((s.insertRestore n).1.restores = s.restores.insert (n.row s.nextID s.clock) ∧
      (s.insertRestore n).1.runs = s.runs ∧ (s.insertRestore n).2 = some (n.row s.nextID s.clock)) := by
  unfold Store.insertRestore
  split
  · exact .inl ⟨rfl,rfl⟩
  · exact .inr ⟨rfl,rfl,rfl⟩

theorem guard_insertRestore {pid : Nat} {x : Trace} {n : NewRestore} (hi : GuardInv x)
    (hs : Found pid n.dedupe.backupRunID x)
    (ho : (x.state.insertRestore n).2.isSome = true →
      overtaken (Note.foundOf n.dedupe.backupRunID) (Note.deleteOf n.dedupe.backupRunID) pid
        x.log = false) :
    GuardInv ⟨(x.state.insertRestore n).1,record pid x.log
      ((x.state.insertRestore n).2.map fun _ => .restored n.dedupe.backupRunID)⟩ := by
  rcases insertRestore_cases x.state n with ⟨hst,hout⟩ | ⟨hres,hruns,hout⟩
  · rw [hout,hst]
    exact guard_still hi (fun _ h => h) (fun _ h => h) (by simp)
  · have hp : Present x.state n.dedupe.backupRunID :=
      hi.found pid _ (standing_of_lastOwn hs rfl (ho (by rw [hout]; rfl)))
    have hold : ∀ run, Restoring (x.state.insertRestore n).1 run →
        Restoring x.state run ∨ run = n.dedupe.backupRunID := by
      rintro run ⟨r,hr,hl,hid,ha⟩
      rw [hres] at hr
      rcases Table.mem_insert hr with hm | rfl
      · exact .inl ⟨r,hm,hl,hid,ha⟩
      · exact .inr hid.symm
    have hkeep : ∀ run, Present x.state run → Present (x.state.insertRestore n).1 run := by
      intro run h
      simpa only [Present,hruns] using h
    rw [hout]
    refine ⟨?_,?_,?_⟩
    · intro run hr
      rcases hold run hr with h | rfl
      · exact hkeep run (hi.backed run h)
      · exact hkeep _ hp
    · intro q run hst hr
      simp only [Option.map_some,record] at hst
      by_cases e : n.dedupe.backupRunID = run
      · rw [standing_theirs rfl (by simp [Note.restoredOf,e])] at hst
        simp at hst
      · rw [standing_other (.inr rfl) (by simp [Note.restoredOf,e])] at hst
        rcases hold run hr with h | h
        · exact hi.unrestored q run hst h
        · exact e h.symm
    · intro q run hst
      simp only [Option.map_some,record] at hst
      rw [standing_other (.inr rfl) rfl] at hst
      exact hkeep run (hi.found q run hst)

theorem restoring_update {s : Store} {w : RestoreWhere} {p : RestorePatch}
    (hb : (RestoreWrite.update w p).Backed) {run : UUID}
    (h : Restoring (s.updateRestore w p) run) : Restoring s run := by
  obtain ⟨r',hr',hl,hid,ha⟩ := h
  obtain ⟨r,hr,rfl⟩ := (Table.mem_modify (f := p.apply s.clock) fun _ => rfl).mp hr'
  refine ⟨r,hr,?_⟩
  split at hl
  · rename_i hm
    simp only [hm,if_true] at hid ha
    obtain ⟨a,hw,haa⟩ := hb ha
    obtain ⟨hlive,-,hs⟩ := matches_restore hm
    exact ⟨hlive,hid,by rw [hs a hw]; exact haa⟩
  · rename_i hm
    simp only [hm] at hid ha
    exact ⟨hl,hid,ha⟩

theorem present_update {s : Store} {w : RunWhere} {p : RunPatch} {run : UUID}
    (h : Present s run) : Present (s.updateRun w p) run := by
  obtain ⟨r,hr,hl⟩ := present_find.mp h
  refine present_find.mpr ⟨_,by rw [find_updateRun,hr]; rfl,?_⟩
  dsimp only
  split
  · exact hl
  · exact hl

theorem present_insertRun {s : Store} {n : NewRun} {c : Bool} {run : UUID}
    (h : Present s run) : Present (s.insertRun n c).1 run := by
  rcases insertRun_cases s n c with ⟨he,-⟩ | ⟨-,-,he⟩
  · rw [he]
    exact h
  · obtain ⟨r,hr,hl⟩ := present_find.mp h
    rw [he]
    exact present_find.mpr ⟨r,Table.find_insert_of_some hr,hl⟩

theorem unrelated_created {job : UUID} {out : Insert} :
    ∀ m, out.note (.created job) = some m → m.unrelated := by
  intro m hm
  cases out <;> simp only [Insert.note,Option.some.injEq,reduceCtorEq] at hm
  exact hm ▸ fun _ => ⟨rfl,rfl,rfl,rfl⟩

theorem guard_run (pid : Nat) (x : Trace) {β : Type} (w : RunWrite β) (u : Store) (b : β)
    (hi : GuardInv x) (hs : w.Seen pid x) (hc : w.Unlapped pid x)
    (hx : w.exec pid x.state = some (u,b)) : GuardInv ⟨u,record pid x.log (w.note b)⟩ := by
  have hres : ∀ run, Restoring u run → Restoring x.state run := by
    obtain ⟨_,_,_,rfl⟩ := runsOnly_exec hx
    exact fun _ h => h
  cases run_effect hx with
  | update w p => exact guard_still hi hres (fun _ => present_update) (by simp [RunWrite.note])
  | insert n c => exact guard_still hi hres (fun _ => present_insertRun) unrelated_created
  | delete id => exact guard_deleted hi hs hc
  | lock id l r => exact guard_still hi hres (fun _ h => h) (by simp [RunWrite.note])
  | insertCommit n =>
    refine guard_still hi hres ?_ unrelated_created
    intro run h
    have hk : Present (x.state.insertRun n false).1 run := present_insertRun h
    exact hk
  | commit => exact guard_still hi hres (fun _ h => h) (by simp [RunWrite.note])

theorem guard_select (pid : Nat) (x : Trace) {β : Type} (q : Select β) (hi : GuardInv x) :
    GuardInv ⟨x.state,record pid x.log (q.note (q.eval x.state))⟩ := by
  cases q with
  | activeRestores run => exact guard_counted hi
  | loadRun id =>
    simp only [Select.note,Select.eval,Option.isSome_map,record]
    exact guard_found hi
  | latestRun job =>
    simp only [Select.note]
    cases Select.eval (.latestRun job) x.state with
    | none => exact guard_same hi (by simp)
    | some r => exact guard_same hi fun m hm => Option.some.inj hm ▸ fun _ => ⟨rfl,rfl,rfl,rfl⟩
  | inflight job =>
    exact guard_same hi fun m hm => Option.some.inj hm ▸ fun _ => ⟨rfl,rfl,rfl,rfl⟩
  | loadJob id =>
    exact guard_same hi fun m hm => Option.some.inj hm ▸ fun _ => ⟨rfl,rfl,rfl,rfl⟩
  | allJobs => exact guard_same hi fun m hm => Option.some.inj hm ▸ fun _ => ⟨rfl,rfl,rfl,rfl⟩
  | _ => exact guard_same hi (by simp [Select.note])

theorem guard_exec (pid : Nat) (x : Trace) {β : Type} (i : Stmt β) (u : Store) (b : β)
    (hi : GuardInv x) (hb : i.Backed x.state) (hs : i.Seen pid x) (hc : Unlapped pid x i)
    (hx : i.exec pid x.state = some (u,b)) : GuardInv ⟨u,record pid x.log (i.note b)⟩ := by
  cases stmt_effect hx with
  | select q => exact guard_select pid x q hi
  | run he hw => exact guard_run pid x _ u b hi hs hc hw
  | restore w =>
    cases w with
    | insert n => exact guard_insertRestore hi hs hc
    | update w p =>
      have hnote : ∀ m, (Stmt.restore (.update w p)).note ((RestoreWrite.update w p).exec x.state).2 =
          some m → m.unrelated := by
        simp [Stmt.note,RestoreWrite.note]
      rcases updateRestore_cases x.state w p with he | he
      · rw [he]
        exact guard_still hi (fun _ h => h) (fun _ h => h) hnote
      · rw [he]
        exact guard_still hi (fun _ => restoring_update (w := w) (p := p) hb) (fun _ h => h) hnote
  | job w =>
    obtain ⟨_,_,_,_,_,ht⟩ := jobsOnly_exec x.state w
    rw [ht]
    exact guard_still hi (fun _ h => h) (fun _ h => h) (by simp [Stmt.note])
  | side w =>
    obtain ⟨_,_,_,_,_,_,ht⟩ := sideOnly_exec x.state w
    rw [ht]
    exact guard_still hi (fun _ h => h) (fun _ h => h) (by simp [Stmt.note])
  | agent hw =>
    obtain ⟨_,_,_,_,_,rfl⟩ := agentsOnly_exec hw
    exact guard_still hi (fun _ h => h) (fun _ h => h) (by simp [Stmt.note])

theorem guardInv_init {s : Store} (h : RestoresBacked s) : GuardInv ⟨s,[]⟩ := by
  refine ⟨?_,?_,?_⟩
  · intro run hr
    have hne : s.activeRestores run ≠ 0 := fun hz => activeRestores_zero.mp hz hr
    exact h run (Nat.pos_of_ne_zero hne)
  · intro _ _ hst
    simp [standing] at hst
  · intro _ _ hst
    simp [standing] at hst

theorem restoresBacked_of_guard {x : Trace} (h : GuardInv x) : RestoresBacked x.state := by
  intro run hpos
  by_contra hn
  have hz : x.state.activeRestores run = 0 :=
    activeRestores_zero.mpr fun hr => hn (h.backed run hr)
  omega

def KeepsRestoresBacked (env : Env) (s : Store) (es : List (Event (system env))) : Prop :=
  ∀ xs ys v, es = xs ++ ys → (World.idle (S := system env) s).run xs = some v →
    RestoresBacked v.state

theorem keeps_restores_backed (env : Env) (s : Store) (es : List (Event (system env)))
    (h0 : RestoresBacked s) (h : Along (Heeding Unlapped) (start s) (watched es)) :
    KeepsRestoresBacked env s es := by
  intro xs ys v he hv
  obtain ⟨log,hi⟩ := trace_reached (I := GuardInv) (fun _ _ _ hi => ⟨hi.backed,hi.unrestored,hi.found⟩)
    guard_exec (guardInv_init h0) h he hv
  exact restoresBacked_of_guard hi

def expiredRun : VgBackupRun := { sampleRun with status := .completed, completedAt := some 0 }

def expiredStore : Store :=
  { sampleStore with runs := singleRow expiredRun, clock := 40 * 24 * minutes 60 }

def agentParam : String := "00000000-0000-0000-0000-000000000003"

def restoreEvents : List SampleEvent :=
  .start 1 (.createRestore ⟨.admin,1⟩ ⟨runParam,agentParam,"/restore","",true⟩) :: acts 1 4

def retentionEvents (n : Nat) : List SampleEvent := .start 0 .enforceRetention :: acts 0 n

theorem restoresBacked_expiredStore : RestoresBacked expiredStore := by
  intro run h
  have hz : expiredStore.activeRestores run = 0 := rfl
  omega

theorem retention_waits_for_restore :
    Along (Heeding Unlapped) (start expiredStore) (watched (restoreEvents ++ retentionEvents 4)) ∧
    KeepsRestoresBacked sampleEnv expiredStore (restoreEvents ++ retentionEvents 4) :=
  have h : Along (Heeding Unlapped) (start expiredStore)
      (watched (restoreEvents ++ retentionEvents 4)) := by decide
  ⟨h,keeps_restores_backed sampleEnv expiredStore _ restoresBacked_expiredStore h⟩

theorem retention_deletes_restored_run :
    RestoresBacked expiredStore ∧
    ¬ KeepsRestoresBacked sampleEnv expiredStore
      (retentionEvents 4 ++ restoreEvents ++ acts 0 6) := by
  refine ⟨restoresBacked_expiredStore,?_⟩
  intro h
  have hrun : ((World.idle (S := system sampleEnv) expiredStore).run
      (retentionEvents 4 ++ restoreEvents ++ acts 0 6)).map
      (fun w => (w.state.activeRestores 7,(first w.state.runs 7).isSome)) = some (1,false) := by
    decide
  rw [Option.map_eq_some_iff] at hrun
  obtain ⟨w,hw,hn⟩ := hrun
  rw [Prod.mk.injEq] at hn
  have hback := h _ [] w (List.append_nil _).symm hw 7 (by omega)
  rw [hn.2] at hback
  simp at hback

end VgBackup
