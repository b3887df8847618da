import ServerHub.VgBackup.ClaimConfig
import ServerHub.VgBackup.Contracts

namespace VgBackup

open Relational Interleave

theorem canRestoreTransition_unfinished {a b : RestoreStatus} (h : canRestoreTransition a b = true) :
    a.active = true := by
  cases a <;> simp_all [canRestoreTransition,RestoreStatus.active]

theorem canRestoreTransition_failed {a : RestoreStatus} (h : a ≠ .completed) :
    .failed = a ∨ canRestoreTransition a .failed = true := by
  cases a <;> simp_all [canRestoreTransition]

def VgRestoreJob.Moves (r r' : VgRestoreJob) : Prop :=
  r'.status = r.status ∨ canRestoreTransition r.status r'.status = true

def RestoreEdge (s t : Store) : Prop := Grows VgRestoreJob.Moves s.restores t.restores

def FinishedRestoresKept (s t : Store) : Prop :=
  Grows (fun r r' : VgRestoreJob => r.status.active = false → r'.status = r.status)
    s.restores t.restores

def StoredStatus (s : Store) (id : UUID) (st : RestoreStatus) : Prop :=
  (first s.restores id).any (·.status == st) = true

def StoredDuring {env : Env} (s : Store) (es : List (Event (system env))) (pid : Nat) (id : UUID)
    (st : RestoreStatus) : Prop :=
  ∃ (xs ys : List (Event (system env))) (r : Request) (w : World (system env)), es = xs ++ ys ∧
    .start pid r ∈ xs ∧ (.act pid ∈ ys ∨ ∃ zs, xs = zs ++ [.act pid]) ∧
    (World.idle s).run xs = some w ∧ StoredStatus w.state id st

structure RestoreMachine (env : Env) (s : Store) (es : List (Event (system env)))
    (v : World (system env)) : Prop where
  edges : Along (Changes (S := system env) RestoreEdge) (World.idle s) es
  finished : ∀ xs ys u w, es = xs ++ ys → (World.idle (S := system env) s).run xs = some u →
    u.run ys = some w → FinishedRestoresKept u.state w.state
  honest : ∀ pid agent param req body,
    .start pid (.vgUpdateRestoreStatus agent param req) ∈ es →
    v.pool pid = some (.ret (some ⟨200,body⟩)) →
    ∃ id st, env.parseUUID param = some id ∧ RestoreStatus.parse req.status = some st ∧
      StoredDuring s es pid id st

def reporting {env : Env} (es : List (Event (system env))) (pid : Nat) : Bool :=
  es.any fun
    | .start q (.vgUpdateRestoreStatus _ _ _) => q == pid
    | _ => false

def RestoreWrite.Timely (reports : Bool) (s : Store) : {β : Type} → RestoreWrite β → Prop
  | _, .insert _ => True
  | _, .update w p =>
      (reports = true → p.storable = true ∧
        (first s.restores w.id).any (fun r => w.matches r || r.status == p.status) = true) ∧
      (w.status = none → (first s.restores w.id).all (·.status != .completed) = true)

def Stmt.Timely (reports : Bool) (s : Store) {β : Type} : Stmt β → Prop
  | .restore w => w.Timely reports s
  | _ => True

def Timely {env : Env} (es : List (Event (system env))) (w : World (system env))
    (e : Event (system env)) : Prop :=
  Landing (S := system env) (fun pid s _ i => i.Timely (reporting es pid) s) w e

def RestoreWrite.Stepwise : {β : Type} → RestoreWrite β → Prop
  | _, .insert _ => True
  | _, .update w p => (∃ a, w.status = some a ∧ canRestoreTransition a p.status = true) ∨
      w.status = none ∧ p.status = .failed

def Stmt.Stepwise : {β : Type} → Stmt β → Prop
  | _, .restore w => w.Stepwise
  | _, _ => True

section Edges

variable {s : Store}

theorem restoreEdge_refl (s : Store) : RestoreEdge s s := .refl (fun _ => .inl rfl) _

theorem first_matching {w : RestoreWhere} {r : VgRestoreJob} (hr : r ∈ s.restores.rows)
    (hm : w.matches r = true) : first s.restores w.id = some r := by
  obtain ⟨hlive,hid,-⟩ := matches_restore hm
  have hfind : s.restores.find w.id = some r := hid ▸ Table.find_of_mem hr
  simp [first,hfind,hlive]

theorem edge_update {w : RestoreWhere} {p : RestorePatch}
    (hs : (RestoreWrite.update w p).Stepwise)
    (ht : w.status = none → (first s.restores w.id).all (·.status != .completed) = true) :
    RestoreEdge s (s.updateRestore w p) := by
  have hrow : ∀ r ∈ s.restores.rows, w.matches r = true → r.Moves (p.apply s.clock r) := by
    intro r hr hm
    obtain ⟨-,-,hst⟩ := matches_restore hm
    rcases hs with ⟨a,ha,hc⟩ | ⟨hn,hfail⟩
    · exact .inr (hst a ha ▸ hc)
    · have hne := ht hn
      simp only [first_matching hr hm,Option.all_some,bne_iff_ne,ne_eq] at hne
      rcases canRestoreTransition_failed hne with he | he
      · exact .inl (hfail.trans he)
      · exact .inr (by simpa only [RestorePatch.apply,hfail] using he)
  exact (grows_modify (fun _ => .inl rfl) hrow : Grows VgRestoreJob.Moves s.restores
    (s.restores.modify w.matches (p.apply s.clock) fun _ => rfl))

theorem edge_exec {pid : Nat} {t : Store} {β : Type} {i : Stmt β} {b : β} {reports : Bool}
    (hs : i.Stepwise) (ht : i.Timely reports s) (h : i.exec pid s = some (t,b)) :
    RestoreEdge s t := by
  have same : t.restores = s.restores → RestoreEdge s t := by
    intro he
    unfold RestoreEdge
    rw [he]
    exact .refl (fun _ => .inl rfl) _
  cases stmt_effect h with
  | select q => exact same rfl
  | run hr hx =>
    obtain ⟨_,_,_,rfl⟩ := runsOnly_exec hx
    exact same rfl
  | job w =>
    obtain ⟨_,_,_,_,_,hw⟩ := jobsOnly_exec s w
    exact same (by rw [hw])
  | side w =>
    obtain ⟨_,_,_,_,_,_,hw⟩ := sideOnly_exec s w
    exact same (by rw [hw])
  | agent hx =>
    obtain ⟨_,_,_,_,_,rfl⟩ := agentsOnly_exec hx
    exact same rfl
  | restore w =>
    cases w with
    | insert n =>
      rcases insertRestore_cases s n with ⟨he,-⟩ | ⟨he,-,-⟩
      · exact same (congrArg Store.restores he)
      · have hgrow : Grows VgRestoreJob.Moves s.restores (s.insertRestore n).1.restores := by
          rw [he]
          exact grows_insert (fun _ => .inl rfl) _ _
        exact hgrow
    | update w p =>
      rcases updateRestore_cases s w p with he | he
      · exact same (congrArg Store.restores he)
      · rw [he]
        exact edge_update hs ht.2

theorem finishedRestores_of_edge {t : Store} (h : RestoreEdge s t) : FinishedRestoresKept s t := by
  intro id r hr
  obtain ⟨r',hr',he⟩ := h id r hr
  refine ⟨r',hr',?_⟩
  intro hfin
  rcases he with he | he
  · exact he
  · rw [canRestoreTransition_unfinished he] at hfin
    simp at hfin

theorem finishedRestores_refl (s : Store) : FinishedRestoresKept s s := .refl (fun _ _ => rfl) _

theorem finishedRestores_trans {t u : Store} (h : FinishedRestoresKept s t)
    (k : FinishedRestoresKept t u) : FinishedRestoresKept s u := by
  refine h.trans ?_ k
  intro a b c hab hbc ha
  have hb := hab ha
  exact (hbc (hb ▸ ha)).trans hb

end Edges

section Uses

variable {env : Env}

theorem stepwise_failRestoreClaim (job : VgRestoreJob) (message : String) :
    (failRestoreClaim job message).Uses Stmt.Stepwise := by
  refine Prog.uses_bind (Prog.uses_perform trivial) fun now => ?_
  exact Prog.uses_bind (Prog.uses_perform (.inr ⟨rfl,rfl⟩)) fun _ => trivial

theorem stepwise_vgClaimRestore (agent : UUID) (param : String) :
    (vgClaimRestore env agent param).Uses Stmt.Stepwise := by
  have htouch : (vgTouch agent).Uses Stmt.Stepwise :=
    Prog.uses_bind (Prog.uses_perform trivial) fun _ => Prog.uses_perform trivial
  refine Prog.uses_bind htouch fun _ => ?_
  split
  · trivial
  · refine Prog.uses_bind (Prog.uses_perform trivial) fun now => ?_
    refine Prog.uses_bind (Prog.uses_perform (.inl ⟨.pending,rfl,rfl⟩)) fun rows => ?_
    split
    · refine Prog.uses_bind (Prog.uses_perform trivial) fun found => ?_
      split <;> trivial
    · refine Prog.uses_bind (Prog.uses_perform trivial) fun loaded => ?_
      split
      · trivial
      · split
        · exact stepwise_failRestoreClaim _ _
        · split
          · exact stepwise_failRestoreClaim _ _
          · trivial

theorem stepwise_vgUpdateRestoreStatus (agent : UUID) (param : String) (req : RestoreReport) :
    (vgUpdateRestoreStatus env agent param req).Uses Stmt.Stepwise := by
  unfold vgUpdateRestoreStatus
  split
  · trivial
  · refine Prog.uses_bind (Prog.uses_perform trivial) fun found => ?_
    split
    · trivial
    · dsimp only
      split
      · trivial
      · split
        · trivial
        · split
          · rename_i hc
            refine Prog.uses_bind (Prog.uses_perform trivial) fun now => ?_
            exact Prog.uses_bind (Prog.uses_perform (.inl ⟨_,rfl,hc⟩)) fun _ => trivial
          · trivial

def Request.restores : Request → Bool
  | .vgClaimRestore _ _ | .vgUpdateRestoreStatus _ _ _ => true
  | _ => false

theorem stepwise_handle {r : Request} (h : r.restores = true) :
    (handle env r).Uses Stmt.Stepwise := by
  cases r with
  | vgClaimRestore agent param =>
    exact Prog.uses_bind (stepwise_vgClaimRestore agent param) fun _ => trivial
  | vgUpdateRestoreStatus agent param req =>
    exact Prog.uses_bind (stepwise_vgUpdateRestoreStatus agent param req) fun _ => trivial
  | _ => simp [Request.restores] at h

theorem edges_along {s : Store} {es : List (Event (system env))}
    (hes : ∀ pid r, .start pid r ∈ es → r.restores = true)
    (hc : Along (Timely es) (World.idle s) es) :
    Along (Changes (S := system env) RestoreEdge) (World.idle s) es := by
  refine along_of_split ?_
  rintro xs e ys u rfl hu
  refine changes_of_landing restoreEdge_refl ?_ ?_
  · intro now t t' ht
    obtain ⟨-,rfl⟩ := advance_eq ht
    exact restoreEdge_refl t
  · rintro pid rfl β i k t b hp hx
    have hstep : Stmt.Stepwise i :=
      uses_at (fun q r hm => stepwise_handle (hes q r hm)) hu hp
    have htime := (along_append hc hu).2.1
    exact edge_exec hstep (htime β i k hp t b hx) hx

end Uses

def restoreMoment : (β : Type) → Stmt β → β → Option (UUID × RestoreStatus)
  | _, .select (.firstRestore id _), some r => some (id,r.status)
  | _, .restore (.update w p), _ => some (w.id,p.status)
  | _, _, _ => none

abbrev RestoreTrace := Traced Store (UUID × RestoreStatus)

def restoreRegime (env : Env) : Regime ((system env).watch restoreMoment) where
  Inv _ := True
  Later x y := ∀ e ∈ x.log, e ∈ y.log
  Allow _ _ _ _ := True
  refl _ _ h := h
  trans _ _ _ h k e he := k e (h e he)

theorem restoreRegime_closed (env : Env) : (restoreRegime env).Closed fun _ => True := by
  intro pid x β i y b _ _ _ hx
  refine ⟨trivial,?_⟩
  intro e he
  rw [(exec_noted hx).2]
  exact (suffix_record pid x.log _).subset he

def RestorePost (env : Env) (pid : Nat) (r : Request) (a : Answer) (x : RestoreTrace) : Prop :=
  match r with
  | .vgUpdateRestoreStatus _ param req => ∀ body, a = some ⟨200,body⟩ →
      ∃ id st, env.parseUUID param = some id ∧ RestoreStatus.parse req.status = some st ∧
        (pid,(id,st)) ∈ x.log
  | _ => True

section Honest

variable {env : Env} {pid : Nat} {x : RestoreTrace}

theorem ensures_vgUpdateRestoreStatus (agent : UUID) (param : String) (req : RestoreReport) :
    (restoreRegime env).Ensures pid (fun r y => r.code = 200 → ∃ id st,
        env.parseUUID param = some id ∧ RestoreStatus.parse req.status = some st ∧
          (pid,(id,st)) ∈ y.log)
      (vgUpdateRestoreStatus env agent param req) x := by
  have hclosed := restoreRegime_closed env
  unfold vgUpdateRestoreStatus
  split
  · exact ensures_fail (by decide)
  · rename_i id hid
    refine Regime.ensures_perform hclosed trivial fun _ y found _ _ hx _ => ?_
    cases found with
    | none => exact ensures_fail (by decide)
    | some job =>
      have hread : (pid,(id,job.status)) ∈ y.log := (exec_noted hx).2 ▸ List.mem_cons_self
      dsimp only
      split
      · exact ensures_fail (by decide)
      · rename_i st hst
        split
        · rename_i hsame
          exact fun _ => ⟨id,st,hid,hst,hsame.1 ▸ hread⟩
        · split
          · refine ensures_select hclosed trivial (fun _ => rfl) fun z hz => ?_
            refine Regime.ensures_perform hclosed trivial fun _ u _ _ _ hw _ => ?_
            have hwrote : (pid,(id,st)) ∈ u.log := (exec_noted hw).2 ▸ List.mem_cons_self
            exact fun _ => ⟨id,st,hid,hst,hwrote⟩
          · exact ensures_fail (by decide)

theorem ensures_restores {r : Request} (hr : r.restores = true) :
    (restoreRegime env).Ensures pid (RestorePost env pid r) (handle env r) x := by
  cases r with
  | vgClaimRestore agent param =>
    exact ensures_unasked (restoreRegime_closed env)
      (Prog.uses_mono (fun _ _ => trivial) (stepwise_vgClaimRestore agent param))
  | vgUpdateRestoreStatus agent param req =>
    exact ensures_answered trivial (ensures_vgUpdateRestoreStatus agent param req)
  | _ => simp [Request.restores] at hr

theorem restorePost_later {r : Request} {a : Answer} {y : RestoreTrace}
    (hl : ∀ e ∈ x.log, e ∈ y.log) (h : RestorePost env pid r a x) : RestorePost env pid r a y := by
  cases r with
  | vgUpdateRestoreStatus agent param req =>
    intro body he
    obtain ⟨id,st,hid,hst,hin⟩ := h body he
    exact ⟨id,st,hid,hst,hl _ hin⟩
  | _ => trivial

theorem stored_at_moment {s t : Store} {β : Type} {i : Stmt β} {b : β} {id : UUID}
    {st : RestoreStatus} (hn : restoreMoment β i b = some (id,st)) (ht : i.Timely true s)
    (hx : i.exec pid s = some (t,b)) : StoredStatus s id st ∨ StoredStatus t id st := by
  cases i with
  | select q =>
    cases q with
    | firstRestore k agent =>
      obtain ⟨-,rfl⟩ := Prod.mk.inj (Option.some.inj hx)
      cases hf : (Select.firstRestore k agent).eval s with
      | none => simp [restoreMoment,hf] at hn
      | some r =>
        rw [hf] at hn
        obtain ⟨rfl,rfl⟩ := Prod.mk.inj (Option.some.inj hn)
        have hfirst := (Option.filter_eq_some_iff.mp hf).1
        exact .inl (by simp [StoredStatus,hfirst])
    | _ => simp [restoreMoment] at hn
  | restore w =>
    cases w with
    | update w p =>
      obtain ⟨rfl,rfl⟩ := Prod.mk.inj (Option.some.inj hn)
      obtain ⟨hstore,hany⟩ := ht.1 rfl
      simp only [Stmt.exec,RestoreWrite.exec,if_pos hstore] at hx
      obtain ⟨rfl,-⟩ := Prod.mk.inj (Option.some.inj hx)
      rw [Option.any_eq_true] at hany
      obtain ⟨r,hr,hor⟩ := hany
      simp only [Bool.or_eq_true,beq_iff_eq] at hor
      rcases hor with hm | hs
      · refine .inr ?_
        obtain ⟨hfind,hlive⟩ := first_some hr
        have hlive' : live (p.apply s.clock r) = true := hlive
        have hfirst : first (s.updateRestore w p).restores w.id = some (p.apply s.clock r) := by
          rw [first,find_updateRestore,hfind,Option.map_some,if_pos hm,Option.filter_some,
            if_pos hlive']
        exact (congrArg (Option.any _) hfirst).trans (by simp [RestorePatch.apply])
      · exact .inl (by simp [StoredStatus,hr,hs])
    | insert n => simp [restoreMoment] at hn
  | _ => simp [restoreMoment] at hn

end Honest

theorem reporting_start {env : Env} {es : List (Event (system env))} {pid : Nat} {agent : UUID}
    {param : String} {req : RestoreReport}
    (h : .start pid (.vgUpdateRestoreStatus agent param req) ∈ es) : reporting es pid = true :=
  List.any_eq_true.mpr ⟨_,h,by simp⟩

theorem restore_machine_honest (env : Env) (s : Store) (es : List (Event (system env)))
    (v : World (system env)) (hes : ∀ pid r, .start pid r ∈ es → r.restores = true)
    (hc : Along (Timely es) (World.idle s) es) (hv : (World.idle s).run es = some v) :
    RestoreMachine env s es v := by
  have hedge := edges_along hes hc
  have hclock : ∀ now x y, True → ((system env).watch restoreMoment).env now x = some y →
      (restoreRegime env).Kept x y :=
    fun now x y _ h => ⟨trivial,fun e he => (clock_noted h).2 ▸ he⟩
  obtain ⟨log,-,hpost,hlogged⟩ := recorded (S := system env) (R := restoreRegime env)
    (Q := RestorePost env) trivial (fun pid r x hm _ => ensures_restores (hes pid r hm))
    (fun _ _ _ _ _ => restorePost_later) hclock (fun _ _ _ _ _ => trivial) hc hv
  refine ⟨hedge,?_,?_⟩
  · rintro xs ys u w rfl hu hw
    have hkept := along_imp (fun _ _ hce v hv => finishedRestores_of_edge (hce v hv))
      (along_append hedge hu).2
    exact changes_run (P := FinishedRestoresKept) finishedRestores_refl
      (fun _ _ _ => finishedRestores_trans) hkept hw
  · intro pid agent param req body hm ha
    obtain ⟨id,st,hid,hst,hin⟩ := hpost pid _ _ hm ha body rfl
    refine ⟨id,st,hid,hst,?_⟩
    obtain ⟨xs,ys,u,u',β,i,k,b,rfl,hu,hp,hstep,hx,hn⟩ := hlogged pid (id,st) hin
    have hstart := (residual_at hv hm hu hp).1
    have htime : Stmt.Timely (reporting (xs ++ .act pid :: ys) pid) u.state i :=
      (along_append hc hu).2.1 β i k hp u'.state b hx
    rw [reporting_start hm] at htime
    rcases stored_at_moment hn htime hx with hs | hs
    · exact ⟨xs,_,_,u,rfl,hstart,.inl List.mem_cons_self,hu,hs⟩
    · refine ⟨xs ++ [.act pid],ys,_,u',by simp,List.mem_append_left _ hstart,.inr ⟨xs,rfl⟩,?_,hs⟩
      rw [run_append,hu,Option.bind_some,World.run,hstep]
      rfl

instance restoreTimelyDecidable (reports : Bool) (s : Store) :
    {β : Type} → (w : RestoreWrite β) → Decidable (w.Timely reports s)
  | _, .insert _ => isTrue trivial
  | _, .update _ _ => inferInstanceAs (Decidable ((_ → _) ∧ (_ → _)))

instance stmtTimelyDecidable (reports : Bool) (s : Store) (β : Type) :
    (i : Stmt β) → Decidable (i.Timely reports s)
  | .restore w => restoreTimelyDecidable reports s w
  | .select _ | .run _ | .job _ | .side _ | .agent _ => isTrue trivial

instance timelyDecidable {env : Env} (es : List (Event (system env))) (w : World (system env))
    (e : Event (system env)) : Decidable (Timely es w e) :=
  @landingDecidable (system env) (fun pid s _ i => i.Timely (reporting es pid) s)
    (fun pid s β i => stmtTimelyDecidable (reporting es pid) s β i) w e

def sampleRestore : VgRestoreJob :=
  { VgBase.zero with
    id := 8, backupRunID := 7, agentID := 3, connectionID := none, status := .pending
    destinationPath := "/restore", targetDatabase := "", startedAt := none, completedAt := none
    durationSeconds := 0, errorMessage := "" }

def restoreParam : String := "00000000-0000-0000-0000-000000000008"

def claimRestoreEvents (n : Nat) : List SampleEvent :=
  .start 1 (.vgClaimRestore 3 restoreParam) :: acts 1 n

def reportEvents (pid : Nat) (status : String) (n : Nat) : List SampleEvent :=
  .start pid (.vgUpdateRestoreStatus 3 restoreParam ⟨status,""⟩) :: acts pid n

def pendingRestoreStore : Store := { sampleStore with restores := singleRow sampleRestore }

def restoredInTurn : List SampleEvent := claimRestoreEvents 5 ++ reportEvents 2 "COMPLETED" 3

theorem restore_completed_in_turn :
    Along (Timely restoredInTurn) (World.idle (S := system sampleEnv) pendingRestoreStore)
      restoredInTurn ∧
    ∃ v, (World.idle (S := system sampleEnv) pendingRestoreStore).run restoredInTurn = some v ∧
      replyCode v 2 = some 200 ∧ RestoreMachine sampleEnv pendingRestoreStore restoredInTurn v := by
  have htime : Along (Timely restoredInTurn)
      (World.idle (S := system sampleEnv) pendingRestoreStore) restoredInTurn := by decide
  have hrun : ((World.idle (S := system sampleEnv) pendingRestoreStore).run restoredInTurn).map
      (replyCode · 2) = some (some 200) := by decide
  obtain ⟨v,hv,hcode⟩ := Option.map_eq_some_iff.mp hrun
  exact ⟨htime,v,hv,hcode,restore_machine_honest sampleEnv pendingRestoreStore restoredInTurn v
    (allStarts_mem (by decide)) htime hv⟩

def runningRestoreStore : Store :=
  { sampleStore with restores := singleRow { sampleRestore with status := .running } }

def overtakenReport : List SampleEvent :=
  reportEvents 1 "COMPLETED" 1 ++ reportEvents 2 "FAILED" 3 ++ acts 1 2

def sealedStore : Store :=
  { retryStore with restores := singleRow sampleRestore }

def overtakenClaim : List SampleEvent := claimRestoreEvents 5 ++ reportEvents 2 "COMPLETED" 3

def restoreStatusAfter (s : Store) (es : List SampleEvent) : Option RestoreStatus :=
  ((World.idle (S := system sampleEnv) s).run es).bind fun w =>
    (w.state.restores.find 8).map (·.status)

theorem restore_after {s : Store} {es : List SampleEvent} {a : RestoreStatus}
    (h : restoreStatusAfter s es = some a) :
    ∃ w r, (World.idle (S := system sampleEnv) s).run es = some w ∧
      w.state.restores.find 8 = some r ∧ r.status = a := by
  simp only [restoreStatusAfter,Option.bind_eq_some_iff,Option.map_eq_some_iff] at h
  obtain ⟨w,hw,r,hr,ha⟩ := h
  exact ⟨w,r,hw,hr,ha⟩

def refusedReport : List SampleEvent :=
  .start 1 (.vgUpdateRestoreStatus 3 restoreParam ⟨"FAILED","x\x00"⟩) :: acts 1 3

def neverStored (es : List SampleEvent) (st : RestoreStatus) : Bool :=
  (List.range (es.length + 1)).all fun n =>
    ((World.idle (S := system sampleEnv) runningRestoreStore).run (es.take n)).all fun w =>
      !(first w.state.restores 8).any (·.status == st)

theorem never_stored {es xs ys : List SampleEvent} {st : RestoreStatus}
    (hall : neverStored es st = true) (he : es = xs ++ ys) {w : World (system sampleEnv)}
    (hw : (World.idle (S := system sampleEnv) runningRestoreStore).run xs = some w) :
    ¬ StoredStatus w.state 8 st := by
  have hn : xs.length ∈ List.range (es.length + 1) := by
    rw [he,List.mem_range,List.length_append]
    omega
  have hx := List.all_eq_true.mp hall xs.length hn
  rw [he,List.take_left,hw] at hx
  intro hst
  have hany : (first w.state.restores 8).any (·.status == st) = true := hst
  simp [hany] at hx

theorem not_honest {es : List SampleEvent} {st : RestoreStatus} {req : RestoreReport}
    (hall : neverStored es st = true) (hparse : RestoreStatus.parse req.status = some st)
    (hm : .start 1 (.vgUpdateRestoreStatus 3 restoreParam req) ∈ es)
    {v : World (system sampleEnv)} (hreply : replyOf v 1 = some ⟨200,.updated none⟩) :
    ¬ RestoreMachine sampleEnv runningRestoreStore es v := by
  intro h
  obtain ⟨id,st',hid,hst,xs,ys,r,w,he,-,-,hw,hs⟩ := h.honest 1 3 restoreParam req _ hm
    (replyOf_eq hreply)
  obtain rfl : 8 = id := Option.some.inj hid
  obtain rfl : st = st' := Option.some.inj (hparse.symm.trans hst)
  exact never_stored hall he hw hs

theorem restore_reports_and_claims_race :
    (∃ v, (World.idle (S := system sampleEnv) runningRestoreStore).run overtakenReport = some v ∧
      ¬ RestoreMachine sampleEnv runningRestoreStore overtakenReport v) ∧
    (∃ v, (World.idle (S := system sampleEnv) runningRestoreStore).run refusedReport = some v ∧
      ¬ RestoreMachine sampleEnv runningRestoreStore refusedReport v) ∧
    ∃ v, (World.idle (S := system sampleEnv) sealedStore).run (overtakenClaim ++ acts 1 2) = some v ∧
      ¬ RestoreMachine sampleEnv sealedStore (overtakenClaim ++ acts 1 2) v := by
  refine ⟨?_,?_,?_⟩
  · have hrun : ((World.idle (S := system sampleEnv) runningRestoreStore).run overtakenReport).map
        (replyOf · 1) = some (some ⟨200,.updated none⟩) := by decide
    obtain ⟨v,hv,hreply⟩ := Option.map_eq_some_iff.mp hrun
    exact ⟨v,hv,not_honest (by decide : neverStored overtakenReport .completed = true) rfl
      (by simp [overtakenReport,reportEvents] :
        .start 1 (.vgUpdateRestoreStatus 3 restoreParam ⟨"COMPLETED",""⟩) ∈ overtakenReport) hreply⟩
  · have hrun : ((World.idle (S := system sampleEnv) runningRestoreStore).run refusedReport).map
        (replyOf · 1) = some (some ⟨200,.updated none⟩) := by decide
    obtain ⟨v,hv,hreply⟩ := Option.map_eq_some_iff.mp hrun
    exact ⟨v,hv,not_honest (by decide : neverStored refusedReport .failed = true) rfl
      (by simp [refusedReport] :
        .start 1 (.vgUpdateRestoreStatus 3 restoreParam ⟨"FAILED","x\x00"⟩) ∈ refusedReport) hreply⟩
  · have hbefore : restoreStatusAfter sealedStore overtakenClaim = some .completed := by decide
    have hafter : restoreStatusAfter sealedStore (overtakenClaim ++ acts 1 2) = some .failed := by
      decide
    obtain ⟨u,r,hu,hr,hc⟩ := restore_after hbefore
    obtain ⟨v,r',hv,hr',hf⟩ := restore_after hafter
    refine ⟨v,hv,?_⟩
    intro h
    rw [run_append,hu,Option.bind_some] at hv
    obtain ⟨q,hq,hkeep⟩ := h.finished overtakenClaim (acts 1 2) u v rfl hu hv 8 r hr
    obtain rfl : r' = q := Option.some.inj (hr'.symm.trans hq)
    have hsame := hkeep (by rw [hc]; rfl)
    rw [hf,hc] at hsame
    simp at hsame

end VgBackup
