import ServerHub.VgBackup.Orderly.Credentials
import ServerHub.VgBackup.Orderly.Management
import ServerHub.VgBackup.Orderly.Scheduler
import ServerHub.VgBackup.Orderly.Settings

namespace VgBackup

open Relational Interleave

section Requests

variable {env : Env} {pid : Nat} {x : Trace}

theorem orderly_answered {p : Handler Reply} (h : Orderly env pid p x) :
    Orderly env pid (answered p) x := orderly_bind h fun _ _ _ => orderly_ret _

theorem orderly_silent {p : Handler Unit} (h : Orderly env pid p x) :
    Orderly env pid (silent p) x := orderly_bind h fun _ _ _ => orderly_ret _

theorem orderly_handle (r : Request) : Orderly env pid (handle env r) x := by
  cases r with
  | createBackupJob actor req => exact orderly_answered (orderly_createBackupJob actor req)
  | updateBackupJob actor param req =>
    exact orderly_answered (orderly_updateBackupJob actor param req)
  | deleteBackupJob actor param => exact orderly_answered (orderly_deleteBackupJob actor param)
  | deletePolicy actor param => exact orderly_answered (orderly_deletePolicy actor param)
  | runNow actor param => exact orderly_answered (orderly_runNow actor param)
  | cancelBackupRun actor param => exact orderly_answered (orderly_cancelBackupRun actor param)
  | createRestore actor req => exact orderly_answered (orderly_createRestore actor req)
  | vgClaimRun agent param => exact orderly_answered (orderly_vgClaimRun agent param)
  | vgUpdateRunStatus agent param req =>
    exact orderly_answered (orderly_vgUpdateRunStatus agent param req)
  | vgClaimRestore agent param => exact orderly_answered (orderly_vgClaimRestore agent param)
  | vgUpdateRestoreStatus agent param req =>
    exact orderly_answered (orderly_vgUpdateRestoreStatus agent param req)
  | createConnection actor req => exact orderly_answered (orderly_createConnection actor req)
  | updateConnection actor param req =>
    exact orderly_answered (orderly_updateConnection actor param req)
  | deleteConnection actor param => exact orderly_answered (orderly_deleteConnection actor param)
  | testConnection actor param dialFailure =>
    exact orderly_answered (orderly_testConnection actor param dialFailure)
  | createPolicy actor req => exact orderly_answered (orderly_createPolicy actor req)
  | updatePolicy actor param req => exact orderly_answered (orderly_updatePolicy actor param req)
  | setJobEnabled actor param enabled =>
    exact orderly_answered (orderly_setJobEnabled actor param enabled)
  | verifyRun actor param => exact orderly_answered (orderly_verifyRun actor param)
  | vgRegisterArtifact agent param req =>
    exact orderly_answered (orderly_vgRegisterArtifact agent param req)
  | vgRegisterChunk agent param req =>
    exact orderly_answered (orderly_vgRegisterChunk agent param req)
  | vgRegister draw req => exact orderly_answered (orderly_vgRegister draw req)
  | vgEnroll draw req => exact orderly_answered (orderly_vgEnroll draw req)
  | agentRequest authorization agentHeader call =>
    exact orderly_answered (orderly_agentRequest authorization agentHeader call)
  | generateEnrollmentToken actor draw req =>
    exact orderly_answered (orderly_generateEnrollmentToken actor draw req)
  | revokeEnrollmentToken actor param =>
    exact orderly_answered (orderly_revokeEnrollmentToken actor param)
  | generateRegistrationToken actor draw =>
    exact orderly_answered (orderly_generateRegistrationToken actor draw)
  | rotateAgentToken actor draw param =>
    exact orderly_answered (orderly_rotateAgentToken draw param)
  | revokeAgent actor param => exact orderly_answered (orderly_revokeAgent actor param)
  | fire job boundary => exact orderly_silent (orderly_fireJob job boundary)
  | maybeFireRetry job =>
    exact orderly_silent (orderly_atNow fun _ _ hn => orderly_retryJob hn job)
  | checkStaleRuns => exact orderly_silent (orderly_atNow fun _ _ => orderly_checkStaleRuns)
  | enforceRetention =>
    exact orderly_silent (orderly_atNow fun now _ _ => orderly_enforceRetention now)
  | tick prev => exact orderly_silent (orderly_atNow fun _ _ hn => orderly_tick hn prev)

end Requests

def Issue (P : Store → {β : Type} → Stmt β → Prop) {env : Env} (w : World (system env))
    (e : Event (system env)) : Prop :=
  Landing (S := system env) (fun _ s _ i => P s i) w e

def Informed {env : Env} (w : World (history env)) (e : Event (history env)) : Prop :=
  Landing (S := history env) (fun pid x _ i => Stmt.Backed x.state i ∧ Stmt.Seen pid x i) w e

def start {env : Env} (s : Store) : World (history env) :=
  World.traced noted (World.idle (S := system env) s) []

def watched {env : Env} (es : List (Event (system env))) : List (Event (history env)) :=
  es.map (Event.traced (S := system env) noted)

theorem watched_append {env : Env} (xs ys : List (Event (system env))) :
    watched (xs ++ ys) = watched xs ++ watched ys := List.map_append

theorem issued_informed (env : Env) (s : Store) (es : List (Event (history env))) :
    Along Informed (start s) es := by
  refine Discipline.along_duty (D := backing env) ?_ ?_ (Discipline.held_idle trivial) ?_
  · exact fun _ r _ _ => (orderly_handle r).safe
  · intro now y z _ h
    refine ⟨trivial,fun pid => ?_⟩
    obtain ⟨ht,hlog⟩ := env_watch (S := system env) h
    exact ⟨⟨later_advance ht,hlog ▸ List.suffix_rfl⟩,congrArg (own pid) hlog⟩
  · refine along_of_mem (fun e _ w => ?_) _
    cases e <;> simp [Landing,backing]

theorem issued_backed (env : Env) (s : Store) (es : List (Event (system env))) :
    Along (Issue Stmt.Backed) (World.idle (S := system env) s) es := by
  refine along_untraced (S := system env) noted ?_ (issued_informed env s (watched es))
  intro w log e h
  cases e with
  | start pid r => trivial
  | env now => trivial
  | act pid =>
    intro β i k hp u b hx
    refine (h β i k hp ⟨u,record pid log (i.note b)⟩ b ?_).1
    simp only [history,System.watch,World.traced,hx,Option.map_some]
    rfl

theorem changes_later {env : Env} {w : World (system env)} {e : Event (system env)}
    (hb : Issue Stmt.Backed w e) : Changes (S := system env) Store.Later w e := by
  refine changes_of_landing .refl (fun _ _ _ h => later_advance h) ?_
  intro pid he β i k t b hpool hx
  subst he
  have hbi : Stmt.Backed w.state i := hb β i k hpool t b hx
  exact hbi.later hx

theorem serve_later {env : Env} {pid : Nat} {r : Request} {s t : Store} {a : Answer}
    (h : serve env pid r s = some (t,a)) : s.Later t := by
  obtain ⟨n,v,hv,rfl,-⟩ := serve_run h
  exact changes_run (P := Store.Later) .refl (fun _ _ _ => .trans)
    (along_imp (fun _ _ hb => changes_later hb) (issued_backed env s _)) hv

abbrev TraceRule := Nat → Trace → {β : Type} → Stmt β → Prop

def Heeding (C : TraceRule) {env : Env} (w : World (history env)) (e : Event (history env)) :
    Prop :=
  Landing (S := history env) (fun pid x _ i => C pid x i) w e

instance heedingDecidable (C : TraceRule)
    [h : ∀ pid x (β : Type) (i : Stmt β), Decidable (C pid x i)] {env : Env}
    (w : World (history env)) (e : Event (history env)) : Decidable (Heeding C w e) :=
  @landingDecidable (history env) (fun pid x _ i => C pid x i) (fun pid x β i => h pid x β i) w e

theorem trace_cases {env : Env} {w v : World (history env)} {e : Event (history env)}
    (hinf : Informed w e) (h : w.step e = some v) :
    v.state = w.state ∨
    (∃ t, w.state.state.clock ≤ t ∧ v.state = ⟨{ w.state.state with clock := t },w.state.log⟩) ∨
    ∃ (pid : Nat) (β : Type) (i : Stmt β) (k : β → Prog (history env).Instr (history env).Answer)
      (b : β), e = .act pid ∧ w.pool pid = some (.step i k) ∧
      (history env).exec pid i w.state = some (v.state,b) ∧ i.Backed w.state.state ∧
      i.Seen pid w.state := by
  cases e with
  | start pid r => exact .inl (step_start h).2.1
  | act pid =>
    obtain ⟨β,i,k,b,hp,hx,-⟩ := step_act h
    obtain ⟨hb,hs⟩ := hinf β i k hp v.state b hx
    exact .inr (.inr ⟨pid,β,i,k,b,rfl,hp,hx,hb,hs⟩)
  | env now =>
    obtain ⟨hst,-⟩ := step_env h
    obtain ⟨ha,hlog⟩ := env_watch hst
    obtain ⟨hle,hclock⟩ := advance_eq ha
    refine .inr (.inl ⟨now,hle,?_⟩)
    rw [← hclock,← hlog]
    rfl

section Reached

variable {env : Env} {C : TraceRule} {I : Trace → Prop}
  (henv : ∀ x t, x.state.clock ≤ t → I x → I ⟨{ x.state with clock := t },x.log⟩)
  (hact : ∀ pid x {β : Type} (i : Stmt β) u b, I x → i.Backed x.state → i.Seen pid x →
    C pid x i → i.exec pid x.state = some (u,b) → I ⟨u,record pid x.log (i.note b)⟩)

include henv hact

theorem trace_step {w v : World (history env)} {e : Event (history env)} (hi : I w.state)
    (hinf : Informed w e) (hc : Heeding C w e) (h : w.step e = some v) : I v.state := by
  rcases trace_cases hinf h with hst | ⟨t,hle,hst⟩ | ⟨pid,β,i,k,b,rfl,hp,hx,hb,hs⟩
  · exact hst ▸ hi
  · exact hst ▸ henv w.state t hle hi
  · obtain ⟨hex,hlog⟩ := exec_history hx
    have hn := hact pid w.state i v.state.state b hi hb hs (hc β i k hp v.state b hx) hex
    rw [← hlog] at hn
    exact hn

theorem trace_reached {s : Store} (h0 : I ⟨s,[]⟩) {es : List (Event (system env))}
    (hc : Along (Heeding C) (start s) (watched es)) {xs ys : List (Event (system env))}
    (he : es = xs ++ ys) {v : World (system env)}
    (hv : (World.idle (S := system env) s).run xs = some v) : ∃ log, I ⟨v.state,log⟩ := by
  obtain ⟨log,hr⟩ := run_traced (S := system env) noted hv []
  rw [he,watched_append] at hc
  have hboth := along_and (issued_informed env s (watched xs)) (along_append hc hr).1
  refine ⟨log,?_⟩
  exact along_invariant (I := fun w => I w.state)
    (fun w e u hi hw hs => trace_step henv hact hi hw.1 hw.2 hs) h0 hboth hr

end Reached

end VgBackup
