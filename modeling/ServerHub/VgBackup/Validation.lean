import ServerHub.VgBackup.Backed

namespace VgBackup

open Relational Interleave

theorem except_bind {ε α β : Type} {x : Except ε α} {f : α → Except ε β} {b : β}
    (h : x >>= f = .ok b) : ∃ a, x = .ok a ∧ f a = .ok b := by
  cases x with
  | error e => simp [bind,Except.bind] at h
  | ok a => exact ⟨a,rfl,h⟩

def Usable (m : VgBackupMode) : Prop := m = .normal ∨ m = .compressed

def Retainable (days : Int) : Prop := 0 ≤ days ∧ days ≤ 3650

def Parseable (env : Env) (cronExpr : String) : Prop := ∃ next, env.parseCron cronExpr = .ok next

structure Schedulable (env : Env) (cronExpr timezone : String) : Prop where
  cron : Parseable env cronExpr
  zone : env.loadLocation timezone = true

section Checks

variable {env : Env}

theorem normalizeJobMode_usable {raw : String} {default m : VgBackupMode}
    (h : normalizeJobMode raw default = .ok m) (hd : Usable default) : Usable m := by
  simp only [normalizeJobMode] at h
  split at h
  · exact Except.ok.inj h ▸ hd
  · split at h
    · exact .inl (Except.ok.inj h).symm
    · split at h
      · exact .inr (Except.ok.inj h).symm
      · simp at h

theorem validateJobSourceType_accepted {source : VgBackupSourceType}
    (h : validateJobSourceType env source = .ok ()) : accepted source = true := by
  cases source with
  | other raw => simp [validateJobSourceType] at h
  | _ => rfl

theorem validateJobRetention_retainable {days : Int} (h : validateJobRetention days = .ok ()) :
    Retainable days := by
  unfold validateJobRetention at h
  split at h
  · simp at h
  · rename_i hn
    unfold Retainable
    omega

structure CreateChecked (env : Env) (req : JobRequest) (mode : VgBackupMode) : Prop where
  mode : Usable mode
  source : accepted req.sourceType = true
  retention : Retainable (createRetention req)
  schedule : validateJobSchedule env req.cronExpr req.timezone = .ok ()

theorem checkCreate_checked {req : JobRequest} {mode : VgBackupMode} {exportFormat : String}
    (h : checkCreate env req = .ok (mode,exportFormat)) : CreateChecked env req mode := by
  obtain ⟨m,hm,h⟩ := except_bind h
  obtain ⟨_,hsource,h⟩ := except_bind h
  obtain ⟨f,-,h⟩ := except_bind h
  obtain ⟨_,hret,h⟩ := except_bind h
  obtain ⟨_,hsched,h⟩ := except_bind h
  obtain ⟨_,-,h⟩ := except_bind h
  obtain ⟨rfl,-⟩ := Prod.mk.inj (Except.ok.inj h)
  exact ⟨normalizeJobMode_usable hm (.inl rfl),validateJobSourceType_accepted hsource,
    validateJobRetention_retainable hret,hsched⟩

structure UpdateChecked (env : Env) (job : VgBackupJob) (req : JobRequest) (mode : VgBackupMode) :
    Prop where
  mode : Usable job.mode → Usable mode
  retention : Retainable req.retentionDays
  schedule : validateJobSchedule env req.cronExpr req.timezone = .ok ()
  path : isPathSource job.sourceType = true →
    blank (keptWhenBlank req.sourcePath job.sourcePath) = false

theorem checkUpdate_checked {job : VgBackupJob} {req : JobRequest} {mode : VgBackupMode}
    {exportFormat : String} (h : checkUpdate env job req = .ok (mode,exportFormat)) :
    UpdateChecked env job req mode := by
  obtain ⟨_,-,h⟩ := except_bind h
  obtain ⟨f,-,h⟩ := except_bind h
  split at h
  · simp at h
  · split at h
    · simp at h
    · split at h
      · simp at h
      · obtain ⟨m,hm,h⟩ := except_bind h
        obtain ⟨_,hret,h⟩ := except_bind h
        obtain ⟨_,hsched,h⟩ := except_bind h
        obtain ⟨_,-,h⟩ := except_bind h
        split at h
        · simp at h
        · rename_i hpath
          obtain ⟨rfl,-⟩ := Prod.mk.inj (Except.ok.inj h)
          refine ⟨normalizeJobMode_usable hm,validateJobRetention_retainable hret,hsched,?_⟩
          intro hsource
          simpa [hsource] using hpath

theorem validatePolicySchedule_ok {cronExpr timezone : String}
    (h : validatePolicySchedule env cronExpr timezone = .ok ()) :
    (cronExpr ≠ "" → Parseable env cronExpr) ∧ env.loadLocation timezone = true := by
  unfold validatePolicySchedule at h
  split at h
  · simp at h
  · rename_i next hnext
    split at h
    · simp at h
    · rename_i hload
      refine ⟨?_,by simpa using hload⟩
      intro hne
      rw [if_neg hne] at hnext
      exact ⟨next,hnext⟩

structure PolicyChecked (env : Env) (p : VgBackupPolicy) : Prop where
  mode : Usable p.mode
  retention : Retainable p.retentionDays
  cron : p.cronExpr ≠ "" → Parseable env p.cronExpr
  zone : env.loadLocation p.timezone = true
  trimmed : ∃ raw, p.timezone = orUTC (Go.trimSpace raw)

theorem validatePolicy_checked {req : PolicyRequest} {p : VgBackupPolicy}
    (h : validatePolicy env req = .ok p) : PolicyChecked env p := by
  unfold validatePolicy at h
  dsimp only at h
  generalize (if Go.toUpper (Go.trimSpace req.strategy) = "" then "FULL"
    else Go.toUpper (Go.trimSpace req.strategy)) = strategy at h
  split at h
  · simp at h
  · split at h
    · simp at h
    · obtain ⟨m,hm,h⟩ := except_bind h
      split at h
      · simp at h
      · rename_i hret
        split at h
        · simp at h
        · split at h
          · simp at h
          · split at h
            · simp at h
            · obtain ⟨_,hsched,h⟩ := except_bind h
              obtain ⟨hcron,hzone⟩ := validatePolicySchedule_ok hsched
              have hp := (Except.ok.inj h).symm
              have hmode : p.mode = m := by rw [hp]
              have hdays : p.retentionDays = req.retentionDays.getD 30 := by rw [hp]
              have hexpr : p.cronExpr = Go.trimSpace req.cronExpr := by rw [hp]
              have htz : p.timezone = orUTC (Go.trimSpace req.timezone) := by rw [hp]
              refine ⟨hmode ▸ normalizeJobMode_usable hm (.inl rfl),?_,hexpr ▸ hcron,htz ▸ hzone,
                req.timezone,htz⟩
              simp only [beyond,Bool.or_eq_true,decide_eq_true_eq] at hret
              rw [hdays]
              unfold Retainable
              omega

end Checks

section Resolve

variable {env : Env} {pid : Nat} {s t : Store} {actor : Actor}

structure ConnectionChosen (s : Store) (actor : Actor) (source : VgBackupSourceType)
    (agentID : UUID) (raw : String) (id : Option UUID) : Prop where
  none : id = none → blank raw = true
  some : ∀ k, id = some k → ∃ c, first s.connections k = some c ∧
    canAccessBackupResource actor c.createdByUserID = true ∧
    (isDatabaseSource source = true → c.agentID = agentID)

theorem resolveConnection_chosen {source : VgBackupSourceType} {agentID : UUID} {raw : String}
    {r : Except String (Option UUID)}
    (h : solo pid (resolveConnection env actor source agentID raw) s = some (t,r)) :
    t = s ∧ ∀ id, r = .ok id → ConnectionChosen s actor source agentID raw id := by
  unfold resolveConnection at h
  split at h
  · rename_i hblank
    obtain ⟨rfl,rfl⟩ := solo_ret_eq h
    refine ⟨rfl,?_⟩
    intro id hid
    obtain rfl := Except.ok.inj hid
    exact ⟨fun _ => hblank,by simp⟩
  · split at h
    · obtain ⟨rfl,rfl⟩ := solo_ret_eq h
      exact ⟨rfl,by simp⟩
    · rename_i parsed _
      rw [solo_query_bind] at h
      split at h
      · obtain ⟨rfl,rfl⟩ := solo_ret_eq h
        exact ⟨rfl,by simp⟩
      · rename_i conn hconn
        split at h
        · obtain ⟨rfl,rfl⟩ := solo_ret_eq h
          exact ⟨rfl,by simp⟩
        · rename_i haccess
          split at h
          · obtain ⟨rfl,rfl⟩ := solo_ret_eq h
            exact ⟨rfl,by simp⟩
          · rename_i hagent
            obtain ⟨rfl,rfl⟩ := solo_ret_eq h
            refine ⟨rfl,?_⟩
            intro id hid
            obtain rfl := Except.ok.inj hid
            refine ⟨by simp,?_⟩
            intro k hk
            obtain rfl := Option.some.inj hk
            refine ⟨conn,hconn,by simpa using haccess,?_⟩
            intro hsource
            simpa [hsource] using hagent

theorem resolvePolicy_chosen {raw : String} {r : Except String (Option UUID)}
    (h : solo pid (resolvePolicy env actor raw) s = some (t,r)) :
    t = s ∧ ∀ k, r = .ok (some k) → ∃ p, first s.policies k = some p ∧
      canAccessBackupResource actor p.createdByUserID = true := by
  unfold resolvePolicy at h
  split at h
  · obtain ⟨rfl,rfl⟩ := solo_ret_eq h
    exact ⟨rfl,by simp⟩
  · split at h
    · obtain ⟨rfl,rfl⟩ := solo_ret_eq h
      exact ⟨rfl,by simp⟩
    · rw [solo_query_bind] at h
      split at h
      · obtain ⟨rfl,rfl⟩ := solo_ret_eq h
        exact ⟨rfl,by simp⟩
      · rename_i p hp
        split at h
        · rename_i haccess
          obtain ⟨rfl,rfl⟩ := solo_ret_eq h
          refine ⟨rfl,?_⟩
          intro k hk
          obtain rfl := Option.some.inj (Except.ok.inj hk)
          exact ⟨p,hp,haccess⟩
        · obtain ⟨rfl,rfl⟩ := solo_ret_eq h
          exact ⟨rfl,by simp⟩

end Resolve

end VgBackup
