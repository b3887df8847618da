import ServerHub.VgBackup.Executable
import ServerHub.VgBackup.PolicyDetach
import ServerHub.VgBackup.Visibility

namespace VgBackup

open Relational

-- a policy without the columns that the database and the handler fill in
def VgBackupPolicy.settings (p : VgBackupPolicy) : VgBackupPolicy :=
  { p with toVgBase := VgBase.zero, createdByUserID := 0 }

section Validated

variable {env : Env} {req : PolicyRequest} {p : VgBackupPolicy}

theorem validatePolicy_result (h : validatePolicy env req = .ok p) :
    p.settings = p ∧ p.strategy = "FULL" ∧ p.retentionDays = req.retentionDays.getD 30 ∧
      p.retryDelaySeconds = req.retryDelaySeconds.getD 300 := by
  unfold validatePolicy at h
  dsimp only at h
  generalize (if Go.toUpper (Go.trimSpace req.strategy) = "" then "FULL"
    else Go.toUpper (Go.trimSpace req.strategy)) = strategy at h
  split at h
  · simp at h
  split at h
  · simp at h
  rename_i hstrategy
  obtain ⟨m,-,h⟩ := except_bind h
  split at h
  · simp at h
  split at h
  · simp at h
  split at h
  · simp at h
  split at h
  · simp at h
  obtain ⟨_,-,h⟩ := except_bind h
  obtain rfl := Except.ok.inj h
  exact ⟨rfl,by simpa using hstrategy,rfl,rfl⟩

-- the column defaults of an INSERT replace two zeros, the flags are written again afterwards
theorem settings_created (h : validatePolicy env req = .ok p) (base : VgBase) (user : Nat) :
    ({ p.stored with
        toVgBase := base, createdByUserID := user, enabled := p.enabled, encrypted := p.encrypted
        verificationEnabled := p.verificationEnabled } : VgBackupPolicy).settings =
      { p with
        retentionDays := if p.retentionDays = 0 then 30 else p.retentionDays
        retryDelaySeconds := if p.retryDelaySeconds = 0 then 300 else p.retryDelaySeconds } := by
  obtain ⟨hsettings,hstrategy,-,-⟩ := validatePolicy_result h
  have hchecked := validatePolicy_checked h
  obtain ⟨raw,hraw⟩ := hchecked.trimmed
  have hzone : orUTC p.timezone = p.timezone := by rw [hraw,orUTC_orUTC]
  have hmode : p.mode ≠ .other "" := usable_ne hchecked.mode
  have hname : p.strategy ≠ "" := by
    rw [hstrategy]
    decide
  rw [← hsettings]
  unfold VgBackupPolicy.stored VgBackupPolicy.settings
  rw [hzone,if_neg hname,if_neg hmode]

theorem default_harmless {asked : Option Int} {d : Int} (hd : d ≠ 0) :
    (if asked.getD d = 0 then d else asked.getD d) = asked.getD d ↔ asked ≠ some 0 := by
  cases asked with
  | none => simp [hd]
  | some n =>
    by_cases hn : n = 0
    · simp [hn,hd]
    · simp [hn]

theorem settings_survive_iff (h : validatePolicy env req = .ok p) (base : VgBase) (user : Nat) :
    ({ p.stored with
        toVgBase := base, createdByUserID := user, enabled := p.enabled, encrypted := p.encrypted
        verificationEnabled := p.verificationEnabled } : VgBackupPolicy).settings = p ↔
      req.retentionDays ≠ some 0 ∧ req.retryDelaySeconds ≠ some 0 := by
  obtain ⟨-,-,hdays,hdelay⟩ := validatePolicy_result h
  rw [settings_created h,← default_harmless (d := 30) (by decide),
    ← default_harmless (d := 300) (by decide),← hdays,← hdelay]
  constructor
  · intro he
    exact ⟨congrArg VgBackupPolicy.retentionDays he,congrArg VgBackupPolicy.retryDelaySeconds he⟩
  · rintro ⟨hd,hr⟩
    rw [hd,hr]

end Validated

section Requests

variable {env : Env} {pid : Nat} {actor : Actor} {s : Store} {req : PolicyRequest}
  {param : String} {want p : VgBackupPolicy}

def VgBackupPolicy.created (want : VgBackupPolicy) (user : Nat) (id : UUID) (now : Time) :
    VgBackupPolicy :=
  { want.stored with
    toVgBase := ⟨id,now,now,none⟩, createdByUserID := user, enabled := want.enabled
    encrypted := want.encrypted, verificationEnabled := want.verificationEnabled }

theorem first_insert {α : Type} [Row α] {t : Table α} {r : α} {id : UUID} (hid : key r = id)
    (hfree : t.find id = none) (hlive : live r = true) : first (t.insert r) id = some r := by
  subst hid
  exact first_of_live (Table.mem_insert_self hfree) hlive

theorem first_insertPolicy (hfresh : s.policies.find s.nextID = none) (p : VgBackupPolicy) :
    first (s.insertPolicy p).policies s.nextID = some { p.stored with
      id := s.nextID, createdAt := s.clock, updatedAt := s.clock, deletedAt := none } :=
  first_insert rfl hfresh rfl

theorem first_updatePolicies {id : UUID} {f : VgBackupPolicy → VgBackupPolicy}
    {hf : ∀ p, (f p).id = p.id} (hp : first s.policies id = some p) (hlive : live (f p) = true) :
    first (s.updatePolicies id f hf).policies id = some (f p) := by
  obtain ⟨hfind,hold⟩ := first_some hp
  have hid : p.id = id := first_id hp
  rw [first,Store.updatePolicies,Table.find_modify,hfind]
  simp [hold,hid,hlive]

variable (pid actor) in
theorem createPolicy_stores (h : validatePolicy env req = .ok want)
    (hfresh : s.policies.find s.nextID = none) :
    ∃ t, solo pid (createPolicy env actor req) s =
        some (t,⟨201,.policy (some (want.created actor.userID s.nextID s.clock))⟩) ∧
      first t.policies s.nextID = some (want.created actor.userID s.nextID s.clock) := by
  have hinserted := first_insertPolicy hfresh { want with createdByUserID := actor.userID }
  have hrow : first ((JobWrite.flagPolicy s.nextID want.enabled want.encrypted
      want.verificationEnabled).exec (s.insertPolicy { want with
        createdByUserID := actor.userID })).1.policies s.nextID =
      some (want.created actor.userID s.nextID s.clock) := first_updatePolicies hinserted rfl
  refine ⟨_,?_,hrow⟩
  unfold createPolicy
  rw [h]
  show some _ = some _
  rw [← hrow]
  rfl

variable (pid) in
theorem updatePolicy_stores (h : validatePolicy env req = .ok want)
    (hparam : env.parseUUID param = some p.id) (hp : first s.policies p.id = some p)
    (haccess : canAccessBackupResource actor p.createdByUserID = true) :
    ∃ u, solo pid (updatePolicy env actor param req) s =
        some (u,⟨200,.policy (some (want.revised s.clock p))⟩) ∧
      first u.policies p.id = some (want.revised s.clock p) := by
  have hrow : first ((JobWrite.updatePolicy p.id want).exec s).1.policies p.id =
      some (want.revised s.clock p) := first_updatePolicies hp (first_some hp).2
  refine ⟨_,?_,hrow⟩
  unfold updatePolicy
  rw [hparam]
  show solo pid (query (.firstPolicy p.id) >>= _) s = _
  rw [solo_query_bind]
  simp only [Select.eval,hp,haccess,h]
  show some _ = some _
  rw [← hrow]
  rfl

theorem policy_stored_iff (h : validatePolicy env req = .ok want)
    (hfresh : s.policies.find s.nextID = none) :
    ∃ t row, solo pid (createPolicy env actor req) s = some (t,⟨201,.policy (some row)⟩) ∧
      first t.policies row.id = some row ∧
      (row.settings = want.settings ∧
        (∀ param p, env.parseUUID param = some p.id → first s.policies p.id = some p →
          canAccessBackupResource actor p.createdByUserID = true →
          ∃ u revised, solo pid (updatePolicy env actor param req) s =
              some (u,⟨200,.policy (some revised)⟩) ∧
            first u.policies p.id = some revised ∧ revised.settings = row.settings) ↔
        req.retentionDays ≠ some 0 ∧ req.retryDelaySeconds ≠ some 0) := by
  obtain ⟨t,ht,hrow⟩ := createPolicy_stores pid actor h hfresh
  have hsettings : want.settings = want := (validatePolicy_result h).1
  have hiff := settings_survive_iff h ⟨s.nextID,s.clock,s.clock,none⟩ actor.userID
  refine ⟨t,_,ht,hrow,?_⟩
  rw [hsettings]
  constructor
  · intro hall
    exact hiff.mp hall.1
  · intro hcond
    refine ⟨hiff.mpr hcond,?_⟩
    intro param p hparam hp haccess
    obtain ⟨u,hu,hrevised⟩ := updatePolicy_stores pid h hparam hp haccess
    refine ⟨u,_,hu,hrevised,?_⟩
    exact hsettings.trans (hiff.mpr hcond).symm

end Requests

def plainPolicy : PolicyRequest where
  name := "nightly"
  strategy := ""
  cronExpr := ""
  timezone := ""
  enabled := some false
  mode := ""
  encrypted := none
  retentionDays := some 7
  verificationEnabled := some false
  maxRetries := none
  retryDelaySeconds := none
  slaTargetMinutes := none
  rpoTargetMinutes := none
  rtoTargetMinutes := none

def plainResult : VgBackupPolicy :=
  { VgBackupPolicy.zero with
    name := "nightly", strategy := "FULL", timezone := "UTC", mode := .normal, retentionDays := 7
    retryDelaySeconds := 300 }

theorem plain_policy_stored :
    ∃ t row, solo 0 (createPolicy sampleEnv ⟨.admin,1⟩ plainPolicy) retryStore =
        some (t,⟨201,.policy (some row)⟩) ∧
      first t.policies row.id = some row ∧
      (row.settings = plainResult.settings ∧
        (∀ param p, sampleEnv.parseUUID param = some p.id → first retryStore.policies p.id = some p →
          canAccessBackupResource ⟨.admin,1⟩ p.createdByUserID = true →
          ∃ u revised, solo 0 (updatePolicy sampleEnv ⟨.admin,1⟩ param plainPolicy) retryStore =
              some (u,⟨200,.policy (some revised)⟩) ∧
            first u.policies p.id = some revised ∧ revised.settings = row.settings) ↔
        plainPolicy.retentionDays ≠ some 0 ∧ plainPolicy.retryDelaySeconds ≠ some 0) :=
  policy_stored_iff (by decide) rfl

-- retention 0 keeps backups for good; the new policy deletes them after 30 days
def keepForever : PolicyRequest := { plainPolicy with retentionDays := some 0 }

theorem kept_forever_lost :
    validatePolicy sampleEnv keepForever = .ok { plainResult with retentionDays := 0 } ∧
      (∃ t row, solo 0 (createPolicy sampleEnv ⟨.admin,1⟩ keepForever) retryStore =
          some (t,⟨201,.policy (some row)⟩) ∧ first t.policies row.id = some row ∧
          row.retentionDays = 30) ∧
      ∃ u revised, solo 0 (updatePolicy sampleEnv ⟨.admin,1⟩ policyParam keepForever) retryStore =
          some (u,⟨200,.policy (some revised)⟩) ∧ first u.policies 9 = some revised ∧
          revised.retentionDays = 0 :=
  ⟨by decide,⟨_,_,rfl,rfl,rfl⟩,⟨_,_,rfl,rfl,rfl⟩⟩

end VgBackup
