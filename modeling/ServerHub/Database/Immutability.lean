import ServerHub.Delivery.Retention
import ServerHub.Relational.Guarded

namespace Database

open Go Relational Delivery

inductive LogTable where
  | auditLogs
  | appLogs
  | deployments
  | backups
  | operations
  | serverSnapshots
  | other (name : String)
deriving DecidableEq

structure Row where
  id : String
  timestamp : Int
  columns : List (String × String)
deriving DecidableEq

def appLogsPruneFloorDays : Int := 30

-- serverhub_app_logs_guard for a DELETE; the session's time zone is UTC
def appLogsGuard (currentTimestamp : Int) (old : Row) : Bool :=
  decide (old.timestamp ≥ currentTimestamp - appLogsPruneFloorDays * fullDay)

def guards : LogTable → Guard Row
  | .auditLogs => ⟨fun _ _ => true,fun _ _ => true⟩
  | .appLogs => ⟨fun _ _ => true,appLogsGuard⟩
  | .deployments | .backups | .operations | .serverSnapshots => ⟨fun _ _ => false,fun _ _ => true⟩
  | .other _ => ⟨fun _ _ => false,fun _ _ => false⟩

abbrev Tables := LogTable → List Row

abbrev Committed := Transaction LogTable Row

def LogTable.history : LogTable → Bool
  | .deployments | .backups | .operations | .serverSnapshots => true
  | _ => false

def KeepsKeys (k : LogTable) (ts : List Committed) : Prop :=
  ∀ t ∈ ts, ∀ p f, (k,.update p f) ∈ t.statements → ∀ r : Row, (f r).id = r.id

def Inserts (k : LogTable) (ts : List Committed) (r : Row) : Prop :=
  ∃ t ∈ ts, ∃ added, (k,.insert added) ∈ t.statements ∧ r ∈ added

-- what no history of transactions does to the logs
structure Tamperproof (before after : Tables) (ts : List Committed) : Prop where
  audit : before .auditLogs <+: after .auditLogs
  recent : ∀ r ∈ before .appLogs, (∀ t ∈ ts, t.begun ≤ r.timestamp + appLogsPruneFloorDays * fullDay) →
    r ∈ after .appLogs
  unwritten : ∀ r ∈ after .appLogs, r ∈ before .appLogs ∨ Inserts .appLogs ts r
  history : ∀ k, k.history = true → KeepsKeys k ts →
    (before k).map Row.id <+: (after k).map Row.id

section Histories

variable {ts : List Committed} (db : Tables)

theorem audit_grows : db .auditLogs <+: replay guards ts db .auditLogs := by
  have hfrozen : ∀ now r, (guards .auditLogs).update now r = true := fun _ _ => rfl
  have hrows : (db .auditLogs).map id <+: (replay guards ts db .auditLogs).map id := by
    refine replay_keeps (P := fun rows new => rows.map id <+: new.map id)
      (fun _ => List.prefix_refl _) (fun _ _ _ h k => h.trans k) db fun t _ stmt _ rows new => ?_
    refine execute_grows (fun _ => rfl) fun _ _ _ r hr => ?_
    cases (hfrozen t.begun r).symm.trans hr
  simpa using hrows

theorem recent_kept {r : Row} (hr : r ∈ db .appLogs)
    (hrecent : ∀ t ∈ ts, t.begun ≤ r.timestamp + appLogsPruneFloorDays * fullDay) :
    r ∈ replay guards ts db .appLogs := by
  refine replay_keeps (k := .appLogs) (P := fun rows new => r ∈ rows → r ∈ new) (fun _ h => h)
    (fun _ _ _ h k hr => k (h hr)) db (fun t ht stmt _ rows new h hin => ?_) hr
  have hold := hrecent t ht
  refine execute_kept rfl (decide_eq_true ?_) hin h
  omega

theorem appLogs_unwritten {r : Row} (hr : r ∈ replay guards ts db .appLogs) :
    r ∈ db .appLogs ∨ Inserts .appLogs ts r := by
  refine replay_keeps (k := .appLogs) (P := fun rows new => r ∈ new → r ∈ rows ∨ Inserts .appLogs ts r)
    (fun _ h => .inl h) (fun _ _ _ h k hr => ?_) db (fun t ht stmt hstmt rows new h hin => ?_) hr
  · rcases k hr with hr | hr
    · exact h hr
    · exact .inr hr
  · rcases execute_unwritten (fun _ => rfl) hin h with hin | ⟨added,rfl,hin⟩
    · exact .inl hin
    · exact .inr ⟨t,ht,added,hstmt,hin⟩

theorem history_grows {k : LogTable} (hk : k.history = true) (hkeys : KeepsKeys k ts) :
    (db k).map Row.id <+: (replay guards ts db k).map Row.id := by
  have hdelete : ∀ now r, (guards k).delete now r = true := by
    cases k <;> first | exact fun _ _ => rfl | cases hk
  refine replay_keeps (P := fun rows new => rows.map Row.id <+: new.map Row.id)
    (fun _ => List.prefix_refl _) (fun _ _ _ h k => h.trans k) db fun t ht stmt hstmt rows new => ?_
  refine execute_grows (hdelete t.begun) ?_
  rintro p f rfl r -
  exact hkeys t ht p f hstmt r

theorem logs_tamperproof : Tamperproof db (replay guards ts db) ts where
  audit := audit_grows db
  recent _ hr hrecent := recent_kept db hr hrecent
  unwritten _ hr := appLogs_unwritten db hr
  history _ hk hkeys := history_grows db hk hkeys

end Histories

end Database
