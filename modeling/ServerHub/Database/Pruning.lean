import Mathlib.Data.List.Dedup
import ServerHub.Database.Immutability
import ServerHub.Relational.Sweep

namespace Database

open Go Relational Delivery

-- a variable that is set to nothing counts as not set; what is no number is 0
def appLogRetentionDays (env : Option String) : Int :=
  let days := (atoi ((env.filter (· ≠ "")).getD "90")).getD 0
  if days < 30 ∨ 3650 < days then 90 else days

-- what the database decides: the time of a statement and the order of rows with one timestamp, by the
-- batches left after it
structure Session where
  clock : Nat → Int
  sorted : Nat → List Row → List Row
  sorted_perm : ∀ n rows, (sorted n rows).Perm rows
  sorted_asc : ∀ n rows, (sorted n rows).Pairwise fun a b => a.timestamp ≤ b.timestamp

section Source

variable (p : Session) (cut : Int)

def expired (r : Row) : Bool := decide (r.timestamp < cut)

-- a row is named by its key, which is unique as its ctid is
def batch (left : Nat) (rows : List Row) : Statement Row :=
  let ctids := ((p.sorted left (rows.filter (expired cut))).take batchSize).map Row.id
  .delete fun r => decide (r.id ∈ ctids)

def prune : Nat → List Row → List Row × Nat × Option String
  | 0, rows => (rows,0,none)
  | left + 1, rows =>
      match (guards .appLogs).execute (p.clock left) rows (batch p cut left rows) with
      | none => (rows,0,some "Table app_logs rows newer than 30 days cannot be deleted")
      | some kept =>
          let n := rows.length - kept.length
          if n < batchSize then (kept,n,none)
          else
            let (out,total,err) := prune left kept
            (out,n + total,err)

def cleanupAppLogs (retentionDays now : Int) (rows : List Row) : List Row × Nat × Option String :=
  if retentionDays < 1 then (rows,0,some "retention must be at least 1 day")
  else prune p (cutoff now retentionDays) maxBatchesPerRun rows

end Source

theorem appLogRetentionDays_floor (env : Option String) :
    appLogsPruneFloorDays ≤ appLogRetentionDays env := by
  unfold appLogRetentionDays appLogsPruneFloorDays
  dsimp only
  split <;> omega

section Batches

variable {p : Session} {cut : Int} {rows : List Row}

theorem batch_sweeps (left : Nat) (hkeys : (rows.map Row.id).Nodup)
    (hold : ∀ r, expired cut r = true → appLogsGuard (p.clock left) r = false) :
    ∃ kept, (guards .appLogs).execute (p.clock left) rows (batch p cut left rows) = some kept ∧
      Sweeps (expired cut) rows kept (min batchSize (rows.countP (expired cut))) := by
  let picked := (p.sorted left (rows.filter (expired cut))).take batchSize
  let doomed (r : Row) : Bool := decide (r.id ∈ picked.map Row.id)
  have hrows : rows.Nodup := hkeys.of_map
  have hmem : ∀ r ∈ picked, r ∈ rows ∧ expired cut r = true := fun r hr =>
    List.mem_filter.mp ((p.sorted_perm left _).mem_iff.mp (List.mem_of_mem_take hr))
  have hdoomed : ∀ r ∈ rows, doomed r = true ↔ r ∈ picked := by
    intro r hr
    rw [decide_eq_true_eq]
    refine ⟨fun hin => ?_,fun hin => List.mem_map_of_mem hin⟩
    obtain ⟨x,hx,hid⟩ := List.mem_map.mp hin
    rwa [List.inj_on_of_nodup_map hkeys hr (hmem x hx).1 hid.symm]
  have hexpired : ∀ r ∈ rows, doomed r = true → expired cut r = true := fun r hr h =>
    (hmem r ((hdoomed r hr).mp h)).2
  have hpermitted : ¬ (rows.any fun r => doomed r && appLogsGuard (p.clock left) r) = true := by
    intro hany
    obtain ⟨r,hr,hboth⟩ := List.any_eq_true.mp hany
    rw [Bool.and_eq_true] at hboth
    cases (hold r (hexpired r hr hboth.1)).symm.trans hboth.2
  have hperm : (rows.filter doomed).Perm picked := by
    have hnodup : picked.Nodup :=
      ((p.sorted_perm left _).nodup_iff.mpr (hrows.filter _)).sublist (List.take_sublist _ _)
    refine (List.perm_ext_iff_of_nodup (hrows.filter _) hnodup).mpr fun r => ?_
    rw [List.mem_filter]
    exact ⟨fun h => (hdoomed r h.1).mp h.2,fun h => ⟨(hmem r h).1,(hdoomed r (hmem r h).1).mpr h⟩⟩
  refine ⟨rows.filter fun r => !doomed r,if_neg hpermitted,doomed,hexpired,rfl,?_⟩
  rw [List.countP_eq_length_filter (p := doomed),hperm.length_eq,List.length_take,
    (p.sorted_perm left _).length_eq,List.countP_eq_length_filter]

theorem prune_sweeps (left : Nat) (hkeys : (rows.map Row.id).Nodup)
    (hold : ∀ i < left, ∀ r, expired cut r = true → appLogsGuard (p.clock i) r = false) : ∃ out total,
      prune p cut left rows = (out,total,none) ∧ Sweeps (expired cut) rows out total ∧
        (rows.countP (expired cut) ≤ left * batchSize → out.countP (expired cut) = 0) := by
  induction left generalizing rows with
  | zero => exact ⟨rows,0,rfl,sweeps_refl,fun h => by omega⟩
  | succ left ih =>
    obtain ⟨kept,hexecute,hswept⟩ := batch_sweeps left hkeys (hold left (Nat.lt_succ_self left))
    have hlength := hswept.length
    have hleft := hswept.count
    have hn : rows.length - kept.length = min batchSize (rows.countP (expired cut)) := by omega
    simp only [prune,hexecute,hn]
    by_cases hlast : min batchSize (rows.countP (expired cut)) < batchSize
    · rw [if_pos hlast]
      exact ⟨_,_,rfl,hswept,fun _ => by omega⟩
    · rw [if_neg hlast]
      obtain ⟨out,total,hrest,hsweeps,hdone⟩ := ih (hkeys.sublist (hswept.sublist.map Row.id))
        fun i hi => hold i (Nat.lt_succ_of_lt hi)
      rw [hrest]
      refine ⟨_,_,rfl,hswept.trans hsweeps,fun hcount => hdone ?_⟩
      rw [Nat.succ_mul] at hcount
      omega

theorem prune_unrefused {env : Option String} {now : Int}
    (hclock : ∀ left < maxBatchesPerRun, now ≤ p.clock left)
    (hkeys : (rows.map Row.id).Nodup) : ∃ out total,
      cleanupAppLogs p (appLogRetentionDays env) now rows = (out,total,none) ∧
        total + out.length = rows.length ∧ out.Sublist rows ∧
        (∀ r ∈ rows, cutoff now (appLogRetentionDays env) ≤ r.timestamp → r ∈ out) ∧
        (rows.countP (expired (cutoff now (appLogRetentionDays env))) ≤ maxBatchesPerRun * batchSize →
          ∀ r ∈ out, cutoff now (appLogRetentionDays env) ≤ r.timestamp) := by
  have hfloor := appLogRetentionDays_floor env
  have hold : ∀ left < maxBatchesPerRun, ∀ r, expired (cutoff now (appLogRetentionDays env)) r = true →
      appLogsGuard (p.clock left) r = false := by
    intro left hleft r hr
    have hlate := of_decide_eq_true hr
    have hnow := hclock left hleft
    have hdays : appLogsPruneFloorDays * fullDay ≤ appLogRetentionDays env * fullDay :=
      Int.mul_le_mul_of_nonneg_right hfloor (by decide)
    refine decide_eq_false ?_
    unfold cutoff at hlate
    omega
  have hpositive : ¬ appLogRetentionDays env < 1 := by
    unfold appLogsPruneFloorDays at hfloor
    omega
  obtain ⟨out,total,hprune,hsweeps,hdone⟩ := prune_sweeps maxBatchesPerRun hkeys hold
  refine ⟨out,total,(if_neg hpositive).trans hprune,hsweeps.length,hsweeps.sublist,
    fun r hr hcut => hsweeps.kept hr (by simpa [expired] using hcut),fun hcount r hr => ?_⟩
  have hnone := List.countP_eq_zero.mp (hdone hcount) r hr
  simpa [expired] using hnone

end Batches

section Sample

def plainSession (now : Int) : Session where
  clock := fun left => now + (maxBatchesPerRun - left)
  sorted := fun _ => List.insertionSort fun a b => a.timestamp ≤ b.timestamp
  sorted_perm := fun _ rows => List.perm_insertionSort _ rows
  sorted_asc := fun _ rows => by
    have htotal : Std.Total fun a b : Row => a.timestamp ≤ b.timestamp :=
      ⟨fun a b => Int.le_total a.timestamp b.timestamp⟩
    have htrans : IsTrans Row fun a b => a.timestamp ≤ b.timestamp := ⟨fun _ _ _ => Int.le_trans⟩
    exact List.pairwise_insertionSort _ rows

-- a setting below the floor counts as ninety days: the first row is older than that
def twoLogs : List Row := [⟨"1",5 * fullDay,[]⟩,⟨"2",99 * fullDay,[]⟩]

theorem two_logs_pruned : ∃ out total,
    cleanupAppLogs (plainSession (100 * fullDay)) (appLogRetentionDays (some "7")) (100 * fullDay) twoLogs =
        (out,total,none) ∧ ⟨"2",99 * fullDay,[]⟩ ∈ out ∧ ⟨"1",5 * fullDay,[]⟩ ∉ out := by
  have hdays : appLogRetentionDays (some "7") = 90 := by decide +kernel
  have hclock : ∀ left < maxBatchesPerRun, 100 * fullDay ≤ (plainSession (100 * fullDay)).clock left := by
    intro left hleft
    show 100 * fullDay ≤ 100 * fullDay + ((maxBatchesPerRun : Int) - left)
    omega
  obtain ⟨out,total,hprune,-,-,hkept,hgone⟩ := prune_unrefused hclock
    (show (twoLogs.map Row.id).Nodup by decide)
  have hfew := hgone (List.countP_le_length.trans (by decide))
  rw [hdays] at hkept hfew
  refine ⟨out,total,hprune,hkept _ (by decide) (by decide),fun hin => ?_⟩
  exact absurd (hfew _ hin) (by decide)

end Sample

end Database
