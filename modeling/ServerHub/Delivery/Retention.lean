import ServerHub.Delivery.Statements
import Mathlib.Data.List.Basic

namespace Delivery

open Go Relational Interleave

def batchSize : Nat := 5000

def maxBatchesPerRun : Nat := 120

def fullDay : Int := 24 * hour

def cutoff (now retentionDays : Int) : Int := now - retentionDays * fullDay

inductive PrunedTable where
  | deliveryAttempts
  | deliveryOutbox
  | digestBatches
  | deliveryState
deriving DecidableEq

-- one call: its two readings of the clock, the outbox's created_at column, the keys of delivery_state
-- as a scan meets them, and the statements that fail, by the batches left
structure Sweep where
  retentionDays : Int
  now : Int
  digestNow : Int
  createdAt : Nat → Int
  keys : List String
  fails : PrunedTable → Nat → Bool

def OutboxStatus.terminal : OutboxStatus → Bool
  | .sent | .failed => true
  | _ => false

-- WHERE .. ORDER BY .. LIMIT BatchSize
def oldest {α : Type} (old : α → Bool) (age : α → Int) (rows : List α) : List α :=
  (orderBy (fun a b => decide (age a ≤ age b)) (rows.filter old)).take batchSize

namespace Sweep

variable (w : Sweep)

def cutoff : Int := Delivery.cutoff w.now w.retentionDays

def digestCutoff : Int := Delivery.cutoff w.digestNow 30

def oldAttempt (a : DeliveryAttempt) : Bool := decide (a.createdAt < w.cutoff)

def oldOutbox (r : OutboxRow) : Bool := r.status.terminal && decide (w.createdAt r.id < w.cutoff)

def oldBatch (b : DigestBatch) : Bool :=
  decide (b.status = .flushed) && decide (b.windowEnd < w.digestCutoff)

def oldState (row : DeliveryState) : Bool :=
  decide (row.lastState = .resolved) && decide (row.updatedAt < w.cutoff)

def batch : PrunedTable → Store → Store × Nat
  | .deliveryAttempts, s =>
      let rows := oldest w.oldAttempt (·.createdAt) s.attempts
      ({ s with attempts := s.attempts.diff rows },rows.length)
  | .deliveryOutbox, s =>
      let rows := oldest w.oldOutbox (fun r => w.createdAt r.id) s.outbox.rows
      ({ s with outbox := s.outbox.remove fun r => rows.any (·.id == r.id) },rows.length)
  | .digestBatches, s =>
      let rows := oldest w.oldBatch (·.windowEnd) s.batches.rows
      ({ s with batches := s.batches.remove fun b => rows.any (·.id == b.id) },rows.length)
  | .deliveryState, s =>
      let keys := oldest (fun k => (s.states k).any w.oldState)
        (fun k => ((s.states k).map (·.updatedAt)).getD 0) w.keys
      ({ s with states := fun k => if k ∈ keys then none else s.states k },keys.length)

def deleteBatches (table : PrunedTable) : Nat → Store → Store × Nat
  | 0, s => (s,0)
  | left + 1, s =>
      if w.fails table left then (s,0)
      else
        let (t,n) := w.batch table s
        if n < batchSize then (t,n)
        else
          let (u,total) := deleteBatches table left t
          (u,n + total)

def steps : List PrunedTable := [.deliveryAttempts,.deliveryOutbox,.digestBatches,.deliveryState]

def deleteAll : List PrunedTable → Store → Store × Nat
  | [], s => (s,0)
  | table :: tables, s =>
      let (t,n) := w.deleteBatches table maxBatchesPerRun s
      let (u,total) := deleteAll tables t
      (u,n + total)

end Sweep

def cleanupDeliveries (w : Sweep) (s : Store) : Store × Except String Nat :=
  if w.retentionDays < 1 then (s,.error "retention must be at least 1 day")
  else ((w.deleteAll Sweep.steps s).1,.ok (w.deleteAll Sweep.steps s).2)

theorem mem_oldest {α : Type} {old : α → Bool} {age : α → Int} {rows : List α} {a : α}
    (h : a ∈ oldest old age rows) : a ∈ rows ∧ old a = true :=
  List.mem_filter.mp (mem_orderBy.mp (List.mem_of_mem_take h))

section Loop

variable {w : Sweep} {P : Store → Prop} {s : Store}

theorem deleteBatches_keeps {table : PrunedTable} (h : ∀ s, P s → P (w.batch table s).1) (left : Nat)
    (hs : P s) : P (w.deleteBatches table left s).1 := by
  induction left generalizing s with
  | zero => exact hs
  | succ left ih =>
    simp only [Sweep.deleteBatches]
    split
    · exact hs
    · split
      · exact h s hs
      · exact ih (h s hs)

theorem deleteAll_keeps (h : ∀ table s, P s → P (w.batch table s).1) (tables : List PrunedTable)
    (hs : P s) : P (w.deleteAll tables s).1 := by
  induction tables generalizing s with
  | nil => exact hs
  | cons table tables ih => exact ih (deleteBatches_keeps (h table) maxBatchesPerRun hs)

theorem cleanupDeliveries_keeps (h : ∀ table s, P s → P (w.batch table s).1) (hs : P s) :
    P (cleanupDeliveries w s).1 := by
  unfold cleanupDeliveries
  split
  · exact hs
  · exact deleteAll_keeps h Sweep.steps hs

end Loop

theorem batch_live {w : Sweep} {s : Store} {key : String}
    (h : ∀ r, s.states key = some r → r.lastState ≠ .resolved) (table : PrunedTable) :
    (w.batch table s).1.states key = s.states key := by
  cases table with
  | deliveryState =>
    refine if_neg fun hk => ?_
    obtain ⟨row,hrow,hold⟩ := (Option.any_eq_true ..).mp (mem_oldest hk).2
    have hboth : row.lastState = .resolved ∧ row.updatedAt < w.cutoff := by
      simpa [Sweep.oldState] using hold
    exact h row hrow hboth.1
  | _ => rfl

theorem cleanupDeliveries_live {w : Sweep} {s : Store} {key : String}
    (h : ∀ r, s.states key = some r → r.lastState ≠ .resolved) :
    (cleanupDeliveries w s).1.states key = s.states key := by
  refine cleanupDeliveries_keeps (P := fun t => t.states key = s.states key) ?_ rfl
  intro table t ht
  exact (batch_live (fun r hr => h r (ht ▸ hr)) table).trans ht

end Delivery
