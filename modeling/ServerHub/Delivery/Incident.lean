import ServerHub.Delivery.Pipeline
import Mathlib.Data.Int.ConditionallyCompleteOrder
import Mathlib.Order.ConditionallyCompleteLattice.Basic

namespace Delivery

open Go Relational Interleave Interleave.Prog

section Row

variable {n : Notice} {ts : Int} {s t : Store}

theorem enqueue_states {chs : List Channel} (h : enqueue n ts chs s = .ok t) :
    t.states = s.states := by
  induction chs generalizing s t with
  | nil =>
    simp only [enqueue,Except.ok.injEq] at h
    rw [h]
  | cons ch chs ih =>
    simp only [enqueue] at h
    split at h
    · simp at h
    · rename_i d _
      exact (ih h).trans rfl

theorem upsertBatch_states (s : Store) (e : Entry) (keep : Bool) :
    (s.upsertBatch e keep).1.states = s.states := by
  unfold Store.upsertBatch
  split
  · rfl
  · split <;> rfl

theorem appendDigest_states {chs : List Channel} {hits : List (Channel × Option Nat)}
    (h : appendDigest n ts chs s = .ok (t,hits)) : t.states = s.states := by
  induction chs generalizing s t hits with
  | nil =>
    simp only [appendDigest,Except.ok.injEq,Prod.mk.injEq] at h
    rw [h.1]
  | cons ch chs ih =>
    simp only [appendDigest] at h
    split at h
    · simp at h
    · rename_i e he
      obtain ⟨⟨u,rest⟩,hrest,hu⟩ := except_bind_ok h
      have hstates : u.states = s.states := (ih hrest).trans (upsertBatch_states s e false)
      simp only [pure,Except.pure,Except.ok.injEq,Prod.mk.injEq] at hu
      rw [← hu.1,hstates]

structure Written (n : Notice) (ts : Int) (l : Locals) (state : IncidentState) (notified : Bool)
    (row : DeliveryState) : Prop where
  lastState : row.lastState = state
  lastNotifiedAt : row.lastNotifiedAt = if notified then ts else l.lastNotified
  repeatCount : row.repeatCount = l.repeats state notified

theorem setState_written {l : Locals} {state : IncidentState} {notified : Bool}
    {reason : Option Reason} {suppr : Int} (h : l.hasRow = true → (s.states n.input.key).isSome) :
    ∃ row, (setState n ts l state notified reason suppr s).states n.input.key = some row ∧
      Written n ts l state notified row := by
  cases hrow : l.hasRow with
  | false =>
    refine ⟨stateRow n ts l state notified reason suppr (if notified then ts else 0),?_,⟨rfl,rfl,rfl⟩⟩
    simp [setState,hrow]
  | true =>
    obtain ⟨r,hr⟩ := Option.isSome_iff_exists.mp (h hrow)
    refine ⟨stateRow n ts l state notified reason suppr r.firstNotifiedAt,?_,⟨rfl,rfl,rfl⟩⟩
    simp [setState,hrow,hr]

end Row

inductive Moves (c : Cadence) (ts : Int) (old : Option DeliveryState) :
    Bool → Outcome → DeliveryState → Prop
  | muted {row : DeliveryState} (hrow : row.lastState = .resolved) :
      Moves c ts old true ⟨.suppressed,some .recoveryMuted⟩ row
  | recovered {r row : DeliveryState} {o : Outcome} (hold : old = some r)
      (hr : r.lastState = .firing) (ho : o.action ≠ .suppressed)
      (hrow : row.lastState = .resolved) :
      Moves c ts old true o row
  | held {r row : DeliveryState} {reason : Reason} (hold : old = some r)
      (hr : r.lastState = .firing) (hheld : (Locals.scan old).held c ts = some reason)
      (hrow : row.lastState = .firing) (hlast : row.lastNotifiedAt = r.lastNotifiedAt)
      (hcount : row.repeatCount = r.repeatCount) :
      Moves c ts old false ⟨.suppressed,some reason⟩ row
  | opened {row : DeliveryState} {o : Outcome}
      (hold : ∀ r, old = some r → r.lastState ≠ .firing) (ho : o.action ≠ .suppressed)
      (hrow : row.lastState = .firing) (hlast : row.lastNotifiedAt = ts)
      (hcount : (∀ r, old = some r → r.lastState = .blank → r.repeatCount = 0) →
        row.repeatCount = 0) :
      Moves c ts old false o row
  | repeated {r row : DeliveryState} {o : Outcome} (hold : old = some r)
      (hr : r.lastState = .firing) (hheld : (Locals.scan old).held c ts = none)
      (ho : o.action ≠ .suppressed) (hrow : row.lastState = .firing)
      (hlast : row.lastNotifiedAt = ts) (hcount : row.repeatCount = r.repeatCount + 1) :
      Moves c ts old false o row

section Claim

variable {pol : Policy} {n : Notice} {ts : Int} {s t : Store} {rc : Receipt}

theorem scan_hasRow {old : Option DeliveryState} :
    (Locals.scan old).hasRow = true → old.isSome := by
  cases old with
  | none => exact fun h => nomatch h
  | some r => exact fun _ => rfl

theorem notified_written {l : Locals} {state : IncidentState} {b : Bool}
    (hl : l.hasRow = true → (s.states n.input.key).isSome)
    (h : (if b then digested n ts l state s else queued n ts l state s) = .ok (t,rc)) :
    (∃ row, t.states n.input.key = some row ∧ Written n ts l state true row) ∧
      rc.outcome.action ≠ .suppressed := by
  split at h
  · obtain ⟨⟨u,hits⟩,hu,h⟩ := except_bind_ok h
    simp only [pure,Except.pure,Except.ok.injEq,Prod.mk.injEq] at h
    obtain ⟨rfl,rfl⟩ := h
    exact ⟨setState_written (appendDigest_states hu ▸ hl),by simp⟩
  · obtain ⟨u,hu,h⟩ := except_bind_ok h
    simp only [pure,Except.pure,Except.ok.injEq,Prod.mk.injEq] at h
    obtain ⟨rfl,rfl⟩ := h
    exact ⟨setState_written (enqueue_states hu ▸ hl),by simp⟩

theorem suppressed_written {l : Locals} {state : IncidentState} {reason : Reason}
    (hl : l.hasRow = true → (s.states n.input.key).isSome)
    (h : suppressed n ts l state reason s = .ok (t,rc)) :
    (∃ row, t.states n.input.key = some row ∧ Written n ts l state false row) ∧
      rc.outcome = ⟨.suppressed,some reason⟩ := by
  simp only [suppressed,Except.ok.injEq,Prod.mk.injEq] at h
  obtain ⟨rfl,rfl⟩ := h
  exact ⟨setState_written hl,rfl⟩

theorem recover_moves (h : recover pol n ts (.scan (s.states n.input.key)) s = .ok (t,rc)) :
    ∃ row, t.states n.input.key = some row ∧
      Moves (cadence pol n) ts (s.states n.input.key) true rc.outcome row := by
  simp only [recover] at h
  split at h
  · obtain ⟨⟨row,hrow,hw⟩,ho⟩ := suppressed_written scan_hasRow h
    exact ⟨row,hrow,ho ▸ .muted hw.lastState⟩
  · rename_i hm
    have hfiring : (Locals.scan (s.states n.input.key)).lastState = .firing := by
      by_contra hne
      simp [hne] at hm
    obtain ⟨⟨row,hrow,hw⟩,ho⟩ := notified_written
      (b := decide (n.input.digestMode = "digest")) scan_hasRow (by simpa using h)
    cases hold : s.states n.input.key with
    | none => simp [hold,Locals.scan] at hfiring
    | some r =>
      rw [hold] at hfiring
      exact ⟨row,hrow,.recovered rfl hfiring ho hw.lastState⟩

theorem retriggers_iff {old : Option DeliveryState} :
    (Locals.scan old).retriggers = true ↔ ∃ r, old = some r ∧ r.lastState = .resolved := by
  cases old with
  | none => simp [Locals.scan,Locals.retriggers]
  | some r =>
    simp only [Option.some.injEq,exists_eq_left']
    exact decide_eq_true_iff

theorem notify_written {l : Locals} (hl : l.hasRow = true → (s.states n.input.key).isSome)
    (h : notify n ts l s = .ok (t,rc)) :
    (∃ row, t.states n.input.key = some row ∧ Written n ts l .firing true row) ∧
      rc.outcome.action ≠ .suppressed :=
  notified_written (b := decide (n.input.digestMode = "digest" ∧ n.severity ≠ .critical))
    hl (by simpa [notify] using h)

theorem fire_moves (h : fire pol n ts (.scan (s.states n.input.key)) s = .ok (t,rc)) :
    ∃ row, t.states n.input.key = some row ∧
      Moves (cadence pol n) ts (s.states n.input.key) false rc.outcome row := by
  simp only [fire] at h
  split at h
  · rename_i hre
    obtain ⟨r,hold,hr⟩ := retriggers_iff.mp hre
    obtain ⟨⟨row,hrow,hw⟩,ho⟩ := notify_written (by simp [Locals.reopened]) h
    refine ⟨row,hrow,.opened ?_ ho hw.lastState hw.lastNotifiedAt fun _ => hw.repeatCount⟩
    intro r' hr'
    rw [hold,Option.some.injEq] at hr'
    simp [← hr',hr]
  · rename_i hre
    split at h
    · rename_i reason hheld
      obtain ⟨⟨row,hrow,hw⟩,ho⟩ := suppressed_written scan_hasRow h
      cases hold : s.states n.input.key with
      | none => simp [hold,Locals.scan,Locals.held] at hheld
      | some r =>
        rw [hold] at hheld hw
        have hfiring : r.lastState = .firing := by
          by_contra hne
          simp [Locals.scan,Locals.held,hne] at hheld
        exact ⟨row,hrow,ho ▸ .held rfl hfiring hheld hw.lastState hw.lastNotifiedAt hw.repeatCount⟩
    · rename_i hheld
      obtain ⟨⟨row,hrow,hw⟩,ho⟩ := notify_written scan_hasRow h
      by_cases hfiring : ∃ r, s.states n.input.key = some r ∧ r.lastState = .firing
      · obtain ⟨r,hold,hr⟩ := hfiring
        rw [hold] at hheld hw ⊢
        refine ⟨row,hrow,.repeated rfl hr hheld ho hw.lastState hw.lastNotifiedAt ?_⟩
        simp [hw.repeatCount,Locals.repeats,Locals.scan,hr]
      · refine ⟨row,hrow,.opened ?_ ho hw.lastState hw.lastNotifiedAt ?_⟩
        · intro r hold hr
          exact hfiring ⟨r,hold,hr⟩
        · intro hblank
          rw [hw.repeatCount]
          cases hold : s.states n.input.key with
          | none => rfl
          | some r =>
            cases hst : r.lastState with
            | blank => simp [Locals.repeats,Locals.scan,hst,hblank r hold hst]
            | firing => exact absurd ⟨r,hold,hst⟩ hfiring
            | resolved => exact absurd (retriggers_iff.mpr ⟨r,hold,hst⟩) hre

theorem claim_moves (h : claimAndEnqueue pol n ts s = .ok (t,rc)) :
    ∃ row, t.states n.input.key = some row ∧
      Moves (cadence pol n) ts (s.states n.input.key) n.input.isRecovery rc.outcome row := by
  simp only [claimAndEnqueue] at h
  cases hrec : n.input.isRecovery with
  | true =>
    rw [hrec,if_pos rfl] at h
    exact recover_moves h
  | false =>
    rw [hrec,if_neg (by simp)] at h
    exact fire_moves h

end Claim

section Dispatch

def Touched (old new : Option DeliveryState) : Prop :=
  match old with
  | none => ∃ row, new = some row ∧ row.lastState = .blank ∧ row.repeatCount = 0
  | some r => ∃ row, new = some row ∧ row.lastState = r.lastState ∧
      row.lastNotifiedAt = r.lastNotifiedAt ∧ row.repeatCount = r.repeatCount

theorem touchSuppressed_touched (n : Notice) (reason : Reason) (now : Int) (s : Store) :
    Touched (s.states n.input.key) ((touchSuppressed n reason now s).states n.input.key) := by
  simp only [touchSuppressed,Function.update_self]
  cases hold : s.states n.input.key with
  | none => exact ⟨_,rfl,rfl,rfl⟩
  | some r => exact ⟨_,rfl,rfl,rfl,rfl⟩

inductive Answered (env : Env) (s : State) (i : Input) :
    Option DeliveryState → Except String Outcome → Prop
  | refused (e : String) : Answered env s i (s.store.states i.key) (.error e)
  | gated {row : Option DeliveryState} {reason : Reason} (hg : s.gate env i = some reason)
      (h : Touched (s.store.states i.key) row) :
      Answered env s i row (.ok ⟨.suppressed,some reason⟩)
  | claimed {row : DeliveryState} {o : Outcome} (hg : s.gate env i = none)
      (h : Moves (cadence s.policy i.notice) s.now.clock (s.store.states i.key) i.isRecovery o row) :
      Answered env s i (some row) (.ok o)

theorem dispatch_answered (env : Env) (i : Input) (s : State) :
    Answered env s i (((dispatch env i).run s).1.store.states i.key) ((dispatch env i).run s).2 := by
  cases dispatch_dispatched env i s with
  | refused e hstore ha =>
    rw [hstore,ha]
    exact .refused e
  | gated reason now hg hstore ha =>
    rw [hstore,ha]
    exact .gated hg (touchSuppressed_touched i.notice reason now s.store)
  | claimed rc hg hclaim ha =>
    obtain ⟨row,hrow,hm⟩ := claim_moves hclaim
    have hkey : ((dispatch env i).run s).1.store.states i.key = some row := hrow
    rw [hkey,ha]
    exact .claimed hg hm

end Dispatch

end Delivery
