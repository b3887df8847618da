import ServerHub.Delivery.Statements

namespace Delivery

open Go Relational Interleave Interleave.Prog

abbrev Job := Prog Stmt

def loadPolicy : Job Policy := do
  match ← perform .policy with
  | none =>
      perform .seedPolicy
      return defaultPolicy
  | some row => return row.ofRow

def loadGroupQuiet (groupID : Nat) : Job QuietInfo := do
  if groupID = 0 then return .off
  else
    let q ← perform (.quiet groupID)
    return q.getD .off

def suppressBy (n : Notice) (reason : Reason) : Job (Except String Outcome) := do
  perform (.touch n reason)
  return .ok ⟨.suppressed,some reason⟩

def Input.complete (i : Input) : Bool := i.key != "" && i.notice.channels != []

def quietFor (env : Env) (n : Notice) (q : QuietInfo) (ts : Int) : Bool :=
  q.inQuiet env ts && !(decide (n.severity = .critical) && q.allowCritical)

def dispatch (env : Env) (i : Input) : Job (Except String Outcome) := do
  let n := i.notice
  if !i.complete then return .error "key and at least one channel are required"
  else
    let ts ← perform .clock
    let pol ← loadPolicy
    if pol.pauseActive ts then suppressBy n .emergencyPause
    else
      let windows ← perform (.windows ts)
      if (maintenanceActive windows i.serverID).isSome then suppressBy n .maintenance
      else
        let quiet ← loadGroupQuiet i.groupID
        if quietFor env n quiet ts then suppressBy n .quietHours
        else
          let receipt ← perform (.claim pol n ts)
          return receipt.map (·.outcome)

def circuitOpen (ch : Channel) (ts : Int) : Job (Option Int) := do
  let row ← perform (.provider ch)
  return (row.bind (·.openedUntil)).filter fun u => u != 0 && decide (ts < u)

def openCircuit (ch : Channel) (ts : Int) : Job Unit := do
  let row ← perform (.provider ch)
  let n := (row.map (·.consecutiveFailures)).getD 0 + 1
  perform (.openCircuit ch n (if circuitThreshold ≤ n then some (ts + circuitOpenFor) else none) ts)

def backoff (attempts : Nat) : Job Int := do
  let d := min (int64 (30 * second * 2 ^ attempts)) (30 * minute)
  let jitter ← perform (.random (d / 2))
  return d / 2 + jitter + second

def fail (r : OutboxRow) (ts : Int) (msg : String) : Job Unit := do
  perform (.recordAttempt r.id false (truncate msg 500) 0)
  if r.attempts + 1 < maxAttempts then
    let delay ← backoff r.attempts
    perform (.resolve r.id (.retry (truncate msg 500) (ts + delay)))
  else perform (.resolve r.id (.failed (truncate msg 500)))

def callProvider (env : Env) (ts : Int) (r : OutboxRow) : Job (Option String) :=
  if r.channel.supported then perform (.send ts r)
  else return some ("unsupported channel " ++ env.quote r.channel.text)

def deliver (env : Env) (ts : Int) (r : OutboxRow) : Job (Option String) := do
  let serr ← callProvider env ts r
  let latency ← perform .elapsed
  match serr with
  | some e =>
      openCircuit r.channel ts
      fail r ts e
      return some e
  | none =>
      perform (.closeCircuit r.channel ts)
      perform (.recordAttempt r.id true (some "") latency)
      perform (.resolve r.id (.sent ts))
      return none

def throttle (budget : Int) (ts : Int) (r : OutboxRow) : Job (Option String) := do
  perform (.resolve r.id (.deferred
    ("rate budget " ++ toString budget ++ "/h reached; coalesced into overflow summary")
    (ts + 15 * minute)))
  let _ ← perform (.overflow r ts)
  return none

def sendOne (env : Env) (pol : Policy) (ts : Int) (r : OutboxRow) : Job (Option String) := do
  match ← circuitOpen r.channel ts with
  | some reopens =>
      perform (.resolve r.id (.deferred ("circuit open until " ++ env.rfc3339 reopens) reopens))
      return none
  | none =>
      let sent ← perform (.sentSince r.channel (ts - hour))
      if pol.budgetFor r.channel ≤ sent then throttle (pol.budgetFor r.channel) ts r
      else deliver env ts r

def sendAll (env : Env) (pol : Policy) (ts : Int) : List OutboxRow → Job (Option String)
  | [] => return none
  | r :: rows => do
      let serr ← sendOne env pol ts r
      let later ← sendAll env pol ts rows
      return serr.or later

def drain (env : Env) : Job (Option String) := do
  let pol ← loadPolicy
  let ts ← perform .clock
  let rows ← perform (.claimDue ts)
  sendAll env pol ts rows

def flushDigests : Job Unit := do
  let ts ← perform .clock
  let batches ← perform (.flushDue ts)
  Prog.each (fun b => do
    let _ ← perform (.insertSummary b ts)
    return ()) batches

def requeueStale : Job Nat := perform .requeueStale

inductive Request where
  | dispatch (i : Input)
  | drain
  | flushDigests
  | requeueStale
deriving DecidableEq

inductive Answer where
  | outcome (r : Except String Outcome)
  | drained (firstErr : Option String)
  | flushed
  | requeued (rows : Nat)

def handle (env : Env) : Request → Job Answer
  | .dispatch i => do
      let r ← dispatch env i
      return .outcome r
  | .drain => do
      let e ← drain env
      return .drained e
  | .flushDigests => do
      flushDigests
      return .flushed
  | .requeueStale => do
      let n ← requeueStale
      return .requeued n

def Store.empty : Store where
  states _ := none
  outbox := .empty
  attempts := []
  providers _ := none
  batches := .empty

def Outside.at (seconds : Nat) : Outside where
  clock := seconds * second
  clock_nonneg := by
    unfold second
    omega
  dbClock := seconds * second
  policy := some defaultPolicy
  windows := []
  quiet _ := none
  refusal := none
  answer := none
  latency := 0
  random := 0
  lockedRow _ := false
  lockedBatch _ := false
  fault _ := false

def Env.utc : Env where
  zone _ := none
  rfc3339 _ := "2026-01-01T00:00:00Z"
  quote s := "\"" ++ s ++ "\""

def Input.alert (key : String) (channels : List String) (isRecovery : Bool) : Input where
  key := key
  severity := "WARNING"
  title := ""
  body := "threshold exceeded"
  channels := channels
  groupID := 0
  serverID := none
  ruleID := 1
  labels := []
  resource := ""
  isRecovery := isRecovery
  cooldownSec := 0
  repeatSec := 0
  maxRepeats := 0
  notifyRecovery := true
  digestMode := "immediate"
  digestIntervalMin := 0
  groupBy := []

def system (env : Env) : System where
  Instr := Stmt
  State := State
  Request := Request
  Answer := Answer
  Env := Empty
  exec _ _ i s := some (i.step s)
  handle := handle env
  env e := nomatch e

theorem exec_noted {env : Env} {N β : Type} {note : (β : Type) → Stmt β → β → Option N} {pid : Nat}
    {x y : Traced State N} {i : Stmt β} {b : β}
    (h : ((system env).watch note).exec pid i x = some (y,b)) :
    y.state.store = (i.effect x.state.now x.state.store).1 ∧
      b = (i.effect x.state.now x.state.store).2 ∧ y.log = record pid x.log (note β i b) := by
  obtain ⟨hx,hlog⟩ := exec_watch h
  have hstep : i.step x.state = (y.state,b) := Option.some.inj hx
  have hstate : (i.step x.state).1 = y.state := congrArg Prod.fst hstep
  have hvalue : (i.step x.state).2 = b := congrArg Prod.snd hstep
  exact ⟨by rw [← hstate]; rfl,by rw [← hvalue]; rfl,hlog⟩

def Job.run {α : Type} (p : Job α) (s : State) : State × α := p.eval Stmt.step s

def State.wait (s : State) (k : Nat) : State := { s with tick := s.tick + k }

def State.policyTicks (s : State) : Nat := if s.now.policy.isNone then 2 else 1

def State.groupQuiet (s : State) (g : Nat) : QuietInfo :=
  if g = 0 then .off else (s.now.quiet g).getD .off

def State.policy (s : State) : Policy := Policy.loaded (s.wait 1).now.policy

def State.gate (env : Env) (s : State) (i : Input) : Option Reason :=
  let ts := s.now.clock
  let checked := (s.wait 1).wait (s.wait 1).policyTicks
  if s.policy.pauseActive ts then some .emergencyPause
  else if (maintenanceActive (checked.now.windows.filter (·.covers ts)) i.serverID).isSome then
    some .maintenance
  else if quietFor env i.notice ((checked.wait 1).groupQuiet i.groupID) ts then some .quietHours
  else none

@[simp] theorem wait_wait (s : State) (k m : Nat) : (s.wait k).wait m = s.wait (k + m) := by
  simp [State.wait,Nat.add_assoc]

section Run

variable {α β : Type}

@[simp] theorem run_ret (a : α) (s : State) : Job.run (.ret a) s = (s,a) := rfl

@[simp] theorem run_perform_bind (i : Stmt β) (f : β → Job α) (s : State) :
    Job.run (perform i >>= f) s = (f (i.step s).2).run (i.step s).1 := rfl

@[simp] theorem run_perform (i : Stmt β) (s : State) : Job.run (perform i) s = i.step s := rfl

theorem run_bind (p : Job β) (f : β → Job α) (s : State) :
    Job.run (p >>= f) s = (f (p.run s).2).run (p.run s).1 := eval_bind p f s

theorem run_clock (p : Job α) (s : State) :
    (p.run s).1.outside = s.outside ∧ s.tick ≤ (p.run s).1.tick := by
  induction p generalizing s with
  | ret a => exact ⟨rfl,Nat.le_refl _⟩
  | step i k ih =>
    obtain ⟨ho,ht⟩ := ih (i.step s).2 (i.step s).1
    exact ⟨ho,Nat.le_trans (Nat.le_succ s.tick) ht⟩

theorem loadPolicy_run (s : State) :
    loadPolicy.run s = (s.wait s.policyTicks,Policy.loaded s.now.policy) := by
  cases h : s.now.policy with
  | none => simp [loadPolicy,Stmt.step,Stmt.effect,h,State.wait,State.policyTicks,Policy.loaded]
  | some row => simp [loadPolicy,Stmt.step,Stmt.effect,h,State.wait,State.policyTicks,Policy.loaded]

theorem loadGroupQuiet_run (g : Nat) (s : State) :
    ∃ k, (loadGroupQuiet g).run s = (s.wait k,s.groupQuiet g) := by
  unfold loadGroupQuiet State.groupQuiet
  split
  · exact ⟨0,rfl⟩
  · exact ⟨1,rfl⟩

end Run

theorem except_bind_ok {ε α β : Type} {x : Except ε α} {f : α → Except ε β} {b : β}
    (h : (x >>= f) = .ok b) : ∃ a, x = .ok a ∧ f a = .ok b := by
  cases x with
  | error e => exact nomatch h
  | ok a => exact ⟨a,rfl,h⟩

def Stmt.InDispatch (n : Notice) : {β : Type} → Stmt β → Prop
  | _, .clock | _, .policy | _, .seedPolicy | _, .windows _ | _, .quiet _ => True
  | _, .touch m _ => m = n
  | _, .claim _ m _ => m = n
  | _, _ => False

section Uses

theorem loadPolicy_uses {P : {β : Type} → Stmt β → Prop} (hpolicy : P .policy) (hseed : P .seedPolicy) :
    loadPolicy.Uses P := by
  refine uses_bind (uses_perform hpolicy) fun row => ?_
  cases row with
  | none => exact ⟨hseed,fun _ => trivial⟩
  | some row => trivial

theorem loadGroupQuiet_uses (n : Notice) (g : Nat) :
    (loadGroupQuiet g).Uses (Stmt.InDispatch n) :=
  uses_ite trivial ⟨trivial,fun _ => trivial⟩

theorem suppressBy_uses (n : Notice) (reason : Reason) :
    (suppressBy n reason).Uses (Stmt.InDispatch n) := ⟨rfl,fun _ => trivial⟩

theorem dispatch_uses (env : Env) (i : Input) :
    (dispatch env i).Uses (Stmt.InDispatch i.notice) := by
  refine uses_ite trivial ?_
  refine uses_bind (uses_perform trivial) fun ts => ?_
  refine uses_bind (loadPolicy_uses trivial trivial) fun pol => ?_
  refine uses_ite (suppressBy_uses _ _) ?_
  refine uses_bind (uses_perform trivial) fun windows => ?_
  refine uses_ite (suppressBy_uses _ _) ?_
  refine uses_bind (loadGroupQuiet_uses _ _) fun quiet => ?_
  have hclaim : (perform (.claim pol i.notice ts) >>= fun receipt =>
      (pure (receipt.map (·.outcome)) : Job (Except String Outcome))).Uses
        (Stmt.InDispatch i.notice) :=
    uses_bind (uses_perform rfl) fun _ => trivial
  refine uses_ite ?_ ?_
  · exact suppressBy_uses _ _
  · exact hclaim

end Uses

section Dispatch

inductive Dispatched (env : Env) (s : State) (i : Input) (t : Store)
    (a : Except String Outcome) : Prop
  | refused (e : String) (hstore : t = s.store) (ha : a = .error e)
  | gated (reason : Reason) (now : Int) (hg : s.gate env i = some reason)
      (hstore : t = touchSuppressed i.notice reason now s.store)
      (ha : a = .ok ⟨.suppressed,some reason⟩)
  | claimed (rc : Receipt) (hg : s.gate env i = none)
      (hclaim : claimAndEnqueue s.policy i.notice s.now.clock s.store = .ok (t,rc))
      (ha : a = .ok rc.outcome)

variable {env : Env} {s : State} {i : Input}

theorem claimed_dispatched {refusal : Option String} (hg : s.gate env i = none) :
    Dispatched env s i (claimed s.policy i.notice s.now.clock refusal s.store).1
      ((claimed s.policy i.notice s.now.clock refusal s.store).2.map (·.outcome)) := by
  obtain ⟨e,he⟩ | ⟨t,rc,hclaim,he⟩ := claimed_cases s.policy i.notice s.now.clock refusal s.store
  · rw [he]
    exact .refused e rfl rfl
  · rw [he]
    exact .claimed rc hg hclaim rfl

theorem suppressBy_dispatched {reason : Reason} {k : Nat} (hg : s.gate env i = some reason) :
    Dispatched env s i ((suppressBy i.notice reason).run (s.wait k)).1.store
      ((suppressBy i.notice reason).run (s.wait k)).2 :=
  .gated reason (s.wait k).now.dbClock hg rfl rfl

theorem dispatch_dispatched (env : Env) (i : Input) (s : State) :
    Dispatched env s i ((dispatch env i).run s).1.store ((dispatch env i).run s).2 := by
  simp only [dispatch]
  split
  · exact .refused _ rfl rfl
  · have hclock : Stmt.clock.step s = (s.wait 1,s.now.clock) := rfl
    rw [run_perform_bind,hclock,run_bind,loadPolicy_run]
    split
    · rename_i hp
      have hg : s.gate env i = some .emergencyPause := if_pos hp
      rw [wait_wait]
      exact suppressBy_dispatched hg
    · rename_i hp
      have hwindows (u : State) : (Stmt.windows s.now.clock).step u =
          (u.wait 1,u.now.windows.filter (·.covers s.now.clock)) := rfl
      rw [run_perform_bind,hwindows]
      split
      · rename_i hw
        have hg : s.gate env i = some .maintenance := (if_neg hp).trans (if_pos hw)
        rw [wait_wait,wait_wait]
        exact suppressBy_dispatched hg
      · rename_i hw
        obtain ⟨m,hq⟩ := loadGroupQuiet_run i.groupID (((s.wait 1).wait (s.wait 1).policyTicks).wait 1)
        rw [run_bind,hq]
        split
        · rename_i hin
          have hg : s.gate env i = some .quietHours :=
            ((if_neg hp).trans (if_neg hw)).trans (if_pos hin)
          rw [wait_wait,wait_wait,wait_wait]
          exact suppressBy_dispatched hg
        · rename_i hout
          have hg : s.gate env i = none := ((if_neg hp).trans (if_neg hw)).trans (if_neg hout)
          exact claimed_dispatched hg

end Dispatch

end Delivery
