import ServerHub.Delivery.Pipeline

namespace Delivery

open Go Relational Interleave Interleave.Prog

structure Sent where
  ts : Int
  id : Nat
  channel : Channel
  ok : Bool
deriving DecidableEq

inductive Mark where
  | sent (x : Sent)
  | overflowed (id : Nat) (hit : Option Nat)
  | summarised (batch : Nat) (row : Option Nat)
deriving DecidableEq

def Mark.call : Mark → Option Sent
  | .sent x => some x
  | _ => none

def calls (log : List Mark) : List Sent := log.filterMap Mark.call

namespace Stmt

def marks : {β : Type} → Stmt β → β → Option Mark
  | _, .send ts r, b => some (.sent ⟨ts,r.id,r.channel,b.isNone⟩)
  | _, .overflow r _, hit => some (.overflowed r.id hit)
  | _, .insertSummary b _, row => some (.summarised b.id row)
  | _, _, _ => none

def observe {β : Type} (i : Stmt β) (x : State × List Mark) : (State × List Mark) × β :=
  (((i.step x.1).1,(i.marks (i.step x.1).2).toList ++ x.2),(i.step x.1).2)

def Silent : {β : Type} → Stmt β → Prop
  | _, .send _ _ | _, .overflow _ _ | _, .insertSummary _ _ => False
  | _, _ => True

theorem marks_silent {β : Type} {i : Stmt β} (h : i.Silent) (b : β) : i.marks b = none := by
  cases i <;> first | rfl | exact h.elim

end Stmt

def Job.observe {α : Type} (p : Job α) (x : State × List Mark) : (State × List Mark) × α :=
  p.eval Stmt.observe x

section Observe

variable {α β : Type}

@[simp] theorem observe_ret (a : α) (x : State × List Mark) : Job.observe (.ret a) x = (x,a) := rfl

@[simp] theorem observe_perform_bind (i : Stmt β) (f : β → Job α) (x : State × List Mark) :
    Job.observe (perform i >>= f) x = (f (i.observe x).2).observe (i.observe x).1 := rfl

theorem observe_bind (p : Job β) (f : β → Job α) (x : State × List Mark) :
    Job.observe (p >>= f) x = (f (p.observe x).2).observe (p.observe x).1 := eval_bind p f x

theorem observe_run (p : Job α) (x : State × List Mark) :
    (p.observe x).1.1 = (p.run x.1).1 ∧ (p.observe x).2 = (p.run x.1).2 := by
  induction p generalizing x with
  | ret a => exact ⟨rfl,rfl⟩
  | step i k ih => exact ih (i.step x.1).2 (i.observe x).1

theorem observe_silent {p : Job α} (hp : p.Uses Stmt.Silent) (x : State × List Mark) :
    p.observe x = (((p.run x.1).1,x.2),(p.run x.1).2) := by
  induction p generalizing x with
  | ret a => rfl
  | step i k ih =>
    have hlog : (i.observe x).1 = ((i.step x.1).1,x.2) := by
      simp only [Stmt.observe,Stmt.marks_silent hp.1]
      rfl
    show (k (i.step x.1).2).eval Stmt.observe (i.observe x).1 = _
    rw [hlog]
    exact ih (i.step x.1).2 (hp.2 _) ((i.step x.1).1,x.2)

end Observe

section Silent

theorem silent_inDispatch {n : Notice} {β : Type} (i : Stmt β) (h : i.InDispatch n) : i.Silent := by
  cases i <;> first | exact h.elim | trivial

theorem silent_dispatch (env : Env) (i : Input) : (dispatch env i).Uses Stmt.Silent :=
  uses_mono silent_inDispatch (dispatch_uses env i)

end Silent

namespace Store

def breaker (s : Store) (ch : Channel) (ts : Int) : Option Int :=
  ((s.providers ch).bind (·.openedUntil)).filter fun u => u != 0 && decide (ts < u)

def failures (s : Store) (ch : Channel) : Int :=
  ((s.providers ch).map (·.consecutiveFailures)).getD 0

def trip (s : Store) (ch : Channel) (n ts : Int) : Store :=
  s.openCircuit ch (n + 1) (if circuitThreshold ≤ n + 1 then some (ts + circuitOpenFor) else none) ts

end Store

def Ran (may : Fallible → Prop) (k : Fallible) (s t u : Store) : Prop := u = t ∨ may k ∧ u = s

def State.may (s : State) (k : Fallible) : Prop := ∃ tick, (s.outside tick).fault k = true

section Ran

variable {may : Fallible → Prop} {k : Fallible} {s t u : Store}

theorem ran_ite {lost : Bool} (h : lost = true → may k) : Ran may k s t (if lost then s else t) := by
  cases lost with
  | true => exact .inr ⟨h rfl,rfl⟩
  | false => exact .inl rfl

theorem Ran.done (h : Ran may k s t u) (hk : ¬ may k) : u = t := h.resolve_right fun hf => hk hf.1

theorem Ran.elim {P : Store → Prop} (h : Ran may k s t u) (hs : P s) (ht : P t) : P u := by
  rcases h with rfl | ⟨-,rfl⟩
  · exact ht
  · exact hs

theorem Ran.same {γ : Type} {f : Store → γ} (h : Ran may k s t u) (ht : f t = f s) : f u = f s :=
  h.elim (P := fun v => f v = f s) rfl ht

end Ran

inductive Failed (r : OutboxRow) (e : Option String) : Resolution → Prop
  | retry (t : Int) (h : r.attempts + 1 < maxAttempts) : Failed r e (.retry e t)
  | failed (h : maxAttempts ≤ r.attempts + 1) : Failed r e (.failed e)

def attempted (ts : Int) (r : OutboxRow) (ok : Bool) : List Mark :=
  if r.channel.supported then [.sent ⟨ts,r.id,r.channel,ok⟩] else []

structure Passed (may : Fallible → Prop) (pol : Policy) (ts : Int) (r : OutboxRow) (s : Store) :
    Prop where
  closed : s.breaker r.channel ts = none ∨ may .providerState
  unspent : ↑(s.sentSince r.channel (ts - hour)) < pol.budgetFor r.channel ∨ may .sentCount

inductive Handled (may : Fallible → Prop) (pol : Policy) (ts : Int) (r : OutboxRow) (s : Store) :
    Store → List Mark → Prop
  | skipped (msg : String) {reopens : Int} {t : Store}
      (hopen : s.breaker r.channel ts = some reopens)
      (ht : Ran may .rowUpdate s (s.resolve r.id (.deferred msg reopens)) t) :
      Handled may pol ts r s t []
  | throttled (msg : String) {t : Store}
      (ht : Ran may .rowUpdate s (s.resolve r.id (.deferred msg (ts + 15 * minute))) t) :
      Handled may pol ts r s (t.recordOverflow r ts).1 [.overflowed r.id (t.recordOverflow r ts).2]
  | refused {x : Resolution} (e : Option String) (n now : Int) {u v t : Store}
      (hpassed : Passed may pol ts r s) (hx : Failed r e x)
      (hn : n = s.failures r.channel ∨ may .providerState)
      (hu : Ran may .openCircuit s (s.trip r.channel n ts) u)
      (hv : Ran may .attempt u (u.recordAttempt r.id false e 0 now) v)
      (ht : Ran may .rowUpdate v (v.resolve r.id x) t) :
      Handled may pol ts r s t (attempted ts r false)
  | delivered (latency now : Int) {u v t : Store} (hsup : r.channel.supported = true)
      (hpassed : Passed may pol ts r s)
      (hu : Ran may .closeCircuit s (s.closeCircuit r.channel ts) u)
      (hv : Ran may .attempt u (u.recordAttempt r.id true (some "") latency now) v)
      (ht : Ran may .rowUpdate v (v.resolve r.id (.sent ts)) t) :
      Handled may pol ts r s t (attempted ts r true)

theorem observe_may {α : Type} (p : Job α) (x : State × List Mark) :
    (p.observe x).1.1.may = x.1.may := by
  unfold State.may
  rw [(observe_run p x).1,(run_clock p x.1).1]

section SendOne

variable {env : Env} {pol : Policy} {ts : Int} {r : OutboxRow}

theorem fail_observe (r : OutboxRow) (ts : Int) (msg : String) (x : State × List Mark) :
    ∃ res now v, Failed r (truncate msg 500) res ∧
      ((fail r ts msg).observe x).1.2 = x.2 ∧
      Ran x.1.may .attempt x.1.store
        (x.1.store.recordAttempt r.id false (truncate msg 500) 0 now) v ∧
      Ran x.1.may .rowUpdate v (v.resolve r.id res) ((fail r ts msg).observe x).1.1.store := by
  unfold fail
  rw [observe_perform_bind]
  split
  · rename_i h
    exact ⟨_,_,_,.retry _ h,rfl,ran_ite fun hf => ⟨x.1.tick,hf⟩,ran_ite fun hf => ⟨_,hf⟩⟩
  · rename_i h
    exact ⟨_,_,_,.failed (Nat.le_of_not_lt h),rfl,ran_ite fun hf => ⟨x.1.tick,hf⟩,
      ran_ite fun hf => ⟨_,hf⟩⟩

theorem openCircuit_observe (ch : Channel) (ts : Int) (x : State × List Mark) :
    ∃ n, (n = x.1.store.failures ch ∨ x.1.may .providerState) ∧
      ((openCircuit ch ts).observe x).1.2 = x.2 ∧
      Ran x.1.may .openCircuit x.1.store (x.1.store.trip ch n ts)
        ((openCircuit ch ts).observe x).1.1.store := by
  unfold openCircuit
  rw [observe_perform_bind]
  refine ⟨((((Stmt.provider ch).observe x).2).map (·.consecutiveFailures)).getD 0,?_,rfl,
    ran_ite fun hf => ⟨_,hf⟩⟩
  cases hf : x.1.now.fault .providerState with
  | true => exact .inr ⟨_,hf⟩
  | false => exact .inl (by simp [Stmt.observe,Stmt.step,Stmt.effect,hf,Store.failures])

theorem callProvider_observe (env : Env) (ts : Int) (r : OutboxRow) (x : State × List Mark) :
    ((callProvider env ts r).observe x).1.1.store = x.1.store ∧
      ((callProvider env ts r).observe x).1.1.outside = x.1.outside ∧
      ((callProvider env ts r).observe x).1.2 =
        attempted ts r ((callProvider env ts r).observe x).2.isNone ++ x.2 ∧
      (((callProvider env ts r).observe x).2 = none → r.channel.supported = true) := by
  unfold callProvider attempted
  split
  · rename_i hs
    exact ⟨rfl,rfl,rfl,fun _ => hs⟩
  · exact ⟨rfl,rfl,rfl,fun h => by cases h⟩

theorem deliver_handled {x : State × List Mark} (hpassed : Passed x.1.may pol ts r x.1.store) :
    ∃ sent, ((deliver env ts r).observe x).1.2 = sent ++ x.2 ∧
      Handled x.1.may pol ts r x.1.store ((deliver env ts r).observe x).1.1.store sent := by
  obtain ⟨hstore,houtside,hlog,hsup⟩ := callProvider_observe env ts r x
  simp only [deliver]
  rw [observe_bind]
  generalize hy : (callProvider env ts r).observe x = y at hstore houtside hlog hsup ⊢
  obtain ⟨⟨⟨store,tick,outside⟩,log⟩,serr⟩ := y
  simp only at hstore houtside hlog hsup
  subst hstore houtside hlog
  cases serr with
  | none =>
    exact ⟨attempted ts r true,rfl,.delivered _ _ (hsup rfl) hpassed (ran_ite fun hf => ⟨_,hf⟩)
      (ran_ite fun hf => ⟨_,hf⟩) (ran_ite fun hf => ⟨_,hf⟩)⟩
  | some e =>
    obtain ⟨n,hn,hsame,hu⟩ := openCircuit_observe r.channel ts
      (⟨x.1.store,tick + 1,x.1.outside⟩,attempted ts r false ++ x.2)
    obtain ⟨res,now,v,hres,hsent,hv,ht⟩ := fail_observe r ts e
      ((openCircuit r.channel ts).observe
        (⟨x.1.store,tick + 1,x.1.outside⟩,attempted ts r false ++ x.2)).1
    rw [observe_may] at hv ht
    simp only [observe_bind (openCircuit r.channel ts),observe_bind (fail r ts e),
      observe_perform_bind,pure_eq,observe_ret]
    exact ⟨attempted ts r false,hsent.trans hsame,
      .refused (truncate e 500) n now hpassed hres hn hu hv ht⟩

theorem throttle_handled (pol : Policy) (ts : Int) (r : OutboxRow) (b : Int)
    (x : State × List Mark) :
    ∃ sent, ((throttle b ts r).observe x).1.2 = sent ++ x.2 ∧
      Handled x.1.may pol ts r x.1.store ((throttle b ts r).observe x).1.1.store sent :=
  ⟨_,rfl,.throttled _ (ran_ite fun hf => ⟨_,hf⟩)⟩

theorem sendOne_handled (env : Env) (pol : Policy) (ts : Int) (r : OutboxRow)
    (x : State × List Mark) :
    ∃ sent, ((sendOne env pol ts r).observe x).1.2 = sent ++ x.2 ∧
      Handled x.1.may pol ts r x.1.store ((sendOne env pol ts r).observe x).1.1.store sent := by
  have hcircuit : (circuitOpen r.channel ts).observe x = ((x.1.wait 1,x.2),
      if x.1.now.fault .providerState then none else x.1.store.breaker r.channel ts) := by
    cases hf : x.1.now.fault .providerState <;>
      simp [circuitOpen,Stmt.observe,Stmt.marks,Stmt.step,Stmt.effect,hf,State.wait,Store.breaker]
  simp only [sendOne]
  rw [observe_bind,hcircuit]
  cases hopen : if x.1.now.fault .providerState then none
      else x.1.store.breaker r.channel ts with
  | some reopens =>
    have hbreaker : x.1.store.breaker r.channel ts = some reopens := by
      cases hf : x.1.now.fault .providerState <;> simp_all
    exact ⟨[],rfl,.skipped _ hbreaker (ran_ite fun hf => ⟨_,hf⟩)⟩
  | none =>
    have hclosed : x.1.store.breaker r.channel ts = none ∨ x.1.may .providerState := by
      cases hf : x.1.now.fault .providerState with
      | true => exact .inr ⟨_,hf⟩
      | false => exact .inl (by simpa [hf] using hopen)
    obtain ⟨n,hcount,hn⟩ : ∃ n, (Stmt.sentSince r.channel (ts - hour)).observe (x.1.wait 1,x.2) =
        ((x.1.wait 2,x.2),n) ∧
        (n = x.1.store.sentSince r.channel (ts - hour) ∨ x.1.may .sentCount) := by
      refine ⟨_,rfl,?_⟩
      cases hf : (x.1.wait 1).now.fault .sentCount with
      | true => exact .inr ⟨_,hf⟩
      | false => exact .inl (if_neg (by simp [hf]))
    simp only [observe_perform_bind,hcount]
    split
    · exact throttle_handled pol ts r _ (x.1.wait 2,x.2)
    · rename_i hspent
      have hunspent : ↑(x.1.store.sentSince r.channel (ts - hour)) < pol.budgetFor r.channel ∨
          x.1.may .sentCount := by
        rcases hn with rfl | hlost
        · exact .inl (Int.not_le.mp hspent)
        · exact .inr hlost
      exact deliver_handled (x := (x.1.wait 2,x.2)) ⟨hclosed,hunspent⟩

end SendOne

inductive HandledAll (may : Fallible → Prop) (pol : Policy) (ts : Int) :
    List OutboxRow → Store → Store → List Mark → Prop
  | nil (s : Store) : HandledAll may pol ts [] s s []
  | cons {r : OutboxRow} {rows : List OutboxRow} {s t u : Store} {first later : List Mark}
      (h : Handled may pol ts r s t first) (hs : HandledAll may pol ts rows t u later) :
      HandledAll may pol ts (r :: rows) s u (later ++ first)

theorem sendAll_handled (env : Env) (pol : Policy) (ts : Int) (rows : List OutboxRow)
    (x : State × List Mark) :
    ∃ sent, ((sendAll env pol ts rows).observe x).1.2 = sent ++ x.2 ∧
      HandledAll x.1.may pol ts rows x.1.store ((sendAll env pol ts rows).observe x).1.1.store
        sent := by
  induction rows generalizing x with
  | nil => exact ⟨[],rfl,.nil _⟩
  | cons r rows ih =>
    obtain ⟨first,hfirst,hr⟩ := sendOne_handled env pol ts r x
    obtain ⟨later,hlater,hrows⟩ := ih ((sendOne env pol ts r).observe x).1
    rw [observe_may] at hrows
    simp only [sendAll,observe_bind,pure_eq,observe_ret]
    exact ⟨later ++ first,by rw [hlater,hfirst,List.append_assoc],.cons hr hrows⟩

structure Drained (s : State) (t : Store) (sent : List Mark) : Prop where
  intro ::
  handled : ∃ (pol : Policy) (ts : Int) (locked : Nat → Bool) (u : Nat),
    pol = Policy.loaded (s.outside u).policy ∧ 0 ≤ ts ∧
      HandledAll s.may pol ts (s.store.due locked ts)
        (s.store.markSending (s.store.due locked ts)) t sent

theorem drain_drained (env : Env) (x : State × List Mark) :
    ∃ sent, ((drain env).observe x).1.2 = sent ++ x.2 ∧
      Drained x.1 ((drain env).observe x).1.1.store sent := by
  simp only [drain]
  rw [observe_bind,observe_silent (loadPolicy_uses trivial trivial),loadPolicy_run]
  simp only [observe_perform_bind]
  obtain ⟨sent,hsent,hall⟩ := sendAll_handled env (Policy.loaded x.1.now.policy)
    (x.1.wait x.1.policyTicks).now.clock
    (x.1.store.due ((x.1.wait x.1.policyTicks).wait 1).now.lockedRow
      (x.1.wait x.1.policyTicks).now.clock)
    (⟨x.1.store.markSending (x.1.store.due ((x.1.wait x.1.policyTicks).wait 1).now.lockedRow
      (x.1.wait x.1.policyTicks).now.clock),x.1.tick + x.1.policyTicks + 1 + 1,x.1.outside⟩,x.2)
  exact ⟨sent,hsent,⟨_,_,_,x.1.tick,rfl,(x.1.wait x.1.policyTicks).now.clock_nonneg,hall⟩⟩

def Store.insertSummaries (s : Store) (ts : Int) (bs : List DigestBatch) : Store :=
  bs.foldl (fun s b => (s.insertSummary b ts).1) s

def Mark.batch : Mark → Option Nat
  | .summarised b _ => some b
  | _ => none

def Summaries (bs : List DigestBatch) (sent : List Mark) : Prop :=
  sent.map Mark.batch = (bs.map fun b => some b.id).reverse

theorem insertSummaries_observe (ts : Int) (bs : List DigestBatch) (x : State × List Mark) :
    let y := (Job.observe (Prog.each (fun b => do
      let _ ← perform (.insertSummary b ts)
      return ()) bs) x).1
    y.1.store = x.1.store.insertSummaries ts bs ∧
      ∃ sent, y.2 = sent ++ x.2 ∧ Summaries bs sent := by
  induction bs generalizing x with
  | nil => exact ⟨rfl,[],rfl,rfl⟩
  | cons b bs ih =>
    obtain ⟨hstore,sent,hsent,hall⟩ := ih ((Stmt.insertSummary b ts).observe x).1
    refine ⟨hstore,sent ++ [.summarised b.id (x.1.store.insertSummary b ts).2],?_,?_⟩
    · rw [List.append_assoc]
      exact hsent
    · rw [Summaries,List.map_append,hall]
      simp only [List.map_cons,List.reverse_cons]
      rfl

theorem flushDigests_observe (x : State × List Mark) :
    ∃ locked ts sent, (flushDigests.observe x).1.1.store =
        (x.1.store.markFlushed (x.1.store.dueBatches locked ts)).insertSummaries ts
          (x.1.store.dueBatches locked ts) ∧
      (flushDigests.observe x).1.2 = sent ++ x.2 ∧ Summaries (x.1.store.dueBatches locked ts) sent := by
  obtain ⟨hstore,sent,hsent,hall⟩ := insertSummaries_observe x.1.now.clock
    (x.1.store.dueBatches (x.1.wait 1).now.lockedBatch x.1.now.clock)
    (⟨x.1.store.markFlushed (x.1.store.dueBatches (x.1.wait 1).now.lockedBatch x.1.now.clock),
      x.1.tick + 1 + 1,x.1.outside⟩,x.2)
  exact ⟨_,_,sent,hstore,hsent,hall⟩

inductive Served (env : Env) (s : State) : Request → Store → List Mark → Prop
  | dispatch {i : Input} {t : Store} {a : Except String Outcome} (h : Dispatched env s i t a) :
      Served env s (.dispatch i) t []
  | drain {t : Store} {sent : List Mark} (h : Drained s t sent) : Served env s .drain t sent
  | flushDigests (locked : Nat → Bool) (ts : Int) {sent : List Mark}
      (h : Summaries (s.store.dueBatches locked ts) sent) :
      Served env s .flushDigests ((s.store.markFlushed (s.store.dueBatches locked ts)).insertSummaries
        ts (s.store.dueBatches locked ts)) sent
  | requeueStale : Served env s .requeueStale s.store.requeue []

def serveRequest (env : Env) (x : State × List Mark) (r : Request) : State × List Mark :=
  ((handle env r).observe x).1

def serveAll (env : Env) (rs : List Request) (x : State × List Mark) : State × List Mark :=
  rs.foldl (serveRequest env) x

theorem serveRequest_served (env : Env) (x : State × List Mark) (r : Request) :
    ∃ sent, (serveRequest env x r).2 = sent ++ x.2 ∧
      Served env x.1 r (serveRequest env x r).1.store sent := by
  cases r with
  | dispatch i =>
    have h : serveRequest env x (.dispatch i) = ((dispatch env i).observe x).1 := by
      simp only [serveRequest,handle,observe_bind,pure_eq,observe_ret]
    rw [h,observe_silent (silent_dispatch env i)]
    exact ⟨[],rfl,.dispatch (dispatch_dispatched env i x.1)⟩
  | drain =>
    obtain ⟨sent,hsent,hd⟩ := drain_drained env x
    have h : serveRequest env x .drain = ((drain env).observe x).1 := by
      simp only [serveRequest,handle,observe_bind,pure_eq,observe_ret]
    rw [h]
    exact ⟨sent,hsent,.drain hd⟩
  | flushDigests =>
    have h : serveRequest env x .flushDigests = (flushDigests.observe x).1 := by
      simp only [serveRequest,handle,observe_bind,pure_eq,observe_ret]
    obtain ⟨locked,ts,sent,hstore,hsent,hall⟩ := flushDigests_observe x
    rw [h,hstore]
    exact ⟨sent,hsent,.flushDigests locked ts hall⟩
  | requeueStale => exact ⟨[],rfl,.requeueStale⟩

theorem serveRequest_outside (env : Env) (x : State × List Mark) (r : Request) :
    (serveRequest env x r).1.outside = x.1.outside := by
  rw [serveRequest,(observe_run (handle env r) x).1]
  exact (run_clock (handle env r) x.1).1

theorem serveAll_invariant (env : Env) (rs : List Request) (x : State × List Mark)
    {P : Request → Prop} {I : Store → List Mark → Prop}
    (hstep : ∀ s r t sent log, s.outside = x.1.outside → P r → I s.store log →
      Served env s r t sent → I t (sent ++ log))
    (hrs : ∀ r ∈ rs, P r) (hx : I x.1.store x.2) :
    I (serveAll env rs x).1.store (serveAll env rs x).2 := by
  induction rs generalizing x with
  | nil => exact hx
  | cons r rs ih =>
    obtain ⟨sent,hlog,hserved⟩ := serveRequest_served env x r
    have hsame := serveRequest_outside env x r
    refine ih (serveRequest env x r) (fun s q t sent log ho => hstep s q t sent log (ho.trans hsame))
      (fun q hq => hrs q (by simp [hq])) ?_
    rw [hlog]
    exact hstep x.1 r _ sent x.2 rfl (hrs r (by simp)) hx hserved

end Delivery
