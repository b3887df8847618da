import ServerHub.Delivery.Cycle
import ServerHub.Delivery.Outbox
import ServerHub.Delivery.Retention
import ServerHub.Relational.Trim
import ServerHub.Interleave.Precondition

namespace Delivery

open Go Relational Interleave Interleave.Prog

-- all that a dispatch reads off an incident's row
inductive Standing where
  | idle (repeats : Int)
  | firing (last repeats : Int)
deriving DecidableEq

namespace Standing

def ofRow (r : DeliveryState) : Standing :=
  match r.lastState with
  | .firing => .firing r.lastNotifiedAt r.repeatCount
  | .blank => .idle r.repeatCount
  | .resolved => .idle 0

def notified (ts : Int) : Standing → Standing
  | .idle n => .firing ts n
  | .firing _ n => .firing ts (n + 1)

end Standing

def standing (row : Option DeliveryState) : Standing := (row.map Standing.ofRow).getD (.idle 0)

-- the rows that cleanups have deleted, and the time of the last one
structure Lost where
  outbox : Nat → Bool
  batches : Nat → Bool
  now : Int

-- no budget check from now on counts the row
def Concluded (now : Int) (r : OutboxRow) : Prop :=
  r.status.terminal = true ∧ (r.status = .sent → ∀ u ∈ r.sentAt, u ≤ now - hour)

def Expired (now : Int) (b : DigestBatch) : Prop :=
  b.status = .flushed ∧ b.windowEnd < now - 30 * fullDay

-- t is s without the lost rows, the incidents aside
structure Trimmed (g : Lost) (s t : Store) : Prop where
  outbox : Serial.Trims g.outbox (Concluded g.now) s.outbox t.outbox
  batches : Serial.Trims g.batches (Expired g.now) s.batches t.batches
  providers : t.providers = s.providers

structure Pruned (g : Lost) (s t : Store) : Prop extends Trimmed g s t where
  states : ∀ k, standing (t.states k) = standing (s.states k)

section Tables

variable {g : Lost} {s t : Store}

theorem concluded_not_due {now : Int} {r : OutboxRow} (h : Concluded now r) : r.status.due = false := by
  cases hs : r.status with
  | pending => exact nomatch (hs ▸ h.1)
  | deferred => exact nomatch (hs ▸ h.1)
  | _ => rfl

theorem concluded_not_sending {now : Int} {r : OutboxRow} (h : Concluded now r) :
    decide (r.status = .sending) = false := by
  refine decide_eq_false fun hs => ?_
  exact nomatch (hs ▸ h.1)

theorem Trimmed.addOutbox (h : Trimmed g s t) (d : Draft) :
    Trimmed g (s.addOutbox d) (t.addOutbox d) := ⟨h.outbox.insert d.row fun _ => rfl,h.batches,h.providers⟩

theorem Trimmed.target (h : Trimmed g s t) {e : Entry} (he : g.now - 30 * fullDay ≤ e.windowEnd) :
    e.target t = e.target s := by
  refine h.batches.find fun b hb => ?_
  have hne : b.windowEnd ≠ e.windowEnd := by
    have := hb.2
    omega
  simp [hne]

theorem Trimmed.upsertBatch (h : Trimmed g s t) {e : Entry} (keep : Bool)
    (he : g.now - 30 * fullDay ≤ e.windowEnd) :
    (t.upsertBatch e keep).2 = (s.upsertBatch e keep).2 ∧
      Trimmed g (s.upsertBatch e keep).1 (t.upsertBatch e keep).1 := by
  unfold Store.upsertBatch
  rw [h.target he]
  cases hb : e.target s with
  | none => exact ⟨congrArg some h.batches.next,h.outbox,h.batches.insert e.row fun _ => rfl,h.providers⟩
  | some b =>
    dsimp only
    split
    · rename_i hopen
      refine ⟨rfl,h.outbox,h.batches.modify fun a ha hid => ?_,h.providers⟩
      by_contra hl
      have hb' : b ∈ s.batches.rows := List.mem_of_find?_eq_some hb
      have hkey : a.id = b.id := beq_iff_eq.mp hid
      have hlost : g.batches (key a) = true := by simpa using hl
      have hflushed : b.status = .flushed := by
        refine (h.batches.fit b hb' ?_).1
        show g.batches b.id = true
        rw [← hkey]
        exact hlost
      exact nomatch hopen.symm.trans hflushed
    · exact ⟨rfl,h⟩

theorem Trimmed.due (h : Trimmed g s t) (locked : Nat → Bool) (ts : Int) :
    t.due locked ts = s.due locked ts := by
  unfold Store.due
  rw [h.outbox.select fun r hr => by simp [concluded_not_due hr]]

theorem Trimmed.due_kept (h : Trimmed g s t) {locked : Nat → Bool} {ts : Int} :
    ∀ r ∈ s.due locked ts, g.outbox r.id = false := by
  intro r hr
  obtain ⟨hmem,hdue,-⟩ := due_spec hr
  exact h.outbox.kept (fun r hr => concluded_not_due hr) r hmem hdue

theorem Trimmed.sentSince (h : Trimmed g s t) {ch : Channel} {since : Int} (hs : g.now - hour ≤ since) :
    t.sentSince ch since = s.sentSince ch since := by
  refine h.outbox.count fun r hr => ?_
  by_contra hq
  simp only [Bool.not_eq_false,Bool.and_eq_true,decide_eq_true_eq] at hq
  obtain ⟨⟨-,hsent⟩,hany⟩ := hq
  obtain ⟨u,hu,hlt⟩ := (Option.any_eq_true ..).mp hany
  have := hr.2 hsent u hu
  have := of_decide_eq_true hlt
  omega

theorem any_id {rows : List OutboxRow} {p : Nat → Bool} (h : ∀ r ∈ rows, p r.id = false) {k : Nat}
    (hk : (rows.any fun r => r.id == k) = true) : p k = false := by
  obtain ⟨r,hr,hid⟩ := List.any_eq_true.mp hk
  rw [← beq_iff_eq.mp hid]
  exact h r hr

theorem Trimmed.markSending (h : Trimmed g s t) {rows : List OutboxRow}
    (hrows : ∀ r ∈ rows, g.outbox r.id = false) : Trimmed g (s.markSending rows) (t.markSending rows) :=
  ⟨h.outbox.modify fun _ _ hr => any_id hrows hr,h.batches,h.providers⟩

theorem Trimmed.resolve (h : Trimmed g s t) {id : Nat} (hid : g.outbox id = false) (x : Resolution) :
    Trimmed g (s.resolve id x) (t.resolve id x) := by
  unfold Store.resolve
  split
  · refine ⟨h.outbox.modify fun r _ hr => ?_,h.batches,h.providers⟩
    have hkey : r.id = id := beq_iff_eq.mp hr
    show g.outbox r.id = false
    rw [hkey]
    exact hid
  · exact h

theorem Trimmed.requeue (h : Trimmed g s t) : Trimmed g s.requeue t.requeue :=
  ⟨h.outbox.modify (h.outbox.kept fun _ hr => concluded_not_sending hr),h.batches,h.providers⟩

theorem Trimmed.dueBatches (h : Trimmed g s t) (locked : Nat → Bool) (ts : Int) :
    t.dueBatches locked ts = s.dueBatches locked ts := by
  unfold Store.dueBatches
  rw [h.batches.select fun b hb => by simp [hb.1]]

theorem Trimmed.markFlushed (h : Trimmed g s t) (locked : Nat → Bool) (ts : Int) :
    Trimmed g (s.markFlushed (s.dueBatches locked ts)) (t.markFlushed (s.dueBatches locked ts)) := by
  refine ⟨h.outbox,h.batches.modify fun b hb hany => ?_,h.providers⟩
  obtain ⟨a,ha,hid⟩ := List.any_eq_true.mp hany
  obtain ⟨hmem,hopen,-⟩ := dueBatches_spec ha
  have hkey : a.id = b.id := beq_iff_eq.mp hid
  show g.batches b.id = false
  rw [← hkey]
  refine h.batches.kept (q := fun b => decide (b.status = .opened)) (fun b hb => ?_) a hmem ?_
  · simp [hb.1]
  · exact decide_eq_true hopen

theorem Trimmed.insertSummary (h : Trimmed g s t) (b : DigestBatch) (ts : Int) :
    (t.insertSummary b ts).2 = (s.insertSummary b ts).2 ∧
      Trimmed g (s.insertSummary b ts).1 (t.insertSummary b ts).1 := by
  unfold Store.insertSummary
  split
  · exact ⟨rfl,h⟩
  · exact ⟨congrArg some h.outbox.next,h.addOutbox _⟩

theorem Trimmed.recordAttempt (h : Trimmed g s t) (id : Nat) (ok : Bool) (error : Option String)
    (latency now : Int) :
    Trimmed g (s.recordAttempt id ok error latency now) (t.recordAttempt id ok error latency now) := by
  unfold Store.recordAttempt
  split
  · exact h
  · exact ⟨h.outbox,h.batches,h.providers⟩

theorem Trimmed.openCircuit (h : Trimmed g s t) (ch : Channel) (n : Int) (until_ : Option Int) (ts : Int) :
    Trimmed g (s.openCircuit ch n until_ ts) (t.openCircuit ch n until_ ts) := by
  refine ⟨h.outbox,h.batches,?_⟩
  simp only [Store.openCircuit,h.providers]

theorem Trimmed.closeCircuit (h : Trimmed g s t) (ch : Channel) (ts : Int) :
    Trimmed g (s.closeCircuit ch ts) (t.closeCircuit ch ts) := by
  refine ⟨h.outbox,h.batches,?_⟩
  simp only [Store.closeCircuit,h.providers]

end Tables

section Incidents

variable {n : Notice} {ts : Int} {g : Lost} {s t : Store} {row : Option DeliveryState} {last c : Int}

theorem standing_firing (h : standing row = .firing last c) :
    ∃ r, row = some r ∧ r.lastState = .firing ∧ r.lastNotifiedAt = last ∧ r.repeatCount = c := by
  cases row with
  | none => exact nomatch h
  | some r =>
    have hr : Standing.ofRow r = .firing last c := h
    unfold Standing.ofRow at hr
    cases hs : r.lastState with
    | firing =>
      rw [hs] at hr
      obtain ⟨hlast,hc⟩ := Standing.firing.inj hr
      exact ⟨r,rfl,hs,hlast,hc⟩
    | blank =>
      rw [hs] at hr
      exact nomatch hr
    | resolved =>
      rw [hs] at hr
      exact nomatch hr

-- the standing that setState leaves
def Locals.after (l : Locals) (ts : Int) (state : IncidentState) (notified : Bool) : Standing :=
  match state with
  | .firing => .firing (if notified then ts else l.lastNotified) (l.repeats .firing notified)
  | .blank => .idle (l.repeats .blank notified)
  | .resolved => .idle 0

theorem standing_setState {l : Locals} {state : IncidentState} {notified : Bool}
    {reason : Option Reason} {suppr : Int} (hl : l.hasRow = true → (s.states n.input.key).isSome) :
    standing ((setState n ts l state notified reason suppr s).states n.input.key) =
      l.after ts state notified := by
  have hwritten : ∃ row, (setState n ts l state notified reason suppr s).states n.input.key = some row ∧
      Written n ts l state notified row := setState_written hl
  obtain ⟨row,hrow,hw⟩ := hwritten
  rw [hrow]
  show Standing.ofRow row = _
  unfold Standing.ofRow Locals.after
  rw [hw.lastState]
  cases state with
  | blank => exact congrArg Standing.idle hw.repeatCount
  | firing =>
    dsimp only
    rw [hw.lastNotifiedAt,hw.repeatCount]
  | resolved => rfl

-- pruned but for one incident
structure Beside (g : Lost) (key : String) (s t : Store) : Prop extends Trimmed g s t where
  others : ∀ k, k ≠ key → standing (t.states k) = standing (s.states k)

theorem beside_setState {l l' : Locals} {state : IncidentState} {notified : Bool}
    {reason : Option Reason} {suppr suppr' : Int} (h : Beside g n.input.key s t)
    (hl : l.hasRow = true → (s.states n.input.key).isSome)
    (hl' : l'.hasRow = true → (t.states n.input.key).isSome)
    (hafter : l'.after ts state notified = l.after ts state notified) :
    Pruned g (setState n ts l state notified reason suppr s)
      (setState n ts l' state notified reason suppr' t) := by
  refine ⟨⟨h.outbox,h.batches,h.providers⟩,fun k => ?_⟩
  by_cases hk : k = n.input.key
  · rw [hk,standing_setState hl,standing_setState hl',hafter]
  · simp only [setState,Function.update_of_ne hk]
    exact h.others k hk

-- both refused with one text, or both done with one result
inductive Alike {α : Type} (R : Store → Store → Prop) :
    Except String (Store × α) → Except String (Store × α) → Prop
  | error (e : String) : Alike R (.error e) (.error e)
  | ok (a : α) {s t : Store} (h : R s t) : Alike R (.ok (s,a)) (.ok (t,a))

theorem enqueue_alike (h : Trimmed g s t) (chs : List Channel) :
    (∃ e, enqueue n ts chs s = .error e ∧ enqueue n ts chs t = .error e) ∨
      ∃ s' t', enqueue n ts chs s = .ok s' ∧ enqueue n ts chs t = .ok t' ∧ Trimmed g s' t' := by
  induction chs generalizing s t with
  | nil => exact .inr ⟨s,t,rfl,rfl,h⟩
  | cons ch chs ih =>
    simp only [enqueue]
    cases n.draft ts ch with
    | none => exact .inl ⟨invalidText,rfl,rfl⟩
    | some d => exact ih (h.addOutbox d)

theorem entry_window {ch : Channel} {e : Entry} (h : n.entry ts ch = some e) :
    e.windowEnd = digestWindow n.input ts := by
  simp only [Notice.entry,Option.bind_eq_bind,Option.bind_eq_some_iff,Option.pure_def,
    Option.some.injEq] at h
  obtain ⟨title,-,resource,-,rfl⟩ := h
  rfl

theorem appendDigest_alike (h : Trimmed g s t) (hwin : g.now - 30 * fullDay ≤ digestWindow n.input ts)
    (chs : List Channel) : Alike (Trimmed g) (appendDigest n ts chs s) (appendDigest n ts chs t) := by
  induction chs generalizing s t with
  | nil => exact .ok [] h
  | cons ch chs ih =>
    simp only [appendDigest]
    cases he : n.entry ts ch with
    | none => exact .error invalidText
    | some e =>
      have hw : g.now - 30 * fullDay ≤ e.windowEnd := by
        rw [entry_window he]
        exact hwin
      obtain ⟨hhit,hnext⟩ := h.upsertBatch false hw
      dsimp only
      rw [hhit]
      generalize hx : appendDigest n ts chs (s.upsertBatch e false).1 = x
      generalize hy : appendDigest n ts chs (t.upsertBatch e false).1 = y
      have hrest : Alike (Trimmed g) x y := hx ▸ hy ▸ ih hnext
      cases hrest with
      | error msg => exact .error msg
      | ok hits hdone => exact .ok _ hdone

theorem queued_alike {l l' : Locals} {state : IncidentState} (h : Beside g n.input.key s t)
    (hl : l.hasRow = true → (s.states n.input.key).isSome)
    (hl' : l'.hasRow = true → (t.states n.input.key).isSome)
    (hafter : l'.after ts state true = l.after ts state true) :
    Alike (Pruned g) (queued n ts l state s) (queued n ts l' state t) := by
  rcases enqueue_alike h.toTrimmed n.channels with ⟨e,hs,ht⟩ | ⟨s',t',hs,ht,hnext⟩
  · unfold queued
    rw [hs,ht]
    exact .error e
  · have hstates := enqueue_states hs
    have hstates' := enqueue_states ht
    have hbeside : Beside g n.input.key s' t' :=
      ⟨hnext,by rw [hstates,hstates']; exact h.others⟩
    unfold queued
    rw [hs,ht]
    exact .ok _ (beside_setState hbeside (hstates ▸ hl) (hstates' ▸ hl') hafter)

theorem digested_alike {l l' : Locals} {state : IncidentState} (h : Beside g n.input.key s t)
    (hwin : g.now - 30 * fullDay ≤ digestWindow n.input ts)
    (hl : l.hasRow = true → (s.states n.input.key).isSome)
    (hl' : l'.hasRow = true → (t.states n.input.key).isSome)
    (hafter : l'.after ts state true = l.after ts state true) :
    Alike (Pruned g) (digested n ts l state s) (digested n ts l' state t) := by
  have hboth := appendDigest_alike h.toTrimmed hwin n.channels
  unfold digested
  generalize hx : appendDigest n ts n.channels s = x at hboth
  generalize hy : appendDigest n ts n.channels t = y at hboth
  cases hboth with
  | error e => exact .error e
  | @ok hits s' t' hnext =>
    have hstates := appendDigest_states hx
    have hstates' := appendDigest_states hy
    have hbeside : Beside g n.input.key s' t' :=
      ⟨hnext,by rw [hstates,hstates']; exact h.others⟩
    exact .ok _ (beside_setState hbeside (hstates ▸ hl) (hstates' ▸ hl') hafter)

theorem suppressed_alike {l l' : Locals} {state : IncidentState} {reason : Reason}
    (h : Beside g n.input.key s t) (hl : l.hasRow = true → (s.states n.input.key).isSome)
    (hl' : l'.hasRow = true → (t.states n.input.key).isSome)
    (hafter : l'.after ts state false = l.after ts state false) :
    Alike (Pruned g) (suppressed n ts l state reason s) (suppressed n ts l' state reason t) :=
  .ok _ (beside_setState h hl hl' hafter)

theorem notify_alike {l l' : Locals} (h : Beside g n.input.key s t)
    (hwin : g.now - 30 * fullDay ≤ digestWindow n.input ts)
    (hl : l.hasRow = true → (s.states n.input.key).isSome)
    (hl' : l'.hasRow = true → (t.states n.input.key).isSome)
    (hafter : l'.after ts .firing true = l.after ts .firing true) :
    Alike (Pruned g) (notify n ts l s) (notify n ts l' t) := by
  unfold notify
  split
  · exact digested_alike h hwin hl hl' hafter
  · exact queued_alike h hl hl' hafter

variable {pol : Policy}

theorem Pruned.beside (h : Pruned g s t) (key : String) : Beside g key s t :=
  ⟨h.toTrimmed,fun k _ => h.states k⟩

-- a firing that opens an incident, whatever row is left of the last one
structure Opens (n : Notice) (ts c : Int) (s : Store) (l : Locals) (u : Store) : Prop where
  after : l.after ts .firing true = .firing ts c
  hasRow : l.hasRow = true → (u.states n.input.key).isSome
  outbox : u.outbox = s.outbox
  batches : u.batches = s.batches
  providers : u.providers = s.providers
  others : ∀ k, k ≠ n.input.key → u.states k = s.states k

theorem fire_opens (pol : Policy) (h : standing (s.states n.input.key) = .idle c) :
    ∃ l u, fire pol n ts (.scan (s.states n.input.key)) s = notify n ts l u ∧ Opens n ts c s l u := by
  have hplain : ∀ l : Locals, l.retriggers = false → l.held (cadence pol n) ts = none →
      fire pol n ts l s = notify n ts l s := by
    intro l hre hheld
    simp only [fire,hre,hheld]
    rfl
  cases hr : s.states n.input.key with
  | none =>
    rw [hr] at h
    obtain rfl := Standing.idle.inj h
    exact ⟨_,s,hplain _ rfl rfl,rfl,(fun hrow => by cases hrow),rfl,rfl,rfl,fun _ _ => rfl⟩
  | some r =>
    rw [hr] at h
    have hstand : Standing.ofRow r = .idle c := h
    have hsome : (s.states n.input.key).isSome = true := by rw [hr]; rfl
    unfold Standing.ofRow at hstand
    cases hs : r.lastState with
    | firing =>
      rw [hs] at hstand
      cases hstand
    | blank =>
      rw [hs] at hstand
      have hc : r.repeatCount = c := Standing.idle.inj hstand
      refine ⟨_,s,hplain _ ?_ ?_,?_,fun _ => hsome,rfl,rfl,rfl,fun _ _ => rfl⟩
      · simp [Locals.scan,Locals.retriggers,hs]
      · simp [Locals.scan,Locals.held,hs]
      · simp [Locals.after,Locals.scan,Locals.repeats,hs,hc]
    | resolved =>
      rw [hs] at hstand
      obtain rfl : 0 = c := Standing.idle.inj hstand
      refine ⟨(Locals.scan (some r)).reopened,s.forget n.input.key,?_,rfl,(fun hrow => by cases hrow),rfl,
        rfl,rfl,fun k hk => Function.update_of_ne hk _ _⟩
      have hre : (Locals.scan (some r)).retriggers = true := by
        simp [Locals.scan,Locals.retriggers,hs]
      simp only [fire,hre]
      rfl

theorem opens_beside {l l' : Locals} {u u' : Store} (h : Pruned g s t) (hu : Opens n ts c s l u)
    (hu' : Opens n ts c t l' u') : Beside g n.input.key u u' := by
  refine ⟨⟨?_,?_,?_⟩,fun k hk => ?_⟩
  · rw [hu.outbox,hu'.outbox]
    exact h.outbox
  · rw [hu.batches,hu'.batches]
    exact h.batches
  · rw [hu.providers,hu'.providers]
    exact h.providers
  · rw [hu.others k hk,hu'.others k hk]
    exact h.states k

theorem scan_firing {r : DeliveryState} (hr : r.lastState = .firing) :
    Locals.scan (some r) = ⟨true,r.lastNotifiedAt,r.repeatCount,.firing,r.suppressedCount⟩ := by
  rw [Locals.scan,hr]

theorem fire_alike (h : Pruned g s t) (hwin : g.now - 30 * fullDay ≤ digestWindow n.input ts) :
    Alike (Pruned g) (fire pol n ts (.scan (s.states n.input.key)) s)
      (fire pol n ts (.scan (t.states n.input.key)) t) := by
  have hstand := h.states n.input.key
  cases hs : standing (s.states n.input.key) with
  | idle c =>
    rw [hs] at hstand
    obtain ⟨l,u,hfire,hu⟩ := fire_opens pol hs
    obtain ⟨l',u',hfire',hu'⟩ := fire_opens pol hstand
    rw [hfire,hfire']
    exact notify_alike (opens_beside h hu hu') hwin hu.hasRow hu'.hasRow (hu'.after.trans hu.after.symm)
  | firing last c =>
    rw [hs] at hstand
    obtain ⟨r,hr,hst,rfl,rfl⟩ := standing_firing hs
    obtain ⟨r',hr',hst',hlast,hcount⟩ := standing_firing hstand
    have hsome : (s.states n.input.key).isSome = true := by rw [hr]; rfl
    have hsome' : (t.states n.input.key).isSome = true := by rw [hr']; rfl
    rw [hr,hr',scan_firing hst,scan_firing hst',hlast,hcount]
    have hb := h.beside n.input.key
    have hheld : ∀ sup, (Locals.mk true r.lastNotifiedAt r.repeatCount .firing sup).held (cadence pol n) ts =
        (Locals.mk true r.lastNotifiedAt r.repeatCount .firing 0).held (cadence pol n) ts := fun _ => rfl
    have hwaits : ∀ sup, (Locals.mk true r.lastNotifiedAt r.repeatCount .firing sup).retriggers = false :=
      fun _ => rfl
    unfold fire
    rw [hwaits,hwaits,hheld r.suppressedCount,hheld r'.suppressedCount]
    cases (Locals.mk true r.lastNotifiedAt r.repeatCount .firing 0).held (cadence pol n) ts with
    | some reason => exact suppressed_alike hb (fun _ => hsome) (fun _ => hsome') rfl
    | none => exact notify_alike hb hwin (fun _ => hsome) (fun _ => hsome') rfl

theorem recover_muted {l : Locals} (h : l.lastState ≠ .firing) :
    recover pol n ts l s = suppressed n ts l .resolved .recoveryMuted s :=
  if_pos (by simp [h])

theorem scan_idle {row : Option DeliveryState} (h : standing row = .idle c) :
    (Locals.scan row).lastState ≠ .firing := by
  cases row with
  | none => exact fun hf => nomatch hf
  | some r =>
    intro hf
    have hst : r.lastState = .firing := hf
    have hr : Standing.ofRow r = .idle c := h
    rw [Standing.ofRow,hst] at hr
    exact nomatch hr

theorem recover_alike (h : Pruned g s t) (hwin : g.now - 30 * fullDay ≤ digestWindow n.input ts) :
    Alike (Pruned g) (recover pol n ts (.scan (s.states n.input.key)) s)
      (recover pol n ts (.scan (t.states n.input.key)) t) := by
  have hstand := h.states n.input.key
  have hb := h.beside n.input.key
  cases hs : standing (s.states n.input.key) with
  | idle c =>
    rw [hs] at hstand
    rw [recover_muted (scan_idle hs),recover_muted (scan_idle hstand)]
    exact suppressed_alike hb scan_hasRow scan_hasRow rfl
  | firing last c =>
    rw [hs] at hstand
    obtain ⟨r,hr,hst,-,-⟩ := standing_firing hs
    obtain ⟨r',hr',hst',-,-⟩ := standing_firing hstand
    have hsome : (s.states n.input.key).isSome = true := by rw [hr]; rfl
    have hsome' : (t.states n.input.key).isSome = true := by rw [hr']; rfl
    rw [hr,hr',scan_firing hst,scan_firing hst']
    unfold recover
    dsimp only
    split
    · exact suppressed_alike hb (fun _ => hsome) (fun _ => hsome') rfl
    · split
      · exact digested_alike hb hwin (fun _ => hsome) (fun _ => hsome') rfl
      · exact queued_alike hb (fun _ => hsome) (fun _ => hsome') rfl

theorem claim_alike (h : Pruned g s t) (hwin : g.now - 30 * fullDay ≤ digestWindow n.input ts) :
    Alike (Pruned g) (claimAndEnqueue pol n ts s) (claimAndEnqueue pol n ts t) := by
  unfold claimAndEnqueue
  dsimp only
  split
  · exact recover_alike h hwin
  · exact fire_alike h hwin

theorem claimed_alike (h : Pruned g s t) (hwin : g.now - 30 * fullDay ≤ digestWindow n.input ts)
    (refusal : Option String) :
    (claimed pol n ts refusal t).2 = (claimed pol n ts refusal s).2 ∧
      Pruned g (claimed pol n ts refusal s).1 (claimed pol n ts refusal t).1 := by
  have hboth : Alike (Pruned g) (claimAndEnqueue pol n ts s) (claimAndEnqueue pol n ts t) :=
    claim_alike h hwin
  unfold claimed
  generalize claimAndEnqueue pol n ts s = x at hboth
  generalize claimAndEnqueue pol n ts t = y at hboth
  cases refusal with
  | some e => cases hboth <;> exact ⟨rfl,h⟩
  | none =>
    cases hboth with
    | error e => exact ⟨rfl,h⟩
    | ok a hnext => exact ⟨rfl,hnext⟩

theorem standing_touched {row row' : Option DeliveryState} (h : Touched row row') :
    standing row' = standing row := by
  cases row with
  | none =>
    obtain ⟨r,rfl,hst,hcount⟩ := h
    simp [standing,Standing.ofRow,hst,hcount]
  | some r₀ =>
    obtain ⟨r,rfl,hst,hlast,hcount⟩ := h
    simp [standing,Standing.ofRow,hst,hlast,hcount]

theorem Pruned.touch (h : Pruned g s t) (n : Notice) (reason : Reason) (now : Int) :
    Pruned g (touchSuppressed n reason now s) (touchSuppressed n reason now t) := by
  refine ⟨⟨h.outbox,h.batches,h.providers⟩,fun k => ?_⟩
  by_cases hk : k = n.input.key
  · rw [hk,standing_touched (touchSuppressed_touched n reason now s),
      standing_touched (touchSuppressed_touched n reason now t)]
    exact h.states n.input.key
  · simp only [touchSuppressed,Function.update_of_ne hk]
    exact h.states k

end Incidents

def Input.windowed (i : Input) : Prop :=
  -(30 * fullDay) ≤ minutes (if i.digestIntervalMin ≤ 0 then 60 else i.digestIntervalMin)

theorem windowed_of_le {i : Input} (h : i.digestIntervalMin ≤ 153722867) : i.windowed := by
  unfold Input.windowed
  generalize hn : (if i.digestIntervalMin ≤ 0 then 60 else i.digestIntervalMin) = n
  have hpos : 0 < n ∧ n ≤ 153722867 := by
    split at hn <;> omega
  have hfits : minutes n = n * minute := by
    refine int64_eq ?_ ?_
    · unfold maxDuration minute second
      omega
    · unfold maxDuration minute second
      omega
  rw [hfits]
  unfold fullDay hour minute second
  omega

theorem windowed_digest {i : Input} (h : i.windowed) (ts : Int) : ts - 30 * fullDay ≤ digestWindow i ts := by
  have hday : 0 ≤ 30 * fullDay := by decide
  unfold Input.windowed at h
  unfold digestWindow
  dsimp only
  generalize minutes (if i.digestIntervalMin ≤ 0 then 60 else i.digestIntervalMin) = d at h ⊢
  unfold truncateTo
  split
  · omega
  · rename_i hd
    have hmod := Int.emod_lt_of_pos ts (Int.not_le.mp hd)
    omega

theorem overflow_window {r : OutboxRow} {ts : Int} {e : Entry} (h : r.overflow ts = some e) :
    ts ≤ e.windowEnd := by
  simp only [OutboxRow.overflow,Option.bind_eq_bind,Option.bind_eq_some_iff,Option.pure_def,
    Option.some.injEq] at h
  obtain ⟨raw,-,title,-,rfl⟩ := h
  have hd : ¬ 15 * minute ≤ 0 := by decide
  have hmod := Int.emod_lt_of_pos ts (show 0 < 15 * minute by decide)
  show ts ≤ truncateTo ts (15 * minute) + 15 * minute
  rw [truncateTo,if_neg hd]
  omega

theorem Trimmed.recordOverflow {g : Lost} {s t : Store} (h : Trimmed g s t) (r : OutboxRow) {ts : Int}
    (hts : g.now ≤ ts) :
    (t.recordOverflow r ts).2 = (s.recordOverflow r ts).2 ∧
      Trimmed g (s.recordOverflow r ts).1 (t.recordOverflow r ts).1 := by
  unfold Store.recordOverflow
  cases he : r.overflow ts with
  | none => exact ⟨rfl,h⟩
  | some e =>
    have hw := overflow_window he
    have hday : 0 ≤ 30 * fullDay := by decide
    exact h.upsertBatch true (by omega)

theorem recordOverflow_states (s : Store) (r : OutboxRow) (ts : Int) :
    (s.recordOverflow r ts).1.states = s.states := by
  unfold Store.recordOverflow
  split
  · rfl
  · exact upsertBatch_states s _ true

theorem recordAttempt_states (s : Store) (id : Nat) (ok : Bool) (error : Option String)
    (latency now : Int) : (s.recordAttempt id ok error latency now).states = s.states := by
  unfold Store.recordAttempt
  split <;> rfl

theorem resolve_states (s : Store) (id : Nat) (x : Resolution) : (s.resolve id x).states = s.states := by
  unfold Store.resolve
  split <;> rfl

theorem insertSummary_states (s : Store) (b : DigestBatch) (ts : Int) :
    (s.insertSummary b ts).1.states = s.states := by
  unfold Store.insertSummary
  split <;> rfl

section Lockstep

-- what a routine may count on, and may ask for, while only the lost rows tell the two databases apart
def Trimming (g : Lost) : Observer Stmt Unit where
  Answers := fun i b => match i, b with
    | .clock, ts => g.now ≤ ts
    | .claimDue _, rows => ∀ r ∈ rows, g.outbox r.id = false
    | _, _ => True
  Allowed _ _ i := match i with
    | .claim _ n ts => g.now ≤ ts ∧ n.input.windowed
    | .sentSince _ since => g.now - hour ≤ since
    | .resolve id _ => g.outbox id = false
    | .overflow _ ts => g.now ≤ ts
    | _ => True
  note c _ _ _ := c

variable {g : Lost} {s t : Store}

theorem effect_pruned {β : Type} {i : Stmt β} {c : Unit} (hi : (Trimming g).Allowed c i) (o : Outside)
    (h : Pruned g s t) :
    (i.effect o t).2 = (i.effect o s).2 ∧ Pruned g (i.effect o s).1 (i.effect o t).1 := by
  have same : ∀ {s' t' : Store}, Trimmed g s' t' → s'.states = s.states → t'.states = t.states →
      Pruned g s' t' := by
    intro s' t' ht hs ht'
    refine ⟨ht,fun k => ?_⟩
    rw [hs,ht']
    exact h.states k
  -- a statement that fails leaves both databases as they are
  have faulty : ∀ (lost : Bool) {s' t' : Store}, Pruned g s' t' →
      Pruned g (if lost then s else s') (if lost then t else t') := by
    intro lost s' t' hp
    cases lost with
    | true => exact h
    | false => exact hp
  cases i with
  | touch n reason => exact ⟨rfl,h.touch n reason o.dbClock⟩
  | claim pol n ts =>
    have hwin := windowed_digest hi.2 ts
    have hts : g.now ≤ ts := hi.1
    exact claimed_alike h (by omega) o.refusal
  | claimDue ts =>
    have hdue := h.due o.lockedRow ts
    simp only [Stmt.effect,hdue]
    exact ⟨trivial,same (h.markSending h.due_kept) rfl rfl⟩
  | provider ch => exact ⟨by simp only [Stmt.effect,h.providers],h⟩
  | sentSince ch since => exact ⟨by simp only [Stmt.effect,h.sentSince hi],h⟩
  | openCircuit ch n until_ ts =>
    exact ⟨rfl,faulty _ (same (h.openCircuit ch n until_ ts) rfl rfl)⟩
  | closeCircuit ch ts => exact ⟨rfl,faulty _ (same (h.closeCircuit ch ts) rfl rfl)⟩
  | recordAttempt id ok error latency =>
    exact ⟨rfl,faulty _ (same (h.recordAttempt id ok error latency o.dbClock)
      (recordAttempt_states ..) (recordAttempt_states ..))⟩
  | resolve id x =>
    exact ⟨rfl,faulty _ (same (h.resolve hi x) (resolve_states s id x) (resolve_states t id x))⟩
  | overflow r ts =>
    obtain ⟨hhit,hnext⟩ := h.recordOverflow r hi
    exact ⟨hhit,same hnext (recordOverflow_states s r ts) (recordOverflow_states t r ts)⟩
  | requeueStale =>
    refine ⟨h.outbox.count fun _ hr => concluded_not_sending hr,same h.requeue rfl rfl⟩
  | flushDue ts =>
    have hdue := h.dueBatches o.lockedBatch ts
    simp only [Stmt.effect,hdue]
    exact ⟨trivial,same (h.markFlushed o.lockedBatch ts) rfl rfl⟩
  | insertSummary b ts =>
    obtain ⟨hrow,hnext⟩ := h.insertSummary b ts
    exact ⟨hrow,same hnext (insertSummary_states s b ts) (insertSummary_states t b ts)⟩
  | _ => exact ⟨rfl,h⟩

def Careful {α : Type} (g : Lost) (p : Job α) : Prop := (Trimming g).wp p (fun _ _ => True) ()

variable {α β : Type} {env : Env} {pol : Policy} {ts : Int} {r : OutboxRow}

theorem careful_bind {p : Job β} {f : β → Job α} (hp : Careful g p) (hf : ∀ b, Careful g (f b)) :
    Careful g (p >>= f) :=
  Observer.wp_bind.mpr (Observer.wp_mono (fun b _ _ => hf b) hp)

theorem careful_step {i : Stmt β} {f : β → Job α} (hi : (Trimming g).Allowed () i)
    (hf : ∀ b, (Trimming g).Answers i b → Careful g (f b)) : Careful g (perform i >>= f) :=
  (Observer.wp_perform_bind i f).mpr ⟨hi,hf⟩

theorem careful_perform {i : Stmt β} (hi : (Trimming g).Allowed () i) : Careful g (perform i) :=
  (Observer.wp_perform i).mpr ⟨hi,fun _ _ => trivial⟩

theorem careful_ite {c : Prop} [Decidable c] {p q : Job α} (hp : Careful g p) (hq : Careful g q) :
    Careful g (if c then p else q) := Observer.wp_ite (fun _ => hp) fun _ => hq

def Stmt.Free : {β : Type} → Stmt β → Prop
  | _, .claim _ _ _ | _, .sentSince _ _ | _, .resolve _ _ | _, .overflow _ _ => False
  | _, _ => True

theorem trimming_free : (Trimming g).Quiet Stmt.Free where
  allowed i hi c := by
    cases i <;> trivial
  unnoted _ _ _ _ := rfl

theorem careful_free {p : Job α} (hp : p.Uses Stmt.Free) : Careful g p :=
  trimming_free.wp hp fun _ => trivial

theorem careful_suppressBy (n : Notice) (reason : Reason) : Careful g (suppressBy n reason) :=
  careful_free ⟨trivial,fun _ => trivial⟩

theorem careful_dispatch (env : Env) {i : Input} (hi : i.windowed) : Careful g (dispatch env i) := by
  refine careful_ite trivial ?_
  refine careful_step trivial fun ts hts => ?_
  refine careful_bind (careful_free (loadPolicy_uses trivial trivial)) fun pol => ?_
  refine careful_ite (careful_suppressBy _ _) ?_
  refine careful_step trivial fun windows _ => ?_
  refine careful_ite (careful_suppressBy _ _) ?_
  refine careful_bind (careful_free (uses_ite trivial ⟨trivial,fun _ => trivial⟩)) fun quiet => ?_
  have hclaim : Careful g (perform (.claim pol i.notice ts) >>= fun receipt =>
      (pure (receipt.map (·.outcome)) : Job (Except String Outcome))) :=
    careful_step ⟨hts,hi⟩ fun _ _ => trivial
  generalize quietFor env i.notice quiet ts = within
  exact careful_ite (careful_suppressBy _ _) hclaim

theorem careful_fail (hr : g.outbox r.id = false) (msg : String) : Careful g (fail r ts msg) := by
  refine careful_step trivial fun _ _ => ?_
  refine careful_ite ?_ (careful_perform hr)
  exact careful_bind (careful_free ⟨trivial,fun _ => trivial⟩) fun delay => careful_perform hr

theorem careful_deliver (hr : g.outbox r.id = false) : Careful g (deliver env ts r) := by
  refine careful_bind (careful_free (uses_ite ⟨trivial,fun _ => trivial⟩ trivial)) fun serr => ?_
  refine careful_step trivial fun latency _ => ?_
  cases serr with
  | some e =>
    refine careful_bind (careful_free ⟨trivial,fun _ => ⟨trivial,fun _ => trivial⟩⟩) fun _ => ?_
    exact careful_bind (careful_fail hr e) fun _ => trivial
  | none =>
    refine careful_step trivial fun _ _ => ?_
    refine careful_step trivial fun _ _ => ?_
    exact careful_step hr fun _ _ => trivial

theorem careful_sendOne (hts : g.now ≤ ts) (hr : g.outbox r.id = false) :
    Careful g (sendOne env pol ts r) := by
  refine careful_bind (careful_free ⟨trivial,fun _ => trivial⟩) fun opened => ?_
  cases opened with
  | some reopens => exact careful_step hr fun _ _ => trivial
  | none =>
    refine careful_step (Int.sub_le_sub_right hts hour) fun sent _ => ?_
    refine careful_ite ?_ (careful_deliver hr)
    exact careful_step hr fun _ _ => careful_step hts fun _ _ => trivial

theorem careful_sendAll (hts : g.now ≤ ts) {rows : List OutboxRow}
    (hrows : ∀ r ∈ rows, g.outbox r.id = false) : Careful g (sendAll env pol ts rows) := by
  induction rows with
  | nil => trivial
  | cons r rows ih =>
    refine careful_bind (careful_sendOne hts (hrows r List.mem_cons_self)) fun serr => ?_
    exact careful_bind (ih fun a ha => hrows a (List.mem_cons_of_mem r ha)) fun _ => trivial

theorem careful_drain (env : Env) : Careful g (drain env) := by
  refine careful_bind (careful_free (loadPolicy_uses trivial trivial)) fun pol => ?_
  refine careful_step trivial fun ts hts => ?_
  exact careful_step trivial fun rows hrows => careful_sendAll hts hrows

theorem careful_flushDigests : Careful g flushDigests := by
  refine careful_free ⟨trivial,fun ts => ⟨trivial,fun batches => ?_⟩⟩
  exact uses_each fun b _ => ⟨trivial,fun _ => trivial⟩

def Request.windowed : Request → Prop
  | .dispatch i => i.windowed
  | _ => True

theorem careful_handle (env : Env) {r : Request} (hr : r.windowed) : Careful g (handle env r) := by
  cases r with
  | dispatch i => exact careful_bind (careful_dispatch env hr) fun _ => trivial
  | drain => exact careful_bind (careful_drain env) fun _ => trivial
  | flushDigests => exact careful_bind careful_flushDigests fun _ => trivial
  | requeueStale => exact careful_step trivial fun _ _ => trivial

end Lockstep

-- the deliveries' database, the created_at column of its outbox and the provider calls so far
structure Desk where
  state : State
  createdAt : Nat → Int
  sends : List (Int × OutboxRow)

def Stmt.provided : {β : Type} → Stmt β → Option (Int × OutboxRow)
  | _, .send ts r => some (ts,r)
  | _, _ => none

def Stmt.atDesk {β : Type} (i : Stmt β) (x : Desk) : Desk × β :=
  ({ state := (i.step x.state).1
     createdAt := fun id =>
       if id < x.state.store.outbox.next then x.createdAt id else x.state.now.dbClock
     sends := i.provided.toList ++ x.sends },(i.step x.state).2)

def Desk.sweep (x : Desk) (w : Sweep) : Sweep := { w with createdAt := x.createdAt }

def Desk.cleanup (x : Desk) (w : Sweep) : Desk :=
  { x with state := { x.state with store := (cleanupDeliveries (x.sweep w) x.state.store).1 } }

inductive Turn where
  | call (r : Request)
  | cleanup (w : Sweep)

def Turn.isCall : Turn → Bool
  | .call _ => true
  | .cleanup _ => false

def play (env : Env) : Turn → Desk → Desk × List Answer
  | .call r, x =>
      let (y,a) := (handle env r).eval Stmt.atDesk x
      (y,[a])
  | .cleanup w, x => (x.cleanup w,[])

def playAll (env : Env) : List Turn → Desk → Desk × List Answer
  | [], x => (x,[])
  | turn :: turns, x =>
      let (y,answers) := play env turn x
      let (z,later) := playAll env turns y
      (z,answers ++ later)

def Throughout (env : Env) (P : Desk → Turn → Prop) : List Turn → Desk → Prop
  | [], _ => True
  | turn :: turns, x => P x turn ∧ Throughout env P turns (play env turn x).1

-- a cleanup reads the clock before the next call does
def Timely (x : Desk) : Turn → Prop
  | .call _ => True
  | .cleanup w => w.now ≤ x.state.now.clock ∧ w.digestNow ≤ x.state.now.clock

-- no row that a cleanup takes for old was sent within the hour, and no digest interval wraps below -30 days
def Unseen (x : Desk) : Turn → Prop
  | .call r => r.windowed
  | .cleanup w => ∀ r ∈ x.state.store.outbox.rows, r.status = .sent →
      x.createdAt r.id < (x.sweep w).cutoff → ∀ u ∈ r.sentAt, u ≤ w.now - hour

section Cleanups

variable {g : Lost} {s t : Store} {w : Sweep} {T : Int}

def Lost.by (g : Lost) (T : Int) : Lost := { g with now := T }

theorem Pruned.later (h : Pruned g s t) (hT : g.now ≤ T) : Pruned (g.by T) s t := by
  refine ⟨⟨h.outbox.mono fun r hr => ⟨hr.1,fun hs u hu => ?_⟩,h.batches.mono fun b hb => ⟨hb.1,?_⟩,
    h.providers⟩,h.states⟩
  · have := hr.2 hs u hu
    show u ≤ T - hour
    omega
  · have := hb.2
    show b.windowEnd < T - 30 * fullDay
    omega

def Sweep.Spares (w : Sweep) (t : Store) : Prop :=
  ∀ r ∈ t.outbox.rows, r.status = .sent → w.createdAt r.id < w.cutoff → ∀ u ∈ r.sentAt, u ≤ w.now - hour

structure Cleaned (w : Sweep) (T : Int) (s t : Store) : Prop where
  pruned : ∃ g, g.now = T ∧ Pruned g s t
  spares : w.Spares t

theorem any_oldest {α : Type} [Keyed α] {old : α → Bool} {age : α → Int} {t : Serial α} {r : α}
    (hr : r ∈ t.rows) (h : ((oldest old age t.rows).any fun a => key a == key r) = true) :
    old r = true := by
  obtain ⟨a,ha,hkey⟩ := List.any_eq_true.mp h
  obtain ⟨hmem,hold⟩ := mem_oldest ha
  rw [← Table.eq_of_key hmem hr (beq_iff_eq.mp hkey)]
  exact hold

theorem cleaned_batch (hnow : w.now ≤ T) (hdigest : w.digestNow ≤ T) (table : PrunedTable)
    (h : Cleaned w T s t) : Cleaned w T s (w.batch table t).1 := by
  obtain ⟨⟨g,rfl,hp⟩,hs⟩ := h
  cases table with
  | deliveryAttempts =>
    exact ⟨⟨g,rfl,⟨⟨hp.outbox,hp.batches,hp.providers⟩,hp.states⟩⟩,hs⟩
  | deliveryOutbox =>
    have hgone : ∀ r ∈ t.outbox.rows, ((oldest w.oldOutbox (fun r => w.createdAt r.id)
        t.outbox.rows).any fun a => a.id == r.id) = true → Concluded g.now r := by
      intro r hr hany
      have hboth : r.status.terminal = true ∧ w.createdAt r.id < w.cutoff := by
        simpa [Sweep.oldOutbox] using any_oldest hr hany
      refine ⟨hboth.1,fun hsent u hu => ?_⟩
      have := hs r hr hsent hboth.2 u hu
      omega
    obtain ⟨lost,htrim⟩ := hp.outbox.remove hgone
    exact ⟨⟨⟨lost,g.batches,g.now⟩,rfl,⟨⟨htrim,hp.batches,hp.providers⟩,hp.states⟩⟩,
      fun r hr => hs r (Serial.mem_remove.mp hr).1⟩
  | digestBatches =>
    have hgone : ∀ b ∈ t.batches.rows, ((oldest w.oldBatch (·.windowEnd) t.batches.rows).any fun a =>
        a.id == b.id) = true → Expired g.now b := by
      intro b hb hany
      have hboth : b.status = .flushed ∧ b.windowEnd < w.digestCutoff := by
        simpa [Sweep.oldBatch] using any_oldest hb hany
      have hcut : w.digestCutoff = w.digestNow - 30 * fullDay := rfl
      exact ⟨hboth.1,by omega⟩
    obtain ⟨lost,htrim⟩ := hp.batches.remove hgone
    exact ⟨⟨⟨g.outbox,lost,g.now⟩,rfl,⟨⟨hp.outbox,htrim,hp.providers⟩,hp.states⟩⟩,hs⟩
  | deliveryState =>
    refine ⟨⟨g,rfl,⟨⟨hp.outbox,hp.batches,hp.providers⟩,fun k => ?_⟩⟩,hs⟩
    rw [← hp.states k]
    show standing (if k ∈ _ then none else t.states k) = _
    split
    · rename_i hk
      obtain ⟨row,hrow,hold⟩ := (Option.any_eq_true ..).mp (mem_oldest hk).2
      have hboth : row.lastState = .resolved ∧ row.updatedAt < w.cutoff := by
        simpa [Sweep.oldState] using hold
      rw [hrow]
      show Standing.idle 0 = Standing.ofRow row
      rw [Standing.ofRow,hboth.1]
    · rfl

theorem pruned_cleanup (h : Pruned g s t) (hs : w.Spares t) (hnow : w.now ≤ T) (hdigest : w.digestNow ≤ T)
    (hT : g.now ≤ T) : ∃ g', g'.now = T ∧ Pruned g' s (cleanupDeliveries w t).1 := by
  have hbefore : Cleaned w T s t := ⟨⟨g.by T,rfl,h.later hT⟩,hs⟩
  have hafter : Cleaned w T s (cleanupDeliveries w t).1 :=
    cleanupDeliveries_keeps (fun table _ => cleaned_batch hnow hdigest table) hbefore
  exact hafter.pruned

end Cleanups

section Runs

variable {env : Env} {g : Lost} {x y : Desk}

-- the run without cleanups and the run with them
structure InStep (g : Lost) (x y : Desk) : Prop where
  pruned : Pruned g x.state.store y.state.store
  tick : y.state.tick = x.state.tick
  outside : y.state.outside = x.state.outside
  sends : y.sends = x.sends
  past : ∀ k, x.state.tick ≤ k → g.now ≤ (x.state.outside k).clock

theorem inStep_now (h : InStep g x y) : y.state.now = x.state.now := by
  unfold State.now
  rw [h.tick,h.outside]

theorem atDesk_inStep {β : Type} {i : Stmt β} {c : Unit} (hi : (Trimming g).Allowed c i)
    (h : InStep g x y) :
    (i.atDesk x).2 = (i.atDesk y).2 ∧ (Trimming g).Answers i (i.atDesk x).2 ∧
      InStep g (i.atDesk x).1 (i.atDesk y).1 := by
  obtain ⟨hb,hnext⟩ := effect_pruned hi x.state.now h.pruned
  have hsame : (i.step y.state).2 = (i.effect x.state.now y.state.store).2 := by
    rw [← inStep_now h]
    rfl
  have hstore : (i.step y.state).1.store = (i.effect x.state.now y.state.store).1 := by
    rw [← inStep_now h]
    rfl
  refine ⟨(hsame.trans hb).symm,?_,⟨?_,?_,h.outside,?_,fun k hk => h.past k (Nat.le_of_succ_le hk)⟩⟩
  · cases i with
    | clock => exact h.past x.state.tick (Nat.le_refl _)
    | claimDue ts => exact h.pruned.due_kept
    | _ => trivial
  · show Pruned g (i.effect x.state.now x.state.store).1 (i.step y.state).1.store
    rw [hstore]
    exact hnext
  · exact congrArg (· + 1) h.tick
  · show i.provided.toList ++ y.sends = i.provided.toList ++ x.sends
    rw [h.sends]

variable (env) in
theorem call_inStep {r : Request} (hr : r.windowed) (h : InStep g x y) :
    (play env (.call r) y).2 = (play env (.call r) x).2 ∧
      InStep g (play env (.call r) x).1 (play env (.call r) y).1 := by
  have hstep : ∀ (c : Unit) (x y : Desk) {β : Type} (i : Stmt β), InStep g x y →
      (Trimming g).Allowed c i → (i.atDesk x).2 = (i.atDesk y).2 ∧
        (Trimming g).Answers i (i.atDesk x).2 ∧ InStep g (i.atDesk x).1 (i.atDesk y).1 :=
    fun c x y β i h hi => atDesk_inStep hi h
  obtain ⟨hanswer,-,-,hnext⟩ := Observer.wp_lockstep hstep h (careful_handle env hr)
  exact ⟨congrArg (fun a => [a]) hanswer.symm,hnext⟩

theorem atDesk_outside {α : Type} (p : Job α) (x : Desk) :
    (p.eval Stmt.atDesk x).1.state.outside = x.state.outside := by
  induction p generalizing x with
  | ret a => rfl
  | step i k ih => exact ih (i.atDesk x).2 (i.atDesk x).1

theorem cleanup_inStep {w : Sweep} (h : InStep g x y) (hclock : Monotone fun k => (x.state.outside k).clock)
    (htime : Timely y (.cleanup w)) (hseen : Unseen y (.cleanup w)) :
    ∃ g', InStep g' x (y.cleanup w) := by
  rw [Timely,inStep_now h] at htime
  have hnow : g.now ≤ x.state.now.clock := h.past x.state.tick (Nat.le_refl _)
  obtain ⟨g',hg,hp⟩ := pruned_cleanup h.pruned hseen htime.1 htime.2 hnow
  refine ⟨g',hp,h.tick,h.outside,h.sends,fun k hk => ?_⟩
  rw [hg]
  exact hclock hk

theorem playAll_inStep {turns : List Turn} (h : InStep g x y)
    (hclock : Monotone fun k => (x.state.outside k).clock) (htime : Throughout env Timely turns y)
    (hseen : Throughout env Unseen turns y) :
    (playAll env turns y).2 = (playAll env (turns.filter Turn.isCall) x).2 ∧
      (playAll env turns y).1.sends = (playAll env (turns.filter Turn.isCall) x).1.sends := by
  induction turns generalizing g x y with
  | nil => exact ⟨rfl,h.sends⟩
  | cons turn turns ih =>
    cases turn with
    | cleanup w =>
      obtain ⟨g',hnext⟩ := cleanup_inStep h hclock htime.1 hseen.1
      exact ih hnext hclock htime.2 hseen.2
    | call r =>
      obtain ⟨hanswer,hnext⟩ := call_inStep env hseen.1 h
      have hsame : (play env (.call r) x).1.state.outside = x.state.outside :=
        atDesk_outside (handle env r) x
      obtain ⟨hanswers,hsends⟩ := ih hnext (hsame ▸ hclock) htime.2 hseen.2
      exact ⟨congrArg₂ (· ++ ·) hanswer hanswers,hsends⟩

theorem inStep_start (hclock : Monotone fun k => (x.state.outside k).clock) :
    InStep ⟨fun _ => false,fun _ => false,x.state.now.clock⟩ x x where
  pruned := ⟨⟨.start _,.start _,rfl⟩,fun _ => rfl⟩
  tick := rfl
  outside := rfl
  sends := rfl
  past _ hk := hclock hk

theorem pruning_unseen (env : Env) (turns : List Turn) (x : Desk)
    (hclock : Monotone fun k => (x.state.outside k).clock) (htime : Throughout env Timely turns x)
    (hseen : Throughout env Unseen turns x) :
    (playAll env turns x).2 = (playAll env (turns.filter Turn.isCall) x).2 ∧
      (playAll env turns x).1.sends = (playAll env (turns.filter Turn.isCall) x).1.sends :=
  playAll_inStep (inStep_start hclock) hclock htime hseen

end Runs

section Sample

def oneAnHour : Policy := { defaultPolicy with emailPerHour := 1 }

def lateWorker (t : Nat) : Outside :=
  { Outside.at (if t < 4 then 0 else 90000) with policy := some oneAnHour }

def sweepAt (now : Int) : Turn := .cleanup ⟨1,now,now,fun _ => 0,[],fun _ _ => false⟩

def lateTurns : List Turn :=
  [.call (.dispatch (.alert "disk" ["EMAIL"] false)),.call .drain,
    .call (.dispatch (.alert "cpu" ["EMAIL"] false)),sweepAt (90000 * second),.call .drain]

def freshDesk (outside : Nat → Outside) : Desk := ⟨⟨.empty,0,outside⟩,fun _ => 0,[]⟩

theorem lateWorker_monotone : Monotone fun t => (lateWorker t).clock := by
  intro t u htu
  simp only [lateWorker,Outside.at,second]
  split <;> split <;> omega

theorem pruning_spends_budget_twice :
    Monotone (fun t => (lateWorker t).clock) ∧ Throughout .utc Timely lateTurns (freshDesk lateWorker) ∧
      (playAll .utc lateTurns (freshDesk lateWorker)).1.sends.length = 2 ∧
      (playAll .utc (lateTurns.filter Turn.isCall) (freshDesk lateWorker)).1.sends.length = 1 := by
  refine ⟨lateWorker_monotone,⟨trivial,trivial,trivial,⟨by decide,by decide⟩,trivial,trivial⟩,?_,?_⟩
  · decide
  · decide

def nextDays (t : Nat) : Outside :=
  { Outside.at (if t < 14 then 0 else 180000) with policy := some oneAnHour }

def nextTurns : List Turn :=
  [.call (.dispatch (.alert "disk" ["EMAIL"] false)),.call .drain,
    .call (.dispatch (.alert "cpu" ["EMAIL"] false)),sweepAt (180000 * second),.call .drain]

theorem nextDays_monotone : Monotone fun t => (nextDays t).clock := by
  intro t u htu
  simp only [nextDays,Outside.at,second]
  split <;> split <;> omega

theorem old_rows_pruned_unseen :
    ((playAll .utc nextTurns (freshDesk nextDays)).2 =
        (playAll .utc (nextTurns.filter Turn.isCall) (freshDesk nextDays)).2 ∧
      (playAll .utc nextTurns (freshDesk nextDays)).1.sends =
        (playAll .utc (nextTurns.filter Turn.isCall) (freshDesk nextDays)).1.sends) ∧
      (playAll .utc nextTurns (freshDesk nextDays)).1.sends.length = 2 := by
  have htime : Throughout .utc Timely nextTurns (freshDesk nextDays) :=
    ⟨trivial,trivial,trivial,⟨by decide,by decide⟩,trivial,trivial⟩
  have hrows : ((playAll .utc (nextTurns.take 3) (freshDesk nextDays)).1.state.store.outbox.rows.all
      fun r => decide (r.status = .sent → ∀ u ∈ r.sentAt, u ≤ 180000 * second - hour)) = true := by
    decide
  have hseen : Throughout .utc Unseen nextTurns (freshDesk nextDays) := by
    have hwindowed : ∀ key, Input.windowed (.alert key ["EMAIL"] false) :=
      fun _ => windowed_of_le (show (0 : Int) ≤ 153722867 by decide)
    refine ⟨hwindowed "disk",trivial,hwindowed "cpu",?_,trivial,trivial⟩
    intro r hr hsent _
    exact of_decide_eq_true (List.all_eq_true.mp hrows r hr) hsent
  exact ⟨pruning_unseen .utc nextTurns (freshDesk nextDays) nextDays_monotone htime hseen,by decide⟩

end Sample

end Delivery
