import ServerHub.Delivery.Drains

namespace Delivery

open Go Relational Interleave

structure OutboxRow.Fresh (r : OutboxRow) : Prop where
  status : r.status = .pending
  attempts : r.attempts = 0
  sentAt : r.sentAt = none

structure Grows (P : Channel → Prop) (s t : Store) : Prop where
  rows : ∃ new, t.outbox.rows = s.outbox.rows ++ new ∧
    ∀ r ∈ new, r.Fresh ∧ P r.channel ∧ s.outbox.next ≤ r.id
  next : s.outbox.next ≤ t.outbox.next
  providers : t.providers = s.providers

section Grows

variable {P : Channel → Prop} {s t u : Store}

theorem grows_same (ho : t.outbox = s.outbox) (hp : t.providers = s.providers) : Grows P s t :=
  ⟨⟨[],by simp [ho],by simp⟩,Nat.le_of_eq (by rw [ho]),hp⟩

theorem Grows.trans (h : Grows P s t) (k : Grows P t u) : Grows P s u := by
  obtain ⟨⟨new,hnew,hfresh⟩,hn,hp⟩ := h
  obtain ⟨⟨newer,hnewer,hfresher⟩,hm,hq⟩ := k
  refine ⟨⟨new ++ newer,by rw [hnewer,hnew,List.append_assoc],?_⟩,Nat.le_trans hn hm,hq.trans hp⟩
  intro r hr
  rcases List.mem_append.mp hr with hr | hr
  · exact hfresh r hr
  · obtain ⟨hf,hc,hid⟩ := hfresher r hr
    exact ⟨hf,hc,Nat.le_trans hn hid⟩

theorem grows_addOutbox {d : Draft} (h : P d.channel) : Grows P s (s.addOutbox d) := by
  refine ⟨⟨[d.row s.outbox.next],rfl,?_⟩,Nat.le_succ _,rfl⟩
  intro r hr
  rw [List.mem_singleton.mp hr]
  exact ⟨⟨rfl,rfl,rfl⟩,h,Nat.le_refl _⟩

theorem Grows.find_some (h : Grows P s t) {k : Nat} {r : OutboxRow}
    (hr : s.outbox.find k = some r) : t.outbox.find k = some r := by
  obtain ⟨new,hnew,-⟩ := h.rows
  obtain ⟨hm,rfl⟩ := Table.find_some hr
  exact Table.find_of_mem (hnew ▸ List.mem_append_left new hm)

theorem Grows.find_new (h : Grows P s t) {k : Nat} {r : OutboxRow}
    (hr : t.outbox.find k = some r) : s.outbox.find k = some r ∨
      (r.Fresh ∧ P r.channel ∧ s.outbox.next ≤ k) := by
  obtain ⟨new,hnew,hfresh⟩ := h.rows
  obtain ⟨hm,rfl⟩ := Table.find_some hr
  rw [hnew] at hm
  rcases List.mem_append.mp hm with hm | hm
  · exact .inl (Table.find_of_mem hm)
  · exact .inr (hfresh r hm)

theorem Grows.count (h : Grows P s t) {q : OutboxRow → Bool} (hq : ∀ r, r.Fresh → q r = false) :
    t.outbox.count q = s.outbox.count q := by
  obtain ⟨new,hnew,hfresh⟩ := h.rows
  have hzero : new.countP q = 0 := by
    refine List.countP_eq_zero.mpr fun r hr => ?_
    simp [hq r (hfresh r hr).1]
  simp only [Table.count,hnew,List.countP_append,hzero,Nat.add_zero]

end Grows

section Claim

variable {pol : Policy} {n : Notice} {ts : Int} {s t : Store} {rc : Receipt}
  {P : Channel → Prop}

theorem enqueue_grows {chs : List Channel} (hP : ∀ ch ∈ chs, P ch)
    (h : enqueue n ts chs s = .ok t) : Grows P s t := by
  induction chs generalizing s with
  | nil =>
    simp only [enqueue,Except.ok.injEq] at h
    exact h ▸ grows_same rfl rfl
  | cons ch chs ih =>
    simp only [enqueue] at h
    split at h
    · simp at h
    · rename_i d hd
      have hch : d.channel = ch := by
        simp only [Notice.draft,bind,Option.bind_eq_some_iff,pure,Option.some.injEq] at hd
        obtain ⟨title,-,body,-,rfl⟩ := hd
        rfl
      have hfirst : Grows P s (s.addOutbox d) := grows_addOutbox (hch ▸ hP ch (by simp))
      exact hfirst.trans (ih (fun c hc => hP c (by simp [hc])) h)

theorem upsertBatch_outbox (s : Store) (e : Entry) (keep : Bool) :
    (s.upsertBatch e keep).1.outbox = s.outbox ∧ (s.upsertBatch e keep).1.providers = s.providers := by
  unfold Store.upsertBatch
  split
  · exact ⟨rfl,rfl⟩
  · split <;> exact ⟨rfl,rfl⟩

theorem appendDigest_outbox {chs : List Channel} {hits : List (Channel × Option Nat)}
    (h : appendDigest n ts chs s = .ok (t,hits)) :
    t.outbox = s.outbox ∧ t.providers = s.providers := by
  induction chs generalizing s t hits with
  | nil =>
    simp only [appendDigest,Except.ok.injEq,Prod.mk.injEq] at h
    exact ⟨h.1 ▸ rfl,h.1 ▸ rfl⟩
  | cons ch chs ih =>
    simp only [appendDigest] at h
    split at h
    · simp at h
    · rename_i e he
      obtain ⟨⟨u,rest⟩,hrest,hu⟩ := except_bind_ok h
      simp only [pure,Except.pure,Except.ok.injEq,Prod.mk.injEq] at hu
      obtain ⟨ho,hp⟩ := upsertBatch_outbox s e false
      rw [← hu.1,(ih hrest).1,(ih hrest).2]
      exact ⟨ho,hp⟩

theorem suppressed_grows {l : Locals} {state : IncidentState} {reason : Reason}
    (h : suppressed n ts l state reason s = .ok (t,rc)) : Grows P s t := by
  simp only [suppressed,Except.ok.injEq,Prod.mk.injEq] at h
  exact h.1 ▸ grows_same rfl rfl

theorem notified_grows {l : Locals} {state : IncidentState} {b : Bool}
    (h : (if b then digested n ts l state s else queued n ts l state s) = .ok (t,rc)) :
    Grows (· ∈ n.channels) s t := by
  split at h
  · obtain ⟨⟨u,hits⟩,hu,h⟩ := except_bind_ok h
    simp only [pure,Except.pure,Except.ok.injEq,Prod.mk.injEq] at h
    obtain ⟨ho,hp⟩ := appendDigest_outbox hu
    exact h.1 ▸ grows_same ho hp
  · obtain ⟨u,hu,h⟩ := except_bind_ok h
    simp only [pure,Except.pure,Except.ok.injEq,Prod.mk.injEq] at h
    exact h.1 ▸ (enqueue_grows (fun _ hc => hc) hu).trans (grows_same rfl rfl)

theorem notify_grows {l : Locals} (h : notify n ts l s = .ok (t,rc)) :
    Grows (· ∈ n.channels) s t :=
  notified_grows (b := decide (n.input.digestMode = "digest" ∧ n.severity ≠ .critical))
    (by simpa [notify] using h)

theorem claim_grows (h : claimAndEnqueue pol n ts s = .ok (t,rc)) :
    Grows (· ∈ n.channels) s t := by
  simp only [claimAndEnqueue] at h
  split at h
  · simp only [recover] at h
    split at h
    · exact suppressed_grows h
    · exact notified_grows (b := decide (n.input.digestMode = "digest")) (by simpa using h)
  · simp only [fire] at h
    split at h
    · have hforget : Grows (· ∈ n.channels) s (s.forget n.input.key) := grows_same rfl rfl
      exact hforget.trans (notify_grows h)
    · split at h
      · exact suppressed_grows h
      · exact notify_grows h

theorem recordOverflow_outbox (s : Store) (r : OutboxRow) (ts : Int) :
    (s.recordOverflow r ts).1.outbox = s.outbox ∧
      (s.recordOverflow r ts).1.providers = s.providers := by
  unfold Store.recordOverflow
  split
  · exact ⟨rfl,rfl⟩
  · exact upsertBatch_outbox s _ true

theorem insertSummary_grows {b : DigestBatch} (h : P b.channel) (ts : Int) :
    Grows P s (s.insertSummary b ts).1 := by
  unfold Store.insertSummary
  split
  · exact grows_same rfl rfl
  · rename_i d hd
    have hch : d.channel = b.channel := by
      simp only [DigestBatch.summary,bind,Option.bind_eq_some_iff,pure,Option.some.injEq] at hd
      obtain ⟨title,-,body,-,rfl⟩ := hd
      rfl
    exact grows_addOutbox (hch ▸ h)

theorem insertSummaries_grows {bs : List DigestBatch} (h : ∀ b ∈ bs, P b.channel) (ts : Int) :
    Grows P s (s.insertSummaries ts bs) := by
  induction bs generalizing s with
  | nil => exact grows_same rfl rfl
  | cons b bs ih =>
    have hfirst : Grows P s (s.insertSummary b ts).1 := insertSummary_grows (h b (by simp)) ts
    exact hfirst.trans (ih fun b' hb => h b' (by simp [hb]))

theorem recordAttempt_outbox (s : Store) (id : Nat) (ok : Bool) (e : Option String)
    (latency now : Int) : (s.recordAttempt id ok e latency now).outbox = s.outbox ∧
      (s.recordAttempt id ok e latency now).providers = s.providers := by
  unfold Store.recordAttempt
  split <;> exact ⟨rfl,rfl⟩

theorem recordAttempt_batches (s : Store) (id : Nat) (ok : Bool) (e : Option String)
    (latency now : Int) : (s.recordAttempt id ok e latency now).batches = s.batches := by
  unfold Store.recordAttempt
  split <;> rfl

end Claim

theorem Grows.mono {P Q : Channel → Prop} {s t : Store} (h : Grows P s t) (hpq : ∀ ch, P ch → Q ch) :
    Grows Q s t := by
  obtain ⟨new,hnew,hfresh⟩ := h.rows
  refine ⟨⟨new,hnew,fun r hr => ?_⟩,h.next,h.providers⟩
  obtain ⟨hf,hc,hid⟩ := hfresh r hr
  exact ⟨hf,hpq _ hc,hid⟩

section Batches

variable {P : String → Channel → Prop} {pol : Policy} {n : Notice} {ts : Int} {s t : Store} {rc : Receipt}

def Store.Routed (P : String → Channel → Prop) (s : Store) : Prop :=
  ∀ b ∈ s.batches.rows, P b.digestKey b.channel

theorem routed_modify {p : DigestBatch → Bool} {f : DigestBatch → DigestBatch}
    {hf : ∀ b, key (f b) = key b} (h : s.Routed P)
    (hch : ∀ b, (f b).digestKey = b.digestKey ∧ (f b).channel = b.channel) :
    ∀ b ∈ (s.batches.modify p f hf).rows, P b.digestKey b.channel := by
  intro b hb
  obtain ⟨a,ha,rfl⟩ := Serial.mem_modify.mp hb
  split
  · rw [(hch a).1,(hch a).2]
    exact h a ha
  · exact h a ha

theorem upsertBatch_routed {e : Entry} {keep : Bool} (h : s.Routed P) (he : P e.digestKey e.channel) :
    (s.upsertBatch e keep).1.Routed P := by
  unfold Store.upsertBatch
  split
  · intro b hb
    have hb : b ∈ (s.batches.insert e.row fun _ => rfl).rows := hb
    rcases Serial.mem_insert.mp hb with hb | rfl
    · exact h b hb
    · exact he
  · split
    · exact routed_modify h fun _ => ⟨rfl,rfl⟩
    · exact h

theorem entry_label {ch : Channel} {e : Entry} (h : n.entry ts ch = some e) :
    e.digestKey = digestKey n.input ++ "::" ++ ch.text ∧ e.channel = ch := by
  simp only [Notice.entry,bind,Option.bind_eq_some_iff,pure,Option.some.injEq] at h
  obtain ⟨title,-,resource,-,rfl⟩ := h
  exact ⟨rfl,rfl⟩

theorem appendDigest_routed {chs : List Channel} {hits : List (Channel × Option Nat)}
    (h : s.Routed P) (hP : ∀ ch ∈ chs, P (digestKey n.input ++ "::" ++ ch.text) ch) (ha : appendDigest n ts chs s = .ok (t,hits)) :
    t.Routed P := by
  induction chs generalizing s t hits with
  | nil =>
    simp only [appendDigest,Except.ok.injEq,Prod.mk.injEq] at ha
    exact ha.1 ▸ h
  | cons ch chs ih =>
    simp only [appendDigest] at ha
    split at ha
    · simp at ha
    · rename_i e he
      have hch : P e.digestKey e.channel := by
        obtain ⟨hkey,hchannel⟩ := entry_label he
        rw [hkey,hchannel]
        exact hP ch (by simp)
      obtain ⟨⟨u,rest⟩,hrest,hu⟩ := except_bind_ok ha
      simp only [pure,Except.pure,Except.ok.injEq,Prod.mk.injEq] at hu
      rw [← hu.1]
      exact ih (upsertBatch_routed h hch) (fun c hc => hP c (by simp [hc])) hrest

theorem enqueue_batches {chs : List Channel} (h : enqueue n ts chs s = .ok t) :
    t.batches = s.batches := by
  induction chs generalizing s with
  | nil =>
    simp only [enqueue,Except.ok.injEq] at h
    rw [h]
  | cons ch chs ih =>
    simp only [enqueue] at h
    split at h
    · simp at h
    · exact (ih h).trans rfl

theorem notified_routed {l : Locals} {state : IncidentState} {b : Bool} (hs : s.Routed P)
    (hP : ∀ ch ∈ n.channels, P (digestKey n.input ++ "::" ++ ch.text) ch)
    (h : (if b then digested n ts l state s else queued n ts l state s) = .ok (t,rc)) :
    t.Routed P := by
  split at h
  · obtain ⟨⟨u,hits⟩,hu,h⟩ := except_bind_ok h
    simp only [pure,Except.pure,Except.ok.injEq,Prod.mk.injEq] at h
    have hu := appendDigest_routed hs hP hu
    rw [← h.1]
    exact hu
  · obtain ⟨u,hu,h⟩ := except_bind_ok h
    simp only [pure,Except.pure,Except.ok.injEq,Prod.mk.injEq] at h
    have hsame := enqueue_batches hu
    rw [← h.1]
    intro b hb
    exact hs b (hsame ▸ hb)

theorem suppressed_routed {l : Locals} {state : IncidentState} {reason : Reason} (hs : s.Routed P)
    (h : suppressed n ts l state reason s = .ok (t,rc)) : t.Routed P := by
  simp only [suppressed,Except.ok.injEq,Prod.mk.injEq] at h
  exact h.1 ▸ hs

theorem claim_routed (hs : s.Routed P) (hP : ∀ ch ∈ n.channels, P (digestKey n.input ++ "::" ++ ch.text) ch)
    (h : claimAndEnqueue pol n ts s = .ok (t,rc)) : t.Routed P := by
  have hnotify : ∀ {l : Locals} {u : Store}, u.Routed P → notify n ts l u = .ok (t,rc) →
      t.Routed P := fun hu hn => notified_routed
    (b := decide (n.input.digestMode = "digest" ∧ n.severity ≠ .critical)) hu hP
    (by simpa [notify] using hn)
  simp only [claimAndEnqueue] at h
  split at h
  · simp only [recover] at h
    split at h
    · exact suppressed_routed hs h
    · exact notified_routed (b := decide (n.input.digestMode = "digest")) hs hP (by simpa using h)
  · simp only [fire] at h
    split at h
    · exact hnotify (u := s.forget n.input.key) hs h
    · split at h
      · exact suppressed_routed hs h
      · exact hnotify hs h

theorem recordOverflow_routed {r : OutboxRow} (h : s.Routed P)
    (hr : P ("overflow::" ++ r.channel.text) r.channel) (ts : Int) :
    (s.recordOverflow r ts).1.Routed P := by
  unfold Store.recordOverflow
  split
  · exact h
  · rename_i e he
    have hch : P e.digestKey e.channel := by
      simp only [OutboxRow.overflow,bind,Option.bind_eq_some_iff,pure,Option.some.injEq] at he
      obtain ⟨_,-,_,-,rfl⟩ := he
      exact hr
    exact upsertBatch_routed h hch

theorem insertSummary_routed {b : DigestBatch} (h : s.Routed P) (ts : Int) :
    (s.insertSummary b ts).1.Routed P := by
  unfold Store.insertSummary
  split <;> exact h

end Batches

section Rows

variable {s t : Store} {k : Nat} {r : OutboxRow}

theorem find_resolve (s : Store) (id : Nat) (x : Resolution) (k : Nat) :
    (s.resolve id x).outbox.find k =
      if k = id ∧ x.error.isSome then (s.outbox.find k).map x.apply else s.outbox.find k := by
  unfold Store.resolve
  by_cases he : x.error.isSome = true
  · rw [if_pos he]
    show (s.outbox.modify (·.id == id) x.apply x.key_apply).find k = _
    rw [Serial.find_modify]
    cases hr : s.outbox.find k with
    | none => simp
    | some r =>
      have hid : r.id = k := (Table.find_some hr).2
      by_cases hk : k = id
      · simp [hid,hk,he]
      · simp [hid,hk]
  · rw [if_neg he,if_neg fun h => he h.2]

theorem find_resolve_ne {id : Nat} {x : Resolution} (h : k ≠ id) :
    (s.resolve id x).outbox.find k = s.outbox.find k := by
  rw [find_resolve,if_neg fun hk => h hk.1]

theorem find_resolve_self {x : Resolution} (h : x.error.isSome = true)
    (hr : s.outbox.find k = some r) : (s.resolve k x).outbox.find k = some (x.apply r) := by
  rw [find_resolve,if_pos ⟨rfl,h⟩,hr]
  rfl

theorem resolve_next (s : Store) (id : Nat) (x : Resolution) :
    (s.resolve id x).outbox.next = s.outbox.next := by
  unfold Store.resolve
  split <;> rfl

theorem resolve_providers (s : Store) (id : Nat) (x : Resolution) :
    (s.resolve id x).providers = s.providers := by
  unfold Store.resolve
  split <;> rfl

theorem resolve_batches (s : Store) (id : Nat) (x : Resolution) :
    (s.resolve id x).batches = s.batches := by
  unfold Store.resolve
  split <;> rfl

theorem find_markSending (s : Store) (rows : List OutboxRow) (k : Nat) :
    (s.markSending rows).outbox.find k = (s.outbox.find k).map fun r =>
      if rows.any (·.id == r.id) then { r with status := .sending } else r :=
  Serial.find_modify

theorem find_markSending_ne {rows : List OutboxRow} (h : ∀ r ∈ rows, k ≠ r.id) :
    (s.markSending rows).outbox.find k = s.outbox.find k := by
  rw [find_markSending]
  cases hr : s.outbox.find k with
  | none => rfl
  | some r =>
    have hnot : rows.any (·.id == r.id) = false := by
      refine List.any_eq_false.mpr fun d hd he => h d hd ?_
      rw [beq_iff_eq.mp he]
      exact (Table.find_some hr).2.symm
    rw [Option.map_some,hnot]
    rfl

theorem due_spec {locked : Nat → Bool} {ts : Int} (h : r ∈ s.due locked ts) :
    r ∈ s.outbox.rows ∧ r.status.due = true ∧ r.nextRetryAt ≤ ts := by
  have hm := mem_orderBy.mp (List.mem_of_mem_take h)
  obtain ⟨hm,hp⟩ := List.mem_filter.mp hm
  simp only [Bool.and_eq_true,decide_eq_true_eq] at hp
  exact ⟨hm,hp.1.1,hp.1.2⟩

theorem due_nodup (s : Store) (locked : Nat → Bool) (ts : Int) :
    ((s.due locked ts).map OutboxRow.id).Nodup := s.outbox.nodup_select _ _ _

theorem dueBatches_spec {locked : Nat → Bool} {ts : Int} {b : DigestBatch}
    (h : b ∈ s.dueBatches locked ts) :
    b ∈ s.batches.rows ∧ b.status = .opened ∧ b.windowEnd ≤ ts := by
  have hm := mem_orderBy.mp (List.mem_of_mem_take h)
  obtain ⟨hm,hp⟩ := List.mem_filter.mp hm
  simp only [Bool.and_eq_true,decide_eq_true_eq] at hp
  exact ⟨hm,hp.1.1,hp.1.2⟩

def Claimed (s : Store) (r : OutboxRow) : Prop :=
  s.outbox.find r.id = some { r with status := .sending }

theorem markSending_claimed {rows : List OutboxRow} (hrows : ∀ r ∈ rows, r ∈ s.outbox.rows)
    (h : r ∈ rows) : Claimed (s.markSending rows) r := by
  have hfind : s.outbox.find r.id = some r := Table.find_of_mem (hrows r h)
  have hany : rows.any (·.id == r.id) = true := List.any_eq_true.mpr ⟨r,h,by simp⟩
  rw [Claimed,find_markSending,hfind,Option.map_some,if_pos hany]

variable {may : Fallible → Prop} {pol : Policy} {ts : Int} {sent : List Mark} {u v : Store}

theorem attempt_outbox {ok : Bool} {e : Option String} {latency now : Int}
    (h : Ran may .attempt u (u.recordAttempt r.id ok e latency now) v) (hu : u.outbox = s.outbox) :
    v.outbox = s.outbox :=
  (h.same (f := Store.outbox) (recordAttempt_outbox u r.id ok e latency now).1).trans hu

theorem trip_outbox {ch : Channel} {n : Int} (h : Ran may .openCircuit s (s.trip ch n ts) u) :
    u.outbox = s.outbox := h.same rfl

theorem close_outbox {ch : Channel} (h : Ran may .closeCircuit s (s.closeCircuit ch ts) u) :
    u.outbox = s.outbox := h.same rfl

theorem Ran.frame {id : Nat} {x : Resolution} (h : Ran may .rowUpdate s (s.resolve id x) t)
    (hk : k ≠ id) : t.outbox.find k = s.outbox.find k :=
  h.same (f := fun s => s.outbox.find k) (find_resolve_ne hk)

theorem handled_frame (h : Handled may pol ts r s t sent) (hk : k ≠ r.id) :
    t.outbox.find k = s.outbox.find k := by
  cases h with
  | skipped msg hopen ht => exact ht.frame hk
  | throttled msg ht =>
    rw [(recordOverflow_outbox _ r ts).1]
    exact ht.frame hk
  | refused e n now hpassed hx hn hu hv ht => rw [ht.frame hk,attempt_outbox hv (trip_outbox hu)]
  | delivered latency now hsup hpassed hu hv ht =>
    rw [ht.frame hk,attempt_outbox hv (close_outbox hu)]

theorem handledAll_invariant {I : Store → List Mark → Prop}
    (hstep : ∀ r s t sent log, Claimed s r → I s log → Handled may pol ts r s t sent →
      I t (sent ++ log))
    {rows : List OutboxRow} {log : List Mark} (hnodup : (rows.map OutboxRow.id).Nodup)
    (hrows : ∀ r ∈ rows, Claimed s r) (hI : I s log) (h : HandledAll may pol ts rows s t sent) :
    I t (sent ++ log) := by
  induction h generalizing log with
  | nil s => exact hI
  | @cons r rows s t u first later hr hs ih =>
    rw [List.map_cons,List.nodup_cons] at hnodup
    have hfirst := hstep r s t first log (hrows r (by simp)) hI hr
    rw [List.append_assoc]
    refine ih hnodup.2 ?_ hfirst
    intro r' hr'
    have hne : r'.id ≠ r.id := fun e => hnodup.1 (e ▸ List.mem_map_of_mem hr')
    rw [Claimed,handled_frame hr hne]
    exact hrows r' (by simp [hr'])

theorem drained_invariant (log : List Mark) {x : State} {I : Store → List Mark → Prop}
    (hmark : ∀ locked ts, I (x.store.markSending (x.store.due locked ts)) log)
    (hstep : ∀ u ts r s t sent log, 0 ≤ ts → Claimed s r → I s log →
      Handled x.may (Policy.loaded (x.outside u).policy) ts r s t sent → I t (sent ++ log))
    (h : Drained x t sent) : I t (sent ++ log) := by
  obtain ⟨pol,ts,locked,u,rfl,hts,hall⟩ := h
  exact handledAll_invariant (fun r s t sent log => hstep u ts r s t sent log hts)
    (due_nodup x.store locked ts)
    (fun r hr => markSending_claimed (fun r hr => (due_spec hr).1) hr) (hmark locked ts) hall

end Rows

end Delivery
