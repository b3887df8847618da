import ServerHub.Delivery.Limits
import ServerHub.Delivery.Batches

namespace Delivery

open Go Relational Interleave

def successes (log : List Mark) (id : Nat) : Nat :=
  (calls log).countP fun x => x.id == id && x.ok

def Mark.summarySuccesses (log : List Mark) (batch : Nat) : Mark → Nat
  | .summarised b (some row) => if b = batch then successes log row else 0
  | _ => 0

def Mark.overflowSuccesses (log : List Mark) (id : Nat) : Mark → Nat
  | .overflowed i (some batch) =>
      if i = id then (log.map (Mark.summarySuccesses log batch)).sum else 0
  | _ => 0

def reached (log : List Mark) (id : Nat) : Nat :=
  successes log id + (log.map (Mark.overflowSuccesses log id)).sum

def Store.undelivered (s : Store) : Nat := s.outbox.count fun r => decide (r.status ≠ .sent)

def Store.openBatches (s : Store) : Nat := s.batches.count fun b => decide (b.status = .opened)

def Store.backlog (s : Store) : Nat := s.undelivered + s.openBatches

def Mark.overflow : Mark → Bool
  | .overflowed _ _ => true
  | _ => false

def throttled (log : List Mark) : Nat := log.countP Mark.overflow

def Mark.overflows (id : Nat) : Mark → Bool
  | .overflowed i _ => i == id
  | _ => false

def overBudget (log : List Mark) (id : Nat) : Nat := log.countP (Mark.overflows id)

def summaries (log : List Mark) (batch : Nat) : Nat := (log.map Mark.batch).count (some batch)

structure Once (s : Store) (log : List Mark) : Prop where
  single : ∀ id, successes log id ≤ 1
  settled : ∀ id, 0 < successes log id → ∃ r, s.outbox.find id = some r ∧ r.status = .sent

section Once

variable {s t : Store} {ts : Int} {r : OutboxRow} {log sent : List Mark}

theorem successes_append (sent log : List Mark) (id : Nat) :
    successes (sent ++ log) id = successes sent id + successes log id := by
  simp only [successes,calls_append,List.countP_append]

theorem summarySuccesses_le (hone : ∀ id, successes log id ≤ 1) (batch : Nat) (sent : List Mark) :
    (sent.map (Mark.summarySuccesses log batch)).sum ≤ summaries sent batch := by
  induction sent with
  | nil => exact Nat.le_refl 0
  | cons m sent ih =>
    have hm : Mark.summarySuccesses log batch m ≤ if m.batch == some batch then 1 else 0 := by
      cases m with
      | summarised b row =>
        cases row with
        | none => exact Nat.zero_le _
        | some row =>
          by_cases hb : b = batch
          · simpa [Mark.summarySuccesses,Mark.batch,hb] using hone row
          · simp [Mark.summarySuccesses,hb]
      | sent x => exact Nat.zero_le _
      | overflowed i hit => exact Nat.zero_le _
    simp only [summaries,List.map_cons,List.sum_cons,List.count_cons] at ih ⊢
    omega

theorem overflowSuccesses_le (hone : ∀ id, successes log id ≤ 1)
    (hsummed : ∀ batch, summaries log batch ≤ 1) (id : Nat) (sent : List Mark) :
    (sent.map (Mark.overflowSuccesses log id)).sum ≤ overBudget sent id := by
  induction sent with
  | nil => exact Nat.le_refl 0
  | cons m sent ih =>
    have hm : Mark.overflowSuccesses log id m ≤ if m.overflows id then 1 else 0 := by
      cases m with
      | overflowed i hit =>
        cases hit with
        | none => exact Nat.zero_le _
        | some batch =>
          have hle := Nat.le_trans (summarySuccesses_le hone batch log) (hsummed batch)
          by_cases hi : i = id
          · simpa [Mark.overflowSuccesses,Mark.overflows,hi] using hle
          · simp [Mark.overflowSuccesses,hi]
      | sent x => exact Nat.zero_le _
      | summarised b row => exact Nat.zero_le _
    simp only [overBudget,List.map_cons,List.sum_cons,List.countP_cons] at ih ⊢
    omega

theorem Once.quiet (h : Once s log) (hsent : ∀ id, successes sent id = 0)
    (hfind : ∀ id r, s.outbox.find id = some r → r.status = .sent →
      ∃ r', t.outbox.find id = some r' ∧ r'.status = .sent) : Once t (sent ++ log) := by
  constructor
  · intro id
    rw [successes_append,hsent,Nat.zero_add]
    exact h.single id
  · intro id hpos
    rw [successes_append,hsent,Nat.zero_add] at hpos
    obtain ⟨r,hr,hst⟩ := h.settled id hpos
    exact hfind id r hr hst

theorem once_handled {may : Fallible → Prop} {pol : Policy} (hkept : ¬ may .rowUpdate)
    (hclaimed : Claimed s r) (h : Once s log) (hh : Handled may pol ts r s t sent) :
    Once t (sent ++ log) := by
  have hkeep : ∀ id r', s.outbox.find id = some r' → r'.status = .sent →
      ∃ r'', t.outbox.find id = some r'' ∧ r''.status = .sent := by
    intro id r' hr' hst
    have hne : id ≠ r.id := by
      rintro rfl
      rw [hclaimed,Option.some.injEq] at hr'
      rw [← hr'] at hst
      exact nomatch hst
    exact ⟨r',by rw [handled_frame hh hne,hr'],hst⟩
  have hunsent : successes log r.id = 0 := by
    by_contra hne
    obtain ⟨r',hr',hst⟩ := h.settled r.id (Nat.pos_of_ne_zero hne)
    rw [hclaimed,Option.some.injEq] at hr'
    rw [← hr'] at hst
    exact nomatch hst
  cases hh with
  | skipped msg hopen ht => exact h.quiet (fun _ => rfl) hkeep
  | throttled msg ht => exact h.quiet (fun _ => rfl) hkeep
  | refused e n now hpassed hx hn hu hv ht =>
    refine h.quiet (fun id => ?_) hkeep
    rw [successes,calls_attempted]
    split <;> simp
  | delivered latency now hsup hpassed hu hv ht =>
    have hone : ∀ id, successes (attempted ts r true) id = if r.id = id then 1 else 0 := by
      intro id
      rw [successes,calls_attempted,if_pos hsup]
      simp [List.countP_singleton]
    constructor
    · intro id
      rw [successes_append,hone]
      split
      · rename_i he
        rw [← he,hunsent]
      · rw [Nat.zero_add]
        exact h.single id
    · intro id hpos
      by_cases he : r.id = id
      · subst he
        refine ⟨(Resolution.sent ts).apply { r with status := .sending },?_,rfl⟩
        rw [ht.done hkept]
        refine find_resolve_self rfl ?_
        rw [attempt_outbox hv (close_outbox hu)]
        exact hclaimed
      · rw [successes_append,hone,if_neg he,Nat.zero_add] at hpos
        obtain ⟨r',hr',hst⟩ := h.settled id hpos
        exact hkeep id r' hr' hst

theorem once_markSending {x : Store} {locked : Nat → Bool} (h : Once x log) :
    Once (x.markSending (x.due locked ts)) log := by
  have hsilent : ∀ id, successes [] id = 0 := fun _ => rfl
  refine h.quiet hsilent fun id r hr hst => ?_
  refine ⟨r,?_,hst⟩
  have hnot : ∀ d ∈ x.due locked ts, id ≠ d.id := by
    intro d hd he
    obtain ⟨hm,hdue,-⟩ := due_spec hd
    have hfind : x.outbox.find d.id = some d := Table.find_of_mem hm
    rw [← he,hr,Option.some.injEq] at hfind
    rw [← hfind,hst] at hdue
    exact nomatch hdue
  rw [find_markSending_ne hnot,hr]

theorem once_served {env : Env} {x : State} {q : Request} (hkept : x.Sound .rowUpdate)
    (h : Once x.store log) (hs : Served env x q t sent) : Once t (sent ++ log) := by
  cases hs with
  | dispatch hd =>
    refine h.quiet (fun _ => rfl) fun id r hr hst => ?_
    cases hd with
    | refused e hstore ha => exact ⟨r,hstore ▸ hr,hst⟩
    | gated reason now hg hstore ha => exact ⟨r,hstore ▸ hr,hst⟩
    | claimed rc hg hclaim ha => exact ⟨r,(claim_grows hclaim).find_some hr,hst⟩
  | drain hd =>
    refine drained_invariant log (I := Once) (fun locked ts => once_markSending h) ?_ hd
    intro u ts r s t sent log _ hc hI hh
    exact once_handled hkept.not_may hc hI hh
  | flushDigests locked ts hsum =>
    refine h.quiet (fun id => by rw [successes,calls_summaries hsum]; rfl) ?_
    intro id r hr hst
    exact ⟨r,(insertSummaries_grows (P := fun _ => True) (fun _ _ => trivial) ts).find_some hr,hst⟩
  | requeueStale =>
    refine h.quiet (fun _ => rfl) fun id r hr hst => ⟨r,?_,hst⟩
    have hfind : x.store.requeue.outbox.find id = (x.store.outbox.find id).map fun r =>
      if decide (r.status = .sending) then { r with status := .pending } else r := Serial.find_modify
    rw [hfind,hr]
    simp [hst]

end Once

structure Summed (s : Store) (log : List Mark) : Prop where
  single : ∀ batch, summaries log batch ≤ 1
  flushed : ∀ batch, 0 < summaries log batch →
    ∃ b, s.batches.find batch = some b ∧ b.status = .flushed

section Summed

variable {s t : Store} {ts : Int} {r : OutboxRow} {log sent : List Mark}

theorem summaries_append (sent log : List Mark) (batch : Nat) :
    summaries (sent ++ log) batch = summaries sent batch + summaries log batch := by
  simp only [summaries,List.map_append,List.count_append]

theorem Summed.quiet (h : Summed s log) (hsent : ∀ batch, summaries sent batch = 0)
    (hfind : ∀ id b, s.batches.find id = some b →
      ∃ b', t.batches.find id = some b' ∧ b'.status = b.status) : Summed t (sent ++ log) := by
  constructor
  · intro batch
    rw [summaries_append,hsent,Nat.zero_add]
    exact h.single batch
  · intro batch hpos
    rw [summaries_append,hsent,Nat.zero_add] at hpos
    obtain ⟨b,hb,hst⟩ := h.flushed batch hpos
    obtain ⟨b',hb',hsame⟩ := hfind batch b hb
    exact ⟨b',hb',hsame.trans hst⟩

theorem Summed.same (h : Summed s log) (hsent : ∀ batch, summaries sent batch = 0)
    (ht : t.batches = s.batches) : Summed t (sent ++ log) :=
  h.quiet hsent fun id b hb => ⟨b,by rw [ht,hb],rfl⟩

theorem resolved_batches {may : Fallible → Prop} {id : Nat} {x : Resolution}
    (h : Ran may .rowUpdate s (s.resolve id x) t) : t.batches = s.batches :=
  h.same (f := Store.batches) (resolve_batches s id x)

theorem summaries_attempted (ts : Int) (r : OutboxRow) (ok : Bool) (batch : Nat) :
    summaries (attempted ts r ok) batch = 0 := by
  unfold attempted
  split <;> rfl

theorem recordOverflow_frame (s : Store) (r : OutboxRow) (ts : Int) {id : Nat} {b : DigestBatch}
    (hb : s.batches.find id = some b) :
    ∃ b', (s.recordOverflow r ts).1.batches.find id = some b' ∧ b'.status = b.status := by
  unfold Store.recordOverflow
  split
  · exact ⟨b,hb,rfl⟩
  · obtain ⟨b',hb',hsame⟩ := (upserted _ true s).frame hb
    exact ⟨b',hb',hsame.status⟩

theorem handled_batches {may : Fallible → Prop} {pol : Policy} (h : Handled may pol ts r s t sent) :
    t.batches = s.batches ∧ throttled sent = 0 ∨
      ∃ u : Store, u.batches = s.batches ∧ t = (u.recordOverflow r ts).1 ∧ throttled sent = 1 := by
  cases h with
  | skipped msg hopen ht => exact .inl ⟨resolved_batches ht,rfl⟩
  | throttled msg ht => exact .inr ⟨_,resolved_batches ht,rfl,rfl⟩
  | @refused x e n now u v t hpassed hx hn hu hv ht =>
    refine .inl ⟨?_,by unfold attempted; split <;> rfl⟩
    rw [resolved_batches ht,hv.same (f := Store.batches) (recordAttempt_batches u ..)]
    exact hu.same rfl
  | @delivered latency now u v t hsup hpassed hu hv ht =>
    refine .inl ⟨?_,by unfold attempted; split <;> rfl⟩
    rw [resolved_batches ht,hv.same (f := Store.batches) (recordAttempt_batches u ..)]
    exact hu.same rfl

theorem handled_unsummarised {may : Fallible → Prop} {pol : Policy}
    (h : Handled may pol ts r s t sent) (batch : Nat) : summaries sent batch = 0 := by
  cases h with
  | refused e n now hpassed hx hn hu hv ht => exact summaries_attempted ts r false batch
  | delivered latency now hsup hpassed hu hv ht => exact summaries_attempted ts r true batch
  | _ => rfl

theorem summed_handled {may : Fallible → Prop} {pol : Policy} (h : Summed s log)
    (hh : Handled may pol ts r s t sent) : Summed t (sent ++ log) := by
  rcases handled_batches hh with ⟨hsame,-⟩ | ⟨u,hu,rfl,-⟩
  · exact h.same (handled_unsummarised hh) hsame
  · refine h.quiet (handled_unsummarised hh) fun id b hb => ?_
    exact recordOverflow_frame u r ts (hu ▸ hb)

theorem summaries_flushed {bs : List DigestBatch} (h : Summaries bs sent) (batch : Nat) :
    summaries sent batch = (bs.map DigestBatch.id).count batch := by
  have hmap : (bs.map fun b => some b.id) = (bs.map DigestBatch.id).map some := by simp
  rw [summaries,h,List.count_reverse,hmap]
  exact List.count_map_of_injective _ _ (Option.some_injective _) _

theorem insertSummaries_batches (s : Store) (ts : Int) (bs : List DigestBatch) :
    (s.insertSummaries ts bs).batches = s.batches := by
  induction bs generalizing s with
  | nil => rfl
  | cons b bs ih =>
    refine (ih (s.insertSummary b ts).1).trans ?_
    unfold Store.insertSummary
    split <;> rfl

theorem summed_flushed {x : Store} {locked : Nat → Bool} (h : Summed x log)
    (hsent : Summaries (x.dueBatches locked ts) sent) :
    Summed ((x.markFlushed (x.dueBatches locked ts)).insertSummaries ts (x.dueBatches locked ts))
      (sent ++ log) := by
  have hnodup : ((x.dueBatches locked ts).map DigestBatch.id).Nodup := x.batches.nodup_select _ _ _
  have hopen : ∀ d ∈ x.dueBatches locked ts, summaries log d.id = 0 := by
    intro d hd
    by_contra hne
    obtain ⟨b,hb,hst⟩ := h.flushed d.id (Nat.pos_of_ne_zero hne)
    obtain ⟨hm,ho,-⟩ := dueBatches_spec hd
    have hfind : x.batches.find d.id = some d := Table.find_of_mem hm
    rw [hfind,Option.some.injEq] at hb
    rw [hb,hst] at ho
    exact absurd ho (by decide)
  have hone := fun batch => List.nodup_iff_count_le_one.mp hnodup batch
  constructor
  · intro batch
    rw [summaries_append,summaries_flushed hsent]
    by_cases hin : batch ∈ (x.dueBatches locked ts).map DigestBatch.id
    · obtain ⟨d,hd,rfl⟩ := List.mem_map.mp hin
      rw [hopen d hd]
      exact hone d.id
    · rw [List.count_eq_zero.mpr hin,Nat.zero_add]
      exact h.single batch
  · intro batch hpos
    rw [insertSummaries_batches,find_markFlushed]
    by_cases hin : batch ∈ (x.dueBatches locked ts).map DigestBatch.id
    · obtain ⟨d,hd,rfl⟩ := List.mem_map.mp hin
      have hfind : x.batches.find d.id = some d := Table.find_of_mem (dueBatches_spec hd).1
      refine ⟨{ d with status := .flushed },?_,rfl⟩
      rw [hfind,Option.map_some,if_pos (List.any_eq_true.mpr ⟨d,hd,by simp⟩)]
    · rw [summaries_append,summaries_flushed hsent,List.count_eq_zero.mpr hin,Nat.zero_add] at hpos
      obtain ⟨b,hb,hst⟩ := h.flushed batch hpos
      rw [hb,Option.map_some]
      refine ⟨_,rfl,?_⟩
      split
      · rfl
      · exact hst

theorem summed_served {env : Env} {x : State} {q : Request} (h : Summed x.store log)
    (hs : Served env x q t sent) : Summed t (sent ++ log) := by
  cases hs with
  | dispatch hd =>
    refine h.quiet (fun _ => rfl) fun id b hb => ?_
    cases hd with
    | refused e hstore ha => exact ⟨b,hstore ▸ hb,rfl⟩
    | gated reason now hg hstore ha => exact ⟨b,hstore ▸ hb,rfl⟩
    | claimed rc hg hclaim ha =>
      obtain ⟨b',hb',hsame⟩ := (claim_digested hclaim).append.frame id b hb
      exact ⟨b',hb',hsame.status⟩
  | drain hd =>
    have hmark : ∀ locked ts, Summed (x.store.markSending (x.store.due locked ts)) log :=
      fun _ _ => ⟨h.single,h.flushed⟩
    exact drained_invariant log hmark (fun u ts r s t sent log _ _ hI hh => summed_handled hI hh) hd
  | flushDigests locked ts hsum => exact summed_flushed h hsum
  | requeueStale => exact h.same (fun _ => rfl) rfl

end Summed

section Backlog

variable {s t : Store} {ts : Int} {r : OutboxRow} {log sent : List Mark}

theorem undelivered_resolve {x : Resolution} (hclaimed : Claimed s r) :
    (s.resolve r.id x).undelivered ≤ s.undelivered := by
  unfold Store.resolve
  split
  · refine Table.count_modify_le (t := s.outbox.toTable) x.key_apply fun r' hr' hid _ => ?_
    have hfind : s.outbox.find r'.id = some r' := Table.find_of_mem hr'
    rw [beq_iff_eq.mp hid,hclaimed,Option.some.injEq] at hfind
    simp [← hfind]
  · exact Nat.le_refl _

theorem upsertBatch_openBatches (s : Store) (e : Entry) (keep : Bool) :
    (s.upsertBatch e keep).1.openBatches ≤ s.openBatches + 1 := by
  unfold Store.upsertBatch
  split
  · refine Nat.le_of_eq ?_
    exact s.batches.count_insert e.row (fun _ => rfl) fun b => decide (b.status = .opened)
  · split
    · refine Nat.le_succ_of_le ?_
      exact Table.count_modify_le (t := s.batches.toTable) (f := e.merge keep) (fun _ => rfl)
        fun b _ _ hq => hq
    · exact Nat.le_succ _

theorem undelivered_ran {may : Fallible → Prop} {x : Resolution} (hclaimed : Claimed s r)
    (h : Ran may .rowUpdate s (s.resolve r.id x) t) : t.undelivered ≤ s.undelivered :=
  h.elim (P := fun u => u.undelivered ≤ s.undelivered) (Nat.le_refl _) (undelivered_resolve hclaimed)

theorem undelivered_handled {may : Fallible → Prop} {pol : Policy} (hclaimed : Claimed s r)
    (hh : Handled may pol ts r s t sent) : t.undelivered ≤ s.undelivered := by
  cases hh with
  | skipped msg hopen ht => exact undelivered_ran hclaimed ht
  | @throttled msg u ht =>
    have hle := undelivered_ran hclaimed ht
    simpa only [Store.undelivered,(recordOverflow_outbox u r ts).1] using hle
  | @refused x e n now u v t hpassed hx hn hu hv ht =>
    have hsame : v.outbox = s.outbox := attempt_outbox hv (trip_outbox hu)
    have hle := undelivered_ran (r := r) (s := v) (by rw [Claimed,hsame]; exact hclaimed) ht
    simpa only [Store.undelivered,hsame] using hle
  | @delivered latency now u v t hsup hpassed hu hv ht =>
    have hsame : v.outbox = s.outbox := attempt_outbox hv (close_outbox hu)
    have hle := undelivered_ran (r := r) (s := v) (by rw [Claimed,hsame]; exact hclaimed) ht
    simpa only [Store.undelivered,hsame] using hle

theorem recordOverflow_openBatches (s : Store) (r : OutboxRow) (ts : Int) :
    (s.recordOverflow r ts).1.openBatches ≤ s.openBatches + 1 := by
  unfold Store.recordOverflow
  split
  · exact Nat.le_succ _
  · exact upsertBatch_openBatches s _ true

theorem throttled_append (sent log : List Mark) :
    throttled (sent ++ log) = throttled sent + throttled log := List.countP_append

theorem backlog_handled {may : Fallible → Prop} {pol : Policy} (hclaimed : Claimed s r)
    (hh : Handled may pol ts r s t sent) : t.backlog ≤ s.backlog + throttled sent := by
  have hrows := undelivered_handled hclaimed hh
  have hopens : t.openBatches ≤ s.openBatches + throttled sent := by
    rcases handled_batches hh with ⟨hsame,-⟩ | ⟨u,hu,rfl,hone⟩
    · simp only [Store.openBatches,hsame]
      exact Nat.le_add_right _ _
    · have hle := recordOverflow_openBatches u r ts
      simp only [Store.openBatches,hu] at hle
      simp only [Store.openBatches,hone]
      exact hle
  simp only [Store.backlog]
  omega

theorem backlog_markSending (s : Store) (locked : Nat → Bool) (ts : Int) :
    (s.markSending (s.due locked ts)).backlog ≤ s.backlog := by
  refine Nat.add_le_add ?_ (Nat.le_refl _)
  refine Table.count_modify_le (t := s.outbox.toTable)
    (f := fun r => { r with status := .sending }) (fun _ => rfl) fun r hr hp _ => ?_
  obtain ⟨d,hd,he⟩ := List.any_eq_true.mp hp
  obtain ⟨hm,hdue,-⟩ := due_spec hd
  have hfind : s.outbox.find d.id = some d := Table.find_of_mem hm
  have hr' : s.outbox.find r.id = some r := Table.find_of_mem hr
  rw [beq_iff_eq.mp he,hr',Option.some.injEq] at hfind
  rw [← hfind] at hdue
  cases hst : r.status <;> simp_all [OutboxStatus.due]

theorem insertSummary_undelivered (s : Store) (b : DigestBatch) (ts : Int) :
    (s.insertSummary b ts).1.undelivered ≤ s.undelivered + 1 := by
  unfold Store.insertSummary
  split
  · exact Nat.le_succ _
  · rename_i d _
    have h := s.outbox.count_insert d.row (fun _ => rfl) fun r => decide (r.status ≠ .sent)
    show (s.outbox.insert d.row fun _ => rfl).count (fun r => decide (r.status ≠ .sent)) ≤ _
    rw [h]
    simp [Store.undelivered,Draft.row]

theorem insertSummaries_undelivered (s : Store) (ts : Int) (bs : List DigestBatch) :
    (s.insertSummaries ts bs).undelivered ≤ s.undelivered + bs.length := by
  induction bs generalizing s with
  | nil => exact Nat.le_refl _
  | cons b bs ih =>
    have hle := insertSummary_undelivered s b ts
    rw [List.length_cons]
    exact Nat.le_trans (ih (s.insertSummary b ts).1) (by omega)

theorem openBatches_markFlushed (s : Store) (locked : Nat → Bool) (ts : Int) :
    (s.markFlushed (s.dueBatches locked ts)).openBatches + (s.dueBatches locked ts).length ≤
      s.openBatches := by
  refine Serial.count_modify_drop (fun b hb => (dueBatches_spec hb).1) ?_ ?_
    (s.batches.nodup_select _ _ _) ?_
  · intro b hb
    exact List.any_eq_true.mpr ⟨b,hb,by simp⟩
  · intro b hb
    simp [(dueBatches_spec hb).2.1]
  · intro b _
    rfl

theorem backlog_served {env : Env} {x : State} {q : Request} (hq : ∀ i, q ≠ .dispatch i)
    (hs : Served env x q t sent) : t.backlog ≤ x.store.backlog + throttled sent := by
  cases hs with
  | dispatch hd => exact absurd rfl (hq _)
  | drain hd =>
    have hall := drained_invariant []
      (I := fun s marks => s.backlog ≤ x.store.backlog + throttled marks)
      (fun locked ts => backlog_markSending x.store locked ts)
      (fun u ts r s t sent marks _ hc hI hh => by
        have hle := backlog_handled hc hh
        rw [throttled_append]
        omega) hd
    rwa [List.append_nil] at hall
  | flushDigests locked ts hsum =>
    have hdrop := openBatches_markFlushed x.store locked ts
    have hle := insertSummaries_undelivered
      (x.store.markFlushed (x.store.dueBatches locked ts)) ts (x.store.dueBatches locked ts)
    have hsame : (x.store.markFlushed (x.store.dueBatches locked ts)).undelivered =
      x.store.undelivered := rfl
    simp only [Store.openBatches] at hdrop
    simp only [Store.backlog,Store.openBatches,insertSummaries_batches]
    omega
  | requeueStale =>
    refine Nat.le_add_right_of_le (Nat.add_le_add ?_ (Nat.le_refl _))
    refine Table.count_modify_le (t := x.store.outbox.toTable)
      (f := fun r => { r with status := .pending }) (fun _ => rfl) fun r _ hp _ => ?_
    simp only [decide_eq_true_eq] at hp
    simp [hp]

end Backlog

theorem throttling_bounded (env : Env) (s : State) (before after : List Request)
    (hkept : s.Sound .rowUpdate) (hafter : ∀ i, Request.dispatch i ∉ after) :
    let x := serveAll env before (s,[])
    let y := serveAll env (before ++ after) (s,[])
    (∀ id, successes y.2 id ≤ 1) ∧
      (∀ id, reached y.2 id ≤ 1 + overBudget y.2 id) ∧
      y.1.store.backlog + throttled x.2 ≤ x.1.store.backlog + throttled y.2 := by
  intro x y
  have hstart : Once s.store [] := ⟨fun _ => Nat.zero_le 1,fun _ h => nomatch h⟩
  have honce : Once y.1.store y.2 := serveAll_invariant env (before ++ after) (s,[]) (I := Once)
    (P := fun _ => True) (fun x q t sent log ho _ hI hs => once_served (hkept.same ho) hI hs)
    (fun _ _ => trivial) hstart
  have hnone : Summed s.store [] :=
    ⟨fun _ => Nat.zero_le 1,fun _ h => absurd h (Nat.lt_irrefl 0)⟩
  have hsummed : Summed y.1.store y.2 := serveAll_invariant env (before ++ after) (s,[]) (I := Summed)
    (P := fun _ => True) (fun x q t sent log _ _ hI hs => summed_served hI hs) (fun _ _ => trivial)
    hnone
  refine ⟨honce.single,fun id => ?_,?_⟩
  · have hover := overflowSuccesses_le honce.single hsummed.single id y.2
    exact Nat.add_le_add (honce.single id) hover
  · have hsplit : y = serveAll env after x := List.foldl_append
    rw [hsplit]
    refine serveAll_invariant env after x (P := fun q => ∀ i, q ≠ .dispatch i)
      (I := fun t marks => t.backlog + throttled x.2 ≤ x.1.store.backlog + throttled marks)
      ?_ (fun q hq i he => hafter i (he ▸ hq)) (Nat.le_refl _)
    intro z q t sent log _ hq hI hs
    have hle := backlog_served hq hs
    rw [throttled_append]
    omega

def paced (seconds : Nat) (budget : Int) (t : Nat) : Outside :=
  { Outside.at (seconds * t) with policy := some { defaultPolicy with emailPerHour := budget } }

def twoAlerts : List Request :=
  [.dispatch (.alert "a" ["EMAIL"] false),.dispatch (.alert "b" ["EMAIL"] false)]

theorem drained_alerts_bounded :
    (serveAll .utc (twoAlerts ++ [.drain,.flushDigests,.drain]) (⟨.empty,0,paced 300 1⟩,[])).1.store.backlog
        + 0 ≤ 2 + throttled (serveAll .utc (twoAlerts ++ [.drain,.flushDigests,.drain])
        (⟨.empty,0,paced 300 1⟩,[])).2 :=
  (throttling_bounded .utc ⟨.empty,0,paced 300 1⟩ twoAlerts [.drain,.flushDigests,.drain]
    (fun _ => rfl) (by simp)).2.2

theorem throttled_row_sent_twice :
    reached (serveAll .utc (twoAlerts ++ [.drain,.flushDigests,.drain,.drain])
        (⟨.empty,0,paced 300 1⟩,[])).2 1 = 2 ∧
      (serveAll .utc (twoAlerts ++ [.drain]) (⟨.empty,0,paced 70 1⟩,[])).1.store.backlog <
        (serveAll .utc (twoAlerts ++ [.drain,.drain]) (⟨.empty,0,paced 70 1⟩,[])).1.store.backlog := by
  decide +kernel

end Delivery
