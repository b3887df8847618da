import ServerHub.Delivery.Outbox

namespace Delivery

open Go Relational Interleave

def OutboxRow.sentWithin (ch : Channel) (t : Int) (r : OutboxRow) : Bool :=
  r.channel == ch && decide (r.status = .sent) &&
    r.sentAt.any fun u => decide (t - hour < u) && decide (u ≤ t)

def Store.sentIn (s : Store) (ch : Channel) (t : Int) : Nat := s.outbox.count (·.sentWithin ch t)

section Budget

variable {s t : Store} {ch : Channel} {now ts b : Int} {r : OutboxRow} {n : Nat}

theorem sentIn_le_sentSince (s : Store) (ch : Channel) (h : ts ≤ now) :
    s.sentIn ch now ≤ s.sentSince ch (ts - hour) := by
  refine List.countP_mono_left fun r _ hr => ?_
  simp only [OutboxRow.sentWithin,Bool.and_eq_true,Option.any_eq_true,decide_eq_true_eq] at hr ⊢
  obtain ⟨hrow,u,hu,hwin⟩ := hr
  exact ⟨hrow,u,hu,by omega⟩

theorem sentIn_grows {P : Channel → Prop} (h : Grows P s t) : t.sentIn ch now = s.sentIn ch now := by
  refine h.count fun r hr => ?_
  simp [OutboxRow.sentWithin,hr.status]

theorem sentIn_markSending (s : Store) (rows : List OutboxRow) (ch : Channel) (now : Int) :
    (s.markSending rows).sentIn ch now ≤ s.sentIn ch now := by
  refine Table.count_modify_le (t := s.outbox.toTable)
    (f := fun r => { r with status := .sending }) (fun _ => rfl) fun r _ _ hq => ?_
  simp [OutboxRow.sentWithin] at hq

theorem sentIn_requeue (s : Store) (ch : Channel) (now : Int) :
    s.requeue.sentIn ch now ≤ s.sentIn ch now := by
  refine Table.count_modify_le (t := s.outbox.toTable)
    (f := fun r => { r with status := .pending }) (fun _ => rfl) fun r _ _ hq => ?_
  simp [OutboxRow.sentWithin] at hq

theorem sentIn_resolve {id : Nat} {x : Resolution}
    (h : ∀ r ∈ s.outbox.rows, r.id = id → (x.apply r).sentWithin ch now = false) :
    (s.resolve id x).sentIn ch now ≤ s.sentIn ch now := by
  unfold Store.resolve
  split
  · refine Table.count_modify_le (t := s.outbox.toTable) x.key_apply fun r hr hid hq => ?_
    simp [h r hr (by simpa using hid)] at hq
  · exact Nat.le_refl _

theorem sentIn_resolve_one (s : Store) (id : Nat) (x : Resolution) (ch : Channel) (now : Int) :
    (s.resolve id x).sentIn ch now ≤ s.sentIn ch now + 1 := by
  unfold Store.resolve
  split
  · exact Serial.count_modify_one (k := id) _ fun r hr => beq_iff_eq.mp hr
  · exact Nat.le_succ _

theorem Failed.not_sent {e : Option String} {x : Resolution} (h : Failed r e x) (r' : OutboxRow) :
    (x.apply r').sentWithin ch now = false := by
  cases h <;> simp [Resolution.apply,OutboxRow.sentWithin]

theorem sentIn_ran {may : Fallible → Prop} {id : Nat} {x : Resolution}
    (h : Ran may .rowUpdate s (s.resolve id x) t)
    (hx : ∀ r ∈ s.outbox.rows, r.id = id → (x.apply r).sentWithin ch now = false) :
    t.sentIn ch now ≤ s.sentIn ch now :=
  h.elim (P := fun u => u.sentIn ch now ≤ s.sentIn ch now) (Nat.le_refl _) (sentIn_resolve hx)

theorem budget_handled {may : Fallible → Prop} {pol : Policy} {sent : List Mark}
    (hcount : ¬ may .sentCount) (hpol : pol.budgetFor ch = b) (hclaimed : Claimed s r)
    (hI : (s.sentIn ch now : Int) ≤ max b n) (h : Handled may pol ts r s t sent) :
    (t.sentIn ch now : Int) ≤ max b n := by
  cases h with
  | skipped msg hopen ht =>
    have hle : t.sentIn ch now ≤ s.sentIn ch now :=
      sentIn_ran ht fun r' _ _ => by simp [Resolution.apply,OutboxRow.sentWithin]
    omega
  | @throttled msg u ht =>
    have hsame : (u.recordOverflow r ts).1.sentIn ch now = u.sentIn ch now := by
      simp only [Store.sentIn,(recordOverflow_outbox u r ts).1]
    have hle : u.sentIn ch now ≤ s.sentIn ch now :=
      sentIn_ran ht fun r' _ _ => by simp [Resolution.apply,OutboxRow.sentWithin]
    omega
  | @refused x e k at_ u v t hpassed hx hk hu hv ht =>
    have hsame : v.sentIn ch now = s.sentIn ch now := by
      simp only [Store.sentIn,attempt_outbox hv (trip_outbox hu)]
    have hle : t.sentIn ch now ≤ v.sentIn ch now := sentIn_ran ht fun r' _ _ => hx.not_sent r'
    omega
  | @delivered latency at_ u v t hsup hpassed hu hv ht =>
    have hsame : v.outbox = s.outbox := attempt_outbox hv (close_outbox hu)
    have hsent : v.sentIn ch now = s.sentIn ch now := by simp only [Store.sentIn,hsame]
    by_cases hin : r.channel = ch ∧ now - hour < ts ∧ ts ≤ now
    · obtain ⟨rfl,-,hts⟩ := hin
      have hunspent := hpassed.unspent.resolve_right hcount
      have hle := sentIn_le_sentSince s r.channel hts
      have hone : t.sentIn r.channel now ≤ v.sentIn r.channel now + 1 :=
        ht.elim (P := fun u => u.sentIn r.channel now ≤ v.sentIn r.channel now + 1)
          (Nat.le_succ _) (sentIn_resolve_one v r.id (.sent ts) r.channel now)
      omega
    · have hout : ∀ r' ∈ v.outbox.rows, r'.id = r.id →
          ((Resolution.sent ts).apply r').sentWithin ch now = false := by
        intro r' hr' hid
        rw [hsame] at hr'
        have hfind : s.outbox.find r'.id = some r' := Table.find_of_mem hr'
        rw [hid,hclaimed,Option.some.injEq] at hfind
        have hch : r'.channel = r.channel := by rw [← hfind]
        by_contra hq
        simp only [Resolution.apply,OutboxRow.sentWithin,hch,Bool.not_eq_false,Bool.and_eq_true,
          beq_iff_eq,Option.any_some,decide_eq_true_eq] at hq
        exact hin ⟨hq.1.1,hq.2⟩
      have hle := sentIn_ran ht hout
      omega

def State.Sound (s : State) (k : Fallible) : Prop := ∀ tick, (s.outside tick).fault k = false

theorem State.Sound.not_may {x : State} {k : Fallible} (h : x.Sound k) : ¬ x.may k := by
  rintro ⟨tick,hf⟩
  rw [h tick] at hf
  exact absurd hf (by decide)

theorem State.Sound.same {x y : State} {k : Fallible} (h : x.Sound k) (ho : y.outside = x.outside) :
    y.Sound k := by
  unfold State.Sound
  rw [ho]
  exact h

theorem budget_served {env : Env} {x : State} {q : Request} {sent : List Mark}
    (hcount : x.Sound .sentCount)
    (hpol : ∀ u, (Policy.loaded (x.outside u).policy).budgetFor ch = b)
    (hI : (x.store.sentIn ch now : Int) ≤ max b n) (h : Served env x q t sent) :
    (t.sentIn ch now : Int) ≤ max b n := by
  cases h with
  | dispatch hd =>
    cases hd with
    | refused e hstore ha => exact hstore ▸ hI
    | gated reason at_ hg hstore ha => exact hstore ▸ hI
    | claimed rc hg hclaim ha =>
      rw [sentIn_grows (claim_grows hclaim)]
      exact hI
  | drain hd =>
    refine drained_invariant [] (I := fun s _ => (s.sentIn ch now : Int) ≤ max b n) ?_ ?_ hd
    · intro locked ts
      have hle := sentIn_markSending x.store (x.store.due locked ts) ch now
      omega
    · intro u ts r s t sent log _ hc hs hh
      exact budget_handled hcount.not_may (hpol u) hc hs hh
  | flushDigests locked ts hsum =>
    rw [sentIn_grows (insertSummaries_grows (P := fun _ => True) (fun _ _ => trivial) ts)]
    exact hI
  | requeueStale =>
    have hle := sentIn_requeue x.store ch now
    omega

end Budget

theorem hourly_budget (env : Env) (s : State) (ch : Channel) (b : Int) (requests : List Request)
    (hcount : s.Sound .sentCount)
    (hbudget : ∀ u, (Policy.loaded (s.outside u).policy).budgetFor ch = b) (t : Int)
    (hstart : (s.store.sentIn ch t : Int) ≤ b) :
    ((serveAll env requests (s,[])).1.store.sentIn ch t : Int) ≤ b := by
  have h := serveAll_invariant env requests (s,[]) (P := fun _ => True)
    (I := fun u _ => (u.sentIn ch t : Int) ≤ max b (s.store.sentIn ch t : Nat))
    (fun x r u sent log ho _ hI hs => budget_served (hcount.same ho) (ho ▸ hbudget) hI hs)
    (fun _ _ => trivial) (le_max_right _ _)
  have hmax : max b (s.store.sentIn ch t : Int) = b := max_eq_left hstart
  exact hmax ▸ h

def oneEmail (t : Nat) : Outside :=
  { Outside.at t with policy := some { defaultPolicy with emailPerHour := 1 } }

theorem one_email_an_hour :
    ((serveAll .utc [.dispatch (.alert "a" ["EMAIL"] false),.dispatch (.alert "b" ["EMAIL"] false),
        .drain] (⟨.empty,0,oneEmail⟩,[])).1.store.sentIn .email 10000000000 : Int) ≤ 1 ∧
      (serveAll .utc [.dispatch (.alert "a" ["EMAIL"] false),.dispatch (.alert "b" ["EMAIL"] false),
        .drain] (⟨.empty,0,oneEmail⟩,[])).1.store.outbox.rows.map (·.status) = [.sent,.deferred] :=
  ⟨hourly_budget .utc ⟨.empty,0,oneEmail⟩ .email 1 _ (fun _ => rfl) (fun _ => rfl) _ (by decide),
    by decide⟩

def uncounted (t : Nat) : Outside := { oneEmail t with fault := fun k => decide (k = .sentCount) }

theorem failed_count_spends_twice :
    ¬ ∀ (s : State) (b : Int), (∀ u, (Policy.loaded (s.outside u).policy).budgetFor .email = b) →
      ∀ requests t, (s.store.sentIn .email t : Int) ≤ b →
        ((serveAll .utc requests (s,[])).1.store.sentIn .email t : Int) ≤ b := by
  intro h
  have hle := h ⟨.empty,0,uncounted⟩ 1 (fun _ => rfl)
    [.dispatch (.alert "a" ["EMAIL"] false),.dispatch (.alert "b" ["EMAIL"] false),.drain]
    10000000000 (by decide)
  exact absurd hle (by decide)

def failing (ch : Channel) : List Sent → Nat
  | [] => 0
  | x :: log =>
      if x.channel = ch then if x.ok then 0 else failing ch log + 1 else failing ch log

def lastFailure (ch : Channel) (log : List Sent) : Option Int :=
  (log.find? fun x => x.channel == ch && !x.ok).map Sent.ts

def BreakerLaw (log : List Sent) : Prop :=
  ∀ later x earlier, log = later ++ x :: earlier →
    (failing x.channel earlier : Int) < circuitThreshold ∨
      ∃ f, lastFailure x.channel earlier = some f ∧ f + circuitOpenFor ≤ x.ts

section Breaker

variable {s t : Store} {ch : Channel} {ts : Int} {r : OutboxRow} {log : List Sent}

structure Tripping (s : Store) (log : List Sent) (ch : Channel) : Prop where
  counted : (failing ch log : Int) ≤ s.failures ch
  opened : circuitThreshold ≤ failing ch log → ∃ f p, lastFailure ch log = some f ∧ 0 ≤ f ∧
    s.providers ch = some p ∧ p.openedUntil = some (f + circuitOpenFor)

structure Breaking (s : Store) (log : List Sent) : Prop where
  law : BreakerLaw log
  tripping : ∀ ch, ch.supported = true → Tripping s log ch

theorem BreakerLaw.cons {x : Sent} (h : BreakerLaw log)
    (hx : (failing x.channel log : Int) < circuitThreshold ∨
      ∃ f, lastFailure x.channel log = some f ∧ f + circuitOpenFor ≤ x.ts) :
    BreakerLaw (x :: log) := by
  intro later y earlier he
  cases later with
  | nil =>
    obtain ⟨rfl,rfl⟩ := List.cons.inj he
    exact hx
  | cons z later => exact h later y earlier (List.cons.inj he).2

theorem Tripping.congr (h : Tripping s log ch) (hp : t.providers ch = s.providers ch) :
    Tripping t log ch := by
  constructor
  · simpa only [Store.failures,hp] using h.counted
  · rw [hp]
    exact h.opened

theorem Tripping.other {x : Sent} (h : Tripping s log ch) (hx : x.channel ≠ ch)
    (hp : t.providers ch = s.providers ch) : Tripping t (x :: log) ch := by
  have hfail : failing ch (x :: log) = failing ch log := if_neg hx
  have hlast : lastFailure ch (x :: log) = lastFailure ch log := by
    simp [lastFailure,hx]
  constructor
  · rw [hfail]
    simpa only [Store.failures,hp] using h.counted
  · rw [hfail,hlast,hp]
    exact h.opened

theorem Tripping.allows (h : Tripping s log ch) (hopen : s.breaker ch ts = none) :
    (failing ch log : Int) < circuitThreshold ∨
      ∃ f, lastFailure ch log = some f ∧ f + circuitOpenFor ≤ ts := by
  by_cases hlt : (failing ch log : Int) < circuitThreshold
  · exact .inl hlt
  · obtain ⟨f,p,hlast,hf,hp,huntil⟩ := h.opened (Int.not_lt.mp hlt)
    refine .inr ⟨f,hlast,?_⟩
    have hpos : f + circuitOpenFor ≠ 0 := by
      simp only [circuitOpenFor,minute,second]
      omega
    simp only [Store.breaker,hp,Option.bind_some,huntil,Option.filter_eq_none_iff] at hopen
    have hnot := hopen (f + circuitOpenFor) rfl
    simpa [hpos] using hnot

theorem Breaking.same (h : Breaking s log) (hp : t.providers = s.providers) : Breaking t log :=
  ⟨h.law,fun ch hch => (h.tripping ch hch).congr (by rw [hp])⟩

theorem Breaking.failed (h : Breaking s log) {id : Nat} (hts : 0 ≤ ts)
    (hsup : ch.supported = true) (hopen : s.breaker ch ts = none)
    (hp : t.providers = (s.trip ch (s.failures ch) ts).providers) :
    Breaking t (⟨ts,id,ch,false⟩ :: log) := by
  have hch := h.tripping ch hsup
  refine ⟨h.law.cons (hch.allows hopen),?_⟩
  intro ch' hsup'
  by_cases he : ch = ch'
  · subst he
    have hrow : t.providers ch = some ⟨s.failures ch + 1,
        if circuitThreshold ≤ s.failures ch + 1 then some (ts + circuitOpenFor) else none,
        (s.providers ch).bind (·.lastSuccessAt),some ts⟩ := by
      rw [hp]
      simp [Store.trip,Store.openCircuit]
    have hfail : failing ch (⟨ts,id,ch,false⟩ :: log) = failing ch log + 1 := by simp [failing]
    have hcount := hch.counted
    constructor
    · rw [hfail]
      simp only [Store.failures,hrow,Option.map_some,Option.getD_some] at hcount ⊢
      omega
    · rw [hfail]
      intro hge
      have hge' : circuitThreshold ≤ s.failures ch + 1 := by
        push_cast at hge
        omega
      exact ⟨ts,_,by simp [lastFailure],hts,hrow,by rw [if_pos hge']⟩
  · refine (h.tripping ch' hsup').other he ?_
    rw [hp]
    simp [Store.trip,Store.openCircuit,Function.update_of_ne (Ne.symm he)]

theorem Breaking.succeeded (h : Breaking s log) {id : Nat} (hsup : ch.supported = true)
    (hopen : s.breaker ch ts = none)
    (hp : t.providers = (s.closeCircuit ch ts).providers ∨ t.providers = s.providers) :
    Breaking t (⟨ts,id,ch,true⟩ :: log) := by
  refine ⟨h.law.cons ((h.tripping ch hsup).allows hopen),?_⟩
  intro ch' hsup'
  by_cases he : ch = ch'
  · subst he
    have hfail : failing ch (⟨ts,id,ch,true⟩ :: log) = 0 := by simp [failing]
    have hcount : 0 ≤ t.failures ch := by
      have hcounted := (h.tripping ch hsup).counted
      rcases hp with hp | hp
      · simp [Store.failures,hp,Store.closeCircuit]
      · rw [Store.failures,hp]
        exact Int.le_trans (Int.natCast_nonneg _) hcounted
    constructor
    · rw [hfail]
      exact hcount
    · rw [hfail]
      intro hge
      simp [circuitThreshold] at hge
  · refine (h.tripping ch' hsup').other he ?_
    rcases hp with hp | hp
    · rw [hp]
      simp [Store.closeCircuit,Function.update_of_ne (Ne.symm he)]
    · rw [hp]

theorem Breaking.unsupported (h : Breaking s log) (hsup : ch.supported = false) {n : Int}
    (hp : t.providers = (s.trip ch n ts).providers) : Breaking t log := by
  refine ⟨h.law,fun ch' hsup' => (h.tripping ch' hsup').congr ?_⟩
  have hne : ch' ≠ ch := fun e => by simp [e,hsup] at hsup'
  rw [hp]
  simp [Store.trip,Store.openCircuit,Function.update_of_ne hne]

theorem calls_append (sent log : List Mark) : calls (sent ++ log) = calls sent ++ calls log :=
  List.filterMap_append

theorem calls_attempted (ts : Int) (r : OutboxRow) (ok : Bool) :
    calls (attempted ts r ok) =
      if r.channel.supported then [⟨ts,r.id,r.channel,ok⟩] else [] := by
  unfold attempted
  split <;> rfl

theorem resolved_providers {may : Fallible → Prop} {id : Nat} {x : Resolution}
    (h : Ran may .rowUpdate s (s.resolve id x) t) : t.providers = s.providers :=
  h.same (f := Store.providers) (resolve_providers s id x)

theorem breaking_handled {may : Fallible → Prop} {pol : Policy} {marks sent : List Mark}
    (hread : ¬ may .providerState) (htrip : ¬ may .openCircuit) (hts : 0 ≤ ts)
    (h : Breaking s (calls marks)) (hh : Handled may pol ts r s t sent) :
    Breaking t (calls (sent ++ marks)) := by
  rw [calls_append]
  cases hh with
  | skipped msg hopen ht => exact h.same (resolved_providers ht)
  | throttled msg ht =>
    refine h.same ?_
    rw [(recordOverflow_outbox _ r ts).2,resolved_providers ht]
  | @refused x e n now u v t hpassed hx hn hu hv ht =>
    have hp : t.providers = (s.trip r.channel (s.failures r.channel) ts).providers := by
      rw [resolved_providers ht,
        hv.same (f := Store.providers) (recordAttempt_outbox u r.id false e 0 now).2,hu.done htrip,
        hn.resolve_right hread]
    rw [calls_attempted]
    cases hsup : r.channel.supported with
    | true => exact h.failed hts hsup (hpassed.closed.resolve_right hread) hp
    | false => exact h.unsupported hsup hp
  | @delivered latency now u v t hsup hpassed hu hv ht =>
    rw [calls_attempted,if_pos hsup]
    refine h.succeeded hsup (hpassed.closed.resolve_right hread) ?_
    rw [resolved_providers ht,
      hv.same (f := Store.providers) (recordAttempt_outbox u r.id true (some "") latency now).2]
    exact hu.elim (P := fun u => u.providers = (s.closeCircuit r.channel ts).providers ∨
      u.providers = s.providers) (.inr rfl) (.inl rfl)

theorem insertSummaries_providers (s : Store) (ts : Int) (bs : List DigestBatch) :
    (s.insertSummaries ts bs).providers = s.providers :=
  (insertSummaries_grows (P := fun _ => True) (fun _ _ => trivial) ts).providers

theorem calls_summaries {bs : List DigestBatch} {sent : List Mark} (h : Summaries bs sent) :
    calls sent = [] := by
  refine List.filterMap_eq_nil_iff.mpr fun m hm => ?_
  have hbatch : m.batch ∈ (bs.map fun b => some b.id).reverse := h ▸ List.mem_map_of_mem hm
  cases m with
  | sent x => simp [Mark.batch] at hbatch
  | overflowed id hit => rfl
  | summarised batch row => rfl

theorem breaking_served {env : Env} {x : State} {q : Request} {marks sent : List Mark}
    (hread : x.Sound .providerState) (htrip : x.Sound .openCircuit) (h : Breaking x.store (calls marks)) (hs : Served env x q t sent) :
    Breaking t (calls (sent ++ marks)) := by
  cases hs with
  | dispatch hd =>
    cases hd with
    | refused e hstore ha => exact hstore ▸ h
    | gated reason now hg hstore ha => exact hstore ▸ h.same rfl
    | claimed rc hg hclaim ha => exact h.same (claim_grows hclaim).providers
  | drain hd =>
    refine drained_invariant marks (I := fun s marks => Breaking s (calls marks))
      (fun locked ts => h.same rfl) ?_ hd
    intro u ts r s t sent log hts _ hb hh
    exact breaking_handled hread.not_may htrip.not_may hts hb hh
  | flushDigests locked ts hsum =>
    rw [calls_append,calls_summaries hsum]
    exact h.same (insertSummaries_providers _ ts _)
  | requeueStale => exact h.same rfl

end Breaker

def Keeps (r : OutboxRow) (s : Store) (log : List Mark) : Prop :=
  (∀ x ∈ calls log, x.id ≠ r.id) →
    ∃ r', s.outbox.find r.id = some r' ∧ r'.attempts = r.attempts ∧ r'.channel = r.channel

section Attempts

variable {s t : Store} {ts : Int} {r r₀ : OutboxRow} {log sent : List Mark}

theorem Keeps.grows {P : Channel → Prop} (h : Keeps r₀ s log) (hg : Grows P s t) :
    Keeps r₀ t log := by
  intro hlog
  obtain ⟨r',hr',hkeep⟩ := h hlog
  exact ⟨r',hg.find_some hr',hkeep⟩

theorem Keeps.rewritten {f : OutboxRow → OutboxRow} (h : Keeps r₀ s log)
    (ht : t.outbox.find r₀.id = (s.outbox.find r₀.id).map f)
    (hf : ∀ r, (f r).attempts = r.attempts ∧ (f r).channel = r.channel) : Keeps r₀ t log := by
  intro hlog
  obtain ⟨r',hr',ha,hc⟩ := h hlog
  exact ⟨f r',by rw [ht,hr',Option.map_some],(hf r').1.trans ha,(hf r').2.trans hc⟩

theorem Keeps.deferred {may : Fallible → Prop} {msg : String} {at_ : Int} (h : Keeps r₀ s log)
    (ht : Ran may .rowUpdate s (s.resolve r.id (.deferred msg at_)) t) : Keeps r₀ t log := by
  refine ht.elim (P := fun u => Keeps r₀ u log) h ?_
  by_cases hid : r₀.id = r.id
  · refine h.rewritten (f := (Resolution.deferred msg at_).apply) ?_ fun _ => ⟨rfl,rfl⟩
    rw [find_resolve,if_pos ⟨hid,rfl⟩]
  · refine h.rewritten (f := id) ?_ fun _ => ⟨rfl,rfl⟩
    rw [find_resolve_ne hid,Option.map_id,id]

theorem keeps_handled {may : Fallible → Prop} {pol : Policy} (hsup : r₀.channel.supported = true)
    (hclaimed : Claimed s r) (h : Keeps r₀ s log) (hh : Handled may pol ts r s t sent) :
    Keeps r₀ t (sent ++ log) := by
  intro hlog
  rw [calls_append] at hlog
  have hold : ∀ x ∈ calls log, x.id ≠ r₀.id := fun x hx => hlog x (List.mem_append_right _ hx)
  obtain ⟨r',hr',ha,hc⟩ := h hold
  by_cases hid : r₀.id = r.id
  · have hrow : r' = { r with status := .sending } := by
      rw [hid,hclaimed,Option.some.injEq] at hr'
      exact hr'.symm
    have hch : r.channel.supported = true := by
      rw [← hc,hrow] at hsup
      exact hsup
    have hnone : ∀ ok, attempted ts r ok ≠ sent := by
      rintro ok rfl
      exact hlog ⟨ts,r.id,r.channel,ok⟩ (by simp [calls_attempted,hch]) hid.symm
    cases hh with
    | skipped msg hopen ht => exact h.deferred ht hold
    | throttled msg ht =>
      rw [(recordOverflow_outbox _ r ts).1]
      exact h.deferred ht hold
    | refused e n now hpassed hx hn hu hv ht => exact absurd rfl (hnone false)
    | delivered latency now hsup hpassed hu hv ht => exact absurd rfl (hnone true)
  · exact ⟨r',by rw [handled_frame hh hid,hr'],ha,hc⟩

theorem keeps_served {env : Env} {x : State} {q : Request} (hsup : r₀.channel.supported = true)
    (h : Keeps r₀ x.store log) (hs : Served env x q t sent) : Keeps r₀ t (sent ++ log) := by
  cases hs with
  | dispatch hd =>
    cases hd with
    | refused e hstore ha => exact hstore ▸ h
    | gated reason now hg hstore ha => exact hstore ▸ h
    | claimed rc hg hclaim ha => exact h.grows (claim_grows hclaim)
  | drain hd =>
    refine drained_invariant log (fun locked ts => ?_) ?_ hd
    · refine h.rewritten (find_markSending x.store (x.store.due locked ts) r₀.id) fun r => ?_
      split <;> exact ⟨rfl,rfl⟩
    · intro u ts r s t sent log _ hc hk hh
      exact keeps_handled hsup hc hk hh
  | flushDigests locked ts hsum =>
    have hmark : Keeps r₀ (x.store.markFlushed (x.store.dueBatches locked ts)) (sent ++ log) := by
      intro hlog
      rw [calls_append,calls_summaries hsum] at hlog
      exact h hlog
    exact hmark.grows (insertSummaries_grows (P := fun _ => True) (fun _ _ => trivial) ts)
  | requeueStale =>
    refine h.rewritten (f := fun r => if decide (r.status = .sending) then
      { r with status := .pending } else r) Serial.find_modify fun r => ?_
    split <;> exact ⟨rfl,rfl⟩

end Attempts

theorem circuit_breaker (env : Env) (s : State) (requests : List Request)
    (hcounts : ∀ ch, 0 ≤ s.store.failures ch) :
    (s.Sound .providerState → s.Sound .openCircuit →
      BreakerLaw (calls (serveAll env requests (s,[])).2)) ∧
      ∀ id r, s.store.outbox.find id = some r → r.channel.supported = true →
        (∀ x ∈ calls (serveAll env requests (s,[])).2, x.id ≠ id) →
        ∃ r', (serveAll env requests (s,[])).1.store.outbox.find id = some r' ∧
          r'.attempts = r.attempts := by
  constructor
  · intro hread htrip
    have hstart : Breaking s.store [] := by
      refine ⟨fun later x earlier he => by simp at he,fun ch _ => ⟨hcounts ch,fun hge => ?_⟩⟩
      simp [failing,circuitThreshold] at hge
    exact (serveAll_invariant env requests (s,[]) (P := fun _ => True)
      (I := fun t marks => Breaking t (calls marks))
      (fun x r t sent log ho _ hI hs => breaking_served (hread.same ho) (htrip.same ho) hI hs)
      (fun _ _ => trivial) hstart).law
  · intro id r hr hsup hlog
    obtain rfl : r.id = id := (Table.find_some hr).2
    have hstart : Keeps r s.store [] := fun _ => ⟨r,hr,rfl,rfl⟩
    obtain ⟨r',hr',ha,-⟩ := serveAll_invariant env requests (s,[]) (P := fun _ => True)
      (I := Keeps r) (fun x q t sent log _ _ hI hs => keeps_served hsup hI hs)
      (fun _ _ => trivial) hstart hlog
    exact ⟨r',hr',ha⟩

def unreachable (t : Nat) : Outside := { Outside.at t with answer := some "connection refused" }

def sixAlerts : List Request :=
  ["a","b","c","d","e","f"].map fun key => .dispatch (.alert key ["EMAIL"] false)

theorem breaker_skips_sixth :
    BreakerLaw (calls (serveAll .utc (sixAlerts ++ [.drain]) (⟨.empty,0,unreachable⟩,[])).2) ∧
      (serveAll .utc (sixAlerts ++ [.drain]) (⟨.empty,0,unreachable⟩,[])).1.store.outbox.rows.map
        (fun r => (r.status,r.attempts)) =
        [(.pending,1),(.pending,1),(.pending,1),(.pending,1),(.pending,1),(.deferred,0)] :=
  ⟨(circuit_breaker .utc ⟨.empty,0,unreachable⟩ _ fun _ => Int.le_refl 0).1 (fun _ => rfl)
    fun _ => rfl,by decide⟩

def unread (t : Nat) : Outside :=
  { unreachable t with fault := fun k => decide (k = .providerState) }

theorem failed_select_keeps_calling :
    ¬ BreakerLaw (calls (serveAll .utc (sixAlerts ++ [.drain]) (⟨.empty,0,unread⟩,[])).2) := by
  intro h
  have hcalls : calls (serveAll .utc (sixAlerts ++ [.drain]) (⟨.empty,0,unread⟩,[])).2 =
      [5,4,3,2,1,0].map fun id => ⟨25 * second,id,.email,false⟩ := by decide
  rw [hcalls] at h
  rcases h [] _ _ rfl with hfew | ⟨f,hf,hlater⟩
  · exact absurd hfew (by decide)
  · obtain rfl : 25 * second = f := by simpa [lastFailure] using hf
    exact absurd hlater (by decide)

end Delivery
