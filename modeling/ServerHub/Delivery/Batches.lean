import ServerHub.Delivery.Outbox

namespace Delivery

open Go Relational Interleave

def Store.countOf (s : Store) (id : Nat) : Nat := ((s.batches.find id).map (·.count)).getD 0

structure SameBatch (b b' : DigestBatch) : Prop where
  digestKey : b'.digestKey = b.digestKey
  channel : b'.channel = b.channel
  status : b'.status = b.status
  frozen : b.status = .flushed → b' = b

structure Appended (s t : Store) (hits : List Nat) : Prop where
  frame : ∀ id b, s.batches.find id = some b → ∃ b', t.batches.find id = some b' ∧ SameBatch b b'
  count : ∀ id, t.countOf id = s.countOf id + hits.count id

section Appended

variable {s t u : Store} {hits hits' : List Nat}

theorem sameBatch_refl (b : DigestBatch) : SameBatch b b := ⟨rfl,rfl,rfl,fun _ => rfl⟩

theorem SameBatch.trans {a b c : DigestBatch} (h : SameBatch a b) (k : SameBatch b c) :
    SameBatch a c := by
  refine ⟨k.digestKey.trans h.digestKey,k.channel.trans h.channel,k.status.trans h.status,?_⟩
  intro hf
  rw [k.frozen (h.status.trans hf),h.frozen hf]

theorem appended_same (h : t.batches = s.batches) : Appended s t [] := by
  constructor
  · intro id b hb
    exact ⟨b,by rw [h,hb],sameBatch_refl b⟩
  · intro id
    rw [Store.countOf,h]
    rfl

theorem Appended.trans (h : Appended s t hits) (k : Appended t u hits') :
    Appended s u (hits ++ hits') := by
  constructor
  · intro id b hb
    obtain ⟨b',hb',hsame⟩ := h.frame id b hb
    obtain ⟨c,hc,hsame'⟩ := k.frame id b' hb'
    exact ⟨c,hc,hsame.trans hsame'⟩
  · intro id
    rw [k.count,h.count,List.count_append,Nat.add_assoc]

end Appended

def Store.addBatch (s : Store) (e : Entry) : Store :=
  { s with batches := s.batches.insert e.row e.keyed }

inductive Upserted (e : Entry) (keep : Bool) (s : Store) : Store → Option Nat → Prop
  | created (h : e.target s = none) :
      Upserted e keep s (s.addBatch e) (some s.batches.next)
  | merged (b : DigestBatch) (h : e.target s = some b) (ho : b.status = .opened) :
      Upserted e keep s { s with batches := s.mergeBatch e keep b.id } (some b.id)
  | refused (b : DigestBatch) (h : e.target s = some b) (hf : b.status ≠ .opened) :
      Upserted e keep s s none

def Entry.Open (e : Entry) (s : Store) : Prop := ∀ b ∈ e.target s, b.status = .opened

section Upsert

variable {e e' : Entry} {keep : Bool} {s t : Store} {hit : Option Nat}

theorem upserted (e : Entry) (keep : Bool) (s : Store) :
    Upserted e keep s (s.upsertBatch e keep).1 (s.upsertBatch e keep).2 := by
  unfold Store.upsertBatch
  cases h : e.target s with
  | none => exact .created h
  | some b =>
    by_cases ho : b.status = .opened
    · simp only [if_pos ho]
      exact .merged b h ho
    · simp only [if_neg ho]
      exact .refused b h ho

theorem target_spec {b : DigestBatch} (h : e.target s = some b) :
    b ∈ s.batches.rows ∧ b.digestKey = e.digestKey := by
  have hp := List.find?_some h
  simp only [Bool.and_eq_true,beq_iff_eq] at hp
  exact ⟨List.mem_of_find?_eq_some h,hp.1⟩

theorem find_mergeBatch (s : Store) (e : Entry) (keep : Bool) (id k : Nat) :
    (s.mergeBatch e keep id).find k =
      (s.batches.find k).map fun b => if b.id == id then e.merge keep b else b :=
  Serial.find_modify

theorem find_markFlushed (s : Store) (bs : List DigestBatch) (id : Nat) :
    (s.markFlushed bs).batches.find id = (s.batches.find id).map fun b =>
      if bs.any (·.id == b.id) then { b with status := .flushed } else b := Serial.find_modify

theorem find_addBatch_self (s : Store) (e : Entry) :
    (s.addBatch e).batches.find s.batches.next = some (e.row s.batches.next) :=
  Serial.find_insert_self s.batches e.row fun _ => rfl

theorem find_addBatch_ne {k : Nat} (h : k ≠ s.batches.next) :
    (s.addBatch e).batches.find k = s.batches.find k :=
  Serial.find_insert_ne e.row (fun _ => rfl) h

theorem Upserted.frame (h : Upserted e keep s t hit) {id : Nat} {b : DigestBatch}
    (hb : s.batches.find id = some b) : ∃ b', t.batches.find id = some b' ∧ SameBatch b b' := by
  cases h with
  | created h =>
    refine ⟨b,?_,sameBatch_refl b⟩
    rw [find_addBatch_ne (Nat.ne_of_lt (Serial.find_lt hb)),hb]
  | merged c h ho =>
    have hc : s.batches.find c.id = some c := Table.find_of_mem (target_spec h).1
    have hfind := find_mergeBatch s e keep c.id id
    rw [hb,Option.map_some] at hfind
    refine ⟨_,hfind,?_⟩
    by_cases hid : b.id = c.id
    · have hbc : b = c := by
        have hkey : b.id = id := (Table.find_some hb).2
        rw [← hkey,hid,hc] at hb
        exact (Option.some.inj hb).symm
      rw [if_pos (beq_iff_eq.mpr hid)]
      refine ⟨rfl,rfl,rfl,fun hf => ?_⟩
      rw [hbc,ho] at hf
      exact nomatch hf
    · rw [if_neg fun h => hid (beq_iff_eq.mp h)]
      exact sameBatch_refl b
  | refused c h hf => exact ⟨b,hb,sameBatch_refl b⟩

theorem Upserted.count (h : Upserted e keep s t hit) (id : Nat) :
    t.countOf id = s.countOf id + hit.toList.count id := by
  cases h with
  | created h =>
    by_cases hid : id = s.batches.next
    · subst hid
      rw [Store.countOf,Store.countOf,find_addBatch_self,Serial.find_next]
      simp [Entry.row]
    · rw [Store.countOf,Store.countOf,find_addBatch_ne hid]
      simp [Ne.symm hid]
  | merged c h ho =>
    have hc : s.batches.find c.id = some c := Table.find_of_mem (target_spec h).1
    by_cases hid : id = c.id
    · subst hid
      simp only [Store.countOf,find_mergeBatch,hc]
      simp [Entry.merge]
    · have hkeep : (s.mergeBatch e keep c.id).find id = s.batches.find id := by
        rw [find_mergeBatch]
        cases hb : s.batches.find id with
        | none => rfl
        | some b =>
          have hkey : b.id = id := (Table.find_some hb).2
          simp [hkey,hid]
      simp only [Store.countOf,hkeep]
      simp [Ne.symm hid]
  | refused c h hf => simp

theorem upsertBatch_appended (e : Entry) (keep : Bool) (s : Store) :
    Appended s (s.upsertBatch e keep).1 (s.upsertBatch e keep).2.toList :=
  ⟨fun _ _ hb => (upserted e keep s).frame hb,(upserted e keep s).count⟩

theorem Upserted.stays_open (h : Upserted e' keep s t hit) (ho : e.Open s) : e.Open t := by
  intro b hb
  cases h with
  | created h =>
    have hrows : e.target (s.addBatch e') = (e.target s).or ([e'.row s.batches.next].find? fun b =>
      b.digestKey == e.digestKey && b.windowEnd == e.windowEnd) := List.find?_append
    rw [Option.mem_def,hrows] at hb
    cases ht : e.target s with
    | some c =>
      rw [ht,Option.some_or,Option.some.injEq] at hb
      exact hb ▸ ho c ht
    | none =>
      rw [ht,Option.none_or] at hb
      rw [List.mem_singleton.mp (List.mem_of_find?_eq_some hb)]
      rfl
  | merged c h hc =>
    have hrows : e.target { s with batches := s.mergeBatch e' keep c.id } = (e.target s).map fun b =>
        if b.id == c.id then e'.merge keep b else b := by
      show (s.batches.rows.map fun b => if b.id == c.id then e'.merge keep b else b).find? _ = _
      rw [List.find?_map]
      congr 2
      funext b
      simp only [Function.comp_apply]
      split <;> rfl
    rw [Option.mem_def,hrows,Option.map_eq_some_iff] at hb
    obtain ⟨a,ha,rfl⟩ := hb
    split
    · exact ho a ha
    · exact ho a ha
  | refused c h hf => exact ho b hb

theorem Upserted.lands (h : Upserted e keep s t hit) (ho : e.Open s) :
    ∃ id b, hit = some id ∧ t.batches.find id = some b ∧ b.status = .opened ∧
      b.digestKey = e.digestKey := by
  cases h with
  | created h => exact ⟨s.batches.next,e.row s.batches.next,rfl,find_addBatch_self s e,rfl,rfl⟩
  | merged c h hc =>
    have hfind : s.batches.find c.id = some c := Table.find_of_mem (target_spec h).1
    refine ⟨c.id,e.merge keep c,rfl,?_,hc,(target_spec h).2⟩
    rw [find_mergeBatch,hfind]
    simp
  | refused c h hf => exact absurd (ho c h) hf

end Upsert

inductive Labelled : String → Channel → Prop
  | digest (stem : String) (ch : Channel) (h : ch.supported = true) :
      Labelled ("rule:" ++ stem ++ "::" ++ ch.text) ch
  | overflow (rest : String) (ch : Channel) : Labelled ("overflow::" ++ rest) ch

section Labels

variable {stem : String} {ch ch' : Channel}

theorem last_append (s t : String) :
    (s ++ t).toList.getLast? = t.toList.getLast?.or s.toList.getLast? := by
  rw [String.toList_append,List.getLast?_append]

theorem supported_text (h : ch.supported = true) : ch = .email ∨ ch = .telegram := by
  cases ch with
  | email => exact .inl rfl
  | telegram => exact .inr rfl
  | other raw => exact nomatch h

theorem labelled_channel (h : Labelled ("rule:" ++ stem ++ "::" ++ ch.text) ch')
    (hch : ch.supported = true) : ch' = ch := by
  generalize hkey : "rule:" ++ stem ++ "::" ++ ch.text = key at h
  cases h with
  | digest stem' ch' hch' =>
    have hlast := congrArg (fun k : String => k.toList.getLast?) hkey
    simp only [last_append] at hlast
    rcases supported_text hch with rfl | rfl <;> rcases supported_text hch' with rfl | rfl
    · rfl
    · exact absurd hlast (by simp [Channel.text])
    · exact absurd hlast (by simp [Channel.text])
    · rfl
  | overflow rest =>
    have hfirst := congrArg (fun k : String => k.toList.head?) hkey
    simp [String.toList_append] at hfirst

theorem digestKey_stem (i : Input) : ∃ stem, digestKey i = "rule:" ++ stem := by
  unfold digestKey
  dsimp only
  split
  · exact ⟨_,rfl⟩
  · exact ⟨_,by rw [String.append_assoc,String.append_assoc]⟩

end Labels

def Notice.Open (n : Notice) (ts : Int) (s : Store) : Prop :=
  ∀ ch ∈ n.channels, ∀ e ∈ n.entry ts ch, e.Open s

def hitIds (hits : List (Channel × Option Nat)) : List Nat := hits.filterMap Prod.snd

section Claim

variable {pol : Policy} {n : Notice} {ts : Int} {s t u : Store} {rc : Receipt}
  {chs : List Channel} {hits : List (Channel × Option Nat)}

theorem appendDigest_cons {ch : Channel} (h : appendDigest n ts (ch :: chs) s = .ok (t,hits)) :
    ∃ e rest, n.entry ts ch = some e ∧ hits = (ch,(s.upsertBatch e false).2) :: rest ∧
      appendDigest n ts chs (s.upsertBatch e false).1 = .ok (t,rest) := by
  simp only [appendDigest] at h
  split at h
  · cases h
  · rename_i e he
    obtain ⟨⟨u,rest⟩,hrest,hu⟩ := except_bind_ok h
    simp only [pure,Except.pure,Except.ok.injEq,Prod.mk.injEq] at hu
    exact ⟨e,rest,he,hu.2.symm,hu.1 ▸ hrest⟩

theorem appendDigest_appended (h : appendDigest n ts chs s = .ok (t,hits)) :
    Appended s t (hitIds hits) ∧ hits.map Prod.fst = chs := by
  induction chs generalizing s hits with
  | nil =>
    simp only [appendDigest,Except.ok.injEq,Prod.mk.injEq] at h
    obtain ⟨rfl,rfl⟩ := h
    exact ⟨appended_same rfl,rfl⟩
  | cons ch chs ih =>
    obtain ⟨e,rest,-,rfl,hrest⟩ := appendDigest_cons h
    obtain ⟨happ,hfst⟩ := ih hrest
    have hfirst := upsertBatch_appended e false s
    refine ⟨?_,by rw [List.map_cons,hfst]⟩
    have hids : hitIds ((ch,(s.upsertBatch e false).2) :: rest) =
        (s.upsertBatch e false).2.toList ++ hitIds rest := by
      unfold hitIds
      cases (s.upsertBatch e false).2 <;> simp
    rw [hids]
    exact hfirst.trans happ

theorem appendDigest_lands (hopen : ∀ ch ∈ chs, ∀ e ∈ n.entry ts ch, e.Open s)
    (h : appendDigest n ts chs s = .ok (t,hits)) :
    ∀ hit ∈ hits, ∃ id b, hit.2 = some id ∧ t.batches.find id = some b ∧ b.status = .opened ∧
      b.digestKey = digestKey n.input ++ "::" ++ hit.1.text := by
  induction chs generalizing s hits with
  | nil =>
    simp only [appendDigest,Except.ok.injEq,Prod.mk.injEq] at h
    rw [← h.2]
    exact fun hit hm => by cases hm
  | cons ch chs ih =>
    obtain ⟨e,rest,he,rfl,hrest⟩ := appendDigest_cons h
    have hup := upserted e false s
    have hlater : ∀ c ∈ chs, ∀ e' ∈ n.entry ts c, e'.Open (s.upsertBatch e false).1 := by
      intro c hc e' he'
      exact hup.stays_open (hopen c (List.mem_cons_of_mem ch hc) e' he')
    intro hit hm
    rcases List.mem_cons.mp hm with rfl | hm
    · obtain ⟨id,b,hid,hb,hst,hkey⟩ := hup.lands (hopen ch List.mem_cons_self e he)
      obtain ⟨b',hb',hsame⟩ := (appendDigest_appended hrest).1.frame id b hb
      refine ⟨id,b',hid,hb',hsame.status.trans hst,?_⟩
      rw [hsame.digestKey,hkey,(entry_label he).1]
    · exact ih hlater hrest hit hm

inductive Digested (n : Notice) (ts : Int) (s t : Store) (rc : Receipt) : Prop
  | appended (u v : Store) (hmode : n.input.digestMode = "digest") (hu : u.batches = s.batches)
      (happ : appendDigest n ts n.channels u = .ok (v,rc.hits)) (hv : t.batches = v.batches)
  | elsewhere (haction : rc.outcome.action ≠ .digested) (hhits : rc.hits = [])
      (ht : t.batches = s.batches)

theorem suppressed_digested {l : Locals} {state : IncidentState} {reason : Reason}
    (h : suppressed n ts l state reason s = .ok (t,rc)) : Digested n ts s t rc := by
  simp only [suppressed,Except.ok.injEq,Prod.mk.injEq] at h
  obtain ⟨rfl,rfl⟩ := h
  exact .elsewhere (by simp) rfl rfl

theorem notified_digested {l : Locals} {state : IncidentState} {b : Bool}
    (hb : b = true → n.input.digestMode = "digest") (hu : u.batches = s.batches)
    (h : (if b then digested n ts l state u else queued n ts l state u) = .ok (t,rc)) :
    Digested n ts s t rc := by
  split at h
  · rename_i hmode
    obtain ⟨⟨v,hits⟩,hv,h⟩ := except_bind_ok h
    simp only [pure,Except.pure,Except.ok.injEq,Prod.mk.injEq] at h
    obtain ⟨rfl,rfl⟩ := h
    exact .appended u v (hb hmode) hu hv rfl
  · obtain ⟨v,hv,h⟩ := except_bind_ok h
    simp only [pure,Except.pure,Except.ok.injEq,Prod.mk.injEq] at h
    obtain ⟨rfl,rfl⟩ := h
    exact .elsewhere (by simp) rfl ((enqueue_batches hv).trans hu)

theorem claim_digested (h : claimAndEnqueue pol n ts s = .ok (t,rc)) : Digested n ts s t rc := by
  have hnotify : ∀ {l : Locals} {u : Store}, u.batches = s.batches →
      notify n ts l u = .ok (t,rc) → Digested n ts s t rc := fun hu hn => notified_digested
    (b := decide (n.input.digestMode = "digest" ∧ n.severity ≠ .critical))
    (fun hb => (decide_eq_true_eq.mp hb).1) hu (by simpa [notify] using hn)
  simp only [claimAndEnqueue] at h
  split at h
  · simp only [recover] at h
    split at h
    · exact suppressed_digested h
    · exact notified_digested (b := decide (n.input.digestMode = "digest")) decide_eq_true_eq.mp rfl
        (by simpa using h)
  · simp only [fire] at h
    split at h
    · exact hnotify (u := s.forget n.input.key) rfl h
    · split at h
      · exact suppressed_digested h
      · exact hnotify rfl h

theorem open_congr {e : Entry} (hu : u.batches = s.batches) (h : e.Open s) : e.Open u := by
  intro b hb
  refine h b ?_
  rw [Option.mem_def,Entry.target,hu] at hb
  exact hb

theorem Digested.append (h : Digested n ts s t rc) : Appended s t (hitIds rc.hits) := by
  cases h with
  | appended u v hmode hu happ hv =>
    have hmid := (appendDigest_appended happ).1
    have hend : Appended v t [] := appended_same hv
    have hfull := (appended_same hu).trans (hmid.trans hend)
    rwa [List.nil_append,List.append_nil] at hfull
  | elsewhere haction hhits ht =>
    rw [hhits]
    exact appended_same ht

theorem Digested.lands (h : Digested n ts s t rc) (ha : rc.outcome.action = .digested)
    (hopen : n.input.digestMode = "digest" → n.Open ts s) :
    rc.hits.map Prod.fst = n.channels ∧ ∀ hit ∈ rc.hits, ∃ id b, hit.2 = some id ∧
      t.batches.find id = some b ∧ b.status = .opened ∧
      b.digestKey = digestKey n.input ++ "::" ++ hit.1.text := by
  cases h with
  | appended u v hmode hu happ hv =>
    refine ⟨(appendDigest_appended happ).2,?_⟩
    rw [hv]
    refine appendDigest_lands (fun ch hch e he => ?_) happ
    exact open_congr hu (hopen hmode ch hch e he)
  | elsewhere haction hhits ht => exact absurd ha haction

end Claim

def OutboxRow.message (r : OutboxRow) : Draft where
  dedupeKey := r.dedupeKey
  severity := r.severity
  channel := r.channel
  groupID := r.groupID
  title := r.title
  body := r.body
  nextRetryAt := 0

def Summarises (b : DigestBatch) (r : OutboxRow) : Prop :=
  ∃ ts, b.summary ts = some { r.message with nextRetryAt := ts }

def Store.Summarised (s : Store) (b : DigestBatch) : Prop := ∃ r ∈ s.outbox.rows, Summarises b r

def Retains (s t : Store) : Prop := ∀ r ∈ s.outbox.rows, ∃ r' ∈ t.outbox.rows, r'.message = r.message

section Retains

variable {s t : Store} {b b' : DigestBatch}

theorem Store.Summarised.retained (h : s.Summarised b) (hr : Retains s t) : t.Summarised b := by
  obtain ⟨r,hr₀,ts,hts⟩ := h
  obtain ⟨r',hr',hmsg⟩ := hr r hr₀
  exact ⟨r',hr',ts,by rw [hmsg,hts]⟩

theorem Store.Summarised.flushed (h : s.Summarised b) :
    s.Summarised { b with status := .flushed } := h

theorem retains_same (h : t.outbox = s.outbox) : Retains s t := fun r hr => ⟨r,h ▸ hr,rfl⟩

theorem Grows.retains {P : Channel → Prop} (h : Grows P s t) : Retains s t := by
  obtain ⟨new,hnew,-⟩ := h.rows
  exact fun r hr => ⟨r,hnew ▸ List.mem_append_left new hr,rfl⟩

theorem retains_modify {p : OutboxRow → Bool} {f : OutboxRow → OutboxRow}
    {hf : ∀ r, key (f r) = key r} (hm : ∀ r, (f r).message = r.message)
    (ht : t.outbox = s.outbox.modify p f hf) : Retains s t := by
  intro r hr
  refine ⟨if p r then f r else r,?_,?_⟩
  · rw [ht]
    exact Serial.mem_modify.mpr ⟨r,hr,rfl⟩
  · split
    · exact hm r
    · rfl

theorem resolve_retains (s : Store) (id : Nat) (x : Resolution) : Retains s (s.resolve id x) := by
  unfold Store.resolve
  split
  · exact retains_modify (fun r => by cases x <;> rfl) rfl
  · exact retains_same rfl

theorem claimed_retains (pol : Policy) (n : Notice) (ts : Int) (refusal : Option String) (s : Store) :
    Retains s (claimed pol n ts refusal s).1 := by
  obtain ⟨e,he⟩ | ⟨t,rc,hclaim,he⟩ := claimed_cases pol n ts refusal s
  · rw [he]
    exact retains_same rfl
  · rw [he]
    exact (claim_grows hclaim).retains

theorem retains_effect {β : Type} (i : Stmt β) (o : Outside) (s : Store) :
    Retains s (i.effect o s).1 := by
  cases i with
  | claim pol n ts => exact claimed_retains pol n ts o.refusal s
  | claimDue ts => exact retains_modify (f := fun r => { r with status := .sending }) (fun _ => rfl) rfl
  | recordAttempt id ok e latency =>
    simp only [Stmt.effect]
    split
    · exact retains_same rfl
    · exact retains_same (recordAttempt_outbox s id ok e latency o.dbClock).1
  | openCircuit ch n u ts =>
    simp only [Stmt.effect]
    split <;> exact retains_same rfl
  | closeCircuit ch ts =>
    simp only [Stmt.effect]
    split <;> exact retains_same rfl
  | resolve id x =>
    simp only [Stmt.effect]
    split
    · exact retains_same rfl
    · exact resolve_retains s id x
  | overflow r ts => exact retains_same (recordOverflow_outbox s r ts).1
  | requeueStale => exact retains_modify (f := fun r => { r with status := .pending }) (fun _ => rfl) rfl
  | insertSummary b ts => exact (insertSummary_grows (P := fun _ => True) trivial ts).retains
  | _ => exact retains_same rfl

theorem insertSummary_summarised {ts : Int} (h : (b.summary ts).isSome = true) :
    (s.insertSummary b ts).1.Summarised b := by
  obtain ⟨d,hd⟩ := Option.isSome_iff_exists.mp h
  unfold Store.insertSummary
  rw [hd]
  have hmem : d.row s.outbox.next ∈ (s.outbox.insert d.row fun _ => rfl).rows :=
    Serial.mem_insert.mpr (.inr rfl)
  refine ⟨d.row s.outbox.next,hmem,ts,?_⟩
  have hts : d.nextRetryAt = ts := by
    simp only [DigestBatch.summary,bind,Option.bind_eq_some_iff,pure,Option.some.injEq] at hd
    obtain ⟨title,-,body,-,rfl⟩ := hd
    rfl
  rw [hd,← hts]
  rfl

end Retains

end Delivery
