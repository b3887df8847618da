import ServerHub.Delivery.Batches
import ServerHub.Interleave.Contract

namespace Delivery

open Go Relational Interleave Interleave.Prog

inductive Trail where
  | dispatched (n : Notice) (rc : Receipt)
  | overflowed (hit : Option Nat)
  | flushed (batches : List DigestBatch)
  | summarised (id : Nat)
deriving DecidableEq

def trail : (β : Type) → Stmt β → β → Option Trail
  | _, .claim _ n _, .ok rc => some (.dispatched n rc)
  | _, .overflow _ _, hit => some (.overflowed hit)
  | _, .flushDue _, bs => some (.flushed bs)
  | _, .insertSummary b _, _ => some (.summarised b.id)
  | _, _, _ => none

def trailed (env : Env) : System := (system env).watch trail

namespace Trail

def grants : Trail → List DigestBatch
  | .flushed bs => bs
  | _ => []

def releases : Trail → DigestBatch → Bool
  | .summarised id, b => b.id == id
  | _, _ => false

def hits : Trail → List Nat
  | .dispatched _ rc => hitIds rc.hits
  | .overflowed hit => hit.toList
  | _ => []

end Trail

def owed (pid : Nat) (log : List (Nat × Trail)) : List DigestBatch :=
  outstanding Trail.grants Trail.releases pid log

def tally (id : Nat) (log : List (Nat × Trail)) : Nat := (log.flatMap (·.2.hits)).count id

def Covered (x : Traced State Trail) (b : DigestBatch) : Prop :=
  b.status = .opened ∨ x.state.store.Summarised b ∨ ∃ pid, ∃ b' ∈ owed pid x.log, b'.id = b.id

structure Lands (x : Traced State Trail) (n : Notice) (rc : Receipt) : Prop where
  channels : rc.hits.map Prod.fst = n.channels
  batches : ∀ hit ∈ rc.hits, ∃ id b, hit.2 = some id ∧ x.state.store.batches.find id = some b ∧
    b.channel = hit.1 ∧ Covered x b

structure Counted (base : Nat → Nat) (x : Traced State Trail) : Prop where
  labels : x.state.store.Routed Labelled
  counts : ∀ id, x.state.store.countOf id = base id + tally id x.log
  owes : ∀ pid, ∀ b ∈ owed pid x.log,
    x.state.store.batches.find b.id = some { b with status := .flushed }
  kept : ∀ pid n rc, (pid,.dispatched n rc) ∈ x.log → rc.outcome.action = .digested → Lands x n rc

structure Carries (x y : Traced State Trail) : Prop where
  retains : Retains x.state.store y.state.store
  batches : ∀ id b, x.state.store.batches.find id = some b →
    ∃ b', y.state.store.batches.find id = some b' ∧ b'.channel = b.channel ∧
      (Covered x b → Covered y b')

section Steps

variable {base : Nat → Nat} {x y : Traced State Trail} {pid : Nat} {n : Option Trail}

theorem Lands.carried {m : Notice} {rc : Receipt} (h : Lands x m rc) (hc : Carries x y) :
    Lands y m rc := by
  refine ⟨h.channels,fun hit hm => ?_⟩
  obtain ⟨id,b,hid,hb,hch,hcov⟩ := h.batches hit hm
  obtain ⟨b',hb',hch',hcov'⟩ := hc.batches id b hb
  exact ⟨id,b',hid,hb',hch'.trans hch,hcov' hcov⟩

theorem tally_record (id : Nat) (log : List (Nat × Trail)) :
    tally id (record pid log n) = (n.elim [] Trail.hits).count id + tally id log := by
  cases n with
  | none => simp [record]
  | some n => simp [record,tally,List.count_append]

theorem counted_record (hx : Counted base x) (hlog : y.log = record pid x.log n)
    (hlabels : y.state.store.Routed Labelled)
    (hcounts : ∀ id, y.state.store.countOf id =
      x.state.store.countOf id + (n.elim [] Trail.hits).count id)
    (howes : ∀ q, ∀ b ∈ owed q y.log,
      y.state.store.batches.find b.id = some { b with status := .flushed })
    (hcarry : Carries x y)
    (hnew : ∀ m rc, n = some (.dispatched m rc) → rc.outcome.action = .digested → Lands y m rc) :
    Counted base y := by
  refine ⟨hlabels,fun id => ?_,howes,?_⟩
  · rw [hcounts,hx.counts,hlog,tally_record]
    omega
  · intro q m rc hm ha
    rw [hlog] at hm
    cases hn : n with
    | none =>
      rw [hn] at hm
      exact (hx.kept q m rc hm ha).carried hcarry
    | some k =>
      rw [hn] at hm
      rcases List.mem_cons.mp hm with he | hm
      · rw [Prod.mk.injEq] at he
        exact hnew m rc (by rw [hn,he.2]) ha
      · exact (hx.kept q m rc hm ha).carried hcarry

theorem covered_same (hlog : ∀ q, owed q y.log = owed q x.log)
    (hr : Retains x.state.store y.state.store) {b : DigestBatch} (h : Covered x b) : Covered y b := by
  rcases h with h | h | ⟨q,b',hb',hid⟩
  · exact .inl h
  · exact .inr (.inl (h.retained hr))
  · exact .inr (.inr ⟨q,b',hlog q ▸ hb',hid⟩)

theorem owed_silent (hlog : y.log = record pid x.log n)
    (hg : ∀ m, n = some m → m.grants = [] ∧ ∀ b, m.releases b = false) (q : Nat) :
    owed q y.log = owed q x.log := by
  rw [hlog]
  cases hn : n with
  | none => rfl
  | some m => exact outstanding_silent (hg m hn).1 (hg m hn).2

theorem carries_appended {hits : List Nat} (ha : Appended x.state.store y.state.store hits)
    (hr : Retains x.state.store y.state.store) (hlog : ∀ q, owed q y.log = owed q x.log) :
    Carries x y := by
  refine ⟨hr,fun id b hb => ?_⟩
  obtain ⟨b',hb',hsame⟩ := ha.frame id b hb
  refine ⟨b',hb',hsame.channel,fun hcov => ?_⟩
  cases hst : b.status with
  | opened => exact .inl (hsame.status.trans hst)
  | flushed =>
    rw [hsame.frozen hst]
    exact covered_same hlog hr hcov

theorem owes_appended {hits : List Nat} (hx : Counted base x)
    (ha : Appended x.state.store y.state.store hits) (hlog : ∀ q, owed q y.log = owed q x.log)
    (q : Nat) : ∀ b ∈ owed q y.log,
      y.state.store.batches.find b.id = some { b with status := .flushed } := by
  intro b hb
  obtain ⟨b',hb',hsame⟩ := ha.frame b.id _ (hx.owes q b (hlog q ▸ hb))
  rw [hb',hsame.frozen rfl]

variable {env : Env} {β : Type}

theorem append_kept {hits : List Nat} (hx : Counted base x) (hlog : y.log = record pid x.log n)
    (hn : ∀ m, n = some m → m.grants = [] ∧ ∀ b, m.releases b = false)
    (hhits : n.elim [] Trail.hits = hits) (ha : Appended x.state.store y.state.store hits)
    (hr : Retains x.state.store y.state.store) (hlabels : y.state.store.Routed Labelled)
    (hnew : ∀ m rc, n = some (.dispatched m rc) → rc.outcome.action = .digested → Lands y m rc) :
    Counted base y ∧ ∀ q, owed q y.log = owed q x.log := by
  have howed := owed_silent hlog hn
  refine ⟨?_,howed⟩
  exact counted_record hx hlog hlabels (fun id => hhits ▸ ha.count id)
    (fun q => owes_appended hx ha howed q) (carries_appended ha hr howed) hnew

theorem claim_kept {pol : Policy} {m : Notice} {ts : Int} {b : Except String Receipt}
    (hx : Counted base x) (hch : ∀ ch ∈ m.channels, ch.supported = true)
    (hopen : m.input.digestMode = "digest" → m.Open ts x.state.store)
    (h : (trailed env).exec pid (.claim pol m ts) x = some (y,b)) :
    Counted base y ∧ ∀ q, owed q y.log = owed q x.log := by
  obtain ⟨hstore,hb,hlog⟩ := exec_noted h
  have hr : Retains x.state.store y.state.store := hstore ▸ retains_effect _ _ _
  have hvalue : b = (claimed pol m ts x.state.now.refusal x.state.store).2 := hb
  have hstore : y.state.store = (claimed pol m ts x.state.now.refusal x.state.store).1 := hstore
  have hlabel : ∀ ch ∈ m.channels, Labelled (digestKey m.input ++ "::" ++ ch.text) ch := by
    intro ch hm
    obtain ⟨stem,hstem⟩ := digestKey_stem m.input
    rw [hstem]
    exact .digest stem ch (hch ch hm)
  obtain ⟨e,he⟩ | ⟨t,rc,hclaim,he⟩ := claimed_cases pol m ts x.state.now.refusal x.state.store
  · rw [he] at hvalue hstore
    subst hvalue
    exact append_kept hx hlog (fun m hm => nomatch hm) rfl (appended_same (by rw [hstore])) hr
      (hstore ▸ hx.labels) fun m rc hm => nomatch hm
  · rw [he] at hvalue hstore
    subst hvalue
    have hstore : y.state.store = t := hstore
    have hdig : Digested m ts x.state.store y.state.store rc := hstore ▸ claim_digested hclaim
    have hlabels : y.state.store.Routed Labelled := hstore ▸ claim_routed hx.labels hlabel hclaim
    refine append_kept hx hlog ?_ rfl hdig.append hr hlabels ?_
    · rintro k ⟨⟩
      exact ⟨rfl,fun _ => rfl⟩
    · rintro k rc' ⟨⟩ ha
      obtain ⟨hfst,hlands⟩ := hdig.lands ha hopen
      refine ⟨hfst,fun hit hm => ?_⟩
      obtain ⟨id,b,hid,hb,hst,hkey⟩ := hlands hit hm
      have hmem : hit.1 ∈ m.channels := hfst ▸ List.mem_map_of_mem hm
      have hlab := hlabels b (Table.find_some hb).1
      obtain ⟨stem,hstem⟩ := digestKey_stem m.input
      rw [hkey,hstem] at hlab
      exact ⟨id,b,hid,hb,labelled_channel hlab (hch hit.1 hmem),.inl hst⟩

theorem overflow_kept {r : OutboxRow} {ts : Int} {b : Option Nat} (hx : Counted base x)
    (h : (trailed env).exec pid (.overflow r ts) x = some (y,b)) :
    Counted base y ∧ ∀ q, owed q y.log = owed q x.log := by
  obtain ⟨hstore,hb,hlog⟩ := exec_noted h
  have hr : Retains x.state.store y.state.store := hstore ▸ retains_effect _ _ _
  have hlabels : y.state.store.Routed Labelled :=
    hstore ▸ recordOverflow_routed hx.labels (.overflow _ _) ts
  have hb : b = (x.state.store.recordOverflow r ts).2 := hb
  have ha : Appended x.state.store (x.state.store.recordOverflow r ts).1 b.toList := by
    rw [hb]
    unfold Store.recordOverflow
    split
    · exact appended_same rfl
    · exact upsertBatch_appended _ _ _
  refine append_kept hx hlog ?_ rfl (hstore ▸ ha) hr hlabels ?_
  · rintro k ⟨⟩
    exact ⟨rfl,fun _ => rfl⟩
  · exact fun m rc hm => nomatch hm

def Stmt.Still : {β : Type} → Stmt β → Prop
  | _, .claim _ _ _ | _, .overflow _ _ | _, .flushDue _ | _, .insertSummary _ _ => False
  | _, _ => True

theorem still_batches {i : Stmt β} (hi : i.Still) (o : Outside) (s : Store) :
    (i.effect o s).1.batches = s.batches := by
  cases i with
  | claim pol n ts => exact hi.elim
  | overflow r ts => exact hi.elim
  | flushDue ts => exact hi.elim
  | insertSummary b ts => exact hi.elim
  | recordAttempt id ok e latency =>
    simp only [Stmt.effect]
    split
    · rfl
    · exact recordAttempt_batches s id ok e latency o.dbClock
  | resolve id x =>
    simp only [Stmt.effect]
    split
    · rfl
    · exact resolve_batches s id x
  | openCircuit ch n u ts =>
    simp only [Stmt.effect]
    split <;> rfl
  | closeCircuit ch ts =>
    simp only [Stmt.effect]
    split <;> rfl
  | _ => rfl

theorem still_trail {i : Stmt β} (hi : i.Still) (b : β) : trail β i b = none := by
  cases i <;> first | rfl | exact hi.elim

theorem still_kept {i : Stmt β} {b : β} (hi : i.Still) (hx : Counted base x)
    (h : (trailed env).exec pid i x = some (y,b)) :
    Counted base y ∧ ∀ q, owed q y.log = owed q x.log := by
  obtain ⟨hstore,-,hlog⟩ := exec_noted h
  rw [still_trail hi] at hlog
  have hsame : y.state.store.batches = x.state.store.batches := by
    rw [hstore,still_batches hi]
  have hr : Retains x.state.store y.state.store := hstore ▸ retains_effect _ _ _
  refine append_kept hx hlog (fun m hm => nomatch hm) rfl (appended_same hsame) hr ?_
    fun m rc hm => nomatch hm
  intro b hb
  exact hx.labels b (hsame ▸ hb)

structure Owing (pid : Nat) (bs : List DigestBatch) (x : Traced State Trail) : Prop where
  owed : owed pid x.log = bs
  nodup : (bs.map DigestBatch.id).Nodup

theorem countOf_markFlushed (s : Store) (bs : List DigestBatch) (id : Nat) :
    (s.markFlushed bs).countOf id = s.countOf id := by
  rw [Store.countOf,find_markFlushed,Store.countOf,Option.map_map]
  congr 2
  funext b
  simp only [Function.comp_apply]
  split <;> rfl

theorem flushDue_kept {ts : Int} {bs : List DigestBatch} (hx : Counted base x)
    (hnone : owed pid x.log = []) (h : (trailed env).exec pid (.flushDue ts) x = some (y,bs)) :
    Counted base y ∧ Owing pid bs y := by
  obtain ⟨hstore,hb,hlog⟩ := exec_noted h
  have hr : Retains x.state.store y.state.store := hstore ▸ retains_effect _ _ _
  have hb : bs = x.state.store.dueBatches x.state.now.lockedBatch ts := hb
  have hstore : y.state.store = x.state.store.markFlushed bs := hb ▸ hstore
  have hlog : y.log = record pid x.log (some (.flushed bs)) := hlog
  have hself : owed pid y.log = bs := by
    rw [hlog,owed,record,outstanding_grant fun _ => rfl]
    exact (congrArg (bs ++ ·) hnone).trans (List.append_nil bs)
  have hother : ∀ q, q ≠ pid → owed q y.log = owed q x.log := by
    intro q hq
    rw [hlog]
    exact outstanding_other hq
  have hdue : ∀ b ∈ bs, x.state.store.batches.find b.id = some b := by
    intro b hm
    exact Table.find_of_mem (dueBatches_spec (hb ▸ hm)).1
  have hany : ∀ b : DigestBatch, (∀ d ∈ bs, d.id ≠ b.id) → bs.any (·.id == b.id) = false := by
    intro b hne
    exact List.any_eq_false.mpr fun d hd he => hne d hd (beq_iff_eq.mp he)
  have hcovered : ∀ b, Covered x b → (∀ d ∈ bs, d.id ≠ b.id) → Covered y b := by
    intro b hcov hne
    rcases hcov with h | h | ⟨q,b',hb',hid⟩
    · exact .inl h
    · exact .inr (.inl (h.retained hr))
    · refine .inr (.inr ⟨q,b',?_,hid⟩)
      by_cases hq : q = pid
      · rw [hq,hnone] at hb'
        cases hb'
      · rwa [hother q hq]
  refine ⟨counted_record hx hlog ?_ ?_ ?_ ⟨hr,?_⟩ (fun m rc hm => by cases hm),hself,?_⟩
  · rw [hstore]
    exact routed_modify hx.labels fun _ => ⟨rfl,rfl⟩
  · intro id
    rw [hstore,countOf_markFlushed]
    rfl
  · intro q b hm
    rw [hstore,find_markFlushed]
    by_cases hq : q = pid
    · rw [hq,hself] at hm
      rw [hdue b hm,Option.map_some,if_pos (List.any_eq_true.mpr ⟨b,hm,by simp⟩)]
    · rw [hother q hq] at hm
      rw [hx.owes q b hm,Option.map_some]
      split <;> rfl
  · intro id b hfind
    have hid : b.id = id := (Table.find_some hfind).2
    rw [hstore,find_markFlushed,hfind,Option.map_some]
    by_cases hsel : ∃ d ∈ bs, d.id = b.id
    · obtain ⟨d,hd,hdid⟩ := hsel
      have hsel : bs.any (·.id == b.id) = true := List.any_eq_true.mpr ⟨d,hd,by simpa using hdid⟩
      rw [if_pos hsel]
      exact ⟨_,rfl,rfl,fun _ => .inr (.inr ⟨pid,d,hself ▸ hd,hdid⟩)⟩
    · have hne : ∀ d ∈ bs, d.id ≠ b.id := fun d hd he => hsel ⟨d,hd,he⟩
      rw [hany b hne]
      exact ⟨b,rfl,rfl,fun hcov => hcovered b hcov hne⟩
  · rw [hb]
    exact x.state.store.batches.nodup_select _ _ _

theorem insertSummary_kept {b : DigestBatch} {bs : List DigestBatch} {ts : Int} {hit : Option Nat}
    (hx : Counted base x) (hw : Owing pid (b :: bs) x) (hfits : (b.summary ts).isSome = true)
    (h : (trailed env).exec pid (.insertSummary b ts) x = some (y,hit)) :
    Counted base y ∧ Owing pid bs y := by
  obtain ⟨hstore,-,hlog⟩ := exec_noted h
  have hr : Retains x.state.store y.state.store := hstore ▸ retains_effect _ _ _
  have hstore : y.state.store = (x.state.store.insertSummary b ts).1 := hstore
  have hlog : y.log = record pid x.log (some (.summarised b.id)) := hlog
  have hsame : y.state.store.batches = x.state.store.batches := by
    rw [hstore]
    unfold Store.insertSummary
    split <;> rfl
  have hsum : y.state.store.Summarised b := hstore ▸ insertSummary_summarised hfits
  have hfilter : owed pid y.log = (owed pid x.log).filter (·.id != b.id) := by
    rw [hlog]
    exact outstanding_release rfl
  have hself : owed pid y.log = bs := by
    rw [hfilter,hw.owed]
    exact filter_rest hw.nodup
  have hother : ∀ q, q ≠ pid → owed q y.log = owed q x.log := by
    intro q hq
    rw [hlog]
    exact outstanding_other hq
  have hsub : ∀ q, ∀ d ∈ owed q y.log, d ∈ owed q x.log := by
    intro q d hd
    by_cases hq : q = pid
    · rw [hq,hfilter] at hd
      exact hq ▸ (List.mem_filter.mp hd).1
    · exact hother q hq ▸ hd
  have hrest : (bs.map DigestBatch.id).Nodup := (List.nodup_cons.mp hw.nodup).2
  refine ⟨counted_record hx hlog ?_ ?_ ?_ ⟨hr,?_⟩ (fun m rc hm => nomatch hm),hself,hrest⟩
  · intro d hd
    exact hx.labels d (hsame ▸ hd)
  · intro id
    rw [Store.countOf,hsame]
    rfl
  · intro q d hd
    rw [hsame]
    exact hx.owes q d (hsub q d hd)
  · intro id d hfind
    refine ⟨d,by rw [hsame,hfind],rfl,fun hcov => ?_⟩
    rcases hcov with h | h | ⟨q,d',hd',hid⟩
    · exact .inl h
    · exact .inr (.inl (h.retained hr))
    · by_cases hb : d'.id = b.id
      · have hkey : d.id = id := (Table.find_some hfind).2
        have hfind' : x.state.store.batches.find b.id = some d := by rw [← hb,hid,hkey,hfind]
        have howes := hx.owes pid b (hw.owed ▸ List.mem_cons_self)
        have hd : d = { b with status := .flushed } := Option.some.inj (hfind'.symm.trans howes)
        rw [hd]
        exact .inr (.inl hsum.flushed)
      · refine .inr (.inr ⟨q,d',?_,hid⟩)
        by_cases hq : q = pid
        · rw [hq,hfilter]
          exact List.mem_filter.mpr ⟨hq ▸ hd',by simpa using hb⟩
        · rwa [hother q hq]

def Stmt.claims : {β : Type} → Stmt β → Option (Notice × Int)
  | _, .claim _ n ts => some (n,ts)
  | _, _ => none

def Stmt.summary : {β : Type} → Stmt β → Option (Option Draft)
  | _, .insertSummary b ts => some (b.summary ts)
  | _, _ => none

def InWindow (x : Traced State Trail) (i : Stmt β) : Prop :=
  ∀ c ∈ i.claims, c.1.input.digestMode = "digest" → c.1.Open c.2 x.state.store

def Stmt.Plain : {β : Type} → Stmt β → Prop
  | _, .flushDue _ | _, .insertSummary _ _ => False
  | _, .claim _ n _ => ∀ ch ∈ n.channels, ch.supported = true
  | _, _ => True

theorem plain_kept {i : Stmt β} {b : β} (hi : i.Plain) (hx : Counted base x) (hw : InWindow x i)
    (h : (trailed env).exec pid i x = some (y,b)) :
    Counted base y ∧ ∀ q, owed q y.log = owed q x.log := by
  cases i with
  | claim pol m ts => exact claim_kept hx hi (hw (m,ts) rfl) h
  | overflow r ts => exact overflow_kept hx h
  | flushDue ts => exact hi.elim
  | insertSummary b ts => exact hi.elim
  | _ =>
    refine still_kept ?_ hx h
    trivial

end Steps

def counting (base : Nat → Nat) (env : Env) : Discipline (trailed env) where
  Inv := Counted base
  Rely pid x y := own pid y.log = own pid x.log
  Allow _ x _ i := InWindow x i ∧ i.summary ≠ some none
  Duty _ _ _ _ := True
  rely_refl _ _ := rfl
  rely_trans _ _ _ _ h k := k.trans h

section Plain

variable {env : Env}

theorem plain_inDispatch {n : Notice} (hn : ∀ ch ∈ n.channels, ch.supported = true) {β : Type}
    (i : Stmt β) (h : i.InDispatch n) : i.Plain := by
  cases i <;> first | exact h.elim | exact h ▸ hn | trivial

theorem plain_fail (r : OutboxRow) (ts : Int) (e : String) : (fail r ts e).Uses Stmt.Plain := by
  refine uses_bind (uses_perform trivial) fun _ => uses_ite ?_ (uses_perform trivial)
  exact uses_bind (p := backoff r.attempts) ⟨trivial,fun _ => trivial⟩ fun _ => uses_perform trivial

theorem plain_deliver (ts : Int) (r : OutboxRow) : (deliver env ts r).Uses Stmt.Plain := by
  have hcall : (callProvider env ts r).Uses Stmt.Plain := uses_ite (uses_perform trivial) trivial
  refine uses_bind hcall fun serr => uses_bind (uses_perform trivial) fun latency => ?_
  cases serr with
  | some e =>
    refine uses_bind (p := openCircuit r.channel ts) ⟨trivial,fun _ => ⟨trivial,fun _ => trivial⟩⟩
      fun _ => ?_
    exact uses_bind (plain_fail r ts e) fun _ => trivial
  | none =>
    refine uses_bind (uses_perform trivial) fun _ => uses_bind (uses_perform trivial) fun _ => ?_
    exact uses_bind (uses_perform trivial) fun _ => trivial

theorem plain_sendOne (pol : Policy) (ts : Int) (r : OutboxRow) :
    (sendOne env pol ts r).Uses Stmt.Plain := by
  refine uses_bind (p := circuitOpen r.channel ts) ⟨trivial,fun _ => trivial⟩ fun reopens => ?_
  cases reopens with
  | some reopens => exact uses_bind (uses_perform trivial) fun _ => trivial
  | none =>
    refine uses_bind (uses_perform trivial) fun sent => uses_ite ?_ (plain_deliver ts r)
    exact uses_bind (uses_perform trivial) fun _ => uses_bind (uses_perform trivial) fun _ => trivial

theorem plain_sendAll (pol : Policy) (ts : Int) (rows : List OutboxRow) :
    (sendAll env pol ts rows).Uses Stmt.Plain := by
  induction rows with
  | nil => trivial
  | cons r rows ih =>
    exact uses_bind (plain_sendOne pol ts r) fun _ => uses_bind ih fun _ => trivial

theorem plain_drain : (drain env).Uses Stmt.Plain := by
  refine uses_bind (loadPolicy_uses trivial trivial) fun pol => uses_bind (uses_perform trivial) fun ts => ?_
  exact uses_bind (uses_perform trivial) fun rows => plain_sendAll pol ts rows

end Plain

section Programs

variable {base : Nat → Nat} {env : Env} {pid : Nat} {x : Traced State Trail} {α β : Type}

def Settled (pid : Nat) (x : Traced State Trail) : Prop := owed pid x.log = []

def Counts (base : Nat → Nat) (env : Env) (pid : Nat) (Q : α → Traced State Trail → Prop)
    (p : Job α) (x : Traced State Trail) : Prop := (counting base env).Safe pid Q p x

theorem counts_bind {γ : Type} {Q : α → Traced State Trail → Prop}
    {T : γ → Traced State Trail → Prop} {p : Job α} {f : α → Job γ} (hx : Counted base x)
    (hp : Counts base env pid Q p x)
    (hf : ∀ a y, Counted base y → Q a y → Counts base env pid T (f a) y) :
    Counts base env pid T (p >>= f) x := Discipline.Safe.bind hx hp hf

theorem settled_stable {y : Traced State Trail} (h : Settled pid x)
    (hr : own pid y.log = own pid x.log) : Settled pid y := (outstanding_congr hr).trans h

theorem own_exec {i : Stmt β} {y : Traced State Trail} {b : β} {q : Nat}
    (h : (trailed env).exec pid i x = some (y,b)) (hq : q ≠ pid) : own q y.log = own q x.log := by
  rw [(exec_noted h).2.2]
  exact own_record pid x.log _ hq

theorem counts_plain {p : Job α} (hp : p.Uses Stmt.Plain) (h : Settled pid x) :
    Counts base env pid (fun _ y => Settled pid y) p x := by
  induction p generalizing x with
  | ret a => exact h
  | step i k ih =>
    intro t hr ht ha u b he
    obtain ⟨hinv,howed⟩ := plain_kept hp.1 ht ha.1 he
    have hu : Settled pid u := (howed pid).trans (settled_stable h hr)
    exact ⟨trivial,⟨hinv,fun q hq => own_exec he hq⟩,ih b (hp.2 b) hu⟩

theorem counts_summaries {ts : Int} {bs : List DigestBatch} (hx : Counted base x)
    (h : Owing pid bs x) : Counts base env pid (fun _ y => Settled pid y)
      (Prog.each (fun b => do
        let _ ← perform (.insertSummary b ts)
        return ()) bs) x := by
  induction bs generalizing x with
  | nil => exact h.owed
  | cons b bs ih =>
    intro t hr ht ha u hit he
    have ht' : Owing pid (b :: bs) t := ⟨(outstanding_congr hr).trans h.owed,h.nodup⟩
    have hfits : (b.summary ts).isSome = true := by
      cases hs : b.summary ts with
      | none => exact absurd (congrArg some hs) ha.2
      | some d => rfl
    obtain ⟨hinv,hrest⟩ := insertSummary_kept ht ht' hfits he
    exact ⟨trivial,⟨hinv,fun q hq => own_exec he hq⟩,ih hinv hrest⟩

theorem counts_flushDigests (hx : Counted base x) (h : Settled pid x) :
    Counts base env pid (fun _ y => Settled pid y) flushDigests x := by
  refine counts_bind hx (counts_plain (uses_perform trivial) h) fun ts y hy h => ?_
  intro t hr ht ha u bs he
  obtain ⟨hinv,howing⟩ := flushDue_kept ht (settled_stable h hr) he
  exact ⟨trivial,⟨hinv,fun q hq => own_exec he hq⟩,counts_summaries hinv howing⟩

def Receipted (i : Input) (pid : Nat) (a : Except String Outcome) (x : Traced State Trail) : Prop :=
  ∀ o, a = .ok o → o.action = .digested →
    ∃ rc, (pid,.dispatched i.notice rc) ∈ x.log ∧ rc.outcome = o

theorem counts_ite {Q : α → Traced State Trail → Prop} {c : Prop} [Decidable c] {p q : Job α}
    (hp : Counts base env pid Q p x) (hq : Counts base env pid Q q x) :
    Counts base env pid Q (if c then p else q) x := by
  split
  · exact hp
  · exact hq

theorem counts_suppressBy {i : Input} {reason : Reason} (h : Settled pid x) :
    Counts base env pid (fun a y => Settled pid y ∧ Receipted i pid a y)
      (suppressBy i.notice reason) x := by
  intro t hr ht ha u b he
  obtain ⟨hinv,howed⟩ := still_kept (i := .touch i.notice reason) trivial ht he
  refine ⟨trivial,⟨hinv,fun q hq => own_exec he hq⟩,(howed pid).trans (settled_stable h hr),?_⟩
  intro o ho haction
  rw [← Except.ok.inj ho] at haction
  exact nomatch haction

theorem counts_claim (base : Nat → Nat) (env : Env) (i : Input) (pol : Policy) (ts : Int)
    (h : Settled pid x) :
    Counts base env pid (fun a y => Settled pid y ∧ Receipted i pid a y) (do
      let receipt ← perform (.claim pol i.notice ts)
      return receipt.map (·.outcome)) x := by
  intro t hr ht ha u b he
  obtain ⟨hinv,howed⟩ := plain_kept (i := .claim pol i.notice ts)
    (cleanChannels_clean i.channels).supported ht ha.1 he
  refine ⟨trivial,⟨hinv,fun q hq => own_exec he hq⟩,(howed pid).trans (settled_stable h hr),?_⟩
  intro o ho _
  have hlog := (exec_noted he).2.2
  cases b with
  | error e => exact nomatch ho
  | ok rc =>
    refine ⟨rc,?_,Except.ok.inj ho⟩
    rw [hlog]
    exact List.mem_cons_self

theorem counts_dispatch (i : Input) (hx : Counted base x) (h : Settled pid x) :
    Counts base env pid (fun a y => Settled pid y ∧ Receipted i pid a y) (dispatch env i) x := by
  have hchannels : ∀ ch ∈ i.notice.channels, ch.supported = true :=
    (cleanChannels_clean i.channels).supported
  refine counts_ite ⟨h,fun o ho => nomatch ho⟩ ?_
  refine counts_bind hx (counts_plain (uses_perform trivial) h) fun ts y hy h => ?_
  refine counts_bind hy (counts_plain (loadPolicy_uses trivial trivial) h) fun pol y hy h => ?_
  refine counts_ite (counts_suppressBy h) ?_
  refine counts_bind hy (counts_plain (uses_perform trivial) h) fun windows y hy h => ?_
  refine counts_ite (counts_suppressBy h) ?_
  refine counts_bind hy (counts_plain (uses_mono (plain_inDispatch hchannels)
    (loadGroupQuiet_uses i.notice i.groupID)) h) fun quiet y hy h => ?_
  have hclaim := counts_claim base env i pol ts h
  refine counts_ite ?_ ?_
  · exact counts_suppressBy h
  · exact hclaim

def Answer.Tells (pid : Nat) (x : Traced State Trail) (r : Request) (a : Answer) : Prop :=
  ∀ i o, r = .dispatch i → a = .outcome o → Receipted i pid o x

theorem counts_handle (r : Request) (hx : Counted base x) (h : Settled pid x) :
    Counts base env pid (fun a y => Settled pid y ∧ a.Tells pid y r) (handle env r) x := by
  cases r with
  | dispatch i =>
    refine counts_bind hx (counts_dispatch i hx h) fun o y hy h => ⟨h.1,?_⟩
    rintro j o' ⟨⟩ ⟨⟩
    exact h.2
  | drain =>
    refine counts_bind hx (counts_plain plain_drain h) fun o y hy h => ⟨h,?_⟩
    exact fun i o' hr => nomatch hr
  | flushDigests =>
    refine counts_bind hx (counts_flushDigests hx h) fun o y hy h => ⟨h,?_⟩
    exact fun i o' hr => nomatch hr
  | requeueStale =>
    refine counts_bind hx (counts_plain (uses_perform trivial) h) fun o y hy h => ⟨h,?_⟩
    exact fun i o' hr => nomatch hr

end Programs

section Runs

variable {base : Nat → Nat} {env : Env} {es : List (Event (trailed env))} {w v : World (trailed env)}
  {e : Event (trailed env)}

def Told (es : List (Event (trailed env))) (pid : Nat) (a : Answer) (x : Traced State Trail) : Prop :=
  Settled pid x ∧ ∀ i, .start pid (.dispatch i) ∈ es → a.Tells pid x (.dispatch i)

theorem told_stable {pid : Nat} {a : Answer} {x y : Traced State Trail}
    (hr : own pid y.log = own pid x.log) (h : Told es pid a x) : Told es pid a y := by
  refine ⟨settled_stable h.1 hr,fun i hi j o hj ho o' ho' ha => ?_⟩
  obtain ⟨rc,hm,hrc⟩ := h.2 i hi j o hj ho o' ho' ha
  have hown : (pid,Trail.dispatched j.notice rc) ∈ own pid x.log :=
    List.mem_filter.mpr ⟨hm,by simp⟩
  exact ⟨rc,(List.mem_filter.mp (hr ▸ hown)).1,hrc⟩

structure Audited (base : Nat → Nat) (es : List (Event (trailed env))) (w : World (trailed env)) :
    Prop where
  held : (counting base env).HeldTo (Told es) w
  unlogged : Unlogged (S := system env) trail w

theorem Audited.step {u z : World (trailed env)} (hes : u.run es = some z) (hw : Audited base es w)
    (hm : Landing (counting base env).Allow w e) (he : e ∈ es) (h : w.step e = some v) :
    Audited base es v := by
  refine ⟨?_,hw.unlogged.step h⟩
  refine Discipline.heldTo_step (D := counting base env) (Q := Told es)
    (fun _ _ _ _ hr hq => told_stable hr hq) (fun e _ _ _ _ => Empty.elim e) hw.held hm ?_ h
  rintro pid r rfl
  have hown := hw.unlogged pid (step_start h).1
  refine Discipline.Safe.mono ?_ hw.held.1
    (counts_handle r hw.held.1 (outstanding_unlogged hown))
  intro a y _ hy
  refine ⟨hy.1,fun i hi => ?_⟩
  have hreq : Request.dispatch i = r := started_once hes hi he
  rw [hreq]
  exact hy.2

theorem audited_run {s : State} (hstart : Counted base ⟨s,[]⟩)
    (hc : Along (Landing (counting base env).Allow) (World.idle ⟨s,[]⟩) es)
    (hr : (World.idle (S := trailed env) ⟨s,[]⟩).run es = some w) : Audited base es w := by
  have hidle : Audited base es (World.idle (S := trailed env) ⟨s,[]⟩) :=
    ⟨⟨hstart,by simp [World.idle]⟩,unlogged_idle s⟩
  have hmem : Along (fun _ e => e ∈ es) (World.idle (S := trailed env) ⟨s,[]⟩) es :=
    along_of_mem (fun e he _ => he) _
  exact along_invariant (fun _ _ _ hi hm h => Audited.step hr hi hm.1 hm.2 h) hidle
    (along_and hc hmem) hr

def WindowsOpen (w : World (trailed env)) (e : Event (trailed env)) : Prop :=
  Landing (S := trailed env) (fun _ x _ i => InWindow x i) w e

def SummariesFit (w : World (trailed env)) (e : Event (trailed env)) : Prop :=
  Landing (S := trailed env) (fun _ _ _ i => Stmt.summary i ≠ some none) w e

instance (n : Notice) (ts : Int) (s : Store) : Decidable (n.Open ts s) :=
  inferInstanceAs (Decidable (∀ ch ∈ n.channels, ∀ e ∈ n.entry ts ch,
    ∀ b ∈ e.target s, b.status = .opened))

instance inWindowDecidable (x : Traced State Trail) {β : Type} (i : Stmt β) :
    Decidable (InWindow x i) :=
  inferInstanceAs (Decidable (∀ c ∈ i.claims,
    c.1.input.digestMode = "digest" → c.1.Open c.2 x.state.store))

instance (w : World (trailed env)) (e : Event (trailed env)) : Decidable (WindowsOpen w e) :=
  landingDecidable (S := trailed env) (fun _ x _ i => InWindow x i)
    (h := fun _ x _ i => inWindowDecidable x i) w e

instance (w : World (trailed env)) (e : Event (trailed env)) : Decidable (SummariesFit w e) :=
  landingDecidable (S := trailed env) (fun _ _ _ i => Stmt.summary i ≠ some none)
    (h := fun _ _ _ i => inferInstanceAs (Decidable (Stmt.summary i ≠ some none))) w e

end Runs

theorem counted_start {s : State} (h : s.store.Routed Labelled) :
    Counted s.store.countOf ⟨s,[]⟩ :=
  ⟨h,fun _ => rfl,(fun _ _ h => nomatch h),fun _ _ _ h => nomatch h⟩

theorem settled_returned {base : Nat → Nat} {env : Env} {es : List (Event (trailed env))}
    {w : World (trailed env)} (hw : Audited base es w)
    (hdone : ∀ pid bs, (pid,.flushed bs) ∈ w.state.log → w.returned pid = true) (pid : Nat) :
    owed pid w.state.log = [] := by
  refine List.eq_nil_iff_forall_not_mem.mpr fun b hb => ?_
  obtain ⟨n,hn,hg⟩ := mem_outstanding hb
  cases n with
  | flushed bs =>
    obtain ⟨a,ha⟩ := World.returned_iff.mp (hdone pid bs hn)
    have hsettled : owed pid w.state.log = [] := (hw.held.2 pid _ ha).1
    rw [hsettled] at hb
    exact nomatch hb
  | _ => exact nomatch hg

theorem digests_lose_nothing (env : Env) (s : State) (es : List (Event (trailed env)))
    (w : World (trailed env)) (hlabels : s.store.Routed Labelled)
    (hwindows : Along WindowsOpen (World.idle ⟨s,[]⟩) es)
    (hsummaries : Along SummariesFit (World.idle ⟨s,[]⟩) es)
    (hr : (World.idle (S := trailed env) ⟨s,[]⟩).run es = some w)
    (hdone : ∀ pid bs, (pid,.flushed bs) ∈ w.state.log → w.returned pid = true) :
    (∀ b ∈ w.state.state.store.batches.rows,
        b.count = s.store.countOf b.id + tally b.id w.state.log) ∧
      ∀ pid i o, .start pid (.dispatch i) ∈ es → w.answer pid = some (.outcome (.ok o)) →
        o.action = .digested → ∃ rc, (pid,.dispatched i.notice rc) ∈ w.state.log ∧
          rc.hits.map Prod.fst = i.notice.channels ∧
          ∀ hit ∈ rc.hits, ∃ b ∈ w.state.state.store.batches.rows, hit.2 = some b.id ∧
            b.channel = hit.1 ∧ (b.status = .opened ∨ w.state.state.store.Summarised b) := by
  have hallow : Along (Landing (counting s.store.countOf env).Allow) (World.idle ⟨s,[]⟩) es := by
    refine along_imp (fun w e hw => ?_) (along_and hwindows hsummaries)
    cases e with
    | act pid => exact fun β i k hp u b hx => ⟨hw.1 β i k hp u b hx,hw.2 β i k hp u b hx⟩
    | _ => trivial
  have haudited : Audited s.store.countOf es w := audited_run (counted_start hlabels) hallow hr
  have hinv : Counted s.store.countOf w.state := haudited.held.1
  have hsettled := settled_returned haudited hdone
  refine ⟨fun b hb => ?_,fun pid i o hstart hanswer haction => ?_⟩
  · have hfind : w.state.state.store.batches.find b.id = some b := Table.find_of_mem hb
    rw [← hinv.counts,Store.countOf,hfind]
    rfl
  · have htold := (haudited.held.2 pid _ (World.answer_eq.mp hanswer)).2 i hstart
    obtain ⟨rc,hm,hrc⟩ := htold i (.ok o) rfl rfl o rfl haction
    have hlands := hinv.kept pid i.notice rc hm (hrc ▸ haction)
    refine ⟨rc,hm,hlands.channels,fun hit hhit => ?_⟩
    obtain ⟨id,b,hid,hb,hch,hcov⟩ := hlands.batches hit hhit
    obtain ⟨hmem,hkey⟩ := Table.find_some hb
    refine ⟨b,hmem,by rw [hid,← hkey]; rfl,hch,?_⟩
    rcases hcov with h | h | ⟨q,b',hb',-⟩
    · exact .inl h
    · exact .inr h
    · rw [hsettled q] at hb'
      cases hb'

def Input.digest (key : String) : Input :=
  { Input.alert key ["EMAIL"] false with digestMode := "digest" }

def closing (last t : Nat) : Outside := Outside.at (if t < last then 3599 else 3600)

def steps (pid n : Nat) : List (Event (trailed .utc)) := List.replicate n (.act pid)

def digestAppended : List (Event (trailed .utc)) :=
  .start 0 (.dispatch (.digest "a")) :: steps 0 4

def Answer.action : Answer → Option Action
  | .outcome (.ok o) => some o.action
  | _ => none

def Trail.flushes : Trail → Bool
  | .flushed _ => true
  | _ => false

theorem flushed_digest_counted : ∃ w,
    (World.idle (S := trailed .utc) ⟨⟨.empty,0,closing 4⟩,[]⟩).run
        (digestAppended ++ .start 1 .flushDigests :: steps 1 3) = some w ∧
      ∃ rc, (0,.dispatched (Input.digest "a").notice rc) ∈ w.state.log ∧
        ∀ hit ∈ rc.hits, ∃ b ∈ w.state.state.store.batches.rows, hit.2 = some b.id ∧
          b.channel = hit.1 ∧ (b.status = .opened ∨ w.state.state.store.Summarised b) := by
  have hrun : ((World.idle (S := trailed .utc) ⟨⟨.empty,0,closing 4⟩,[]⟩).run
      (digestAppended ++ .start 1 .flushDigests :: steps 1 3)).map (fun w =>
        ((w.answer 0).bind Answer.action,
          w.state.log.all fun e => !e.2.flushes || w.returned e.1)) =
      some (some .digested,true) := by
    decide +kernel
  obtain ⟨w,hw,heq⟩ := Option.map_eq_some_iff.mp hrun
  rw [Prod.mk.injEq,List.all_eq_true] at heq
  obtain ⟨haction,hdone⟩ := heq
  obtain ⟨a,ha,hact⟩ := Option.bind_eq_some_iff.mp haction
  cases a with
  | outcome r =>
    cases r with
    | error e => exact nomatch hact
    | ok o =>
      have hflushes : ∀ pid bs, (pid,.flushed bs) ∈ w.state.log → w.returned pid = true := by
        intro pid bs hm
        simpa [Trail.flushes] using hdone (pid,.flushed bs) hm
      obtain ⟨rc,hm,-,hhits⟩ := (digests_lose_nothing .utc ⟨.empty,0,closing 4⟩ _ w
        (fun _ h => nomatch h) (by decide +kernel) (by decide +kernel) hw hflushes).2 0 (.digest "a") o
        List.mem_cons_self ha (Option.some.inj hact)
      exact ⟨w,hw,rc,hm,hhits⟩
  | _ => exact nomatch hact

def hitsOf (w : World (trailed .utc)) (pid : Nat) : List (Channel × Option Nat) :=
  w.state.log.flatMap fun e => match e with
    | (q,.dispatched _ rc) => if q = pid then rc.hits else []
    | _ => []

theorem late_append_lost :
    ((World.idle (S := trailed .utc) ⟨⟨.empty,0,closing 7⟩,[]⟩).run
        (digestAppended ++ .start 1 (.dispatch (.digest "b")) :: steps 1 3 ++
          .start 2 .flushDigests :: steps 2 3 ++ steps 1 1)).map (fun w =>
        ((w.answer 1).bind Answer.action,hitsOf w 1,
          w.state.state.store.batches.rows.map (·.count))) =
      some (some .digested,[(.email,none)],[1]) ∧
    ((World.idle (S := trailed .utc) ⟨⟨.empty,0,closing 4⟩,[]⟩).run
        (digestAppended ++ .start 1 .flushDigests :: steps 1 2)).map (fun w =>
        (w.state.state.store.batches.rows.map (·.status),w.state.state.store.outbox.rows)) =
      some ([.flushed],[]) := by
  decide +kernel

end Delivery
