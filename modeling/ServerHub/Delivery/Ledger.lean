import ServerHub.Delivery.Outbox
import ServerHub.Interleave.Contract

namespace Delivery

open Go Relational Interleave Interleave.Prog

inductive Note where
  | claimed (rows : List OutboxRow)
  | called (id : Nat) (ok : Bool)
  | resolved (id : Nat)
deriving DecidableEq

def note : (β : Type) → Stmt β → β → Option Note
  | _, .claimDue _, rows => some (.claimed rows)
  | _, .send _ r, b => some (.called r.id b.isNone)
  | _, .resolve id _, _ => some (.resolved id)
  | _, _, _ => none

def watched (env : Env) : System := (system env).watch note

def Note.grants : Note → List OutboxRow
  | .claimed rows => rows
  | _ => []

def Note.releases : Note → OutboxRow → Bool
  | .resolved id, r => r.id == id
  | _, _ => false

def holds (pid : Nat) (log : List (Nat × Note)) : List OutboxRow :=
  outstanding Note.grants Note.releases pid log

def Note.outcome (id : Nat) : Note → Option Bool
  | .called i ok => if i = id then some ok else none
  | _ => none

def callsOf (id : Nat) (log : List (Nat × Note)) : List Bool := log.filterMap (·.2.outcome id)

section Log

variable {pid id : Nat} {log log' : List (Nat × Note)}

theorem holds_congr (h : own pid log' = own pid log) : holds pid log' = holds pid log :=
  outstanding_congr h

theorem callsOf_record {n : Option Note} :
    callsOf id (record pid log n) = (n.bind (Note.outcome id)).toList ++ callsOf id log := by
  cases n with
  | none => rfl
  | some n =>
    simp only [record,callsOf,List.filterMap_cons,Option.bind_some]
    cases n.outcome id <;> rfl

theorem callsOf_quiet {n : Note} (h : n.outcome id = none) :
    callsOf id ((pid,n) :: log) = callsOf id log := by
  simp [callsOf,h]

end Log

def Resolution.effect (x : Resolution) (r : OutboxRow) : OutboxRow :=
  if x.error.isSome then x.apply r else r

theorem find_resolve_effect {s : Store} {id : Nat} {r : OutboxRow} {x : Resolution}
    (h : s.outbox.find id = some r) : (s.resolve id x).outbox.find id = some (x.effect r) := by
  rw [find_resolve,h,Resolution.effect]
  by_cases he : x.error.isSome = true
  · rw [if_pos ⟨rfl,he⟩,if_pos he]
    rfl
  · rw [if_neg fun hk => he hk.2,if_neg he]

inductive Settles (text : Option String → Prop) (r : OutboxRow) : Option Bool → Resolution → Prop
  | deferred (msg : String) (t : Int) : Settles text r none (.deferred msg t)
  | unsupported {e : Option String} {x : Resolution} (hch : r.channel.supported = false)
      (hx : Failed r e x) : Settles text r none x
  | refused {e : Option String} {x : Resolution} (hx : Failed r e x) (he : text e) :
      Settles text r (some false) x
  | delivered (t : Int) : Settles text r (some true) (.sent t)

structure Ledger where
  Acc : OutboxRow → List Bool → Prop
  Dest : Channel → Prop
  text : Option String → Prop
  dest_supported : ∀ ch, ch.supported = true → Dest ch
  dest : ∀ r cs, Acc r cs → Dest r.channel
  fresh : ∀ r, r.Fresh → Dest r.channel → Acc r []
  unsent : ∀ r cs, Acc r cs → r.status.due = true → true ∉ cs
  settle : ∀ r cs c x, Acc r cs → r.status.due = true → Settles text r c x →
    Acc (x.effect { r with status := .sending }) (c.toList ++ cs)
  requeue : ∀ r cs, Acc r cs → r.status = .sending → Acc { r with status := .pending } cs

structure Ledgered (L : Ledger) (x : Traced State Note) : Prop where
  held : ∀ pid r, r ∈ holds pid x.log →
    x.state.store.outbox.find r.id = some { r with status := .sending }
  apart : ∀ p q r r', r ∈ holds p x.log → r' ∈ holds q x.log → r.id = r'.id → p = q
  free : ∀ id r, x.state.store.outbox.find id = some r →
    (∀ pid r', r' ∈ holds pid x.log → r'.id ≠ id) → L.Acc r (callsOf id x.log)
  known : ∀ id, callsOf id x.log ≠ [] → id < x.state.store.outbox.next
  batches : ∀ b ∈ x.state.store.batches.rows, L.Dest b.channel

structure Undisturbed (pid : Nat) (x y : Traced State Note) : Prop where
  own : own pid y.log = own pid x.log
  calls : ∀ r ∈ holds pid x.log, callsOf r.id y.log = callsOf r.id x.log

def idle (log : List (Nat × Note)) : Prop := Idle Note.grants Note.releases log

def elsewhere (pid id : Nat) (log : List (Nat × Note)) : Prop :=
  ∃ e ∈ log, e.1 ≠ pid ∧ ∃ r ∈ holds e.1 log, r.id = id

def Stmt.sends : {β : Type} → Stmt β → Option Nat
  | _, .send _ r => some r.id
  | _, _ => none

def Stmt.sweeps : {β : Type} → Stmt β → Bool
  | _, .requeueStale => true
  | _, _ => false

def Spared {β : Type} (x : Traced State Note) (i : Stmt β) : Prop := i.sweeps = true → idle x.log

def Legible {β : Type} (text : Option String → Prop) (x : Traced State Note) (i : Stmt β) : Prop :=
  i.sends.isSome = true → ∀ e ∈ x.state.now.answer, text (truncate e 500)

def Stmt.settles : {β : Type} → Stmt β → Bool
  | _, .resolve _ _ => true
  | _, _ => false

def Recorded {β : Type} (x : Traced State Note) (i : Stmt β) : Prop :=
  i.settles = true → x.state.now.fault .rowUpdate = false

def Alone {β : Type} (pid : Nat) (x : Traced State Note) (i : Stmt β) : Prop :=
  ∀ id ∈ i.sends, ¬ elsewhere pid id x.log ∧ true ∉ callsOf id x.log

def Ledger.discipline (L : Ledger) (env : Env) : Discipline (watched env) where
  Inv := Ledgered L
  Rely := Undisturbed
  Allow _ x _ i := Spared x i ∧ Legible L.text x i ∧ Recorded x i
  Duty pid x _ i := Alone pid x i
  rely_refl _ _ := ⟨rfl,fun _ _ => rfl⟩
  rely_trans _ _ _ _ h k := ⟨k.own.trans h.own,fun r hr =>
    (k.calls r (holds_congr h.own ▸ hr)).trans (h.calls r hr)⟩

def Stmt.Calm (P : Channel → Prop) : {β : Type} → Stmt β → Prop
  | _, .claim _ n _ => ∀ ch ∈ n.channels, P ch
  | _, .insertSummary b _ => P b.channel
  | _, .overflow r _ => P r.channel
  | _, .claimDue _ | _, .send _ _ | _, .resolve _ _ | _, .requeueStale => False
  | _, _ => True

section Calm

variable {P : Channel → Prop} {s : Store} {o : Outside} {β : Type}

theorem calm_note {i : Stmt β} (h : i.Calm P) (b : β) : note β i b = none := by
  cases i <;> first | rfl | exact h.elim

theorem claimed_grows (pol : Policy) {n : Notice} (ts : Int) (refusal : Option String)
    (hn : ∀ ch ∈ n.channels, P ch) (h : s.Routed fun _ => P) :
    Grows P s (claimed pol n ts refusal s).1 ∧
      (claimed pol n ts refusal s).1.Routed fun _ => P := by
  obtain ⟨e,he⟩ | ⟨t,rc,hclaim,he⟩ := claimed_cases pol n ts refusal s
  · rw [he]
    exact ⟨grows_same rfl rfl,h⟩
  · rw [he]
    exact ⟨(claim_grows hclaim).mono hn,claim_routed h hn hclaim⟩

theorem calm_effect {i : Stmt β} (hi : i.Calm P) (h : s.Routed fun _ => P) :
    (∃ t, Grows P s t ∧ t.outbox = (i.effect o s).1.outbox) ∧
      (i.effect o s).1.Routed fun _ => P := by
  cases i with
  | claim pol n ts =>
    obtain ⟨hg,hr⟩ := claimed_grows pol ts o.refusal hi h
    exact ⟨⟨_,hg,rfl⟩,hr⟩
  | insertSummary b ts => exact ⟨⟨_,insertSummary_grows hi ts,rfl⟩,insertSummary_routed h ts⟩
  | overflow r ts =>
    exact ⟨⟨s,grows_same rfl rfl,(recordOverflow_outbox s r ts).1.symm⟩,recordOverflow_routed h hi ts⟩
  | recordAttempt id ok e latency =>
    have hsame := recordAttempt_outbox s id ok e latency o.dbClock
    refine ⟨⟨s,grows_same rfl rfl,?_⟩,?_⟩
    · simp only [Stmt.effect]
      split
      · rfl
      · exact hsame.1.symm
    show (if o.fault .attempt then s else s.recordAttempt id ok e latency o.dbClock).Routed fun _ => P
    unfold Store.recordAttempt
    repeat' split
    all_goals exact h
  | flushDue ts =>
    refine ⟨⟨s,grows_same rfl rfl,rfl⟩,?_⟩
    exact routed_modify h fun _ => ⟨rfl,rfl⟩
  | claimDue ts => exact hi.elim
  | send ts r => exact hi.elim
  | resolve id x => exact hi.elim
  | requeueStale => exact hi.elim
  | clock => exact ⟨⟨s,grows_same rfl rfl,rfl⟩,h⟩
  | policy => exact ⟨⟨s,grows_same rfl rfl,rfl⟩,h⟩
  | seedPolicy => exact ⟨⟨s,grows_same rfl rfl,rfl⟩,h⟩
  | windows ts => exact ⟨⟨s,grows_same rfl rfl,rfl⟩,h⟩
  | quiet g => exact ⟨⟨s,grows_same rfl rfl,rfl⟩,h⟩
  | touch n reason => exact ⟨⟨s,grows_same rfl rfl,rfl⟩,h⟩
  | provider ch => exact ⟨⟨s,grows_same rfl rfl,rfl⟩,h⟩
  | sentSince ch since => exact ⟨⟨s,grows_same rfl rfl,rfl⟩,h⟩
  | elapsed => exact ⟨⟨s,grows_same rfl rfl,rfl⟩,h⟩
  | random n => exact ⟨⟨s,grows_same rfl rfl,rfl⟩,h⟩
  | openCircuit ch n u ts =>
    simp only [Stmt.effect]
    split <;> exact ⟨⟨s,grows_same rfl rfl,rfl⟩,h⟩
  | closeCircuit ch ts =>
    simp only [Stmt.effect]
    split <;> exact ⟨⟨s,grows_same rfl rfl,rfl⟩,h⟩

end Calm

section Steps

variable {L : Ledger} {env : Env} {pid : Nat} {x y : Traced State Note} {β : Type}

theorem undisturbed_same (hlog : y.log = x.log) (q : Nat) : Undisturbed q x y :=
  ⟨by rw [hlog],fun r _ => by rw [hlog]⟩

theorem undisturbed_other {n : Note} {q : Nat} (hlog : y.log = (pid,n) :: x.log) (hq : q ≠ pid)
    (hcalls : ∀ r ∈ holds q x.log, callsOf r.id y.log = callsOf r.id x.log) : Undisturbed q x y := by
  refine ⟨?_,hcalls⟩
  rw [hlog]
  exact own_record pid x.log (some n) hq

theorem ledgered_grows {t : Store} (hx : Ledgered L x) (hg : Grows L.Dest x.state.store t)
    (ho : t.outbox = y.state.store.outbox) (hb : y.state.store.Routed fun _ => L.Dest)
    (hlog : y.log = x.log) : Ledgered L y := by
  constructor
  · intro pid r hr
    rw [hlog] at hr
    rw [← ho]
    exact hg.find_some (hx.held pid r hr)
  · rw [hlog]
    exact hx.apart
  · intro id r hr hfree
    rw [hlog] at hfree ⊢
    rw [← ho] at hr
    rcases hg.find_new hr with hold | ⟨hfresh,hdest,hid⟩
    · exact hx.free id r hold hfree
    · have hnil : callsOf id x.log = [] := by
        by_contra hne
        exact absurd (hx.known id hne) (Nat.not_lt.mpr hid)
      rw [hnil]
      exact L.fresh r hfresh hdest
  · intro id hne
    rw [hlog] at hne
    rw [← ho]
    exact Nat.lt_of_lt_of_le (hx.known id hne) hg.next
  · exact hb

theorem calm_kept {i : Stmt β} {b : β} (hi : i.Calm L.Dest) (hx : Ledgered L x)
    (h : (watched env).exec pid i x = some (y,b)) :
    Ledgered L y ∧ ∀ q, Undisturbed q x y := by
  obtain ⟨hstore,-,hlog⟩ := exec_noted h
  rw [calm_note hi] at hlog
  obtain ⟨⟨t,hg,ho⟩,hr⟩ := calm_effect (o := x.state.now) hi hx.batches
  rw [← hstore] at ho hr
  exact ⟨ledgered_grows hx hg ho hr hlog,undisturbed_same hlog⟩

structure Holding (L : Ledger) (pid : Nat) (rows : List OutboxRow) (x : Traced State Note) : Prop where
  holds : holds pid x.log = rows
  nodup : (rows.map OutboxRow.id).Nodup
  due : ∀ r ∈ rows, r.status.due = true
  acc : ∀ r ∈ rows, L.Acc r (callsOf r.id x.log)

structure Working (L : Ledger) (pid : Nat) (r : OutboxRow) (rows : List OutboxRow) (c : Option Bool)
    (x : Traced State Note) : Prop where
  holds : holds pid x.log = r :: rows
  nodup : ((r :: rows).map OutboxRow.id).Nodup
  due : ∀ r' ∈ r :: rows, r'.status.due = true
  first : ∃ cs, L.Acc r cs ∧ callsOf r.id x.log = c.toList ++ cs
  rest : ∀ r' ∈ rows, L.Acc r' (callsOf r'.id x.log)

variable {r : OutboxRow} {rows : List OutboxRow} {c : Option Bool}

theorem Holding.stable (h : Holding L pid rows x) (hu : Undisturbed pid x y) :
    Holding L pid rows y := by
  refine ⟨(holds_congr hu.own).trans h.holds,h.nodup,h.due,fun r hr => ?_⟩
  rw [hu.calls r (h.holds ▸ hr)]
  exact h.acc r hr

theorem Working.stable (h : Working L pid r rows c x) (hu : Undisturbed pid x y) :
    Working L pid r rows c y := by
  refine ⟨(holds_congr hu.own).trans h.holds,h.nodup,h.due,?_,fun r' hr => ?_⟩
  · obtain ⟨cs,hacc,hcs⟩ := h.first
    exact ⟨cs,hacc,by rw [hu.calls r (h.holds ▸ List.mem_cons_self),hcs]⟩
  · rw [hu.calls r' (h.holds ▸ List.mem_cons_of_mem r hr)]
    exact h.rest r' hr

theorem Holding.working (h : Holding L pid (r :: rows) x) : Working L pid r rows none x :=
  ⟨h.holds,h.nodup,h.due,⟨_,h.acc r List.mem_cons_self,rfl⟩,
    fun r' hr => h.acc r' (List.mem_cons_of_mem r hr)⟩

theorem not_held_of_due (hx : Ledgered L x) {r r' : OutboxRow} {q : Nat}
    (hr : r ∈ x.state.store.outbox.rows) (hdue : r.status.due = true)
    (hr' : r' ∈ holds q x.log) : r'.id ≠ r.id := by
  intro he
  have hfind : x.state.store.outbox.find r.id = some r := Table.find_of_mem hr
  have hheld := hx.held q r' hr'
  rw [he,hfind,Option.some.injEq] at hheld
  rw [hheld] at hdue
  exact nomatch hdue

theorem claimDue_kept {ts : Int} {b : List OutboxRow} (hx : Ledgered L x)
    (hnone : holds pid x.log = []) (h : (watched env).exec pid (.claimDue ts) x = some (y,b)) :
    Ledgered L y ∧ (∀ q, q ≠ pid → Undisturbed q x y) ∧ Holding L pid b y := by
  obtain ⟨hstore,hb,hlog⟩ := exec_noted h
  have hb : b = x.state.store.due x.state.now.lockedRow ts := hb
  have hstore : y.state.store = x.state.store.markSending b := hb ▸ hstore
  have hlog : y.log = (pid,.claimed b) :: x.log := hlog
  have hdue : ∀ r ∈ b, r ∈ x.state.store.outbox.rows ∧ r.status.due = true := by
    intro r hr
    obtain ⟨hm,hd,-⟩ := due_spec (hb ▸ hr)
    exact ⟨hm,hd⟩
  have hpid : holds pid y.log = b := by
    rw [hlog]
    exact outstanding_first (fun _ => rfl) hnone
  have hother : ∀ q, q ≠ pid → holds q y.log = holds q x.log := by
    intro q hq
    rw [hlog]
    exact outstanding_other hq
  have hcalls : ∀ id, callsOf id y.log = callsOf id x.log := by
    intro id
    rw [hlog,callsOf_quiet rfl]
  have hclear : ∀ q r', r' ∈ holds q x.log → ∀ r ∈ b, r'.id ≠ r.id := by
    intro q r' hr' r hr
    exact not_held_of_due hx (hdue r hr).1 (hdue r hr).2 hr'
  have hsame : ∀ id, (∀ r ∈ b, id ≠ r.id) →
      y.state.store.outbox.find id = x.state.store.outbox.find id := by
    intro id hne
    rw [hstore,find_markSending_ne hne]
  refine ⟨⟨?_,?_,?_,?_,?_⟩,?_,?_⟩
  · intro q r hr
    by_cases hq : q = pid
    · subst hq
      rw [hpid] at hr
      rw [hstore]
      exact markSending_claimed (fun r hr => (hdue r hr).1) hr
    · rw [hother q hq] at hr
      rw [hsame r.id fun d hd => hclear q r hr d hd]
      exact hx.held q r hr
  · intro p q r r' hr hr' he
    by_cases hp : p = pid <;> by_cases hq : q = pid
    · rw [hp,hq]
    · subst hp
      rw [hpid] at hr
      rw [hother q hq] at hr'
      exact absurd he.symm (hclear q r' hr' r hr)
    · subst hq
      rw [hpid] at hr'
      rw [hother p hp] at hr
      exact absurd he (hclear p r hr r' hr')
    · rw [hother p hp] at hr
      rw [hother q hq] at hr'
      exact hx.apart p q r r' hr hr' he
  · intro id r hr hfree
    rw [hcalls]
    have hnot : ∀ d ∈ b, id ≠ d.id := fun d hd he => hfree pid d (hpid ▸ hd) he.symm
    rw [hsame id hnot] at hr
    refine hx.free id r hr fun q r' hr' => ?_
    by_cases hq : q = pid
    · rw [hq,hnone] at hr'
      exact nomatch hr'
    · exact hfree q r' (hother q hq ▸ hr')
  · intro id hne
    rw [hcalls] at hne
    rw [hstore]
    exact hx.known id hne
  · rw [hstore]
    exact hx.batches
  · exact fun q hq => undisturbed_other hlog hq fun r _ => hcalls r.id
  · refine ⟨hpid,?_,fun r hr => (hdue r hr).2,fun r hr => ?_⟩
    · rw [hb]
      exact due_nodup x.state.store x.state.now.lockedRow ts
    · rw [hcalls]
      refine hx.free r.id r (Table.find_of_mem (hdue r hr).1) fun q r' hr' => ?_
      exact hclear q r' hr' r hr

theorem Working.held (h : Working L pid r rows c x) : r ∈ Delivery.holds pid x.log :=
  h.holds ▸ List.mem_cons_self

theorem Working.others (h : Working L pid r rows c x) (hx : Ledgered L x) {q : Nat} {r' : OutboxRow}
    (hq : q ≠ pid) (hr' : r' ∈ Delivery.holds q x.log) : r'.id ≠ r.id :=
  fun he => hq (hx.apart q pid r' r hr' h.held he)

theorem Working.alone (h : Working L pid r rows none x) (hx : Ledgered L x) :
    ¬ elsewhere pid r.id x.log ∧ true ∉ callsOf r.id x.log := by
  constructor
  · rintro ⟨e,-,hne,r',hr',hid⟩
    exact h.others hx hne hr' hid
  · obtain ⟨cs,hacc,hcs⟩ := h.first
    rw [hcs]
    exact L.unsent r cs hacc (h.due r List.mem_cons_self)

theorem send_kept {ts : Int} {b : Option String} (hx : Ledgered L x)
    (hw : Working L pid r rows none x) (h : (watched env).exec pid (.send ts r) x = some (y,b)) :
    Ledgered L y ∧ (∀ q, q ≠ pid → Undisturbed q x y) ∧ Working L pid r rows (some b.isNone) y ∧
      b = x.state.now.answer := by
  obtain ⟨hstore,hb,hlog⟩ := exec_noted h
  have hstore : y.state.store = x.state.store := hstore
  have hlog : y.log = (pid,.called r.id b.isNone) :: x.log := hlog
  have hholds : ∀ q, holds q y.log = holds q x.log := by
    intro q
    rw [hlog]
    exact outstanding_silent rfl fun _ => rfl
  have hcalls : ∀ id, id ≠ r.id → callsOf id y.log = callsOf id x.log := by
    intro id hne
    rw [hlog]
    exact callsOf_quiet (if_neg hne.symm)
  have hown : callsOf r.id y.log = b.isNone :: callsOf r.id x.log := by
    rw [hlog]
    simp [callsOf,Note.outcome]
  refine ⟨⟨?_,?_,?_,?_,?_⟩,?_,?_,hb⟩
  · intro q r' hr'
    rw [hstore]
    exact hx.held q r' (hholds q ▸ hr')
  · intro p q r₁ r₂ h₁ h₂
    exact hx.apart p q r₁ r₂ (hholds p ▸ h₁) (hholds q ▸ h₂)
  · intro id r' hr' hfree
    have hne : id ≠ r.id := fun he => hfree pid r (hholds pid ▸ hw.held) he.symm
    rw [hcalls id hne]
    refine hx.free id r' (hstore ▸ hr') fun q r₁ h₁ => hfree q r₁ (hholds q ▸ h₁)
  · intro id hne
    rw [hstore]
    by_cases he : id = r.id
    · rw [he]
      exact Serial.find_lt (hx.held pid r hw.held)
    · exact hx.known id (hcalls id he ▸ hne)
  · exact hstore ▸ hx.batches
  · exact fun q hq => undisturbed_other hlog hq fun r' hr' => hcalls r'.id (hw.others hx hq hr')
  · obtain ⟨cs,hacc,hcs⟩ := hw.first
    refine ⟨(hholds pid).trans hw.holds,hw.nodup,hw.due,⟨cs,hacc,?_⟩,fun r' hr' => ?_⟩
    · rw [hown,hcs]
      rfl
    · have hne : r'.id ≠ r.id := key_ne_of_nodup hw.nodup hr'
      rw [hcalls r'.id hne]
      exact hw.rest r' hr'

theorem resolve_kept {res : Resolution} {b : Unit} (hx : Ledgered L x)
    (hw : Working L pid r rows c x) (hs : Settles L.text r c res)
    (hdone : x.state.now.fault .rowUpdate = false)
    (h : (watched env).exec pid (.resolve r.id res) x = some (y,b)) :
    Ledgered L y ∧ (∀ q, q ≠ pid → Undisturbed q x y) ∧ Holding L pid rows y := by
  obtain ⟨hstore,-,hlog⟩ := exec_noted h
  have hstore : y.state.store = x.state.store.resolve r.id res := by
    rw [hstore]
    exact if_neg (by simp [hdone])
  have hlog : y.log = (pid,.resolved r.id) :: x.log := hlog
  have hpid : holds pid y.log = rows := by
    have hfilter : holds pid y.log = (holds pid x.log).filter (·.id != r.id) := by
      rw [hlog]
      exact outstanding_release rfl
    rw [hfilter,hw.holds]
    exact filter_rest hw.nodup
  have hother : ∀ q, q ≠ pid → holds q y.log = holds q x.log := by
    intro q hq
    rw [hlog]
    exact outstanding_other hq
  have hcalls : ∀ id, callsOf id y.log = callsOf id x.log := by
    intro id
    rw [hlog,callsOf_quiet rfl]
  have hrest : ∀ r' ∈ rows, r'.id ≠ r.id := fun r' hr' => key_ne_of_nodup hw.nodup hr'
  have hsub : ∀ q r', r' ∈ holds q y.log → r' ∈ holds q x.log ∧ r'.id ≠ r.id := by
    intro q r' hr'
    by_cases hq : q = pid
    · subst hq
      rw [hpid] at hr'
      exact ⟨hw.holds ▸ List.mem_cons_of_mem r hr',hrest r' hr'⟩
    · rw [hother q hq] at hr'
      exact ⟨hr',hw.others hx hq hr'⟩
  refine ⟨⟨?_,?_,?_,?_,?_⟩,?_,?_⟩
  · intro q r' hr'
    obtain ⟨hold,hne⟩ := hsub q r' hr'
    rw [hstore,find_resolve_ne hne]
    exact hx.held q r' hold
  · intro p q r₁ r₂ h₁ h₂
    exact hx.apart p q r₁ r₂ (hsub p r₁ h₁).1 (hsub q r₂ h₂).1
  · intro id r' hr' hfree
    rw [hcalls]
    by_cases he : id = r.id
    · subst he
      obtain ⟨cs,hacc,hcs⟩ := hw.first
      rw [hstore,find_resolve_effect (hx.held pid r hw.held),Option.some.injEq] at hr'
      rw [← hr',hcs]
      exact L.settle r cs c res hacc (hw.due r List.mem_cons_self) hs
    · rw [hstore,find_resolve_ne he] at hr'
      refine hx.free id r' hr' fun q r₁ h₁ hid => ?_
      by_cases hq : q = pid
      · subst hq
        rw [hw.holds] at h₁
        rcases List.mem_cons.mp h₁ with rfl | h₁
        · exact he hid.symm
        · exact hfree q r₁ (hpid ▸ h₁) hid
      · exact hfree q r₁ (hother q hq ▸ h₁) hid
  · intro id hne
    rw [hcalls] at hne
    rw [hstore,resolve_next]
    exact hx.known id hne
  · rw [hstore,resolve_batches]
    exact hx.batches
  · exact fun q hq => undisturbed_other hlog hq fun r' _ => hcalls r'.id
  · refine ⟨hpid,?_,fun r' hr' => hw.due r' (List.mem_cons_of_mem r hr'),fun r' hr' => ?_⟩
    · exact (List.nodup_cons.mp hw.nodup).2
    · rw [hcalls]
      exact hw.rest r' hr'

theorem idle_holds (h : idle x.log) (pid : Nat) : holds pid x.log = [] := h.outstanding pid

theorem requeue_kept {b : Nat} (hx : Ledgered L x) (hidle : idle x.log)
    (h : (watched env).exec pid .requeueStale x = some (y,b)) :
    Ledgered L y ∧ ∀ q, Undisturbed q x y := by
  obtain ⟨hstore,-,hlog⟩ := exec_noted h
  have hstore : y.state.store = x.state.store.requeue := hstore
  have hlog : y.log = x.log := hlog
  refine ⟨⟨?_,?_,?_,?_,?_⟩,undisturbed_same hlog⟩
  · intro q r hr
    rw [hlog,idle_holds hidle] at hr
    exact nomatch hr
  · rw [hlog]
    exact hx.apart
  · intro id r hr hfree
    have hfind : x.state.store.requeue.outbox.find id = (x.state.store.outbox.find id).map fun r =>
      if decide (r.status = .sending) then { r with status := .pending } else r := Serial.find_modify
    rw [hlog] at hfree ⊢
    rw [hstore,hfind,Option.map_eq_some_iff] at hr
    obtain ⟨r₀,hr₀,rfl⟩ := hr
    have hacc := hx.free id r₀ hr₀ hfree
    split
    · rename_i hst
      exact L.requeue r₀ _ hacc (decide_eq_true_eq.mp hst)
    · exact hacc
  · intro id hne
    rw [hlog] at hne
    rw [hstore]
    exact hx.known id hne
  · rw [hstore]
    exact hx.batches

end Steps

end Delivery
