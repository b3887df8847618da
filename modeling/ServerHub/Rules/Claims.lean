import ServerHub.Interleave.Transcript
import ServerHub.Rules.Recovery

namespace Rules

open Go Relational Interleave Interleave.Prog

structure Attempt where
  rule : RuleRow
  event : Event
  time : Int
  answer : Except String (Option Suppression)
deriving DecidableEq

def Stmt.noted : (β : Type) → Stmt β → State → β → Option Attempt
  | _, .claim r ev, s, answer => some ⟨r,ev,s.now.clock,answer⟩
  | _, .clock, _, _ => none
  | _, .rules _ _ _, _, _ => none
  | _, .hand _, _, _ => none

def evaluations (env : Env) (eng : Engine) : System where
  Instr := Stmt
  State := State
  Request := Event
  Answer := Report
  Env := Empty
  exec _ _ i s := some (i.exec s)
  handle := evaluate env eng
  env e _ := e.elim

def claimed (env : Env) (eng : Engine) : System := (evaluations env eng).observe Stmt.noted

abbrev History := Traced State Attempt

def History.attempts (x : History) : List Attempt := x.log.map Prod.snd

def Attempt.Of (id : Nat) (fp : String) (a : Attempt) : Prop :=
  a.rule.id = id ∧ a.event.fingerprint = fp
deriving Decidable

def trail (id : Nat) (fp : String) (attempts : List Attempt) : List Attempt :=
  attempts.filter fun a => decide (a.Of id fp)

namespace Attempt

def settle (a : Attempt) (s : Store) : Store :=
  match a.answer with
  | .ok _ => (s.claim a.rule a.event a.time).1
  | .error _ => s

def replay (s : Store) (attempts : List Attempt) : Store := attempts.foldr settle s

def Settled (s : Store) : List Attempt → Prop
  | [] => True
  | a :: older => (∀ answer, a.answer = .ok answer →
      answer = ((replay s older).claim a.rule a.event a.time).2) ∧ Settled s older

def notified (a : Attempt) : Bool :=
  match a.answer with
  | .ok none => true
  | _ => false

def firing (a : Attempt) : Bool := !a.event.isRecovery && a.notified

def recovered (a : Attempt) : Bool := a.event.isRecovery && a.answer.toBool

end Attempt

namespace Store

variable {s t : Store} {r : RuleRow} {ev : Event} {now : Int} {id : Nat} {fp : String}

def firingSince (s : Store) (id : Nat) (fp : String) : Option Int :=
  (s.states id fp).bind fun row => if row.lastState = .firing then some row.lastNotifiedAt else none

theorem claim_elsewhere (h : id ≠ r.id ∨ fp ≠ ev.fingerprint) :
    (s.claim r ev now).1.states id fp = s.states id fp := by
  obtain ⟨row,hrow⟩ := s.claim_put r ev now
  rw [hrow,put_states,if_neg]
  rintro ⟨hid,hfp⟩
  exact h.elim (fun hn => hn hid) fun hn => hn hfp

theorem claim_congr (h : s.states r.id ev.fingerprint = t.states r.id ev.fingerprint) :
    (s.claim r ev now).2 = (t.claim r ev now).2 ∧
      (s.claim r ev now).1.states r.id ev.fingerprint =
        (t.claim r ev now).1.states r.id ev.fingerprint := by
  have hupsert : ∀ state, (s.upsertState r.id ev now state).states r.id ev.fingerprint =
      (t.upsertState r.id ev now state).states r.id ev.fingerprint := by
    intro state
    simp only [upsertState,put_states,h]
  have htouch : (s.touchEvent r.id ev now).states r.id ev.fingerprint =
      (t.touchEvent r.id ev now).states r.id ev.fingerprint := by
    simp only [touchEvent,h]
    split
    · rw [put_states,put_states,if_pos ⟨rfl,rfl⟩,if_pos ⟨rfl,rfl⟩]
    · exact h
  have hlast : s.lastState r.id ev.fingerprint = t.lastState r.id ev.fingerprint := by
    rw [lastState,lastState,h]
  have hcool : s.cooling r ev now = t.cooling r ev now := by rw [cooling,cooling,h]
  rw [claim,claim,hlast,hcool]
  generalize (!r.notifyOnRecovery || t.lastState r.id ev.fingerprint != .firing) = silent
  generalize t.cooling r ev now = cool
  cases ev.isRecovery <;> cases silent <;> cases cool
  all_goals first | exact ⟨rfl,hupsert _⟩ | exact ⟨rfl,htouch⟩

theorem firingSince_upsert (state : LastState) :
    (s.upsertState r.id ev now state).firingSince r.id ev.fingerprint =
      if state = .firing then some now else none := by
  simp [firingSince,upsertState,put_states]

theorem firingSince_touch :
    (s.touchEvent r.id ev now).firingSince r.id ev.fingerprint =
      s.firingSince r.id ev.fingerprint := by
  unfold touchEvent
  split
  · rename_i row hrow
    simp [firingSince,put_states,hrow]
  · rfl

theorem firingSince_of_lastState (h : s.lastState id fp = .firing) :
    ∃ t, s.firingSince id fp = some t := by
  cases hrow : s.states id fp with
  | none => simp [lastState,hrow] at h
  | some row =>
    simp only [lastState,hrow,Option.map_some,Option.getD_some] at h
    exact ⟨row.lastNotifiedAt,by simp [firingSince,hrow,h]⟩

theorem lastState_of_firingSince {since : Int} (h : s.firingSince id fp = some since) :
    s.lastState id fp = .firing := by
  simp only [firingSince,Option.bind_eq_some_iff] at h
  obtain ⟨row,hrow,hfiring⟩ := h
  split at hfiring
  · rename_i hlast
    simp [lastState,hrow,hlast]
  · cases hfiring

theorem cooling_since {since : Int} (hs : s.firingSince r.id ev.fingerprint = some since)
    (hr : 0 < r.cooldownSeconds) :
    s.cooling r ev now = decide (sub now since < seconds r.cooldownSeconds) := by
  simp only [firingSince,Option.bind_eq_some_iff] at hs
  obtain ⟨row,hrow,hfiring⟩ := hs
  split at hfiring
  · rename_i hlast
    rw [Option.some.injEq] at hfiring
    simp [cooling,hrow,hlast,hr,hfiring]
  · cases hfiring

inductive Claimed (s : Store) (r : RuleRow) (ev : Event) (now : Int) :
    Store × Option Suppression → Prop
  | silent (s' : Store) (hev : ev.isRecovery = true)
      (hs : s'.firingSince r.id ev.fingerprint = none) : Claimed s r ev now (s',some .withoutFiring)
  | recovered (s' : Store) (hev : ev.isRecovery = true) (since : Int)
      (hfired : s.firingSince r.id ev.fingerprint = some since)
      (hs : s'.firingSince r.id ev.fingerprint = none) : Claimed s r ev now (s',none)
  | cooling (s' : Store) (hev : ev.isRecovery = false)
      (hs : s'.firingSince r.id ev.fingerprint = s.firingSince r.id ev.fingerprint) :
      Claimed s r ev now (s',some .cooldown)
  | fired (s' : Store) (hev : ev.isRecovery = false)
      (hs : s'.firingSince r.id ev.fingerprint = some now)
      (hcool : ∀ since, s.firingSince r.id ev.fingerprint = some since →
        0 < r.cooldownSeconds → ¬ sub now since < seconds r.cooldownSeconds) :
      Claimed s r ev now (s',none)

theorem claim_cases (s : Store) (r : RuleRow) (ev : Event) (now : Int) :
    Claimed s r ev now (s.claim r ev now) := by
  unfold claim
  split
  · rename_i hev
    split
    · exact .silent _ hev (firingSince_upsert .resolved)
    · rename_i hfired
      simp only [Bool.or_eq_true,bne_iff_ne,not_or,ne_eq,not_not] at hfired
      obtain ⟨since,hsince⟩ := firingSince_of_lastState hfired.2
      exact .recovered _ hev since hsince (firingSince_upsert .resolved)
  · rename_i hev
    rw [Bool.not_eq_true] at hev
    split
    · exact .cooling _ hev firingSince_touch
    · rename_i hcool
      refine .fired _ hev (firingSince_upsert .firing) fun since hsince hr hlt => hcool ?_
      rw [cooling_since hsince hr]
      exact decide_eq_true hlt

end Store

namespace Attempt

variable {s t : Store} {a f : Attempt} {id : Nat} {fp : String} {older mid attempts : List Attempt}

theorem settle_congr (ha : a.Of id fp) (h : s.states id fp = t.states id fp) :
    (a.settle s).states id fp = (a.settle t).states id fp := by
  obtain ⟨rfl,rfl⟩ := ha
  unfold settle
  split
  · exact (Store.claim_congr h).2
  · exact h

theorem settle_elsewhere (ha : ¬ a.Of id fp) : (a.settle s).states id fp = s.states id fp := by
  unfold settle
  split
  · refine Store.claim_elsewhere ?_
    by_contra hboth
    rw [not_or,not_not,not_not] at hboth
    exact ha ⟨hboth.1.symm,hboth.2.symm⟩
  · rfl

theorem settle_firing (ha : a.Of id fp) (hf : a.firing = true)
    (hs : ∀ answer, a.answer = .ok answer → answer = (s.claim a.rule a.event a.time).2) :
    (a.settle s).firingSince id fp = some a.time ∧
      ∀ since, s.firingSince id fp = some since → 0 < a.rule.cooldownSeconds →
        ¬ sub a.time since < seconds a.rule.cooldownSeconds := by
  obtain ⟨rfl,rfl⟩ := ha
  simp only [firing,Bool.and_eq_true,Bool.not_eq_true'] at hf
  obtain ⟨hev,hnotified⟩ := hf
  have hanswer : a.answer = .ok none := by
    unfold notified at hnotified
    split at hnotified
    · assumption
    · exact absurd hnotified Bool.false_ne_true
  have hclaim := s.claim_cases a.rule a.event a.time
  have hnone := hs none hanswer
  simp only [settle,hanswer]
  generalize s.claim a.rule a.event a.time = result at hclaim hnone ⊢
  cases hclaim with
  | silent s' _ _ => exact nomatch hnone
  | recovered s' hrec _ _ _ => exact absurd (hrec.symm.trans hev) (by simp)
  | cooling s' _ _ => exact nomatch hnone
  | fired s' _ hfired hcool => exact ⟨hfired,hcool⟩

theorem settle_recovered (ha : a.Of id fp) (hr : a.recovered = true)
    (hs : ∀ answer, a.answer = .ok answer → answer = (s.claim a.rule a.event a.time).2) :
    (a.settle s).firingSince id fp = none ∧
      (a.notified = true → ∃ since, s.firingSince id fp = some since) := by
  obtain ⟨rfl,rfl⟩ := ha
  simp only [recovered,Bool.and_eq_true] at hr
  obtain ⟨hev,hok⟩ := hr
  cases hanswer : a.answer with
  | error e =>
    rw [hanswer] at hok
    exact absurd hok Bool.false_ne_true
  | ok answer =>
    have hclaim := s.claim_cases a.rule a.event a.time
    have hsame := hs answer hanswer
    simp only [settle,hanswer,notified]
    generalize s.claim a.rule a.event a.time = result at hclaim hsame ⊢
    cases hclaim with
    | silent s' _ hnone =>
      subst hsame
      exact ⟨hnone,fun h => absurd h Bool.false_ne_true⟩
    | recovered s' _ since hfired hnone => exact ⟨hnone,fun _ => ⟨since,hfired⟩⟩
    | cooling s' hfire _ => exact absurd (hev.symm.trans hfire) (by simp)
    | fired s' hfire _ _ => exact absurd (hev.symm.trans hfire) (by simp)

theorem settle_otherwise (ha : a.Of id fp) (hf : a.firing = false) (hr : a.recovered = false)
    (hs : ∀ answer, a.answer = .ok answer → answer = (s.claim a.rule a.event a.time).2) :
    (a.settle s).firingSince id fp = s.firingSince id fp := by
  obtain ⟨rfl,rfl⟩ := ha
  cases hanswer : a.answer with
  | error e => simp only [settle,hanswer]
  | ok answer =>
    have hclaim := s.claim_cases a.rule a.event a.time
    have hsame := hs answer hanswer
    have hev : a.event.isRecovery = false := by simpa [recovered,hanswer,Except.toBool] using hr
    simp only [settle,hanswer]
    simp only [firing,hev,notified,hanswer] at hf
    generalize s.claim a.rule a.event a.time = result at hclaim hsame ⊢
    cases hclaim with
    | silent s' hrec _ => exact absurd (hrec.symm.trans hev) (by simp)
    | recovered s' hrec _ _ _ => exact absurd (hrec.symm.trans hev) (by simp)
    | cooling s' _ hkept => exact hkept
    | fired s' _ _ _ =>
      subst hsame
      exact absurd hf (by simp)

theorem since_kept (hown : ∀ a ∈ mid ++ f :: older, a.Of id fp)
    (hsettled : Settled s (mid ++ f :: older))
    (hordered : (mid ++ f :: older).Pairwise fun later earlier => earlier.time ≤ later.time)
    (hf : f.firing = true) (hmid : ∀ a ∈ mid, a.recovered = false) :
    ∃ a ∈ mid ++ f :: older,
      (replay s (mid ++ f :: older)).firingSince id fp = some a.time ∧ f.time ≤ a.time := by
  induction mid with
  | nil =>
    exact ⟨f,List.mem_cons_self,(settle_firing (hown f List.mem_cons_self) hf hsettled.1).1,le_rfl⟩
  | cons a mid ih =>
    obtain ⟨hlast,hrest⟩ := List.pairwise_cons.mp hordered
    have ha := hown a List.mem_cons_self
    by_cases hfiring : a.firing = true
    · exact ⟨a,List.mem_cons_self,(settle_firing ha hfiring hsettled.1).1,hlast f (by simp)⟩
    · rw [Bool.not_eq_true] at hfiring
      obtain ⟨b,hb,hsince,hle⟩ := ih (fun b hb => hown b (List.mem_cons_of_mem a hb)) hsettled.2
        hrest fun b hb => hmid b (List.mem_cons_of_mem a hb)
      refine ⟨b,List.mem_cons_of_mem a hb,?_,hle⟩
      rw [← hsince]
      exact settle_otherwise ha hfiring (hmid a List.mem_cons_self) hsettled.1

theorem since_source {since : Int} (hown : ∀ a ∈ attempts, a.Of id fp)
    (hsettled : Settled s attempts)
    (hsince : (replay s attempts).firingSince id fp = some since) :
    (∃ mid f older, attempts = mid ++ f :: older ∧ f.firing = true ∧
        ∀ a ∈ mid, a.recovered = false) ∨
      s.firingSince id fp = some since ∧ ∀ a ∈ attempts, a.recovered = false := by
  induction attempts with
  | nil => exact .inr ⟨hsince,by simp⟩
  | cons a attempts ih =>
    have ha := hown a List.mem_cons_self
    by_cases hfiring : a.firing = true
    · exact .inl ⟨[],a,attempts,rfl,hfiring,by simp⟩
    · rw [Bool.not_eq_true] at hfiring
      have hrecovered : a.recovered = false := by
        by_contra hr
        rw [Bool.not_eq_false] at hr
        have hnone := (settle_recovered ha hr hsettled.1).1
        exact nomatch hsince.symm.trans hnone
      have hkept := settle_otherwise ha hfiring hrecovered hsettled.1
      rcases ih (fun b hb => hown b (List.mem_cons_of_mem a hb)) hsettled.2
        (hkept.symm.trans hsince) with ⟨mid,f,older,rfl,hf,hmid⟩ | ⟨hold,hnever⟩
      · exact .inl ⟨a :: mid,f,older,rfl,hf,List.forall_mem_cons.mpr ⟨hrecovered,hmid⟩⟩
      · exact .inr ⟨hold,List.forall_mem_cons.mpr ⟨hrecovered,hnever⟩⟩

def fault (a : Attempt) : Option String :=
  match a.answer with
  | .error e => some e
  | .ok _ => none

def Same (a b : Attempt) : Prop :=
  a.rule = b.rule ∧ a.event = b.event ∧ a.time = b.time ∧ a.fault = b.fault

theorem settled_congr {others : List Attempt} (hown : ∀ a ∈ attempts, a.Of id fp)
    (h : s.states id fp = t.states id fp) (hs : Settled s attempts) (ht : Settled t others)
    (hsame : List.Forall₂ Same attempts others) :
    attempts = others ∧ (replay s attempts).states id fp = (replay t others).states id fp := by
  induction hsame with
  | nil => exact ⟨rfl,h⟩
  | @cons a b older others hab hrest ih =>
    obtain ⟨rfl,hrows⟩ := ih (fun c hc => hown c (List.mem_cons_of_mem a hc)) hs.2 ht.2
    have ha := hown a List.mem_cons_self
    obtain ⟨rule,event,time,answer⟩ := a
    obtain ⟨rule',event',time',answer'⟩ := b
    obtain ⟨rfl,rfl,rfl,hfault⟩ := hab
    have hanswer : answer = answer' := by
      cases answer with
      | error e =>
        cases answer' with
        | error e' => exact congrArg Except.error (Option.some.inj hfault)
        | ok x => exact nomatch hfault
      | ok x =>
        cases answer' with
        | error e' => exact nomatch hfault
        | ok y =>
          obtain ⟨rfl,rfl⟩ := ha
          rw [hs.1 x rfl,ht.1 y rfl,(Store.claim_congr hrows).1]
    subst hanswer
    exact ⟨rfl,settle_congr ha hrows⟩

theorem settled_append (h : Settled s (mid ++ older)) : Settled s older := by
  induction mid with
  | nil => exact h
  | cons a mid ih => exact ih h.2

theorem firings_apart {g : Attempt} (hown : ∀ a ∈ g :: mid ++ f :: older, a.Of id fp)
    (hsettled : Settled s (g :: mid ++ f :: older))
    (hordered : (g :: mid ++ f :: older).Pairwise fun later earlier => earlier.time ≤ later.time)
    (hf : f.firing = true) (hg : g.firing = true) (hmid : ∀ a ∈ mid, a.recovered = false)
    (hcap : g.rule.cooldownSeconds ≤ maxCooldownSeconds) :
    g.rule.cooldownSeconds * second ≤ g.time - f.time := by
  obtain ⟨hlast,hrest⟩ := List.pairwise_cons.mp hordered
  have hfg : f.time ≤ g.time := hlast f (by simp)
  by_cases hr : 0 < g.rule.cooldownSeconds
  · obtain ⟨a,ha,hsince,hle⟩ := since_kept (fun a ha => hown a (List.mem_cons_of_mem g ha))
      hsettled.2 hrest hf hmid
    have hcool := (settle_firing (hown g List.mem_cons_self) hg hsettled.1).2 a.time hsince hr
    have hapart := le_of_not_sub_lt (seconds_le _) (hlast a ha) hcool
    have hseconds : seconds g.rule.cooldownSeconds = g.rule.cooldownSeconds * second := by
      simp only [maxCooldownSeconds] at hcap
      simp only [seconds,int64,second]
      rw [Int.bmod_eq_of_le] <;> omega
    omega
  · simp only [second]
    omega

end Attempt

section Trail

variable {a : Attempt} {id : Nat} {fp : String} {attempts : List Attempt}

theorem trail_of (h : a.Of id fp) : trail id fp (a :: attempts) = a :: trail id fp attempts :=
  List.filter_cons_of_pos (decide_eq_true h)

theorem trail_other (h : ¬ a.Of id fp) : trail id fp (a :: attempts) = trail id fp attempts :=
  List.filter_cons_of_neg fun hd => h (of_decide_eq_true hd)

theorem of_trail (h : a ∈ trail id fp attempts) : a.Of id fp :=
  of_decide_eq_true (List.mem_filter.mp h).2

end Trail

structure Attested (s : State) (x : History) : Prop where
  rules : x.state.store.rules = s.store.rules
  outside : x.state.outside = s.outside
  rows : ∀ id fp, x.state.store.states id fp =
    (Attempt.replay s.store (trail id fp x.attempts)).states id fp
  settled : ∀ id fp, Attempt.Settled s.store (trail id fp x.attempts)
  past : ∀ a ∈ x.attempts, a.time ≤ x.state.now.clock
  ordered : x.attempts.Pairwise fun later earlier => earlier.time ≤ later.time

section Attesting

variable {s : State} {x y : History} (hclock : ∀ n, (s.outside n).clock ≤ (s.outside (n+1)).clock)

include hclock

theorem Attested.later (hx : Attested s x) (ho : y.state.outside = x.state.outside)
    (ht : y.state.tick = x.state.tick + 1) : x.state.now.clock ≤ y.state.now.clock := by
  simp only [State.now,ho,ht,hx.outside]
  exact hclock x.state.tick

theorem Attested.quiet (hx : Attested s x) (hs : y.state.store = x.state.store)
    (ho : y.state.outside = x.state.outside) (ht : y.state.tick = x.state.tick + 1)
    (hlog : y.log = x.log) : Attested s y where
  rules := hs ▸ hx.rules
  outside := ho.trans hx.outside
  rows := by
    rw [hs,History.attempts,hlog]
    exact hx.rows
  settled := by
    rw [History.attempts,hlog]
    exact hx.settled
  past := by
    rw [History.attempts,hlog]
    exact fun a ha => (hx.past a ha).trans (hx.later hclock ho ht)
  ordered := by
    rw [History.attempts,hlog]
    exact hx.ordered

theorem Attested.claim {a : Attempt} (hx : Attested s x)
    (hs : y.state.store = a.settle x.state.store)
    (hanswer : ∀ answer, a.answer = .ok answer →
      answer = (x.state.store.claim a.rule a.event a.time).2)
    (htime : a.time = x.state.now.clock) (ho : y.state.outside = x.state.outside)
    (ht : y.state.tick = x.state.tick + 1) (hattempts : y.attempts = a :: x.attempts) :
    Attested s y := by
  have hlater := hx.later hclock ho ht
  refine ⟨?_,ho.trans hx.outside,?_,?_,?_,?_⟩
  · obtain ⟨row,hrow⟩ := x.state.store.claim_put a.rule a.event a.time
    rw [hs,Attempt.settle]
    split
    · rw [hrow,Store.put_rules,hx.rules]
    · exact hx.rules
  · intro id fp
    rw [hattempts,hs]
    by_cases ha : a.Of id fp
    · rw [trail_of ha]
      exact Attempt.settle_congr ha (hx.rows id fp)
    · rw [trail_other ha,← hx.rows id fp]
      exact Attempt.settle_elsewhere ha
  · intro id fp
    rw [hattempts]
    by_cases ha : a.Of id fp
    · rw [trail_of ha]
      refine ⟨fun answer h => ?_,hx.settled id fp⟩
      obtain ⟨rfl,rfl⟩ := ha
      rw [hanswer answer h]
      exact (Store.claim_congr (hx.rows _ _)).1
    · rw [trail_other ha]
      exact hx.settled id fp
  · rw [hattempts]
    refine List.forall_mem_cons.mpr ⟨htime ▸ hlater,fun b hb => (hx.past b hb).trans hlater⟩
  · rw [hattempts]
    exact List.pairwise_cons.mpr ⟨fun b hb => htime ▸ hx.past b hb,hx.ordered⟩

theorem Attested.exec {env : Env} {eng : Engine} {pid : Nat} {β : Type} {i : Stmt β} {b : β}
    (hx : Attested s x) (h : (claimed env eng).exec pid i x = some (y,b)) : Attested s y := by
  obtain ⟨hexec,hlog⟩ := exec_observe h
  have he : i.exec x.state = (y.state,b) := Option.some.inj hexec
  have hstate : y.state = (i.exec x.state).1 := (congrArg Prod.fst he).symm
  have hb : b = (i.exec x.state).2 := (congrArg Prod.snd he).symm
  have ho : y.state.outside = x.state.outside := by rw [hstate]; rfl
  have ht : y.state.tick = x.state.tick + 1 := by rw [hstate]; rfl
  cases i with
  | clock => exact hx.quiet hclock (by rw [hstate]; rfl) ho ht hlog
  | hand h => exact hx.quiet hclock (by rw [hstate]; rfl) ho ht hlog
  | rules first second recoveryOnly =>
    refine hx.quiet hclock ?_ ho ht hlog
    rw [hstate]
    simp only [Stmt.exec,Stmt.effect]
    split <;> rfl
  | claim r ev =>
    refine hx.claim (a := ⟨r,ev,x.state.now.clock,b⟩) hclock ?_ ?_ rfl ho ht ?_
    · rw [Attempt.settle,hstate,hb]
      simp only [Stmt.exec,Stmt.effect]
      cases x.state.now.fault <;> rfl
    · intro answer hanswer
      rw [hb] at hanswer
      simp only [Stmt.exec,Stmt.effect] at hanswer
      cases hf : x.state.now.fault with
      | some e => simp [hf] at hanswer
      | none =>
        simp only [hf,Except.ok.injEq] at hanswer
        exact hanswer.symm
    · rw [History.attempts,hlog]
      rfl

end Attesting

def Dispatched (eng : Engine) (r : RuleRow) (ev : Event) :
    Except String (Option Suppression) → Except String Verdict → Prop
  | .error e, v => v = .error e
  | .ok (some reason), v => v = .ok (.suppressed reason)
  | .ok none, v => ∃ handed, v = .ok (.notified handed) ∧ handed.map Prod.fst = handoffs eng r ev

def Conducted (env : Env) (eng : Engine) (r : RuleRow) (ev : Event) (left : List Attempt)
    (v : Except String Verdict) : Prop :=
  match matchRule env r ev with
  | .error e => left = [] ∧ v = .error e
  | .ok false => left = [] ∧ v = .ok .unmatched
  | .ok true =>
      if r.channels = [] then
        left = [] ∧ v = .error ("rule " ++ env.quote r.name ++ " has no valid channels")
      else ∃ t answer, left = [⟨r,ev,t,answer⟩] ∧ Dispatched eng r ev answer v

def Reported (env : Env) (eng : Engine) (s : Store) (ev : Event) (left : List Attempt) :
    Report → Prop
  | .error _ => eng.on = true ∧ left = []
  | .ok results =>
      if eng.on then ∃ ts, (ev.timestamp ≠ 0 → ts = ev.timestamp) ∧
        results.map Prod.fst = (s.rulesFor ev.type).map StoredRule.id ∧
        (∀ a ∈ left, ∃ r ∈ s.rulesFor ev.type, a.rule.id = r.id) ∧
        ∀ r ∈ s.rulesFor ev.type, ∃ v, (r.id,v) ∈ results ∧
          Conducted env eng r.row (ev.readied ts)
            (left.filter fun a => decide (a.rule.id = r.id)) v
      else results = [] ∧ left = []

def Stmt.Answers (s : Store) : (β : Type) → Stmt β → β → Option Attempt → Prop
  | _, .claim r ev, answer, n => ∃ t, n = some ⟨r,ev,t,answer⟩
  | _, .rules first second recoveryOnly, rows, n =>
      n = none ∧ ∀ rs, rows = .ok rs → rs = s.offered first second recoveryOnly
  | _, .clock, _, n => n = none
  | _, .hand _, _, n => n = none

section Yields

variable {env : Env} {eng : Engine} {s : Store} {r : RuleRow} {ev : Event} {left : List Attempt}

def Stored (s : Store) (a : Attempt) : Prop := ∃ r ∈ s.rules.rows, a.rule = r.row

theorem conducted_of {v : Except String Verdict} (h : Conducted env eng r ev left v) :
    ∀ a ∈ left, a.rule = r ∧ a.event = ev := by
  unfold Conducted at h
  split at h
  · simp [h.1]
  · simp [h.1]
  · split at h
    · simp [h.1]
    · obtain ⟨t,answer,rfl,-⟩ := h
      simp

theorem yields_hands (hs : List Handoff) (ns : List Attempt) :
    (collect handOver hs).Yields (Stmt.Answers s) (Stored s)
      (fun ns' handed => ns' = ns ∧ handed.map Prod.fst = hs) ns := by
  induction hs with
  | nil => exact ⟨rfl,rfl⟩
  | cons h hs ih =>
    rw [collect_cons,handOver]
    refine yields_perform fun e n hn => ?_
    obtain rfl : n = none := hn
    refine ⟨by simp,yields_bind ih ?_⟩
    rintro handed _ ⟨rfl,rfl⟩
    exact ⟨rfl,rfl⟩

theorem yields_notify (hr : ∃ stored ∈ s.rules.rows, r = stored.row) (ns : List Attempt) :
    (notify eng r ev).Yields (Stmt.Answers s) (Stored s) (fun ns' v => ∃ t answer,
      ns' = ⟨r,ev,t,answer⟩ :: ns ∧ Dispatched eng r ev answer v) ns := by
  refine yields_perform fun answer n hn => ?_
  obtain ⟨t,rfl⟩ := hn
  refine ⟨?_,?_⟩
  · intro m hm
    obtain rfl := Option.some.inj hm
    exact hr
  · split
    · exact ⟨t,_,rfl,rfl⟩
    · exact ⟨t,_,rfl,rfl⟩
    · refine yields_bind (yields_hands (handoffs eng r ev) _) ?_
      rintro handed _ ⟨rfl,hsent⟩
      exact ⟨t,_,rfl,handed,rfl,hsent⟩

theorem yields_evaluateRule (hr : ∃ stored ∈ s.rules.rows, r = stored.row) (ns : List Attempt) :
    (evaluateRule env eng r ev).Yields (Stmt.Answers s) (Stored s) (fun ns' v => ∃ left,
      ns' = left ++ ns ∧ Conducted env eng r ev left v) ns := by
  cases hmatch : matchRule env r ev with
  | error e =>
    simp only [evaluateRule,Conducted,hmatch]
    exact ⟨[],rfl,rfl,rfl⟩
  | ok matched =>
    cases matched with
    | false =>
      simp only [evaluateRule,Conducted,hmatch]
      exact ⟨[],rfl,rfl,rfl⟩
    | true =>
      simp only [evaluateRule,Conducted,hmatch]
      by_cases hc : r.channels = []
      · simp only [if_pos hc]
        exact ⟨[],rfl,rfl,rfl⟩
      · simp only [if_neg hc]
        refine yields_mono ?_ (yields_notify hr ns)
        rintro v _ ⟨t,answer,rfl,hv⟩
        exact ⟨[⟨r,ev,t,answer⟩],rfl,t,answer,rfl,hv⟩

theorem yields_ruleResult (hr : ∃ stored ∈ s.rules.rows, r = stored.row) (ns : List Attempt) :
    (ruleResult env eng ev r).Yields (Stmt.Answers s) (Stored s) (fun ns' b => ∃ left,
      ns' = left ++ ns ∧ b.1 = r.id ∧ Conducted env eng r ev left b.2) ns := by
  refine yields_bind (yields_evaluateRule hr ns) ?_
  rintro v _ ⟨left,rfl,hv⟩
  exact ⟨left,rfl,rfl,hv⟩

theorem rulesFor_stored {t : EventType} :
    ∀ r ∈ (s.rulesFor t).map StoredRule.row, ∃ stored ∈ s.rules.rows, r = stored.row := by
  intro r hr
  obtain ⟨stored,hstored,rfl⟩ := List.mem_map.mp hr
  exact ⟨stored,(Store.mem_rulesFor.mp hstored).1,rfl⟩

theorem reported_results (hon : eng.on = true) {ts : Int} (hts : ev.timestamp ≠ 0 → ts = ev.timestamp)
    {xs : List (List Attempt × (Nat × Except String Verdict))}
    (h : List.Forall₂ (fun r x => x.2.1 = r.id ∧ Conducted env eng r (ev.readied ts) x.1 x.2.2)
      ((s.rulesFor ev.type).map StoredRule.row) xs) :
    Reported env eng s ev (xs.map Prod.fst).reverse.flatten (.ok (xs.map Prod.snd)) := by
  have hR : ∀ (r : RuleRow) (left : List Attempt) (b : Nat × Except String Verdict),
      b.1 = r.id ∧ Conducted env eng r (ev.readied ts) left b.2 →
        ∀ a ∈ left, a.rule.id = r.id := by
    intro r left b hb a ha
    rw [(conducted_of hb.2 a ha).1]
  have hnodup : (((s.rulesFor ev.type).map StoredRule.row).map RuleRow.id).Nodup := by
    rw [List.map_map]
    exact s.rulesFor_nodup ev.type
  simp only [Reported,hon,if_true]
  refine ⟨ts,hts,?_,?_,?_⟩
  · have hids : List.Forall₂ (· = ·) (((s.rulesFor ev.type).map StoredRule.row).map RuleRow.id)
        ((xs.map Prod.snd).map Prod.fst) := by
      rw [List.forall₂_map_left_iff,List.forall₂_map_right_iff,List.forall₂_map_right_iff]
      exact h.imp fun _ _ hx => hx.1.symm
    rw [List.forall₂_eq_eq_eq] at hids
    rw [← hids,List.map_map]
    rfl
  · intro a ha
    obtain ⟨r,hr,hid⟩ := notes_keyed hR h a ha
    obtain ⟨stored,hstored,rfl⟩ := List.mem_map.mp hr
    exact ⟨stored,hstored,hid⟩
  · intro r hr
    obtain ⟨x,hx,⟨hid,hconducted⟩,hown⟩ := notes_separate hR h hnodup r.row (List.mem_map_of_mem hr)
    refine ⟨x.2.2,List.mem_map.mpr ⟨x,hx,Prod.ext hid rfl⟩,?_⟩
    exact hown ▸ hconducted

theorem yields_stamp (ev : Event) :
    (stamp { ev with fingerprint := ev.identity }).Yields (Stmt.Answers s) (Stored s)
      (fun ns ev' => ∃ ts, ns = [] ∧ ev' = ev.readied ts ∧
        (ev.timestamp ≠ 0 → ts = ev.timestamp)) [] := by
  unfold stamp
  split
  · rename_i hzero
    refine yields_perform fun ts n hn => ?_
    obtain rfl : n = none := hn
    exact ⟨by simp,ts,rfl,rfl,fun h => absurd hzero h⟩
  · exact ⟨ev.timestamp,rfl,rfl,fun _ => rfl⟩

theorem yields_loadRules (t : EventType) (ns : List Attempt) :
    (loadRules t).Yields (Stmt.Answers s) (Stored s) (fun ns' answer => ns' = ns ∧
      ∀ rows, answer = .ok rows → rows = (s.rulesFor t).map StoredRule.row) ns := by
  refine yields_perform fun answer n hn => ?_
  obtain ⟨rfl,hrows⟩ := hn
  refine ⟨by simp,rfl,?_⟩
  intro rows h
  cases answer with
  | error e => exact nomatch h
  | ok stored =>
    obtain rfl := Except.ok.inj h
    rw [hrows stored rfl]
    rfl

theorem yields_evaluate (ev : Event) :
    (evaluate env eng ev).Yields (Stmt.Answers s) (Stored s) (Reported env eng s ev) [] := by
  unfold evaluate
  split
  · rename_i hon
    refine yields_bind (yields_stamp ev) ?_
    rintro _ _ ⟨ts,rfl,rfl,hts⟩
    refine yields_bind (yields_loadRules ev.type []) ?_
    rintro answer _ ⟨rfl,hrows⟩
    cases answer with
    | error e => exact ⟨hon,rfl⟩
    | ok rows =>
      obtain rfl := hrows rows rfl
      refine yields_bind (yields_collect (fun r hr ns => yields_ruleResult (rulesFor_stored r hr) ns) []) ?_
      rintro _ _ ⟨xs,rfl,rfl,hxs⟩
      rw [List.append_nil]
      exact reported_results hon hts hxs
  · rename_i hoff
    exact (if_neg hoff).mpr ⟨rfl,rfl⟩

end Yields

section Histories

variable {env : Env} {eng : Engine} {s : State} {es : List (Interleave.Event (claimed env eng))}
  {v : World (claimed env eng)}

def begin (env : Env) (eng : Engine) (s : State) : World (claimed env eng) :=
  World.idle (⟨s,[]⟩ : History)

def claimsOn (id : Nat) (fp : String) (w : World (claimed env eng)) : List Attempt :=
  trail id fp (History.attempts w.state)

theorem answers_exec {pid : Nat} {x y : History} {β : Type} {i : Stmt β} {b : β}
    (hx : x.state.store.rules = s.store.rules) (h : (claimed env eng).exec pid i x = some (y,b)) :
    Stmt.Answers s.store β i b (Stmt.noted β i x.state b) := by
  have hexec := (exec_observe h).1
  have hb : b = (i.exec x.state).2 := (congrArg Prod.snd (Option.some.inj hexec)).symm
  cases i with
  | clock => rfl
  | hand h => rfl
  | claim r ev => exact ⟨_,rfl⟩
  | rules first second recoveryOnly =>
    refine ⟨rfl,fun rs hrs => ?_⟩
    rw [hb] at hrs
    simp only [Stmt.exec,Stmt.effect] at hrs
    split at hrs
    · cases hrs
    · rw [← Except.ok.inj hrs,Store.offered,hx]
      rfl

theorem history (hclock : ∀ n, (s.outside n).clock ≤ (s.outside (n+1)).clock)
    (hv : (begin env eng s).run es = some v) :
    Transcribed (S := evaluations env eng) (Stmt.Answers s.store)
      (Stored s.store) (Reported env eng s.store) (Attested s) es v := by
  have hinit : Attested s ⟨s,[]⟩ :=
    ⟨rfl,rfl,fun _ _ => rfl,fun _ _ => trivial,by simp [History.attempts],.nil⟩
  refine transcribed (S := evaluations env eng) hinit ?_ ?_ ?_ hv
  · intro pid x β i y b hx h
    exact ⟨hx.exec hclock h,answers_exec hx.rules h⟩
  · intro e
    exact e.elim
  · intro pid ev _
    exact yields_evaluate ev

end Histories

theorem rule_claims (env : Env) (eng : Engine) (s : State)
    (hclock : ∀ n, (s.outside n).clock ≤ (s.outside (n+1)).clock)
    (hcap : ∀ r ∈ s.store.rules.rows, r.cooldownSeconds ≤ maxCooldownSeconds)
    (es : List (Interleave.Event (claimed env eng))) (v : World (claimed env eng))
    (hv : (begin env eng s).run es = some v) :
    (∀ r ∈ s.store.rules.rows, ∀ fp,
      (∀ newer g mid f older, claimsOn r.id fp v = newer ++ g :: mid ++ f :: older →
        f.firing = true → g.firing = true → (∀ a ∈ mid, a.recovered = false) →
        r.cooldownSeconds * second ≤ g.time - f.time) ∧
      (∀ newer a older, claimsOn r.id fp v = newer ++ a :: older →
        a.recovered = true → a.notified = true →
        (∃ mid f rest, older = mid ++ f :: rest ∧ f.firing = true ∧ ∀ b ∈ mid, b.recovered = false) ∨
          s.store.lastState r.id fp = .firing ∧ ∀ b ∈ older, b.recovered = false)) ∧
    (∀ (env' : Env) (eng' : Engine) (s' : State) (es' : List (Interleave.Event (claimed env' eng')))
      (v' : World (claimed env' eng')), (∀ n, (s'.outside n).clock ≤ (s'.outside (n+1)).clock) →
      (begin env' eng' s').run es' = some v' →
      ∀ id fp, s.store.states id fp = s'.store.states id fp →
        List.Forall₂ Attempt.Same (claimsOn id fp v) (claimsOn id fp v') →
        claimsOn id fp v = claimsOn id fp v' ∧
          v.state.state.store.states id fp = v'.state.state.store.states id fp) ∧
    ∀ pid ev report, .start pid ev ∈ es → v.pool pid = some (.ret report) →
      Reported env eng s.store ev (notesOf pid v.state.log) report := by
  have h := history hclock hv
  have hof : ∀ id fp, ∀ a ∈ claimsOn id fp v, a.Of id fp := fun _ _ _ => of_trail
  refine ⟨fun r hr fp => ⟨?_,?_⟩,?_,?_⟩
  · intro newer g mid f older htrail hf hg hmid
    have hown := hof r.id fp
    have hsettled : Attempt.Settled s.store (claimsOn r.id fp v) := h.inv.settled r.id fp
    have hordered : (claimsOn r.id fp v).Pairwise
        fun later earlier => earlier.time ≤ later.time := h.inv.ordered.filter _
    rw [htrail,List.append_assoc] at hown hsettled hordered
    have hrule : g.rule = r.row := by
      have hg' : g ∈ History.attempts v.state := by
        have hmem : g ∈ claimsOn r.id fp v := by simp [htrail]
        exact (List.mem_filter.mp hmem).1
      obtain ⟨e,he,rfl⟩ := List.mem_map.mp hg'
      obtain ⟨stored,hstored,heq⟩ := h.noted e he
      have hid : stored.id = r.id := by
        rw [← (hown e.2 (by simp)).1,heq]
        rfl
      have hsame := Table.find_of_mem hstored
      rw [show key stored = key r from hid,Table.find_of_mem hr] at hsame
      rw [heq,Option.some.inj hsame]
    have hapart := Attempt.firings_apart (fun a ha => hown a (List.mem_append_right newer ha))
      (Attempt.settled_append hsettled) (List.pairwise_append.mp hordered).2.1 hf hg hmid
      (by rw [hrule]; exact hcap r hr)
    rw [hrule] at hapart
    exact hapart
  · intro newer a older htrail hrecovered hnotified
    have hown := hof r.id fp
    have hsettled : Attempt.Settled s.store (claimsOn r.id fp v) := h.inv.settled r.id fp
    rw [htrail] at hown hsettled
    have hsettled := Attempt.settled_append hsettled
    obtain ⟨since,hsince⟩ := (Attempt.settle_recovered (hown a (by simp)) hrecovered hsettled.1).2
      hnotified
    rcases Attempt.since_source (fun b hb => hown b (by simp [hb])) hsettled.2 hsince with
      hfired | ⟨hstart,hnever⟩
    · exact .inl hfired
    · exact .inr ⟨Store.lastState_of_firingSince hstart,hnever⟩
  · intro env' eng' s' es' v' hclock' hv' id fp hrow hsame
    have h' := history hclock' hv'
    obtain ⟨htrail,hstates⟩ := Attempt.settled_congr (hof id fp) hrow (h.inv.settled id fp)
      (h'.inv.settled id fp) hsame
    exact ⟨htrail,(h.inv.rows id fp).trans (hstates.trans (h'.inv.rows id fp).symm)⟩
  · intro pid ev report hstart hpool
    exact h.answered hv hstart hpool

def StoredRule.cooled : Nat → StoredRule :=
  { RuleParams.watching .serverAlert with cooldownSeconds := 60 }.stored 1 true true

def State.cooled : State where
  store := ⟨Serial.empty.insert StoredRule.cooled fun _ => rfl,fun _ _ => none⟩
  tick := 0
  outside n := ⟨n * (30 * second),none,none⟩

def overlapping : List (Interleave.Event (claimed .plain .direct)) :=
  [.start 0 (.cpu .serverAlert),.start 1 (.cpu .serverAlert),.act 0,.act 1,.act 0,.act 1,.act 0,
    .act 1,.start 2 (.cpu .serverAlert),.act 2,.act 2,.act 2,.start 3 (.cpu .serverAlertResolved),
    .act 3,.act 3,.act 3]

theorem overlapping_alerts_apart : ∃ v newer g mid f older,
    (begin .plain .direct .cooled).run overlapping = some v ∧
      claimsOn 0 "server:7:cpu_high" v = newer ++ g :: mid ++ f :: older ∧
      (newer ++ g :: mid ++ f :: older).map Attempt.notified = [true,true,false,true] ∧
      60 * second ≤ g.time - f.time := by
  obtain ⟨v,hv⟩ : ∃ v, (begin .plain .direct .cooled).run overlapping = some v := ⟨_,rfl⟩
  have hclock : ∀ n, (State.cooled.outside n).clock ≤ (State.cooled.outside (n+1)).clock := by
    intro n
    simp only [State.cooled,second]
    omega
  have hcap : ∀ r ∈ State.cooled.store.rules.rows, r.cooldownSeconds ≤ maxCooldownSeconds := by
    simp [State.cooled,Serial.insert,Serial.empty,Table.empty,StoredRule.cooled,RuleParams.stored,
      maxCooldownSeconds]
  obtain ⟨newer,g,mid,f,older,htrail,hnotified,hf,hg,hmid⟩ : ∃ newer g mid f older,
      claimsOn 0 "server:7:cpu_high" v = newer ++ g :: mid ++ f :: older ∧
        (newer ++ g :: mid ++ f :: older).map Attempt.notified = [true,true,false,true] ∧
        f.firing = true ∧ g.firing = true ∧ ∀ a ∈ mid, a.recovered = false := by
    obtain rfl := Option.some.inj hv
    exact ⟨[_],_,[_],_,[],rfl,rfl,rfl,rfl,by decide⟩
  exact ⟨v,newer,g,mid,f,older,hv,htrail,hnotified,
    ((rule_claims .plain .direct .cooled hclock hcap overlapping v hv).1 (.cooled 0)
      (List.mem_singleton_self _) "server:7:cpu_high").1 newer g mid f older htrail hf hg hmid⟩

end Rules
