import ServerHub.Delivery.Incident

namespace Delivery

open Go Relational Interleave

structure Call where
  input : Input
  ts : Int
  gate : Option Reason
  answer : Except String Outcome

namespace Call

def notified (c : Call) : Bool :=
  match c.answer with
  | .ok o => decide (o.action ≠ .suppressed)
  | .error _ => false

def fires (c : Call) : Bool := c.notified && !c.input.isRecovery

def recovers (c : Call) : Bool := c.notified && c.input.isRecovery

def passed (c : Call) : Bool := c.gate.isNone && c.answer.isOk

def closes (c : Call) : Bool := c.passed && c.input.isRecovery

end Call

def call (env : Env) (s : State) (i : Input) : Call :=
  ⟨i,s.now.clock,s.gate env i,((dispatch env i).run s).2⟩

def serve (env : Env) (x : State × List Call) (i : Input) : State × List Call :=
  (((dispatch env i).run x.1).1,call env x.1 i :: x.2)

def history (env : Env) (s : State) (calls : List Input) : State × List Call :=
  calls.foldl (serve env) (s,[])

def Cadence.gap (c : Cadence) : Int := max c.cooldown (seconds c.repeatSec)

structure CycleLaw (c : Cadence) (log : List Call) : Prop where
  repeats : ∀ later cycle earlier, log = later ++ cycle ++ earlier → (∀ x ∈ cycle, x.closes = false) →
    ((cycle.filter Call.fires).length : Int) ≤ 1 + c.maxRepeats
  spacing : ∀ later cycle earlier, log = later ++ cycle ++ earlier → (∀ x ∈ cycle, x.closes = false) →
    (cycle.filter Call.fires).Pairwise fun x y => c.gap ≤ x.ts - y.ts
  recovery : ∀ later x earlier, log = later ++ x :: earlier → x.recovers = true →
    ∃ between y before, earlier = between ++ y :: before ∧ y.fires = true ∧
      ∀ z ∈ between, z.recovers = false

def firings : List Call → List Int
  | [] => []
  | x :: log => if x.closes then [] else if x.fires then x.ts :: firings log else firings log

def awaiting : List Call → Bool
  | [] => false
  | x :: log => if x.fires then true else if x.recovers then false else awaiting log

theorem awaiting_firing {log : List Call} (h : awaiting log = true) :
    ∃ between y before, log = between ++ y :: before ∧ y.fires = true ∧
      ∀ z ∈ between, z.recovers = false := by
  induction log with
  | nil => exact nomatch h
  | cons x log ih =>
    simp only [awaiting] at h
    split at h
    · rename_i hx
      exact ⟨[],x,log,rfl,hx,by simp⟩
    · split at h
      · exact nomatch h
      · rename_i hx
        obtain ⟨between,y,before,rfl,hy,hz⟩ := ih h
        refine ⟨x :: between,y,before,rfl,hy,?_⟩
        intro z hm
        rcases List.mem_cons.mp hm with rfl | hm
        · simpa using hx
        · exact hz z hm

theorem firings_append {cycle earlier : List Call} (h : ∀ x ∈ cycle, x.closes = false) :
    firings (cycle ++ earlier) = (cycle.filter Call.fires).map Call.ts ++ firings earlier := by
  induction cycle with
  | nil => rfl
  | cons x cycle ih =>
    have hx : x.closes = false := h x (by simp)
    have hrest := ih fun y hy => h y (by simp [hy])
    simp only [List.cons_append,firings,hx,hrest]
    by_cases hf : x.fires = true <;> simp [hf]

structure Spaced (c : Cadence) (times : List Int) : Prop where
  length : (times.length : Int) ≤ 1 + c.maxRepeats
  apart : times.Pairwise fun x y => y ≤ x ∧ c.gap ≤ x - y

structure Sound (c : Cadence) (log : List Call) : Prop where
  spaced : ∀ ys, ys <:+ log → Spaced c (firings ys)
  awaited : ∀ x ys, x :: ys <:+ log → x.recovers = true → awaiting ys = true

theorem Sound.law {c : Cadence} {log : List Call} (h : Sound c log) : CycleLaw c log := by
  have hspaced : ∀ later cycle earlier, log = later ++ cycle ++ earlier →
      (∀ x ∈ cycle, x.closes = false) →
      Spaced c ((cycle.filter Call.fires).map Call.ts ++ firings earlier) := by
    intro later cycle earlier hlog hc
    rw [← firings_append hc]
    exact h.spaced _ ⟨later,by rw [hlog,List.append_assoc]⟩
  constructor
  · intro later cycle earlier hlog hc
    have hlen := (hspaced later cycle earlier hlog hc).length
    rw [List.length_append,List.length_map] at hlen
    omega
  · intro later cycle earlier hlog hc
    have hap := (List.pairwise_append.mp (hspaced later cycle earlier hlog hc).apart).1
    exact (List.pairwise_map.mp hap).imp fun hxy => hxy.2
  · intro later x earlier hlog hx
    exact awaiting_firing (h.awaited x earlier ⟨later,hlog.symm⟩ hx)

structure Tracked (c : Cadence) (now : Int) (row : Option DeliveryState) (log : List Call) : Prop where
  sound : Sound c log
  past : ∀ t ∈ firings log, t ≤ now
  idle : (∀ r, row = some r → r.lastState ≠ .firing) → firings log = []
  live : ∀ r, row = some r → r.lastState = .firing →
    ∃ before, firings log = r.lastNotifiedAt :: before ∧ r.repeatCount = before.length
  awaits : ∀ r, row = some r → r.lastState = .firing → awaiting log = true
  blank : ∀ r, row = some r → r.lastState = .blank → r.repeatCount = 0

structure Effective (c : Cadence) : Prop where
  maxRepeats : 0 ≤ c.maxRepeats
  repeatSec : 0 < c.repeatSec
  cooldown : c.cooldown ≤ maxDuration

theorem cadence_effective (row : Option Policy) (n : Notice) :
    Effective (cadence (Policy.loaded row) n) := by
  constructor
  · have h := loaded_maxRepeats row
    simp only [cadence]
    split <;> omega
  · have h := loaded_repeatIntervalSec row
    simp only [cadence]
    split <;> omega
  · simp only [cadence,Policy.cooldownFor]
    split
    · split <;> exact seconds_le _
    · exact seconds_le _

theorem gap_of_not_held {c : Cadence} {ts : Int} {r : DeliveryState} (hc : Effective c)
    (hr : r.lastState = .firing) (hts : r.lastNotifiedAt ≤ ts)
    (h : (Locals.scan (some r)).held c ts = none) :
    r.repeatCount < c.maxRepeats ∧ c.gap ≤ ts - r.lastNotifiedAt := by
  simp only [Locals.held,Locals.scan,hr,decide_true,Bool.and_self,if_true] at h
  split at h
  · cases h
  · rename_i hcool
    split at h
    · cases h
    · split at h
      · cases h
      · rename_i hrep hsec
        have hcool := le_of_not_sub_lt hc.cooldown hts hcool
        have hsec := le_of_not_sub_lt (seconds_le _) hts fun hlt => hsec ⟨hc.repeatSec,hlt⟩
        exact ⟨Int.not_le.mp hrep,max_le hcool hsec⟩

section Step

variable {c : Cadence} {now : Int} {row : Option DeliveryState} {log : List Call} {x : Call}

theorem Sound.cons (h : Sound c log) (hs : Spaced c (firings (x :: log)))
    (ha : x.recovers = true → awaiting log = true) : Sound c (x :: log) := by
  constructor
  · intro ys hys
    rcases List.suffix_cons_iff.mp hys with rfl | hys
    · exact hs
    · exact h.spaced ys hys
  · intro y ys hys
    rcases List.suffix_cons_iff.mp hys with he | hys
    · obtain ⟨rfl,rfl⟩ := List.cons.inj he
      exact ha
    · exact h.awaited y ys hys

theorem firings_silent (hn : x.notified = false) (hc : x.closes = false) :
    firings (x :: log) = firings log := by
  simp [firings,Call.fires,hn,hc]

theorem awaiting_silent (hn : x.notified = false) : awaiting (x :: log) = awaiting log := by
  simp [awaiting,Call.fires,Call.recovers,hn]

theorem Sound.silent (h : Sound c log) (hn : x.notified = false) (hc : x.closes = false) :
    Sound c (x :: log) := by
  refine h.cons ?_ (by simp [Call.recovers,hn])
  rw [firings_silent hn hc]
  exact h.spaced log List.suffix_rfl

theorem spaced_nil (hc : Effective c) : Spaced c [] :=
  ⟨by have := hc.maxRepeats; simp; omega,.nil⟩

theorem spaced_one (hc : Effective c) (t : Int) : Spaced c [t] :=
  ⟨by have := hc.maxRepeats; simp; omega,List.pairwise_singleton _ t⟩

theorem Spaced.push {t u : Int} {before : List Int} (h : Spaced c (u :: before))
    (hlen : (before.length : Int) < c.maxRepeats) (hle : u ≤ t) (hgap : c.gap ≤ t - u) :
    Spaced c (t :: u :: before) := by
  constructor
  · simp only [List.length_cons]
    omega
  · refine List.pairwise_cons.mpr ⟨?_,h.apart⟩
    intro y hy
    rcases List.mem_cons.mp hy with rfl | hy
    · exact ⟨hle,hgap⟩
    · have hyu := (List.pairwise_cons.mp h.apart).1 y hy
      omega

theorem Tracked.silent {row' : Option DeliveryState} (h : Tracked c now row log)
    (hn : x.notified = false) (hx : x.closes = false)
    (hfire : ∀ r', row' = some r' → r'.lastState = .firing →
      ∃ r, row = some r ∧ r.lastState = .firing ∧ r'.lastNotifiedAt = r.lastNotifiedAt ∧
        r'.repeatCount = r.repeatCount)
    (hidle : (∀ r', row' = some r' → r'.lastState ≠ .firing) →
      ∀ r, row = some r → r.lastState ≠ .firing)
    (hblank : ∀ r', row' = some r' → r'.lastState = .blank → r'.repeatCount = 0) :
    Tracked c now row' (x :: log) where
  sound := h.sound.silent hn hx
  past := by
    rw [firings_silent hn hx]
    exact h.past
  idle hr := by
    rw [firings_silent hn hx]
    exact h.idle (hidle hr)
  live r' hr' hf := by
    obtain ⟨r,hr,hrf,hlast,hcount⟩ := hfire r' hr' hf
    rw [firings_silent hn hx,hlast,hcount]
    exact h.live r hr hrf
  awaits r' hr' hf := by
    obtain ⟨r,hr,hrf,-,-⟩ := hfire r' hr' hf
    rw [awaiting_silent hn]
    exact h.awaits r hr hrf
  blank := hblank

theorem Tracked.touched {row' : Option DeliveryState} (h : Tracked c now row log)
    (ht : Touched row row') (hn : x.notified = false) (hx : x.closes = false) :
    Tracked c now row' (x :: log) := by
  cases row with
  | none =>
    obtain ⟨r',rfl,hst,hcount⟩ := ht
    refine h.silent hn hx ?_ (fun _ r hr => nomatch hr) ?_
    · rintro _ ⟨⟩ hf
      exact nomatch hst.symm.trans hf
    · rintro _ ⟨⟩ _
      exact hcount
  | some r =>
    obtain ⟨r',rfl,hst,hlast,hcount⟩ := ht
    refine h.silent hn hx ?_ ?_ ?_
    · rintro _ ⟨⟩ hf
      exact ⟨r,rfl,hst ▸ hf,hlast,hcount⟩
    · rintro hidle _ ⟨⟩ hf
      exact hidle r' rfl (hst.trans hf)
    · rintro _ ⟨⟩ hb
      exact hcount.trans (h.blank r rfl (hst ▸ hb))

theorem Tracked.closed {r' : DeliveryState} (hc : Effective c) (h : Tracked c now row log)
    (hx : x.closes = true) (ha : x.recovers = true → awaiting log = true)
    (hr' : r'.lastState = .resolved) : Tracked c now (some r') (x :: log) := by
  have hnil : firings (x :: log) = [] := by simp [firings,hx]
  constructor
  · exact h.sound.cons (hnil ▸ spaced_nil hc) ha
  · simp [hnil]
  · exact fun _ => hnil
  · rintro _ ⟨⟩ hf
    exact nomatch hr'.symm.trans hf
  · rintro _ ⟨⟩ hf
    exact nomatch hr'.symm.trans hf
  · rintro _ ⟨⟩ hb
    exact nomatch hr'.symm.trans hb

theorem Tracked.fired {r' : DeliveryState} {before : List Int} (h : Tracked c now row log)
    (hx : x.fires = true) (hts : x.ts ≤ now) (hlog : firings log = before)
    (hs : Spaced c (x.ts :: before)) (hr' : r'.lastState = .firing)
    (hlast : r'.lastNotifiedAt = x.ts) (hcount : r'.repeatCount = before.length) :
    Tracked c now (some r') (x :: log) := by
  have hrec : x.input.isRecovery = false := by
    simp only [Call.fires,Bool.and_eq_true,Bool.not_eq_true'] at hx
    exact hx.2
  have hfirings : firings (x :: log) = x.ts :: before := by
    simp [firings,hx,hlog,Call.closes,hrec]
  constructor
  · exact h.sound.cons (hfirings ▸ hs) (by simp [Call.recovers,hrec])
  · intro t ht
    rw [hfirings] at ht
    rcases List.mem_cons.mp ht with rfl | ht
    · exact hts
    · exact h.past t (hlog ▸ ht)
  · exact fun hidle => absurd hr' (hidle r' rfl)
  · rintro _ ⟨⟩ _
    exact ⟨before,by rw [hfirings,hlast],hcount⟩
  · rintro _ ⟨⟩ _
    simp [awaiting,hx]
  · rintro _ ⟨⟩ hb
    exact nomatch hr'.symm.trans hb

theorem Tracked.moved {i : Input} {o : Outcome} {r' : DeliveryState} (hc : Effective c)
    (h : Tracked c now row log) (hm : Moves c now row i.isRecovery o r') :
    Tracked c now (some r') (⟨i,now,none,.ok o⟩ :: log) := by
  generalize hrec : i.isRecovery = b at hm
  cases hm with
  | muted hrow =>
    exact h.closed hc (by simp [Call.closes,Call.passed,hrec,Except.isOk,Except.toBool])
      (by simp [Call.recovers,Call.notified]) hrow
  | recovered hold hr ho hrow =>
    refine h.closed hc (by simp [Call.closes,Call.passed,hrec,Except.isOk,Except.toBool]) ?_ hrow
    exact fun _ => h.awaits _ hold hr
  | @held r _ reason hold hr hheld hrow hlast hcount =>
    refine h.silent (by simp [Call.notified]) (by simp [Call.closes,hrec]) ?_ ?_ ?_
    · rintro _ ⟨⟩ _
      exact ⟨r,hold,hr,hlast,hcount⟩
    · exact fun hidle => absurd hrow (hidle r' rfl)
    · rintro _ ⟨⟩ hb
      exact nomatch hrow.symm.trans hb
  | opened hold ho hrow hlast hcount =>
    exact h.fired (by simp [Call.fires,Call.notified,hrec,ho]) (Int.le_refl now) (h.idle hold)
      (spaced_one hc now) hrow hlast (hcount h.blank)
  | @repeated r _ _ hold hr hheld ho hrow hlast hcount =>
    obtain ⟨before,hlog,hlen⟩ := h.live r hold hr
    have hpast : r.lastNotifiedAt ≤ now := h.past _ (by simp [hlog])
    rw [hold] at hheld
    obtain ⟨hrep,hgap⟩ := gap_of_not_held hc hr hpast hheld
    have hsp : Spaced c (r.lastNotifiedAt :: before) := hlog ▸ h.sound.spaced log List.suffix_rfl
    refine h.fired (by simp [Call.fires,Call.notified,hrec,ho]) (Int.le_refl now) hlog
      (hsp.push (by omega) hpast hgap) hrow hlast ?_
    rw [hcount,hlen,List.length_cons]
    omega

end Step

theorem Tracked.answered {env : Env} {c : Cadence} {s : State} {i : Input} {row : Option DeliveryState}
    {a : Except String Outcome} {log : List Call} (hc : Effective c)
    (hcad : ∀ t, cadence (Policy.loaded (s.outside t).policy) i.notice = c)
    (h : Tracked c s.now.clock (s.store.states i.key) log) (hd : Answered env s i row a) :
    Tracked c s.now.clock row (⟨i,s.now.clock,s.gate env i,a⟩ :: log) := by
  cases hd with
  | refused e =>
    have hsame : ∀ r, s.store.states i.key = some r → r.lastState = .firing →
        ∃ r₀, s.store.states i.key = some r₀ ∧ r₀.lastState = .firing ∧
          r.lastNotifiedAt = r₀.lastNotifiedAt ∧ r.repeatCount = r₀.repeatCount :=
      fun r hr hf => ⟨r,hr,hf,rfl,rfl⟩
    exact h.silent rfl (by simp [Call.closes,Call.passed,Except.isOk,Except.toBool]) hsame
      (fun hi => hi) h.blank
  | gated hg ht =>
    exact h.touched ht (by simp [Call.notified]) (by simp [Call.closes,Call.passed,hg])
  | claimed hg hm =>
    rw [hg]
    exact h.moved hc (hcad (s.tick + 1) ▸ hm)

theorem Tracked.later {c : Cadence} {now now' : Int} {row : Option DeliveryState}
    {log : List Call} (h : Tracked c now row log) (hle : now ≤ now') : Tracked c now' row log :=
  { h with past := fun t ht => Int.le_trans (h.past t ht) hle }

section Runs

variable {env : Env} {key : String} {s : State} {c : Cadence}

theorem tracked_serve {x : State × List Call} {i : Input} (hc : Effective c)
    (hcad : ∀ t, cadence (Policy.loaded (x.1.outside t).policy) i.notice = c)
    (hclock : Monotone fun t => (x.1.outside t).clock) (hkey : i.key = key)
    (h : Tracked c x.1.now.clock (x.1.store.states key) x.2) :
    Tracked c (serve env x i).1.now.clock ((serve env x i).1.store.states key) (serve env x i).2 := by
  subst hkey
  obtain ⟨ho,ht⟩ := run_clock (dispatch env i) x.1
  have hle : x.1.now.clock ≤ (serve env x i).1.now.clock := by
    have hm := hclock ht
    simp only [State.now,serve,ho]
    exact hm
  exact (h.answered hc hcad (dispatch_answered env i x.1)).later hle

theorem tracked_run {calls : List Input} {x : State × List Call} (hc : Effective c)
    (hcad : ∀ i ∈ calls, ∀ t, cadence (Policy.loaded (x.1.outside t).policy) i.notice = c)
    (hclock : Monotone fun t => (x.1.outside t).clock) (hkey : ∀ i ∈ calls, i.key = key)
    (h : Tracked c x.1.now.clock (x.1.store.states key) x.2) :
    Sound c (calls.foldl (serve env) x).2 := by
  induction calls generalizing x with
  | nil => exact h.sound
  | cons i calls ih =>
    have hout : (serve env x i).1.outside = x.1.outside := (run_clock (dispatch env i) x.1).1
    refine ih ?_ (hout ▸ hclock) (fun j hj => hkey j (by simp [hj]))
      (tracked_serve hc (hcad i (by simp)) hclock (hkey i (by simp)) h)
    intro j hj
    rw [hout]
    exact hcad j (by simp [hj])

end Runs

theorem tracked_start {c : Cadence} (hc : Effective c) (now : Int) : Tracked c now none [] where
  sound := ⟨fun ys hys => by rw [List.suffix_nil.mp hys]; exact spaced_nil hc,by simp⟩
  past := by simp [firings]
  idle _ := rfl
  live := by simp
  awaits := by simp
  blank := by simp

theorem incident_cycles (env : Env) (s : State) (key : String) (calls : List Input)
    (row : Option Policy) (j : Input) (hnew : s.store.states key = none)
    (hkey : ∀ i ∈ calls, i.key = key)
    (hcad : ∀ i ∈ calls, ∀ t, cadence (Policy.loaded (s.outside t).policy) i.notice =
      cadence (Policy.loaded row) j.notice)
    (hclock : Monotone fun t => (s.outside t).clock) :
    CycleLaw (cadence (Policy.loaded row) j.notice) (history env s calls).2 := by
  have hc := cadence_effective row j.notice
  exact (tracked_run (x := (s,[])) hc hcad hclock hkey (hnew ▸ tracked_start hc _)).law

def hourly (t : Nat) : Outside := .at (t * 3600)

theorem hourly_cycles :
    CycleLaw (cadence (Policy.loaded (some defaultPolicy)) (Input.alert "disk" ["EMAIL"] false).notice)
        (history .utc ⟨.empty,0,hourly⟩
          [.alert "disk" ["EMAIL"] false,.alert "disk" ["EMAIL"] false,.alert "disk" ["EMAIL"] true]).2 ∧
      (history .utc ⟨.empty,0,hourly⟩
        [.alert "disk" ["EMAIL"] false,.alert "disk" ["EMAIL"] false,
          .alert "disk" ["EMAIL"] true]).2.map Call.notified = [true,true,true] := by
  constructor
  · refine incident_cycles .utc _ "disk" _ (some defaultPolicy) _ rfl (by decide) ?_ ?_
    · intro i hi t
      simp only [List.mem_cons,List.not_mem_nil,or_false] at hi
      rcases hi with rfl | rfl | rfl <;> rfl
    · intro t u htu
      simp only [hourly,Outside.at,second]
      omega
  · decide

def openIncident (row : Option DeliveryState) : Option (Int × Int) :=
  row.bind fun r => if r.lastState = .firing then some (r.lastNotifiedAt,r.repeatCount) else none

section Reopening

variable {c : Cadence} {ts : Int} {row row' : Option DeliveryState}

theorem held_incident : (Locals.scan row).held c ts =
    (openIncident row).bind fun p =>
      (Locals.mk true p.1 p.2 .firing 0).held c ts := by
  cases row with
  | none => rfl
  | some r =>
    by_cases hr : r.lastState = .firing
    · simp [openIncident,Locals.scan,Locals.held,hr]
    · simp [openIncident,Locals.scan,Locals.held,hr]

theorem held_congr (h : openIncident row' = openIncident row) :
    (Locals.scan row').held c ts = (Locals.scan row).held c ts := by
  rw [held_incident,held_incident,h]

theorem held_none (h : openIncident row = none) : (Locals.scan row).held c ts = none := by
  rw [held_incident,h,Option.bind_none]

theorem openIncident_touched (h : Touched row row') : openIncident row' = openIncident row := by
  cases row with
  | none =>
    obtain ⟨r,rfl,hst,-⟩ := h
    simp [openIncident,hst]
  | some r₀ =>
    obtain ⟨r,rfl,hst,hlast,hcount⟩ := h
    simp [openIncident,hst,hlast,hcount]

theorem openIncident_resolved {r : DeliveryState} (h : r.lastState = .resolved) :
    openIncident (some r) = none := by
  simp [openIncident,h]

variable {env : Env} {s : State} {i : Input}

theorem recovery_answered {a : Except String Outcome} (hrec : i.isRecovery = true)
    (h : Answered env s i row a) : openIncident row =
      if (s.gate env i).isNone && a.isOk then none else openIncident (s.store.states i.key) := by
  cases h with
  | refused e => simp [Except.isOk,Except.toBool]
  | gated hg ht => simp [hg,openIncident_touched ht]
  | claimed hg hm =>
    rw [hrec] at hm
    simp only [hg,Except.isOk,Except.toBool]
    cases hm with
    | muted hrow => exact openIncident_resolved hrow
    | recovered hold hr ho hrow => exact openIncident_resolved hrow

theorem unpassed_answered {a : Except String Outcome}
    (hpass : ((s.gate env i).isNone && a.isOk) = false) (h : Answered env s i row a) :
    openIncident row = openIncident (s.store.states i.key) := by
  cases h with
  | refused e => rfl
  | gated hg ht => exact openIncident_touched ht
  | claimed hg hm => simp [hg,Except.isOk,Except.toBool] at hpass

theorem firing_answered {a : Except String Outcome} (hrec : i.isRecovery = false)
    (hpass : ((s.gate env i).isNone && a.isOk) = true) (h : Answered env s i row a) :
    (Call.mk i s.now.clock (s.gate env i) a).notified = true ↔
      (Locals.scan (s.store.states i.key)).held (cadence s.policy i.notice) s.now.clock = none := by
  cases h with
  | refused e => simp [Except.isOk,Except.toBool] at hpass
  | gated hg ht => simp [hg] at hpass
  | claimed hg hm =>
    rw [hrec] at hm
    cases hm with
    | held hold hr hheld hrow hlast hcount => simp [Call.notified,hheld]
    | opened hold ho hrow hlast hcount =>
      have hnone : openIncident (s.store.states i.key) = none := by
        cases hrow : s.store.states i.key with
        | none => rfl
        | some r => simp [openIncident,hold r hrow]
      simp [Call.notified,ho,held_none hnone]
    | repeated hold hr hheld ho hrow hlast hcount => simp [Call.notified,ho,hheld]

def incidentAfter (old : Option (Int × Int)) (log : List Call) : Option (Int × Int) :=
  if log.any Call.closes then none else old

theorem incident_serve {x : State × List Call} {key : String} {old : Option (Int × Int)}
    (hkey : i.key = key) (hfire : i.isRecovery = false → (call env x.1 i).passed = false)
    (h : openIncident (x.1.store.states key) = incidentAfter old x.2) :
    openIncident ((serve env x i).1.store.states key) = incidentAfter old (serve env x i).2 := by
  subst hkey
  have hd := dispatch_answered env i x.1
  by_cases hrec : i.isRecovery = true
  · refine (recovery_answered hrec hd).trans ?_
    have hcloses : (call env x.1 i).closes = (call env x.1 i).passed := by
      simp [Call.closes,call,hrec]
    have hpass : (call env x.1 i).passed =
        ((x.1.gate env i).isNone && ((dispatch env i).run x.1).2.isOk) := rfl
    rw [← hpass,h]
    cases hp : (call env x.1 i).passed <;> simp [incidentAfter,serve,hcloses,hp]
  · rw [Bool.not_eq_true] at hrec
    refine (unpassed_answered (hfire hrec) hd).trans ?_
    have hcloses : (call env x.1 i).closes = false := by simp [Call.closes,call,hrec]
    rw [h]
    simp [incidentAfter,serve,hcloses]

theorem serve_suffix (x : State × List Call) (calls : List Input) :
    x.2 <:+ (calls.foldl (serve env) x).2 := by
  induction calls generalizing x with
  | nil => exact List.suffix_rfl
  | cons i calls ih => exact (List.suffix_cons _ _).trans (ih (serve env x i))

theorem incident_run (old : Option (Int × Int)) {x : State × List Call} {key : String}
    {calls : List Input} (hkey : ∀ i ∈ calls, i.key = key)
    (hfire : ∀ y ∈ (calls.foldl (serve env) x).2, y.input.isRecovery = false → y.passed = false)
    (h : openIncident (x.1.store.states key) = incidentAfter old x.2) :
    openIncident ((calls.foldl (serve env) x).1.store.states key) =
      incidentAfter old (calls.foldl (serve env) x).2 := by
  induction calls generalizing x with
  | nil => exact h
  | cons i calls ih =>
    refine ih (fun j hj => hkey j (by simp [hj])) hfire (incident_serve (hkey i (by simp)) ?_ h)
    exact hfire _ ((serve_suffix (serve env x i) calls).mem List.mem_cons_self)

end Reopening

theorem reopens_iff (env : Env) (s t : State) (key : String) (recovery firing : Input)
    (between : List Input) (log : List Call)
    (hkey : ∀ i ∈ recovery :: firing :: between, i.key = key)
    (hrec : recovery.isRecovery = true) (hok : (call env s recovery).answer.isOk = true)
    (hrun : history env ((dispatch env recovery).run s).1 between = (t,log))
    (hbetween : ∀ x ∈ log, x.input.isRecovery = false → x.passed = false)
    (hfiring : firing.isRecovery = false) (hpassed : (call env t firing).passed = true) :
    (call env t firing).notified = true ↔
      s.gate env recovery = none ∨ (∃ x ∈ log, x.closes = true) ∨
        (Locals.scan (s.store.states key)).held (cadence t.policy firing.notice) t.now.clock = none := by
  have hr : recovery.key = key := hkey recovery (by simp)
  have hf : firing.key = key := hkey firing (by simp)
  have hstart := recovery_answered hrec (dispatch_answered env recovery s)
  rw [show ((dispatch env recovery).run s).2.isOk = true from hok,hr] at hstart
  have hfold : between.foldl (serve env) (((dispatch env recovery).run s).1,[]) = (t,log) := hrun
  have hend : openIncident (t.store.states key) =
      incidentAfter (openIncident (((dispatch env recovery).run s).1.store.states key)) log := by
    have h := incident_run (openIncident (((dispatch env recovery).run s).1.store.states key))
      (x := (((dispatch env recovery).run s).1,[]))
      (fun i (hi : i ∈ between) => hkey i (by simp [hi])) (by rw [hfold]; exact hbetween) rfl
    rwa [hfold] at h
  have hiff := firing_answered hfiring hpassed (dispatch_answered env firing t)
  rw [hf] at hiff
  refine hiff.trans ?_
  by_cases hc : ∃ x ∈ log, x.closes = true
  · have hnone : openIncident (t.store.states key) = none := by
      rw [hend,incidentAfter,if_pos (List.any_eq_true.mpr hc)]
    simp [held_none hnone,hc]
  · rw [incidentAfter,if_neg (fun h => hc (List.any_eq_true.mp h)),hstart] at hend
    cases hg : s.gate env recovery with
    | none =>
      have hnone : openIncident (t.store.states key) = none := by simpa [hg] using hend
      simp [held_none hnone]
    | some reason =>
      have hsame : openIncident (t.store.states key) = openIncident (s.store.states key) := by
        simpa [hg] using hend
      simp [held_congr hsame,hc]

def pausedOnce (t : Nat) : Outside :=
  { Outside.at t with policy := some { defaultPolicy with emergencyPause := decide (t = 5) } }

def ringing (outside : Nat → Outside) : State :=
  ((dispatch .utc (.alert "disk" ["EMAIL"] false)).run ⟨.empty,0,outside⟩).1

def cleared (outside : Nat → Outside) : State :=
  ((dispatch .utc (.alert "disk" ["EMAIL"] true)).run (ringing outside)).1

theorem gated_recovery_keeps_incident :
    (call .utc ⟨.empty,0,pausedOnce⟩ (.alert "disk" ["EMAIL"] false)).answer.toOption =
        some ⟨.queued,none⟩ ∧
      (call .utc (ringing pausedOnce) (.alert "disk" ["EMAIL"] true)).answer.toOption =
        some ⟨.suppressed,some .emergencyPause⟩ ∧
      (call .utc (cleared pausedOnce) (.alert "disk" ["EMAIL"] false)).gate = none ∧
      (call .utc (cleared pausedOnce) (.alert "disk" ["EMAIL"] false)).answer.toOption =
        some ⟨.suppressed,some .cooldown⟩ := by
  decide

theorem ungated_recovery_reopens :
    (call .utc (cleared hourly) (.alert "disk" ["EMAIL"] false)).notified = true :=
  (reopens_iff .utc (ringing hourly) (cleared hourly) "disk" (.alert "disk" ["EMAIL"] true)
    (.alert "disk" ["EMAIL"] false) [] [] (by decide) rfl (by decide) rfl (by simp) rfl
    (by decide)).mpr (.inl (by decide))

end Delivery
