import Mathlib.Tactic.IntervalCases
import Mathlib.Tactic.Positivity
import ServerHub.Auth.Lockout

namespace Auth

open Go

variable {spare : Nat → List Int} {u : String} {cs : List TimedCall} {ts : List Int}
  {locks : List (Int × Int)}

def lockTerm (k : Nat) : Int := min (2 ^ k) 30 * minute

def lastEnd (locks : List (Int × Int)) : Int := (locks.getLast?.map Prod.snd).getD 0

def Ripe (ts : List Int) (after : Int) (i : Nat) : Prop :=
  acctMaxFailures ≤ i + 1 ∧ ∃ t, ts[i]? = some t ∧ after < t

structure Scheduled (ts : List Int) (locks : List (Int × Int)) : Prop where
  lock : ∀ k start stop, locks[k]? = some (start,stop) → stop = start + lockTerm k ∧
    ∃ i, ts[i]? = some start ∧ Ripe ts (lastEnd (locks.take k)) i ∧
      ∀ j < i, ¬Ripe ts (lastEnd (locks.take k)) j
  settled : ∀ i, ¬Ripe ts (lastEnd locks) i

def stateAfter (ts : List Int) (locks : List (Int × Int)) : Option AcctState :=
  if ts = [] then none else some ⟨ts.length,lastEnd locks,min locks.length 5⟩

def LoginLimiter.lockedUntil (l : LoginLimiter) (u : String) : Int :=
  ((l.accounts.lookup u).getD .fresh).lockoutUntil

def failsFor (u : String) (c : TimedCall) : Bool :=
  match c.call with
  | .recordFailure _ user => user == u
  | _ => false

-- an account under watch: its failures and its locks since its last success
structure Watch where
  limiter : LoginLimiter
  streak : List Int
  locks : List (Int × Int)

namespace Watch

def fresh : Watch := ⟨.fresh,[],[]⟩

def serve (spare : Nat → List Int) (u : String) (w : Watch) (c : TimedCall) : Watch :=
  let l := w.limiter.serve spare c
  if c.call = .recordSuccess u then ⟨l,[],[]⟩
  else ⟨l,if failsFor u c then w.streak ++ [c.now] else w.streak,
    if l.lockedUntil u = w.limiter.lockedUntil u then w.locks
    else w.locks ++ [(c.now,l.lockedUntil u)]⟩

def after (spare : Nat → List Int) (u : String) (cs : List TimedCall) : Watch :=
  cs.foldl (serve spare u) fresh

theorem after_limiter (cs : List TimedCall) :
    (after spare u cs).limiter = LoginLimiter.after spare cs := by
  induction cs using List.reverseRecOn with
  | nil => rfl
  | append_singleton cs c ih =>
    simp only [after,LoginLimiter.after,List.foldl_append,List.foldl_cons,List.foldl_nil]
    rw [← after,← LoginLimiter.after,← ih]
    unfold serve
    dsimp only
    split <;> rfl

end Watch

def Roomy (spare : Nat → List Int) (cs : List TimedCall) : Prop :=
  ∀ before c rest ip user, cs = before ++ c :: rest → c.call = .recordFailure ip user →
    (LoginLimiter.after spare before).accounts.keys.length < maxTrackedAccts

theorem Roomy.init {c : TimedCall} (h : Roomy spare (cs ++ [c])) : Roomy spare cs := by
  intro before d rest ip user hcs hd
  exact h before d (rest ++ [c]) ip user (by rw [hcs]; simp) hd

theorem lastEnd_append (locks : List (Int × Int)) (start stop : Int) :
    lastEnd (locks ++ [(start,stop)]) = stop := by
  simp [lastEnd]

section Doubling

theorem doubled_exact {n : Nat} (h : n ≤ 5) :
    int64 (baseLockout * 2 ^ n) = baseLockout * 2 ^ n ∧ 0 < baseLockout * 2 ^ n := by
  interval_cases n <;> decide

theorem lockTerm_pos (k : Nat) : 0 < lockTerm k := by
  have hpow : (0 : Int) < 2 ^ k := by positivity
  have hminute : (0 : Int) < minute := by decide
  unfold lockTerm
  exact mul_pos (lt_min hpow (by decide)) hminute

theorem lockTerm_capped {k : Nat} (h : 5 ≤ k) : lockTerm k = maxLockout := by
  have hpow : (2 : Int) ^ 5 ≤ 2 ^ k := pow_le_pow_right₀ (by decide) h
  unfold lockTerm maxLockout
  rw [min_eq_right (by omega)]

theorem fail_ripe {failures k : Nat} {last now : Int} (h : acctMaxFailures ≤ failures + 1)
    (hnow : last < now) : (⟨failures,last,min k 5⟩ : AcctState).fail now =
      ⟨failures + 1,now + lockTerm k,min (k + 1) 5⟩ := by
  unfold AcctState.fail
  dsimp only
  rw [if_pos ⟨h,hnow⟩]
  rcases Nat.lt_or_ge k 5 with hk | hk
  · interval_cases k <;> rfl
  · rw [lockTerm_capped hk,Nat.min_eq_right hk,Nat.min_eq_right (by omega)]
    rfl

theorem fail_unripe {st : AcctState} {now : Int}
    (h : ¬(acctMaxFailures ≤ st.failures + 1 ∧ st.lockoutUntil < now)) :
    st.fail now = { st with failures := st.failures + 1 } := by
  unfold AcctState.fail
  exact if_neg h

end Doubling

namespace Scheduled

theorem none_yet : Scheduled [] [] where
  lock := fun _ _ _ h => nomatch h
  settled := fun _ ⟨_,_,h,_⟩ => nomatch h

theorem ripe_append {after now : Int} {i : Nat} :
    Ripe (ts ++ [now]) after i ↔ Ripe ts after i ∨
      i = ts.length ∧ acctMaxFailures ≤ ts.length + 1 ∧ after < now := by
  unfold Ripe
  rcases lt_trichotomy i ts.length with h | rfl | h
  · simp [List.getElem?_append_left h,h.ne]
  · simp
  · have hbeyond : (ts ++ [now])[i]? = none := List.getElem?_eq_none (by simp; omega)
    simp [hbeyond,List.getElem?_eq_none h.le,h.ne']

theorem counted (h : Scheduled ts locks) {now : Int}
    (hnow : ¬(acctMaxFailures ≤ ts.length + 1 ∧ lastEnd locks < now)) :
    Scheduled (ts ++ [now]) locks where
  lock := by
    intro k start stop hk
    obtain ⟨hterm,i,hi,hripe,hfirst⟩ := h.lock k start stop hk
    have hlt : i < ts.length := (List.getElem?_eq_some_iff.mp hi).1
    refine ⟨hterm,i,?_,ripe_append.mpr (.inl hripe),fun j hj hr => ?_⟩
    · rw [List.getElem?_append_left hlt,hi]
    · rcases ripe_append.mp hr with hr | ⟨rfl,-⟩
      · exact hfirst j hj hr
      · omega
  settled := by
    intro i hr
    rcases ripe_append.mp hr with hr | ⟨-,hdue⟩
    · exact h.settled i hr
    · exact hnow hdue

theorem locked (h : Scheduled ts locks) {now : Int} (hpast : ∀ t ∈ ts, t ≤ now)
    (hcount : acctMaxFailures ≤ ts.length + 1) (hnow : lastEnd locks < now) :
    Scheduled (ts ++ [now]) (locks ++ [(now,now + lockTerm locks.length)]) where
  lock := by
    intro k start stop hk
    rcases lt_trichotomy k locks.length with hlt | rfl | hgt
    · rw [List.getElem?_append_left hlt] at hk
      obtain ⟨hterm,i,hi,hripe,hfirst⟩ := h.lock k start stop hk
      have hin : i < ts.length := (List.getElem?_eq_some_iff.mp hi).1
      rw [List.take_append_of_le_length hlt.le]
      refine ⟨hterm,i,?_,ripe_append.mpr (.inl hripe),fun j hj hr => ?_⟩
      · rw [List.getElem?_append_left hin,hi]
      · rcases ripe_append.mp hr with hr | ⟨rfl,-⟩
        · exact hfirst j hj hr
        · omega
    · simp only [List.getElem?_concat_length,Option.some.injEq,Prod.mk.injEq] at hk
      obtain ⟨rfl,rfl⟩ := hk
      rw [List.take_left]
      refine ⟨rfl,ts.length,by simp,ripe_append.mpr (.inr ⟨rfl,hcount,hnow⟩),fun j hj hr => ?_⟩
      rcases ripe_append.mp hr with hr | ⟨rfl,-⟩
      · exact h.settled j hr
      · omega
    · rw [List.getElem?_eq_none (by simp; omega)] at hk
      cases hk
  settled := by
    rintro i ⟨-,t,ht,hlate⟩
    rw [lastEnd_append] at hlate
    have hpos := lockTerm_pos locks.length
    have hle : t ≤ now := by
      rcases List.mem_append.mp (List.mem_of_getElem? ht) with hm | hm
      · exact hpast t hm
      · exact (List.mem_singleton.mp hm).le
    omega

theorem first_lock (h : Scheduled ts locks) (hpos : ∀ t ∈ ts, 0 < t) {t : Int}
    (ht : ts[acctMaxFailures - 1]? = some t) : ∃ stop, locks[0]? = some (t,stop) := by
  have hripe : Ripe ts 0 (acctMaxFailures - 1) :=
    ⟨by decide,t,ht,hpos t (List.mem_of_getElem? ht)⟩
  cases hl : locks with
  | nil =>
    subst hl
    exact absurd hripe (h.settled _)
  | cons lock rest =>
    obtain ⟨start,stop⟩ := lock
    obtain ⟨-,i,hi,hr,hfirst⟩ := h.lock 0 start stop (by rw [hl]; rfl)
    have heq : i = acctMaxFailures - 1 := by
      rcases lt_trichotomy i (acctMaxFailures - 1) with hlt | heq | hgt
      · have hcount := hr.1
        omega
      · exact heq
      · exact absurd hripe (hfirst _ hgt)
    rw [heq,ht,Option.some.injEq] at hi
    exact ⟨stop,by rw [hi]; rfl⟩

end Scheduled

namespace LoginLimiter

variable {l : LoginLimiter} {c : TimedCall}

theorem serve_success (hu : u ≠ "") (h : c.call = .recordSuccess u) :
    (l.serve spare c).accounts.lookup u = none := by
  simp only [serve,h,recordSuccess,if_neg hu]
  exact AList.lookup_erase u _

variable (spare) in
theorem serve_failed (hu : u ≠ "") (hroom : l.accounts.keys.length < maxTrackedAccts)
    (h : failsFor u c = true) : (l.serve spare c).accounts.lookup u =
      some (((l.accounts.lookup u).getD .fresh).fail c.now) := by
  obtain ⟨now,call⟩ := c
  cases call with
  | recordFailure ip user =>
    obtain rfl : user = u := by simpa [failsFor] using h
    simp only [serve,recordFailure,if_neg hu,recordAccount,recordHit_accounts,
      if_neg (Nat.not_le.mpr hroom),AList.lookup_insert]
  | blocked ip user later => cases h
  | recordSuccess user => cases h

variable (spare) in
theorem serve_apart (hroom : ∀ ip user, c.call = .recordFailure ip user →
      l.accounts.keys.length < maxTrackedAccts) (hs : c.call ≠ .recordSuccess u)
    (hf : failsFor u c = false) :
    (l.serve spare c).accounts.lookup u = l.accounts.lookup u := by
  obtain ⟨now,call⟩ := c
  cases call with
  | recordFailure ip user =>
    have hne : user ≠ u := by simpa [failsFor] using hf
    simp only [serve,recordFailure]
    split
    · rw [recordHit_accounts]
    · simp only [recordAccount,recordHit_accounts,if_neg (Nat.not_le.mpr (hroom ip user rfl))]
      exact AList.lookup_insert_ne hne.symm
  | blocked ip user later => simp only [serve,blocked_accounts]
  | recordSuccess user =>
    have hne : u ≠ user := fun he => hs (he ▸ rfl)
    simp only [serve,recordSuccess]
    split
    · rfl
    · exact AList.lookup_erase_ne hne

end LoginLimiter

structure Watch.Keeps (u : String) (now : Int) (w : Watch) : Prop where
  schedule : Scheduled w.streak w.locks
  account : w.limiter.accounts.lookup u = stateAfter w.streak w.locks
  past : ∀ t ∈ w.streak, t ≤ now
  idle : w.streak = [] → w.locks = []

theorem stateAfter_until (ts : List Int) (h : ts = [] → locks = []) :
    ((stateAfter ts locks).getD .fresh).lockoutUntil = lastEnd locks := by
  unfold stateAfter
  split
  · rename_i hts
    rw [h hts]
    rfl
  · rfl

theorem stateAfter_state (ts : List Int) (h : ts = [] → locks = []) :
    (stateAfter ts locks).getD .fresh = ⟨ts.length,lastEnd locks,min locks.length 5⟩ := by
  unfold stateAfter
  split
  · rename_i hts
    rw [h hts,hts]
    rfl
  · rfl

variable (spare) in
theorem Watch.Keeps.serve {w : Watch} {c : TimedCall} {now : Int} (h : w.Keeps u now) (hu : u ≠ "")
    (hnow : now ≤ c.now) (hroom : ∀ ip user, c.call = .recordFailure ip user →
      w.limiter.accounts.keys.length < maxTrackedAccts) :
    (w.serve spare u c).Keeps u c.now := by
  have hpast : ∀ t ∈ w.streak, t ≤ c.now := fun t ht => (h.past t ht).trans hnow
  have hbefore : w.limiter.lockedUntil u = lastEnd w.locks := by
    unfold LoginLimiter.lockedUntil
    rw [h.account]
    exact stateAfter_until w.streak h.idle
  unfold Watch.serve
  dsimp only
  split
  · rename_i hs
    exact ⟨.none_yet,LoginLimiter.serve_success hu hs,(fun _ ht => nomatch ht),fun _ => rfl⟩
  · rename_i hs
    cases hf : failsFor u c with
    | false =>
      have hsame := LoginLimiter.serve_apart spare hroom hs hf
      have hkept : (w.limiter.serve spare c).lockedUntil u = w.limiter.lockedUntil u := by
        unfold LoginLimiter.lockedUntil
        rw [hsame]
      rw [if_neg Bool.false_ne_true,if_pos hkept]
      exact ⟨h.schedule,hsame.trans h.account,hpast,h.idle⟩
    | true =>
      have hfull : w.limiter.accounts.keys.length < maxTrackedAccts := by
        obtain ⟨t,call⟩ := c
        cases call with
        | recordFailure ip user => exact hroom ip user rfl
        | blocked ip user later => cases hf
        | recordSuccess user => cases hf
      have hcounted := LoginLimiter.serve_failed spare hu hfull hf
      rw [h.account,stateAfter_state w.streak h.idle] at hcounted
      have hstreak : ∀ t ∈ w.streak ++ [c.now], t ≤ c.now := by
        intro t ht
        rcases List.mem_append.mp ht with ht | ht
        · exact hpast t ht
        · exact (List.mem_singleton.mp ht).le
      have hne : w.streak ++ [c.now] ≠ [] := by simp
      by_cases hdue : acctMaxFailures ≤ w.streak.length + 1 ∧ lastEnd w.locks < c.now
      · rw [fail_ripe hdue.1 hdue.2] at hcounted
        have hend : (w.limiter.serve spare c).lockedUntil u = c.now + lockTerm w.locks.length := by
          unfold LoginLimiter.lockedUntil
          rw [hcounted]
          rfl
        have hpos := lockTerm_pos w.locks.length
        rw [if_pos rfl,if_neg (by rw [hend,hbefore]; omega),hend]
        refine ⟨h.schedule.locked hpast hdue.1 hdue.2,?_,hstreak,fun he => absurd he hne⟩
        rw [hcounted]
        simp [stateAfter,lastEnd_append]
      · rw [fail_unripe hdue] at hcounted
        have hend : (w.limiter.serve spare c).lockedUntil u = w.limiter.lockedUntil u := by
          rw [hbefore]
          unfold LoginLimiter.lockedUntil
          rw [hcounted]
          rfl
        rw [if_pos rfl,if_pos hend]
        refine ⟨h.schedule.counted hdue,?_,hstreak,fun he => absurd he hne⟩
        rw [hcounted]
        simp [stateAfter]

theorem watch_keeps (hu : u ≠ "") {now : Int} (hord : Ordered cs now) (hroom : Roomy spare cs) :
    (Watch.after spare u cs).Keeps u now := by
  induction cs using List.reverseRecOn generalizing now with
  | nil => exact ⟨.none_yet,rfl,(fun _ h => nomatch h),fun _ => rfl⟩
  | append_singleton cs c ih =>
    obtain ⟨hpairs,hnow⟩ := hord
    rw [List.pairwise_append] at hpairs
    have hearlier : Ordered cs c.now :=
      ⟨hpairs.1,fun d hd => hpairs.2.2 d hd c (List.mem_singleton.mpr rfl)⟩
    have hkept := ih hearlier hroom.init
    have hstep : Watch.after spare u (cs ++ [c]) = (Watch.after spare u cs).serve spare u c := by
      simp [Watch.after]
    rw [hstep]
    have hserved := hkept.serve spare hu le_rfl (fun ip user hc => by
      rw [Watch.after_limiter]
      exact hroom cs c [] ip user rfl hc)
    have hle := hnow c (by simp)
    exact ⟨hserved.schedule,hserved.account,fun t ht => (hserved.past t ht).trans hle,hserved.idle⟩

structure LockSchedule (spare : Nat → List Int) (u : String) (cs : List TimedCall) : Prop where
  schedule : Scheduled (Watch.after spare u cs).streak (Watch.after spare u cs).locks
  account : (LoginLimiter.after spare cs).accounts.lookup u =
    stateAfter (Watch.after spare u cs).streak (Watch.after spare u cs).locks
  shift : ∀ st, (LoginLimiter.after spare cs).accounts.lookup u = some st →
    int64 (baseLockout * 2 ^ st.lockLevel) = baseLockout * 2 ^ st.lockLevel ∧
      0 < baseLockout * 2 ^ st.lockLevel
  first : (∀ t ∈ (Watch.after spare u cs).streak, 0 < t) →
    ∀ t, (Watch.after spare u cs).streak[acctMaxFailures - 1]? = some t →
      ∃ stop, (Watch.after spare u cs).locks[0]? = some (t,stop)

theorem locks_scheduled (hu : u ≠ "") (hord : cs.Pairwise fun c d => c.now ≤ d.now)
    (hroom : Roomy spare cs) : LockSchedule spare u cs := by
  have hall : ∃ now, Ordered cs now := by
    cases hlast : cs.getLast? with
    | none =>
      rw [List.getLast?_eq_none_iff] at hlast
      exact ⟨0,hord,by simp [hlast]⟩
    | some c =>
      obtain ⟨init,rfl⟩ := List.getLast?_eq_some_iff.mp hlast
      refine ⟨c.now,hord,fun d hd => ?_⟩
      rcases List.mem_append.mp hd with hd | hd
      · exact (List.pairwise_append.mp hord).2.2 d hd c (List.mem_singleton.mpr rfl)
      · exact (congrArg TimedCall.now (List.mem_singleton.mp hd)).le
  obtain ⟨now,hnow⟩ := hall
  have hkept := watch_keeps hu hnow hroom
  have haccount := hkept.account
  rw [Watch.after_limiter] at haccount
  refine ⟨hkept.schedule,haccount,fun st hst => ?_,fun hpos t ht => hkept.schedule.first_lock hpos ht⟩
  rw [haccount,stateAfter] at hst
  split at hst
  · cases hst
  · obtain rfl := Option.some.inj hst
    exact doubled_exact (Nat.min_le_right _ _)

def siege : List TimedCall :=
  (List.replicate 11 ⟨1,.recordFailure "ip" "u"⟩) ++
    [⟨minute + 2,.recordFailure "ip" "u"⟩,⟨minute + 3,.recordSuccess "v"⟩]

theorem siege_roomy : Roomy (fun _ => []) siege := by
  have hkeys : ∀ n < 14, (LoginLimiter.after (fun _ => []) (siege.take n)).accounts.keys.length <
      maxTrackedAccts := by decide +kernel
  intro before c rest ip user hcs hc
  have hlen : before.length < siege.length := by
    rw [hcs]
    simp
  have htake : siege.take before.length = before := by
    rw [hcs]
    exact List.take_left
  have hroom := hkeys before.length (hlen.trans_le (by decide))
  rwa [htake] at hroom

theorem siege_locked : LockSchedule (fun _ => []) "u" siege ∧
    (Watch.after (fun _ => []) "u" siege).locks =
      [(1,minute + 1),(minute + 2,3 * minute + 2)] :=
  ⟨locks_scheduled (by decide) (by decide) siege_roomy,by decide +kernel⟩

end Auth
