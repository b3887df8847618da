import ServerHub.Go.Time
import ServerHub.Interleave.Chronicle

namespace Agent

open Interleave

inductive Task where
  | heartbeat
  | metrics
deriving DecidableEq

def Task.other : Task → Task
  | .heartbeat => .metrics
  | .metrics => .heartbeat

def Task.cap : Task → Int
  | .heartbeat => 60 * Go.second
  | .metrics => 120 * Go.second

-- Load refuses intervals that are not positive
structure Config where
  interval : Task → Int
  positive : ∀ t, 0 < interval t

section Backoff

-- for i := 1; i < failures; i++
def grow (cap : Int) : Nat → Int → Int
  | 0, d => d
  | n+1, d => if cap ≤ d * 2 then cap else grow cap n (d * 2)

def backoff (failures : Nat) (interval cap jitter : Int) : Int :=
  if failures = 0 then interval
  else
    let d := grow cap (failures - 1) (5 * Go.second)
    (if cap < d then cap else d) + jitter

theorem grow_exact {cap d : Int} (n : Nat) (hpos : 0 < d) (hcap : d ≤ cap) :
    grow cap n d = min cap (d * 2 ^ n) := by
  induction n generalizing d with
  | zero => simpa [grow] using (Int.min_eq_right hcap).symm
  | succ n ih =>
    have hpow : d * 2 ^ (n + 1) = d * 2 * 2 ^ n := by rw [Int.pow_succ',Int.mul_assoc]
    rw [grow,hpow]
    split
    · rename_i hle
      have hone : (0 : Int) < 2 ^ n := Int.pow_pos (by decide)
      have hmono : d * 2 * 1 ≤ d * 2 * 2 ^ n := Int.mul_le_mul_of_nonneg_left hone (by omega)
      exact (Int.min_eq_left (by omega)).symm
    · exact ih (by omega) (by omega)

theorem backoff_exact {interval cap jitter : Int} (n : Nat) (hcap : 5 * Go.second ≤ cap) :
    backoff (n + 1) interval cap jitter = min cap (5 * Go.second * 2 ^ n) + jitter := by
  have hgrow : grow cap n (5 * Go.second) = min cap (5 * Go.second * 2 ^ n) :=
    grow_exact n (by decide) hcap
  have hle : ¬ cap < min cap (5 * Go.second * 2 ^ n) := Int.not_lt.mpr (Int.min_le_left _ _)
  rw [backoff,if_neg (Nat.succ_ne_zero n)]
  simp only [Nat.add_sub_cancel,hgrow,if_neg hle]

theorem cap_large (t : Task) : 5 * Go.second ≤ t.cap := by cases t <;> decide

end Backoff

structure Report where
  task : Task
  took : Int
  ok : Bool
  jitter : Int
  forward : 0 ≤ took
  early : 0 ≤ jitter
  short : jitter < Go.second

structure Loop where
  now : Int
  failures : Task → Nat
  due : Task → Int

def Loop.begin (now : Int) : Loop := ⟨now,fun _ => 0,fun _ => now⟩

-- when the select takes the timer: at once when it has fired, else when it does
def Loop.fires (l : Loop) (t : Task) : Int := max l.now (l.due t)

-- of two timers that have fired either may be taken
def Loop.Ready (l : Loop) (t : Task) : Prop := l.due t ≤ l.fires t.other

instance (l : Loop) (t : Task) : Decidable (l.Ready t) := inferInstanceAs (Decidable (_ ≤ _))

structure Attempt where
  task : Task
  began : Int
  took : Int
  ok : Bool
  jitter : Int
  delay : Int
deriving DecidableEq

def Attempt.next (a : Attempt) : Int := a.began + a.took + a.delay

section Steps

variable (cfg : Config)

def Loop.counted (l : Loop) (r : Report) : Nat := if r.ok then 0 else l.failures r.task + 1

def Loop.delay (l : Loop) (r : Report) : Int :=
  if r.ok then cfg.interval r.task
  else backoff (l.counted r) (cfg.interval r.task) r.task.cap r.jitter

def Loop.attempt (l : Loop) (r : Report) : Attempt :=
  ⟨r.task,l.fires r.task,r.took,r.ok,r.jitter,l.delay cfg r⟩

def Loop.next (l : Loop) (r : Report) : Loop where
  now := l.fires r.task + r.took
  failures := Function.update l.failures r.task (l.counted r)
  due := Function.update l.due r.task (l.attempt cfg r).next

abbrev Log := List Attempt

def step (x : Loop × Log) (r : Report) : Option (Loop × Log) :=
  if x.1.Ready r.task then some (x.1.next cfg r,x.1.attempt cfg r :: x.2) else none

def run (x : Loop × Log) : List Report → Option (Loop × Log)
  | [] => some x
  | r :: rs => (step cfg x r).bind fun y => run y rs

end Steps

def lastOf (t : Task) (log : Log) : Option Attempt := log.find? fun a => a.task = t

def streak (t : Task) (log : Log) : Nat :=
  ((log.filter fun a => a.task = t).takeWhile fun a => !a.ok).length

def dueAfter (t0 : Int) (t : Task) (log : Log) : Int := ((lastOf t log).map Attempt.next).getD t0

section Invariant

variable (cfg : Config) (limit : Task → Nat) (t0 : Int)

structure Paced (older : Log) (a : Attempt) : Prop where
  backed : a.delay = if a.ok then cfg.interval a.task
    else min a.task.cap (5 * Go.second * 2 ^ streak a.task older) + a.jitter
  jitter : 0 ≤ a.jitter ∧ a.jitter < Go.second
  took : a.took ≤ limit a.task
  after : dueAfter t0 a.task older ≤ a.began
  soon : a.began ≤ dueAfter t0 a.task older + limit a.task.other

structure Steady (x : Loop × Log) : Prop where
  counted : ∀ t, x.1.failures t = streak t x.2
  due : ∀ t, x.1.due t = dueAfter t0 t x.2
  quiet : ∀ t, x.1.due t < x.1.now → x.1.now < x.1.due t.other
  soon : ∀ t, x.1.now ≤ x.1.due t + limit t.other
  paced : Chronicle (Paced cfg limit t0) x.2

variable {cfg limit t0}

theorem steady_begin : Steady cfg limit t0 (Loop.begin t0,[]) where
  counted _ := rfl
  due _ := rfl
  quiet _ h := absurd h (Int.lt_irrefl _)
  soon _ := Int.le_add_of_nonneg_right (Int.natCast_nonneg _)
  paced := trivial

variable {x : Loop × Log} {r : Report}

variable (cfg) in
theorem delay_pos (r : Report) (l : Loop) : 0 < l.delay cfg r := by
  unfold Loop.delay
  split
  · exact cfg.positive r.task
  · rename_i hok
    have hpow : (0 : Int) < 5 * Go.second * 2 ^ l.failures r.task :=
      Int.mul_pos (by decide) (Int.pow_pos (by decide))
    have hcap := cap_large r.task
    have hearly := r.early
    have hfive : (0 : Int) < 5 * Go.second := by decide
    rw [Loop.counted,if_neg hok,backoff_exact _ hcap]
    omega

theorem Task.other_of_ne {t u : Task} (h : t ≠ u) : t = u.other := by
  cases t <;> cases u <;> first | rfl | contradiction

@[simp] theorem Task.other_other (t : Task) : t.other.other = t := by cases t <;> rfl

theorem streak_own {a : Attempt} {log : Log} :
    streak a.task (a :: log) = if a.ok then 0 else streak a.task log + 1 := by
  cases ha : a.ok <;> simp [streak,ha]

theorem streak_other {t : Task} {a : Attempt} {log : Log} (h : a.task ≠ t) :
    streak t (a :: log) = streak t log := by
  simp [streak,h]

theorem dueAfter_own {a : Attempt} {log : Log} : dueAfter t0 a.task (a :: log) = a.next := by
  simp [dueAfter,lastOf]

theorem dueAfter_other {t : Task} {a : Attempt} {log : Log} (h : a.task ≠ t) :
    dueAfter t0 t (a :: log) = dueAfter t0 t log := by
  simp [dueAfter,lastOf,h]

theorem Steady.fires_soon (h : Steady cfg limit t0 x) (hready : x.1.Ready r.task) :
    x.1.fires r.task ≤ x.1.due r.task.other := by
  have hready : x.1.due r.task ≤ max x.1.now (x.1.due r.task.other) := hready
  have hquiet := h.quiet r.task.other
  rw [Task.other_other] at hquiet
  show max x.1.now (x.1.due r.task) ≤ x.1.due r.task.other
  omega

theorem Steady.attempt (h : Steady cfg limit t0 x) (htook : r.took ≤ limit r.task) :
    Paced cfg limit t0 x.2 (x.1.attempt cfg r) where
  backed := by
    show x.1.delay cfg r = _
    unfold Loop.delay
    split
    · rename_i hok
      exact (if_pos hok).symm
    · rename_i hok
      rw [Loop.counted,if_neg hok,backoff_exact _ (cap_large _),h.counted]
      exact (if_neg hok).symm
  jitter := ⟨r.early,r.short⟩
  took := htook
  after := (h.due r.task) ▸ Int.le_max_right _ _
  soon := by
    have hsoon := h.soon r.task
    rw [h.due] at hsoon
    have hdue := h.due r.task
    have hnonneg : (0 : Int) ≤ limit r.task.other := Int.natCast_nonneg _
    show max x.1.now (x.1.due r.task) ≤ _
    rw [hdue]
    exact Int.max_le.mpr ⟨hsoon,Int.le_add_of_nonneg_right hnonneg⟩

theorem Steady.next (h : Steady cfg limit t0 x) (hready : x.1.Ready r.task)
    (htook : r.took ≤ limit r.task) : Steady cfg limit t0 (x.1.next cfg r,x.1.attempt cfg r :: x.2) where
  counted t := by
    show Function.update x.1.failures r.task (x.1.counted r) t = _
    by_cases ht : r.task = t
    · subst ht
      rw [Function.update_self,Loop.counted,h.counted]
      exact (streak_own (a := x.1.attempt cfg r)).symm
    · rw [Function.update_of_ne (Ne.symm ht),h.counted]
      exact (streak_other (a := x.1.attempt cfg r) ht).symm
  due t := by
    show Function.update x.1.due r.task _ t = _
    by_cases ht : r.task = t
    · subst ht
      rw [Function.update_self]
      exact dueAfter_own.symm
    · rw [Function.update_of_ne (Ne.symm ht),h.due]
      exact (dueAfter_other (a := x.1.attempt cfg r) ht).symm
  quiet t := by
    have hpos := delay_pos cfg r x.1
    show Function.update x.1.due r.task (x.1.attempt cfg r).next t < x.1.fires r.task + r.took →
      x.1.fires r.task + r.took < Function.update x.1.due r.task (x.1.attempt cfg r).next t.other
    have hnext : (x.1.attempt cfg r).next = x.1.fires r.task + r.took + x.1.delay cfg r := rfl
    by_cases ht : t = r.task
    · subst ht
      rw [Function.update_self]
      omega
    · obtain rfl := Task.other_of_ne ht
      rw [Task.other_other,Function.update_self]
      omega
  soon t := by
    have hpos := delay_pos cfg r x.1
    show x.1.fires r.task + r.took ≤ Function.update x.1.due r.task (x.1.attempt cfg r).next t + _
    have hnext : (x.1.attempt cfg r).next = x.1.fires r.task + r.took + x.1.delay cfg r := rfl
    by_cases ht : t = r.task
    · subst ht
      rw [Function.update_self]
      omega
    · obtain rfl := Task.other_of_ne ht
      have hfires := h.fires_soon hready
      rw [Task.other_other,Function.update_of_ne ht]
      omega
  paced := ⟨h.attempt htook,h.paced⟩

theorem Steady.run (h : Steady cfg limit t0 x) {rs : List Report} {y : Loop × Log}
    (htook : ∀ r ∈ rs, r.took ≤ limit r.task) (hrun : run cfg x rs = some y) :
    Steady cfg limit t0 y := by
  induction rs generalizing x with
  | nil =>
    obtain rfl := Option.some.inj hrun
    exact h
  | cons r rs ih =>
    obtain ⟨z,hstep,hrest⟩ := Option.bind_eq_some_iff.mp hrun
    unfold step at hstep
    split at hstep
    · rename_i hready
      obtain rfl := Option.some.inj hstep
      exact ih (h.next hready (htook r List.mem_cons_self)) (fun r hr => htook r (List.mem_cons_of_mem _ hr))
        hrest
    · cases hstep

end Invariant

section Runs

variable {cfg : Config} {limit : Task → Nat} {t0 : Int} {rs : List Report} {l : Loop} {log : Log}

theorem lastOf_split {between older : Log} {b : Attempt} (h : ∀ c ∈ between, c.task ≠ b.task) :
    lastOf b.task (between ++ b :: older) = some b := by
  rw [lastOf,List.find?_append,List.find?_eq_none.mpr fun c hc => by simpa using h c hc]
  simp

def Config.wait (cfg : Config) (t : Task) : Int := max (cfg.interval t) (t.cap + Go.second)

theorem Paced.delay_le {older : Log} {a : Attempt} (h : Paced cfg limit t0 older a) :
    a.delay ≤ cfg.wait a.task := by
  have hbacked := h.backed
  have hjitter := h.jitter.2
  unfold Config.wait
  split at hbacked
  · omega
  · omega

theorem took_bounded (rs : List Report) : ∃ m : Nat, ∀ r ∈ rs, r.took ≤ m := by
  induction rs with
  | nil => exact ⟨0,List.forall_mem_nil _⟩
  | cons r rs ih =>
    obtain ⟨m,hm⟩ := ih
    refine ⟨m + r.took.toNat,List.forall_mem_cons.mpr ⟨by omega,fun q hq => ?_⟩⟩
    have hq := hm q hq
    omega

theorem retries_backed_off (hrun : run cfg (Loop.begin t0,[]) rs = some (l,log)) {newer older : Log}
    {a : Attempt} (hlog : log = newer ++ a :: older) :
    a.delay = if a.ok then cfg.interval a.task
      else min a.task.cap (5 * Go.second * 2 ^ streak a.task older) + a.jitter := by
  obtain ⟨m,hm⟩ := took_bounded rs
  have hsteady : Steady cfg (fun _ => m) t0 (l,log) := steady_begin.run hm hrun
  exact (hlog ▸ hsteady.paced).at.1.backed

theorem attempts_timely (htook : ∀ r ∈ rs, r.took ≤ limit r.task)
    (hrun : run cfg (Loop.begin t0,[]) rs = some (l,log)) {newer between older : Log} {a b : Attempt}
    (hlog : log = newer ++ a :: (between ++ b :: older)) (hab : a.task = b.task)
    (hbetween : ∀ c ∈ between, c.task ≠ b.task) :
    b.began + b.took + b.delay ≤ a.began ∧
      a.began ≤ b.began + limit b.task + cfg.wait b.task + limit b.task.other := by
  obtain ⟨hpaced,hold⟩ := (hlog ▸ (steady_begin.run htook hrun).paced).at
  have hb : Paced cfg limit t0 older b := hold.at.1
  have hdue : dueAfter t0 a.task (between ++ b :: older) = b.began + b.took + b.delay := by
    rw [hab,dueAfter,lastOf_split hbetween]
    rfl
  have hafter := hpaced.after
  have hsoon := hpaced.soon
  have htook := hb.took
  have hdelay := hb.delay_le
  rw [hdue] at hafter hsoon
  rw [hab] at hsoon
  exact ⟨hafter,by omega⟩

end Runs

section Instances

def usual : Config := ⟨fun t => match t with
  | .heartbeat => 30 * Go.second
  | .metrics => 60 * Go.second,fun t => by cases t <;> decide⟩

-- fifteen seconds for an exchange, one more to sample the processor
def promptly : Task → Nat
  | .heartbeat => 15000000000
  | .metrics => 16000000000

def lost (t : Task) (took : Int) (h : 0 ≤ took) : Report := ⟨t,took,false,0,h,by decide,by decide⟩

def outage : List Report :=
  [lost .heartbeat 15000000000 (by decide),lost .metrics 16000000000 (by decide),
    lost .heartbeat 15000000000 (by decide)]

def firstLost : Attempt := ⟨.heartbeat,0,15000000000,false,0,5000000000⟩

def metricsLost : Attempt := ⟨.metrics,15000000000,16000000000,false,0,5000000000⟩

def secondLost : Attempt := ⟨.heartbeat,31000000000,15000000000,false,0,10000000000⟩

def outageLog : Log := [secondLost,metricsLost,firstLost]

theorem outage_run : ∃ l, run usual (Loop.begin 0,[]) outage = some (l,outageLog) := by
  have hrun : (run usual (Loop.begin 0,[]) outage).map Prod.snd = some outageLog := by
    decide +kernel
  obtain ⟨⟨l,log⟩,hl,rfl⟩ := Option.map_eq_some_iff.mp hrun
  exact ⟨l,hl⟩

theorem outage_prompt : ∀ r ∈ outage, r.took ≤ promptly r.task := by decide

theorem second_failure_doubles : (10000000000 : Int) =
    min (Task.cap .heartbeat) (5 * Go.second * 2 ^ streak .heartbeat outageLog.tail) + 0 := by
  obtain ⟨l,hl⟩ := outage_run
  have hlog : outageLog = [] ++ secondLost :: outageLog.tail := rfl
  exact retries_backed_off hl hlog

-- far below the three minutes after which the server gives an agent up
theorem outage_timely : (31000000000 : Int) ≤
    0 + promptly .heartbeat + usual.wait .heartbeat + promptly .metrics ∧
    usual.wait .heartbeat + promptly .heartbeat + promptly .metrics < 180 * Go.second := by
  obtain ⟨l,hl⟩ := outage_run
  have hlog : outageLog = [] ++ secondLost :: ([metricsLost] ++ firstLost :: []) := rfl
  have htimely := attempts_timely outage_prompt hl hlog rfl (by simp [metricsLost,firstLost])
  exact ⟨htimely.2,by decide⟩

end Instances

end Agent
