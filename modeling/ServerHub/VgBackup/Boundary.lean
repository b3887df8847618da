import Mathlib.Order.Bounds.Basic
import ServerHub.VgBackup.StatusMachine

namespace VgBackup

section Intervals

variable {T : Type} [LinearOrder T]

def intervals (last : T) : List T → List (T × T)
  | [] => []
  | now :: ticks => (last,now) :: intervals now ticks

theorem intervals_ordered {last : T} {ticks : List T} (h : List.IsChain (· < ·) (last :: ticks)) :
    ∀ iv ∈ intervals last ticks, last ≤ iv.1 ∧ iv.1 < iv.2 := by
  induction ticks generalizing last with
  | nil => simp [intervals]
  | cons now ticks ih =>
    rw [List.isChain_cons_cons] at h
    intro iv hiv
    rcases List.mem_cons.mp hiv with rfl | hiv
    · exact ⟨le_refl last,h.1⟩
    · obtain ⟨h1,h2⟩ := ih h.2 iv hiv
      exact ⟨h.1.le.trans h1,h2⟩

theorem picks_ascending {pick : T × T → Option T} {last : T} {ticks : List T}
    (h : List.IsChain (· < ·) (last :: ticks))
    (hp : ∀ iv ∈ intervals last ticks, ∀ b, pick iv = some b → iv.1 < b ∧ b ≤ iv.2) :
    ((intervals last ticks).filterMap pick).Pairwise (· < ·) := by
  induction ticks generalizing last with
  | nil => simp [intervals]
  | cons now ticks ih =>
    rw [List.isChain_cons_cons] at h
    have hrest := ih h.2 fun iv hiv => hp iv (List.mem_cons_of_mem _ hiv)
    rw [intervals,List.filterMap_cons]
    cases hb : pick (last,now) with
    | none => exact hrest
    | some b =>
      refine List.pairwise_cons.mpr ⟨?_,hrest⟩
      intro c hc
      obtain ⟨iv,hiv,hpick⟩ := List.mem_filterMap.mp hc
      have hle : b ≤ now := (hp (last,now) List.mem_cons_self b hb).2
      have hnow : now ≤ iv.1 := (intervals_ordered h.2 iv hiv).1
      have hlt : iv.1 < c := (hp iv (List.mem_cons_of_mem _ hiv) c hpick).1
      exact (hle.trans hnow).trans_lt hlt

end Intervals

structure CronNext (next : Time → Time) (active : Time → Prop) (horizon : Time → Time) : Prop where
  found : ∀ t, (∃ a, active a ∧ t < a ∧ a ≤ horizon t) → IsLeast {a | active a ∧ t < a} (next t)
  exhausted : ∀ t, (¬ ∃ a, active a ∧ t < a ∧ a ≤ horizon t) → next t = zeroTime

def due (active : Time → Prop) (prev now : Time) : Set Time :=
  {a | active a ∧ prev < a ∧ a ≤ now}

def AnswersDue (answer : Option Time) (dues : Set Time) : Prop :=
  (answer.isSome = true ↔ dues.Nonempty) ∧ ∀ b, answer = some b → IsLeast dues b

def Foreseen (active : Time → Prop) (horizon : Time → Time) (prev now : Time) : Prop :=
  (∃ a, active a ∧ prev < a ∧ a ≤ horizon prev) ∨
  (now < zeroTime ∧ ∀ a, active a → prev < a → now < a) ∨
  (prev < zeroTime ∧ zeroTime ≤ now ∧ active zeroTime ∧ ∀ a, active a → prev < a → zeroTime ≤ a)

theorem answersDue_least {active : Time → Prop} {prev now next : Time}
    (h : IsLeast {a | active a ∧ prev < a} next) :
    AnswersDue (if now < next then none else some next) (due active prev now) := by
  obtain ⟨⟨hact,hlt⟩,hlow⟩ := h
  by_cases hn : now < next
  · rw [if_pos hn]
    refine ⟨⟨by simp,?_⟩,by simp⟩
    rintro ⟨a,ha,hpa,han⟩
    exact absurd (hlow ⟨ha,hpa⟩) (not_le.mpr (han.trans_lt hn))
  · rw [if_neg hn]
    have hmem : next ∈ due active prev now := ⟨hact,hlt,not_lt.mp hn⟩
    refine ⟨⟨fun _ => ⟨next,hmem⟩,fun _ => rfl⟩,?_⟩
    rintro b hb
    obtain rfl := Option.some.inj hb
    exact ⟨hmem,fun a ha => hlow ⟨ha.1,ha.2.1⟩⟩

theorem answersDue_zero {active : Time → Prop} {prev now : Time} :
    AnswersDue (if now < zeroTime then none else some zeroTime) (due active prev now) ↔
      (now < zeroTime ∧ ∀ a, active a → prev < a → now < a) ∨
      (prev < zeroTime ∧ zeroTime ≤ now ∧ active zeroTime ∧
        ∀ a, active a → prev < a → zeroTime ≤ a) := by
  by_cases hn : now < zeroTime
  · rw [if_pos hn]
    refine ⟨?_,?_⟩
    · rintro ⟨hsome,-⟩
      refine .inl ⟨hn,fun a ha hpa => ?_⟩
      by_contra hle
      have hfalse := hsome.mpr ⟨a,ha,hpa,not_lt.mp hle⟩
      simp at hfalse
    · rintro (⟨-,hall⟩ | ⟨-,hle,-⟩)
      · refine ⟨⟨by simp,?_⟩,by simp⟩
        rintro ⟨a,ha,hpa,han⟩
        exact absurd (hall a ha hpa) (not_lt.mpr han)
      · exact absurd hn (not_lt.mpr hle)
  · rw [if_neg hn]
    refine ⟨?_,?_⟩
    · rintro ⟨-,hleast⟩
      obtain ⟨⟨hact,hlt,hle⟩,hlow⟩ := hleast zeroTime rfl
      refine .inr ⟨hlt,hle,hact,fun a ha hpa => ?_⟩
      rcases le_or_gt a now with han | hna
      · exact hlow ⟨ha,hpa,han⟩
      · exact hle.trans hna.le
    · rintro (⟨hlt,-⟩ | ⟨hlt,hle,hact,hall⟩)
      · exact absurd hlt hn
      · refine ⟨⟨fun _ => ⟨zeroTime,hact,hlt,hle⟩,fun _ => rfl⟩,?_⟩
        rintro b hb
        obtain rfl := Option.some.inj hb
        exact ⟨⟨hact,hlt,hle⟩,fun a ha => hall a ha.1 ha.2.1⟩

theorem boundaryFor_next {env : Env} {cronExpr timezone : String}
    {sched : String → Time → Time} (hparse : env.parseCron cronExpr = .ok sched)
    (hempty : ∀ sched, env.parseCron "" ≠ .ok sched) (prev now : Time) :
    boundaryFor env cronExpr timezone prev now =
      if now < sched (scheduleLocation env timezone) prev then none
      else some (sched (scheduleLocation env timezone) prev) := by
  have hne : cronExpr ≠ "" := by
    rintro rfl
    exact hempty sched hparse
  simp only [boundaryFor,if_neg hne,hparse]

theorem boundaryFor_due {env : Env} {cronExpr timezone : String} {sched : String → Time → Time}
    {active : Time → Prop} {horizon : Time → Time} (hparse : env.parseCron cronExpr = .ok sched)
    (hempty : ∀ sched, env.parseCron "" ≠ .ok sched)
    (hcron : CronNext (sched (scheduleLocation env timezone)) active horizon) (prev now : Time) :
    AnswersDue (boundaryFor env cronExpr timezone prev now) (due active prev now) ↔
      Foreseen active horizon prev now := by
  rw [boundaryFor_next hparse hempty]
  by_cases hf : ∃ a, active a ∧ prev < a ∧ a ≤ horizon prev
  · exact ⟨fun _ => .inl hf,fun _ => answersDue_least (hcron.found prev hf)⟩
  · rw [hcron.exhausted prev hf,answersDue_zero,Foreseen]
    simp only [hf,false_or]

structure FiresOnTime (env : Env) (cronExpr timezone : String) (active : Time → Prop)
    (lastTick : Time) (ticks : List Time) : Prop where
  answers : ∀ iv ∈ intervals lastTick ticks,
    AnswersDue (boundaryFor env cronExpr timezone iv.1 iv.2) (due active iv.1 iv.2)
  once : ((intervals lastTick ticks).filterMap fun iv =>
    boundaryFor env cronExpr timezone iv.1 iv.2).Nodup

theorem fires_on_time_iff (env : Env) (cronExpr timezone : String) (sched : String → Time → Time)
    (active : Time → Prop) (horizon : Time → Time) (hparse : env.parseCron cronExpr = .ok sched)
    (hempty : ∀ sched, env.parseCron "" ≠ .ok sched)
    (hcron : CronNext (sched (scheduleLocation env timezone)) active horizon)
    (lastTick : Time) (ticks : List Time) (hticks : List.IsChain (· < ·) (lastTick :: ticks)) :
    FiresOnTime env cronExpr timezone active lastTick ticks ↔
      ∀ iv ∈ intervals lastTick ticks, Foreseen active horizon iv.1 iv.2 := by
  have hone := boundaryFor_due hparse hempty hcron
  refine ⟨fun h iv hiv => (hone iv.1 iv.2).mp (h.answers iv hiv),?_⟩
  intro h
  have hanswers : ∀ iv ∈ intervals lastTick ticks,
      AnswersDue (boundaryFor env cronExpr timezone iv.1 iv.2) (due active iv.1 iv.2) :=
    fun iv hiv => (hone iv.1 iv.2).mpr (h iv hiv)
  refine ⟨hanswers,?_⟩
  have hpick : ∀ iv ∈ intervals lastTick ticks, ∀ b,
      boundaryFor env cronExpr timezone iv.1 iv.2 = some b → iv.1 < b ∧ b ≤ iv.2 := by
    intro iv hiv b hb
    obtain ⟨⟨-,h1,h2⟩,-⟩ := (hanswers iv hiv).2 b hb
    exact ⟨h1,h2⟩
  exact (picks_ascending hticks hpick).imp ne_of_lt

def minute : Int := 60 * second

def everyMinute (t : Time) : Time := (t / minute + 1) * minute

def fiveYears (t : Time) : Time := t + 5 * 365 * 24 * 60 * minute

def cronEnv : Env :=
  { sampleEnv with
    parseCron := fun expr =>
      if expr = "* * * * *" then .ok fun _ => everyMinute
      else if expr = "0 0 30 2 *" then .ok fun _ _ => zeroTime
      else .error "empty spec string" }

theorem everyMinute_soon (t : Time) :
    minute ∣ everyMinute t ∧ t < everyMinute t ∧ everyMinute t ≤ fiveYears t := by
  have hpos : (0 : Int) < minute := by decide
  have hle : t / minute * minute ≤ t := Int.ediv_mul_le t (Int.ne_of_gt hpos)
  have hstep : everyMinute t = t / minute * minute + minute := by
    rw [everyMinute,Int.add_mul,Int.one_mul]
  have hfar : minute ≤ 5 * 365 * 24 * 60 * minute := by decide
  refine ⟨⟨_,Int.mul_comm _ _⟩,Int.lt_ediv_add_one_mul_self t hpos,?_⟩
  rw [hstep,fiveYears]
  exact Int.add_le_add hle hfar

theorem everyMinute_next : CronNext everyMinute (fun a => minute ∣ a) fiveYears := by
  have hpos : (0 : Int) < minute := by decide
  refine ⟨?_,fun t hn => absurd ⟨everyMinute t,everyMinute_soon t⟩ hn⟩
  intro t _
  obtain ⟨hdvd,hlt,-⟩ := everyMinute_soon t
  refine ⟨⟨hdvd,hlt⟩,?_⟩
  rintro a ⟨⟨k,rfl⟩,hlow⟩
  have hk : t / minute < k := Int.ediv_lt_of_lt_mul hpos (by rwa [Int.mul_comm])
  calc everyMinute t = (t / minute + 1) * minute := rfl
    _ ≤ k * minute := Int.mul_le_mul_of_nonneg_right hk (Int.le_of_lt hpos)
    _ = minute * k := Int.mul_comm _ _

theorem minutely_ticks :
    FiresOnTime cronEnv "* * * * *" "UTC" (fun a => minute ∣ a) 0 [minute,3 * minute] := by
  refine (fires_on_time_iff cronEnv "* * * * *" "UTC" (fun _ => everyMinute) _ fiveYears rfl
    (by simp [cronEnv]) everyMinute_next 0 _ (by decide)).mpr ?_
  intro iv _
  exact .inl ⟨everyMinute iv.1,everyMinute_soon iv.1⟩

theorem february_30_fires :
    CronNext (fun _ => zeroTime) (fun _ => False) fiveYears ∧
    ¬ FiresOnTime cronEnv "0 0 30 2 *" "UTC" (fun _ => False) second [2 * second] := by
  refine ⟨⟨by simp,fun _ _ => rfl⟩,?_⟩
  intro h
  have hans := (h.answers (second,2 * second) (by simp [intervals])).1
  have hsome : (boundaryFor cronEnv "0 0 30 2 *" "UTC" second (2 * second)).isSome = true := by
    decide
  obtain ⟨a,ha,-⟩ := hans.mp hsome
  exact ha

end VgBackup
