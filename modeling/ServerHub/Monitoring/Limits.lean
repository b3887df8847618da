import Mathlib.Algebra.Order.Ring.Int
import Mathlib.Data.List.Infix
import Mathlib.Tactic.Ring
import ServerHub.Monitoring.Validate

namespace Monitoring

open Go

variable {s rest ds : List Char} {g : Group} {gs : List Group} {n m : Nat} {w : Int}
  {start stop step : String}

structure WithinLimits (start stop step : String) (w : Int) : Prop where
  window : ∃ s e, atoi (trimSpace start) = some s ∧ atoi (trimSpace stop) = some e ∧ e - s = w
  width : 0 < w ∧ w ≤ maxRangeSeconds
  step : ∃ d, promMillis (trimSpace step).toList = some d ∧ minStepSeconds * 1000 ≤ d ∧ d ≤ w * 1000

def StepLimits (step : String) : Prop :=
  ∀ start stop w, validateWindow start stop = .ok w → validateStep step w = .ok () →
    WithinLimits start stop step w

section Counting

def Group.value (g : Group) : Int := ((digits g.1).getD 0 : Nat)

def seconds (gs : List Group) : Int :=
  (gs.map fun g => if g.2 = ms then 0 else g.value * mult g.2).sum

def shortMillis (gs : List Group) : Int := (gs.map fun g => if g.2 = ms then g.value else 0).sum

def shortGroups (gs : List Group) : Int := (gs.map fun g => if g.2 = ms then 1 else 0).sum

-- the sum of the groups in an int64, a group of milliseconds counted as one second
def Group.worth (g : Group) : Int := if g.2 = ms then 1 else parseIgnoring g.1 * mult g.2

def tally (gs : List Group) : Int := int64 (gs.map Group.worth).sum

-- at some group with another unit than ms the tally is above the cap
def Overruns (gs : List Group) : Prop :=
  ∃ front g back, gs = front ++ g :: back ∧ g.2 ≠ ms ∧ maxRangeSeconds < tally (front ++ [g])

def Refused (gs : List Group) : Prop :=
  Overruns gs ∨ tally gs < minStepSeconds ∨ maxRangeSeconds < tally gs

structure CountedWell (gs : List Group) : Prop where
  whole : seconds gs ≤ maxRangeSeconds
  short : shortMillis gs ≤ 1000 * shortGroups gs
  enough : minStepSeconds * 1000 ≤ 1000 * seconds gs + shortMillis gs

def StepCounted (step : String) : Prop :=
  ∀ gs, atoi (trimSpace step) = none → groups (trimSpace step).toList = some gs →
    Refused gs ∨ CountedWell gs

end Counting

structure Group.Wellformed (g : Group) : Prop where
  number : g.1 ≠ [] ∧ ∀ c ∈ g.1, isDigit c = true
  unit : g.2 ∈ units

section Scanning

theorem scan_length (s : List Char) : (scan s).2.length + (scan s).1.1.length + (scan s).1.2.length =
    s.length := by
  have hdigits := congrArg List.length (List.takeWhile_append_dropWhile (p := isDigit) (l := s))
  have hunit := congrArg List.length (List.takeWhile_append_dropWhile
    (p := fun c => !isDigit c) (l := s.dropWhile isDigit))
  simp only [List.length_append] at hdigits hunit
  simp only [scan]
  omega

theorem unit_ne_nil (h : g.2 ∈ units) : g.2 ≠ [] := by
  intro he
  rw [he] at h
  exact absurd h (by decide)

theorem groupsOf_cons (h : groupsOf (n + 1) s = some gs) :
    (scan s).1.Wellformed ∧ (((scan s).2 = [] ∧ gs = [(scan s).1]) ∨
      ∃ tail, (scan s).2 ≠ [] ∧ groupsOf n (scan s).2 = some tail ∧ gs = (scan s).1 :: tail) := by
  rw [groupsOf] at h
  dsimp only at h
  split at h
  · rename_i hg
    refine ⟨⟨⟨hg.1,fun c hc => List.mem_takeWhile_imp hc⟩,hg.2⟩,?_⟩
    split at h
    · rename_i hrest
      exact .inl ⟨hrest,(Option.some.inj h).symm⟩
    · rename_i hrest
      obtain ⟨tail,htail,rfl⟩ := Option.map_eq_some_iff.mp h
      exact .inr ⟨tail,hrest,htail,rfl⟩
  · cases h

theorem groupsOf_wellformed (h : groupsOf n s = some gs) :
    (∀ g ∈ gs, g.Wellformed) ∧ 2 * gs.length ≤ s.length := by
  induction n generalizing s gs with
  | zero => cases h
  | succ n ih =>
    have hlength := scan_length s
    obtain ⟨hg,⟨-,rfl⟩ | ⟨tail,-,htail,rfl⟩⟩ := groupsOf_cons h
    · have hnumber := List.length_pos_iff.mpr hg.number.1
      have hunit := List.length_pos_iff.mpr (unit_ne_nil hg.unit)
      refine ⟨fun g hm => ?_,?_⟩
      · rwa [List.mem_singleton.mp hm]
      · rw [List.length_singleton]
        omega
    · have hnumber := List.length_pos_iff.mpr hg.number.1
      have hunit := List.length_pos_iff.mpr (unit_ne_nil hg.unit)
      obtain ⟨hall,hlen⟩ := ih htail
      refine ⟨fun g hm => ?_,?_⟩
      · rcases List.mem_cons.mp hm with rfl | hm
        · exact hg
        · exact hall g hm
      · rw [List.length_cons]
        omega

end Scanning

section Loop

def sumFold : Int → List Group → Int
  | total, [] => total
  | total, g :: gs =>
      if g.2 = ms then sumFold (int64 (total + 1)) gs
      else if maxRangeSeconds < int64 (total + int64 (parseIgnoring g.1 * mult g.2)) then
        int64 (total + int64 (parseIgnoring g.1 * mult g.2))
      else sumFold (int64 (total + int64 (parseIgnoring g.1 * mult g.2))) gs

theorem sumGroups_eq (h : groupsOf n s = some gs) (hm : s.length ≤ m) (total : Int) :
    sumGroups m total s = sumFold total gs := by
  induction n generalizing s gs m total with
  | zero => cases h
  | succ n ih =>
    have hlength := scan_length s
    obtain ⟨hg,hcases⟩ := groupsOf_cons h
    have hnumber := List.length_pos_iff.mpr hg.number.1
    have hne : s ≠ [] := by
      rintro rfl
      rw [List.length_nil] at hlength
      omega
    obtain ⟨k,rfl⟩ : ∃ k, m = k + 1 := ⟨m - 1,by omega⟩
    have hend : ∀ (k : Nat) (t : Int), sumGroups k t [] = t := by
      intro k t
      cases k with
      | zero => rfl
      | succ k => rfl
    rw [sumGroups,if_neg hne]
    dsimp only
    rcases hcases with ⟨hrest,rfl⟩ | ⟨tail,-,htail,rfl⟩
    · simp only [hrest,hend,sumFold]
    · have hk : (scan s).2.length ≤ k := by omega
      simp only [sumFold,ih htail hk]

theorem sumFold_eq (gs : List Group) (a : Int) :
    (maxRangeSeconds < sumFold (int64 a) gs ∧ ∃ front g back, gs = front ++ g :: back ∧ g.2 ≠ ms ∧
        maxRangeSeconds < int64 (a + ((front ++ [g]).map Group.worth).sum)) ∨
      (sumFold (int64 a) gs = int64 (a + (gs.map Group.worth).sum) ∧
        ∀ front g back, gs = front ++ g :: back → g.2 ≠ ms →
          ¬maxRangeSeconds < int64 (a + ((front ++ [g]).map Group.worth).sum)) := by
  induction gs generalizing a with
  | nil => exact .inr ⟨by simp [sumFold],fun front g back h => by simp at h⟩
  | cons g gs ih =>
    have hstep : ∀ b, g.worth = b → (front : List Group) → (x : Group) →
        a + b + ((front ++ [x]).map Group.worth).sum =
          a + ((g :: front ++ [x]).map Group.worth).sum := by
      rintro b rfl front x
      simp only [List.cons_append,List.map_cons,List.sum_cons]
      ring
    by_cases hms : g.2 = ms
    · have hworth : g.worth = 1 := if_pos hms
      rw [sumFold,if_pos hms,int64_add_left]
      rcases ih (a + 1) with ⟨hover,front,x,back,rfl,hx,hlate⟩ | ⟨hsum,hnone⟩
      · refine .inl ⟨hover,g :: front,x,back,rfl,hx,?_⟩
        rwa [hstep 1 hworth] at hlate
      · refine .inr ⟨?_,?_⟩
        · rw [hsum,List.map_cons,List.sum_cons,hworth,add_assoc]
        · intro front x back hgs hx hlate
          cases front with
          | nil =>
            obtain ⟨rfl,-⟩ := List.cons.inj hgs
            exact hx hms
          | cons y front =>
            obtain ⟨rfl,hrest⟩ := List.cons.inj hgs
            refine hnone front x back hrest hx ?_
            rwa [hstep 1 hworth]
    · have hworth : g.worth = parseIgnoring g.1 * mult g.2 := if_neg hms
      rw [sumFold,if_neg hms,int64_add_left,int64_add_right]
      generalize hb : parseIgnoring g.1 * mult g.2 = b at hworth ⊢
      split
      · rename_i hover
        exact .inl ⟨hover,[],g,gs,rfl,hms,by simpa [hworth] using hover⟩
      · rename_i hunder
        rcases ih (a + b) with ⟨hover,front,x,back,rfl,hx,hlate⟩ | ⟨hsum,hnone⟩
        · refine .inl ⟨hover,g :: front,x,back,rfl,hx,?_⟩
          rwa [hstep b hworth] at hlate
        · refine .inr ⟨?_,?_⟩
          · rw [hsum,List.map_cons,List.sum_cons,hworth,add_assoc]
          · intro front x back hgs hx hlate
            cases front with
            | nil =>
              obtain ⟨rfl,-⟩ := List.cons.inj hgs
              exact hunder (by simpa [hworth] using hlate)
            | cons y front =>
              obtain ⟨rfl,hrest⟩ := List.cons.inj hgs
              refine hnone front x back hrest hx ?_
              rwa [hstep b hworth]

theorem sumGroups_tally (h : groups s = some gs) :
    (Overruns gs ∧ maxRangeSeconds < sumGroups s.length 0 s) ∨
      (¬Overruns gs ∧ sumGroups s.length 0 s = tally gs) := by
  have hzero : int64 0 = 0 := by decide
  have hloop := sumFold_eq gs 0
  simp only [hzero,zero_add] at hloop
  rw [sumGroups_eq h (le_refl _)]
  rcases hloop with ⟨hover,front,g,back,hgs,hg,hlate⟩ | ⟨hsum,hnone⟩
  · exact .inl ⟨⟨front,g,back,hgs,hg,hlate⟩,hover⟩
  · exact .inr ⟨fun ⟨front,g,back,hgs,hg,hlate⟩ => hnone front g back hgs hg hlate,hsum⟩

end Loop

section Sums

theorem value_nonneg (g : Group) : 0 ≤ g.value := Int.natCast_nonneg _

theorem mult_pos (hu : g.2 ∈ units) (hms : g.2 ≠ ms) : 1 ≤ mult g.2 := by
  simp only [units,List.mem_cons,List.not_mem_nil,or_false] at hu
  rcases hu with hu | hu | hu | hu | hu | hu | hu
  · exact absurd hu hms
  all_goals rw [hu]; decide

theorem seconds_cons : seconds (g :: gs) =
    (if g.2 = ms then 0 else g.value * mult g.2) + seconds gs := by
  simp [seconds]

theorem shortMillis_cons : shortMillis (g :: gs) = (if g.2 = ms then g.value else 0) + shortMillis gs := by
  simp [shortMillis]

theorem shortGroups_cons : shortGroups (g :: gs) = (if g.2 = ms then 1 else 0) + shortGroups gs := by
  simp [shortGroups]

theorem sums_nonneg (h : ∀ g ∈ gs, g.Wellformed) :
    0 ≤ seconds gs ∧ 0 ≤ shortMillis gs ∧ 0 ≤ shortGroups gs ∧ shortGroups gs ≤ gs.length := by
  induction gs with
  | nil => simp [seconds,shortMillis,shortGroups]
  | cons g gs ih =>
    obtain ⟨hs,hm,hg,hlen⟩ := ih fun g hm => h g (List.mem_cons_of_mem _ hm)
    have hvalue := value_nonneg g
    rw [seconds_cons,shortMillis_cons,shortGroups_cons,List.length_cons]
    by_cases hms : g.2 = ms
    · simp only [hms,if_true]
      omega
    · have hworth : 0 ≤ g.value * mult g.2 :=
        mul_nonneg hvalue (by have := mult_pos (h g List.mem_cons_self).unit hms; omega)
      simp only [hms,if_false]
      omega

theorem millis_eq (gs : List Group) :
    (gs.map Group.millis).sum = 1000 * seconds gs + shortMillis gs := by
  induction gs with
  | nil => rfl
  | cons g gs ih =>
    rw [List.map_cons,List.sum_cons,ih,seconds_cons,shortMillis_cons,Group.millis,← Group.value]
    split <;> ring

theorem parseIgnoring_eq (h : g.Wellformed) : parseIgnoring g.1 = min g.value maxDuration := by
  simp [parseIgnoring,Group.value,digits_of_all h.number.1 h.number.2]

theorem worth_eq (h : ∀ g ∈ gs, g.Wellformed) (hs : seconds gs ≤ maxRangeSeconds) :
    (gs.map Group.worth).sum = seconds gs + shortGroups gs := by
  induction gs with
  | nil => rfl
  | cons g gs ih =>
    have hg := h g List.mem_cons_self
    have htail : ∀ g ∈ gs, g.Wellformed := fun g hm => h g (List.mem_cons_of_mem _ hm)
    have hnonneg := (sums_nonneg htail).1
    rw [seconds_cons] at hs
    rw [List.map_cons,List.sum_cons,seconds_cons,shortGroups_cons,Group.worth]
    by_cases hms : g.2 = ms
    · simp only [hms,if_true,zero_add] at hs ⊢
      rw [ih htail hs]
      ring
    · simp only [hms,if_false] at hs ⊢
      have hvalue := value_nonneg g
      have hmult := mult_pos hg.unit hms
      have hle : g.value ≤ g.value * mult g.2 := le_mul_of_one_le_right hvalue hmult
      have hsmall : g.value ≤ maxDuration := by
        unfold maxRangeSeconds at hs
        unfold maxDuration
        omega
      rw [parseIgnoring_eq hg,min_eq_left hsmall,ih htail (by omega)]
      ring

theorem tally_le (h : ∀ g ∈ gs, g.Wellformed) (hs : seconds gs ≤ maxRangeSeconds) :
    tally gs ≤ seconds gs + shortGroups gs := by
  obtain ⟨hseconds,-,hgroups,-⟩ := sums_nonneg h
  rw [tally,worth_eq h hs]
  unfold int64
  have hnonneg : 0 ≤ seconds gs + shortGroups gs := by omega
  generalize seconds gs + shortGroups gs = x at hnonneg ⊢
  simp only [Int.bmod]
  split <;> omega

theorem tally_exact (h : ∀ g ∈ gs, g.Wellformed) (hs : seconds gs ≤ maxRangeSeconds)
    (hlen : 2 * gs.length < 2 ^ 63) : tally gs = seconds gs + shortGroups gs := by
  obtain ⟨hseconds,-,hgroups,hmany⟩ := sums_nonneg h
  unfold maxRangeSeconds at hs
  rw [tally,worth_eq h hs,int64_eq]
  all_goals unfold maxDuration; omega

end Sums

section Windows

theorem atoi_range {s : String} {v : Int} (h : atoi s = some v) :
    -maxDuration - 1 ≤ v ∧ v ≤ maxDuration := by
  obtain ⟨-,hv⟩ := Option.filter_eq_some_iff.mp h
  have heq := of_decide_eq_true hv
  have hlo := Int.le_bmod (x := v) (m := 18446744073709551616) (by decide)
  have hhi := Int.bmod_lt (x := v) (m := 18446744073709551616) (by decide)
  unfold int64 at heq
  unfold maxDuration
  omega

theorem validateWindow_ok (h : validateWindow start stop = .ok w) (hw : 0 < w) :
    (∃ s e, atoi (trimSpace start) = some s ∧ atoi (trimSpace stop) = some e ∧ e - s = w) ∧
      w ≤ maxRangeSeconds := by
  unfold validateWindow at h
  cases hs : atoi (trimSpace start) with
  | none => simp [hs] at h
  | some s =>
    cases he : atoi (trimSpace stop) with
    | none => simp [hs,he] at h
    | some e =>
      simp only [hs,he] at h
      split at h
      · cases h
      · rename_i horder
        split at h
        · cases h
        · rename_i hwide
          have hdiff := Except.ok.inj h
          rw [hdiff] at hwide
          obtain ⟨hslo,hshi⟩ := atoi_range hs
          obtain ⟨helo,hehi⟩ := atoi_range he
          refine ⟨⟨s,e,rfl,rfl,?_⟩,by omega⟩
          -- the true difference lies in (0,2^64), where only itself wraps to something positive
          unfold maxDuration at hslo hshi helo hehi
          simp only [int64,Int.bmod] at hdiff
          split at hdiff <;> omega

theorem window_of (hlo : 0 < w) (hhi : w ≤ maxRangeSeconds) :
    ∃ start stop, validateWindow start stop = .ok w := by
  obtain ⟨k,rfl⟩ : ∃ k : Nat, w = k := ⟨w.toNat,by omega⟩
  have hk : (k : Int) ≤ maxDuration := by
    unfold maxRangeSeconds at hhi
    unfold maxDuration
    omega
  have hzero : atoi (trimSpace "0") = some 0 := by decide
  have hint : int64 ((k : Int) - 0) = k := by
    rw [sub_zero]
    exact int64_eq (by unfold maxDuration; omega) hk
  refine ⟨"0",String.ofList (Nat.toDigits 10 k),?_⟩
  simp only [validateWindow,hzero,atoi_toDigits hk,hint]
  rw [if_neg (by omega),if_neg (by omega)]

end Windows

section Steps

theorem trim_length (s : List Char) : (trim s).length ≤ s.length :=
  ((List.rdropWhile_prefix isSpace _).length_le).trans ((List.dropWhile_suffix isSpace).length_le)

theorem scan_digit (h : groups s = some gs) : ∃ c rest, s = c :: rest ∧ isDigit c = true := by
  cases s with
  | nil => cases h
  | cons c rest =>
    obtain ⟨hg,-⟩ := groupsOf_cons (n := rest.length) h
    by_cases hc : isDigit c = true
    · exact ⟨c,rest,rfl,hc⟩
    · exact absurd (by simp [scan,hc]) hg.number.1

theorem parse_groups (hnum : atoi (trimSpace step) = none)
    (hg : groups (trimSpace step).toList = some gs) : parseStepSeconds step =
      if sumGroups (trimSpace step).toList.length 0 (trimSpace step).toList ≤ 0 then
        .error .notPositive
      else .ok (sumGroups (trimSpace step).toList.length 0 (trimSpace step).toList) := by
  obtain ⟨c,rest,hs,hc⟩ := scan_digit hg
  have hne : trimSpace step ≠ "" := by
    intro he
    rw [he] at hs
    cases hs
  have hsign : (trimSpace step).toList.head? ≠ some '-' := by
    intro he
    rw [hs,List.head?_cons,Option.some.injEq] at he
    rw [he] at hc
    cases hc
  have hmatch : promDuration (trimSpace step).toList = true := by
    simp [promDuration,hg]
  unfold parseStepSeconds
  simp only [hnum,if_neg hne]
  rw [if_neg (by simp [hsign,hmatch])]

theorem validateStep_ok : validateStep step w = .ok () ↔
    ∃ secs, parseStepSeconds step = .ok secs ∧ minStepSeconds ≤ secs ∧ secs ≤ w := by
  unfold validateStep
  cases parseStepSeconds step with
  | error e => simp
  | ok secs =>
    simp only [Except.ok.injEq,exists_eq_left']
    split
    · rename_i hlow
      exact ⟨fun h => (nomatch h),fun h => by omega⟩
    · split
      · rename_i hhigh
        exact ⟨fun h => (nomatch h),fun h => by omega⟩
      · rename_i hlow hhigh
        exact ⟨fun _ => ⟨by omega,by omega⟩,fun _ => rfl⟩

theorem parse_bare {v : Int} (hnum : atoi (trimSpace step) = some v)
    (h : parseStepSeconds step = .ok w) : w = v := by
  have hne : trimSpace step ≠ "" := by
    intro he
    rw [he] at hnum
    exact absurd (hnum.symm.trans (show atoi "" = none by decide)) nofun
  unfold parseStepSeconds at h
  simp only [hnum,if_neg hne] at h
  split at h
  · cases h
  · exact (Except.ok.inj h).symm

theorem parse_other (hnum : atoi (trimSpace step) = none)
    (hg : groups (trimSpace step).toList = none) : ∃ e, parseStepSeconds step = .error e := by
  unfold parseStepSeconds
  dsimp only
  split
  · exact ⟨_,rfl⟩
  · rw [hnum]
    dsimp only
    split
    · exact ⟨_,rfl⟩
    · rename_i hmatch
      -- the lone 0 the expression also matches is a bare number
      have hzero : (trimSpace step).toList = ['0'] := by
        have hboth := not_or.mp hmatch
        simpa [promDuration,hg] using hboth.2
      have hstep : trimSpace step = "0" := String.toList_inj.mp hzero
      rw [hstep] at hnum
      exact absurd (hnum.symm.trans (show atoi "0" = some 0 by decide)) nofun

theorem validateStep_groups (hnum : atoi (trimSpace step) = none)
    (hg : groups (trimSpace step).toList = some gs) (hw : w ≤ maxRangeSeconds) :
    validateStep step w = .ok () ↔ ¬Overruns gs ∧ minStepSeconds ≤ tally gs ∧ tally gs ≤ w := by
  rw [validateStep_ok,parse_groups hnum hg]
  rcases sumGroups_tally hg with ⟨hover,hlate⟩ | ⟨hunder,hsum⟩
  · refine ⟨?_,fun h => absurd hover h.1⟩
    rintro ⟨secs,hsecs,-,hle⟩
    split at hsecs
    · cases hsecs
    · obtain rfl := Except.ok.inj hsecs
      omega
  · rw [hsum]
    unfold minStepSeconds
    constructor
    · rintro ⟨secs,hsecs,hlow,hle⟩
      split at hsecs
      · cases hsecs
      · obtain rfl := Except.ok.inj hsecs
        exact ⟨hunder,hlow,hle⟩
    · rintro ⟨-,hlow,hle⟩
      exact ⟨tally gs,if_neg (by omega),hlow,hle⟩

end Steps

theorem step_limits_iff (hlen : step.toList.length < 2 ^ 63) : StepLimits step ↔ StepCounted step := by
  cases hnum : atoi (trimSpace step) with
  | some v =>
    refine ⟨fun _ gs hnone => absurd (hnum.symm.trans hnone) nofun,fun _ start stop w hwindow hok => ?_⟩
    obtain ⟨secs,hsecs,hlow,hle⟩ := validateStep_ok.mp hok
    obtain rfl := parse_bare hnum hsecs
    unfold minStepSeconds at hlow
    obtain ⟨hdiff,hwide⟩ := validateWindow_ok hwindow (by omega)
    refine ⟨hdiff,⟨by omega,hwide⟩,1000 * secs,?_,?_,?_⟩
    · simp [promMillis,hnum]
    · unfold minStepSeconds
      omega
    · omega
  | none =>
    cases hg : groups (trimSpace step).toList with
    | none =>
      obtain ⟨e,he⟩ := parse_other hnum hg
      refine ⟨fun _ gs _ hsome => absurd (hg.symm.trans hsome) nofun,
        fun _ start stop w _ hok => ?_⟩
      obtain ⟨secs,hsecs,-⟩ := validateStep_ok.mp hok
      exact absurd (he.symm.trans hsecs) nofun
    | some gs =>
      obtain ⟨hwf,hmany⟩ := groupsOf_wellformed hg
      have hmillis : promMillis (trimSpace step).toList =
          some (1000 * seconds gs + shortMillis gs) := by
        simp [promMillis,hnum,hg,millis_eq]
      constructor
      · intro hlimits gs' _ hgs'
        obtain rfl := Option.some.inj (hg.symm.trans hgs')
        by_cases hrefused : Refused gs
        · exact .inl hrefused
        · right
          simp only [Refused,not_or,not_lt] at hrefused
          obtain ⟨hunder,hlow,hhigh⟩ := hrefused
          -- the tightest window is the tally itself
          obtain ⟨start,stop,hwindow⟩ := window_of (w := tally gs)
            (by unfold minStepSeconds at hlow; omega) hhigh
          have hok := (validateStep_groups hnum hg hhigh).mpr ⟨hunder,hlow,le_refl _⟩
          obtain ⟨d,hd,hleast,hmost⟩ := (hlimits start stop _ hwindow hok).step
          obtain rfl := Option.some.inj (hmillis.symm.trans hd)
          obtain ⟨hs,hm,-,-⟩ := sums_nonneg hwf
          have hwhole : seconds gs ≤ maxRangeSeconds := by omega
          have htally := tally_le hwf hwhole
          exact ⟨hwhole,by omega,hleast⟩
      · intro hcounted start stop w hwindow hok
        have hpos : 0 < w := by
          obtain ⟨secs,-,hlow,hle⟩ := validateStep_ok.mp hok
          unfold minStepSeconds at hlow
          omega
        obtain ⟨hdiff,hwide⟩ := validateWindow_ok hwindow hpos
        obtain ⟨hunder,hlow,hle⟩ := (validateStep_groups hnum hg hwide).mp hok
        rcases hcounted gs hnum hg with (hover | hlate | hlate) | hwell
        · exact absurd hover hunder
        · omega
        · omega
        · have hbytes : 2 * gs.length < 2 ^ 63 := by
            have htrim := trim_length step.toList
            rw [trimSpace,String.toList_ofList] at hmany
            omega
          have htally := tally_exact hwf hwell.whole hbytes
          have hshort := hwell.short
          exact ⟨hdiff,⟨hpos,hwide⟩,_,hmillis,hwell.enough,by omega⟩

theorem minute_counted : StepLimits "1m30s" ↔ StepCounted "1m30s" := step_limits_iff (by decide)

theorem milliseconds_undercounted : ¬∀ step, StepLimits step := by
  intro h
  have hwindow : validateWindow "0" "20" = .ok 20 := by decide
  have hok : validateStep "15s3600000ms" 20 = .ok () := by decide
  obtain ⟨d,hd,-,hmost⟩ := (h "15s3600000ms" "0" "20" 20 hwindow hok).step
  have hread : promMillis (trimSpace "15s3600000ms").toList = some 3615000 := by decide
  obtain rfl := Option.some.inj (hread.symm.trans hd)
  omega

end Monitoring
