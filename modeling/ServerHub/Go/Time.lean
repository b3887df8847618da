import ServerHub.Go.Strings

namespace Go

def second : Int := 1000000000

def minute : Int := 60 * second

def hour : Int := 60 * minute

def maxDuration : Int := 9223372036854775807

def seconds (n : Int) : Int := int64 (n * second)

def minutes (n : Int) : Int := int64 (n * minute)

def sub (t u : Int) : Int :=
  if maxDuration < t - u then maxDuration
  else if t - u < -maxDuration - 1 then -maxDuration - 1
  else t - u

def truncateTo (t d : Int) : Int := if d ≤ 0 then t else t - t % d

def unixNano (t : Int) : Int := int64 (t - 62135596800 * second)

theorem int64_le (n : Int) : int64 n ≤ maxDuration := by
  have h := Int.bmod_lt (x := n) (m := 18446744073709551616) (by decide)
  simp only [int64,maxDuration]
  omega

theorem int64_eq {n : Int} (hlo : -maxDuration - 1 ≤ n) (hhi : n ≤ maxDuration) : int64 n = n := by
  unfold maxDuration at hlo hhi
  exact Int.bmod_eq_of_le (by omega) (by omega)

theorem seconds_le (n : Int) : seconds n ≤ maxDuration := int64_le (n * second)

theorem le_of_not_sub_lt {t u d : Int} (hd : d ≤ maxDuration) (hut : u ≤ t)
    (h : ¬ sub t u < d) : d ≤ t - u := by
  unfold sub maxDuration at h
  unfold maxDuration at hd
  split at h <;> omega

end Go
