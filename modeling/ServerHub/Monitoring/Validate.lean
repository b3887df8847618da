import Mathlib.Algebra.BigOperators.Group.List.Basic
import ServerHub.Go.Decimal

namespace Monitoring

open Go

def minStepSeconds : Int := 15

def maxRangeSeconds : Int := 604800

inductive StepError where
  | required
  | notPositive
  | invalid (step : String)
  | tooShort
  | beyondWindow (windowSeconds : Int)
deriving DecidableEq

inductive WindowError where
  | start
  | stop
  | order
  | tooWide
deriving DecidableEq

def ms : List Char := ['m','s']

def units : List (List Char) := [ms,['s'],['m'],['h'],['d'],['w'],['y']]

def mult : List Char → Int
  | ['s'] => 1
  | ['m'] => 60
  | ['h'] => 3600
  | ['d'] => 86400
  | ['w'] => 604800
  | ['y'] => 365 * 86400
  | _ => 0

abbrev Group := List Char × List Char

-- the digits at the front, what stands before the next digit, and the rest
def scan (s : List Char) : Group × List Char :=
  let rest := s.dropWhile isDigit
  ((s.takeWhile isDigit,rest.takeWhile fun c => !isDigit c),rest.dropWhile fun c => !isDigit c)

-- the groups that ([0-9]+(ms|s|m|h|d|w|y))+ matches
def groupsOf : Nat → List Char → Option (List Group)
  | 0, _ => none
  | n + 1, s =>
      let (g,rest) := scan s
      if g.1 ≠ [] ∧ g.2 ∈ units then
        if rest = [] then some [g] else (groupsOf n rest).map (g :: ·)
      else none

def groups (s : List Char) : Option (List Group) := groupsOf s.length s

def promDuration (s : List Char) : Bool := (groups s).isSome || s == ['0']

-- strconv.ParseInt with its error ignored: no digits give 0, too many the largest int64
def parseIgnoring (ds : List Char) : Int :=
  match digits ds with
  | none => 0
  | some n => min n maxDuration

def sumGroups : Nat → Int → List Char → Int
  | 0, total, _ => total
  | n + 1, total, s =>
      if s = [] then total
      else
        let (g,rest) := scan s
        if g.2 = ms then sumGroups n (int64 (total + 1)) rest
        else
          let total := int64 (total + int64 (parseIgnoring g.1 * mult g.2))
          if maxRangeSeconds < total then total else sumGroups n total rest

def parseStepSeconds (step : String) : Except StepError Int :=
  let step := trimSpace step
  if step = "" then .error .required
  else
    match atoi step with
    | some n => if n ≤ 0 then .error .notPositive else .ok n
    | none =>
        if step.toList.head? = some '-' ∨ promDuration step.toList = false then .error (.invalid step)
        else
          let total := sumGroups step.toList.length 0 step.toList
          if total ≤ 0 then .error .notPositive else .ok total

def validateStep (step : String) (windowSeconds : Int) : Except StepError Unit :=
  match parseStepSeconds step with
  | .error e => .error e
  | .ok secs =>
      if secs < minStepSeconds then .error .tooShort
      else if windowSeconds < secs then .error (.beyondWindow windowSeconds)
      else .ok ()

def validateWindow (start stop : String) : Except WindowError Int :=
  match atoi (trimSpace start) with
  | none => .error .start
  | some s =>
  match atoi (trimSpace stop) with
  | none => .error .stop
  | some e =>
  if e ≤ s then .error .order
  else if maxRangeSeconds < int64 (e - s) then .error .tooWide
  else .ok (int64 (e - s))

def Group.millis (g : Group) : Int :=
  ((digits g.1).getD 0 : Nat) * if g.2 = ms then 1 else 1000 * mult g.2

def promMillis (step : List Char) : Option Int :=
  match atoi (String.ofList step) with
  | some n => some (1000 * n)
  | none => (groups step).map fun gs => (gs.map Group.millis).sum

end Monitoring
