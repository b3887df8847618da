import ServerHub.Go.Time

namespace Delivery

open Go

inductive Severity where
  | critical
  | warning
  | info
deriving DecidableEq

def Severity.text : Severity → String
  | .critical => "CRITICAL"
  | .warning => "WARNING"
  | .info => "INFO"

def normalizeSeverity (raw : String) : Severity :=
  match toUpper (trimSpace raw) with
  | "CRITICAL" => .critical
  | "INFO" => .info
  | "WARNING" => .warning
  | _ => .warning

inductive Channel where
  | email
  | telegram
  | other (raw : String)
deriving DecidableEq

namespace Channel

def text : Channel → String
  | .email => "EMAIL"
  | .telegram => "TELEGRAM"
  | .other raw => raw

def supported : Channel → Bool
  | .email | .telegram => true
  | .other _ => false

end Channel

def Channel.parse (raw : String) : Channel :=
  match raw with
  | "EMAIL" => .email
  | "TELEGRAM" => .telegram
  | _ => .other raw

def addChannel (out : List Channel) (ch : Channel) : List Channel :=
  if ch.supported && !out.contains ch then out ++ [ch] else out

def cleanChannels (raw : List String) : List Channel :=
  (raw.map fun c => Channel.parse (toUpper (trimSpace c))).foldl addChannel []

inductive Reason where
  | emergencyPause
  | maintenance
  | quietHours
  | cooldown
  | maxRepeats
  | recoveryMuted
  | digestBatched
deriving DecidableEq

structure Policy where
  emergencyPause : Bool
  pauseUntil : Option Int
  pauseReason : String
  cooldownCriticalSec : Int
  cooldownWarningSec : Int
  cooldownInfoSec : Int
  repeatIntervalSec : Int
  maxRepeats : Int
  notifyOnRecovery : Bool
  emailPerHour : Int
  tgPerHour : Int
  digestIntervalMin : Int
deriving DecidableEq

def defaultPolicy : Policy where
  emergencyPause := false
  pauseUntil := none
  pauseReason := ""
  cooldownCriticalSec := 900
  cooldownWarningSec := 3600
  cooldownInfoSec := 21600
  repeatIntervalSec := 3600
  maxRepeats := 3
  notifyOnRecovery := true
  emailPerHour := 60
  tgPerHour := 60
  digestIntervalMin := 60

def positiveOr (v default : Int) : Int := if 0 < v then v else default

def nonNegativeOr (v default : Int) : Int := if 0 ≤ v then v else default

def Policy.ofRow (row : Policy) : Policy where
  emergencyPause := row.emergencyPause
  pauseUntil := row.pauseUntil
  pauseReason := row.pauseReason
  cooldownCriticalSec := positiveOr row.cooldownCriticalSec defaultPolicy.cooldownCriticalSec
  cooldownWarningSec := positiveOr row.cooldownWarningSec defaultPolicy.cooldownWarningSec
  cooldownInfoSec := positiveOr row.cooldownInfoSec defaultPolicy.cooldownInfoSec
  repeatIntervalSec := positiveOr row.repeatIntervalSec defaultPolicy.repeatIntervalSec
  maxRepeats := nonNegativeOr row.maxRepeats defaultPolicy.maxRepeats
  notifyOnRecovery := row.notifyOnRecovery
  emailPerHour := positiveOr row.emailPerHour defaultPolicy.emailPerHour
  tgPerHour := positiveOr row.tgPerHour defaultPolicy.tgPerHour
  digestIntervalMin := positiveOr row.digestIntervalMin defaultPolicy.digestIntervalMin

def Policy.loaded (row : Option Policy) : Policy := (row.map Policy.ofRow).getD defaultPolicy

namespace Policy

def cooldownFor (p : Policy) : Severity → Int
  | .critical => seconds p.cooldownCriticalSec
  | .info => seconds p.cooldownInfoSec
  | .warning => seconds p.cooldownWarningSec

def budgetFor (p : Policy) (ch : Channel) : Int :=
  if ch = .telegram then p.tgPerHour else p.emailPerHour

def pauseActive (p : Policy) (now : Int) : Bool :=
  p.emergencyPause && !p.pauseUntil.any fun u => u != 0 && decide (u < now)

end Policy

structure MaintenanceWindow where
  name : String
  scope : String
  startsAt : Int
  endsAt : Int
  enabled : Bool
deriving DecidableEq

def MaintenanceWindow.covers (w : MaintenanceWindow) (now : Int) : Bool :=
  w.enabled && decide (w.startsAt ≤ now) && decide (now < w.endsAt)

def maintenanceActive (windows : List MaintenanceWindow) (serverID : Option Nat) : Option String :=
  (windows.find? fun w => w.scope == "" || w.scope == "all" ||
    serverID.any fun id => w.scope == "server:" ++ toString id).map (·.name)

structure QuietInfo where
  start : String
  stop : String
  tz : String
  allowCritical : Bool
deriving DecidableEq

def QuietInfo.off : QuietInfo := ⟨"","","",false⟩

def parseHM (s : String) : Option (Int × Int) :=
  match split (trimSpace s) ':' with
  | [h,m] => do
      let h ← atoi h
      let m ← atoi m
      if h < 0 ∨ 23 < h ∨ m < 0 ∨ 59 < m then none else some (h,m)
  | _ => none

structure Env where
  zone : String → Option (Int → Int)
  rfc3339 : Int → String
  quote : String → String

def minuteOfDay (t : Int) : Int := t / minute % 1440

def Env.location (env : Env) (tz : String) : Int → Int :=
  if trimSpace tz = "" then minuteOfDay else (env.zone (trimSpace tz)).getD minuteOfDay

def QuietInfo.inQuiet (env : Env) (q : QuietInfo) (now : Int) : Bool :=
  match parseHM q.start, parseHM q.stop with
  | some start, some stop =>
      let mins := env.location q.tz now
      let s := start.1 * 60 + start.2
      let e := stop.1 * 60 + stop.2
      if s = e then false
      else if s < e then decide (s ≤ mins) && decide (mins < e)
      else decide (s ≤ mins) || decide (mins < e)
  | _, _ => false

theorem positiveOr_pos {v d : Int} (hd : 0 < d) : 0 < positiveOr v d := by
  unfold positiveOr
  split <;> omega

theorem nonNegativeOr_nonneg {v d : Int} (hd : 0 ≤ d) : 0 ≤ nonNegativeOr v d := by
  unfold nonNegativeOr
  split <;> omega

theorem loaded_repeatIntervalSec (row : Option Policy) :
    0 < (Policy.loaded row).repeatIntervalSec := by
  cases row with
  | none => decide
  | some row => exact positiveOr_pos (by decide)

theorem loaded_maxRepeats (row : Option Policy) : 0 ≤ (Policy.loaded row).maxRepeats := by
  cases row with
  | none => decide
  | some row => exact nonNegativeOr_nonneg (by decide)

structure Clean (out : List Channel) : Prop where
  supported : ∀ ch ∈ out, ch.supported = true
  nodup : out.Nodup

theorem clean_addChannel {out : List Channel} (h : Clean out) (ch : Channel) :
    Clean (addChannel out ch) := by
  unfold addChannel
  split
  · rename_i hch
    rw [Bool.and_eq_true_iff] at hch
    constructor
    · intro c hc
      rcases List.mem_append.mp hc with hold | hnew
      · exact h.supported c hold
      · rw [List.mem_singleton.mp hnew]
        exact hch.1
    · refine List.nodup_append.mpr ⟨h.nodup,by simp,?_⟩
      rintro a ha b hb rfl
      rw [List.mem_singleton.mp hb] at ha
      simp [ha] at hch
  · exact h

theorem clean_foldl {out : List Channel} (h : Clean out) (chs : List Channel) :
    Clean (chs.foldl addChannel out) := by
  induction chs generalizing out with
  | nil => exact h
  | cons ch chs ih => exact ih (clean_addChannel h ch)

theorem cleanChannels_clean (raw : List String) : Clean (cleanChannels raw) :=
  clean_foldl ⟨by simp,List.nodup_nil⟩ _

end Delivery
