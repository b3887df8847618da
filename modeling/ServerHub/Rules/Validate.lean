import ServerHub.Relational.Serial
import ServerHub.Rules.Condition

namespace Rules

open Go Relational

inductive Channel where
  | email
  | telegram
  | inApp
deriving DecidableEq

namespace Channel

def text : Channel → String
  | .email => "EMAIL"
  | .telegram => "TELEGRAM"
  | .inApp => "IN_APP"

def ofText (c : String) : Option Channel := [.email,.telegram,.inApp].find? (·.text == c)

end Channel

def validChannel (c : String) : Bool := (Channel.ofText c).isSome

def addChannel (out : List Channel) (c : Channel) : List Channel :=
  if out.contains c then out else out ++ [c]

def keepChannels (raw : List String) : List Channel :=
  (raw.filterMap fun c => Channel.ofText (toUpper (trimSpace c))).foldl addChannel []

def parseChannels (raw : String) : List Channel := keepChannels (split raw ',')

def normalizeChannels (channels : List String) : String :=
  join ((keepChannels channels).map Channel.text) ','

def splitCSV (raw : String) : List String := ((split raw ',').map trimSpace).filter (· != "")

def maxCooldownSeconds : Int := 30 * 24 * 3600

def maxRepeats : Int := 100

def digestIntervalsMin : List Int := [15,30,60,180,720,1440]

def groupByKeys : List String := ["severity","alertname","condition","server","service","environment"]

structure RuleParams where
  name : String
  description : String
  eventType : EventType
  severity : String
  conditionJSON : String
  channels : List String
  cooldownSeconds : Int
  repeatIntervalSec : Int
  maxRepeats : Int
  digestMode : String
  digestIntervalMin : Int
  groupBy : List String
deriving DecidableEq

def require (ok : Bool) (message : String) : Except String Unit := if ok then .ok () else .error message

def validateRuleFull (env : Env) (p : RuleParams) : Except String Unit := do
  require (trimSpace p.name != "") "name is required"
  require (utf8Length p.name ≤ 100) "name too long (max 100)"
  require (utf8Length p.description ≤ 500) "description too long (max 500)"
  require (validEventType p.eventType) ("unsupported event type " ++ env.quote p.eventType.text ++
    " (use " ++ join (supportedEventTypes.map EventType.text) '|' ++ ")")
  require (p.severity == "" || knownSeverity p.severity)
    "severity must be empty or INFO|WARNING|CRITICAL"
  let _ ← parseCondition env p.conditionJSON
  require (p.channels != []) "at least one channel is required (use EMAIL|TELEGRAM|IN_APP)"
  p.channels.forM fun c => require (validChannel c)
    ("unsupported channel " ++ env.quote c ++ " (use EMAIL|TELEGRAM|IN_APP)")
  require (0 ≤ p.cooldownSeconds && p.cooldownSeconds ≤ maxCooldownSeconds)
    ("cooldown must be 0.." ++ toString maxCooldownSeconds ++ " seconds")
  require (0 ≤ p.repeatIntervalSec && p.repeatIntervalSec ≤ maxCooldownSeconds)
    ("repeat interval must be 0.." ++ toString maxCooldownSeconds ++ " seconds")
  require (0 ≤ p.maxRepeats && p.maxRepeats ≤ maxRepeats)
    ("max repeats must be 0.." ++ toString maxRepeats)
  require (["","immediate","digest"].contains p.digestMode) "digest mode must be immediate or digest"
  require (p.digestMode != "digest" || digestIntervalsMin.contains p.digestIntervalMin)
    "digest interval must be one of 15|30|60|180|720|1440 minutes"
  require (p.groupBy.length ≤ 3) "at most 3 group-by keys allowed"
  p.groupBy.forM fun k => require (groupByKeys.contains k)
    ("unsupported group-by key " ++ env.quote k)

structure StoredRule where
  id : Nat
  name : String
  description : String
  enabled : Bool
  eventType : EventType
  severity : String
  conditionJSON : String
  notificationGroupID : Nat
  channels : String
  cooldownSeconds : Int
  notifyOnRecovery : Bool
  repeatIntervalSec : Int
  maxRepeats : Int
  digestMode : String
  digestIntervalMin : Int
  groupBy : String
deriving DecidableEq

instance : Keyed StoredRule := ⟨StoredRule.id⟩

def RuleParams.stored (p : RuleParams) (group : Nat) (enabled recovery : Bool) (id : Nat) :
    StoredRule where
  id := id
  name := p.name
  description := p.description
  enabled := enabled
  eventType := p.eventType
  severity := p.severity
  conditionJSON := p.conditionJSON
  notificationGroupID := group
  channels := normalizeChannels p.channels
  cooldownSeconds := p.cooldownSeconds
  notifyOnRecovery := recovery
  repeatIntervalSec := p.repeatIntervalSec
  maxRepeats := p.maxRepeats
  digestMode := p.digestMode
  digestIntervalMin := p.digestIntervalMin
  groupBy := join p.groupBy ','

namespace Channel

theorem ofText_text (c : Channel) : ofText c.text = some c := by
  cases c <;> decide

theorem normal_text (c : Channel) : toUpper (trimSpace c.text) = c.text := by
  cases c <;> decide

theorem comma_free (c : Channel) : ',' ∉ c.text.toList := by
  cases c <;> decide

theorem text_of_ofText {raw : String} {c : Channel} (h : ofText raw = some c) : raw = c.text := by
  have hc := List.find?_some h
  exact (beq_iff_eq.mp hc).symm

end Channel

theorem mem_foldl_addChannel {c : Channel} {cs out : List Channel} :
    c ∈ cs.foldl addChannel out ↔ c ∈ out ∨ c ∈ cs := by
  induction cs generalizing out with
  | nil => simp
  | cons d cs ih =>
    rw [List.foldl_cons,ih,addChannel]
    split
    · rename_i h
      have hd : d ∈ out := by simpa using h
      grind
    · grind

theorem nodup_foldl_addChannel {cs out : List Channel} (h : out.Nodup) :
    (cs.foldl addChannel out).Nodup := by
  induction cs generalizing out with
  | nil => exact h
  | cons d cs ih =>
    refine ih ?_
    unfold addChannel
    split
    · exact h
    · rename_i hd
      grind

theorem foldl_addChannel_nodup {cs out : List Channel} (h : (out ++ cs).Nodup) :
    cs.foldl addChannel out = out ++ cs := by
  induction cs generalizing out with
  | nil => simp
  | cons d cs ih =>
    have hd : d ∉ out := by grind
    rw [List.foldl_cons,addChannel,if_neg (by simpa using hd),ih (by simpa using h)]
    simp

theorem mem_keepChannels {c : Channel} {raw : List String} :
    c ∈ keepChannels raw ↔ ∃ s ∈ raw, Channel.ofText (toUpper (trimSpace s)) = some c := by
  simp [keepChannels,mem_foldl_addChannel]

theorem keepChannels_text {cs : List Channel} (h : cs.Nodup) :
    keepChannels (cs.map Channel.text) = cs := by
  have hback : (cs.map Channel.text).filterMap
      (fun c => Channel.ofText (toUpper (trimSpace c))) = cs := by
    rw [List.filterMap_map]
    simp [Channel.normal_text,Channel.ofText_text]
  rw [keepChannels,hback,foldl_addChannel_nodup (by simpa using h),List.nil_append]

theorem parse_normalizeChannels (raw : List String) :
    parseChannels (normalizeChannels raw) = keepChannels raw := by
  cases hk : keepChannels raw with
  | nil =>
    rw [normalizeChannels,hk]
    decide
  | cons c cs =>
    have hnodup : (keepChannels raw).Nodup := nodup_foldl_addChannel List.nodup_nil
    have hcomma : ∀ p ∈ (keepChannels raw).map Channel.text, ',' ∉ p.toList := by
      intro p hp
      obtain ⟨d,-,rfl⟩ := List.mem_map.mp hp
      exact d.comma_free
    rw [parseChannels,normalizeChannels,split_join (by simp [hk]) hcomma,keepChannels_text hnodup,hk]

theorem require_ok {ok : Bool} {message : String} {u : Unit} :
    require ok message = .ok u ↔ ok = true := by
  cases ok <;> simp [require]

theorem bind_ok {α β : Type} {x : Except String α} {f : α → Except String β} {b : β} :
    (x >>= f) = .ok b ↔ ∃ a, x = .ok a ∧ f a = .ok b := by
  cases x with
  | error e => exact ⟨(fun h => nomatch h),fun ⟨a,ha,_⟩ => nomatch ha⟩
  | ok a => exact ⟨fun h => ⟨a,rfl,h⟩,fun ⟨c,hc,h⟩ => by cases hc; exact h⟩

theorem forM_require_ok {α : Type} {ok : α → Bool} {message : α → String} {as : List α} {u : Unit} :
    as.forM (fun a => require (ok a) (message a)) = .ok u ↔ ∀ a ∈ as, ok a = true := by
  induction as with
  | nil => exact ⟨(fun _ a ha => nomatch ha),fun _ => rfl⟩
  | cons a as ih =>
    rw [List.forM_eq_forM] at ih ⊢
    simp only [List.forM_cons,bind_ok,require_ok,ih,exists_const,List.forall_mem_cons]

structure RuleParams.Acceptable (env : Env) (p : RuleParams) : Prop where
  named : trimSpace p.name ≠ ""
  nameFits : utf8Length p.name ≤ 100
  descriptionFits : utf8Length p.description ≤ 500
  supported : validEventType p.eventType = true
  graded : p.severity = "" ∨ knownSeverity p.severity = true
  conditioned : ∃ c, parseCondition env p.conditionJSON = .ok c
  channelled : p.channels ≠ []
  channels : ∀ c ∈ p.channels, validChannel c = true
  cooldown : 0 ≤ p.cooldownSeconds ∧ p.cooldownSeconds ≤ maxCooldownSeconds
  repeatInterval : 0 ≤ p.repeatIntervalSec ∧ p.repeatIntervalSec ≤ maxCooldownSeconds
  repeats : 0 ≤ p.maxRepeats ∧ p.maxRepeats ≤ Rules.maxRepeats
  digestMode : p.digestMode ∈ ["","immediate","digest"]
  digestInterval : p.digestMode ≠ "digest" ∨ p.digestIntervalMin ∈ digestIntervalsMin
  fewKeys : p.groupBy.length ≤ 3
  groupBy : ∀ k ∈ p.groupBy, k ∈ groupByKeys

theorem validateRuleFull_ok {env : Env} {p : RuleParams} :
    validateRuleFull env p = .ok () ↔ p.Acceptable env := by
  simp only [validateRuleFull,bind_ok,require_ok,forM_require_ok,exists_const,exists_and_right,
    bne_iff_ne,beq_iff_eq,decide_eq_true_eq,Bool.or_eq_true,Bool.and_eq_true,List.contains_iff_mem]
  constructor
  · rintro ⟨h1,h2,h3,h4,h5,h6,h7,h8,h9,h10,h11,h12,h13,h14,h15⟩
    exact ⟨h1,h2,h3,h4,h5,h6,h7,h8,h9,h10,h11,h12,h13,h14,h15⟩
  · rintro ⟨h1,h2,h3,h4,h5,h6,h7,h8,h9,h10,h11,h12,h13,h14,h15⟩
    exact ⟨h1,h2,h3,h4,h5,h6,h7,h8,h9,h10,h11,h12,h13,h14,h15⟩

theorem valid_of_channel {c : String} (h : validChannel c = true) :
    ∃ ch, Channel.ofText (toUpper (trimSpace c)) = some ch := by
  obtain ⟨ch,hch⟩ := Option.isSome_iff_exists.mp h
  rw [Channel.text_of_ofText hch,Channel.normal_text]
  exact ⟨ch,ch.ofText_text⟩

theorem RuleParams.Acceptable.has_channel {env : Env} {p : RuleParams} (h : p.Acceptable env) :
    keepChannels p.channels ≠ [] := by
  obtain ⟨c,hc⟩ := List.exists_mem_of_ne_nil p.channels h.channelled
  obtain ⟨ch,hch⟩ := valid_of_channel (h.channels c hc)
  exact List.ne_nil_of_mem (mem_keepChannels.mpr ⟨c,hc,hch⟩)

end Rules
