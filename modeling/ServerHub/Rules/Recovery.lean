import ServerHub.Rules.Evaluation

namespace Rules

open Go Relational Interleave Interleave.Prog

def respond (env : Env) (eng : Engine) (s : State) (ev : Event) : State × Report :=
  (evaluate env eng ev).eval Stmt.exec s

def after (env : Env) (eng : Engine) (s : State) (evs : List Event) : State :=
  evs.foldl (fun t ev => (respond env eng t ev).1) s

def verdict (env : Env) (eng : Engine) (s : State) (ev : Event) (id : Nat) :
    Option (Except String Verdict) :=
  verdictOf id (respond env eng s ev).2

def Notifies (env : Env) (eng : Engine) (s : State) (ev : Event) (r : StoredRule) : Prop :=
  ∃ handed, verdict env eng s ev r.id = some (.ok (.notified handed)) ∧
    ∀ ch ∈ parseChannels r.channels, ∃ h ∈ handed, ch ∈ h.1.channels

structure StoredRule.Open (env : Env) (r : StoredRule) : Prop where
  enabled : r.enabled = true
  channelled : parseChannels r.channels ≠ []
  severity : r.severity = ""
  unconditional : parseCondition env r.conditionJSON = .ok none
  cooldown : r.cooldownSeconds = 0
  recovers : r.notifyOnRecovery = true

theorem stored_open {env : Env} {p : RuleParams} (hp : validateRuleFull env p = .ok ())
    (hseverity : p.severity = "") (hcondition : parseCondition env p.conditionJSON = .ok none)
    (hcooldown : p.cooldownSeconds = 0) (group id : Nat) : (p.stored group true true id).Open env where
  enabled := rfl
  channelled := by
    rw [RuleParams.stored,parse_normalizeChannels]
    exact (validateRuleFull_ok.mp hp).has_channel
  severity := hseverity
  unconditional := hcondition
  cooldown := hcooldown
  recovers := rfl

theorem handoffs_cover (eng : Engine) (r : RuleRow) (ev : Event) {ch : Channel} (h : ch ∈ r.channels) :
    ∃ x ∈ handoffs eng r ev, ch ∈ x.channels := by
  have hdirect : ch ∈ (Handoff.direct r ev ch).channels := by cases ch <;> exact List.mem_singleton_self _
  unfold handoffs
  by_cases hc : ch = .inApp
  · have hin : ch ∈ r.channels.filter (· == .inApp) := List.mem_filter.mpr ⟨h,by simp [hc]⟩
    exact ⟨_,List.mem_append_left _ (List.mem_map_of_mem hin),hdirect⟩
  · have hex : ch ∈ r.channels.filter (· != .inApp) := List.mem_filter.mpr ⟨h,by simp [hc]⟩
    simp only [if_neg (List.ne_nil_of_mem hex)]
    split
    · exact ⟨_,List.mem_append_right _ (List.mem_singleton_self _),hex⟩
    · exact ⟨_,List.mem_append_right _ (List.mem_map_of_mem hex),hdirect⟩

section Steps

variable {env : Env} {eng : Engine} {r : StoredRule} {s : State} {ev : Event}

theorem evaluateRule_open (h : r.Open env) (ev : Event) :
    evaluateRule env eng r.row ev = notify eng r.row ev := by
  have hmatch : matchRule env r.row ev = .ok true := by
    simp only [matchRule,StoredRule.row,h.severity,h.unconditional,Condition.Matches]
    split <;> rfl
  rw [evaluateRule,hmatch]
  exact if_neg h.channelled

theorem open_step (hon : eng.on = true) (hs : s.Sound) (h : r.Open env)
    (hr : r ∈ s.store.rulesFor ev.type) :
    ∃ (ts : Int) (u : State), u.store.states r.id = s.store.states r.id ∧
      (respond env eng s ev).1.store.states r.id =
        (u.store.claim r.row (ev.readied ts) u.now.clock).1.states r.id ∧
      match (u.store.claim r.row (ev.readied ts) u.now.clock).2 with
      | some reason => verdict env eng s ev r.id = some (.ok (.suppressed reason))
      | none => Notifies env eng s ev r := by
  obtain ⟨ts,u,hsound,hu,hleft,hverdict⟩ := evaluate_offered env hon hs hr
  rw [evaluateRule_open h] at hleft hverdict
  obtain ⟨hstore,-,hanswer⟩ := notify_spec eng r.row (ev.readied ts) hsound
  refine ⟨ts,u,hu,hleft.trans (by rw [hstore]),?_⟩
  cases hc : (u.store.claim r.row (ev.readied ts) u.now.clock).2 with
  | some reason =>
    rw [hc] at hanswer
    exact hverdict.trans (congrArg some hanswer)
  | none =>
    rw [hc] at hanswer
    obtain ⟨handed,hhanded,hsent⟩ := hanswer
    refine ⟨handed,hverdict.trans (congrArg some hhanded),?_⟩
    intro ch hch
    obtain ⟨x,hx,hxc⟩ := handoffs_cover eng r.row (ev.readied ts) hch
    rw [← hsent] at hx
    obtain ⟨y,hy,rfl⟩ := List.mem_map.mp hx
    exact ⟨y,hy,hxc⟩

theorem open_firing (hon : eng.on = true) (hs : s.Sound) (h : r.Open env)
    (hr : r ∈ s.store.rulesFor ev.type) (hev : ev.isRecovery = false) :
    Notifies env eng s ev r ∧ ∀ fp, (respond env eng s ev).1.store.lastState r.id fp =
      if fp = ev.identity then .firing else s.store.lastState r.id fp := by
  obtain ⟨ts,u,hu,hstate,hverdict⟩ := open_step hon hs h hr
  have hreadied : (ev.readied ts).isRecovery = false := hev
  rw [Store.claim_firing hreadied h.cooldown] at hstate hverdict
  refine ⟨hverdict,fun fp => ?_⟩
  rw [Store.lastState_congr hstate,← Store.lastState_congr hu]
  exact Store.lastState_upsert _

theorem open_recovered (hon : eng.on = true) (hs : s.Sound) (h : r.Open env)
    (hr : r ∈ s.store.rulesFor ev.type) (hev : ev.isRecovery = true)
    (hfiring : s.store.lastState r.id ev.identity = .firing) : Notifies env eng s ev r := by
  obtain ⟨ts,u,hu,-,hverdict⟩ := open_step hon hs h hr
  have hreadied : (ev.readied ts).isRecovery = true := hev
  have hlast : u.store.lastState r.row.id (ev.readied ts).fingerprint = .firing :=
    (Store.lastState_congr hu).trans hfiring
  rwa [Store.claim_recovered hreadied h.recovers hlast] at hverdict

theorem open_silent (hon : eng.on = true) (hs : s.Sound) (h : r.Open env)
    (hr : r ∈ s.store.rulesFor ev.type) (hev : ev.isRecovery = true)
    (hfiring : s.store.lastState r.id ev.identity ≠ .firing) :
    verdict env eng s ev r.id = some (.ok (.suppressed .withoutFiring)) ∧
      ∀ fp, (respond env eng s ev).1.store.lastState r.id fp =
        if fp = ev.identity then .resolved else s.store.lastState r.id fp := by
  obtain ⟨ts,u,hu,hstate,hverdict⟩ := open_step hon hs h hr
  have hreadied : (ev.readied ts).isRecovery = true := hev
  have hlast : u.store.lastState r.row.id (ev.readied ts).fingerprint ≠ .firing :=
    fun hf => hfiring ((Store.lastState_congr hu).symm.trans hf)
  rw [Store.claim_without_firing hreadied hlast] at hstate hverdict
  refine ⟨hverdict,fun fp => ?_⟩
  rw [Store.lastState_congr hstate,← Store.lastState_congr hu]
  exact Store.lastState_upsert _

theorem respond_elsewhere (hon : eng.on = true) (hs : s.Sound) {fp : String} (h : ev.identity ≠ fp)
    (id : Nat) : (respond env eng s ev).1.store.lastState id fp = s.store.lastState id fp := by
  rw [Store.lastState,Store.lastState,respond,evaluate_spared env hon hs fun _ _ => .inr h]

theorem respond_unoffered (hon : eng.on = true) (hs : s.Sound) (hr : r ∈ s.store.rules.rows)
    (h : r ∉ s.store.rulesFor ev.type) (fp : String) :
    (respond env eng s ev).1.store.lastState r.id fp = s.store.lastState r.id fp := by
  have hspared : ∀ a ∈ s.store.rulesFor ev.type, a.id ≠ r.id ∨ ev.identity ≠ fp := by
    intro a ha
    refine .inl fun he => h ?_
    have hrow := Table.find_of_mem (Store.mem_rulesFor.mp ha).1
    rw [show key a = key r from he,Table.find_of_mem hr] at hrow
    rwa [Option.some.inj hrow]
  rw [Store.lastState,Store.lastState,respond,evaluate_spared env hon hs hspared]

theorem respond_settles (hon : eng.on = true) (hs : s.Sound) (hchannels : parseChannels r.channels ≠ [])
    (hr : r ∈ s.store.rulesFor ev.type) (hev : ev.isRecovery = true) :
    (respond env eng s ev).1.store.lastState r.id ev.identity = .resolved := by
  obtain ⟨ts,u,hsound,-,hleft,-⟩ := evaluate_offered env hon hs hr
  have hreadied : (ev.readied ts).isRecovery = true := hev
  have hnotify : evaluateRule env eng r.row (ev.readied ts) = notify eng r.row (ev.readied ts) := by
    rw [evaluateRule,matchRule,if_pos hreadied]
    exact if_neg hchannels
  rw [hnotify,(notify_spec eng r.row (ev.readied ts) hsound).1,Store.claim_recovery hreadied] at hleft
  rw [Store.lastState_congr (t := (respond env eng s ev).1.store) hleft]
  exact (Store.lastState_upsert _).trans (if_pos rfl)

theorem respond_fires (hon : eng.on = true) (hs : s.Sound) (hchannels : parseChannels r.channels ≠ [])
    (hr : r ∈ s.store.rules.rows) {fp : String}
    (hfiring : (respond env eng s ev).1.store.lastState r.id fp = .firing) :
    s.store.lastState r.id fp = .firing ∨
      ev.isRecovery = false ∧ ev.identity = fp ∧ r ∈ s.store.rulesFor ev.type := by
  by_cases hoffered : r ∈ s.store.rulesFor ev.type
  · by_cases hfp : ev.identity = fp
    · cases hev : ev.isRecovery with
      | false => exact .inr ⟨rfl,hfp,hoffered⟩
      | true =>
        rw [← hfp,respond_settles hon hs hchannels hoffered hev] at hfiring
        exact nomatch hfiring
    · rw [respond_elsewhere hon hs hfp] at hfiring
      exact .inl hfiring
  · rw [respond_unoffered hon hs hr hoffered] at hfiring
    exact .inl hfiring

end Steps

section Runs

variable {env : Env} {eng : Engine} {r : StoredRule} {s : State} {ev : Event} {fp : String}

theorem after_fixed (s : State) (evs : List Event) :
    (after env eng s evs).store.rules = s.store.rules ∧ (after env eng s evs).outside = s.outside := by
  induction evs generalizing s with
  | nil => exact ⟨rfl,rfl⟩
  | cons ev evs ih =>
    obtain ⟨hrules,houtside⟩ := eval_fixed (evaluate env eng ev) s
    obtain ⟨hr,ho⟩ := ih (respond env eng s ev).1
    exact ⟨hr.trans hrules,ho.trans houtside⟩

theorem after_append (s : State) (xs ys : List Event) :
    after env eng s (xs ++ ys) = after env eng (after env eng s xs) ys := List.foldl_append

theorem firing_kept (hon : eng.on = true) (hs : s.Sound) (h : r.Open env)
    (hr : r ∈ s.store.rules.rows) (htype : r.eventType.isRecovery = false)
    (hev : ev.type.firing = r.eventType → ev.identity ≠ fp)
    (hfiring : s.store.lastState r.id fp = .firing) :
    (respond env eng s ev).1.store.lastState r.id fp = .firing := by
  by_cases hfp : ev.identity = fp
  · by_cases hoffered : r ∈ s.store.rulesFor ev.type
    · obtain ⟨-,-,htypes,-⟩ := Store.mem_rulesFor.mp hoffered
      rcases htypes with ht | ht
      · have hrec : ev.isRecovery = false := by rwa [Event.isRecovery,← ht]
        rw [(open_firing hon hs h hoffered hrec).2,if_pos hfp.symm]
      · exact absurd hfp (hev ht.symm)
    · rw [respond_unoffered hon hs hr hoffered,hfiring]
  · rw [respond_elsewhere hon hs hfp,hfiring]

theorem firing_lasts (hon : eng.on = true) (hs : s.Sound) (h : r.Open env)
    (hr : r ∈ s.store.rules.rows) (htype : r.eventType.isRecovery = false) {evs : List Event}
    (hevs : ∀ ev ∈ evs, ev.type.firing = r.eventType → ev.identity ≠ fp)
    (hfiring : s.store.lastState r.id fp = .firing) :
    (after env eng s evs).store.lastState r.id fp = .firing := by
  induction evs generalizing s with
  | nil => exact hfiring
  | cons ev evs ih =>
    obtain ⟨hrules,houtside⟩ := eval_fixed (evaluate env eng ev) s
    refine ih (hs.of_outside houtside) (hrules ▸ hr) (fun x hx => hevs x (List.mem_cons_of_mem ev hx)) ?_
    exact firing_kept hon hs h hr htype (hevs ev List.mem_cons_self) hfiring

theorem firing_not_recovery (t : EventType) : t.firing.isRecovery = false := by
  cases t <;> rfl

theorem recovery_of_firing {t : EventType} (h : t.firing ≠ .blank) : t.isRecovery = true := by
  cases t with
  | agentOnline => rfl
  | serverAlertResolved => rfl
  | agentOffline => exact absurd rfl h
  | serverAlert => exact absurd rfl h
  | other raw unknown => exact absurd rfl h

theorem firing_inj {t u : EventType} (h : t.firing = u.firing) (hu : u.firing ≠ .blank) : t = u := by
  have ht := recovery_of_firing (h ▸ hu)
  have hu := recovery_of_firing hu
  simp only [EventType.isRecovery,Bool.or_eq_true,beq_iff_eq] at ht hu
  rcases ht with rfl | rfl <;> rcases hu with rfl | rfl <;> first | rfl | exact absurd h (by decide)

theorem never_firing_kept (hon : eng.on = true) (hs : s.Sound) (h : r.Open env)
    (hr : r ∈ s.store.rules.rows) (htype : r.eventType.isRecovery = true)
    (hnever : ∀ fp, s.store.lastState r.id fp ≠ .firing) (fp : String) :
    (respond env eng s ev).1.store.lastState r.id fp ≠ .firing := by
  by_cases hoffered : r ∈ s.store.rulesFor ev.type
  · obtain ⟨-,-,htypes,-⟩ := Store.mem_rulesFor.mp hoffered
    rcases htypes with ht | ht
    · have hrec : ev.isRecovery = true := by rwa [Event.isRecovery,← ht]
      rw [(open_silent hon hs h hoffered hrec (hnever _)).2]
      split
      · exact LastState.noConfusion
      · exact hnever fp
    · rw [ht,firing_not_recovery] at htype
      exact absurd htype Bool.false_ne_true
  · rw [respond_unoffered hon hs hr hoffered]
    exact hnever fp

theorem never_firing_lasts (hon : eng.on = true) (hs : s.Sound) (h : r.Open env)
    (hr : r ∈ s.store.rules.rows) (htype : r.eventType.isRecovery = true)
    (hnever : ∀ fp, s.store.lastState r.id fp ≠ .firing) (evs : List Event) (fp : String) :
    (after env eng s evs).store.lastState r.id fp ≠ .firing := by
  induction evs generalizing s with
  | nil => exact hnever fp
  | cons ev evs ih =>
    obtain ⟨hrules,houtside⟩ := eval_fixed (evaluate env eng ev) s
    exact ih (hs.of_outside houtside) (hrules ▸ hr) (never_firing_kept hon hs h hr htype hnever)

theorem offered_own (h : r.Open env) (hr : r ∈ s.store.rules.rows)
    (htype : r.eventType = ev.type ∨ r.eventType = ev.type.firing) : r ∈ s.store.rulesFor ev.type :=
  Store.mem_rulesFor.mpr ⟨hr,h.enabled,htype,.inr h.recovers⟩

end Runs

theorem recovery_liveness (env : Env) (eng : Engine) (hon : eng.on = true) (p : RuleParams)
    (hp : validateRuleFull env p = .ok ()) (hseverity : p.severity = "")
    (hcondition : parseCondition env p.conditionJSON = .ok none) (hcooldown : p.cooldownSeconds = 0)
    (group id : Nat) (s : State) (hs : s.Sound)
    (hr : p.stored group true true id ∈ s.store.rules.rows) :
    (p.eventType.isRecovery = false →
      (∀ before ev, ev.type = p.eventType →
        Notifies env eng (after env eng s before) ev (p.stored group true true id)) ∧
      ∀ before fired mid ev, fired.type = p.eventType → ev.type.firing = p.eventType →
        ev.identity = fired.identity →
        (∀ x ∈ mid, x.type = ev.type → x.identity ≠ fired.identity) →
        Notifies env eng (after env eng s (before ++ fired :: mid)) ev (p.stored group true true id)) ∧
    (p.eventType.isRecovery = true → (∀ fp, s.store.lastState id fp ≠ .firing) →
      ∀ before ev, ev.type = p.eventType →
        verdict env eng (after env eng s before) ev id = some (.ok (.suppressed .withoutFiring))) := by
  have h := stored_open hp hseverity hcondition hcooldown group id
  have hsound : ∀ evs, (after env eng s evs).Sound := fun evs => hs.of_outside (after_fixed s evs).2
  have hmem : ∀ evs, p.stored group true true id ∈ (after env eng s evs).store.rules.rows := by
    intro evs
    rw [(after_fixed s evs).1]
    exact hr
  refine ⟨fun htype => ⟨?_,?_⟩,fun htype hnever => ?_⟩
  · intro before ev hev
    have hrec : ev.isRecovery = false := by rwa [Event.isRecovery,hev]
    exact (open_firing hon (hsound before) h (offered_own h (hmem before) (.inl hev.symm)) hrec).1
  · intro before fired mid ev hfired hev hfp hmid
    have hblank : ev.type.firing ≠ .blank := by
      intro hb
      have hsupported := (validateRuleFull_ok.mp hp).supported
      rw [← hev,hb] at hsupported
      exact absurd hsupported (by decide)
    have hfiring : (after env eng s (before ++ fired :: mid)).store.lastState id ev.identity =
        .firing := by
      have hrec : fired.isRecovery = false := by rwa [Event.isRecovery,hfired]
      have hclaimed := (open_firing hon (hsound before) h
        (offered_own h (hmem before) (.inl hfired.symm)) hrec).2 ev.identity
      rw [if_pos hfp] at hclaimed
      have hfixed := eval_fixed (evaluate env eng fired) (after env eng s before)
      rw [after_append]
      refine firing_lasts hon ((hsound before).of_outside hfixed.2) h (hfixed.1 ▸ hmem before) htype
        ?_ hclaimed
      intro x hx hxt
      exact hfp ▸ hmid x hx (firing_inj (hxt.trans hev.symm) hblank)
    exact open_recovered hon (hsound _) h (offered_own h (hmem _) (.inr hev.symm))
      (recovery_of_firing hblank) hfiring
  · intro before ev hev
    have hrec : ev.isRecovery = true := by rwa [Event.isRecovery,hev]
    exact (open_silent hon (hsound before) h (offered_own h (hmem before) (.inl hev.symm)) hrec
      (never_firing_lasts hon hs h hr htype hnever before _)).1

def Env.plain : Env where
  quote s := "\"" ++ s ++ "\""
  decode _ := .error "unexpected token"

def Engine.direct : Engine := ⟨true,true,true,false⟩

def RuleParams.watching (t : EventType) : RuleParams where
  name := "watch"
  description := ""
  eventType := t
  severity := ""
  conditionJSON := ""
  channels := ["EMAIL","IN_APP"]
  cooldownSeconds := 0
  repeatIntervalSec := 0
  maxRepeats := 0
  digestMode := "immediate"
  digestIntervalMin := 60
  groupBy := []

def State.watched (t : EventType) : State where
  store := ⟨Serial.empty.insert ((RuleParams.watching t).stored 1 true true) fun _ => rfl,
    fun _ _ => none⟩
  tick := 0
  outside _ := ⟨Go.second,none,none⟩

def Event.cpu (t : EventType) : Event where
  type := t
  serverID := some 7
  severity := "WARNING"
  condition := "cpu_high"
  value := 95
  message := "cpu"
  fingerprint := ""
  timestamp := 0
  alertID := none

theorem recovered_alert_notified :
    Notifies .plain .direct (after .plain .direct (.watched .serverAlert) [.cpu .serverAlert])
        (.cpu .serverAlertResolved) ((RuleParams.watching .serverAlert).stored 1 true true 0) ∧
      verdict .plain .direct (after .plain .direct (.watched .agentOnline) [.cpu .agentOffline])
        (.cpu .agentOnline) 0 = some (.ok (.suppressed .withoutFiring)) := by
  have hfiring := recovery_liveness .plain .direct rfl (.watching .serverAlert) (by decide) rfl
    (by decide) rfl 1 0 (.watched .serverAlert) (fun _ => rfl) (List.mem_singleton_self _)
  have hrecovery := recovery_liveness .plain .direct rfl (.watching .agentOnline) (by decide) rfl
    (by decide) rfl 1 0 (.watched .agentOnline) (fun _ => rfl) (List.mem_singleton_self _)
  exact ⟨(hfiring.1 rfl).2 [] (.cpu .serverAlert) [] (.cpu .serverAlertResolved) rfl rfl rfl (by simp),
    hrecovery.2 rfl (fun _ => by simp [Store.lastState,State.watched]) [.cpu .agentOffline]
      (.cpu .agentOnline) rfl⟩

theorem resolved_rule_silent :
    validateRuleFull .plain (.watching .serverAlertResolved) = .ok () ∧
      (RuleParams.watching .serverAlertResolved).severity = "" ∧
      parseCondition .plain (RuleParams.watching .serverAlertResolved).conditionJSON = .ok none ∧
      (RuleParams.watching .serverAlertResolved).cooldownSeconds = 0 ∧
      (RuleParams.watching .serverAlertResolved).stored 1 true true 0 ∈
        (State.watched .serverAlertResolved).store.rules.rows ∧
      EventType.firing .serverAlertResolved = .serverAlert ∧
      (Event.cpu .serverAlert).identity = (Event.cpu .serverAlertResolved).identity ∧
      ¬ Notifies .plain .direct
        (after .plain .direct (.watched .serverAlertResolved) [.cpu .serverAlert])
        (.cpu .serverAlertResolved) ((RuleParams.watching .serverAlertResolved).stored 1 true true 0) := by
  refine ⟨by decide,rfl,by decide,rfl,List.mem_singleton_self _,rfl,rfl,?_⟩
  rintro ⟨handed,hverdict,-⟩
  have hsilent : verdict .plain .direct
      (after .plain .direct (.watched .serverAlertResolved) [.cpu .serverAlert])
      (.cpu .serverAlertResolved) 0 = some (.ok (.suppressed .withoutFiring)) := by rfl
  exact absurd (hsilent.symm.trans hverdict) (by simp)

end Rules
