import ServerHub.Delivery.Cycle
import ServerHub.Delivery.Retention
import ServerHub.Interleave.Precondition

namespace Delivery

open Go Relational Interleave Interleave.Prog

def eventThreshold : String := "threshold"

def legacySeverity (event : String) : String :=
  if event = eventThreshold then "WARNING" else "CRITICAL"

def legacyKey (event title : String) : String := "legacy:" ++ event ++ ":" ++ title

def legacyInput (event title text : String) (channels : List String) (groupID : Nat) : Input where
  key := legacyKey event title
  severity := legacySeverity event
  title := title
  body := text
  channels := channels
  groupID := groupID
  serverID := none
  ruleID := 0
  labels := []
  resource := ""
  isRecovery := false
  cooldownSec := 0
  repeatSec := 0
  maxRepeats := 0
  notifyRecovery := false
  digestMode := ""
  digestIntervalMin := 0
  groupBy := []

def dispatchSend (env : Env) (event title text : String) (channels : List String) (groupID : Nat) :
    Job (Except String Outcome) := dispatch env (legacyInput event title text channels groupID)

inductive LegacyStep where
  | send (text : String) (channels : List String) (groupID : Nat)
  | cleanup (w : Sweep)

def legacyServe (env : Env) (event title : String) (x : State × List Call) :
    LegacyStep → State × List Call
  | .send text channels groupID =>
      (((dispatchSend env event title text channels groupID).run x.1).1,
        call env x.1 (legacyInput event title text channels groupID) :: x.2)
  | .cleanup w => ({ x.1 with store := (cleanupDeliveries w x.1.store).1 },x.2)

def legacyHistory (env : Env) (event title : String) (s : State) (hist : List LegacyStep) :
    State × List Call := hist.foldl (legacyServe env event title) (s,[])

def legacyCadence (row : Option Policy) (event : String) : Cadence where
  cooldown := (Policy.loaded row).cooldownFor (normalizeSeverity (legacySeverity event))
  repeatSec := (Policy.loaded row).repeatIntervalSec
  maxRepeats := (Policy.loaded row).maxRepeats

def Notice.storable (n : Notice) : Bool :=
  (column (truncate n.title 300)).isSome && (column (truncate n.input.body 4000)).isSome

-- why a dispatch that is not gated answers with an error
inductive Refused (outside : Nat → Outside) (i : Input) (e : String) : Prop
  | incomplete (h : i.complete = false)
  | text (h : i.notice.storable = false)
  | database (k : Nat) (h : (outside k).refusal = some e)

section Errors

theorem draft_isSome {n : Notice} (h : n.storable = true) (ts : Int) (ch : Channel) :
    (n.draft ts ch).isSome = true := by
  obtain ⟨ht,hb⟩ := Bool.and_eq_true_iff.mp h
  obtain ⟨title,htitle⟩ := Option.isSome_iff_exists.mp ht
  obtain ⟨body,hbody⟩ := Option.isSome_iff_exists.mp hb
  simp [Notice.draft,htitle,hbody]

theorem enqueue_stored {n : Notice} (h : n.storable = true) (ts : Int) (chs : List Channel) (s : Store) :
    ∃ t, enqueue n ts chs s = .ok t := by
  induction chs generalizing s with
  | nil => exact ⟨s,rfl⟩
  | cons ch chs ih =>
    obtain ⟨d,hd⟩ := Option.isSome_iff_exists.mp (draft_isSome h ts ch)
    simp only [enqueue,hd]
    exact ih (s.addOutbox d)

theorem queued_stored {n : Notice} (h : n.storable = true) (ts : Int) (l : Locals)
    (state : IncidentState) (s : Store) :
    ∃ t, queued n ts l state s = .ok (t,⟨⟨.queued,none⟩,[]⟩) := by
  obtain ⟨t,ht⟩ := enqueue_stored h ts n.channels s
  exact ⟨setState n ts l state true none l.suppressed t,by rw [queued,ht]; rfl⟩

variable {pol : Policy} {n : Notice} {ts : Int} {s : Store}

theorem notify_immediate (hmode : n.input.digestMode ≠ "digest") (l : Locals) (s : Store) :
    notify n ts l s = queued n ts l .firing s := if_neg fun h => hmode h.1

theorem fire_stored (h : n.storable = true) (hmode : n.input.digestMode ≠ "digest") (l : Locals) :
    ∃ r, fire pol n ts l s = .ok r := by
  simp only [fire,notify_immediate hmode]
  split
  · obtain ⟨t,ht⟩ := queued_stored h ts l.reopened .firing (s.forget n.input.key)
    exact ⟨_,ht⟩
  · split
    · exact ⟨_,rfl⟩
    · obtain ⟨t,ht⟩ := queued_stored h ts l .firing s
      exact ⟨_,ht⟩

theorem claimed_error {refusal : Option String} {e : String} (hrec : n.input.isRecovery = false)
    (hmode : n.input.digestMode ≠ "digest") (h : (claimed pol n ts refusal s).2 = .error e) :
    n.storable = false ∨ refusal = some e := by
  rw [or_iff_not_imp_left,Bool.not_eq_false]
  intro hs
  have hstored : ∃ r, fire pol n ts (.scan (s.states n.input.key)) s = .ok r := fire_stored hs hmode _
  obtain ⟨⟨t,rc⟩,hfire⟩ := hstored
  have hclaim : claimAndEnqueue pol n ts s = .ok (t,rc) := by
    simp only [claimAndEnqueue,hrec]
    exact hfire
  cases refusal with
  | none =>
    simp only [claimed,hclaim] at h
    cases h
  | some msg =>
    have hmsg : msg = e := by
      simp only [claimed] at h
      exact Except.error.inj h
    rw [hmsg]

end Errors

section Refusals

variable {outside : Nat → Outside} {i : Input}

-- what a dispatch may expect of its claim
def claimErrors (outside : Nat → Outside) (i : Input) : Observer Stmt Unit where
  Answers := fun q b => match q, b with
    | .claim _ n _, .error e => n = i.notice → n.storable = false ∨ ∃ k, (outside k).refusal = some e
    | _, _ => True
  Allowed _ _ _ := True
  note c _ _ _ := c

def Explained (outside : Nat → Outside) (i : Input) (a : Except String Outcome) (_ : Unit) : Prop :=
  ∀ e, a = .error e → Refused outside i e

theorem claimErrors_quiet : (claimErrors outside i).Quiet fun _ => True :=
  ⟨fun _ _ _ => trivial,fun _ _ _ _ => rfl⟩

theorem uses_any {α : Type} (p : Job α) : p.Uses fun _ => True := by
  induction p with
  | ret a => trivial
  | step i k ih => exact ⟨trivial,fun b => ih b⟩

theorem explained_quiet {α : Type} {Q : α → Unit → Prop} {c : Unit} (p : Job α) (hQ : ∀ a, Q a c) :
    (claimErrors outside i).wp p Q c := claimErrors_quiet.wp (uses_any p) hQ

theorem explained_suppress (n : Notice) (reason : Reason) (c : Unit) :
    (claimErrors outside i).wp (suppressBy n reason) (Explained outside i) c :=
  ⟨trivial,fun _ _ _ he => nomatch he⟩

theorem explained_claim (pol : Policy) (ts : Int) (c : Unit) :
    (claimErrors outside i).wp
      (perform (.claim pol i.notice ts) >>= fun receipt =>
        (pure (receipt.map (·.outcome)) : Job (Except String Outcome))) (Explained outside i) c := by
  refine ⟨trivial,fun b hb e he => ?_⟩
  cases b with
  | ok rc => exact nomatch he
  | error msg =>
    obtain rfl : msg = e := Except.error.inj he
    rcases hb rfl with h | ⟨k,hk⟩
    · exact .text h
    · exact .database k hk

theorem dispatch_explained (env : Env) (outside : Nat → Outside) (i : Input) :
    (claimErrors outside i).wp (dispatch env i) (Explained outside i) () := by
  refine Observer.wp_ite (fun h _ _ => .incomplete (by simpa using h)) fun _ => ?_
  refine (Observer.wp_perform_bind _ _).mpr ⟨trivial,fun ts _ => ?_⟩
  refine Observer.wp_bind.mpr (explained_quiet loadPolicy fun pol => ?_)
  refine Observer.wp_ite (fun _ => explained_suppress _ _ _) fun _ => ?_
  refine (Observer.wp_perform_bind _ _).mpr ⟨trivial,fun windows _ => ?_⟩
  refine Observer.wp_ite (fun _ => explained_suppress _ _ _) fun _ => ?_
  refine Observer.wp_bind.mpr (explained_quiet (loadGroupQuiet i.groupID) fun quiet => ?_)
  generalize quietFor env i.notice quiet ts = within
  exact Observer.wp_ite (fun _ => explained_suppress _ _ _) fun _ => explained_claim pol ts _

theorem claimErrors_step {β : Type} (hrec : i.isRecovery = false) (hmode : i.digestMode ≠ "digest")
    (s : State) (q : Stmt β) : (claimErrors s.outside i).Answers q (q.step s).2 := by
  cases q with
  | claim pol n ts =>
    cases hb : ((Stmt.claim pol n ts).step s).2 with
    | ok rc => trivial
    | error e =>
      rintro rfl
      rcases claimed_error hrec hmode hb with h | h
      · exact .inl h
      · exact .inr ⟨s.tick,h⟩
  | _ => trivial

theorem dispatch_refused (env : Env) {s : State} {e : String} (hrec : i.isRecovery = false)
    (hmode : i.digestMode ≠ "digest") (h : ((dispatch env i).run s).2 = .error e) :
    Refused s.outside i e := by
  have hstep : ∀ (c : Unit) (t : State) {β : Type} (q : Stmt β), t.outside = s.outside →
      (claimErrors s.outside i).Allowed c q →
      (claimErrors s.outside i).Answers q (q.step t).2 ∧ (q.step t).1.outside = s.outside := by
    intro c t β q ht _
    exact ⟨ht ▸ claimErrors_step hrec hmode t q,ht⟩
  obtain ⟨_,hexplained,-⟩ := Observer.wp_eval hstep rfl (dispatch_explained env s.outside i)
  exact hexplained e h

end Refusals

section Steps

variable {env : Env} {event title : String} {row : Option Policy} {x : State × List Call}

theorem legacy_cadence (row : Option Policy) (event title text : String) (channels : List String)
    (groupID : Nat) :
    cadence (Policy.loaded row) (legacyInput event title text channels groupID).notice =
      legacyCadence row event := by
  simp [cadence,legacyCadence,legacyInput,Input.notice]

theorem claim_queued {pol : Policy} {n : Notice} {ts : Int} {s t : Store} {rc : Receipt}
    (hrec : n.input.isRecovery = false) (hmode : n.input.digestMode ≠ "digest")
    (h : claimAndEnqueue pol n ts s = .ok (t,rc)) (hrc : rc.outcome.action ≠ .suppressed) :
    rc.outcome = ⟨.queued,none⟩ := by
  have hqueued : ∀ l u, queued n ts l .firing u = .ok (t,rc) → rc.outcome = ⟨.queued,none⟩ := by
    intro l u hq
    obtain ⟨v,-,hv⟩ := except_bind_ok hq
    simp only [pure,Except.pure,Except.ok.injEq,Prod.mk.injEq] at hv
    rw [← hv.2]
  simp only [claimAndEnqueue,hrec,fire,notify_immediate hmode] at h
  rw [if_neg Bool.false_ne_true] at h
  split at h
  · exact hqueued _ _ h
  · split at h
    · simp only [suppressed,Except.ok.injEq,Prod.mk.injEq] at h
      rw [← h.2] at hrc
      exact absurd rfl hrc
    · exact hqueued _ _ h

theorem not_sub_lt {t u d : Int} (hd : d ≤ maxDuration) (h : d ≤ t - u) : ¬ sub t u < d := by
  unfold sub maxDuration
  unfold maxDuration at hd
  split
  · omega
  · split <;> omega

theorem held_after_gap {c : Cadence} {ts : Int} {r : DeliveryState} (hc : Effective c)
    (hr : r.lastState = .firing) (hgap : c.gap ≤ ts - r.lastNotifiedAt) :
    (Locals.scan (some r)).held c ts =
      if c.maxRepeats ≤ r.repeatCount then some .maxRepeats else none := by
  have hcool : ¬ sub ts r.lastNotifiedAt < c.cooldown :=
    not_sub_lt hc.cooldown (Int.le_trans (Int.le_max_left _ _) hgap)
  have hsec : ¬ sub ts r.lastNotifiedAt < seconds c.repeatSec :=
    not_sub_lt (seconds_le _) (Int.le_trans (Int.le_max_right _ _) hgap)
  simp [Locals.scan,Locals.held,hr,hcool,hsec]

def notifications (log : List Call) : Nat := (log.filter Call.notified).length

theorem notifications_eq {log : List Call} (h : ∀ y ∈ log, y.input.isRecovery = false) :
    notifications log = (firings log).length := by
  have hopen : ∀ y ∈ log, y.closes = false := by
    intro y hy
    simp [Call.closes,h y hy]
  have hfires : log.filter Call.fires = log.filter Call.notified := by
    refine List.filter_congr fun y hy => ?_
    simp [Call.fires,h y hy]
  have hall : firings (log ++ []) = (log.filter Call.fires).map Call.ts ++ firings [] :=
    firings_append hopen
  rw [List.append_nil] at hall
  rw [hall,hfires]
  simp [notifications,firings]

-- the row is never resolved, and the notifications of its cycle are all there ever were
structure Ringing (c : Cadence) (now : Int) (row : Option DeliveryState) (log : List Call) : Prop where
  tracked : Tracked c now row log
  past : ∀ y ∈ log.head?, ∀ t ∈ firings log, t ≤ y.ts
  live : ∀ r, row = some r → r.lastState ≠ .resolved
  firing : ∀ y ∈ log, y.input.isRecovery = false

def Allowed (c : Cadence) (earlier : List Call) : Outcome :=
  if (notifications earlier : Int) ≤ c.maxRepeats then ⟨.queued,none⟩ else ⟨.suppressed,some .maxRepeats⟩

def Answers (outside : Nat → Outside) (c : Cadence) (x : Call) (earlier : List Call) : Prop :=
  x.gate = none → (∀ y ∈ earlier.head?, c.gap ≤ x.ts - y.ts) →
    x.answer = .ok (Allowed c earlier) ∨ ∃ e, x.answer = .error e ∧ Refused outside x.input e

variable {c : Cadence} {i : Input} {s : State} {log : List Call}

theorem moves_allowed {o : Outcome} {r' : DeliveryState} (hc : Effective c)
    (h : Ringing c s.now.clock (s.store.states i.key) log)
    (hgap : ∀ y ∈ log.head?, c.gap ≤ s.now.clock - y.ts)
    (hqueued : o.action ≠ .suppressed → o = ⟨.queued,none⟩)
    (hm : Moves c s.now.clock (s.store.states i.key) false o r') : o = Allowed c log := by
  have hcount := notifications_eq h.firing
  have hfar : ∀ r, s.store.states i.key = some r → r.lastState = .firing →
      c.gap ≤ s.now.clock - r.lastNotifiedAt ∧ (notifications log : Int) = r.repeatCount + 1 := by
    intro r hold hr
    obtain ⟨before,hlog,hlen⟩ := h.tracked.live r hold hr
    rw [hcount,hlog,hlen]
    refine ⟨?_,by simp⟩
    cases log with
    | nil => exact nomatch hlog
    | cons y log =>
      have hpast : r.lastNotifiedAt ≤ y.ts := h.past y rfl _ (by simp [hlog])
      have hy := hgap y rfl
      omega
  cases hm with
  | @held r _ reason hold hr hheld hrow hlast hrep =>
    obtain ⟨hd,hn⟩ := hfar r hold hr
    rw [hold,held_after_gap hc hr hd] at hheld
    split at hheld
    · rename_i hmax
      obtain rfl := Option.some.inj hheld
      rw [Allowed,if_neg (by omega)]
    · exact nomatch hheld
  | opened hold ho hrow hlast hrep =>
    have hnone : notifications log = 0 := by
      rw [hcount,h.tracked.idle hold]
      rfl
    have hmax := hc.maxRepeats
    rw [hqueued ho,Allowed,if_pos (by omega)]
  | @repeated r _ _ hold hr hheld ho hrow hlast hrep =>
    obtain ⟨hd,hn⟩ := hfar r hold hr
    rw [hold,held_after_gap hc hr hd] at hheld
    split at hheld
    · exact nomatch hheld
    · rw [hqueued ho,Allowed,if_pos (by omega)]

theorem call_answers (env : Env) (hc : Effective c) (hrec : i.isRecovery = false)
    (hmode : i.digestMode ≠ "digest") (hcad : cadence s.policy i.notice = c)
    (h : Ringing c s.now.clock (s.store.states i.key) log) :
    Answers s.outside c (call env s i) log := by
  intro hgate hgap
  have ha : (call env s i).answer = ((dispatch env i).run s).2 := rfl
  rw [ha]
  cases dispatch_dispatched env i s with
  | refused e hstore hanswer =>
    exact .inr ⟨e,hanswer,dispatch_refused env hrec hmode hanswer⟩
  | gated reason now hg hstore hanswer => exact nomatch hg.symm.trans hgate
  | claimed rc hg hclaim hanswer =>
    obtain ⟨row',-,hm⟩ := claim_moves hclaim
    have hfalse : i.notice.input.isRecovery = false := hrec
    rw [hcad,hfalse] at hm
    have ho := moves_allowed hc h hgap (claim_queued hrec hmode hclaim) hm
    exact .inl (hanswer.trans (congrArg Except.ok ho))

theorem answered_live {row' : Option DeliveryState} {a : Except String Outcome}
    (hrec : i.isRecovery = false) (h : ∀ r, s.store.states i.key = some r → r.lastState ≠ .resolved)
    (hd : Answered env s i row' a) : ∀ r, row' = some r → r.lastState ≠ .resolved := by
  cases hd with
  | refused e => exact h
  | gated hg ht =>
    cases hold : s.store.states i.key with
    | none =>
      rw [hold] at ht
      obtain ⟨row,rfl,hst,-⟩ := ht
      rintro _ ⟨⟩ hres
      exact nomatch hst.symm.trans hres
    | some r =>
      rw [hold] at ht
      obtain ⟨row,rfl,hst,-⟩ := ht
      rintro _ ⟨⟩ hres
      exact h r hold (hst.symm.trans hres)
  | claimed hg hm =>
    rw [hrec] at hm
    rintro _ ⟨⟩ hres
    cases hm with
    | held hold hr hheld hrow => exact nomatch hrow.symm.trans hres
    | opened hold ho hrow => exact nomatch hrow.symm.trans hres
    | repeated hold hr hheld ho hrow => exact nomatch hrow.symm.trans hres

theorem ringing_call (env : Env) (hc : Effective c) (hrec : i.isRecovery = false)
    (hcad : ∀ t, cadence (Policy.loaded (s.outside t).policy) i.notice = c)
    (h : Ringing c s.now.clock (s.store.states i.key) log) :
    Ringing c s.now.clock (((dispatch env i).run s).1.store.states i.key) (call env s i :: log) := by
  have hd := dispatch_answered env i s
  have htracked : Tracked c s.now.clock (((dispatch env i).run s).1.store.states i.key)
      (call env s i :: log) := h.tracked.answered hc hcad hd
  refine ⟨htracked,?_,answered_live hrec h.live hd,?_⟩
  · rintro y ⟨⟩ t ht
    exact htracked.past t ht
  · intro y hy
    rcases List.mem_cons.mp hy with rfl | hy
    · exact hrec
    · exact h.firing y hy

theorem Ringing.later {now now' : Int} {row : Option DeliveryState} (h : Ringing c now row log)
    (hle : now ≤ now') : Ringing c now' row log := { h with tracked := h.tracked.later hle }

end Steps

section Runs

variable {env : Env} {event title : String} {row : Option Policy} {outside : Nat → Outside}

structure Followed (outside : Nat → Outside) (c : Cadence) (key : String) (x : State × List Call) :
    Prop where
  same : x.1.outside = outside
  ringing : Ringing c x.1.now.clock (x.1.store.states key) x.2
  answers : ∀ y earlier, y :: earlier <:+ x.2 → Answers outside c y earlier

theorem followed_start {s : State} {key : String} (hnew : s.store.states key = none) (n : Notice) :
    Followed s.outside (cadence (Policy.loaded row) n) key (s,[]) where
  same := rfl
  ringing := by
    rw [hnew]
    exact ⟨tracked_start (cadence_effective row n) _,by simp,by simp,by simp⟩
  answers y earlier h := nomatch List.suffix_nil.mp h

theorem followed_send {x : State × List Call} {c : Cadence} {i : Input} (hc : Effective c)
    (hclock : Monotone fun k => (outside k).clock) (hrec : i.isRecovery = false)
    (hmode : i.digestMode ≠ "digest")
    (hcad : ∀ k, cadence (Policy.loaded (outside k).policy) i.notice = c)
    (h : Followed outside c i.key x) : Followed outside c i.key (serve env x i) := by
  obtain ⟨rfl,hring,hanswers⟩ := h
  obtain ⟨ho,ht⟩ := run_clock (dispatch env i) x.1
  have hle : x.1.now.clock ≤ (serve env x i).1.now.clock := by
    have hm := hclock ht
    simp only [State.now,serve,ho]
    exact hm
  refine ⟨ho,(ringing_call env hc hrec hcad hring).later hle,?_⟩
  intro y earlier hy
  rcases List.suffix_cons_iff.mp hy with he | hy
  · obtain ⟨rfl,rfl⟩ := List.cons.inj he
    exact call_answers env hc hrec hmode (hcad (x.1.tick + 1)) hring
  · exact hanswers y earlier hy

theorem followed_cleanup {x : State × List Call} {c : Cadence} {key : String} (w : Sweep)
    (h : Followed outside c key x) :
    Followed outside c key ({ x.1 with store := (cleanupDeliveries w x.1.store).1 },x.2) := by
  refine ⟨h.same,?_,h.answers⟩
  show Ringing c x.1.now.clock ((cleanupDeliveries w x.1.store).1.states key) x.2
  rw [cleanupDeliveries_live h.ringing.live]
  exact h.ringing

theorem followed_run {hist : List LegacyStep} {x : State × List Call}
    (hclock : Monotone fun k => (outside k).clock) (hpolicy : ∀ k, (outside k).policy = row)
    (h : Followed outside (legacyCadence row event) (legacyKey event title) x) :
    Followed outside (legacyCadence row event) (legacyKey event title)
      (hist.foldl (legacyServe env event title) x) := by
  induction hist generalizing x with
  | nil => exact h
  | cons e hist ih =>
    refine ih ?_
    cases e with
    | cleanup w => exact followed_cleanup w h
    | send text channels groupID =>
      have hcad := legacy_cadence row event title text channels groupID
      have hc : Effective (legacyCadence row event) := hcad ▸ cadence_effective row _
      have hmode : (legacyInput event title text channels groupID).digestMode ≠ "digest" := by
        show "" ≠ "digest"
        decide
      exact followed_send hc hclock rfl hmode (fun k => by rw [hpolicy k]; exact hcad) h

theorem legacy_followed (env : Env) (s : State) (event title : String) (row : Option Policy)
    (hist : List LegacyStep)
    (hnew : s.store.states (legacyKey event title) = none)
    (hpolicy : ∀ k, (s.outside k).policy = row) (hclock : Monotone fun k => (s.outside k).clock) :
    Followed s.outside (legacyCadence row event) (legacyKey event title)
      (legacyHistory env event title s hist) := by
  refine followed_run hclock hpolicy ?_
  have hcad := legacy_cadence row event title "" [] 0
  rw [← hcad]
  exact followed_start hnew _

theorem legacy_queued_until_spent (env : Env) (s : State) (event title : String) (row : Option Policy)
    (hist : List LegacyStep) (hnew : s.store.states (legacyKey event title) = none)
    (hpolicy : ∀ k, (s.outside k).policy = row) (hclock : Monotone fun k => (s.outside k).clock) :
    ∀ x earlier, x :: earlier <:+ (legacyHistory env event title s hist).2 → x.gate = none →
      (∀ y ∈ earlier.head?, (legacyCadence row event).gap ≤ x.ts - y.ts) →
      x.answer = .ok (if (notifications earlier : Int) ≤ (Policy.loaded row).maxRepeats
          then ⟨.queued,none⟩ else ⟨.suppressed,some .maxRepeats⟩) ∨
        ∃ e, x.answer = .error e ∧ Refused s.outside x.input e :=
  (legacy_followed env s event title row hist hnew hpolicy hclock).answers

end Runs

section Sample

def failed : LegacyStep := .send "Backup failed" ["EMAIL"] 0

def pruning (now : Int) : LegacyStep :=
  .cleanup ⟨1,now,now,fun _ => 0,[legacyKey "backup_failed" "Backup failed"],fun _ _ => false⟩

theorem hourly_monotone : Monotone fun t => (hourly t).clock := by
  intro t u htu
  simp only [hourly,Outside.at,second]
  omega

theorem legacy_failures_queued :
    (∀ x earlier, x :: earlier <:+ (legacyHistory .utc "backup_failed" "Backup failed"
        ⟨.empty,0,hourly⟩ [failed,pruning (100 * fullDay),failed]).2 → x.gate = none →
      (∀ y ∈ earlier.head?, (legacyCadence (some defaultPolicy) "backup_failed").gap ≤ x.ts - y.ts) →
      x.answer = .ok (if (notifications earlier : Int) ≤ (Policy.loaded (some defaultPolicy)).maxRepeats
          then ⟨.queued,none⟩ else ⟨.suppressed,some .maxRepeats⟩) ∨
        ∃ e, x.answer = .error e ∧ Refused hourly x.input e) ∧
      (legacyHistory .utc "backup_failed" "Backup failed" ⟨.empty,0,hourly⟩
        [failed,pruning (100 * fullDay),failed]).2.map Call.notified = [true,true] := by
  constructor
  · exact legacy_queued_until_spent .utc ⟨.empty,0,hourly⟩ "backup_failed" "Backup failed"
      (some defaultPolicy) [failed,pruning (100 * fullDay),failed] rfl (fun _ => rfl) hourly_monotone
  · decide

theorem notified_allowed {c : Cadence} {x : Call} {earlier : List Call}
    (h : x.answer = .ok (Allowed c earlier)) :
    x.notified = decide ((notifications earlier : Int) ≤ c.maxRepeats) := by
  have hx : x.notified = decide ((Allowed c earlier).action ≠ .suppressed) := by
    unfold Call.notified
    rw [h]
  rw [hx]
  unfold Allowed
  split
  · rename_i hle
    rw [decide_eq_true hle]
    rfl
  · rename_i hgt
    rw [decide_eq_false hgt]
    rfl

theorem notifications_spent {c : Cadence} {log : List Call} (hmax : 0 ≤ c.maxRepeats)
    (h : ∀ x earlier, x :: earlier <:+ log → x.answer = .ok (Allowed c earlier)) :
    (notifications log : Int) = min (log.length : Int) (c.maxRepeats + 1) := by
  induction log with
  | nil =>
    rw [List.length_nil,min_eq_left (by omega)]
    rfl
  | cons x log ih =>
    have hrest := ih fun y earlier hy => h y earlier (hy.trans (List.suffix_cons x log))
    have hx := notified_allowed (h x log List.suffix_rfl)
    by_cases hle : (notifications log : Int) ≤ c.maxRepeats
    · have hcount : notifications (x :: log) = notifications log + 1 := by
        rw [notifications,List.filter_cons_of_pos (by simpa [hx] using hle)]
        rfl
      rw [List.length_cons]
      omega
    · have hcount : notifications (x :: log) = notifications log := by
        rw [notifications,List.filter_cons_of_neg (by simpa [hx] using hle)]
        rfl
      rw [List.length_cons]
      omega

-- two statements are at least d seconds and two hours apart
def spread (d t : Nat) : Outside := .at (t * (d + 7200))

theorem spread_monotone (d : Nat) : Monotone fun t => (spread d t).clock := by
  intro t u htu
  have h : t * (d + 7200) ≤ u * (d + 7200) := Nat.mul_le_mul_right _ htu
  simp only [spread,Outside.at,second]
  omega

theorem spread_step {d t u : Nat} (h : t + 1 ≤ u) :
    (d + 7200) * second ≤ (spread d u).clock - (spread d t).clock := by
  have hmul : (t + 1) * (d + 7200) ≤ u * (d + 7200) := Nat.mul_le_mul_right _ h
  rw [Nat.add_mul,Nat.one_mul] at hmul
  simp only [spread,Outside.at,second]
  omega

def backupFailed : Input := legacyInput "backup_failed" "Backup failed" "Backup failed" ["EMAIL"] 0

theorem backupFailed_complete : backupFailed.complete = true := by decide

theorem spread_gate {s : State} {d : Nat} (h : s.outside = spread d) :
    s.gate .utc backupFailed = none := by
  have hoff : ∀ ts, quietFor .utc backupFailed.notice .off ts = false := fun _ => rfl
  have hpause : ∀ ts, Policy.pauseActive defaultPolicy ts = false := fun _ => rfl
  have hpolicy : s.policy = defaultPolicy := by
    show Policy.loaded (s.outside (s.tick + 1)).policy = defaultPolicy
    rw [h]
    rfl
  have hwindows : ∀ k, (s.wait k).now.windows = [] := by
    intro k
    show (s.outside (s.tick + k)).windows = []
    rw [h]
    rfl
  have hquiet : ∀ u : State, u.groupQuiet backupFailed.groupID = .off := fun _ => rfl
  unfold State.gate
  simp only [hpolicy,hpause,hquiet,hoff,wait_wait,hwindows,List.filter_nil]
  rfl

theorem dispatch_later (env : Env) {i : Input} (h : i.complete = true) (s : State) :
    s.tick + 1 ≤ ((dispatch env i).run s).1.tick := by
  unfold dispatch
  dsimp only
  rw [if_neg (by simp [h]),run_perform_bind]
  exact (run_clock _ (Stmt.clock.step s).1).2

structure Apart (d : Nat) (x : State × List Call) : Prop where
  outside : x.1.outside = spread d
  calls : ∀ y earlier, y :: earlier <:+ x.2 → y.gate = none ∧ y.input = backupFailed ∧
    ∀ z ∈ earlier.head?, (d + 7200) * second ≤ y.ts - z.ts
  last : ∀ z ∈ x.2.head?, (d + 7200) * second ≤ x.1.now.clock - z.ts

theorem apart_send {d : Nat} {x : State × List Call} (h : Apart d x) :
    Apart d (serve .utc x backupFailed) := by
  obtain ⟨ho,-⟩ := run_clock (dispatch .utc backupFailed) x.1
  have hlater := dispatch_later .utc backupFailed_complete x.1
  have hsame : (serve .utc x backupFailed).1.outside = spread d := ho.trans h.outside
  refine ⟨hsame,?_,?_⟩
  · intro y earlier hy
    rcases List.suffix_cons_iff.mp hy with he | hy
    · obtain ⟨rfl,rfl⟩ := List.cons.inj he
      exact ⟨spread_gate h.outside,rfl,h.last⟩
    · exact h.calls y earlier hy
  · rintro z ⟨⟩
    show _ ≤ (serve .utc x backupFailed).1.now.clock - x.1.now.clock
    unfold State.now
    rw [hsame,h.outside]
    exact spread_step hlater

theorem apart_run (d n : Nat) :
    Apart d (legacyHistory .utc "backup_failed" "Backup failed" ⟨.empty,0,spread d⟩
        (List.replicate n failed)) ∧
      (legacyHistory .utc "backup_failed" "Backup failed" ⟨.empty,0,spread d⟩
        (List.replicate n failed)).2.length = n := by
  induction n with
  | zero => exact ⟨⟨rfl,(fun _ _ h => nomatch List.suffix_nil.mp h),fun _ h => nomatch h⟩,rfl⟩
  | succ n ih =>
    rw [legacyHistory,List.replicate_succ',List.foldl_append]
    exact ⟨apart_send ih.1,congrArg (· + 1) ih.2⟩

theorem spread_silenced (d : Nat) :
    (∀ k, (spread d k).policy = some defaultPolicy) ∧
      Monotone (fun t => (spread d t).clock) ∧
      ∃ x earlier, x :: earlier <:+ (legacyHistory .utc "backup_failed" "Backup failed"
          ⟨.empty,0,spread d⟩ (List.replicate 5 failed)).2 ∧ x.gate = none ∧
        (∀ y ∈ earlier.head?, d * second ≤ x.ts - y.ts) ∧
        x.answer = .ok ⟨.suppressed,some .maxRepeats⟩ := by
  obtain ⟨hapart,hlen⟩ := apart_run d 5
  have hfollowed : Followed (spread d) (legacyCadence (some defaultPolicy) "backup_failed")
      (legacyKey "backup_failed" "Backup failed") (legacyHistory .utc "backup_failed" "Backup failed"
        ⟨.empty,0,spread d⟩ (List.replicate 5 failed)) :=
    legacy_followed .utc ⟨.empty,0,spread d⟩ _ _ _ _ rfl (fun _ => rfl) (spread_monotone d)
  generalize legacyHistory .utc "backup_failed" "Backup failed" ⟨.empty,0,spread d⟩
    (List.replicate 5 failed) = run at hapart hlen hfollowed ⊢
  have hanswers : ∀ x earlier, x :: earlier <:+ run.2 →
      x.answer = .ok (Allowed (legacyCadence (some defaultPolicy) "backup_failed") earlier) := by
    intro x earlier hx
    obtain ⟨hgate,hinput,hfar⟩ := hapart.calls x earlier hx
    have hgap : (legacyCadence (some defaultPolicy) "backup_failed").gap = 3600 * second := by decide
    have hwait : ∀ y ∈ earlier.head?,
        (legacyCadence (some defaultPolicy) "backup_failed").gap ≤ x.ts - y.ts := by
      intro y hy
      have hy := hfar y hy
      rw [hgap]
      unfold second at hy ⊢
      omega
    rcases hfollowed.answers x earlier hx hgate hwait with h | ⟨e,-,he⟩
    · exact h
    · rw [hinput] at he
      cases he with
      | incomplete h => exact nomatch h
      | text h => exact nomatch h
      | database k h => exact nomatch h
  obtain ⟨state,log⟩ := run
  cases log with
  | nil => exact nomatch hlen
  | cons x earlier =>
    have hmax : 0 ≤ (legacyCadence (some defaultPolicy) "backup_failed").maxRepeats := by decide
    have hcount := notifications_spent hmax fun y before hy =>
      hanswers y before (hy.trans (List.suffix_cons x earlier))
    have hfour : earlier.length = 4 := Nat.succ.inj hlen
    obtain ⟨hgate,-,hfar⟩ := hapart.calls x earlier List.suffix_rfl
    refine ⟨fun _ => rfl,spread_monotone d,x,earlier,List.suffix_rfl,hgate,?_,?_⟩
    · intro y hy
      have hy := hfar y hy
      unfold second at hy ⊢
      omega
    · rw [hanswers x earlier List.suffix_rfl,Allowed,if_neg]
      rw [hcount,hfour]
      decide

theorem legacy_failures_silenced :
    ¬∃ d : Nat, ∀ outside : Nat → Outside, (∀ k, (outside k).policy = some defaultPolicy) →
      Monotone (fun t => (outside t).clock) → ∀ x earlier,
        x :: earlier <:+ (legacyHistory .utc "backup_failed" "Backup failed" ⟨.empty,0,outside⟩
          (List.replicate 5 failed)).2 → x.gate = none →
        (∀ y ∈ earlier.head?, d * second ≤ x.ts - y.ts) →
          x.answer ≠ .ok ⟨.suppressed,some .maxRepeats⟩ := by
  rintro ⟨d,hheard⟩
  obtain ⟨hpolicy,hclock,x,earlier,hx,hgate,hfar,hsilent⟩ := spread_silenced d
  exact hheard (spread d) hpolicy hclock x earlier hx hgate hfar hsilent

end Sample

end Delivery
