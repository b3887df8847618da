import ServerHub.Delivery.Policy

namespace Delivery

open Go

structure PolicyBody where
  emergencyPause : Option Bool
  pauseUntil : Option String
  pauseReason : Option String
  cooldownCriticalSec : Option Int
  cooldownWarningSec : Option Int
  cooldownInfoSec : Option Int
  repeatIntervalSec : Option Int
  maxRepeats : Option Int
  notifyOnRecovery : Option Bool
  emailPerHour : Option Int
  tgPerHour : Option Int
  digestIntervalMin : Option Int
  clearPause : Option Bool
deriving DecidableEq

structure PolicyPatch where
  emergencyPause : Option Bool
  pauseUntil : Option Int
  pauseReason : Option String
  cooldownCriticalSec : Option Int
  cooldownWarningSec : Option Int
  cooldownInfoSec : Option Int
  repeatIntervalSec : Option Int
  maxRepeats : Option Int
  notifyOnRecovery : Option Bool
  emailPerHour : Option Int
  tgPerHour : Option Int
  digestIntervalMin : Option Int
deriving DecidableEq

def PolicyPatch.empty : PolicyPatch :=
  ⟨none,none,none,none,none,none,none,none,none,none,none,none⟩

def PolicyPatch.apply (p : PolicyPatch) (row : Policy) : Policy where
  emergencyPause := p.emergencyPause.getD row.emergencyPause
  pauseUntil := p.pauseUntil.or row.pauseUntil
  pauseReason := p.pauseReason.getD row.pauseReason
  cooldownCriticalSec := p.cooldownCriticalSec.getD row.cooldownCriticalSec
  cooldownWarningSec := p.cooldownWarningSec.getD row.cooldownWarningSec
  cooldownInfoSec := p.cooldownInfoSec.getD row.cooldownInfoSec
  repeatIntervalSec := p.repeatIntervalSec.getD row.repeatIntervalSec
  maxRepeats := p.maxRepeats.getD row.maxRepeats
  notifyOnRecovery := p.notifyOnRecovery.getD row.notifyOnRecovery
  emailPerHour := p.emailPerHour.getD row.emailPerHour
  tgPerHour := p.tgPerHour.getD row.tgPerHour
  digestIntervalMin := p.digestIntervalMin.getD row.digestIntervalMin

def between (name : String) (v : Option Int) (min max : Int) : Except String Unit :=
  match v with
  | none => .ok ()
  | some v =>
      if v < min ∨ max < v then .error (name ++ " must be " ++ toString min ++ ".." ++ toString max)
      else .ok ()

def day : Int := 24 * 3600

namespace PolicyBody

def checkRanges (b : PolicyBody) : Except String Unit := do
  between "cooldownCriticalSec" b.cooldownCriticalSec 60 (30 * day)
  between "cooldownWarningSec" b.cooldownWarningSec 60 (30 * day)
  between "cooldownInfoSec" b.cooldownInfoSec 60 (30 * day)
  between "repeatIntervalSec" b.repeatIntervalSec 300 (30 * day)
  between "maxRepeats" b.maxRepeats 0 100
  between "emailPerHour" b.emailPerHour 1 10000
  between "tgPerHour" b.tgPerHour 1 10000
  between "digestIntervalMin" b.digestIntervalMin 15 1440

def untilOf (parse : String → Option Int) (now : Int) (b : PolicyBody) : Except String (Option Int) :=
  match b.pauseUntil with
  | none => .ok none
  | some raw =>
      if trimSpace raw = "" then .ok none
      else match parse (trimSpace raw) with
        | none => .error "pauseUntil must be RFC3339"
        | some t => if t < now then .error "pauseUntil must be in the future" else .ok (some t)

def reason (b : PolicyBody) : Except String (Option String) :=
  match b.pauseReason with
  | none => .ok none
  | some raw =>
      if 300 < utf8Length (trimSpace raw) then .error "pauseReason too long (max 300)"
      else .ok (some (trimSpace raw))

def columns (b : PolicyBody) (stop : Option Int) (reason : Option String) : PolicyPatch where
  emergencyPause := if b.clearPause = some true then some false else b.emergencyPause
  pauseUntil := if b.clearPause = some true then none else stop
  pauseReason := if b.clearPause = some true then some "" else reason
  cooldownCriticalSec := b.cooldownCriticalSec
  cooldownWarningSec := b.cooldownWarningSec
  cooldownInfoSec := b.cooldownInfoSec
  repeatIntervalSec := b.repeatIntervalSec
  maxRepeats := b.maxRepeats
  notifyOnRecovery := b.notifyOnRecovery
  emailPerHour := b.emailPerHour
  tgPerHour := b.tgPerHour
  digestIntervalMin := b.digestIntervalMin

def patch (parse : String → Option Int) (now : Int) (b : PolicyBody) : Except String PolicyPatch := do
  b.checkRanges
  let stop ← b.untilOf parse now
  let reason ← b.reason
  if b.columns stop reason = .empty then .error "nothing to update"
  else .ok (b.columns stop reason)

end PolicyBody

structure PolicyUpdate where
  now : Int
  body : Option PolicyBody
  fault : Option String
deriving DecidableEq

inductive PolicyReply where
  | failed (status : Nat) (error : String)
  | ok (p : Policy)
deriving DecidableEq

namespace PolicyUpdate

def serve (parse : String → Option Int) (u : PolicyUpdate) (row : Policy) : Policy × PolicyReply :=
  match u.body with
  | none => (row,.failed 400 "invalid request")
  | some b =>
      match b.patch parse u.now with
      | .error e => (row,.failed 400 e)
      | .ok p =>
          match u.fault with
          | some e => (row,.failed 500 e)
          | none => (p.apply row,.ok (.loaded (some (p.apply row))))

def after (parse : String → Option Int) (row : Policy) (us : List PolicyUpdate) : Policy :=
  us.foldl (fun r u => (u.serve parse r).1) row

def Accepted (parse : String → Option Int) (u : PolicyUpdate) (b : PolicyBody)
    (stop : Option Int) : Prop :=
  u.body = some b ∧ b.untilOf parse u.now = .ok stop ∧
    ∀ row, ∃ p, (u.serve parse row).2 = .ok p

def Pauses (parse : String → Option Int) (u : PolicyUpdate) (stop : Option Int) : Prop :=
  ∃ b, u.Accepted parse b stop ∧ b.emergencyPause = some true ∧ b.clearPause ≠ some true

def Ends (parse : String → Option Int) (u : PolicyUpdate) : Prop :=
  ∃ b stop, u.Accepted parse b stop ∧
    (b.emergencyPause = some false ∨ b.clearPause = some true ∨ stop ≠ none)

section Steps

variable {parse : String → Option Int} {u : PolicyUpdate} {b : PolicyBody} {stop : Option Int}
  {row : Policy}

theorem patch_ok {p : PolicyPatch} {now : Int} (h : b.patch parse now = .ok p) :
    ∃ stop reason, b.untilOf parse now = .ok stop ∧ p = b.columns stop reason := by
  simp only [PolicyBody.patch] at h
  cases hranges : b.checkRanges with
  | error e => simp [hranges,bind,Except.bind] at h
  | ok _ =>
    cases huntil : b.untilOf parse now with
    | error e => simp [hranges,huntil,bind,Except.bind] at h
    | ok stop =>
      cases hreason : b.reason with
      | error e => simp [hranges,huntil,hreason,bind,Except.bind] at h
      | ok reason =>
        simp only [hranges,huntil,hreason,bind,Except.bind] at h
        split at h
        · exact nomatch h
        · exact ⟨stop,reason,rfl,(Except.ok.inj h).symm⟩

inductive Served (parse : String → Option Int) (u : PolicyUpdate) (row : Policy) :
    Policy × PolicyReply → Prop
  | refused (status : Nat) (error : String) : Served parse u row (row,.failed status error)
  | accepted (b : PolicyBody) (stop : Option Int) (reason : Option String)
      (h : u.Accepted parse b stop) : Served parse u row
        ((b.columns stop reason).apply row,.ok (.loaded (some ((b.columns stop reason).apply row))))

theorem serve_cases (parse : String → Option Int) (u : PolicyUpdate) (row : Policy) :
    Served parse u row (u.serve parse row) := by
  cases hbody : u.body with
  | none =>
    simp only [serve,hbody]
    exact .refused 400 _
  | some b =>
    cases hpatch : b.patch parse u.now with
    | error e =>
      simp only [serve,hbody,hpatch]
      exact .refused 400 e
    | ok p =>
      cases hfault : u.fault with
      | some e =>
        simp only [serve,hbody,hpatch,hfault]
        exact .refused 500 e
      | none =>
        obtain ⟨stop,reason,huntil,rfl⟩ := patch_ok hpatch
        simp only [serve,hbody,hpatch,hfault]
        refine .accepted b stop reason ⟨hbody,huntil,fun row => ?_⟩
        simp only [serve,hbody,hpatch,hfault]
        exact ⟨_,rfl⟩

theorem Accepted.unique {b' : PolicyBody} {stop' : Option Int} (h : u.Accepted parse b stop)
    (h' : u.Accepted parse b' stop') : b = b' ∧ stop = stop' := by
  obtain ⟨hbody,huntil,-⟩ := h
  obtain ⟨hbody',huntil',-⟩ := h'
  obtain rfl := Option.some.inj (hbody.symm.trans hbody')
  exact ⟨rfl,Except.ok.inj (huntil.symm.trans huntil')⟩

theorem Accepted.served (h : u.Accepted parse b stop) (row : Policy) :
    ∃ reason, (u.serve parse row).1 = (b.columns stop reason).apply row := by
  obtain ⟨p,hp⟩ := h.2.2 row
  have hserved := serve_cases parse u row
  generalize u.serve parse row = result at hp hserved ⊢
  cases hserved with
  | refused status error => exact nomatch hp
  | accepted b' stop' reason h' =>
    obtain ⟨rfl,rfl⟩ := h.unique h'
    exact ⟨reason,rfl⟩

theorem pauses_serve (row : Policy) (h : u.Pauses parse stop) :
    (u.serve parse row).1.emergencyPause = true ∧
      (u.serve parse row).1.pauseUntil = stop.or row.pauseUntil := by
  obtain ⟨b,hb,hpause,hclear⟩ := h
  obtain ⟨reason,hserved⟩ := hb.served row
  rw [hserved]
  simp [PolicyPatch.apply,PolicyBody.columns,hpause,hclear]

theorem serve_unended (row : Policy) (h : ¬ u.Ends parse) :
    ((u.serve parse row).1.emergencyPause = row.emergencyPause ∨
        u.Pauses parse none ∧ (u.serve parse row).1.emergencyPause = true) ∧
      (u.serve parse row).1.pauseUntil = row.pauseUntil := by
  have hserved := serve_cases parse u row
  generalize u.serve parse row = result at hserved ⊢
  cases hserved with
  | refused status error => exact ⟨.inl rfl,rfl⟩
  | accepted b stop reason hb =>
    have hclear : b.clearPause ≠ some true := fun hc => h ⟨b,stop,hb,.inr (.inl hc)⟩
    have hstop : stop = none := by
      by_contra hs
      exact h ⟨b,stop,hb,.inr (.inr hs)⟩
    subst hstop
    simp only [PolicyPatch.apply,PolicyBody.columns,if_neg hclear,Option.none_or,and_true]
    cases hpause : b.emergencyPause with
    | none => exact .inl rfl
    | some pause =>
      cases pause with
      | false => exact absurd ⟨b,none,hb,.inl hpause⟩ h
      | true => exact .inr ⟨⟨b,hb,hpause,hclear⟩,rfl⟩

end Steps

section Runs

variable {parse : String → Option Int} {row : Policy} {us : List PolicyUpdate} {now : Int}

theorem after_unended (h : ∀ u ∈ us, ¬ u.Ends parse) (hrow : row.emergencyPause = true) :
    (after parse row us).emergencyPause = true ∧ (after parse row us).pauseUntil = row.pauseUntil := by
  induction us generalizing row with
  | nil => exact ⟨hrow,rfl⟩
  | cons u us ih =>
    obtain ⟨hpause,huntil⟩ := serve_unended row (h u List.mem_cons_self)
    have hon : (u.serve parse row).1.emergencyPause = true := by
      rcases hpause with hp | ⟨-,hp⟩
      · exact hp.trans hrow
      · exact hp
    obtain ⟨hlast,hkept⟩ := ih (fun v hv => h v (List.mem_cons_of_mem u hv)) hon
    exact ⟨hlast,hkept.trans huntil⟩

theorem pauseActive_on {p : Policy} (hp : p.emergencyPause = true) :
    p.pauseActive now = true ↔ ∀ u, p.pauseUntil = some u → u ≠ 0 → now ≤ u := by
  cases hu : p.pauseUntil with
  | none => simp [Policy.pauseActive,hp,hu]
  | some u =>
    simp only [Policy.pauseActive,hp,hu,Option.any_some,Bool.true_and,Bool.not_eq_true',
      Bool.and_eq_false_iff,bne_eq_false_iff_eq,decide_eq_false_iff_not,Option.some.injEq,
      forall_eq']
    omega

def Ordered (us : List PolicyUpdate) (now : Int) : Prop :=
  (us.map PolicyUpdate.now).Pairwise (· ≤ ·) ∧ ∀ u ∈ us, u.now ≤ now

def paused (parse : String → Option Int) (row : Policy) (us : List PolicyUpdate) (now : Int) : Bool :=
  (Policy.loaded (some (after parse row us))).pauseActive now

theorem paused_eq : paused parse row us now = (after parse row us).pauseActive now := rfl

theorem paused_after {u : PolicyUpdate} {stop : Option Int} {before mid : List PolicyUpdate}
    (hu : u.Pauses parse stop) (hmid : ∀ m ∈ mid, ¬ m.Ends parse) :
    paused parse row (before ++ u :: mid) now = true ↔
      ∀ t, stop.or (after parse row before).pauseUntil = some t → t ≠ 0 → now ≤ t := by
  obtain ⟨hon,huntil⟩ := pauses_serve (after parse row before) hu
  have hrun : after parse row (before ++ u :: mid) =
      after parse (u.serve parse (after parse row before)).1 mid := by
    rw [after,List.foldl_append,List.foldl_cons]
    rfl
  obtain ⟨hlast,hkept⟩ := after_unended hmid hon
  rw [paused_eq,hrun,pauseActive_on hlast,hkept,huntil]

theorem pauses_later {u : PolicyUpdate} {t : Int} (h : u.Pauses parse (some t)) : u.now ≤ t := by
  obtain ⟨b,⟨-,huntil,-⟩,-⟩ := h
  simp only [PolicyBody.untilOf] at huntil
  split at huntil
  · exact nomatch huntil
  · split at huntil
    · exact nomatch huntil
    · split at huntil
      · exact nomatch huntil
      · split at huntil
        · exact nomatch huntil
        · rename_i hlater
          obtain rfl := Option.some.inj (Except.ok.inj huntil)
          exact Int.not_lt.mp hlater

end Runs

theorem emergency_pause_holds (parse : String → Option Int) (row : Policy)
    (before : List PolicyUpdate) (u : PolicyUpdate) (hnow : 0 < u.now) :
    (u.Pauses parse none →
      ((∀ mid now, (∀ m ∈ mid, ¬ m.Ends parse) → Ordered (u :: mid) now →
          paused parse row (before ++ u :: mid) now = true) ↔
        (after parse row before).pauseUntil = none ∨ (after parse row before).pauseUntil = some 0)) ∧
    ∀ t, u.Pauses parse (some t) → ∀ mid now, (∀ m ∈ mid, ¬ m.Ends parse) →
      (paused parse row (before ++ u :: mid) now = true ↔ now ≤ t) := by
  refine ⟨fun hu => ⟨?_,?_⟩,?_⟩
  · intro hheld
    cases hstale : (after parse row before).pauseUntil with
    | none => exact .inl rfl
    | some t =>
      by_cases ht : t = 0
      · exact .inr (congrArg some ht)
      · have hlate := hheld [] (max u.now (t + 1)) (by simp)
          ⟨by simp,List.forall_mem_singleton.mpr (Int.le_max_left _ _)⟩
        have hle := (paused_after hu (by simp)).mp hlate t (by rw [hstale]; rfl) ht
        omega
  · intro hfresh mid now hmid _
    refine (paused_after hu hmid).mpr fun t ht hne => ?_
    rcases hfresh with hnone | hzero
    · rw [hnone] at ht
      exact nomatch ht
    · rw [hzero] at ht
      exact absurd (Option.some.inj ht).symm hne
  · intro t hu mid now hmid
    have hlater := pauses_later hu
    rw [paused_after hu hmid]
    simp only [Option.some_or,Option.some.injEq,forall_eq']
    exact ⟨fun h => h (by omega),fun h _ => h⟩

def newYear : Int := 741077 * 24 * hour

def parseNewYear (raw : String) : Option Int :=
  if raw = "2030-01-01T00:00:00Z" then some newYear else none

def PolicyBody.blank : PolicyBody :=
  ⟨none,none,none,none,none,none,none,none,none,none,none,none,none⟩

def pausedUntilNewYear : PolicyUpdate :=
  ⟨newYear - hour,some { PolicyBody.blank with
    emergencyPause := some true, pauseUntil := some "2030-01-01T00:00:00Z" },none⟩

def pauseCleared : PolicyUpdate :=
  ⟨newYear - minute,some { PolicyBody.blank with clearPause := some true },none⟩

def pausedAgain : PolicyUpdate :=
  ⟨newYear + hour,some { PolicyBody.blank with emergencyPause := some true },none⟩

theorem accepted_of {parse : String → Option Int} {u : PolicyUpdate} {b : PolicyBody}
    {stop : Option Int} {p : PolicyPatch} (hbody : u.body = some b)
    (hpatch : b.patch parse u.now = .ok p) (hfault : u.fault = none)
    (huntil : b.untilOf parse u.now = .ok stop) : u.Accepted parse b stop := by
  refine ⟨hbody,huntil,fun row => ?_⟩
  simp only [serve,hbody,hpatch,hfault]
  exact ⟨_,rfl⟩

theorem timed_pause_exact :
    pausedUntilNewYear.Pauses parseNewYear (some newYear) ∧
      (paused parseNewYear defaultPolicy [pausedUntilNewYear] newYear = true ∧
        paused parseNewYear defaultPolicy [pausedUntilNewYear] (newYear + 1) = false) := by
  have hpauses : pausedUntilNewYear.Pauses parseNewYear (some newYear) :=
    ⟨_,accepted_of rfl rfl rfl rfl,rfl,by decide⟩
  have hexact := (emergency_pause_holds parseNewYear defaultPolicy [] pausedUntilNewYear
    (by decide)).2 newYear hpauses []
  refine ⟨hpauses,(hexact newYear (by simp)).mpr (Int.le_refl _),?_⟩
  rw [Bool.eq_false_iff]
  intro hlate
  have hle := (hexact (newYear + 1) (by simp)).mp hlate
  omega

theorem stale_pause_lifts :
    pausedAgain.Pauses parseNewYear none ∧
      Ordered [pausedUntilNewYear,pauseCleared,pausedAgain] (newYear + hour) ∧
      paused parseNewYear defaultPolicy [pausedUntilNewYear,pauseCleared,pausedAgain]
        (newYear + hour) = false :=
  ⟨⟨_,accepted_of rfl rfl rfl rfl,rfl,by decide⟩,⟨by decide,by decide⟩,by decide⟩

end PolicyUpdate

end Delivery
