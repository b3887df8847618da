import ServerHub.Go.Time
import ServerHub.Interleave.Program
import ServerHub.Relational.Serial

namespace HealthCheck

open Interleave Relational

abbrev Text := List Char

structure Check where
  id : Nat
  type : Text
  target : Text
  timeout : Int
  expectedStatus : Int
  enabled : Bool
  status : Text
  responseTimeMs : Option Int
  lastCheckedAt : Option Int
  updatedAt : Int

structure Result where
  id : Nat
  healthCheckId : Nat
  timestamp : Int
  status : Text
  responseTimeMs : Int
  error : Text

instance : Keyed Check := ⟨Check.id⟩

instance : Keyed Result := ⟨Result.id⟩

structure Probe where
  id : Nat
  type : Text
  target : Text
  timeout : Int
  expectedStatus : Int

-- the wall clock may be set to any time; http and reach are what the network answers next
structure State where
  checks : Serial Check
  results : Serial Result
  monotonic : Int
  wall : Int
  http : Except Text Int
  reach : Except Text Unit

inductive Instr : Type → Type where
  | select (id : Nat) : Instr (Option Probe)
  | monotonic : Instr Int
  | now : Instr Int
  | get (url : Text) (timeout : Int) : Instr (Except Text Int)
  | dial (addr : Text) (timeout : Int) : Instr (Except Text Unit)
  | ping (host : Text) (timeout : Int) : Instr (Except Text Unit)
  | insert (id : Nat) (now : Int) (status : Text) (ms : Int) (errMsg : Text) : Instr Unit
  | update (status : Text) (ms now : Int) (id : Nat) : Instr Unit

def exec : {β : Type} → Instr β → State → Option (State × β)
  | _, .select id, s =>
      let row := s.checks.rows.find? fun c => c.enabled && c.id = id
      some (s,row.map fun c => ⟨c.id,c.type,c.target,c.timeout,c.expectedStatus⟩)
  | _, .monotonic, s => some (s,s.monotonic)
  | _, .now, s => some (s,s.wall)
  | _, .get _ _, s => some (s,s.http)
  | _, .dial _ _, s => some (s,s.reach)
  | _, .ping _ _, s => some (s,s.reach)
  | _, .insert id now status ms errMsg, s =>
      some ({ s with results := s.results.insert (fun n => ⟨n,id,now,status,ms,errMsg⟩) fun _ => rfl },())
  | _, .update status ms now id, s =>
      some ({ s with
        checks := s.checks.modify (fun c => c.id = id)
          (fun c => { c with
            status := status, responseTimeMs := some ms, lastCheckedAt := some now, updatedAt := now })
          fun _ => rfl },())

inductive Env where
  | pass (d : Nat)
  | setClock (t : Int)
  | http (answer : Except Text Int)
  | reach (answer : Except Text Unit)

def env : Env → State → Option State
  | .pass d, s => some { s with monotonic := s.monotonic + d, wall := s.wall + d }
  | .setClock t, s => some { s with wall := t }
  | .http answer, s => some { s with http := answer }
  | .reach answer, s => some { s with reach := answer }

def up : Text × Text := ("UP".toList,[])

def down (errMsg : Text) : Text × Text := ("DOWN".toList,errMsg)

def decimal (n : Int) : Text := (toString n).toList

-- get answers with the error of ValidateURL or of the request, or with the status code
def probeHTTP (url : Text) (timeout expectedStatus : Int) : Prog Instr (Text × Text) := do
  match ← Prog.perform (.get url timeout) with
  | .error e => pure (down e)
  | .ok code =>
      if expectedStatus > 0 ∧ code ≠ expectedStatus then
        pure (down ("got ".toList ++ decimal code ++ ", expected ".toList ++ decimal expectedStatus))
      else if 200 ≤ code ∧ code < 400 then pure up
      else pure (down ("status ".toList ++ decimal code))

def reached : Except Text Unit → Text × Text
  | .error e => down e
  | .ok _ => up

def probeTCP (addr : Text) (timeout : Int) : Prog Instr (Text × Text) := do
  pure (reached (← Prog.perform (.dial addr timeout)))

def probePing (host : Text) (timeout : Int) : Prog Instr (Text × Text) := do
  pure (reached (← Prog.perform (.ping host timeout)))

def runProbe (typ target : Text) (timeout expectedStatus : Int) : Prog Instr (Text × Text) :=
  let d := Go.seconds timeout
  if typ.map Go.lower = "http".toList then probeHTTP target d expectedStatus
  else if typ.map Go.lower = "tcp".toList then probeTCP target d
  else if typ.map Go.lower = "ping".toList then probePing target d
  else pure ("UNKNOWN".toList,"unknown check type: ".toList ++ typ)

def milliseconds (d : Int) : Int := (Go.int64 d).tdiv 1000000

def probe (p : Probe) : Prog Instr Unit := do
  let start ← Prog.perform .monotonic
  let (status,errMsg) ← runProbe p.type p.target p.timeout p.expectedStatus
  let stop ← Prog.perform .monotonic
  let ms := milliseconds (stop - start)
  let now ← Prog.perform .now
  Prog.perform (.insert p.id now status ms errMsg)
  Prog.perform (.update status ms now p.id)

-- runAll reads the enabled checks and starts a probe of each row
def launch (id : Nat) : Prog Instr Unit := do
  match ← Prog.perform (.select id) with
  | none => pure ()
  | some p => probe p

def system : System := ⟨Instr,State,Nat,Unit,Env,fun _ => exec,launch,env⟩

def Writes : {β : Type} → Instr β → Prop
  | _, .insert .. => True
  | _, .update .. => True
  | _, _ => False

-- no probe stands between its reading of the clock and its last statement
def Quiet (w : World system) : Prop :=
  ∀ pid (β : Type) (i : Instr β) (k : β → Prog Instr Unit), w.pool pid = some (.step i k) → ¬Writes i

def Shows (c : Check) (r : Result) : Prop :=
  r.healthCheckId = c.id ∧ c.status = r.status ∧ c.responseTimeMs = some r.responseTimeMs ∧
    c.lastCheckedAt = some r.timestamp

def Latest (s : State) : Prop :=
  ∀ c ∈ s.checks.rows, (c.lastCheckedAt = none ∧ ∀ r ∈ s.results.rows, r.healthCheckId ≠ c.id) ∨
    ∃ r ∈ s.results.rows, Shows c r ∧
      ∀ r' ∈ s.results.rows, r'.healthCheckId = c.id → r'.timestamp ≤ r.timestamp

-- an update lands only over an earlier or equal reading of the clock
def Ordered (_ : Nat) (s : State) : {β : Type} → Instr β → Prop
  | _, .update _ _ now id => ∀ c ∈ s.checks.rows, c.id = id → ∀ t ∈ c.lastCheckedAt, t ≤ now
  | _, _ => True

inductive Before : Prog Instr Unit → Prop where
  | ret : Before (.ret ())
  | read {β : Type} {i : Instr β} {k : β → Prog Instr Unit} (hi : ¬Writes i) (hk : ∀ b, Before (k b)) :
      Before (.step i k)
  | write {id : Nat} {now ms : Int} {status errMsg : Text} :
      Before (.step (.insert id now status ms errMsg) fun _ => .step (.update status ms now id) .ret)

def shown (r : Result) : Prog Instr Unit :=
  .step (.update r.status r.responseTimeMs r.timestamp r.healthCheckId) .ret

def Pending (w : World system) (r : Result) : Prop := ∃ pid, w.pool pid = some (shown r)

structure Inv (w : World system) : Prop where
  staged : ∀ pid p, w.pool pid = some p → Before p ∨ ∃ r ∈ w.state.results.rows, p = shown r
  latest : ∀ c ∈ w.state.checks.rows,
    (c.lastCheckedAt = none ∧ ∀ r ∈ w.state.results.rows, r.healthCheckId = c.id → Pending w r) ∨
    ∃ r ∈ w.state.results.rows, Shows c r ∧ ∀ r' ∈ w.state.results.rows, r'.healthCheckId = c.id →
      r'.timestamp ≤ r.timestamp ∨ Pending w r'

section Programs

variable {α : Type} {p : Prog Instr α} {f : α → Prog Instr Unit}

theorem before_bind (hp : p.Uses fun i => ¬Writes i) (hf : ∀ a, Before (f a)) : Before (p >>= f) := by
  induction p with
  | ret a => exact hf a
  | step i k ih => exact .read hp.1 fun b => ih b (hp.2 b)

theorem reads_runProbe (typ target : Text) (timeout expectedStatus : Int) :
    (runProbe typ target timeout expectedStatus).Uses fun i => ¬Writes i := by
  unfold runProbe
  refine Prog.uses_ite ?_ (Prog.uses_ite ?_ (Prog.uses_ite ?_ trivial))
  · refine ⟨id,fun answer => ?_⟩
    cases answer with
    | error e => trivial
    | ok code => exact Prog.uses_ite trivial (Prog.uses_ite trivial trivial)
  · exact ⟨id,fun _ => trivial⟩
  · exact ⟨id,fun _ => trivial⟩

theorem before_probe (p : Probe) : Before (probe p) := by
  refine .read (fun hw => hw) fun start => ?_
  refine before_bind (p := runProbe p.type p.target p.timeout p.expectedStatus) (reads_runProbe ..)
    fun outcome => ?_
  exact .read (fun hw => hw) fun stop => .read (fun hw => hw) fun now => .write

theorem before_launch (id : Nat) : Before (launch id) := by
  refine .read (fun hw => hw) fun row => ?_
  cases row with
  | none => exact .ret
  | some p => exact before_probe p

end Programs

section Runs

variable {w v : World system} {pid : Nat} {r : Result}

theorem Before.not_shown : ¬Before (shown r) := by
  intro h
  cases h with
  | read hi _ => exact hi trivial

theorem Pending.update {q : Nat} {p : Prog Instr Unit} (h : Pending w r)
    (hpool : v.pool = Function.update w.pool q (some p)) (hq : w.pool q ≠ some (shown r)) : Pending v r := by
  obtain ⟨pid,hpid⟩ := h
  refine ⟨pid,?_⟩
  rw [hpool,Function.update_of_ne ?_,hpid]
  rintro rfl
  exact hq hpid

theorem Inv.carry {q : Nat} {p : Prog Instr Unit} (hw : Inv w) (hchecks : v.state.checks = w.state.checks)
    (hresults : v.state.results = w.state.results) (hpool : v.pool = Function.update w.pool q (some p))
    (hp : Before p) (hq : ∀ r, w.pool q ≠ some (shown r)) : Inv v := by
  have hkept {r : Result} (h : Pending w r) : Pending v r := h.update hpool (hq r)
  refine ⟨fun pid p' hp' => ?_,fun c hc => ?_⟩
  · rw [hpool] at hp'
    by_cases hpid : pid = q
    · subst hpid
      rw [Function.update_self] at hp'
      obtain rfl : p = p' := Option.some.inj hp'
      exact .inl hp
    · rw [Function.update_of_ne hpid] at hp'
      rw [hresults]
      exact hw.staged pid p' hp'
  · rw [hchecks] at hc
    rw [hresults]
    rcases hw.latest c hc with ⟨hnone,hall⟩ | ⟨r,hr,hshows,hall⟩
    · exact .inl ⟨hnone,fun r hr hid => hkept (hall r hr hid)⟩
    · exact .inr ⟨r,hr,hshows,fun r' hr' hid => (hall r' hr' hid).imp id hkept⟩

theorem exec_read {β : Type} {i : Instr β} {s t : State} {b : β} (hi : ¬Writes i) (h : exec i s = some (t,b)) :
    t = s := by
  cases i with
  | insert => exact absurd trivial hi
  | update => exact absurd trivial hi
  | _ =>
    obtain ⟨rfl,-⟩ := Prod.mk.inj (Option.some.inj h)
    rfl

theorem Inv.insert {id : Nat} {now ms : Int} {status errMsg : Text} {k : Unit → Prog Instr Unit}
    (hw : Inv w) (hp : w.pool pid = some (.step (.insert id now status ms errMsg) k))
    (hstate : v.state = { w.state with
      results := w.state.results.insert (fun n => ⟨n,id,now,status,ms,errMsg⟩) fun _ => rfl })
    (hpool : v.pool = Function.update w.pool pid (some (.step (.update status ms now id) .ret))) : Inv v := by
  have hchecks : v.state.checks = w.state.checks := by rw [hstate]
  have hresults (r : Result) : r ∈ v.state.results.rows ↔
      r ∈ w.state.results.rows ∨ r = ⟨w.state.results.next,id,now,status,ms,errMsg⟩ := by
    rw [hstate]
    exact Serial.mem_insert
  have hnot (r : Result) : w.pool pid ≠ some (shown r) := by
    rw [hp]
    nofun
  have hkept {r : Result} (h : Pending w r) : Pending v r := h.update hpool (hnot r)
  have hnew : Pending v ⟨w.state.results.next,id,now,status,ms,errMsg⟩ :=
    ⟨pid,by rw [hpool,Function.update_self]; rfl⟩
  refine ⟨fun q p hq => ?_,fun c hc => ?_⟩
  · rw [hpool] at hq
    by_cases hpid : q = pid
    · subst hpid
      rw [Function.update_self] at hq
      exact .inr ⟨_,(hresults _).mpr (.inr rfl),(Option.some.inj hq).symm⟩
    · rw [Function.update_of_ne hpid] at hq
      exact (hw.staged q p hq).imp (fun hb => hb) fun ⟨r,hr,he⟩ => ⟨r,(hresults r).mpr (.inl hr),he⟩
  · rw [hchecks] at hc
    rcases hw.latest c hc with ⟨hnone,hall⟩ | ⟨r,hr,hshows,hall⟩
    · refine .inl ⟨hnone,fun r hr hid => ?_⟩
      rcases (hresults r).mp hr with hr | rfl
      · exact hkept (hall r hr hid)
      · exact hnew
    · refine .inr ⟨r,(hresults r).mpr (.inl hr),hshows,fun r' hr' hid => ?_⟩
      rcases (hresults r').mp hr' with hr' | rfl
      · exact (hall r' hr' hid).imp (fun hle => hle) hkept
      · exact .inr hnew

theorem shown_inj {r r' : Result} (h : shown r = shown r') :
    r.timestamp = r'.timestamp ∧ r.healthCheckId = r'.healthCheckId := by
  obtain ⟨-,hi,-⟩ := Prog.step.inj h
  obtain ⟨-,-,ht,hid⟩ := Instr.update.inj (eq_of_heq hi)
  exact ⟨ht,hid⟩

theorem Inv.update (hw : Inv w) (hr : r ∈ w.state.results.rows) (hp : w.pool pid = some (shown r))
    (hordered : ∀ c ∈ w.state.checks.rows, c.id = r.healthCheckId → ∀ t ∈ c.lastCheckedAt, t ≤ r.timestamp)
    (hstate : v.state = { w.state with
      checks := w.state.checks.modify (fun c => c.id = r.healthCheckId)
        (fun c => { c with
          status := r.status, responseTimeMs := some r.responseTimeMs, lastCheckedAt := some r.timestamp
          updatedAt := r.timestamp })
        fun _ => rfl })
    (hpool : v.pool = Function.update w.pool pid (some (.ret ()))) : Inv v := by
  have hresults : v.state.results = w.state.results := by rw [hstate]
  -- a probe that is still to be shown and read a later clock is another one
  have hkept {r' : Result} (h : Pending w r') (hne : shown r ≠ shown r') : Pending v r' :=
    h.update hpool fun he => hne (Option.some.inj (hp.symm.trans he))
  refine ⟨fun q p hq => ?_,fun c hc => ?_⟩
  · rw [hpool] at hq
    rw [hresults]
    by_cases hpid : q = pid
    · subst hpid
      rw [Function.update_self] at hq
      obtain rfl : .ret () = p := Option.some.inj hq
      exact .inl .ret
    · rw [Function.update_of_ne hpid] at hq
      exact hw.staged q p hq
  · rw [hstate] at hc
    rw [hresults]
    obtain ⟨a,ha,rfl⟩ := Serial.mem_modify.mp hc
    by_cases hid : a.id = r.healthCheckId
    · simp only [hid,decide_true,if_true]
      refine .inr ⟨r,hr,⟨rfl,rfl,rfl,rfl⟩,fun r' hr' hid' => ?_⟩
      by_cases hle : r'.timestamp ≤ r.timestamp
      · exact .inl hle
      · have hne : shown r ≠ shown r' := fun he => hle (shown_inj he).1.ge
        have howner : r'.healthCheckId = a.id := hid'.trans hid.symm
        rcases hw.latest a ha with ⟨-,hall⟩ | ⟨r0,-,⟨-,-,-,hlast⟩,hall⟩
        · exact .inr (hkept (hall r' hr' howner) hne)
        · have hearlier : r0.timestamp ≤ r.timestamp := hordered a ha hid _ hlast
          rcases hall r' hr' howner with hr0 | hpending
          · exact absurd (Int.le_trans hr0 hearlier) hle
          · exact .inr (hkept hpending hne)
    · simp only [hid,decide_false,Bool.false_eq_true,if_false]
      have hother {r' : Result} (hid' : r'.healthCheckId = a.id) : shown r ≠ shown r' :=
        fun he => hid (hid'.symm.trans (shown_inj he).2.symm)
      rcases hw.latest a ha with ⟨hnone,hall⟩ | ⟨r0,hr0,hshows,hall⟩
      · exact .inl ⟨hnone,fun r' hr' hid' => hkept (hall r' hr' hid') (hother hid')⟩
      · exact .inr ⟨r0,hr0,hshows,fun r' hr' hid' =>
          (hall r' hr' hid').imp (fun hle => hle) fun h => hkept h (hother hid')⟩

theorem Inv.act (hw : Inv w) (hc : Landing Ordered w (.act pid)) (h : w.step (.act pid) = some v) : Inv v := by
  obtain ⟨β,i,k,b,hp,hx,hpool⟩ := step_act h
  rcases hw.staged pid _ hp with hbefore | ⟨r,hr,hshown⟩
  · cases hbefore with
    | read hi hk =>
      have hstate : v.state = w.state := exec_read hi hx
      refine hw.carry (by rw [hstate]) (by rw [hstate]) hpool (hk b) fun r hr => ?_
      obtain he := Option.some.inj (hp.symm.trans hr)
      exact Before.not_shown (he ▸ Before.read hi hk)
    | @write id now ms status errMsg =>
      obtain ⟨hstate,-⟩ := Prod.mk.inj (Option.some.inj hx)
      exact hw.insert hp hstate.symm hpool
  · cases hshown
    obtain ⟨hstate,-⟩ := Prod.mk.inj (Option.some.inj hx)
    exact hw.update hr hp (hc _ _ _ hp _ _ hx) hstate.symm hpool

theorem env_tables {e : Env} {s t : State} (h : env e s = some t) :
    t.checks = s.checks ∧ t.results = s.results := by
  cases e with
  | _ =>
    obtain rfl := Option.some.inj h
    exact ⟨rfl,rfl⟩

theorem Inv.step {e : Event system} (hw : Inv w) (hc : Landing Ordered w e) (h : w.step e = some v) : Inv v := by
  cases e with
  | start pid id =>
    obtain ⟨hnone,hstate,hpool⟩ := step_start h
    refine hw.carry (by rw [hstate]) (by rw [hstate]) hpool (before_launch id) fun r => ?_
    rw [hnone]
    nofun
  | act pid => exact hw.act hc h
  | env e =>
    obtain ⟨hstate,hpool⟩ := step_env h
    obtain ⟨hchecks,hresults⟩ := env_tables hstate
    have hkept {r : Result} (hp : Pending w r) : Pending v r := by
      rw [Pending,hpool]
      exact hp
    refine ⟨fun pid p hp => ?_,fun c hc => ?_⟩
    · rw [hpool] at hp
      rw [hresults]
      exact hw.staged pid p hp
    · rw [hchecks] at hc
      rw [hresults]
      rcases hw.latest c hc with ⟨hnone,hall⟩ | ⟨r,hr,hshows,hall⟩
      · exact .inl ⟨hnone,fun r hr hid => hkept (hall r hr hid)⟩
      · exact .inr ⟨r,hr,hshows,fun r' hr' hid => (hall r' hr' hid).imp (fun hle => hle) hkept⟩

theorem inv_idle {s : State} (hs : Latest s) : Inv (World.idle s : World system) := by
  refine ⟨nofun,fun c hc => ?_⟩
  rcases hs c hc with ⟨hnone,hall⟩ | ⟨r,hr,hshows,hall⟩
  · exact .inl ⟨hnone,fun r hr hid => absurd hid (hall r hr)⟩
  · exact .inr ⟨r,hr,hshows,fun r' hr' hid => .inl (hall r' hr' hid)⟩

theorem Inv.quiet (hw : Inv w) (hq : Quiet w) : Latest w.state := by
  have hnone (r : Result) : ¬Pending w r := by
    rintro ⟨pid,hp⟩
    exact hq pid _ _ _ hp trivial
  intro c hc
  rcases hw.latest c hc with ⟨hlast,hall⟩ | ⟨r,hr,hshows,hall⟩
  · exact .inl ⟨hlast,fun r hr hid => hnone r (hall r hr hid)⟩
  · exact .inr ⟨r,hr,hshows,fun r' hr' hid => (hall r' hr' hid).resolve_right (hnone r')⟩

theorem latest_probe_wins {s : State} {es : List (Event system)} {w : World system} (hs : Latest s)
    (hc : Along (Landing Ordered) (World.idle s) es) (hw : (World.idle s).run es = some w) (hq : Quiet w) :
    Latest w.state :=
  (along_invariant (fun _ _ _ hw hc h => hw.step hc h) (inv_idle hs) hc hw).quiet hq

theorem along_act {β : Type} {i : Instr β} {k : β → Prog Instr Unit} {es : List (Event system)}
    (hv : w.step (.act pid) = some v) (hp : w.pool pid = some (.step i k)) (ho : Ordered pid w.state i)
    (hrest : Along (Landing Ordered) v es) : Along (Landing Ordered) w (.act pid :: es) := by
  refine ⟨?_,fun v' hv' => ?_⟩
  · intro β' i' k' hp' u b hx
    cases hp.symm.trans hp'
    exact ho
  · obtain rfl : v = v' := Option.some.inj (hv.symm.trans hv')
    exact hrest

def portCheck : Check :=
  ⟨0,"tcp".toList,"db:5432".toList,10,200,true,"UNKNOWN".toList,none,none,0⟩

def oneCheck : State where
  checks := Serial.empty.insert (fun n => { portCheck with id := n }) fun _ => rfl
  results := Serial.empty
  monotonic := 0
  wall := 0
  http := .ok 200
  reach := .ok ()

theorem latest_oneCheck : Latest oneCheck := by
  intro c hc
  obtain rfl := List.mem_singleton.mp hc
  exact .inl ⟨rfl,nofun⟩

def acts (pid n : Nat) : List (Event system) := List.replicate n (.act pid)

def soleProbe : List (Event system) := .start 0 (0 : Nat) :: acts 0 7

theorem sole_probe_shown : ∃ w, (World.idle oneCheck).run soleProbe = some w ∧ Latest w.state := by
  have hordered : Along (Landing Ordered) (World.idle oneCheck) soleProbe := by
    refine ⟨trivial,fun v hv => ?_⟩
    obtain rfl := Option.some.inj hv
    have hfirst : ∀ c ∈ oneCheck.checks.rows, c.id = 0 → ∀ t ∈ c.lastCheckedAt, t ≤ 0 := by
      intro c hc
      obtain rfl := List.mem_singleton.mp hc
      exact nofun
    exact along_act rfl rfl trivial <| along_act rfl rfl trivial <| along_act rfl rfl trivial <|
      along_act rfl rfl trivial <| along_act rfl rfl trivial <| along_act rfl rfl trivial <|
      along_act rfl rfl hfirst trivial
  refine ⟨_,rfl,latest_probe_wins latest_oneCheck hordered rfl ?_⟩
  intro pid β i k hp
  match pid, hp with
  | 0, hp => exact nomatch (show some (.ret ()) = some (Prog.step i k) from hp)
  | _ + 1, hp => exact nomatch (show none = some (Prog.step i k) from hp)

def overtaken : List (Event system) :=
  [.start 0 (0 : Nat),.start 1 (0 : Nat)] ++ acts 0 5 ++
    [.env (.pass 1),.env (.reach (.error "connection refused".toList))] ++ acts 1 7 ++ acts 0 2

theorem overtaken_run : ∃ w, (World.idle oneCheck).run overtaken = some w ∧
    w.pool 0 = some (.ret ()) ∧ w.pool 1 = some (.ret ()) ∧ (∀ n, w.pool (n + 2) = none) ∧
    w.state.checks.rows = [{ portCheck with
      status := "UP".toList, responseTimeMs := some 0, lastCheckedAt := some 0, updatedAt := 0 }] ∧
    ⟨0,0,1,"DOWN".toList,0,"connection refused".toList⟩ ∈ w.state.results.rows :=
  ⟨_,rfl,rfl,rfl,fun _ => rfl,rfl,List.mem_cons_self⟩

theorem older_probe_shown : ¬∀ (s : State) (es : List (Event system)) (w : World system), Latest s →
    (World.idle s).run es = some w → Quiet w → Latest w.state := by
  intro h
  obtain ⟨w,hw,hzero,hone,hothers,hchecks,hresult⟩ := overtaken_run
  have hq : Quiet w := by
    intro pid β i k hp
    match pid with
    | 0 => cases hzero.symm.trans hp
    | 1 => cases hone.symm.trans hp
    | n + 2 => cases (hothers n).symm.trans hp
  have hlatest := h oneCheck overtaken w latest_oneCheck hw hq
  rcases hlatest _ (hchecks ▸ List.mem_cons_self) with ⟨hnone,-⟩ | ⟨r,-,⟨-,-,-,hlast⟩,hall⟩
  · cases hnone
  · have hlater : 1 ≤ r.timestamp := hall _ hresult rfl
    obtain hr : r.timestamp = 0 := (Option.some.inj hlast).symm
    omega

end Runs

end HealthCheck
