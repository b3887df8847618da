import ServerHub.Delivery.Ledger

namespace Delivery

open Go Relational Interleave Interleave.Prog

section Programs

variable {L : Ledger} {env : Env} {pid : Nat} {x : Traced State Note} {α β : Type}

def Ledger.Ensures (L : Ledger) (env : Env) (pid : Nat) (Q : α → Traced State Note → Prop)
    (p : Job α) (x : Traced State Note) : Prop := (L.discipline env).Safe pid Q p x

theorem ensures_bind {γ : Type} {Q : α → Traced State Note → Prop}
    {T : γ → Traced State Note → Prop} {p : Job α} {f : α → Job γ} (hx : Ledgered L x)
    (hp : L.Ensures env pid Q p x)
    (hf : ∀ a y, Ledgered L y → Q a y → L.Ensures env pid T (f a) y) :
    L.Ensures env pid T (p >>= f) x := Discipline.Safe.bind hx hp hf

theorem alone_of_none {i : Stmt β} (h : i.sends = none) : Alone pid x i := by
  intro id hid
  rw [h] at hid
  exact nomatch hid

theorem calm_sends {P : Channel → Prop} {i : Stmt β} (h : i.Calm P) : i.sends = none := by
  cases i <;> first | rfl | exact h.elim

theorem ensures_uses {A : Traced State Note → Prop} {p : Job α}
    (hA : ∀ y z, Undisturbed pid y z → A y → A z) (hp : p.Uses (Stmt.Calm L.Dest)) (hx : A x) :
    L.Ensures env pid (fun _ y => A y) p x := by
  induction p generalizing x with
  | ret a => exact hx
  | step i k ih =>
    intro t hr ht _ u b he
    obtain ⟨hinv,hu⟩ := calm_kept hp.1 ht he
    exact ⟨alone_of_none (calm_sends hp.1),⟨hinv,fun q _ => hu q⟩,ih b (hp.2 b) (hA t u (hu pid) (hA x t hr hx))⟩

variable {r : OutboxRow} {rows : List OutboxRow} {c : Option Bool}

theorem ensures_resolve {res : Resolution} (hw : Working L pid r rows c x)
    (hs : Settles L.text r c res) :
    L.Ensures env pid (fun _ y => Holding L pid rows y) (perform (.resolve r.id res)) x := by
  intro t hr ht ha u b he
  obtain ⟨hinv,hu,hh⟩ := resolve_kept ht (hw.stable hr) hs (ha.2.2 rfl) he
  exact ⟨alone_of_none rfl,⟨hinv,hu⟩,hh⟩

def Replied (L : Ledger) (pid : Nat) (r : OutboxRow) (rows : List OutboxRow)
    (serr : Option String) (x : Traced State Note) : Prop :=
  ∃ c, Working L pid r rows c x ∧ (serr = none → c = some true) ∧
    ∀ e, serr = some e → ∀ res, Failed r (truncate e 500) res → Settles L.text r c res

theorem ensures_callProvider {ts : Int} (hw : Working L pid r rows none x) :
    L.Ensures env pid (Replied L pid r rows) (callProvider env ts r) x := by
  unfold callProvider
  split
  · intro t hr ht ha u b he
    have hwt := hw.stable hr
    obtain ⟨hinv,hu,hwu,hb⟩ := send_kept ht hwt he
    have halone : Alone pid t (.send ts r) := by
      rintro id ⟨⟩
      exact hwt.alone ht
    refine ⟨halone,⟨hinv,hu⟩,some b.isNone,hwu,?_,?_⟩
    · rintro rfl
      rfl
    · rintro e rfl res hres
      exact .refused hres (ha.2.1 rfl e hb.symm)
  · rename_i hch
    have hsettle : ∀ e res, Failed r e res → Settles L.text r none res :=
      fun e res hres => .unsupported (Bool.eq_false_iff.mpr hch) hres
    exact ⟨none,hw,by simp,fun e _ => hsettle (truncate e 500)⟩

theorem Replied.stable {serr : Option String} {y z : Traced State Note}
    (hu : Undisturbed pid y z) (h : Replied L pid r rows serr y) : Replied L pid r rows serr z := by
  obtain ⟨c,hw,hrest⟩ := h
  exact ⟨c,hw.stable hu,hrest⟩

theorem ensures_fail {ts : Int} {e : String} (hx : Ledgered L x)
    (h : Replied L pid r rows (some e) x) :
    L.Ensures env pid (fun _ y => Holding L pid rows y) (fail r ts e) x := by
  obtain ⟨c,hw,-,hsettle⟩ := h
  unfold fail
  refine ensures_bind hx (ensures_uses (A := Working L pid r rows c) (fun y z hu h => h.stable hu)
    (uses_perform trivial) hw) fun _ y hy hwy => ?_
  split
  · rename_i hlt
    refine ensures_bind hy (ensures_uses (A := Working L pid r rows c) (fun y z hu h => h.stable hu)
      (p := backoff r.attempts) ⟨trivial,fun _ => trivial⟩ hwy) fun delay z hz hwz => ?_
    exact ensures_resolve hwz (hsettle e rfl _ (.retry _ hlt))
  · rename_i hlt
    exact ensures_resolve hwy (hsettle e rfl _ (.failed (Nat.le_of_not_lt hlt)))

theorem ensures_deliver {ts : Int} (hx : Ledgered L x) (hw : Working L pid r rows none x) :
    L.Ensures env pid (fun _ y => Holding L pid rows y) (deliver env ts r) x := by
  unfold deliver
  refine ensures_bind hx (ensures_callProvider hw) fun serr y hy ha => ?_
  refine ensures_bind hy (ensures_uses (A := Replied L pid r rows serr)
    (fun _ _ hu h => h.stable hu) (uses_perform trivial) ha) fun latency z hz ha => ?_
  cases serr with
  | some e =>
    refine ensures_bind hz (ensures_uses (A := Replied L pid r rows (some e))
      (fun _ _ hu h => h.stable hu) (p := openCircuit r.channel ts)
      ⟨trivial,fun _ => ⟨trivial,fun _ => trivial⟩⟩ ha) fun _ z hz ha => ?_
    refine ensures_bind hz (ensures_fail hz ha) fun _ z hz hh => ?_
    exact hh
  | none =>
    refine ensures_bind hz (ensures_uses (A := Replied L pid r rows none)
      (fun _ _ hu h => h.stable hu) (uses_perform trivial) ha) fun _ z hz ha => ?_
    refine ensures_bind hz (ensures_uses (A := Replied L pid r rows none)
      (fun _ _ hu h => h.stable hu) (uses_perform trivial) ha) fun _ z hz ha => ?_
    obtain ⟨c,hw,hc,-⟩ := ha
    obtain rfl := hc rfl
    refine ensures_bind hz (ensures_resolve hw (.delivered ts)) fun _ z hz hh => ?_
    exact hh

theorem ensures_sendOne {pol : Policy} {ts : Int} (hx : Ledgered L x)
    (h : Holding L pid (r :: rows) x) :
    L.Ensures env pid (fun _ y => Holding L pid rows y) (sendOne env pol ts r) x := by
  have hdest : L.Dest r.channel := L.dest r _ (h.acc r List.mem_cons_self)
  unfold sendOne
  refine ensures_bind hx (ensures_uses (A := Working L pid r rows none)
    (fun _ _ hu h => h.stable hu) (p := circuitOpen r.channel ts) ⟨trivial,fun _ => trivial⟩
    h.working) fun reopens y hy hw => ?_
  cases reopens with
  | some reopens =>
    refine ensures_bind hy (ensures_resolve hw (.deferred _ _)) fun _ z hz hh => ?_
    exact hh
  | none =>
    refine ensures_bind hy (ensures_uses (A := Working L pid r rows none)
      (fun _ _ hu h => h.stable hu) (uses_perform trivial) hw) fun sent z hz hw => ?_
    split
    · unfold throttle
      refine ensures_bind hz (ensures_resolve hw (.deferred _ _)) fun _ z hz hh => ?_
      refine ensures_bind hz (ensures_uses (A := Holding L pid rows)
        (fun _ _ hu h => h.stable hu) (uses_perform hdest) hh) fun _ z hz hh => ?_
      exact hh
    · exact ensures_deliver hz hw

theorem ensures_sendAll {pol : Policy} {ts : Int} (hx : Ledgered L x) (h : Holding L pid rows x) :
    L.Ensures env pid (fun _ y => Holding L pid [] y) (sendAll env pol ts rows) x := by
  induction rows generalizing x with
  | nil => exact h
  | cons r rows ih =>
    refine ensures_bind hx (ensures_sendOne hx h) fun _ y hy hh => ?_
    refine ensures_bind hy (ih hy hh) fun _ z hz hh => ?_
    exact hh

def Released (pid : Nat) (x : Traced State Note) : Prop := holds pid x.log = []

theorem Released.stable {y z : Traced State Note} (hu : Undisturbed pid y z)
    (h : Released pid y) : Released pid z := (holds_congr hu.own).trans h

theorem calm_inDispatch {n : Notice} (hn : ∀ ch ∈ n.channels, L.Dest ch) {β : Type} (i : Stmt β)
    (h : i.InDispatch n) : i.Calm L.Dest := by
  cases i <;> first | trivial | exact h.elim | exact h ▸ hn

theorem ensures_drain (hx : Ledgered L x) (h : Released pid x) :
    L.Ensures env pid (fun _ y => Released pid y) (drain env) x := by
  unfold drain
  refine ensures_bind hx (ensures_uses (A := Released pid) (fun _ _ hu h => h.stable hu)
    (loadPolicy_uses trivial trivial) h) fun pol y hy h => ?_
  refine ensures_bind hy (ensures_uses (A := Released pid) (fun _ _ hu h => h.stable hu)
    (uses_perform trivial) h) fun ts y hy h => ?_
  intro t hr ht _ u b he
  obtain ⟨hinv,hu,hh⟩ := claimDue_kept ht (h.stable hr) he
  refine ⟨alone_of_none rfl,⟨hinv,hu⟩,?_⟩
  refine Discipline.Safe.mono ?_ hinv (ensures_sendAll hinv hh)
  exact fun _ z _ hz => hz.holds

theorem ensures_dispatch (i : Input) (h : Released pid x) :
    L.Ensures env pid (fun _ y => Released pid y) (dispatch env i) x := by
  have hdest : ∀ ch ∈ i.notice.channels, L.Dest ch := fun ch hch =>
    L.dest_supported ch ((cleanChannels_clean i.channels).supported ch hch)
  exact ensures_uses (fun _ _ hu h => h.stable hu)
    (uses_mono (calm_inDispatch hdest) (dispatch_uses env i)) h

theorem ensures_flushDigests (hx : Ledgered L x) (h : Released pid x) :
    L.Ensures env pid (fun _ y => Released pid y) flushDigests x := by
  unfold flushDigests
  refine ensures_bind hx (ensures_uses (A := Released pid) (fun _ _ hu h => h.stable hu)
    (uses_perform trivial) h) fun ts y hy h => ?_
  intro t hr ht _ u b he
  have hcalm : (Stmt.flushDue ts).Calm L.Dest := trivial
  obtain ⟨hinv,hu⟩ := calm_kept hcalm ht he
  have hb : b = t.state.store.dueBatches t.state.now.lockedBatch ts := (exec_noted he).2.1
  have hdest : ∀ d ∈ b, L.Dest d.channel := by
    rw [hb]
    exact fun d hd => ht.batches d (dueBatches_spec hd).1
  refine ⟨alone_of_none rfl,⟨hinv,fun q _ => hu q⟩,?_⟩
  refine ensures_uses (A := Released pid) (fun _ _ hu h => h.stable hu) (uses_each fun d hd => ?_)
    (Released.stable (hu pid) (h.stable hr))
  exact uses_bind (uses_perform (hdest d hd)) fun _ => trivial

theorem ensures_requeueStale (h : Released pid x) :
    L.Ensures env pid (fun _ y => Released pid y) requeueStale x := by
  intro t hr ht ha u b he
  obtain ⟨hinv,hu⟩ := requeue_kept ht (ha.1 rfl) he
  exact ⟨alone_of_none rfl,⟨hinv,fun q _ => hu q⟩,Released.stable (hu pid) (h.stable hr)⟩

theorem ensures_handle (r : Request) (hx : Ledgered L x) (h : Released pid x) :
    L.Ensures env pid (fun _ y => Released pid y) (handle env r) x := by
  cases r with
  | dispatch i => exact ensures_bind hx (ensures_dispatch i h) fun _ _ _ h => h
  | drain => exact ensures_bind hx (ensures_drain hx h) fun _ _ _ h => h
  | flushDigests => exact ensures_bind hx (ensures_flushDigests hx h) fun _ _ _ h => h
  | requeueStale => exact ensures_bind hx (ensures_requeueStale h) fun _ _ _ h => h

end Programs

section Runs

variable {L : Ledger} {env : Env} {w v : World (watched env)} {e : Event (watched env)}

structure Ledger.Sound (L : Ledger) (w : World (watched env)) : Prop where
  held : (L.discipline env).HeldTo (fun pid _ x => Released pid x) w
  unlogged : Unlogged (S := system env) note w

theorem sound_idle {s : State} (h : Ledgered L ⟨s,[]⟩) :
    L.Sound (World.idle (S := watched env) ⟨s,[]⟩) :=
  ⟨⟨h,by simp [World.idle]⟩,unlogged_idle s⟩

theorem Ledger.Sound.step (hw : L.Sound w) (hm : Landing (L.discipline env).Allow w e)
    (h : w.step e = some v) : L.Sound v := by
  refine ⟨?_,hw.unlogged.step h⟩
  refine Discipline.heldTo_step (D := L.discipline env) (Q := fun pid _ x => Released pid x)
    (fun _ _ _ _ hu hq => Released.stable hu hq) (fun e _ _ _ _ => Empty.elim e) hw.held hm ?_ h
  rintro pid r rfl
  have hown := hw.unlogged pid (step_start h).1
  exact ensures_handle r hw.held.1 (outstanding_unlogged hown)

theorem Ledger.Sound.held_duty (hw : L.Sound w) (hm : Landing (L.discipline env).Allow w e) :
    Landing (L.discipline env).Duty w e := by
  refine Discipline.held_duty ⟨hw.held.1,fun pid p hp => ?_⟩ hm
  exact Discipline.Safe.mono (fun _ _ _ _ => trivial) hw.held.1 (hw.held.2 pid p hp)

theorem sound_run {es : List (Event (watched env))} (hw : L.Sound w)
    (hc : Along (Landing (L.discipline env).Allow) w es) (hr : w.run es = some v) : L.Sound v :=
  along_invariant (fun _ _ _ hi hm h => Ledger.Sound.step hi hm h) hw hc hr

theorem sound_duty {es : List (Event (watched env))} (hw : L.Sound w)
    (hc : Along (Landing (L.discipline env).Allow) w es) :
    Along (Landing (L.discipline env).Duty) w es :=
  along_mono (fun _ _ _ hi hm h => Ledger.Sound.step hi hm h)
    (fun _ _ hi hm => Ledger.Sound.held_duty hi hm) hw hc

end Runs

def handedOnce : Ledger where
  Acc r cs := true ∈ cs → r.status = .sent
  Dest _ := True
  text _ := True
  dest_supported _ _ := trivial
  dest _ _ _ := trivial
  fresh _ _ _ h := nomatch h
  unsent r cs hacc hdue h := by
    rw [hacc h] at hdue
    exact nomatch hdue
  settle r cs c x hacc hdue hs h := by
    have hcs : true ∉ cs := by
      intro hm
      rw [hacc hm] at hdue
      exact nomatch hdue
    cases hs with
    | delivered t => rfl
    | deferred msg t => exact absurd h hcs
    | unsupported hch hx => exact absurd h hcs
    | refused hx he => exact absurd (List.mem_of_ne_of_mem (by simp) h) hcs
  requeue r cs hacc hst h := by
    rw [hacc h] at hst
    exact nomatch hst

section Apart

variable {env : Env}

def SweepsIdle (w : World (watched env)) (e : Event (watched env)) : Prop :=
  Landing (S := watched env) (fun _ x _ i => Spared x i) w e

def RowsKept (w : World (watched env)) (e : Event (watched env)) : Prop :=
  Landing (S := watched env) (fun _ x _ i => Recorded x i) w e

def SendsAlone (w : World (watched env)) (e : Event (watched env)) : Prop :=
  Landing (S := watched env) (fun pid x _ i => Alone pid x i) w e

instance (log : List (Nat × Note)) : Decidable (idle log) :=
  inferInstanceAs (Decidable (∀ e ∈ log, holds e.1 log = []))

instance (pid id : Nat) (log : List (Nat × Note)) : Decidable (elsewhere pid id log) :=
  inferInstanceAs (Decidable (∃ e ∈ log, e.1 ≠ pid ∧ ∃ r ∈ holds e.1 log, r.id = id))

instance sparedDecidable (x : Traced State Note) {β : Type} (i : Stmt β) :
    Decidable (Spared x i) :=
  inferInstanceAs (Decidable (i.sweeps = true → idle x.log))

instance recordedDecidable (x : Traced State Note) {β : Type} (i : Stmt β) :
    Decidable (Recorded x i) :=
  inferInstanceAs (Decidable (i.settles = true → x.state.now.fault .rowUpdate = false))

instance aloneDecidable (pid : Nat) (x : Traced State Note) {β : Type} (i : Stmt β) :
    Decidable (Alone pid x i) :=
  inferInstanceAs (Decidable (∀ id ∈ i.sends,
    ¬ elsewhere pid id x.log ∧ true ∉ callsOf id x.log))

instance (w : World (watched env)) (e : Event (watched env)) : Decidable (SweepsIdle w e) :=
  landingDecidable (S := watched env) (fun _ x _ i => Spared x i)
    (h := fun _ x _ i => sparedDecidable x i) w e

instance (w : World (watched env)) (e : Event (watched env)) : Decidable (RowsKept w e) :=
  landingDecidable (S := watched env) (fun _ x _ i => Recorded x i)
    (h := fun _ x _ i => recordedDecidable x i) w e

instance (w : World (watched env)) (e : Event (watched env)) : Decidable (SendsAlone w e) :=
  landingDecidable (S := watched env) (fun pid x _ i => Alone pid x i)
    (h := fun pid x _ i => aloneDecidable pid x i) w e

end Apart

theorem ledgered_start {L : Ledger} {s : State} (hrows : ∀ r ∈ s.store.outbox.rows, L.Acc r [])
    (hbatches : s.store.Routed fun _ => L.Dest) : Ledgered L ⟨s,[]⟩ := by
  refine ⟨(fun _ _ h => nomatch h),(fun _ _ _ _ h => nomatch h),?_,fun _ h => absurd rfl h,hbatches⟩
  intro id r hr _
  exact hrows r (Table.find_some hr).1

theorem workers_apart (env : Env) (s : State) (es : List (Event (watched env)))
    (hkept : Along RowsKept (World.idle ⟨s,[]⟩) es)
    (h : Along SweepsIdle (World.idle ⟨s,[]⟩) es) : Along SendsAlone (World.idle ⟨s,[]⟩) es := by
  have hstart : Ledgered handedOnce ⟨s,[]⟩ :=
    ledgered_start (fun _ _ h => nomatch h) fun _ _ => trivial
  refine sound_duty (L := handedOnce) (sound_idle hstart) (along_imp ?_ (along_and h hkept))
  intro w e hw
  cases e with
  | act pid =>
    exact fun β i k hp u b hx => ⟨hw.1 β i k hp u b hx,fun _ _ _ => trivial,hw.2 β i k hp u b hx⟩
  | _ => trivial

def acts (env : Env) (pid n : Nat) : List (Event (watched env)) := List.replicate n (.act pid)

def alertQueued : List (Event (watched .utc)) :=
  .start 0 (.dispatch (.alert "disk" ["email"] false)) :: acts .utc 0 4

def ticking (t : Nat) : Outside := Outside.at (60 * t)

theorem swept_between_drains : Along SendsAlone
    (World.idle (S := watched .utc) ⟨⟨.empty,0,ticking⟩,[]⟩)
    (alertQueued ++ .start 1 .drain :: acts .utc 1 10 ++ .start 2 .requeueStale :: acts .utc 2 1) :=
  workers_apart .utc ⟨.empty,0,ticking⟩ _ (by decide +kernel) (by decide +kernel)

def sweptWhileSending : List (Event (watched .utc)) :=
  alertQueued ++ .start 1 .drain :: acts .utc 1 3 ++ .start 2 .requeueStale :: acts .utc 2 1 ++
    .start 3 .drain :: acts .utc 3 10 ++ acts .utc 1 7

theorem swept_row_sent_twice :
    ((World.idle (S := watched .utc) ⟨⟨.empty,0,ticking⟩,[]⟩).run sweptWhileSending).map
        (fun w => callsOf 0 w.state.log) = some [true,true] ∧
      ¬ Along SendsAlone (World.idle (S := watched .utc) ⟨⟨.empty,0,ticking⟩,[]⟩)
        sweptWhileSending := by
  decide +kernel

end Delivery
