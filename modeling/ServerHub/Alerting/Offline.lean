import ServerHub.Alerting.Heartbeats

namespace Alerting

open Relational Interleave Interleave.Prog

def pacing (env : Env) : Ledger (alerting env) Query.beat where
  Inv _ := True
  Allow _ _ _ _ := True
  Duty pid x _ q := Dutiful pid x q

def Settled (ns : List Beat) : Prop := unfired ns = [] ∨ .failed ∈ ns

def Closing (ids : List Nat) (ns : List Beat) : Prop :=
  .failed ∈ ns ∨ ∃ closed ns', ns = (closed.map .resolved).reverse ++ .online (closed ++ ids) :: ns' ∧
    unfired ns' = []

def Marking (ids : List Nat) (ns : List Beat) : Prop :=
  ids.Nodup ∧ ∃ cutoff listed, .listed cutoff listed ∈ ns ∧
    ∀ id ∈ ids, id ∈ listed ∧ (cutoff,id) ∈ candidates ns

section Paces

variable {env : Env} {pid : Nat} {α β : Type} {q : Query β} {J : List Beat → Prop}
  {Q : β → List Beat → Prop}

def Paced (env : Env) (pid : Nat) (J : List Beat → Prop) (p : Handler α)
    (Q : α → List Beat → Prop) : Prop := (pacing env).Tells pid J p Q

theorem paced_perform (hduty : ∀ ns, J ns → q.dutiful ns)
    (h : ∀ d b ns, J ns → b = (q.exec d).2 → Q b ((q.beat β d b).toList ++ ns)) :
    Paced env pid J (perform q) Q := by
  refine Ledger.tells_perform fun (x : Pulse) t b _ hJ _ hexec => ?_
  obtain ⟨rfl,rfl⟩ := Prod.mk.inj (Option.some.inj hexec)
  exact ⟨hduty _ hJ,trivial,h x.state _ _ hJ rfl⟩

theorem paced_silent (hduty : ∀ ns, q.dutiful ns) (hn : ∀ d b, q.beat β d b = none) :
    Paced env pid J (perform q) fun _ => J := by
  refine paced_perform (fun ns _ => hduty ns) fun d b ns hJ _ => ?_
  rw [hn]
  exact hJ

theorem paced_report (ev : Rules.Event) : Paced env pid J (report env ev) fun _ => J := by
  unfold report
  split
  · exact paced_silent (fun _ => trivial) fun _ _ => rfl
  · exact Ledger.tells_ret fun _ hJ => hJ

theorem paced_notify (serverID : Option Nat) (title body category : String) (alertID : Option Nat) :
    Paced env pid J (notify serverID title body category alertID) fun _ => J := by
  have hR : Closed fun {_} p => Paced env pid J p fun _ => J :=
    Ledger.closed_tells (pacing env) pid J
  refine hR.bind (paced_silent (fun _ => trivial) fun _ b => by cases b <;> rfl) fun users => ?_
  cases users with
  | error e => exact hR.ret ()
  | ok users =>
    refine hR.each fun u _ => hR.bind (paced_silent (fun _ => trivial) ?_) fun _ => hR.ret ()
    exact fun _ b => by cases b <;> rfl

theorem offlineBeat_other {condition : String} {n : Beat} (h : condition ≠ "offline") :
    offlineBeat condition n = none := if_neg h

theorem paced_fireMetric (serverID : Nat) (condition : String) (value threshold : Int)
    (severity message : String) (h : condition ≠ "offline") :
    Paced env pid J (fireAlert env serverID condition value threshold severity message)
      fun _ => J := by
  have hR : Closed fun {_} p => Paced env pid J p fun _ => J :=
    Ledger.closed_tells (pacing env) pid J
  refine hR.bind (paced_silent (fun _ => trivial) fun d b => ?_) fun count => ?_
  · cases b with
    | error e => rfl
    | ok n => exact (congrArg (ite (n = 0) none) (offlineBeat_other h)).trans (ite_self _)
  split
  · exact hR.ret ()
  refine hR.bind (paced_silent (fun _ hc => absurd hc h) fun d b => ?_) fun stored => ?_
  · cases b <;> exact offlineBeat_other h
  cases stored with
  | error e => exact hR.ret ()
  | ok _ => exact hR.bind (paced_notify _ _ _ _ _) fun _ => paced_report _

theorem paced_resolveMetric (serverID : Nat) (condition : String) (h : condition ≠ "offline") :
    Paced env pid J (resolveAlert serverID condition) fun _ => J := by
  have hR : Closed fun {_} p => Paced env pid J p fun _ => J :=
    Ledger.closed_tells (pacing env) pid J
  refine hR.bind (paced_silent (fun _ => trivial) fun d b => ?_) fun count => hR.ret _
  cases b <;> exact offlineBeat_other h

theorem paced_metrics (th : Thresholds) :
    Paced env pid J (checkMetricThresholds env th) fun _ => J := by
  have hR : Closed fun {_} p => Paced env pid J p fun _ => J :=
    Ledger.closed_tells (pacing env) pid J
  have hresolve : ∀ serverID condition, condition ≠ "offline" →
      Paced env pid J (resolveAlert serverID condition) fun _ => J := paced_resolveMetric
  refine closed_checkMetricThresholds hR ?_ (fun _ => ?_) (fun _ => ?_) ?_ (fun id => ?_) th
  · exact paced_silent (fun _ => trivial) fun _ b => rfl
  · exact paced_silent (fun _ => trivial) fun _ b => by cases b <;> rfl
  · exact paced_silent (fun _ => trivial) fun _ b => by cases b <;> rfl
  · refine closed_checkMetric hR paced_fireMetric fun serverID condition ev h _ _ => ?_
    refine hR.bind (hresolve _ _ h) fun closed => ?_
    split
    · exact paced_report ev
    · exact hR.ret ()
  · refine hR.bind (hresolve _ _ (by simp)) fun _ => hR.bind (hresolve _ _ (by simp)) fun _ => ?_
    exact hR.bind (hresolve _ _ (by simp)) fun _ => hR.ret ()

theorem marking_cons {ids : List Nat} {n : Beat} {ns : List Beat}
    (hn : candidates (n :: ns) = candidates ns) (h : Marking ids ns) : Marking ids (n :: ns) := by
  obtain ⟨hnodup,cutoff,listed,hlisted,hall⟩ := h
  refine ⟨hnodup,cutoff,listed,List.mem_cons_of_mem n hlisted,fun id hid => ?_⟩
  rw [hn]
  exact hall id hid

def Firing (id : Nat) (ids : List Nat) (ns : List Beat) : Prop :=
  Marking ids ns ∧ (∃ cutoff listed, .listed cutoff listed ∈ ns ∧ id ∈ listed) ∧
    (.failed ∈ ns ∨ ∀ k ∈ unfired ns, k = id)

theorem unfired_cleared {id : Nat} {ns : List Beat} (h : ∀ k ∈ unfired ns, k = id) :
    (unfired ns).filter (fun k => k != id) = [] :=
  List.filter_eq_nil_iff.mpr fun k hk => by simp [h k hk]

theorem paced_fireOffline (id : Nat) (ids : List Nat) (value threshold : Int)
    (severity message : String) :
    Paced env pid (Firing id ids) (fireAlert env id "offline" value threshold severity message)
      fun _ ns => Marking ids ns ∧ Settled ns := by
  have hR : ∀ J, Closed fun {_} p => Paced env pid J p fun _ => J :=
    fun J => Ledger.closed_tells (pacing env) pid J
  refine Ledger.tells_bind (Q := fun answer ns => Firing id ids ns ∧
    (0 < counted answer → Settled ns)) (paced_perform (fun _ _ => trivial) ?_) fun answer => ?_
  · rintro d b ns ⟨hmarking,⟨cutoff,listed,hlisted,hid⟩,hunfired⟩ -
    have hquiet : Firing id ids ns := ⟨hmarking,⟨cutoff,listed,hlisted,hid⟩,hunfired⟩
    cases b with
    | error e => exact ⟨hquiet,fun h => absurd h (Nat.lt_irrefl 0)⟩
    | ok n =>
      rcases Nat.eq_zero_or_pos n with rfl | hpos
      · exact ⟨hquiet,fun h => absurd h (Nat.lt_irrefl 0)⟩
      · have hn : Query.beat _ (.countLive id "offline") d (.ok n) = some (.found id) := by
          simp [Query.beat,offlineBeat,Nat.ne_of_gt hpos]
        rw [hn]
        have hsettled : Settled (.found id :: ns) :=
          hunfired.symm.imp unfired_cleared (List.mem_cons_of_mem _)
        refine ⟨⟨marking_cons rfl hmarking,⟨cutoff,listed,List.mem_cons_of_mem _ hlisted,hid⟩,?_⟩,
          fun _ => hsettled⟩
        refine hsettled.symm.imp_right fun h k hk => ?_
        have hk : k ∈ unfired (.found id :: ns) := hk
        rw [h] at hk
        exact nomatch hk
  split
  · rename_i hpos
    exact Ledger.tells_ret fun ns h => ⟨h.1.1,h.2 hpos⟩
  refine Ledger.tells_bind (Q := fun _ ns => Marking ids ns ∧ Settled ns)
    (paced_perform (fun ns h _ => h.1.2.1) ?_) fun stored => ?_
  · rintro d b ns ⟨⟨hmarking,-,hunfired⟩,-⟩ -
    cases b with
    | error e => exact ⟨marking_cons rfl hmarking,.inr List.mem_cons_self⟩
    | ok _ =>
      exact ⟨marking_cons rfl hmarking,hunfired.symm.imp unfired_cleared (List.mem_cons_of_mem _)⟩
  cases stored with
  | error e => exact (hR _).ret ()
  | ok _ => exact (hR _).bind (paced_notify _ _ _ _ _) fun _ => paced_report _

theorem marking_rest {id : Nat} {ids : List Nat} {n : Beat} {ns : List Beat}
    (hn : candidates (n :: ns) = (candidates ns).filter fun c => c.2 != id)
    (h : Marking (id :: ids) ns) : Marking ids (n :: ns) := by
  obtain ⟨hnodup,cutoff,listed,hlisted,hall⟩ := h
  obtain ⟨hfresh,hrest⟩ := List.nodup_cons.mp hnodup
  refine ⟨hrest,cutoff,listed,List.mem_cons_of_mem n hlisted,fun k hk => ?_⟩
  obtain ⟨hin,hcandidate⟩ := hall k (List.mem_cons_of_mem id hk)
  refine ⟨hin,?_⟩
  rw [hn]
  exact List.mem_filter.mpr ⟨hcandidate,bne_iff_ne.mpr fun he => hfresh (he ▸ hk)⟩

theorem paced_declareOffline (row : Nat × String) (rest : List (Nat × String)) :
    Paced env pid (fun ns => Marking ((row :: rest).map Prod.fst) ns ∧ Settled ns)
      (declareOffline env row) fun _ ns => Marking (rest.map Prod.fst) ns ∧ Settled ns := by
  refine Ledger.tells_bind (Q := fun _ => Firing row.1 (rest.map Prod.fst))
    (paced_perform ?_ ?_) fun _ => paced_fireOffline _ _ _ _ _ _
  · rintro ns ⟨⟨-,cutoff,listed,-,hall⟩,-⟩
    exact ⟨cutoff,(hall row.1 List.mem_cons_self).2⟩
  · rintro d b ns ⟨hmarking,hsettled⟩ -
    obtain ⟨-,cutoff,listed,hlisted,hall⟩ := id hmarking
    have hin := (hall row.1 List.mem_cons_self).1
    cases b with
    | error e =>
      refine ⟨marking_rest rfl hmarking,⟨cutoff,listed,List.mem_cons_of_mem _ hlisted,hin⟩,?_⟩
      refine hsettled.symm.imp (List.mem_cons_of_mem _) fun h k hk => ?_
      have hk : k ∈ unfired ns := hk
      rw [h] at hk
      exact nomatch hk
    | ok _ =>
      refine ⟨marking_rest rfl hmarking,⟨cutoff,listed,List.mem_cons_of_mem _ hlisted,hin⟩,?_⟩
      refine hsettled.symm.imp (List.mem_cons_of_mem _) fun h k hk => ?_
      have hk : k ∈ row.1 :: unfired ns := hk
      rw [h] at hk
      exact List.mem_singleton.mp hk

theorem paced_backOnline (id : Nat) (rest : List Nat) :
    Paced env pid (Closing (id :: rest)) (backOnline env id) fun _ => Closing rest := by
  have hR : Closed fun {_} p => Paced env pid (Closing rest) p fun _ => Closing rest :=
    Ledger.closed_tells (pacing env) pid _
  refine Ledger.tells_bind (Q := fun _ => Closing rest) (Ledger.tells_bind (Q := fun _ => Closing rest)
    (paced_perform (fun _ _ => trivial) ?_) fun _ => hR.ret _) fun closed => ?_
  · rintro d b ns h -
    cases b with
    | error e => exact .inl List.mem_cons_self
    | ok n =>
      rcases h with hfailed | ⟨closed,ns',rfl,hunfired⟩
      · exact .inl (List.mem_cons_of_mem _ hfailed)
      · exact .inr ⟨closed ++ [id],ns',by simp [Query.beat,offlineBeat],hunfired⟩
  split
  · exact paced_report _
  · exact hR.ret ()

theorem candidates_nodup {d : Database} {cutoff : Int} {rows : List (Nat × String)}
    (h : .ok rows = ((Query.offlineCandidates cutoff).exec d).2) : (rows.map Prod.fst).Nodup := by
  obtain ⟨-,hok,-⟩ := exec_ok (by simp [Query.refuse]) h.symm
  rw [← Except.ok.inj hok,List.map_map]
  exact d.store.servers.nodup.sublist (List.filter_sublist.map Server.id)

-- what holds of the notes after an answer, or that it failed
def Answers {ε α : Type} (P : α → List Beat → Prop) : Except ε α → List Beat → Prop
  | .error _, ns => .failed ∈ ns
  | .ok a, ns => P a ns

theorem paced_checkOffline (th : Thresholds) :
    Paced env pid (· = []) (checkOffline env th) fun _ => Closing [] := by
  refine Ledger.tells_bind (paced_silent (fun _ => trivial) fun _ _ => rfl) fun now => ?_
  refine Ledger.tells_bind (Q := Answers fun rows ns => Marking (rows.map Prod.fst) ns ∧ Settled ns)
    (paced_perform (fun _ _ => trivial) ?_) fun answer => ?_
  · rintro d b _ rfl hb
    cases b with
    | error e => exact List.mem_cons_self
    | ok rows =>
      refine ⟨⟨candidates_nodup hb,_,rows.map Prod.fst,List.mem_cons_self,fun id hid => ⟨hid,?_⟩⟩,.inl rfl⟩
      exact List.mem_append_left _ (List.mem_map_of_mem hid)
  cases answer with
  | error e => exact Ledger.tells_ret fun _ h => .inl h
  | ok rows =>
    refine Ledger.tells_bind (Ledger.tells_each
      (K := fun rest ns => Marking (rest.map Prod.fst) ns ∧ Settled ns) paced_declareOffline)
      fun _ => ?_
    refine Ledger.tells_bind (Q := Answers Closing) (paced_perform (fun _ _ => trivial) ?_)
      fun answer => ?_
    · rintro d b ns ⟨-,hsettled⟩ -
      cases b with
      | error e => exact List.mem_cons_self
      | ok ids =>
        rcases hsettled with hunfired | hfailed
        · exact .inr ⟨[],ns,rfl,hunfired⟩
        · exact .inl (List.mem_cons_of_mem _ hfailed)
    cases answer with
    | error e => exact Ledger.tells_ret fun _ h => .inl h
    | ok ids => exact Ledger.tells_each (K := Closing) paced_backOnline

end Paces

def Request.onDuty : Request → Prop
  | .sweep _ | .heartbeat _ | .ingestMetrics _ _ => True
  | .webhook _ _ | .resolve _ => False

theorem closing_settled {ns : List Beat} (h : Closing [] ns) : Settled ns := by
  rcases h with hfailed | ⟨closed,ns',rfl,hunfired⟩
  · exact .inr hfailed
  · refine .inl ?_
    have hresolved : ∀ done : List Nat,
        unfired (done.map Beat.resolved ++ .online (closed ++ []) :: ns') = [] := by
      intro done
      induction done with
      | nil => exact hunfired
      | cons id done ih => exact ih
    rw [← List.map_reverse]
    exact hresolved _

theorem paced_handle {env : Env} {pid : Nat} (r : Request) (h : r.onDuty) :
    Paced env pid (· = []) (handle env r) fun _ ns => Settled ns ∧
      ∀ th, r = .sweep th → Closing [] ns := by
  have hR : Closed fun {_} p => Paced env pid Settled p fun _ => Settled :=
    Ledger.closed_tells (pacing env) pid Settled
  have hstart : ∀ ns : List Beat, ns = [] → Settled ns := fun ns h => h ▸ .inl rfl
  have hclock : Paced env pid Settled (perform .clock) fun _ => Settled :=
    paced_silent (fun _ => trivial) fun _ _ => rfl
  have hbeat : ∀ now id, Paced env pid Settled (perform (.heartbeat now id)) fun _ => Settled := by
    refine fun now id => paced_perform (fun _ _ => trivial) fun d b ns hns _ => ?_
    cases b with
    | error e => exact hns
    | ok _ => exact hns.imp_right (List.mem_cons_of_mem _)
  cases r with
  | sweep th =>
    refine Ledger.tells_bind (paced_checkOffline th) fun _ => ?_
    refine Ledger.tells_bind (paced_metrics th) fun _ => Ledger.tells_ret fun ns hns => ?_
    exact ⟨closing_settled hns,fun _ _ => hns⟩
  | heartbeat agent =>
    refine Ledger.tells_mono (J := Settled) hstart (fun _ _ hns => ⟨hns,fun _ h => nomatch h⟩) ?_
    exact closed_heartbeat hR hclock hbeat agent
  | ingestMetrics agent body =>
    refine Ledger.tells_mono (J := Settled) hstart (fun _ _ hns => ⟨hns,fun _ h => nomatch h⟩) ?_
    refine closed_ingestMetrics hR hclock hbeat (fun m => ?_) (fun hostname now id => ?_) agent body
    · exact paced_silent (fun _ => trivial) fun _ b => by cases b <;> rfl
    · refine paced_perform (fun _ _ => trivial) fun d b ns hns _ => ?_
      cases b with
      | error e => exact hns
      | ok _ => exact hns.imp_right (List.mem_cons_of_mem _)
  | webhook authorised payload => exact h.elim
  | resolve id => exact h.elim

section Runs

variable {env : Env} {d : Database} {es : List (Event (pulses env))} {v : World (pulses env)}

def Agreeing (s : Store) : Prop :=
  ∀ id, s.view.alert id = true ↔ s.view.status id = some .offline

theorem timely_begun (d : Database) : Timely ⟨d,[]⟩ :=
  ⟨fun _ _ h => (nomatch h),fun _ _ _ h => (nomatch h)⟩

theorem aged_begun (d : Database) : Aged ⟨d,[]⟩ := fun _ _ _ h => (nomatch h)

theorem covered_begun (h : Agreeing d.store) : Covered d.store.view ⟨d,[]⟩ := by
  refine ⟨fun id hid => .inl ((h id).mpr hid),fun id hid => .inr ((h id).mp hid),
    fun _ _ _ hm => (nomatch hm),?_,?_,fun _ hm => (nomatch hm),fun _ _ => Iff.rfl⟩
  · intro newer pid ids older hsplit
    exact absurd hsplit.symm (by simp)
  · intro newer pid id older hsplit
    exact absurd hsplit.symm (by simp)

theorem dutiful_run (hduty : ∀ pid r, .start pid r ∈ es → r.onDuty) :
    Along (Landing Dutiful) (begun d) es :=
  Ledger.told_duty (L := pacing env)
    (R := fun _ r _ ns => Settled ns ∧ ∀ th, r = .sweep th → Closing [] ns)
    (fun pid r hm => paced_handle r (hduty pid r hm)) (fun e => e.elim) trivial
    (along_of_mem (fun e _ w => by cases e <;> simp [Landing,pacing]) _)

theorem closing_run (hduty : ∀ pid r, .start pid r ∈ es → r.onDuty) (hv : (begun d).run es = some v) :
    ∀ pid r a, .start pid r ∈ es → v.pool pid = some (.ret a) →
      Settled (notesOf pid v.state.log) ∧
        ∀ th, r = .sweep th → Closing [] (notesOf pid v.state.log) :=
  (Ledger.told (L := pacing env)
    (R := fun _ r _ ns => Settled ns ∧ ∀ th, r = .sweep th → Closing [] ns)
    (fun pid r hm => paced_handle r (hduty pid r hm)) (fun e => e.elim) trivial
    (along_of_mem (fun e _ w => by cases e <;> simp [Landing,pacing]) _) hv).2

theorem timely_run (hduty : ∀ pid r, .start pid r ∈ es → r.onDuty)
    (hundisturbed : Along (Landing Undisturbed) (begun d) es) (hv : (begun d).run es = some v) :
    Timely v.state := by
  refine landed (S := pulses env) (I := Timely) (fun pid x β q y b hx hallow hexec => ?_) (fun e => e.elim)
    (timely_begun d)
    (along_imp (fun _ _ h => landing_and h) (along_and (dutiful_run hduty) hundisturbed)) hv
  obtain ⟨hb,hlog,hview⟩ := exec_pulses hallow.1 hexec
  exact hx.step hlog hview (fun n hn => beat_seen hallow.1 hb hn) fun id now hn p c hc hid =>
    beat_undisturbed hallow.2 hb hn hc hid

theorem overdue_along (hduty : ∀ pid r, .start pid r ∈ es → r.onDuty)
    (hunrenewed : Along (Landing Unrenewed) (begun d) es) : Along (Landing Overdue) (begun d) es := by
  refine along_landed (I := Aged) (fun pid x β q y b hx hallow hexec => ?_) (fun e => e.elim)
    (fun _ _ _ _ hx hallow => hx.overdue hallow.1 hallow.2) (aged_begun d)
    (along_imp (fun _ _ h => landing_and h) (along_and (dutiful_run hduty) hunrenewed))
  obtain ⟨hb,hlog,hview⟩ := exec_pulses hallow.1 hexec
  exact hx.step hlog hview fun n hn => beat_seen hallow.1 hb hn

theorem covered_run (hduty : ∀ pid r, .start pid r ∈ es → r.onDuty) (hagree : Agreeing d.store)
    (hunclosed : Along (Landing Unclosed) (begun d) es)
    (hworking : Along (Landing Working) (begun d) es) (hv : (begun d).run es = some v) :
    Covered d.store.view v.state := by
  have hallow := along_imp (fun _ _ h => landing_and h) (along_and (dutiful_run hduty)
    (along_imp (fun _ _ h => landing_and h) (along_and hunclosed hworking)))
  refine landed (S := pulses env) (I := Covered d.store.view) (fun pid x β q y b hx hallow hexec => ?_)
    (fun e => e.elim) (covered_begun hagree) hallow hv
  obtain ⟨hb,hlog,hview⟩ := exec_pulses hallow.1 hexec
  exact hx.step hlog hview (fun n hn => beat_seen hallow.1 hb hn)
    (fun id hn => beat_unclosed hallow.2.1 hb hn) (beat_working hallow.2.2 hb)

theorem settled_covered {x : Pulse} {start : View} (hx : Covered start x) {pid : Nat}
    (h : Settled (notesOf pid x.log)) : unfired (notesOf pid x.log) = [] := by
  rcases h with hunfired | hfailed
  · exact hunfired
  · exact absurd rfl (hx.working _ (mem_notesOf.mp hfailed))

theorem quiet_sweep {x : Pulse} {start : View} {pid : Nat} {recent older : List (Nat × Beat)}
    {closed : List Nat} {ns : List Beat} (hx : Covered start x) (hlog : x.log = recent ++ older)
    (hmine : ∀ e ∈ recent, e.1 = pid)
    (hnotes : recent.map Prod.snd = (closed.map .resolved).reverse ++ .online closed :: ns)
    {id : Nat} (hid : x.state.store.view.status id = some .online) :
    x.state.store.view.alert id = false := by
  obtain ⟨done,rest,rfl,hdone,hrest⟩ := List.map_eq_append_iff.mp hnotes
  obtain ⟨⟨p,n⟩,earlier,rfl,hn,-⟩ := List.map_eq_cons_iff.mp hrest
  obtain rfl : n = .online closed := hn
  have hresolved : ∀ e ∈ done, ∃ k ∈ closed, e.2 = .resolved k := by
    intro e he
    have hin : e.2 ∈ (closed.map Beat.resolved).reverse := hdone ▸ List.mem_map_of_mem he
    obtain ⟨k,hk,hbeat⟩ := List.mem_map.mp (List.mem_reverse.mp hin)
    exact ⟨k,hk,hbeat.symm⟩
  have hin : id ∈ closed := by
    have hsplit : x.log = done ++ (p,.online closed) :: (earlier ++ older) := by simp [hlog]
    rcases hx.online done p closed _ hsplit id hid with hin | ⟨e,he,now,hbeat⟩
    · exact hin
    · obtain ⟨k,-,hk⟩ := hresolved e he
      rw [hk] at hbeat
      exact nomatch hbeat
  have hclosed : .resolved id ∈ done.map Prod.snd := by
    rw [hdone]
    exact List.mem_reverse.mpr (List.mem_map_of_mem hin)
  obtain ⟨⟨p',n'⟩,he,hn'⟩ := List.mem_map.mp hclosed
  obtain rfl : n' = .resolved id := hn'
  obtain ⟨before,after,rfl⟩ := List.append_of_mem he
  by_contra halert
  have hsplit : x.log = before ++ (p',.resolved id) ::
      (after ++ (p,.online closed) :: (earlier ++ older)) := by simp [hlog]
  obtain ⟨e,he,hfired⟩ := hx.resolved before p' id _ hsplit (Bool.eq_true_of_not_eq_false halert)
  obtain ⟨k,-,hk⟩ := hresolved e (List.mem_append_left _ he)
  rw [hk] at hfired
  exact nomatch hfired

theorem quiescent_settled {x : World (pulses env)} {start : View} (hx : Covered start x.state)
    (hv : (begun d).run es = some x) (hduty : ∀ pid r, .start pid r ∈ es → r.onDuty)
    (hdone : ∀ q p, x.pool q = some p → ∃ a, p = .ret a) (q : Nat) :
    unfired (notesOf q x.state.log) = [] := by
  cases hp : x.pool q with
  | none =>
    rw [notesOf,unseen_run hv q hp]
    rfl
  | some p =>
    obtain ⟨a,rfl⟩ := hdone q p hp
    obtain ⟨r,hr⟩ := pool_started (S := pulses env) hv rfl hp
    exact settled_covered hx (closing_run hduty hv q r a hr hp).1

theorem alert_view (s : Store) (id : Nat) :
    (∃ a ∈ s.alerts.rows, a.liveOn id "offline" = true) ↔ s.view.alert id = true :=
  List.any_eq_true.symm

theorem live_server_not_offline (env : Env) (d : Database) (es : List (Event (pulses env)))
    (v : World (pulses env)) (hduty : ∀ pid r, .start pid r ∈ es → r.onDuty)
    (hv : (begun d).run es = some v) :
    (Along (Landing Undisturbed) (begun d) es →
      ∀ pid id heartbeat, (pid,.marked id heartbeat) ∈ v.state.log → ∃ cutoff ids,
        (pid,.listed cutoff ids) ∈ v.state.log ∧ id ∈ ids ∧
          Server.staleBefore cutoff heartbeat = true) ∧
    (Along (Landing Unrenewed) (begun d) es → Along (Landing Overdue) (begun d) es) ∧
    (Agreeing d.store → Along (Landing Unclosed) (begun d) es →
      Along (Landing Working) (begun d) es → ∀ before pid th after w,
      es = before ++ .start pid (.sweep th) :: after → (∀ e ∈ after, e = .act pid) →
      (begun d).run before = some w → (∀ q p, w.pool q = some p → ∃ a, p = .ret a) →
      v.pool pid = some (.ret .swept) → ∀ s ∈ v.state.state.store.servers.rows,
        (∃ a ∈ v.state.state.store.alerts.rows, a.liveOn s.id "offline" = true) ↔
          LeftOffline d.store.view v.state.log s.id) := by
  refine ⟨fun hundisturbed => (timely_run hduty hundisturbed hv).right,overdue_along hduty,?_⟩
  intro hagree hunclosed hworking before pid th after w hes hafter hw hquiet hend s hs
  have hx := covered_run hduty hagree hunclosed hworking hv
  have hstart : .start pid (.sweep th) ∈ es := by simp [hes]
  obtain ⟨recent,hlog,hmine,hnotes,hothers⟩ := solo_extend (hes ▸ hv) hw hafter
  have hdone : ∀ q p, v.pool q = some p → ∃ a, p = .ret a := by
    intro q p hp
    by_cases hq : q = pid
    · subst hq
      exact ⟨.swept,Option.some.inj (hp.symm.trans hend)⟩
    · exact hquiet q p ((hothers q hq) ▸ hp)
  have hsettled := quiescent_settled hx hv hduty hdone
  have hfind : v.state.state.store.servers.find s.id = some s := Table.find_of_mem hs
  have hstatus : v.state.state.store.view.status s.id = some s.status := by
    simp [Store.view,hfind]
  rw [alert_view,← hx.writer s.id (by rw [hstatus]; rfl)]
  constructor
  · intro halert
    rcases hx.alerted s.id halert with honline | hoffline
    · rcases (closing_run hduty hv pid _ _ hstart hend).2 th rfl with hfailed | ⟨closed,ns,hns,-⟩
      · exact absurd rfl (hx.working _ (mem_notesOf.mp hfailed))
      · rw [List.append_nil] at hns
        rw [quiet_sweep hx hlog hmine (hnotes.trans hns) honline] at halert
        cases halert
    · exact hoffline
  · intro hoffline
    rcases hx.offline s.id hoffline with halert | ⟨q,hq⟩
    · exact halert
    · rw [hsettled q] at hq
      cases hq

end Runs

section Instances

variable {env : Env}

instance undisturbedDecidable (pid : Nat) (x : Pulse) (β : Type) (q : Query β) :
    Decidable (Undisturbed pid x q) := inferInstanceAs (Decidable (_ = true))

instance unrenewedDecidable (pid : Nat) (x : Pulse) (β : Type) (q : Query β) :
    Decidable (Unrenewed pid x q) := inferInstanceAs (Decidable (_ = true))

instance unclosedDecidable (pid : Nat) (x : Pulse) (β : Type) (q : Query β) :
    Decidable (Unclosed pid x q) := inferInstanceAs (Decidable (_ = true))

instance workingDecidable (pid : Nat) (x : Pulse) (β : Type) (q : Query β) :
    Decidable (Working pid x q) := inferInstanceAs (Decidable (_ = true))

instance undisturbedLanding (w : World (pulses env)) (e : Event (pulses env)) :
    Decidable (Landing Undisturbed w e) :=
  landingDecidable (S := pulses env) Undisturbed (h := undisturbedDecidable) w e

instance unrenewedLanding (w : World (pulses env)) (e : Event (pulses env)) :
    Decidable (Landing Unrenewed w e) :=
  landingDecidable (S := pulses env) Unrenewed (h := unrenewedDecidable) w e

instance unclosedLanding (w : World (pulses env)) (e : Event (pulses env)) :
    Decidable (Landing Unclosed w e) :=
  landingDecidable (S := pulses env) Unclosed (h := unclosedDecidable) w e

instance workingLanding (w : World (pulses env)) (e : Event (pulses env)) :
    Decidable (Landing Working w e) :=
  landingDecidable (S := pulses env) Working (h := workingDecidable) w e

def serverRow (heartbeat : Int) (id : Nat) : Server :=
  ⟨id,"web","web","",.online,.connected,some heartbeat⟩

def twoServers : Database :=
  let servers := (Serial.empty.insert (serverRow (-600 * Go.second)) fun _ => rfl).insert
    (serverRow 0) fun _ => rfl
  ⟨{ Store.empty with servers := servers },0,fun _ => ⟨none,0,0,0⟩⟩

theorem agreeing_twoServers : Agreeing twoServers.store := by
  intro id
  have hstatus : twoServers.store.view.status id ≠ some .offline := by
    intro h
    obtain ⟨s,hs,hoffline⟩ := Option.map_eq_some_iff.mp h
    have hall : ∀ s ∈ twoServers.store.servers.rows, s.status ≠ .offline := by decide
    exact hall s (Table.find_some hs).1 hoffline
  exact ⟨fun h => (nomatch h),fun h => absurd h hstatus⟩

def thresholds : Thresholds := ⟨0,0,0,0⟩

def acts (pid n : Nat) : List (Event (pulses env)) := List.replicate n (.act pid)

def sweepAlone : List (Event (pulses plain)) := .start 0 (.sweep thresholds) :: acts 0 12

def swept (w : World (pulses env)) : Option Reply × List ServerStatus × List (Option Nat × String) :=
  (w.answer 0,w.state.state.store.servers.rows.map Server.status,
    w.state.state.store.alerts.rows.map fun a => (a.serverID,a.condition))

theorem silent_server_declared :
    Along (Landing Undisturbed) (begun twoServers) sweepAlone ∧
    Along (Landing Unrenewed) (begun twoServers) sweepAlone ∧
    Along (Landing Overdue) (begun twoServers) sweepAlone ∧
    Along (Landing Unclosed) (begun twoServers) sweepAlone ∧
    Along (Landing Working) (begun twoServers) sweepAlone ∧
    ∃ v : World (pulses plain), (begun twoServers).run sweepAlone = some v ∧
      v.state.state.store.servers.rows.map Server.status = [.offline,.online] ∧
      (∀ pid id heartbeat, (pid,.marked id heartbeat) ∈ v.state.log → ∃ cutoff ids,
        (pid,.listed cutoff ids) ∈ v.state.log ∧ id ∈ ids ∧
          Server.staleBefore cutoff heartbeat = true) ∧
      ∀ s ∈ v.state.state.store.servers.rows,
        (∃ a ∈ v.state.state.store.alerts.rows, a.liveOn s.id "offline" = true) ↔
          LeftOffline twoServers.store.view v.state.log s.id := by
  have hundisturbed : Along (Landing Undisturbed) (begun twoServers) sweepAlone := by decide
  have hunrenewed : Along (Landing Unrenewed) (begun twoServers) sweepAlone := by decide
  have hunclosed : Along (Landing Unclosed) (begun twoServers) sweepAlone := by decide
  have hworking : Along (Landing Working) (begun twoServers) sweepAlone := by decide
  have hrun : ((begun twoServers).run sweepAlone).map swept =
      some (some .swept,[.offline,.online],[(some 0,"offline")]) := by
    decide
  obtain ⟨v,hv,hswept⟩ := Option.map_eq_some_iff.mp hrun
  obtain ⟨hanswer,hrest⟩ := Prod.mk.inj hswept
  obtain ⟨hright,hoverdue,hagrees⟩ := live_server_not_offline plain twoServers sweepAlone v (by
    intro pid r hr
    rcases List.mem_cons.mp hr with he | hr
    · obtain ⟨rfl,rfl⟩ := Event.start.inj he
      trivial
    · exact nomatch List.eq_of_mem_replicate hr) hv
  refine ⟨hundisturbed,hunrenewed,hoverdue hunrenewed,hunclosed,hworking,v,hv,
    (Prod.mk.inj hrest).1,hright hundisturbed,?_⟩
  exact hagrees agreeing_twoServers hunclosed hworking [] 0 thresholds (acts 0 12) (begun twoServers)
    rfl (fun e he => List.eq_of_mem_replicate he) rfl (fun _ _ hp => nomatch hp)
    (World.answer_eq.mp hanswer)

def heartbeatBetween : List (Event (pulses plain)) :=
  [.start 0 (.sweep thresholds),.start 1 (.heartbeat (some 0)),.act 0,.act 0,.act 1,.act 1,.act 0]

theorem heartbeat_overwritten :
    ¬ ∀ (env : Env) (d : Database) (es : List (Event (pulses env))) (v : World (pulses env)),
      (∀ n, (d.outside n).fault = none) → (∀ pid r, .start pid r ∈ es → r.onDuty) →
      Agreeing d.store → (begun d).run es = some v →
      ∀ pid id heartbeat, (pid,.marked id heartbeat) ∈ v.state.log → ∃ cutoff ids,
        (pid,.listed cutoff ids) ∈ v.state.log ∧ id ∈ ids ∧
          Server.staleBefore cutoff heartbeat = true := by
  intro h
  have hrun : ((begun twoServers).run heartbeatBetween).map
      (fun v : World (pulses plain) => v.state.log) = some [(0,.marked 0 (some 0)),(1,.beat 0 0),
        (0,.listed (-180 * Go.second) [0])] := by
    decide
  obtain ⟨v,hv,hlog⟩ := Option.map_eq_some_iff.mp hrun
  obtain ⟨cutoff,ids,hlisted,-,hstale⟩ := h plain twoServers heartbeatBetween v (fun _ => rfl) (by
    intro pid r hr
    simp only [heartbeatBetween,List.mem_cons,reduceCtorEq,or_false,List.not_mem_nil] at hr
    rcases hr with he | he <;> · obtain ⟨-,rfl⟩ := Event.start.inj he; trivial)
    agreeing_twoServers hv 0 0 (some 0) (by rw [hlog]; exact List.mem_cons_self)
  rw [hlog] at hlisted
  have hcutoff : cutoff = -180 * Go.second := by
    simp only [List.mem_cons,Prod.mk.injEq,reduceCtorEq,and_false,false_or,List.not_mem_nil,
      or_false,Beat.listed.injEq,true_and] at hlisted
    exact hlisted.1
  rw [hcutoff] at hstale
  exact absurd hstale (by decide)

end Instances

end Alerting
