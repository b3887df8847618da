import ServerHub.Alerting.Sweep
import ServerHub.Interleave.Routine

namespace Alerting

open Relational Interleave Interleave.Prog

namespace Query

def row (o : Outside) (id : Nat) : {β : Type} → Query β → Option Alert
  | _, .insertAlert serverID condition threshold severity message =>
      some (internalAlert serverID condition threshold severity message o.current id)
  | _, .insertWebhookAlert serverID condition severity message fingerprint =>
      some (webhookAlert serverID condition severity message fingerprint o.current id)
  | _, _ => none

def closes : {β : Type} → Query β → Alert → Bool
  | _, .resolveLive serverID condition => Alert.liveOn serverID condition
  | _, .resolveFingerprint fingerprint => Alert.liveAs fingerprint
  | _, .resolveID _ id => Alert.liveID id
  | _, _ => fun _ => false

def raised (d : Database) {β : Type} (q : Query β) : Option Alert :=
  if d.now.fault.isSome then none else q.row d.now d.store.alerts.next

def closing (d : Database) {β : Type} (q : Query β) (a : Alert) : Bool :=
  d.now.fault.isNone && q.closes a

def plain : {β : Type} → Query β → Prop
  | _, .clock | _, .offlineCandidates _ | _, .markOffline _ | _, .onlineServers
  | _, .freshMetrics _ | _, .staleServers _ | _, .heartbeat _ _ | _, .insertMetrics _
  | _, .refreshInfo _ _ _ | _, .countServer _ | _, .serverAt _ | _, .countID _ => True
  | _, _ => False

end Query

section Alerts

variable {β : Type} {q : Query β} {d : Database} {row : Alert}

theorem exec_ok {β : Type} {q : Query (Except String β)} {b : β}
    (hrefuse : ∀ e, q.refuse d.now e ≠ .ok b) (h : (q.exec d).2 = .ok b) :
    d.now.fault = none ∧ (q.effect d.now d.store).2 = .ok b ∧
      (q.exec d).1.store = (q.effect d.now d.store).1 := by
  unfold Query.exec at h ⊢
  cases hf : d.now.fault with
  | none =>
    rw [hf] at h
    exact ⟨rfl,h,rfl⟩
  | some e =>
    rw [hf] at h
    exact absurd h (hrefuse e)

theorem exec_none (h : d.now.fault = none) :
    q.exec d = (⟨(q.effect d.now d.store).1,d.tick + 1,d.outside⟩,(q.effect d.now d.store).2) := by
  unfold Query.exec
  rw [h]

theorem exec_some {e : String} (h : d.now.fault = some e) :
    q.exec d = (⟨d.store,d.tick + 1,d.outside⟩,q.refuse d.now e) := by
  unfold Query.exec
  rw [h]

theorem raised_fault (h : q.raised d = some row) :
    d.now.fault = none ∧ q.row d.now d.store.alerts.next = some row := by
  unfold Query.raised at h
  cases hf : d.now.fault with
  | none =>
    rw [hf] at h
    exact ⟨rfl,h⟩
  | some e =>
    rw [hf] at h
    exact nomatch h

theorem raised_row (h : q.raised d = some row) :
    row.id = d.store.alerts.next ∧ row.status = .triggered := by
  obtain ⟨-,hrow⟩ := raised_fault h
  cases q with
  | insertAlert serverID condition threshold severity message =>
    obtain rfl := Option.some.inj hrow
    exact ⟨rfl,rfl⟩
  | insertWebhookAlert serverID condition severity message fingerprint =>
    obtain rfl := Option.some.inj hrow
    exact ⟨rfl,rfl⟩
  | _ => exact nomatch hrow

theorem exec_raised (h : q.raised d = some row) :
    (q.exec d).1.store.alerts.rows = d.store.alerts.rows ++ [row] ∧
      (q.exec d).1.store.alerts.next = d.store.alerts.next + 1 := by
  obtain ⟨hf,hrow⟩ := raised_fault h
  rw [exec_none hf]
  cases q with
  | insertAlert serverID condition threshold severity message =>
    obtain rfl := Option.some.inj hrow
    exact ⟨rfl,rfl⟩
  | insertWebhookAlert serverID condition severity message fingerprint =>
    obtain rfl := Option.some.inj hrow
    exact ⟨rfl,rfl⟩
  | _ => exact nomatch hrow

theorem exec_settled (h : q.raised d = none) :
    (q.exec d).1.store.alerts.next = d.store.alerts.next ∧ ∃ now,
      (q.exec d).1.store.alerts.rows =
        d.store.alerts.rows.map fun a => if q.closing d a then a.closedAt now else a := by
  cases hf : d.now.fault with
  | some e =>
    have hnone : ∀ a, q.closing d a = false := fun a => by simp [Query.closing,hf]
    rw [exec_some hf]
    exact ⟨rfl,0,by simp [hnone]⟩
  | none =>
    have hcloses : ∀ a, q.closing d a = q.closes a := fun a => by simp [Query.closing,hf]
    rw [exec_none hf]
    simp only [hcloses]
    cases q with
    | insertAlert serverID condition threshold severity message =>
      simp [Query.raised,hf,Query.row] at h
    | insertWebhookAlert serverID condition severity message fingerprint =>
      simp [Query.raised,hf,Query.row] at h
    | resolveLive serverID condition => exact ⟨rfl,d.now.current,rfl⟩
    | resolveFingerprint fingerprint => exact ⟨rfl,d.now.current,rfl⟩
    | resolveID now id => exact ⟨rfl,now,rfl⟩
    | _ =>
      refine ⟨rfl,0,?_⟩
      simp [Query.closes,Query.effect,Store.markOffline,Store.heartbeat,Store.refreshInfo]

theorem plain_raised (h : q.plain) : q.raised d = none := by
  cases q with
  | insertAlert serverID condition threshold severity message => exact h.elim
  | insertWebhookAlert serverID condition severity message fingerprint => exact h.elim
  | _ => exact ite_self _

theorem plain_closing (h : q.plain) (a : Alert) : q.closing d a = false := by
  have hcloses : q.closes a = false := by
    cases q with
    | resolveLive serverID condition => exact h.elim
    | resolveFingerprint fingerprint => exact h.elim
    | resolveID now id => exact h.elim
    | _ => rfl
  rw [Query.closing,hcloses,Bool.and_false]

end Alerts

section Walks

variable {R : {α : Type} → Handler α → Prop} (hR : Closed R) {env : Env}

include hR

theorem closed_bind_ite {α γ : Type} {p : Handler α} {c : α → Prop} [∀ a, Decidable (c a)]
    {f g : α → Handler γ} (hp : R p) (hf : ∀ a, R (f a)) (hg : ∀ a, R (g a)) :
    R (p >>= fun a => if c a then f a else g a) := by
  refine hR.bind hp fun a => ?_
  split
  · exact hf a
  · exact hg a

theorem closed_checkMetric
    (hfire : ∀ serverID condition value threshold severity message, condition ≠ "offline" →
      R (fireAlert env serverID condition value threshold severity message))
    (hresolve : ∀ serverID condition ev, condition ≠ "offline" → ev.type = .serverAlertResolved →
      ev.fingerprint = fingerprint serverID condition →
        R (resolveReporting env serverID condition ev))
    (th : Thresholds) (m : Metric) : R (checkMetric env th m) := by
  refine hR.each fun ch hch => ?_
  have hmetric : ch.condition ≠ "offline" := by
    simp only [checks,List.mem_cons,List.not_mem_nil,or_false] at hch
    rcases hch with rfl | rfl | rfl <;> simp
  unfold checkValue
  split
  · exact hR.ret ()
  split
  · exact hfire _ _ _ _ _ _ hmetric
  · exact hresolve _ _ _ hmetric rfl rfl

theorem closed_firstServer (hat : ∀ name, R (perform (.serverAt name))) (names : List String) :
    R (firstServer names) := by
  induction names with
  | nil => exact hR.ret none
  | cons name names ih =>
    unfold firstServer
    split
    · exact ih
    refine hR.bind (hat name) fun id => ?_
    cases id with
    | error e => exact ih
    | ok id => exact hR.ret (some id)

theorem closed_webhook (hat : ∀ name, R (perform (.serverAt name)))
    (hcount : ∀ id, R (perform (.countServer id)))
    (hresolve : ∀ a serverID, a.fingerprint ≠ "" → R (resolveWebhook env a serverID))
    (hfire : ∀ a serverID, a.fingerprint ≠ "" → R (fireWebhook env a serverID))
    (authorised : Bool) (payload : Option (List WebhookAlert)) :
    R (alertmanagerWebhook env authorised payload) := by
  have hserver : ∀ labels, R (resolveAlertServer labels) := by
    intro labels
    unfold resolveAlertServer
    dsimp only
    split
    · exact closed_firstServer hR hat _
    split
    · exact closed_firstServer hR hat _
    · exact closed_bind_ite hR (hcount _) (fun _ => hR.ret _) fun _ => closed_firstServer hR hat _
  unfold alertmanagerWebhook
  split
  · exact hR.ret _
  cases payload with
  | none => exact hR.ret _
  | some alerts =>
    refine hR.bind (hR.each fun a _ => ?_) fun _ => hR.ret _
    refine hR.bind (hserver _) fun serverID => ?_
    unfold persistWebhookAlert
    split
    · exact hR.ret ()
    rename_i hfp
    split
    · exact hresolve a serverID hfp
    · exact hfire a serverID hfp

theorem closed_checkOffline (hclock : R (perform .clock))
    (hcandidates : ∀ cutoff, R (perform (.offlineCandidates cutoff)))
    (honline : R (perform .onlineServers)) (hoffline : ∀ row, R (declareOffline env row))
    (hback : ∀ id, R (backOnline env id)) (th : Thresholds) : R (checkOffline env th) := by
  refine hR.bind hclock fun now => hR.bind (hcandidates _) fun rows => ?_
  cases rows with
  | error e => exact hR.ret ()
  | ok rows =>
    refine hR.bind (hR.each fun row _ => hoffline row) fun _ => hR.bind honline fun ids => ?_
    cases ids with
    | error e => exact hR.ret ()
    | ok ids => exact hR.each fun id _ => hback id

theorem closed_checkMetricThresholds (hclock : R (perform .clock))
    (hfresh : ∀ since, R (perform (.freshMetrics since)))
    (hstale : ∀ since, R (perform (.staleServers since)))
    (hcheck : ∀ th m, R (checkMetric env th m)) (hclose : ∀ id, R (closeStale id))
    (th : Thresholds) : R (checkMetricThresholds env th) := by
  refine hR.bind hclock fun now => hR.bind (hfresh _) fun rows => ?_
  cases rows with
  | error e => exact hR.ret ()
  | ok rows =>
    refine hR.bind (hR.each fun m _ => hcheck th m) fun _ => hR.bind (hstale _) fun ids => ?_
    cases ids with
    | error e => exact hR.ret ()
    | ok ids => exact hR.each fun id _ => hclose id

theorem closed_heartbeat (hclock : R (perform .clock))
    (hbeat : ∀ now id, R (perform (.heartbeat now id))) (agent : Option Nat) :
    R (heartbeat agent) := by
  cases agent with
  | none => exact hR.ret _
  | some id =>
    refine hR.bind hclock fun now => hR.bind (hbeat now id) fun beaten => ?_
    cases beaten <;> exact hR.ret _

theorem closed_ingestMetrics (hclock : R (perform .clock))
    (hbeat : ∀ now id, R (perform (.heartbeat now id)))
    (hinsert : ∀ m, R (perform (.insertMetrics m)))
    (hinfo : ∀ hostname now id, R (perform (.refreshInfo hostname now id)))
    (agent : Option Nat) (body : Except String MetricsBody) : R (ingestMetrics agent body) := by
  cases agent with
  | none => exact hR.ret _
  | some id =>
    cases body with
    | error e => exact hR.ret _
    | ok b =>
      refine hR.bind hclock fun now => hR.bind (hinsert _) fun stored => ?_
      cases stored with
      | error e => exact hR.ret _
      | ok _ =>
        show R (if _ then _ else _)
        split
        · exact hR.bind (hinfo _ _ _) fun _ => hR.ret _
        · exact hR.bind (hbeat _ _) fun _ => hR.ret _

theorem closed_resolve (hclock : R (perform .clock))
    (hclose : ∀ now id, R (perform (.resolveID now id))) (hcount : ∀ id, R (perform (.countID id)))
    (id : Option Int) : R (resolve id) := by
  cases id with
  | none => exact hR.ret _
  | some id =>
    refine hR.bind hclock fun now => hR.bind (hclose now id) fun closed => ?_
    rcases closed with e | _ | n
    · exact hR.ret _
    · exact closed_bind_ite hR (hcount _) (fun _ => hR.ret _) fun _ => hR.ret _
    · exact hR.ret _

end Walks

end Alerting
