import ServerHub.Alerting.Alerts
import ServerHub.Rules.Recovery

namespace Alerting

open Relational Interleave Interleave.Prog

def Alert.fired (a : Alert) : Rules.EventType × String :=
  if a.fingerprint = "" then (firingType a.condition,Alerting.fingerprint (a.serverID.getD 0) a.condition)
  else (.serverAlert,a.fingerprint)

inductive Deal where
  | raised (row : Alert)
  | closed (rows : List Alert)
  | reported (ev : Rules.Event)
deriving DecidableEq

def metricConditions : List String := ["cpu_high","ram_high","disk_high"]

def closable (rows : List Alert) (fired : Rules.EventType × String) : Bool :=
  match rows with
  | [] => true
  | [row] => row.fired == fired
  | _ => false

namespace Query

def event : {β : Type} → Query β → Option Rules.Event
  | _, .evaluate ev => some ev
  | _, _ => none

def deal {β : Type} (q : Query β) (d : Database) : Option Deal :=
  match q.raised d,q.event,d.store.alerts.select (q.closing d) with
  | some row,_,_ => some (.raised row)
  | none,some ev,_ => some (.reported ev)
  | none,none,[] => none
  | none,none,rows => some (.closed rows)

def reportable (s : Store) : {β : Type} → Query β → Bool
  | _, .resolveLive serverID condition =>
      closable (s.alerts.select (Alert.liveOn serverID condition))
        (firingType condition,fingerprint serverID condition)
  | _, .resolveFingerprint fingerprint =>
      closable (s.alerts.select (Alert.liveAs fingerprint)) (.serverAlert,fingerprint)
  | _, .resolveID _ id => s.alerts.select (Alert.liveID id) == []
  | _, .staleServers since => (s.staleServers since).all fun id => metricConditions.all fun condition =>
      s.alerts.select (Alert.liveOn id condition) == []
  | _, _ => true

end Query

structure Desk where
  state : Database
  log : List Deal

def Desk.rows (x : Desk) : List Alert := x.state.store.alerts.rows

def Query.serve {β : Type} (q : Query β) (x : Desk) : Desk × β :=
  (⟨(q.exec x.state).1,(q.deal x.state).toList ++ x.log⟩,(q.exec x.state).2)

def Reportable (x : Desk) {β : Type} (q : Query β) : Prop :=
  (x.state.now.fault.isSome || q.reportable x.state.store) = true

def sequence (env : Env) (rs : List Request) : Handler Unit :=
  each (fun r => do let _ ← handle env r) rs

structure Onset where
  row : Alert
  ev : Rules.Event
  live : row.live = true
  opens : ev.type = row.fired.1
  fingerprint : ev.fingerprint = row.fired.2

structure Recovery where
  row : Alert
  ev : Rules.Event
  live : row.live = true
  closes : ev.type.firing = row.fired.1
  fingerprint : ev.fingerprint = row.fired.2

inductive Dealing where
  | fired (f : Onset)
  | recovered (r : Recovery)

namespace Dealing

def notes : Dealing → List Deal
  | .fired f => [.reported f.ev,.raised f.row]
  | .recovered r => [.reported r.ev,.closed [r.row]]

def raised : Dealing → Option Alert
  | .fired f => some f.row
  | .recovered _ => none

def closed : Dealing → Option Alert
  | .fired _ => none
  | .recovered r => some r.row

end Dealing

def Deal.event : Deal → Option Rules.Event
  | .reported ev => some ev
  | _ => none

def reports (log : List Deal) : List Rules.Event := log.reverse.filterMap Deal.event

structure RulesEngine where
  env : Rules.Env
  engine : Rules.Engine
  on : engine.on = true
  state : Rules.State
  sound : state.Sound

namespace RulesEngine

def lastState (e : RulesEngine) (id : Nat) (fp : String) : Rules.LastState :=
  e.state.store.lastState id fp

def given (e : RulesEngine) (evs : List Rules.Event) : RulesEngine where
  env := e.env
  engine := e.engine
  on := e.on
  state := Rules.after e.env e.engine e.state evs
  sound := e.sound.of_outside (Rules.after_fixed e.state evs).2

structure Follows (e : RulesEngine) (r : Rules.StoredRule) : Prop where
  stored : r ∈ e.state.store.rules.rows
  enabled : r.enabled = true
  channelled : Rules.parseChannels r.channels ≠ []
  supported : Rules.validEventType r.eventType = true
  recovers : r.notifyOnRecovery = true

def Backed (e : RulesEngine) (rows : List Alert) : Prop :=
  ∀ r, e.Follows r → ∀ fp, e.lastState r.id fp = .firing →
    ∃ a ∈ rows, a.live = true ∧ a.fired = (r.eventType,fp)

end RulesEngine

section Events

variable {e : RulesEngine} {evs : List Rules.Event} {r : Rules.StoredRule} {ev : Rules.Event}

theorem follows_given : (e.given evs).Follows r ↔ e.Follows r := by
  have hrules : (e.given evs).state.store.rules = e.state.store.rules :=
    (Rules.after_fixed e.state evs).1
  constructor
  · intro h
    exact ⟨hrules ▸ h.stored,h.enabled,h.channelled,h.supported,h.recovers⟩
  · intro h
    exact ⟨hrules ▸ h.stored,h.enabled,h.channelled,h.supported,h.recovers⟩

theorem given_append (evs : List Rules.Event) (ev : Rules.Event) :
    e.given (evs ++ [ev]) = (e.given evs).given [ev] := by
  simp only [RulesEngine.given,Rules.after_append]

theorem fired_identity (a : Alert) : a.fired.2 ≠ "" := by
  unfold Alert.fired
  split
  · simp [Alerting.fingerprint]
  · rename_i h
    exact h

theorem fired_type (a : Alert) : a.fired.1 = .agentOffline ∨ a.fired.1 = .serverAlert := by
  unfold Alert.fired firingType
  split
  · split
    · exact .inl rfl
    · exact .inr rfl
  · exact .inr rfl

theorem identity_of {a : Alert} (h : ev.fingerprint = a.fired.2) : ev.identity = a.fired.2 := by
  rw [Rules.Event.identity,if_pos (by simpa [h] using fired_identity a),h]

theorem given_fires (h : e.Follows r) {fp : String} (hfiring : (e.given [ev]).lastState r.id fp = .firing) :
    e.lastState r.id fp = .firing ∨
      ev.isRecovery = false ∧ ev.identity = fp ∧ (ev.type.firing = .blank → r.eventType = ev.type) := by
  rcases Rules.respond_fires e.on e.sound h.channelled h.stored hfiring with hold | ⟨hev,hfp,hoffered⟩
  · exact .inl hold
  · refine .inr ⟨hev,hfp,fun hblank => ?_⟩
    obtain ⟨-,-,ht,-⟩ := Rules.Store.mem_rulesFor.mp hoffered
    rcases ht with ht | ht
    · exact ht
    · have hsupported := h.supported
      rw [ht,hblank] at hsupported
      exact absurd hsupported (by decide)

theorem given_settles (h : e.Follows r) (hev : ev.type.firing = r.eventType) (hrec : ev.isRecovery = true) :
    (e.given [ev]).lastState r.id ev.identity = .resolved :=
  Rules.respond_settles e.on e.sound h.channelled
    (Rules.Store.mem_rulesFor.mpr ⟨h.stored,h.enabled,.inr hev.symm,.inr h.recovers⟩) hrec

variable {rows : List Alert}

theorem backed_fired (h : e.Backed rows) (f : Onset) : (e.given [f.ev]).Backed (rows ++ [f.row]) := by
  intro r hr fp hfiring
  have hfollows := follows_given.mp hr
  rcases given_fires hfollows hfiring with hold | ⟨-,hfp,htype⟩
  · obtain ⟨a,ha,hbacks⟩ := h r hfollows fp hold
    exact ⟨a,List.mem_append_left _ ha,hbacks⟩
  · have hblank : f.ev.type.firing = .blank := by
      rw [f.opens]
      rcases fired_type f.row with ht | ht <;> rw [ht] <;> rfl
    refine ⟨f.row,List.mem_append_right _ (List.mem_singleton_self _),f.live,?_⟩
    rw [htype hblank,f.opens,← hfp,identity_of f.fingerprint]

theorem backed_recovered (h : e.Backed rows) (r : Recovery) {rows' : List Alert}
    (hkept : ∀ a ∈ rows, a.live = true → a ≠ r.row → a ∈ rows') : (e.given [r.ev]).Backed rows' := by
  intro rule hrule fp hfiring
  have hfollows := follows_given.mp hrule
  have hrec : r.ev.isRecovery = true := by
    refine Rules.recovery_of_firing ?_
    rw [r.closes]
    rcases fired_type r.row with ht | ht <;> rw [ht] <;> decide
  rcases given_fires hfollows hfiring with hold | ⟨hfires,-⟩
  · obtain ⟨a,ha,hlive,hfired⟩ := h rule hfollows fp hold
    refine ⟨a,hkept a ha hlive fun he => ?_,hlive,hfired⟩
    subst he
    have htype : r.ev.type.firing = rule.eventType := by rw [r.closes,hfired]
    have hfp : r.ev.identity = fp := by rw [identity_of r.fingerprint,hfired]
    rw [← hfp,given_settles hfollows htype hrec] at hfiring
    exact nomatch hfiring
  · rw [hrec] at hfires
    exact nomatch hfires

end Events

structure Quiet (e : RulesEngine) (d : Store) (rows : List Alert) (log : List Deal)
    (dealings : List Dealing) : Prop where
  noted : log = (dealings.map Dealing.notes).flatten
  once : ((dealings.filterMap Dealing.closed).map Alert.id).Nodup
  gone : ∀ r ∈ dealings.filterMap Dealing.closed, ∃ a ∈ rows, a.id = r.id ∧ a.live = false
  closed : ∀ a ∈ rows, a.live = false →
    (∃ r ∈ dealings.filterMap Dealing.closed, r.id = a.id) ∨
      ∃ b ∈ d.alerts.rows, b.id = a.id ∧ b.live = false
  origin : ∀ a ∈ rows, a.live = true → a ∈ d.alerts.rows ∨ a ∈ dealings.filterMap Dealing.raised
  source : ∀ r ∈ dealings.filterMap Dealing.closed,
    r ∈ d.alerts.rows ∨ r ∈ dealings.filterMap Dealing.raised
  backed : (e.given (reports log)).Backed rows

section Steps

variable {e : RulesEngine} {d : Store} {rows rows' : List Alert} {log log' : List Deal}
  {dealings : List Dealing}

theorem reports_cons (n : Deal) (log : List Deal) :
    reports (n :: log) = reports log ++ n.event.toList := by
  rw [reports,List.reverse_cons,List.filterMap_append,← reports]
  cases h : n.event <;> simp [h]

theorem reports_reported (ev : Rules.Event) (n : Deal) (hn : n.event = none) (log : List Deal) :
    reports (.reported ev :: n :: log) = reports log ++ [ev] := by
  rw [reports_cons,reports_cons,hn,Option.toList_none,List.append_nil]
  rfl

theorem Quiet.fired (h : Quiet e d rows log dealings) (f : Onset) :
    Quiet e d (rows ++ [f.row]) (.reported f.ev :: .raised f.row :: log) (.fired f :: dealings) where
  noted := by rw [h.noted]; rfl
  once := h.once
  gone r hr := by
    obtain ⟨a,ha,hgone⟩ := h.gone r hr
    exact ⟨a,List.mem_append_left _ ha,hgone⟩
  closed a ha hdead := by
    rcases List.mem_append.mp ha with hold | hnew
    · exact h.closed a hold hdead
    · rw [List.mem_singleton.mp hnew,f.live] at hdead
      exact nomatch hdead
  origin a ha hlive := by
    rcases List.mem_append.mp ha with hold | hnew
    · exact (h.origin a hold hlive).imp_right (List.mem_cons_of_mem _)
    · exact .inr (List.mem_singleton.mp hnew ▸ List.mem_cons_self)
  source r hr := (h.source r hr).imp_right (List.mem_cons_of_mem _)
  backed := by
    rw [reports_reported _ _ rfl,given_append]
    exact backed_fired h.backed f

theorem Quiet.recovered (h : Quiet e d rows log dealings) (hunique : (rows.map Alert.id).Nodup)
    (r : Recovery) {p : Alert → Bool} {now : Int} (hp : rows.filter p = [r.row]) :
    Quiet e d (rows.map fun a => if p a then a.closedAt now else a)
      (.reported r.ev :: .closed [r.row] :: log) (.recovered r :: dealings) := by
  have hmatched : ∀ a, a ∈ rows ∧ p a = true ↔ a = r.row := fun a => by
    rw [← List.mem_filter,hp,List.mem_singleton]
  obtain ⟨hmem,hrow⟩ := (hmatched r.row).mpr rfl
  have hkept : ∀ a ∈ rows, a ≠ r.row → a ∈ rows.map fun a => if p a then a.closedAt now else a := by
    intro a ha hne
    refine List.mem_map.mpr ⟨a,ha,if_neg fun hpa => hne ((hmatched a).mp ⟨ha,hpa⟩)⟩
  refine ⟨by rw [h.noted]; rfl,?_,?_,?_,?_,?_,?_⟩
  · refine List.nodup_cons.mpr ⟨fun hold => ?_,h.once⟩
    obtain ⟨c,hc,hid⟩ := List.mem_map.mp hold
    obtain ⟨a,ha,hsame,hdead⟩ := h.gone c hc
    obtain rfl := List.inj_on_of_nodup_map hunique ha hmem (hsame.trans hid)
    rw [r.live] at hdead
    exact nomatch hdead
  · intro c hc
    rcases List.mem_cons.mp hc with rfl | hc
    · exact ⟨r.row.closedAt now,List.mem_map.mpr ⟨r.row,hmem,if_pos hrow⟩,rfl,rfl⟩
    · obtain ⟨a,ha,hid,hdead⟩ := h.gone c hc
      refine ⟨a,hkept a ha (fun he => ?_),hid,hdead⟩
      rw [he,r.live] at hdead
      exact nomatch hdead
  · intro a ha hdead
    obtain ⟨b,hb,rfl⟩ := List.mem_map.mp ha
    split
    · rename_i hpb
      obtain rfl := (hmatched b).mp ⟨hb,hpb⟩
      exact .inl ⟨r.row,List.mem_cons_self,rfl⟩
    · rename_i hpb
      rw [if_neg hpb] at hdead
      refine (h.closed b hb hdead).imp_left fun hold => ?_
      obtain ⟨c,hc,hid⟩ := hold
      exact ⟨c,List.mem_cons_of_mem _ hc,hid⟩
  · intro a ha hlive
    obtain ⟨b,hb,rfl⟩ := List.mem_map.mp ha
    split
    · rename_i hpb
      rw [if_pos hpb] at hlive
      exact nomatch hlive
    · rename_i hpb
      rw [if_neg hpb] at hlive
      exact h.origin b hb hlive
  · intro c hc
    rcases List.mem_cons.mp hc with rfl | hc
    · exact h.origin r.row hmem r.live
    · exact h.source c hc
  · rw [reports_reported _ _ rfl,given_append]
    exact backed_recovered h.backed r fun a ha _ hne => hkept a ha hne

end Steps

abbrev Book := List Alert → List Deal → Prop

section Reports

variable {env : Env} {e : RulesEngine} {d : Store} {α β : Type} {J K : Book}

def Kept (p : Handler α) (J : Book) (K : α → Book) : Prop :=
  Triple Query.serve Reportable (fun x => J x.rows x.log) p fun a x => K a x.rows x.log

def Paired (e : RulesEngine) (d : Store) : Book := fun rows log => ∃ dealings, Quiet e d rows log dealings

def Raising (e : RulesEngine) (d : Store) (fired : Rules.EventType × String) : Book := fun rows log =>
  ∃ old older row, Paired e d old older ∧ row.live = true ∧ row.fired = fired ∧
    rows = old ++ [row] ∧ log = .raised row :: older

def Recovering (e : RulesEngine) (d : Store) (fired : Rules.EventType × String) : Book := fun rows log =>
  ∃ old older row, ∃ (p : Alert → Bool) (now : Int), Paired e d old older ∧ (old.map Alert.id).Nodup ∧
    row.live = true ∧ row.fired = fired ∧ old.filter p = [row] ∧
    rows = (old.map fun a => if p a then a.closedAt now else a) ∧ log = .closed [row] :: older

theorem closed_kept (J : Book) : Closed fun {_} p => Kept p J fun _ => J :=
  closed_triple Query.serve Reportable fun x => J x.rows x.log

theorem serve_quiet {q : Query β} {x : Desk} (hraised : q.raised x.state = none) (hevent : q.event = none)
    (hclosing : ∀ a ∈ x.rows, q.closing x.state a = false) :
    (q.serve x).1.rows = x.rows ∧ (q.serve x).1.log = x.log := by
  constructor
  · obtain ⟨-,now,hrows⟩ := exec_settled hraised
    show (q.exec x.state).1.store.alerts.rows = x.rows
    rw [hrows]
    refine (List.map_congr_left (g := id) fun a ha => ?_).trans (List.map_id _)
    rw [hclosing a ha]
    rfl
  · have hnone : x.state.store.alerts.select (q.closing x.state) = [] :=
      List.filter_eq_nil_iff.mpr fun a ha => by simp [hclosing a ha]
    simp [Query.serve,Query.deal,hraised,hevent,hnone]

theorem kept_idle {q : Query β} (hraised : ∀ d, q.raised d = none) (hevent : q.event = none)
    (hclosing : ∀ x : Desk, J x.rows x.log → Reportable x q → ∀ a ∈ x.rows, q.closing x.state a = false) :
    Kept (perform q) J fun _ => J := by
  refine triple_perform fun x hJ hrep => ?_
  obtain ⟨hrows,hlog⟩ := serve_quiet (hraised x.state) hevent (hclosing x hJ hrep)
  rw [hrows,hlog]
  exact hJ

theorem kept_quiet {q : Query β} (hraised : ∀ d, q.raised d = none) (hevent : q.event = none)
    (hcloses : ∀ a, q.closes a = false) : Kept (perform q) J fun _ => J :=
  kept_idle hraised hevent fun _ _ _ a _ => by rw [Query.closing,hcloses,Bool.and_false]

theorem kept_plain {q : Query β} (h : q.plain) : Kept (perform q) J fun _ => J := by
  have hevent : q.event = none := by
    cases q with
    | evaluate ev => exact h.elim
    | _ => rfl
  exact kept_idle (fun _ => plain_raised h) hevent fun _ _ _ a _ => plain_closing h a

theorem kept_notify {serverID : Option Nat} {title body category : String} {alertID : Option Nat} :
    Kept (notify serverID title body category alertID) J fun _ => J := by
  have hR := closed_kept J
  refine hR.bind (kept_quiet (fun _ => ite_self _) rfl fun _ => rfl) fun users => ?_
  cases users with
  | error e => exact hR.ret ()
  | ok users =>
    exact hR.each fun u _ => hR.bind (kept_quiet (fun _ => ite_self _) rfl fun _ => rfl) fun _ => hR.ret ()

theorem serve_evaluate (ev : Rules.Event) (x : Desk) :
    ((Query.evaluate ev).serve x).1.rows = x.rows ∧
      ((Query.evaluate ev).serve x).1.log = .reported ev :: x.log := by
  have hraised : (Query.evaluate ev).raised x.state = none := ite_self _
  constructor
  · show ((Query.evaluate ev).exec x.state).1.store.alerts.rows = x.rows
    unfold Query.exec
    cases x.state.now.fault <;> rfl
  · simp [Query.serve,Query.deal,hraised,Query.event]

variable {fired : Rules.EventType × String} {ev : Rules.Event}

theorem kept_fired (henv : env.rules = true) (htype : ev.type = fired.1)
    (hfp : ev.fingerprint = fired.2) :
    Kept (report env ev) (Raising e d fired) fun _ => Paired e d := by
  rw [report,if_pos henv]
  refine triple_perform fun x hJ _ => ?_
  obtain ⟨hrows,hlog⟩ := serve_evaluate ev x
  obtain ⟨old,older,row,⟨dealings,hquiet⟩,hlive,rfl,hold,holder⟩ := hJ
  rw [hrows,hlog,hold,holder]
  exact ⟨_,hquiet.fired ⟨row,ev,hlive,htype,hfp⟩⟩

theorem kept_recovered (henv : env.rules = true) (htype : ev.type.firing = fired.1)
    (hfp : ev.fingerprint = fired.2) :
    Kept (report env ev) (Recovering e d fired) fun _ => Paired e d := by
  rw [report,if_pos henv]
  refine triple_perform fun x hJ _ => ?_
  obtain ⟨hrows,hlog⟩ := serve_evaluate ev x
  obtain ⟨old,older,row,p,now,⟨dealings,hquiet⟩,hunique,hlive,rfl,hp,hold,holder⟩ := hJ
  rw [hrows,hlog,hold,holder]
  exact ⟨_,hquiet.recovered hunique ⟨row,ev,hlive,htype,hfp⟩ hp⟩

theorem kept_insert {γ : Type} {q : Query (Except String γ)} (fired : Rules.EventType × String)
    (hevent : q.event = none) (hcloses : ∀ a, q.closes a = false)
    (hrefuse : ∀ o err, q.refuse o err = .error err)
    (hrow : ∀ o (s : Store), ∃ row b, q.row o s.alerts.next = some row ∧ (q.effect o s).2 = .ok b ∧
      row.live = true ∧ row.fired = fired) :
    Kept (perform q) (Paired e d) fun answer => match answer with
      | .error _ => Paired e d
      | .ok _ => Raising e d fired := by
  refine triple_perform fun x hJ _ => ?_
  cases hf : x.state.now.fault with
  | some err =>
    have hraised : q.raised x.state = none := by rw [Query.raised,hf]; rfl
    obtain ⟨hrows,hlog⟩ := serve_quiet hraised hevent fun a _ => by
      rw [Query.closing,hcloses,Bool.and_false]
    rw [hrows,hlog,show (q.serve x).2 = .error err from by rw [Query.serve,exec_some hf,hrefuse]]
    exact hJ
  | none =>
    obtain ⟨row,b,hr,hb,hlive,hfired⟩ := hrow x.state.now x.state.store
    have hraised : q.raised x.state = some row := by rw [Query.raised,hf]; exact hr
    rw [show (q.serve x).2 = .ok b from by rw [Query.serve,exec_none hf,hb]]
    refine ⟨x.rows,x.log,row,hJ,hlive,hfired,(exec_raised hraised).1,?_⟩
    simp [Query.serve,Query.deal,hraised]

theorem kept_close {q : Query (Except String Nat)} (fired : Rules.EventType × String)
    (hraised : ∀ d, q.raised d = none) (hevent : q.event = none)
    (hrefuse : ∀ o err, q.refuse o err = .error err)
    (hcount : ∀ o s, (q.effect o s).2 = .ok (s.alerts.count q.closes))
    (hreport : ∀ s, q.reportable s = closable (s.alerts.select q.closes) fired)
    (hlive : ∀ a, q.closes a = true → a.live = true) :
    Kept (perform q) (Paired e d) fun answer =>
      if 0 < counted answer then Recovering e d fired else Paired e d := by
  refine triple_perform fun x hJ hrep => ?_
  cases hf : x.state.now.fault with
  | some err =>
    obtain ⟨hrows,hlog⟩ := serve_quiet (hraised x.state) hevent fun a _ => by
      rw [Query.closing,hf]
      rfl
    rw [hrows,hlog,show (q.serve x).2 = .error err from by rw [Query.serve,exec_some hf,hrefuse]]
    exact hJ
  | none =>
    have hclosing : q.closing x.state = q.closes := by
      funext a
      rw [Query.closing,hf]
      rfl
    have hanswer : counted (q.serve x).2 = (x.state.store.alerts.select q.closes).length := by
      rw [Query.serve,exec_none hf,hcount]
      exact List.countP_eq_length_filter
    rw [Reportable,hf,hreport] at hrep
    cases hsel : x.state.store.alerts.select q.closes with
    | nil =>
      obtain ⟨hrows,hlog⟩ := serve_quiet (hraised x.state) hevent fun a ha => by
        rw [hclosing]
        exact Bool.eq_false_of_not_eq_true (List.filter_eq_nil_iff.mp hsel a ha)
      rw [hrows,hlog,hanswer,hsel]
      exact hJ
    | cons row others =>
      rw [hsel] at hrep hanswer
      cases others with
      | cons a others => cases hrep
      | nil =>
        obtain ⟨-,now,hrows⟩ := exec_settled (hraised x.state)
        have hmem : row ∈ x.state.store.alerts.select q.closes := by
          rw [hsel]
          exact List.mem_singleton_self row
        rw [hanswer]
        refine ⟨x.rows,x.log,row,q.closes,now,hJ,x.state.store.alerts.nodup,
          hlive row (List.mem_filter.mp hmem).2,beq_iff_eq.mp hrep,hsel,hclosing ▸ hrows,?_⟩
        simp [Query.serve,Query.deal,hraised,hevent,hclosing,hsel]

theorem kept_fireAlert (henv : env.rules = true) (serverID : Nat) (condition : String)
    (value threshold : Int) (severity message : String) :
    Kept (fireAlert env serverID condition value threshold severity message) (Paired e d)
      fun _ => Paired e d := by
  have hR := closed_kept (Paired e d)
  refine hR.bind (kept_quiet (fun _ => ite_self _) rfl fun _ => rfl) fun n => ?_
  split
  · exact hR.ret ()
  refine triple_bind (kept_insert (firingType condition,fingerprint serverID condition) rfl
    (fun _ => rfl) (fun _ _ => rfl) fun o s => ⟨_,_,rfl,rfl,rfl,rfl⟩) fun stored => ?_
  cases stored with
  | error err => exact hR.ret ()
  | ok _ => exact triple_bind kept_notify fun _ => kept_fired henv rfl rfl

theorem kept_fireWebhook (henv : env.rules = true) (a : WebhookAlert) (serverID : Option Nat)
    (hfp : a.fingerprint ≠ "") :
    Kept (fireWebhook env a serverID) (Paired e d) fun _ => Paired e d := by
  have hR := closed_kept (Paired e d)
  refine hR.bind (kept_quiet (fun _ => ite_self _) rfl fun _ => rfl) fun n => ?_
  split
  · exact hR.ret ()
  refine triple_bind (kept_insert (.serverAlert,a.fingerprint) rfl (fun _ => rfl)
    (fun _ _ => rfl) fun o s => ⟨_,_,rfl,rfl,rfl,if_neg hfp⟩) fun stored => ?_
  cases stored with
  | error err => exact hR.ret ()
  | ok id => exact triple_bind kept_notify fun _ => kept_fired henv rfl rfl

theorem kept_reporting (henv : env.rules = true) (htype : ev.type.firing = fired.1)
    (hfp : ev.fingerprint = fired.2) (n : Except String Nat) :
    Kept (if 0 < counted n then report env ev else .ret ())
      (if 0 < counted n then Recovering e d fired else Paired e d) fun _ => Paired e d := by
  split
  · exact kept_recovered henv htype hfp
  · exact (closed_kept (Paired e d)).ret ()

theorem kept_resolveReporting (henv : env.rules = true) (serverID : Nat) (condition : String)
    (htype : ev.type.firing = firingType condition)
    (hfp : ev.fingerprint = fingerprint serverID condition) :
    Kept (resolveReporting env serverID condition ev) (Paired e d) fun _ => Paired e d := by
  show Kept (perform (.resolveLive serverID condition) >>= fun n =>
    if decide (0 < counted n) = true then report env ev else .ret ()) (Paired e d) fun _ => Paired e d
  refine triple_bind (kept_close (firingType condition,fingerprint serverID condition)
    (fun _ => ite_self _) rfl (fun _ _ => rfl) (fun _ _ => rfl) (fun _ => rfl)
    fun a ha => ((Bool.and_eq_true _ _).mp ha).2) fun n => ?_
  simp only [decide_eq_true_eq]
  exact kept_reporting henv htype hfp n

theorem kept_resolveWebhook (henv : env.rules = true) (a : WebhookAlert) (serverID : Option Nat) :
    Kept (resolveWebhook env a serverID) (Paired e d) fun _ => Paired e d :=
  triple_bind (kept_close (.serverAlert,a.fingerprint)
    (fun _ => ite_self _) rfl (fun _ _ => rfl) (fun _ _ => rfl) (fun _ => rfl)
    fun _ ha => ((Bool.and_eq_true _ _).mp ha).2) fun n => kept_reporting henv rfl rfl n

def Cleared (e : RulesEngine) (d : Store) (ids : List Nat) : Book := fun rows log => Paired e d rows log ∧
  ∀ id ∈ ids, ∀ condition ∈ metricConditions, ∀ a ∈ rows, a.liveOn id condition = false

theorem kept_staleServers (since : Int) :
    Kept (perform (.staleServers since)) (Paired e d) fun answer => match answer with
      | .error _ => Paired e d
      | .ok ids => Cleared e d ids := by
  refine triple_perform fun x hJ hrep => ?_
  obtain ⟨hrows,hlog⟩ := serve_quiet (q := .staleServers since) (ite_self _) rfl fun a _ =>
    plain_closing (q := .staleServers since) trivial a
  rw [hrows,hlog]
  cases hf : x.state.now.fault with
  | some err =>
    rw [show ((Query.staleServers since).serve x).2 = .error err from by rw [Query.serve,exec_some hf]; rfl]
    exact hJ
  | none =>
    rw [show ((Query.staleServers since).serve x).2 = .ok (x.state.store.staleServers since) from by
      rw [Query.serve,exec_none hf]; rfl]
    rw [Reportable,hf] at hrep
    refine ⟨hJ,fun id hid condition hc a ha => ?_⟩
    have hnone := List.all_eq_true.mp (List.all_eq_true.mp hrep id hid) condition hc
    exact Bool.eq_false_of_not_eq_true (List.filter_eq_nil_iff.mp (beq_iff_eq.mp hnone) a ha)

theorem kept_closeStale {ids : List Nat} {id : Nat} (hid : id ∈ ids) :
    Kept (closeStale id) (Cleared e d ids) fun _ => Cleared e d ids := by
  have hR := closed_kept (Cleared e d ids)
  have hclear : ∀ condition ∈ metricConditions,
      Kept (resolveAlert id condition) (Cleared e d ids) fun _ => Cleared e d ids := fun condition hc => by
    refine hR.bind (kept_idle (fun _ => ite_self _) rfl fun x hJ _ a ha => ?_) fun _ => hR.ret _
    rw [Query.closing,show Query.closes (.resolveLive id condition) a = false from hJ.2 id hid condition hc a ha,
      Bool.and_false]
  exact hR.bind (hclear _ (by decide)) fun _ => hR.bind (hclear _ (by decide)) fun _ =>
    hR.bind (hclear _ (by decide)) fun _ => hR.ret ()

theorem kept_checkMetricThresholds (henv : env.rules = true) (th : Thresholds) :
    Kept (checkMetricThresholds env th) (Paired e d) fun _ => Paired e d := by
  have hR := closed_kept (Paired e d)
  refine hR.bind (kept_plain trivial) fun now => hR.bind (kept_plain trivial) fun rows => ?_
  cases rows with
  | error err => exact hR.ret ()
  | ok rows =>
    refine hR.bind (hR.each fun m _ => ?_) fun _ => triple_bind (kept_staleServers _) fun ids => ?_
    · refine closed_checkMetric hR (fun _ _ _ _ _ _ _ => kept_fireAlert henv _ _ _ _ _ _) ?_ th m
      intro serverID condition ev hmetric htype hfp
      refine kept_resolveReporting henv serverID condition ?_ hfp
      rw [htype,firingType,if_neg hmetric]
      rfl
    · cases ids with
      | error err => exact hR.ret ()
      | ok ids =>
        exact triple_mono (fun _ h => h) (fun _ _ h => h.1)
          ((closed_kept (Cleared e d ids)).each fun id hid => kept_closeStale hid)

theorem kept_handle (henv : env.rules = true) (r : Request) :
    Kept (handle env r) (Paired e d) fun _ => Paired e d := by
  have hR := closed_kept (Paired e d)
  have hplain : ∀ {β : Type} (q : Query β), q.plain →
      Kept (perform q) (Paired e d) fun _ => Paired e d := fun q h => kept_plain h
  cases r with
  | sweep th =>
    refine hR.bind ?_ fun _ => hR.bind (kept_checkMetricThresholds henv th) fun _ => hR.ret _
    refine closed_checkOffline hR (hplain _ trivial) (fun _ => hplain _ trivial) (hplain _ trivial)
      (fun row => ?_) (fun id => kept_resolveReporting henv id "offline" rfl rfl) th
    exact hR.bind (hplain _ trivial) fun _ => kept_fireAlert henv _ _ _ _ _ _
  | webhook authorised payload =>
    exact closed_webhook hR (fun _ => hplain _ trivial) (fun _ => hplain _ trivial)
      (fun a serverID _ => kept_resolveWebhook henv a serverID)
      (fun a serverID hfp => kept_fireWebhook henv a serverID hfp) authorised payload
  | heartbeat agent => exact closed_heartbeat hR (hplain _ trivial) (fun _ _ => hplain _ trivial) agent
  | ingestMetrics agent body =>
    exact closed_ingestMetrics hR (hplain _ trivial) (fun _ _ => hplain _ trivial)
      (fun _ => hplain _ trivial) (fun _ _ _ => hplain _ trivial) agent body
  | resolve id =>
    refine closed_resolve hR (hplain _ trivial) (fun now id => ?_) (fun _ => hplain _ trivial) id
    refine kept_idle (fun _ => ite_self _) rfl fun x _ hrep a ha => ?_
    rw [Reportable,Bool.or_eq_true] at hrep
    rcases hrep with hf | hnone
    · rw [Query.closing,show x.state.now.fault.isNone = false from by simpa using hf,Bool.false_and]
    · have hdead := Bool.eq_false_of_not_eq_true (List.filter_eq_nil_iff.mp (beq_iff_eq.mp hnone) a ha)
      rw [Query.closing,show Query.closes (.resolveID now id) a = false from hdead,Bool.and_false]

end Reports

def sequel (env : Env) (d : Database) (rs : List Request) : Desk :=
  ((sequence env rs).eval Query.serve ⟨d,[]⟩).1

theorem alerts_balance (env : Env) (henv : env.rules = true) (e : RulesEngine) (d : Database)
    (rs : List Request) (hbacked : e.Backed d.store.alerts.rows)
    (hreport : (sequence env rs).Meets Query.serve Reportable ⟨d,[]⟩) :
    ∃ dealings : List Dealing,
      (sequel env d rs).log = (dealings.map Dealing.notes).flatten ∧
      ((dealings.filterMap Dealing.closed).map Alert.id).Nodup ∧
      (∀ r ∈ dealings.filterMap Dealing.closed,
        (r ∈ d.store.alerts.rows ∨ r ∈ dealings.filterMap Dealing.raised) ∧
        ∃ a ∈ (sequel env d rs).rows, a.id = r.id ∧ a.live = false) ∧
      (∀ a ∈ (sequel env d rs).rows, a.live = false →
        (∃ r ∈ dealings.filterMap Dealing.closed, r.id = a.id) ∨
          ∃ b ∈ d.store.alerts.rows, b.id = a.id ∧ b.live = false) ∧
      (e.given (reports (sequel env d rs).log)).Backed (sequel env d rs).rows := by
  have hinit : Paired e d.store d.store.alerts.rows [] :=
    ⟨[],rfl,.nil,by simp,fun a ha hdead => .inr ⟨a,ha,rfl,hdead⟩,fun _ ha _ => .inl ha,by simp,hbacked⟩
  have hR := closed_kept (Paired e d.store)
  have hserved : Kept (sequence env rs) (Paired e d.store) fun _ => Paired e d.store :=
    hR.each fun r _ => hR.bind (kept_handle henv r) fun _ => hR.ret ()
  obtain ⟨dealings,hquiet⟩ := hserved ⟨d,[]⟩ hinit hreport
  exact ⟨dealings,hquiet.noted,hquiet.once,fun r hr => ⟨hquiet.source r hr,hquiet.gone r hr⟩,
    hquiet.closed,hquiet.backed⟩

section Instances

instance reportableDecidable (x : Desk) (β : Type) (q : Query β) : Decidable (Reportable x q) :=
  inferInstanceAs (Decidable (_ = true))

def cpuRule : RulesEngine where
  env := .plain
  engine := .direct
  on := rfl
  state := .watched .serverAlert
  sound _ := rfl

theorem cpuRule_follows : cpuRule.Follows ((Rules.RuleParams.watching .serverAlert).stored 1 true true 0) :=
  ⟨List.mem_singleton_self _,rfl,by decide,by decide,rfl⟩

def hotServer : Database where
  store := { Store.empty with
    servers := Serial.empty.insert (fun id => ⟨id,"db","db","10.0.0.5",.online,.connected,some 0⟩)
      fun _ => rfl
    metrics := [⟨0,0,99,10,10⟩] }
  tick := 0
  outside n := ⟨none,if n < 13 then 0 else 600 * Go.second,0,0⟩

def ninety : Thresholds := ⟨90,90,90,180 * Go.second⟩

def cooled : List Request :=
  [.sweep ninety,.ingestMetrics (some 0) (.ok ⟨10,10,10,"",""⟩),.sweep ninety]

def silenced : List Request := [.sweep ninety,.heartbeat (some 0),.sweep ninety]

theorem recovery_reported :
    (sequence plain cooled).Meets Query.serve Reportable ⟨hotServer,[]⟩ ∧
      (reports (sequel plain hotServer cooled).log).map Rules.Event.type =
        [.serverAlert,.serverAlertResolved] ∧
      (sequel plain hotServer cooled).rows.map Alert.live = [false] ∧
      (cpuRule.given (reports (sequel plain hotServer cooled).log)).lastState 0 "server:0:cpu_high" ≠
        .firing := by
  have hreport : (sequence plain cooled).Meets Query.serve Reportable ⟨hotServer,[]⟩ := by decide
  have hdead : (sequel plain hotServer cooled).rows.map Alert.live = [false] := by decide
  obtain ⟨-,-,-,-,-,hbacked⟩ := alerts_balance plain rfl cpuRule hotServer cooled
    (fun r hr fp h => nomatch h) hreport
  refine ⟨hreport,by decide,hdead,fun hfiring => ?_⟩
  obtain ⟨a,ha,hlive,-⟩ := hbacked _ (follows_given.mpr cpuRule_follows) _ hfiring
  have hmem : true ∈ (sequel plain hotServer cooled).rows.map Alert.live := hlive ▸ List.mem_map_of_mem ha
  rw [hdead] at hmem
  exact absurd hmem (by decide)

theorem stale_close_silent :
    ¬ ∀ (env : Env) (d : Database) (rs : List Request), env.rules = true →
      (∀ n, (d.outside n).fault = none) → ∀ a ∈ (sequel env d rs).rows, a.live = false →
        (∃ ev, .reported ev ∈ (sequel env d rs).log ∧ ev.isRecovery = true ∧
          ev.fingerprint = a.fired.2) ∨ ∃ b ∈ d.store.alerts.rows, b.id = a.id ∧ b.live = false := by
  intro h
  have hlog : (sequel plain hotServer silenced).log.all (fun n => match n with
      | .reported ev => !ev.isRecovery
      | _ => true) = true := by decide
  have hdead : (sequel plain hotServer silenced).rows.map Alert.live = [false] := by decide
  obtain ⟨a,ha,hlive⟩ := List.mem_map.mp (hdead ▸ List.mem_singleton_self false)
  rcases h plain hotServer silenced rfl (fun _ => rfl) a ha hlive with ⟨ev,hev,hrec,-⟩ | ⟨b,hb,-⟩
  · have hnot := List.all_eq_true.mp hlog _ hev
    simp [hrec] at hnot
  · exact nomatch hb

end Instances

end Alerting
