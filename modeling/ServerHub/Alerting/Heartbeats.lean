import ServerHub.Alerting.Alerts

namespace Alerting

open Relational Interleave Interleave.Prog

structure View where
  status : Nat → Option ServerStatus
  heartbeat : Nat → Option Int
  alert : Nat → Bool

def Store.view (s : Store) : View where
  status id := (s.servers.find id).map Server.status
  heartbeat id := (s.servers.find id).bind Server.lastHeartbeat
  alert id := s.alerts.rows.any (Alert.liveOn id "offline")

inductive Beat where
  | listed (cutoff : Int) (ids : List Nat)
  | marked (id : Nat) (heartbeat : Option Int)
  | passed (id : Nat)
  | found (id : Nat)
  | fired (id : Nat)
  | online (ids : List Nat)
  | resolved (id : Nat)
  | beat (id : Nat) (now : Int)
  | failed
deriving DecidableEq

def View.after (v : View) : Option Beat → View
  | some (.marked id _) =>
      { v with status := Function.update v.status id ((v.status id).map fun _ => .offline) }
  | some (.beat id now) =>
      { v with
        status := Function.update v.status id ((v.status id).map fun _ => .online)
        heartbeat := Function.update v.heartbeat id ((v.status id).map fun _ => now) }
  | some (.fired id) => { v with alert := Function.update v.alert id true }
  | some (.resolved id) => { v with alert := Function.update v.alert id false }
  | _ => v

def offlineBeat (condition : String) (n : Beat) : Option Beat :=
  if condition = "offline" then some n else none

namespace Query

def beat (β : Type) (q : Query β) (d : Database) (b : β) : Option Beat :=
  match q, b with
  | .offlineCandidates cutoff, .ok rows => some (.listed cutoff (rows.map Prod.fst))
  | .offlineCandidates _, .error _ => some .failed
  | .markOffline id, .ok _ => some (.marked id (d.store.view.heartbeat id))
  | .markOffline id, .error _ => some (.passed id)
  | .countLive id condition, .ok n => if n = 0 then none else offlineBeat condition (.found id)
  | .insertAlert id condition _ _ _, .ok _ => offlineBeat condition (.fired id)
  | .insertAlert _ condition _ _ _, .error _ => offlineBeat condition .failed
  | .onlineServers, .ok ids => some (.online ids)
  | .onlineServers, .error _ => some .failed
  | .resolveLive id condition, .ok _ => offlineBeat condition (.resolved id)
  | .resolveLive _ condition, .error _ => offlineBeat condition .failed
  | .heartbeat now id, .ok _ | .refreshInfo _ now id, .ok _ => some (.beat id now)
  | _, _ => none

def swept : {β : Type} → Query β → Prop
  | _, .insertWebhookAlert _ _ _ _ _ | _, .resolveFingerprint _ | _, .resolveID _ _ => False
  | _, _ => True

end Query

abbrev pulses (env : Env) : System := (alerting env).observe Query.beat

abbrev Pulse := Traced Database Beat

section Views

variable {β : Type} {q : Query β} {b : β} {d : Database} {s : Store}

theorem find_servers {t : Serial Server} {p : Server → Bool} {f : Server → Server}
    {hf : ∀ r, (f r).id = r.id} {id : Nat} (hp : ∀ r, p r = (r.id == id)) (k : Nat) :
    (t.modify p f hf).find k = if k = id then (t.find k).map f else t.find k := by
  rw [Serial.find_modify]
  cases h : t.find k with
  | none => simp
  | some r =>
    obtain ⟨-,hk⟩ := Table.find_some h
    have hid : r.id = k := hk
    by_cases he : k = id
    · simp [hp,hid,he]
    · simp [hp,hid,he]

theorem view_servers {t : Store} {id : Nat} {f : Server → Server}
    (h : ∀ k, t.servers.find k = if k = id then (s.servers.find k).map f else s.servers.find k) :
    t.view.status = Function.update s.view.status id ((s.servers.find id).map fun r => (f r).status) ∧
      t.view.heartbeat =
        Function.update s.view.heartbeat id ((s.servers.find id).bind fun r => (f r).lastHeartbeat) := by
  constructor
  · funext k
    by_cases hk : k = id
    · subst hk
      simp [Store.view,h,Function.comp_def]
    · simp [Store.view,h,hk]
  · funext k
    by_cases hk : k = id
    · subst hk
      cases hr : s.servers.find k <;> simp [Store.view,h,hr]
    · simp [Store.view,h,hk]

theorem view_ext {v w : View} (hs : v.status = w.status) (hh : v.heartbeat = w.heartbeat)
    (ha : v.alert = w.alert) : v = w := by
  cases v
  cases w
  simp only at hs hh ha
  subst hs hh ha
  rfl

theorem view_markOffline (s : Store) (id : Nat) :
    (s.markOffline id).view = s.view.after (some (.marked id (s.view.heartbeat id))) := by
  obtain ⟨hs,hh⟩ := view_servers (s := s) (t := s.markOffline id)
    (find_servers (t := s.servers) fun _ => rfl)
  refine view_ext ?_ ?_ rfl
  · refine hs.trans ?_
    simp [View.after,Store.view,Function.comp_def]
  · refine hh.trans ?_
    exact Function.update_eq_self id s.view.heartbeat

theorem view_beaten {t : Store} {id : Nat} {now : Int} {f : Server → Server}
    (hf : ∀ r, (f r).status = .online ∧ (f r).lastHeartbeat = some now)
    (h : ∀ k, t.servers.find k = if k = id then (s.servers.find k).map f else s.servers.find k)
    (ha : t.alerts = s.alerts) : t.view = s.view.after (some (.beat id now)) := by
  obtain ⟨hs,hh⟩ := view_servers h
  refine view_ext ?_ ?_ ?_
  · rw [hs]
    simp [View.after,Store.view,hf,Function.comp_def]
  · rw [hh]
    simp only [View.after,Store.view,hf,Option.map_map,Function.comp_def]
    cases s.servers.find id <;> rfl
  · funext k
    simp [View.after,Store.view,ha]

theorem view_insertAlert (serverID : Nat) (condition : String) (threshold : Int)
    (severity message : String) (now : Int) (h : ∀ n, (internalAlert serverID condition threshold
      severity message now n).id = n) :
    (s.insertAlert (internalAlert serverID condition threshold severity message now) h).view =
      s.view.after (offlineBeat condition (.fired serverID)) := by
  have hrow : ∀ id k, (internalAlert serverID condition threshold severity message now id).liveOn
      k "offline" = (decide (k = serverID) && decide (condition = "offline")) := by
    intro id k
    simp [internalAlert,Alert.liveOn,Alert.live,eq_comm,Bool.beq_eq_decide_eq]
  have halert : ∀ k, (s.insertAlert (internalAlert serverID condition threshold severity message now)
      h).view.alert k = (s.view.alert k || (decide (k = serverID) && decide (condition = "offline"))) := by
    intro k
    show (s.alerts.rows ++ [_]).any _ = _
    rw [List.any_append,List.any_cons,List.any_nil,Bool.or_false,hrow]
    rfl
  unfold offlineBeat
  split
  · rename_i hc
    refine view_ext rfl rfl (funext fun k => ?_)
    rw [halert]
    by_cases hk : k = serverID
    · simp [View.after,hk,hc]
    · simp [View.after,hk]
  · rename_i hc
    refine view_ext rfl rfl (funext fun k => ?_)
    rw [halert]
    simp [View.after,hc]

theorem liveOn_closedAt (a : Alert) (now : Int) (serverID : Nat) (condition : String) :
    (a.closedAt now).liveOn serverID condition = false := by
  simp [Alert.liveOn,Alert.live,Alert.closedAt]

theorem live_closed (a : Alert) (serverID k : Nat) (condition : String) (now : Int) :
    (if a.liveOn serverID condition then a.closedAt now else a).liveOn k "offline" =
      (a.liveOn k "offline" && !(decide (k = serverID) && decide (condition = "offline"))) := by
  by_cases hc : k = serverID ∧ condition = "offline"
  · obtain ⟨rfl,rfl⟩ := hc
    by_cases hl : a.liveOn k "offline" = true
    · rw [if_pos hl,liveOn_closedAt]
      simp
    · simp [hl]
  · by_cases hl : a.liveOn serverID condition = true
    · have hother : a.liveOn k "offline" = false := by
        simp only [Alert.liveOn,Bool.and_eq_true,beq_iff_eq] at hl
        obtain ⟨⟨hsid,hcond⟩,-⟩ := hl
        by_contra hk
        simp only [Bool.not_eq_false,Alert.liveOn,Bool.and_eq_true,beq_iff_eq,hsid,hcond] at hk
        exact hc ⟨(Option.some.inj hk.1.1).symm,hk.1.2⟩
      rw [if_pos hl,liveOn_closedAt,hother,Bool.false_and]
    · rw [if_neg hl]
      have hkept : (decide (k = serverID) && decide (condition = "offline")) = false := by
        simpa using hc
      rw [hkept,Bool.not_false,Bool.and_true]

theorem view_resolveLive (s : Store) (serverID : Nat) (condition : String) (now : Int) :
    (s.closeAlerts (Alert.liveOn serverID condition) now).view =
      s.view.after (offlineBeat condition (.resolved serverID)) := by
  have halert : ∀ k, (s.closeAlerts (Alert.liveOn serverID condition) now).view.alert k =
      (s.view.alert k && !(decide (k = serverID) && decide (condition = "offline"))) := by
    intro k
    show (s.alerts.rows.map _).any _ = (s.alerts.rows.any _ && _)
    rw [List.any_map]
    simp only [Function.comp_def,live_closed]
    cases !(decide (k = serverID) && decide (condition = "offline")) <;> simp
  unfold offlineBeat
  split
  · rename_i hc
    refine view_ext rfl rfl (funext fun k => ?_)
    rw [halert]
    by_cases hk : k = serverID
    · simp [View.after,hk,hc]
    · simp [View.after,hk]
  · rename_i hc
    refine view_ext rfl rfl (funext fun k => ?_)
    rw [halert]
    simp [View.after,hc]

theorem after_offlineBeat (v : View) (condition : String) {n : Beat} (h : v.after (some n) = v) :
    v.after (offlineBeat condition n) = v := by
  unfold offlineBeat
  split
  · exact h
  · rfl

theorem view_exec (hq : q.swept) (hb : b = (q.exec d).2) :
    (q.exec d).1.store.view = d.store.view.after (q.beat β d b) := by
  cases hf : d.now.fault with
  | some e =>
    rw [exec_some hf] at hb ⊢
    subst hb
    cases q with
    | insertAlert id condition threshold severity message => exact (after_offlineBeat _ _ rfl).symm
    | resolveLive id condition => exact (after_offlineBeat _ _ rfl).symm
    | _ => rfl
  | none =>
    rw [exec_none hf] at hb ⊢
    subst hb
    cases q with
    | insertWebhookAlert serverID condition severity message fingerprint => exact hq.elim
    | resolveFingerprint fingerprint => exact hq.elim
    | resolveID now id => exact hq.elim
    | markOffline id => exact view_markOffline d.store id
    | insertAlert id condition threshold severity message =>
      exact view_insertAlert id condition threshold severity message d.now.current fun _ => rfl
    | resolveLive id condition => exact view_resolveLive d.store id condition d.now.current
    | countLive id condition =>
      show d.store.view = d.store.view.after (if _ then none else _)
      split
      · rfl
      · exact (after_offlineBeat _ _ rfl).symm
    | heartbeat now id =>
      exact view_beaten (f := Server.beaten now) (fun _ => ⟨rfl,rfl⟩)
        (find_servers (t := d.store.servers) fun _ => rfl) rfl
    | refreshInfo hostname now id =>
      exact view_beaten (t := d.store.refreshInfo hostname now id) (fun _ => ⟨rfl,rfl⟩)
        (find_servers (t := d.store.servers) fun _ => rfl) rfl
    | _ => rfl

end Views

def renewal (id : Nat) : Beat → Beat → Bool
  | .beat k now, .listed cutoff ids => k == id && ids.contains id && decide (cutoff ≤ now)
  | _, _ => false

-- since the sweep pid listed the server, a heartbeat came that is not older than its cutoff
def renewed (pid id : Nat) : List (Nat × Beat) → Bool
  | [] => false
  | e :: log => renewed pid id log || log.any fun l => l.1 == pid && renewal id e.2 l.2

def candidates : List Beat → List (Int × Nat)
  | [] => []
  | .listed cutoff ids :: ns => ids.map (fun id => (cutoff,id)) ++ candidates ns
  | .marked id _ :: ns | .passed id :: ns => (candidates ns).filter fun c => c.2 != id
  | _ :: ns => candidates ns

def unfired : List Beat → List Nat
  | [] => []
  | .marked id _ :: ns => id :: unfired ns
  | .found id :: ns | .fired id :: ns => (unfired ns).filter fun k => k != id
  | _ :: ns => unfired ns

namespace Query

def dutiful (ns : List Beat) : {β : Type} → Query β → Prop
  | _, .markOffline id => ∃ cutoff, (cutoff,id) ∈ candidates ns
  | _, .insertAlert id condition _ _ _ =>
      condition = "offline" → ∃ cutoff ids, .listed cutoff ids ∈ ns ∧ id ∈ ids
  | _, q => q.swept

def undisturbed (x : Pulse) : {β : Type} → Query β → Bool
  | _, .heartbeat now id | _, .refreshInfo _ now id => x.state.now.fault.isSome ||
      x.log.all fun e => (candidates (notesOf e.1 x.log)).all fun c => c.2 != id || decide (now < c.1)
  | _, _ => true

def unrenewed (pid : Nat) (x : Pulse) : {β : Type} → Query β → Bool
  | _, .insertAlert id condition _ _ _ =>
      x.state.now.fault.isSome || condition != "offline" || !renewed pid id x.log
  | _, _ => true

def overdue (pid : Nat) (x : Pulse) : {β : Type} → Query β → Prop
  | _, .insertAlert id condition _ _ _ => x.state.now.fault = none → condition = "offline" →
      ∃ cutoff ids, (pid,.listed cutoff ids) ∈ x.log ∧ id ∈ ids ∧
        Server.staleBefore cutoff (x.state.store.view.heartbeat id) = true
  | _, _ => True

def unclosed (x : Pulse) : {β : Type} → Query β → Bool
  | _, .resolveLive id condition => x.state.now.fault.isSome || condition != "offline" ||
      x.state.store.view.status id != some .offline || !x.state.store.view.alert id
  | _, _ => true

def working (x : Pulse) : {β : Type} → Query β → Bool
  | _, .offlineCandidates _ | _, .onlineServers => x.state.now.fault.isNone
  | _, .insertAlert _ condition _ _ _ | _, .resolveLive _ condition =>
      condition != "offline" || x.state.now.fault.isNone
  | _, _ => true

end Query

def Dutiful (pid : Nat) (x : Pulse) {β : Type} (q : Query β) : Prop := q.dutiful (notesOf pid x.log)

def Undisturbed (_ : Nat) (x : Pulse) {β : Type} (q : Query β) : Prop := q.undisturbed x = true

def Unrenewed (pid : Nat) (x : Pulse) {β : Type} (q : Query β) : Prop := q.unrenewed pid x = true

def Overdue (pid : Nat) (x : Pulse) {β : Type} (q : Query β) : Prop := q.overdue pid x

def Unclosed (_ : Nat) (x : Pulse) {β : Type} (q : Query β) : Prop := q.unclosed x = true

def Working (_ : Nat) (x : Pulse) {β : Type} (q : Query β) : Prop := q.working x = true

section Notes

variable {ns : List Beat} {c : Int × Nat} {n : Beat} {pid p id : Nat} {log : List (Nat × Beat)}
  {m : Option Beat}

theorem mem_candidates_cons (h : c ∈ candidates (n :: ns)) :
    c ∈ candidates ns ∨ ∃ ids, n = .listed c.1 ids ∧ c.2 ∈ ids := by
  cases n with
  | listed cutoff ids =>
    rcases List.mem_append.mp h with hnew | hold
    · obtain ⟨id,hid,rfl⟩ := List.mem_map.mp hnew
      exact .inr ⟨ids,rfl,hid⟩
    · exact .inl hold
  | marked id heartbeat => exact .inl (List.mem_filter.mp h).1
  | passed id => exact .inl (List.mem_filter.mp h).1
  | _ => exact .inl h

theorem candidates_listed (h : c ∈ candidates ns) : ∃ ids, .listed c.1 ids ∈ ns ∧ c.2 ∈ ids := by
  induction ns with
  | nil => exact nomatch h
  | cons n ns ih =>
    rcases mem_candidates_cons h with hold | ⟨ids,rfl,hc⟩
    · obtain ⟨ids,hlisted,hc⟩ := ih hold
      exact ⟨ids,List.mem_cons_of_mem n hlisted,hc⟩
    · exact ⟨ids,List.mem_cons_self,hc⟩

theorem mem_candidates_record (h : c ∈ candidates (notesOf p (record pid log m))) :
    c ∈ candidates (notesOf p log) ∨ p = pid ∧ ∃ ids, m = some (.listed c.1 ids) ∧ c.2 ∈ ids := by
  by_cases hp : p = pid
  · subst hp
    rw [notesOf_record] at h
    cases m with
    | none => exact .inl h
    | some n =>
      rcases mem_candidates_cons h with hold | ⟨ids,rfl,hc⟩
      · exact .inl hold
      · exact .inr ⟨rfl,ids,rfl,hc⟩
  · rw [notesOf_other _ _ hp] at h
    exact .inl h

def Awaiting (log : List (Nat × Beat)) (id : Nat) : Prop :=
  ∃ pid, id ∈ unfired (notesOf pid log)

theorem awaiting_marked {heartbeat : Option Int} :
    Awaiting (record pid log (some (.marked id heartbeat))) id := by
  refine ⟨pid,?_⟩
  rw [notesOf_record]
  exact List.mem_cons_self

theorem awaiting_record (h : Awaiting log id) (hfound : m ≠ some (.found id))
    (hfired : m ≠ some (.fired id)) : Awaiting (record pid log m) id := by
  obtain ⟨p,hp⟩ := h
  refine ⟨p,?_⟩
  by_cases hpid : p = pid
  · subst hpid
    rw [notesOf_record]
    cases m with
    | none => exact hp
    | some n =>
      cases n with
      | marked k heartbeat => exact List.mem_cons_of_mem k hp
      | found k =>
        exact List.mem_filter.mpr ⟨hp,bne_iff_ne.mpr fun he => hfound (he ▸ rfl)⟩
      | fired k =>
        exact List.mem_filter.mpr ⟨hp,bne_iff_ne.mpr fun he => hfired (he ▸ rfl)⟩
      | _ => exact hp
  · rw [notesOf_other _ _ hpid]
    exact hp

end Notes

section Afters

variable {v : View} {m : Option Beat} {id : Nat}

def View.seen (v : View) (id : Nat) : Prop := v.status id = some .online ∨ v.status id = some .offline

theorem after_online (h : (v.after m).status id = some .online) :
    v.status id = some .online ∨ ∃ now, m = some (.beat id now) := by
  rcases m with _ | n
  · exact .inl h
  cases n with
  | marked k heartbeat =>
    by_cases hk : id = k
    · subst hk
      simp [View.after] at h
    · simp only [View.after,Function.update_of_ne hk] at h
      exact .inl h
  | beat k now =>
    by_cases hk : id = k
    · exact .inr ⟨now,by rw [hk]⟩
    · simp only [View.after,Function.update_of_ne hk] at h
      exact .inl h
  | _ => exact .inl h

theorem after_offline (h : (v.after m).status id = some .offline) :
    (v.status id = some .offline ∧ ∀ now, m ≠ some (.beat id now)) ∨
      ∃ heartbeat, m = some (.marked id heartbeat) := by
  rcases m with _ | n
  · exact .inl ⟨h,by simp⟩
  cases n with
  | marked k heartbeat =>
    by_cases hk : id = k
    · exact .inr ⟨heartbeat,by rw [hk]⟩
    · simp only [View.after,Function.update_of_ne hk] at h
      exact .inl ⟨h,by simp⟩
  | beat k now =>
    by_cases hk : id = k
    · subst hk
      simp [View.after] at h
    · simp only [View.after,Function.update_of_ne hk] at h
      exact .inl ⟨h,by simp [Ne.symm hk]⟩
  | _ => exact .inl ⟨h,by simp⟩

theorem after_alert (h : (v.after m).alert id = true) :
    (v.alert id = true ∧ m ≠ some (.resolved id)) ∨ m = some (.fired id) := by
  rcases m with _ | n
  · exact .inl ⟨h,by simp⟩
  cases n with
  | fired k =>
    by_cases hk : id = k
    · exact .inr (by rw [hk])
    · simp only [View.after,Function.update_of_ne hk] at h
      exact .inl ⟨h,by simp⟩
  | resolved k =>
    by_cases hk : id = k
    · subst hk
      simp [View.after] at h
    · simp only [View.after,Function.update_of_ne hk] at h
      exact .inl ⟨h,by simp [Ne.symm hk]⟩
  | _ => exact .inl ⟨h,by simp⟩

theorem alert_after (h : v.alert id = true) (hm : m ≠ some (.resolved id)) :
    (v.after m).alert id = true := by
  rcases m with _ | n
  · exact h
  cases n with
  | fired k =>
    by_cases hk : id = k
    · subst hk
      exact Function.update_self _ _ _
    · simpa only [View.after,Function.update_of_ne hk] using h
  | resolved k =>
    have hk : id ≠ k := fun hk => hm (by rw [hk])
    simpa only [View.after,Function.update_of_ne hk] using h
  | _ => exact h

theorem seen_after (h : v.seen id) : (v.after m).seen id := by
  rcases m with _ | n
  · exact h
  cases n with
  | marked k heartbeat =>
    by_cases hk : id = k
    · subst hk
      rcases h with h | h <;> exact .inr (by simp [View.after,h])
    · simpa only [View.seen,View.after,Function.update_of_ne hk] using h
  | beat k now =>
    by_cases hk : id = k
    · subst hk
      rcases h with h | h <;> exact .inl (by simp [View.after,h])
    · simpa only [View.seen,View.after,Function.update_of_ne hk] using h
  | _ => exact h

theorem after_heartbeat {cutoff : Int} (h : Server.staleBefore cutoff (v.heartbeat id) = true)
    (hm : ∀ now, m = some (.beat id now) → now < cutoff) :
    Server.staleBefore cutoff ((v.after m).heartbeat id) = true := by
  rcases m with _ | n
  · exact h
  cases n with
  | beat k now =>
    by_cases hk : id = k
    · subst hk
      have hlt := hm now rfl
      simp only [View.after,Function.update_self]
      cases v.status id with
      | none => rfl
      | some s => exact decide_eq_true hlt
    · simpa only [View.after,Function.update_of_ne hk] using h
  | _ => exact h

end Afters

section Beats

variable {pid : Nat} {x : Pulse} {β : Type} {q : Query β} {b : β} {n : Beat} {id : Nat} {now : Int}

def Beat.Seen (pid : Nat) (x : Pulse) : Beat → Prop
  | .listed cutoff ids => ∀ id ∈ ids, x.state.store.view.status id = some .online ∧
      Server.staleBefore cutoff (x.state.store.view.heartbeat id) = true
  | .marked id heartbeat => heartbeat = x.state.store.view.heartbeat id ∧
      ∃ cutoff, (cutoff,id) ∈ candidates (notesOf pid x.log)
  | .found id => x.state.store.view.alert id = true
  | .fired id => ∃ cutoff ids, .listed cutoff ids ∈ notesOf pid x.log ∧ id ∈ ids
  | .online ids => ∀ id, x.state.store.view.status id = some .online → id ∈ ids
  | _ => True

theorem offlineBeat_some {condition : String} {m : Beat} (h : offlineBeat condition m = some n) :
    condition = "offline" ∧ m = n := by
  unfold offlineBeat at h
  split at h
  · exact ⟨‹_›,Option.some.inj h⟩
  · exact nomatch h

theorem dutiful_swept {ns : List Beat} (h : q.dutiful ns) : q.swept := by
  cases q <;> trivial

theorem view_candidate {s : Store} {cutoff : Int} {r : Server}
    (h : r ∈ s.servers.select (Server.candidate cutoff)) : s.view.status r.id = some .online ∧
      Server.staleBefore cutoff (s.view.heartbeat r.id) = true := by
  obtain ⟨hr,hcandidate⟩ := List.mem_filter.mp h
  rw [Server.candidate,Bool.and_eq_true,beq_iff_eq] at hcandidate
  have hfind : s.servers.find r.id = some r := Table.find_of_mem hr
  simp only [Store.view,hfind,Option.map_some,Option.bind_some]
  exact ⟨congrArg some hcandidate.1,hcandidate.2⟩

theorem beat_seen (hduty : Dutiful pid x q) (hb : b = (q.exec x.state).2)
    (hn : q.beat β x.state b = some n) : n.Seen pid x := by
  cases q with
  | offlineCandidates cutoff =>
    cases b with
    | error e =>
      obtain rfl := Option.some.inj hn
      trivial
    | ok rows =>
      obtain rfl := Option.some.inj hn
      obtain ⟨-,hok,-⟩ := exec_ok (by simp [Query.refuse]) hb.symm
      rw [← Except.ok.inj hok]
      intro id hid
      simp only [List.map_map,List.mem_map,Function.comp_apply] at hid
      obtain ⟨r,hr,rfl⟩ := hid
      exact view_candidate hr
  | markOffline id =>
    cases b with
    | error e =>
      obtain rfl := Option.some.inj hn
      trivial
    | ok _ =>
      obtain rfl := Option.some.inj hn
      exact ⟨rfl,hduty⟩
  | countLive id condition =>
    cases b with
    | error e => exact nomatch hn
    | ok k =>
      have hbeat : (if k = 0 then none else offlineBeat condition (.found id)) = some n := hn
      split at hbeat
      · exact nomatch hbeat
      · rename_i hk
        obtain ⟨rfl,rfl⟩ := offlineBeat_some hbeat
        obtain ⟨-,hok,-⟩ := exec_ok (by simp [Query.refuse]) hb.symm
        have hpos : 0 < x.state.store.alerts.count (Alert.liveOn id "offline") := by
          have hcount := Except.ok.inj hok
          omega
        exact List.any_eq_true.mpr (List.countP_pos_iff.mp hpos)
  | insertAlert id condition threshold severity message =>
    cases b with
    | error e =>
      obtain ⟨-,rfl⟩ := offlineBeat_some (n := n) hn
      trivial
    | ok _ =>
      obtain ⟨hc,rfl⟩ := offlineBeat_some (n := n) hn
      exact hduty hc
  | onlineServers =>
    cases b with
    | error e =>
      obtain rfl := Option.some.inj hn
      trivial
    | ok ids =>
      obtain rfl := Option.some.inj hn
      obtain ⟨-,hok,-⟩ := exec_ok (by simp [Query.refuse]) hb.symm
      rw [← Except.ok.inj hok]
      intro id hid
      obtain ⟨r,hr,hstatus⟩ := Option.map_eq_some_iff.mp hid
      obtain ⟨hmem,hkey⟩ := Table.find_some hr
      exact List.mem_map.mpr ⟨r,List.mem_filter.mpr ⟨hmem,beq_iff_eq.mpr hstatus⟩,hkey⟩
  | resolveLive id condition =>
    cases b <;>
    · obtain ⟨-,rfl⟩ := offlineBeat_some (n := n) hn
      trivial
  | heartbeat now id =>
    cases b with
    | error e => exact nomatch hn
    | ok _ =>
      obtain rfl := Option.some.inj hn
      trivial
  | refreshInfo hostname now id =>
    cases b with
    | error e => exact nomatch hn
    | ok _ =>
      obtain rfl := Option.some.inj hn
      trivial
  | _ => exact nomatch hn

theorem beat_undisturbed (h : Undisturbed pid x q) (hb : b = (q.exec x.state).2)
    (hn : q.beat β x.state b = some (.beat id now)) {p : Nat} {c : Int × Nat}
    (hc : c ∈ candidates (notesOf p x.log)) (hid : c.2 = id) : now < c.1 := by
  obtain ⟨ids,hlisted,-⟩ := candidates_listed hc
  have hlog := mem_notesOf.mp hlisted
  have hclear : (x.state.now.fault.isSome || x.log.all fun e =>
      (candidates (notesOf e.1 x.log)).all fun c => c.2 != id || decide (now < c.1)) = true →
      x.state.now.fault = none → now < c.1 := by
    intro hall hf
    rw [hf,Option.isSome_none,Bool.false_or] at hall
    have hone := List.all_eq_true.mp (List.all_eq_true.mp hall _ hlog) c hc
    simpa [hid] using hone
  cases q with
  | heartbeat t k =>
    cases b with
    | error e => exact nomatch hn
    | ok _ =>
      obtain ⟨rfl,rfl⟩ := Beat.beat.inj (Option.some.inj hn)
      exact hclear h (exec_ok (by simp [Query.refuse]) hb.symm).1
  | refreshInfo hostname t k =>
    cases b with
    | error e => exact nomatch hn
    | ok _ =>
      obtain ⟨rfl,rfl⟩ := Beat.beat.inj (Option.some.inj hn)
      exact hclear h (exec_ok (by simp [Query.refuse]) hb.symm).1
  | countLive k condition =>
    cases b with
    | error e => exact nomatch hn
    | ok m =>
      have hbeat : (if m = 0 then none else offlineBeat condition (.found k)) = some (.beat id now) := hn
      split at hbeat
      · exact nomatch hbeat
      · exact nomatch (offlineBeat_some hbeat).2
  | insertAlert k condition threshold severity message =>
    cases b <;> exact nomatch (offlineBeat_some (n := .beat id now) hn).2
  | resolveLive k condition =>
    cases b <;> exact nomatch (offlineBeat_some (n := .beat id now) hn).2
  | _ => cases b <;> exact nomatch hn

theorem beat_unclosed (h : Unclosed pid x q) (hb : b = (q.exec x.state).2)
    (hn : q.beat β x.state b = some (.resolved id)) :
    x.state.store.view.status id ≠ some .offline ∨ x.state.store.view.alert id = false := by
  cases q with
  | resolveLive k condition =>
    cases b with
    | error e => exact nomatch (offlineBeat_some (n := .resolved id) hn).2
    | ok m =>
      obtain ⟨rfl,hk⟩ := offlineBeat_some (n := .resolved id) hn
      obtain rfl := Beat.resolved.inj hk
      have hf := (exec_ok (by simp [Query.refuse]) hb.symm).1
      simpa [Unclosed,Query.unclosed,hf] using h
  | countLive k condition =>
    cases b with
    | error e => exact nomatch hn
    | ok m =>
      have hbeat : (if m = 0 then none else offlineBeat condition (.found k)) = some (.resolved id) := hn
      split at hbeat
      · exact nomatch hbeat
      · exact nomatch (offlineBeat_some hbeat).2
  | insertAlert k condition threshold severity message =>
    cases b <;> exact nomatch (offlineBeat_some (n := .resolved id) hn).2
  | _ => cases b <;> exact nomatch hn

theorem refused_fault {β : Type} {q : Query (Except String β)} {e : String}
    (hok : ∀ o s, ∃ c, (q.effect o s).2 = .ok c) (hb : .error e = (q.exec x.state).2) :
    x.state.now.fault.isSome = true := by
  cases hf : x.state.now.fault with
  | some e => rfl
  | none =>
    rw [exec_none hf] at hb
    obtain ⟨c,hc⟩ := hok x.state.now x.state.store
    exact nomatch hb.trans hc

theorem beat_working (h : Working pid x q) (hb : b = (q.exec x.state).2) :
    q.beat β x.state b ≠ some .failed := by
  intro hn
  have hfault : ∀ condition, condition = "offline" → x.state.now.fault.isSome = true →
      ¬ (condition != "offline" || x.state.now.fault.isNone) = true := by
    intro condition hc hf
    obtain ⟨e,he⟩ := Option.isSome_iff_exists.mp hf
    simp [hc,he]
  cases q with
  | offlineCandidates cutoff =>
    cases b with
    | ok rows => exact nomatch hn
    | error e => exact hfault _ rfl (refused_fault (fun _ _ => ⟨_,rfl⟩) hb) h
  | onlineServers =>
    cases b with
    | ok ids => exact nomatch hn
    | error e => exact hfault _ rfl (refused_fault (fun _ _ => ⟨_,rfl⟩) hb) h
  | insertAlert k condition threshold severity message =>
    cases b with
    | ok _ => exact nomatch (offlineBeat_some (n := .failed) hn).2
    | error e =>
      exact hfault condition (offlineBeat_some (n := .failed) hn).1
        (refused_fault (fun _ _ => ⟨_,rfl⟩) hb) h
  | resolveLive k condition =>
    cases b with
    | ok _ => exact nomatch (offlineBeat_some (n := .failed) hn).2
    | error e =>
      exact hfault condition (offlineBeat_some (n := .failed) hn).1
        (refused_fault (fun _ _ => ⟨_,rfl⟩) hb) h
  | countLive k condition =>
    cases b with
    | error e => exact nomatch hn
    | ok m =>
      have hbeat : (if m = 0 then none else offlineBeat condition (.found k)) = some .failed := hn
      split at hbeat
      · exact nomatch hbeat
      · exact nomatch (offlineBeat_some hbeat).2
  | _ => cases b <;> exact nomatch hn

end Beats

structure Timely (x : Pulse) : Prop where
  stale : ∀ pid, ∀ c ∈ candidates (notesOf pid x.log),
    Server.staleBefore c.1 (x.state.store.view.heartbeat c.2) = true
  right : ∀ pid id heartbeat, (pid,.marked id heartbeat) ∈ x.log → ∃ cutoff ids,
    (pid,.listed cutoff ids) ∈ x.log ∧ id ∈ ids ∧ Server.staleBefore cutoff heartbeat = true

def Aged (x : Pulse) : Prop := ∀ pid cutoff ids, (pid,.listed cutoff ids) ∈ x.log → ∀ id ∈ ids,
  renewed pid id x.log = true ∨ Server.staleBefore cutoff (x.state.store.view.heartbeat id) = true

def Beat.writes (id : Nat) : Beat → Bool
  | .marked k _ | .beat k _ => k == id
  | _ => false

def Beat.marks : Beat → Bool
  | .marked _ _ => true
  | _ => false

def LeftOffline (start : View) (log : List (Nat × Beat)) (id : Nat) : Prop :=
  (log.find? fun e => e.2.writes id).elim (start.status id = some .offline) fun e => e.2.marks = true

structure Covered (start : View) (x : Pulse) : Prop where
  offline : ∀ id, x.state.store.view.status id = some .offline →
    x.state.store.view.alert id = true ∨ Awaiting x.log id
  alerted : ∀ id, x.state.store.view.alert id = true → x.state.store.view.seen id
  listed : ∀ pid cutoff ids, (pid,.listed cutoff ids) ∈ x.log → ∀ id ∈ ids, x.state.store.view.seen id
  online : ∀ newer pid ids older, x.log = newer ++ (pid,.online ids) :: older → ∀ id,
    x.state.store.view.status id = some .online → id ∈ ids ∨ ∃ e ∈ newer, ∃ now, e.2 = .beat id now
  resolved : ∀ newer pid id older, x.log = newer ++ (pid,.resolved id) :: older →
    x.state.store.view.alert id = true → ∃ e ∈ newer, e.2 = .fired id
  working : ∀ e ∈ x.log, e.2 ≠ .failed
  writer : ∀ id, (x.state.store.view.status id).isSome = true →
    (x.state.store.view.status id = some .offline ↔ LeftOffline start x.log id)

section Invariants

variable {env : Env} {start : View} {pid : Nat} {x y : Pulse} {β : Type} {q : Query β} {b : β}
  {m : Option Beat}

theorem exec_pulses (hduty : Dutiful pid x q) (h : (pulses env).exec pid q x = some (y,b)) :
    b = (q.exec x.state).2 ∧ y.log = record pid x.log (q.beat β x.state b) ∧
      y.state.store.view = x.state.store.view.after (q.beat β x.state b) := by
  obtain ⟨hexec,hlog⟩ := exec_observe h
  obtain ⟨hstate,hanswer⟩ := Prod.mk.inj (Option.some.inj hexec)
  refine ⟨hanswer.symm,hlog,?_⟩
  rw [← hstate]
  exact view_exec (dutiful_swept hduty) hanswer.symm

theorem Timely.step (hx : Timely x) (hlog : y.log = record pid x.log m)
    (hview : y.state.store.view = x.state.store.view.after m)
    (hseen : ∀ n, m = some n → n.Seen pid x)
    (hbeat : ∀ id now, m = some (.beat id now) → ∀ p, ∀ c ∈ candidates (notesOf p x.log),
      c.2 = id → now < c.1) : Timely y := by
  refine ⟨fun p c hc => ?_,fun p id heartbeat hm => ?_⟩
  · rw [hview]
    rw [hlog] at hc
    rcases mem_candidates_record hc with hold | ⟨rfl,ids,rfl,hid⟩
    · exact after_heartbeat (hx.stale p c hold) fun now hm => hbeat _ now hm p c hold rfl
    · exact (hseen _ rfl c.2 hid).2
  · have hold : (p,.marked id heartbeat) ∈ x.log → ∃ cutoff ids, (p,.listed cutoff ids) ∈ y.log ∧
        id ∈ ids ∧ Server.staleBefore cutoff heartbeat = true := by
      intro h
      obtain ⟨cutoff,ids,hlisted,hid,hstale⟩ := hx.right p id heartbeat h
      exact ⟨cutoff,ids,hlog ▸ (suffix_record pid x.log m).subset hlisted,hid,hstale⟩
    rw [hlog] at hm
    cases m with
    | none => exact hold hm
    | some n =>
      rcases List.mem_cons.mp hm with he | hm
      · obtain ⟨rfl,rfl⟩ := Prod.mk.inj he
        obtain ⟨rfl,cutoff,hcandidate⟩ := hseen _ rfl
        obtain ⟨ids,hlisted,hid⟩ := candidates_listed hcandidate
        refine ⟨cutoff,ids,?_,hid,hx.stale p _ hcandidate⟩
        rw [hlog]
        exact List.mem_cons_of_mem _ (mem_notesOf.mp hlisted)
      · exact hold hm

theorem Aged.step (hx : Aged x) (hlog : y.log = record pid x.log m)
    (hview : y.state.store.view = x.state.store.view.after m)
    (hseen : ∀ n, m = some n → n.Seen pid x) : Aged y := by
  intro p cutoff ids hlisted id hid
  rw [hview]
  rw [hlog] at hlisted ⊢
  cases m with
  | none => exact hx p cutoff ids hlisted id hid
  | some n =>
    rcases List.mem_cons.mp hlisted with he | hold
    · obtain ⟨rfl,rfl⟩ := Prod.mk.inj he
      exact .inr (hseen _ rfl id hid).2
    rcases hx p cutoff ids hold id hid with hrenewed | hstale
    · exact .inl (Bool.or_eq_true_iff.mpr (.inl hrenewed))
    by_cases hnow : ∃ now, n = .beat id now ∧ cutoff ≤ now
    · obtain ⟨now,rfl,hle⟩ := hnow
      have hin : ids.contains id = true := List.contains_iff_mem.mpr hid
      exact .inl (Bool.or_eq_true_iff.mpr (.inr (List.any_eq_true.mpr
        ⟨_,hold,by simp [renewal,hid,hle]⟩)))
    · refine .inr (after_heartbeat hstale fun now hm => ?_)
      exact Int.not_le.mp fun hle => hnow ⟨now,Option.some.inj hm,hle⟩

theorem Aged.overdue (hx : Aged x) (hduty : Dutiful pid x q) (h : Unrenewed pid x q) :
    Overdue pid x q := by
  cases q with
  | insertAlert id condition threshold severity message =>
    intro hf hc
    obtain ⟨cutoff,ids,hlisted,hid⟩ := hduty hc
    have hlisted := mem_notesOf.mp hlisted
    refine ⟨cutoff,ids,hlisted,hid,(hx pid cutoff ids hlisted id hid).resolve_left fun hr => ?_⟩
    simp [Unrenewed,Query.unrenewed,hf,hc,hr] at h
  | _ => trivial

theorem leftOffline_record {id : Nat} (hm : ∀ n, m = some n → n.writes id = false) :
    LeftOffline start (record pid x.log m) id ↔ LeftOffline start x.log id := by
  cases m with
  | none => exact Iff.rfl
  | some n =>
    unfold LeftOffline
    rw [record,List.find?_cons_of_neg (by simp [hm n rfl])]

theorem after_status {v : View} {id : Nat} (h : ∀ n, m = some n → n.writes id = false) :
    (v.after m).status id = v.status id := by
  rcases m with _ | n
  · rfl
  cases n with
  | marked k heartbeat =>
    have hk : id ≠ k := fun hk => by simpa [Beat.writes,hk] using h _ rfl
    exact Function.update_of_ne hk _ _
  | beat k now =>
    have hk : id ≠ k := fun hk => by simpa [Beat.writes,hk] using h _ rfl
    exact Function.update_of_ne hk _ _
  | _ => rfl

theorem writer_cons {v : View} {id : Nat} {n : Beat} {log : List (Nat × Beat)}
    (hn : n.writes id = true) (hid : ((v.after (some n)).status id).isSome = true) :
    (v.after (some n)).status id = some .offline ↔
      LeftOffline start (record pid log (some n)) id := by
  have hleft : LeftOffline start (record pid log (some n)) id ↔ n.marks = true := by
    have hfind : (((pid,n) :: log).find? fun e => e.2.writes id) = some (pid,n) :=
      List.find?_cons_of_pos hn
    unfold LeftOffline
    rw [record,hfind]
    exact Iff.rfl
  rw [hleft]
  cases n with
  | marked k heartbeat =>
    obtain rfl := beq_iff_eq.mp hn
    cases hs : v.status k with
    | none => simp [View.after,hs] at hid
    | some s => simp [View.after,Beat.marks,hs]
  | beat k now =>
    obtain rfl := beq_iff_eq.mp hn
    cases hs : v.status k <;> simp [View.after,Beat.marks,hs]
  | _ => cases hn

theorem Covered.step (hx : Covered start x) (hlog : y.log = record pid x.log m)
    (hview : y.state.store.view = x.state.store.view.after m)
    (hseen : ∀ n, m = some n → n.Seen pid x)
    (hclosed : ∀ id, m = some (.resolved id) →
      x.state.store.view.status id ≠ some .offline ∨ x.state.store.view.alert id = false)
    (hworking : m ≠ some .failed) : Covered start y := by
  have hsplit : ∀ {newer older : List (Nat × Beat)} {e : Nat × Beat},
      y.log = newer ++ e :: older → (m = some e.2 ∧ newer = []) ∨
        ∃ rest, x.log = rest ++ e :: older ∧ newer = (m.map fun n => (pid,n)).toList ++ rest := by
    intro newer older e h
    rw [hlog] at h
    cases m with
    | none => exact .inr ⟨newer,h,rfl⟩
    | some n =>
      rcases newer with _ | ⟨e',rest⟩
      · obtain ⟨rfl,-⟩ := List.cons.inj h
        exact .inl ⟨rfl,rfl⟩
      · obtain ⟨rfl,hrest⟩ := List.cons.inj h
        exact .inr ⟨rest,hrest,rfl⟩
  refine ⟨fun id h => ?_,fun id h => ?_,fun p cutoff ids h id hid => ?_,
    fun newer p ids older h id hid => ?_,fun newer p id older h hid => ?_,fun e he => ?_,
    fun id hid => ?_⟩
  · rw [hview] at h ⊢
    rw [hlog]
    rcases after_offline h with ⟨hold,-⟩ | ⟨heartbeat,rfl⟩
    · by_cases hfired : m = some (.fired id)
      · exact .inl (by rw [hfired]; exact Function.update_self _ _ _)
      by_cases hfound : m = some (.found id)
      · have halert : x.state.store.view.alert id = true := hseen _ hfound
        exact .inl (alert_after halert (by simp [hfound]))
      rcases hx.offline id hold with halert | hawaiting
      · by_cases hresolved : m = some (.resolved id)
        · rcases hclosed id hresolved with hne | hnone
          · exact absurd hold hne
          · rw [hnone] at halert
            exact nomatch halert
        · exact .inl (alert_after halert hresolved)
      · exact .inr (awaiting_record hawaiting hfound hfired)
    · exact .inr awaiting_marked
  · rw [hview] at h ⊢
    rcases after_alert h with ⟨hold,-⟩ | rfl
    · exact seen_after (hx.alerted id hold)
    · obtain ⟨cutoff,ids,hlisted,hid⟩ := hseen _ rfl
      exact seen_after (hx.listed pid cutoff ids (mem_notesOf.mp hlisted) id hid)
  · rw [hview]
    rw [hlog] at h
    have hold : (p,.listed cutoff ids) ∈ x.log → (x.state.store.view.after m).seen id :=
      fun h => seen_after (hx.listed p cutoff ids h id hid)
    cases m with
    | none => exact hold h
    | some n =>
      rcases List.mem_cons.mp h with he | h
      · obtain ⟨-,rfl⟩ := Prod.mk.inj he
        exact seen_after (.inl (hseen _ rfl id hid).1)
      · exact hold h
  · rw [hview] at hid
    rcases hsplit h with ⟨hm,rfl⟩ | ⟨rest,hrest,rfl⟩
    · rcases after_online hid with hold | ⟨now,hbeat⟩
      · exact .inl (hseen _ hm id hold)
      · rw [hm] at hbeat
        exact nomatch Option.some.inj hbeat
    · rcases after_online hid with hold | ⟨now,rfl⟩
      · rcases hx.online rest p ids older hrest id hold with hin | ⟨e,he,hbeat⟩
        · exact .inl hin
        · exact .inr ⟨e,List.mem_append_right _ he,hbeat⟩
      · exact .inr ⟨(pid,.beat id now),by simp,now,rfl⟩
  · rw [hview] at hid
    rcases hsplit h with ⟨hm,rfl⟩ | ⟨rest,hrest,rfl⟩
    · rcases after_alert hid with ⟨-,hne⟩ | hfired
      · exact absurd hm hne
      · rw [hm] at hfired
        exact nomatch Option.some.inj hfired
    · rcases after_alert hid with ⟨hold,-⟩ | rfl
      · obtain ⟨e,he,hfired⟩ := hx.resolved rest p id older hrest hold
        exact ⟨e,List.mem_append_right _ he,hfired⟩
      · exact ⟨(pid,.fired id),by simp,rfl⟩
  · rw [hlog] at he
    cases m with
    | none => exact hx.working e he
    | some n =>
      rcases List.mem_cons.mp he with rfl | he
      · exact fun hf => hworking (congrArg some hf)
      · exact hx.working e he
  · rw [hview] at hid ⊢
    rw [hlog]
    by_cases hw : ∃ n, m = some n ∧ n.writes id = true
    · obtain ⟨n,rfl,hn⟩ := hw
      exact writer_cons hn hid
    · have hother : ∀ n, m = some n → n.writes id = false :=
        fun n hn => Bool.eq_false_of_not_eq_true fun h => hw ⟨n,hn,h⟩
      rw [after_status hother] at hid ⊢
      rw [leftOffline_record hother]
      exact hx.writer id hid

end Invariants

end Alerting
