import ServerHub.Alerting.Alerts

namespace Alerting

open Relational Interleave Interleave.Prog

inductive Key where
  | internal (serverID : Nat) (condition : String)
  | webhook (fingerprint : String)
deriving DecidableEq

def Key.holds : Key → Alert → Bool
  | .internal serverID condition, a => a.source == .blank && a.liveOn serverID condition
  | .webhook fingerprint, a => fingerprint != "" && a.liveAs fingerprint

def Store.live (s : Store) (k : Key) : Nat := s.alerts.count k.holds

inductive Sight where
  | counted (key : Key) (n : Option Nat)
  | raised (row : Alert)
  | users (names : List String)
  | sent (n : Notification)
deriving DecidableEq

namespace Sight

def counts (k : Key) : Sight → Bool
  | .counted key _ => key == k
  | _ => false

def raises (k : Key) : Sight → Bool
  | .raised row => k.holds row
  | _ => false

def loud : Sight → Bool
  | .counted _ _ => false
  | _ => true

end Sight

def answered (answer : Except String Nat) : Option Nat :=
  match answer with
  | .error _ => none
  | .ok n => some n

namespace Query

def key : {β : Type} → Query β → Option Key
  | _, .insertAlert serverID condition _ _ _ => some (.internal serverID condition)
  | _, .insertWebhookAlert _ _ _ _ fingerprint => some (.webhook fingerprint)
  | _, _ => none

def noticed : {β : Type} → Query β → β → Option Sight
  | _, .countLive serverID condition, answer =>
      some (.counted (.internal serverID condition) (answered answer))
  | _, .countFingerprint fingerprint, answer =>
      some (.counted (.webhook fingerprint) (answered answer))
  | _, .usernames, .ok names => some (.users names)
  | _, .insertNotification n, .ok _ => some (.sent n)
  | _, _, _ => none

def sight (β : Type) (q : Query β) (d : Database) (b : β) : Option Sight :=
  ((q.raised d).map .raised).or (q.noticed b)

def unraced (pid : Nat) (x : Traced Database Sight) {β : Type} (q : Query β) : Bool :=
  x.state.now.fault.isSome || q.key.all fun k =>
    match standing (Sight.counts k) (Sight.raises k) pid x.log with
    | some (.counted _ (some _)) => true
    | _ => false

def announces : {β : Type} → Query β → Bool
  | _, .usernames | _, .insertNotification _ => true
  | _, _ => false

end Query

abbrev incidents (env : Env) : System := (alerting env).observe Query.sight

def Unraced (pid : Nat) (x : Traced Database Sight) {β : Type} (q : Query β) : Prop :=
  q.unraced pid x = true

def Heard (_ : Nat) (x : Traced Database Sight) {β : Type} (q : Query β) : Prop :=
  (q.announces && x.state.now.fault.isSome) = false

def Alert.notice (row : Alert) (username : String) : Notification where
  username := username
  title := row.severity ++ ": " ++ row.message
  body := row.message
  category := "alert"
  serverID := row.serverID
  alertID := match row.source with
    | .blank => none
    | .alertmanager => some row.id

def announcement (users : List String) (row : Alert) : List Sight :=
  (users.map fun u => .sent (row.notice u)).reverse ++ [.users users,.raised row]

def Announced (users : List String) (ns : List Sight) : Prop :=
  ∃ rows : List Alert, ns.filter Sight.loud = (rows.map (announcement users)).flatten

structure Single (base : Nat) (users : List String) (x : Traced Database Sight) : Prop where
  one : ∀ k, x.state.store.live k ≤ 1
  counts : ∀ pid k n, standing (Sight.counts k) (Sight.raises k) pid x.log =
    some (.counted k (some n)) → x.state.store.live k ≤ n
  users : x.state.store.users = users
  grown : base ≤ x.state.store.alerts.next
  known : ∀ e ∈ x.log, ∀ row, e.2 = .raised row → row.id < x.state.store.alerts.next
  once : x.log.Pairwise fun a b => ∀ row row', a.2 = .raised row → b.2 = .raised row' → row.id ≠ row'.id
  raised : ∀ a ∈ x.state.store.alerts.rows, base ≤ a.id → ∃ pid row, (pid,.raised row) ∈ x.log ∧
    a = { row with status := a.status, resolvedAt := a.resolvedAt }

section Counts

variable {β : Type} {q : Query β} {d : Database} {row : Alert} {k : Key}

theorem holds_key (h : q.raised d = some row) (hk : k.holds row = true) : q.key = some k := by
  obtain ⟨-,hrow⟩ := raised_fault h
  cases q with
  | insertAlert serverID condition threshold severity message =>
    obtain rfl := Option.some.inj hrow
    cases k with
    | internal sid c =>
      simp [Key.holds,Alert.liveOn,internalAlert] at hk
      simp [Query.key,hk.1.1,hk.1.2]
    | webhook fp =>
      simp only [Key.holds,Alert.liveAs,internalAlert,Bool.and_eq_true,bne_iff_ne,beq_iff_eq] at hk
      exact absurd hk.2.1.symm hk.1
  | insertWebhookAlert serverID condition severity message fingerprint =>
    obtain rfl := Option.some.inj hrow
    cases k with
    | internal sid c => simp [Key.holds,webhookAlert] at hk
    | webhook fp =>
      simp [Key.holds,Alert.liveAs,webhookAlert] at hk
      simp [Query.key,hk.2.1]
  | _ => exact nomatch hrow

theorem live_raised (h : q.raised d = some row) (k : Key) :
    (q.exec d).1.store.live k = d.store.live k + if k.holds row then 1 else 0 := by
  show (q.exec d).1.store.alerts.rows.countP k.holds = _
  rw [(exec_raised h).1,List.countP_append,List.countP_singleton]
  rfl

theorem closed_holds (k : Key) (a : Alert) (now : Int) : k.holds (a.closedAt now) = false := by
  cases k <;> simp [Key.holds,Alert.liveOn,Alert.liveAs,Alert.live,Alert.closedAt]

theorem live_settled (h : q.raised d = none) (k : Key) :
    (q.exec d).1.store.live k ≤ d.store.live k := by
  obtain ⟨-,now,hrows⟩ := exec_settled h
  show (q.exec d).1.store.alerts.rows.countP k.holds ≤ d.store.alerts.rows.countP k.holds
  rw [hrows,List.countP_map]
  refine List.countP_mono_left fun a _ ha => ?_
  rw [Function.comp_apply] at ha
  split at ha
  · rw [closed_holds] at ha
    exact nomatch ha
  · exact ha

theorem exec_users (q : Query β) (d : Database) : (q.exec d).1.store.users = d.store.users := by
  unfold Query.exec
  cases d.now.fault with
  | some e => rfl
  | none => cases q <;> rfl

theorem counted_answer {b : β} {n : Nat} (h : q.sight β d b = some (.counted k (some n)))
    (hb : b = (q.exec d).2) : d.store.live k ≤ n := by
  have hraised : q.raised d = none := by
    cases hr : q.raised d with
    | none => rfl
    | some row => simp [Query.sight,hr] at h
  simp only [Query.sight,hraised,Option.map_none,Option.none_or] at h
  have hcount : ∀ (p : Alert → Bool), (∀ a, k.holds a = true → p a = true) →
      d.store.live k ≤ d.store.alerts.count p :=
    fun p hp => List.countP_mono_left fun a _ ha => hp a ha
  cases q with
  | countLive serverID condition =>
    obtain ⟨rfl,hn⟩ := Sight.counted.inj (Option.some.inj h)
    cases b with
    | error e => exact nomatch hn
    | ok m =>
      obtain rfl := Option.some.inj hn
      obtain ⟨-,hok,-⟩ := exec_ok (by simp [Query.refuse]) hb.symm
      rw [← Except.ok.inj hok]
      refine hcount _ fun a ha => ?_
      exact ((Bool.and_eq_true _ _).mp ha).2
  | countFingerprint fingerprint =>
    obtain ⟨rfl,hn⟩ := Sight.counted.inj (Option.some.inj h)
    cases b with
    | error e => exact nomatch hn
    | ok m =>
      obtain rfl := Option.some.inj hn
      obtain ⟨-,hok,-⟩ := exec_ok (by simp [Query.refuse]) hb.symm
      rw [← Except.ok.inj hok]
      refine hcount _ fun a ha => ?_
      exact ((Bool.and_eq_true _ _).mp ha).2
  | usernames => cases b <;> exact nomatch h
  | insertNotification n => cases b <;> exact nomatch h
  | _ => exact nomatch h

end Counts

section Steps

variable {base : Nat} {users : List String} {pid : Nat} {x : Traced Database Sight} {β : Type}
  {q : Query β} {b : β}

theorem sight_raised {row : Alert} (d : Database) (h : q.sight β d b = some (.raised row)) :
    q.raised d = some row := by
  cases hr : q.raised d with
  | some r =>
    rw [Query.sight,hr] at h
    exact congrArg some (Sight.raised.inj (Option.some.inj h))
  | none =>
    simp only [Query.sight,hr,Option.map_none,Option.none_or] at h
    cases q with
    | usernames => cases b <;> exact nomatch h
    | insertNotification n => cases b <;> exact nomatch h
    | _ => exact nomatch h

theorem raised_log {e : Nat × Sight} {row : Alert} (he : e ∈ record pid x.log (q.sight β x.state b))
    (hr : e.2 = .raised row) : e ∈ x.log ∨ e = (pid,.raised row) ∧ q.raised x.state = some row := by
  cases hn : q.sight β x.state b with
  | none =>
    rw [hn] at he
    exact .inl he
  | some n =>
    rw [hn] at he
    rcases List.mem_cons.mp he with rfl | he
    · obtain rfl : n = .raised row := hr
      exact .inr ⟨rfl,sight_raised x.state hn⟩
    · exact .inl he

theorem Single.exec (hx : Single base users x)
    (hclear : ∀ row k, q.raised x.state = some row → k.holds row = true → x.state.store.live k = 0)
    (hb : b = (q.exec x.state).2) :
    Single base users ⟨(q.exec x.state).1,record pid x.log (q.sight β x.state b)⟩ := by
  have hnext : x.state.store.alerts.next ≤ (q.exec x.state).1.store.alerts.next := by
    cases hr : q.raised x.state with
    | some row => rw [(exec_raised hr).2]; exact Nat.le_succ _
    | none => exact Nat.le_of_eq (exec_settled hr).1.symm
  have hsuffix := suffix_record pid x.log (q.sight β x.state b)
  refine ⟨fun k => ?_,fun p k n hp => ?_,(exec_users q x.state).trans hx.users,
    Nat.le_trans hx.grown hnext,fun e he row hrow => ?_,?_,fun a ha hbase => ?_⟩
  · cases hr : q.raised x.state with
    | some row =>
      rw [live_raised hr]
      split
      · rename_i hk
        rw [hclear row k hr hk]
      · exact hx.one k
    | none => exact Nat.le_trans (live_settled hr k) (hx.one k)
  · cases hn : q.sight β x.state b with
    | none =>
      have hr : q.raised x.state = none := by
        cases hr : q.raised x.state with
        | none => rfl
        | some row => simp [Query.sight,hr] at hn
      rw [hn] at hp
      exact Nat.le_trans (live_settled hr k) (hx.counts p k n hp)
    | some m =>
      rw [hn] at hp
      by_cases hmine : pid = p ∧ Sight.counts k m = true
      · obtain ⟨rfl,hm⟩ := hmine
        rw [record,standing_mine hm] at hp
        obtain rfl := Option.some.inj hp
        have hr : q.raised x.state = none := by
          cases hr : q.raised x.state with
          | none => rfl
          | some row => simp [Query.sight,hr] at hn
        exact Nat.le_trans (live_settled hr k) (counted_answer hn hb)
      · have hother : pid ≠ p ∨ Sight.counts k m = false := by
          rcases Decidable.not_and_iff_not_or_not.mp hmine with hne | hc
          · exact .inl hne
          · exact .inr (Bool.eq_false_of_not_eq_true hc)
        cases hraises : Sight.raises k m with
        | true =>
          have hc : Sight.counts k m = false := by
            cases m with
            | raised row => rfl
            | _ => cases hraises
          rw [record,standing_theirs hc hraises] at hp
          cases hp
        | false =>
          rw [record,standing_other hother hraises] at hp
          refine Nat.le_trans ?_ (hx.counts p k n hp)
          cases hr : q.raised x.state with
          | none => exact live_settled hr k
          | some row =>
            obtain rfl : Sight.raised row = m := by simpa [Query.sight,hr] using hn
            rw [live_raised hr,show k.holds row = false from hraises]
            exact Nat.le_refl _
  · rcases raised_log he hrow with hold | ⟨rfl,hr⟩
    · exact Nat.lt_of_lt_of_le (hx.known e hold row hrow) hnext
    · show row.id < (q.exec x.state).1.store.alerts.next
      rw [(exec_raised hr).2,(raised_row hr).1]
      exact Nat.lt_succ_self _
  · cases hn : q.sight β x.state b with
    | none => exact hx.once
    | some m =>
      refine .cons (fun e he row row' hrow hrow' => ?_) hx.once
      obtain rfl : m = .raised row := hrow
      have hlt := hx.known e he row' hrow'
      have hid := (raised_row (sight_raised x.state hn)).1
      omega
  · have hstill : ∀ c ∈ x.state.store.alerts.rows, base ≤ c.id → ∃ p row,
        (p,.raised row) ∈ record pid x.log (q.sight β x.state b) ∧
          c = { row with status := c.status, resolvedAt := c.resolvedAt } := by
      intro c hc hid
      obtain ⟨p,row,hlog,hsame⟩ := hx.raised c hc hid
      exact ⟨p,row,hsuffix.subset hlog,hsame⟩
    cases hr : q.raised x.state with
    | some row =>
      rw [(exec_raised hr).1] at ha
      rcases List.mem_append.mp ha with hold | hnew
      · exact hstill a hold hbase
      · obtain rfl := List.mem_singleton.mp hnew
        exact ⟨pid,a,by simp [Query.sight,hr,record],rfl⟩
    | none =>
      obtain ⟨-,now,hrows⟩ := exec_settled hr
      rw [hrows] at ha
      obtain ⟨c,hc,rfl⟩ := List.mem_map.mp ha
      split
      · rename_i hclosing
        rw [if_pos hclosing] at hbase
        obtain ⟨p,row,hlog,hsame⟩ := hstill c hc hbase
        refine ⟨p,row,hlog,?_⟩
        rw [hsame]
        rfl
      · rename_i hclosing
        rw [if_neg hclosing] at hbase
        exact hstill c hc hbase

end Steps

def watching (env : Env) (base : Nat) (users : List String) : Ledger (alerting env) Query.sight where
  Inv := Single base users
  Allow pid x _ q := Unraced pid x q ∧ Heard pid x q
  Duty _ _ _ _ := True

def Zero (k : Key) (ns : List Sight) : Prop :=
  ∀ n, ns.find? (Sight.counts k) = some (.counted k (some n)) → n = 0

section Reports

variable {env : Env} {base pid : Nat} {users : List String} {α β : Type} {q : Query β}
  {J : List Sight → Prop} {Q : β → List Sight → Prop}

def Watched (env : Env) (base : Nat) (users : List String) (pid : Nat) (J : List Sight → Prop)
    (p : Handler α) (Q : α → List Sight → Prop) : Prop :=
  (watching env base users).Tells pid J p Q

theorem watched_perform (hzero : ∀ k, q.key = some k → ∀ ns, J ns → Zero k ns)
    (h : ∀ x b, Single base users x → J (notesOf pid x.log) → Heard pid x q →
      b = (q.exec x.state).2 → Q b ((q.sight β x.state b).toList ++ notesOf pid x.log)) :
    Watched env base users pid J (perform q) Q := by
  refine Ledger.tells_perform fun (x : Traced Database Sight) t b hx hJ hallow hexec => ?_
  obtain ⟨rfl,rfl⟩ := Prod.mk.inj (Option.some.inj hexec)
  refine ⟨trivial,Single.exec hx (fun row k hr hk => ?_) rfl,h x _ hx hJ hallow.2 rfl⟩
  have hkey := holds_key hr hk
  have hraced : q.unraced pid x = true := hallow.1
  rw [Query.unraced,(raised_fault hr).1,hkey] at hraced
  simp only [Option.isSome_none,Bool.false_or,Option.all_some] at hraced
  cases hs : standing (Sight.counts k) (Sight.raises k) pid x.log with
  | none =>
    rw [hs] at hraced
    exact nomatch hraced
  | some m =>
    rw [hs] at hraced
    have hmine := (standing_mem hs).2
    cases m with
    | counted key n =>
      obtain rfl := beq_iff_eq.mp hmine
      cases n with
      | none => exact nomatch hraced
      | some n =>
        have hlast := standing_lastOwn hs
        rw [lastOwn_notesOf] at hlast
        obtain rfl := hzero key hkey _ hJ n hlast
        exact Nat.le_zero.mp (hx.counts pid key 0 hs)
    | _ => exact nomatch hmine

theorem sight_silent (hr : ∀ d, q.raised d = none) (hn : ∀ b, q.noticed b = none) (d : Database)
    (b : β) : q.sight β d b = none := by
  rw [Query.sight,hr,hn]
  rfl

theorem watched_silent (hr : ∀ d, q.raised d = none) (hn : ∀ b, q.noticed b = none)
    (hk : q.key = none) : Watched env base users pid J (perform q) fun _ => J := by
  refine watched_perform (fun k h => ?_) fun x b _ hJ _ _ => ?_
  · rw [hk] at h
    exact nomatch h
  · rw [sight_silent hr hn]
    exact hJ

theorem watched_plain (h : q.plain) : Watched env base users pid J (perform q) fun _ => J := by
  refine watched_silent (fun d => plain_raised h) (fun b => ?_) ?_
  · cases q with
    | usernames => exact h.elim
    | insertNotification n => exact h.elim
    | countLive serverID condition => exact h.elim
    | countFingerprint fingerprint => exact h.elim
    | _ => rfl
  · cases q with
    | insertAlert serverID condition threshold severity message => exact h.elim
    | insertWebhookAlert serverID condition severity message fingerprint => exact h.elim
    | _ => rfl

def Raised (users : List String) (notice : String → Notification) (ns : List Sight) : Prop :=
  ∃ row ns', ns = .raised row :: ns' ∧ Announced users ns' ∧ ∀ u, row.notice u = notice u

def Telling (users : List String) (notice : String → Notification) (left : List String)
    (ns : List Sight) : Prop :=
  ∃ row told ns', told ++ left = users ∧ Announced users ns' ∧ (∀ u, row.notice u = notice u) ∧
    ns = (told.map fun u => .sent (row.notice u)).reverse ++ .users users :: .raised row :: ns'

theorem announced_told {notice : String → Notification} {ns : List Sight}
    (h : Telling users notice [] ns) : Announced users ns := by
  obtain ⟨row,told,ns',rfl,⟨rows,hrows⟩,-,rfl⟩ := h
  refine ⟨row :: rows,?_⟩
  have hsent : ((told.map fun u => Sight.sent (row.notice u)).reverse).filter Sight.loud =
      (told.map fun u => Sight.sent (row.notice u)).reverse := by
    refine List.filter_eq_self.mpr fun n hn => ?_
    obtain ⟨u,-,rfl⟩ := List.mem_map.mp (List.mem_reverse.mp hn)
    rfl
  rw [List.append_nil] at hrows ⊢
  rw [List.filter_append,hsent,List.filter_cons_of_pos rfl,List.filter_cons_of_pos rfl,hrows]
  simp [announcement]

theorem watched_notify {serverID : Option Nat} {title body category : String}
    {alertID : Option Nat} :
    Watched env base users pid
      (Raised users fun u => ⟨u,title,body,category,serverID,alertID⟩)
      (notify serverID title body category alertID) fun _ => Announced users := by
  let notice : String → Notification := fun u => ⟨u,title,body,category,serverID,alertID⟩
  refine Ledger.tells_bind (Q := fun answer ns => ∃ names, answer = .ok names ∧
    Telling users notice names ns) ?_ ?_
  · refine watched_perform (fun k h => by cases h) fun x b hx hJ hheard hb => ?_
    obtain ⟨row,ns',hns,hannounced,hnotice⟩ := hJ
    have hfault : x.state.now.fault = none := by
      simpa [Heard,Query.announces] using hheard
    rw [exec_none hfault] at hb
    subst hb
    refine ⟨users,congrArg Except.ok hx.users,row,[],ns',rfl,hannounced,hnotice,?_⟩
    rw [hns]
    simp [Query.sight,Query.raised,hfault,Query.row,Query.noticed,Query.effect,hx.users]
  · intro answer
    cases answer with
    | error e =>
      refine Ledger.tells_ret ?_
      rintro ns ⟨names,he,-⟩
      cases he
    | ok names =>
      refine Ledger.tells_mono (J := Telling users notice names) ?_ (fun _ _ => announced_told)
        (Ledger.tells_each fun u left => ?_)
      · rintro ns ⟨_,he,htold⟩
        obtain rfl := Except.ok.inj he
        exact htold
      · refine Ledger.tells_bind (Q := fun _ => Telling users notice left) ?_ fun _ =>
          Ledger.tells_ret fun _ h => h
        refine watched_perform (fun k h => by cases h) fun x b hx hJ hheard hb => ?_
        obtain ⟨row,told,ns',hall,hannounced,hnotice,hns⟩ := hJ
        have hfault : x.state.now.fault = none := by
          simpa [Heard,Query.announces] using hheard
        rw [exec_none hfault] at hb
        subst hb
        refine ⟨row,told ++ [u],ns',by simpa using hall,hannounced,hnotice,?_⟩
        rw [hns]
        simp [Query.sight,Query.raised,hfault,Query.row,Query.noticed,Query.effect,hnotice u,notice]

theorem watched_evaluate (ev : Rules.Event) :
    Watched env base users pid J (report env ev) fun _ => J := by
  unfold report
  split
  · exact watched_silent (fun d => ite_self _) (fun _ => rfl) rfl
  · exact Ledger.tells_ret fun _ hJ => hJ

theorem announced_quiet {n : Sight} {ns : List Sight} (hn : n.loud = false)
    (h : Announced users ns) : Announced users (n :: ns) := by
  obtain ⟨rows,hrows⟩ := h
  refine ⟨rows,?_⟩
  rw [List.filter_cons_of_neg (by simp [hn]),hrows]

theorem watched_count {q : Query (Except String Nat)} {k : Key}
    (hq : ∀ d b, q.sight _ d b = some (.counted k (answered b))) (hkey : q.key = none) :
    Watched env base users pid (Announced users) (perform q) fun answer ns =>
      Announced users ns ∧ (counted answer = 0 → Zero k ns) := by
  refine watched_perform (fun k h => ?_) fun x b _ hJ _ _ => ?_
  · rw [hkey] at h
    exact nomatch h
  · rw [hq]
    refine ⟨announced_quiet rfl hJ,fun hzero n hfind => ?_⟩
    have hfound : (Sight.counted k (answered b)) = .counted k (some n) := by
      simpa [Sight.counts] using hfind
    cases b with
    | error e => exact nomatch hfound
    | ok m =>
      obtain ⟨-,hm⟩ := Sight.counted.inj hfound
      rw [← Option.some.inj hm]
      exact hzero

theorem watched_insert {β : Type} {q : Query (Except String β)} {k : Key}
    (notice : β → String → Notification) (hkey : q.key = some k) (hsilent : ∀ b, q.noticed b = none)
    (hrefuse : ∀ o e, q.refuse o e = .error e)
    (hrow : ∀ o (s : Store), ∃ row b, q.row o s.alerts.next = some row ∧
      (q.effect o s).2 = .ok b ∧ ∀ u, row.notice u = notice b u) :
    Watched env base users pid (fun ns => Announced users ns ∧ Zero k ns) (perform q)
      fun answer ns => match answer with
        | .error _ => Announced users ns
        | .ok b => Raised users (notice b) ns := by
  refine watched_perform (fun k' hk' ns hJ => ?_) fun x b _ hJ _ hb => ?_
  · obtain rfl := Option.some.inj (hkey.symm.trans hk')
    exact hJ.2
  · cases hf : x.state.now.fault with
    | some e =>
      rw [exec_some hf,hrefuse] at hb
      subst hb
      rw [Query.sight,Query.raised,hf,hsilent]
      exact hJ.1
    | none =>
      obtain ⟨row,c,hr,hc,hnotice⟩ := hrow x.state.now x.state.store
      rw [exec_none hf,hc] at hb
      subst hb
      rw [Query.sight,Query.raised,hf,hr]
      exact ⟨row,_,rfl,hJ.1,hnotice⟩

theorem notice_webhook {serverID : Option Nat} {condition severity message fingerprint u : String}
    {now : Int} {id : Nat} :
    (webhookAlert serverID condition severity message fingerprint now id).notice u =
      ⟨u,severity ++ ": " ++ message,message,"alert",serverID,some id⟩ := rfl

theorem watched_fireAlert (serverID : Nat) (condition : String) (value threshold : Int)
    (severity message : String) :
    Watched env base users pid (Announced users)
      (fireAlert env serverID condition value threshold severity message) fun _ => Announced users := by
  refine Ledger.tells_bind (watched_count (k := .internal serverID condition)
    (fun d b => ?_) rfl) fun answer => ?_
  · cases hf : d.now.fault <;> simp [Query.sight,Query.raised,hf,Query.row,Query.noticed]
  · split
    · exact Ledger.tells_ret fun _ h => h.1
    · rename_i hn
      have hzero := Nat.eq_zero_of_not_pos hn
      refine Ledger.tells_mono (J := fun ns => Announced users ns ∧ Zero (.internal serverID condition) ns)
        (fun ns h => ⟨h.1,h.2 hzero⟩) (fun _ _ h => h) ?_
      refine Ledger.tells_bind (watched_insert
        (fun _ u => ⟨u,severity ++ ": " ++ message,message,"alert",some serverID,none⟩)
        rfl (fun _ => rfl) (fun _ _ => rfl) fun o s => ⟨_,_,rfl,rfl,fun _ => rfl⟩) fun stored => ?_
      cases stored with
      | error e => exact Ledger.tells_ret fun _ h => h
      | ok _ => exact Ledger.tells_bind watched_notify fun _ => watched_evaluate _

theorem watched_fireWebhook (a : WebhookAlert) (serverID : Option Nat) :
    Watched env base users pid (Announced users) (fireWebhook env a serverID)
      fun _ => Announced users := by
  refine Ledger.tells_bind (watched_count (k := .webhook a.fingerprint)
    (fun d b => ?_) rfl) fun answer => ?_
  · cases hf : d.now.fault <;> simp [Query.sight,Query.raised,hf,Query.row,Query.noticed]
  · split
    · exact Ledger.tells_ret fun _ h => h.1
    · rename_i hn
      have hzero := Nat.eq_zero_of_not_pos hn
      refine Ledger.tells_mono (J := fun ns => Announced users ns ∧ Zero (.webhook a.fingerprint) ns)
        (fun ns h => ⟨h.1,h.2 hzero⟩) (fun _ _ h => h) ?_
      refine Ledger.tells_bind (watched_insert
        (fun id u =>
          ⟨u,a.severity ++ ": " ++ a.message,a.message,"alert",serverID,some id⟩)
        rfl (fun _ => rfl) (fun _ _ => rfl) fun o s => ⟨_,_,rfl,rfl,fun _ => notice_webhook⟩)
        fun stored => ?_
      cases stored with
      | error e => exact Ledger.tells_ret fun _ h => h
      | ok id => exact Ledger.tells_bind watched_notify fun _ => watched_evaluate _

theorem watched_handle (r : Request) :
    Watched env base users pid (Announced users) (handle env r) fun _ => Announced users := by
  have hR : Closed fun {_} p => Watched env base users pid (Announced users) p
      fun _ => Announced users := Ledger.closed_tells (watching env base users) pid _
  have hplain : ∀ {β : Type} (q : Query β), q.plain →
      Watched env base users pid (Announced users) (perform q) fun _ => Announced users :=
    fun q h => watched_plain h
  have hquiet : ∀ {β : Type} (q : Query β), (∀ d, q.raised d = none) → (∀ b, q.noticed b = none) →
      q.key = none → Watched env base users pid (Announced users) (perform q)
        fun _ => Announced users := fun q h1 h2 h3 => watched_silent h1 h2 h3
  have hlive : ∀ serverID condition, Watched env base users pid (Announced users)
      (resolveAlert serverID condition) fun _ => Announced users := fun serverID condition =>
    hR.bind (hquiet _ (fun d => ite_self _) (fun _ => rfl) rfl) fun _ => hR.ret _
  have hresolve : ∀ serverID condition ev, Watched env base users pid (Announced users)
      (resolveReporting env serverID condition ev) fun _ => Announced users := by
    intro serverID condition ev
    refine hR.bind (hlive _ _) fun closed => ?_
    split
    · exact watched_evaluate ev
    · exact hR.ret _
  cases r with
  | sweep th =>
    refine hR.bind ?_ fun _ => hR.bind ?_ fun _ => hR.ret _
    · refine closed_checkOffline hR (hplain _ trivial) (fun _ => hplain _ trivial)
        (hplain _ trivial) (fun row => ?_) (fun id => hresolve _ _ _) th
      exact hR.bind (hplain _ trivial) fun _ => watched_fireAlert _ _ _ _ _ _
    · refine closed_checkMetricThresholds hR (hplain _ trivial) (fun _ => hplain _ trivial)
        (fun _ => hplain _ trivial) ?_ (fun id => ?_) th
      · exact closed_checkMetric hR (fun _ _ _ _ _ _ _ => watched_fireAlert _ _ _ _ _ _)
          fun _ _ _ _ _ _ => hresolve _ _ _
      · exact hR.bind (hlive _ _) fun _ => hR.bind (hlive _ _) fun _ => hR.bind (hlive _ _) fun _ =>
          hR.ret _
  | webhook authorised payload =>
    refine closed_webhook hR (fun _ => hplain _ trivial) (fun _ => hplain _ trivial)
      (fun a serverID _ => ?_) (fun a serverID _ => watched_fireWebhook a serverID)
      authorised payload
    refine hR.bind (hquiet _ (fun d => ite_self _) (fun _ => rfl) rfl) fun closed => ?_
    split
    · exact watched_evaluate _
    · exact hR.ret _
  | heartbeat agent =>
    exact closed_heartbeat hR (hplain _ trivial) (fun _ _ => hplain _ trivial) agent
  | ingestMetrics agent body =>
    exact closed_ingestMetrics hR (hplain _ trivial) (fun _ _ => hplain _ trivial)
      (fun _ => hplain _ trivial) (fun _ _ _ => hplain _ trivial) agent body
  | resolve id =>
    exact closed_resolve hR (hplain _ trivial) (fun now id =>
      hquiet _ (fun d => ite_self _) (fun _ => rfl) rfl) (fun _ => hplain _ trivial) id

end Reports

theorem one_live_alert (env : Env) (d : Database) (es : List (Event (incidents env)))
    (v : World (incidents env)) (hsingle : ∀ k, d.store.live k ≤ 1)
    (hunraced : Along (Landing Unraced) (begun d) es) (hheard : Along (Landing Heard) (begun d) es)
    (hv : (begun d).run es = some v) :
    (∀ k, v.state.state.store.live k ≤ 1) ∧
    (∀ a ∈ v.state.state.store.alerts.rows, d.store.alerts.next ≤ a.id → ∃ pid row,
      a = { row with status := a.status, resolvedAt := a.resolvedAt } ∧
      ∀ q row', (q,.raised row') ∈ v.state.log ∧ row'.id = a.id ↔ q = pid ∧ row' = row) ∧
    ∀ pid r a, .start pid r ∈ es → v.pool pid = some (.ret a) →
      Announced d.store.users (notesOf pid v.state.log) := by
  have hinit : Single d.store.alerts.next d.store.users ⟨d,[]⟩ :=
    ⟨hsingle,fun _ _ _ h => (nomatch h),rfl,Nat.le_refl _,by simp,.nil,fun a ha hid =>
      absurd (d.store.alerts.fresh a ha) (Nat.not_lt.mpr hid)⟩
  have hallow := along_imp (fun _ _ h => landing_and h) (along_and hunraced hheard)
  obtain ⟨hinv,hanswers⟩ := Ledger.told (L := watching env d.store.alerts.next d.store.users)
    (R := fun _ _ _ ns => Announced d.store.users ns) (fun pid r _ => Ledger.tells_mono
      (fun ns (h : ns = []) => h ▸ ⟨[],rfl⟩) (fun _ _ h => h) (watched_handle r))
    (fun e => e.elim) hinit hallow hv
  refine ⟨hinv.one,fun a ha hid => ?_,hanswers⟩
  obtain ⟨pid,row,hlog,hsame⟩ := hinv.raised a ha hid
  refine ⟨pid,row,hsame,fun q row' => ⟨?_,?_⟩⟩
  · rintro ⟨hlog',hid'⟩
    have hid'' : row'.id = row.id := hid'.trans (by rw [hsame])
    obtain ⟨rfl,he⟩ := Prod.mk.inj (apart_unique hinv.once hlog' hlog rfl rfl hid'')
    exact ⟨rfl,Sight.raised.inj he⟩
  · rintro ⟨rfl,rfl⟩
    refine ⟨hlog,?_⟩
    rw [hsame]

section Runs

variable {env : Env}

instance unracedDecidable (pid : Nat) (x : Traced Database Sight) (β : Type) (q : Query β) :
    Decidable (Unraced pid x q) := inferInstanceAs (Decidable (_ = true))

instance heardDecidable (pid : Nat) (x : Traced Database Sight) (β : Type) (q : Query β) :
    Decidable (Heard pid x q) := inferInstanceAs (Decidable (_ = false))

instance unracedLanding (w : World (incidents env)) (e : Event (incidents env)) :
    Decidable (Landing Unraced w e) :=
  landingDecidable (S := incidents env) Unraced (h := unracedDecidable) w e

instance heardLanding (w : World (incidents env)) (e : Event (incidents env)) :
    Decidable (Landing Heard w e) :=
  landingDecidable (S := incidents env) Heard (h := heardDecidable) w e

def twoUsers : Database :=
  ⟨{ Store.empty with users := ["alice","bob"] },0,fun _ => ⟨none,0,0,0⟩⟩

theorem live_twoUsers (k : Key) : twoUsers.store.live k ≤ 1 := Nat.zero_le 1

def diskFull : WebhookAlert := ⟨"firing",[("alertname","DiskFull")],[],"fp"⟩

def deliveries : List (Event (incidents plain)) :=
  [.start 0 (.webhook true (some [diskFull])),.start 1 (.webhook true (some [diskFull]))]

def retried : List (Event (incidents plain)) :=
  deliveries ++ [.act 0,.act 0,.act 1,.act 0,.act 0,.act 0,.act 0]

def delivered (w : World (incidents env)) :
    Option Reply × Option Reply × List Notification × List String :=
  (w.answer 0,w.answer 1,w.state.state.store.notifications,
    w.state.state.store.alerts.rows.map Alert.fingerprint)

theorem retry_notifies_once :
    Along (Landing Unraced) (begun twoUsers) retried ∧ Along (Landing Heard) (begun twoUsers) retried ∧
    ∃ v : World (incidents plain), (begun twoUsers).run retried = some v ∧
      v.answer 1 = some (.received 1) ∧
      v.state.state.store.notifications.map Notification.username = ["alice","bob"] ∧
      (∀ k, v.state.state.store.live k ≤ 1) ∧
      Announced ["alice","bob"] (notesOf 0 v.state.log) := by
  have hunraced : Along (Landing Unraced) (begun twoUsers) retried := by decide
  have hheard : Along (Landing Heard) (begun twoUsers) retried := by decide
  have hrun : ((begun twoUsers).run retried).map delivered = some (some (.received 1),
      some (.received 1),["alice","bob"].map fun u => ⟨u,"WARNING: DiskFull firing on ",
        "DiskFull firing on ","alert",none,some 0⟩,["fp"]) := by
    decide
  obtain ⟨v,hv,hdelivered⟩ := Option.map_eq_some_iff.mp hrun
  obtain ⟨hfirst,hrest⟩ := Prod.mk.inj hdelivered
  obtain ⟨hsecond,hrest⟩ := Prod.mk.inj hrest
  obtain ⟨hsent,-⟩ := Prod.mk.inj hrest
  obtain ⟨hlive,-,htold⟩ := one_live_alert plain twoUsers retried v live_twoUsers hunraced hheard hv
  refine ⟨hunraced,hheard,v,hv,hsecond,by rw [hsent]; rfl,hlive,?_⟩
  exact htold 0 (.webhook true (some [diskFull])) (.received 1) (by simp [retried,deliveries])
    (World.answer_eq.mp hfirst)

theorem replicas_raise_twice :
    ¬ ∀ (env : Env) (d : Database) (es : List (Event (incidents env))) (v : World (incidents env)),
      (∀ n, (d.outside n).fault = none) → (∀ k, d.store.live k ≤ 1) → (begun d).run es = some v →
        ∀ k, v.state.state.store.live k ≤ 1 := by
  intro h
  have hrun : ((begun twoUsers).run (deliveries ++ [.act 0,.act 1,.act 0,.act 1])).map
      (fun v : World (incidents plain) => v.state.state.store.live (.webhook "fp")) = some 2 := by
    decide
  obtain ⟨v,hv,hcount⟩ := Option.map_eq_some_iff.mp hrun
  have hone := h plain twoUsers _ v (fun _ => rfl) live_twoUsers hv (.webhook "fp")
  omega

end Runs

end Alerting
