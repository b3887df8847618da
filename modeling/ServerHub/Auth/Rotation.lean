import ServerHub.Auth.Requests
import ServerHub.Interleave.Transcript

namespace Auth

open Go Relational Interleave Interleave.Prog

inductive Act where
  | presented (row : Option RefreshToken)
  | claimed (row : RefreshToken)
  | lost
  | purged (username : String) (leeway : Int) (existing : Nat)
  | unpurged (username : String) (leeway : Int)
  | other
deriving DecidableEq

structure Entry where
  tick : Nat
  act : Act
  ended : List RefreshToken
deriving DecidableEq

def Store.ended (s t : Store) : List RefreshToken :=
  s.tokens.rows.filter fun r => !r.revoked && t.tokens.rows.any fun a => a.id == r.id && a.revoked

namespace Query

def act : {β : Type} → Query β → Database → β → Act
  | _, .loadToken _, _, .ok row => .presented (some row)
  | _, .loadToken _, _, .error _ => .presented none
  | _, .claimToken tokenHash, d, .ok _ =>
      match d.store.validToken tokenHash with
      | some row => .claimed row
      | none => .lost
  | _, .revokeAllRefreshesExceptRecent username leeway, d, .ok _ =>
      .purged username leeway d.store.tokens.next
  | _, .revokeAllRefreshesExceptRecent username leeway, _, .error _ => .unpurged username leeway
  | _, _, _, _ => .other

def entry (β : Type) (q : Query β) (d : Database) (b : β) : Option Entry :=
  some ⟨d.tick,q.act d b,d.store.ended (q.exec d).1.store⟩

end Query

abbrev exchanges (env : Env) : System := (accounts env).observe Query.entry

def Outside.recent (o : Outside) (leeway : Int) : Int := o.current - recentSeconds leeway * second

structure Spent (outside : Nat → Outside) (x : Traced Database Entry) : Prop where
  world : x.state.outside = outside
  ticks : ∀ e ∈ x.log, e.2.tick < x.state.tick
  ordered : x.log.Pairwise fun a b => b.2.tick < a.2.tick
  spent : ∀ e ∈ x.log, ∀ r, e.2.act = .claimed r → r.id < x.state.store.tokens.next ∧
    ∀ t ∈ x.state.store.tokens.rows, t.id = r.id → t.revoked = true
  once : x.log.Pairwise fun a b => ∀ r r', a.2.act = .claimed r → b.2.act = .claimed r' → r.id ≠ r'.id
  purged : ∀ e ∈ x.log, ∀ username leeway existing, e.2.act = .purged username leeway existing →
    existing ≤ x.state.store.tokens.next ∧ ∀ t ∈ x.state.store.tokens.rows, t.id < existing →
      t.username = username → t.createdAt < (outside e.2.tick).recent leeway → t.revoked = true
  dated : ∀ e ∈ x.log, ∀ username leeway existing, e.2.act = .purged username leeway existing →
    ∀ t ∈ x.state.store.tokens.rows, existing ≤ t.id →
      ∃ n, e.2.tick ≤ n ∧ t.createdAt = (outside n).current

section Steps

variable {env : Env} {outside : Nat → Outside} {pid : Nat} {x y : Traced Database Entry} {β : Type}
  {q : Query β} {b : β}

def Settles (s t : Store) : Prop :=
  s.tokens.next ≤ t.tokens.next ∧ ∀ r ∈ t.tokens.rows, r.id < s.tokens.next →
    ∃ a ∈ s.tokens.rows, r = { a with revoked := r.revoked } ∧ (a.revoked = true → r.revoked = true)

theorem settles_exec (q : Query β) (d : Database) : Settles d.store (q.exec d).1.store := by
  have hgrown : ∀ {s t : Store} {tokenHash username : String}, Grows s t tokenHash username →
      Settles s t := by
    intro s t tokenHash username hg
    refine ⟨by rw [hg.next]; exact Nat.le_succ _,fun r hr hlt => ?_⟩
    rcases hg.rows r hr with hold | ⟨hid,-⟩
    · exact ⟨r,hold,rfl,id⟩
    · omega
  have hshrunk : ∀ {s t : Store}, Shrinks s t → Settles s t :=
    fun hs => ⟨Nat.le_of_eq hs.next.symm,fun r hr _ => hs.rows r hr⟩
  cases q with
  | storeRefresh tokenHash username expiresAt =>
    rcases exec_storeRefresh tokenHash username expiresAt d with ⟨-,hs⟩ | ⟨-,hg⟩
    · exact hshrunk hs
    · exact hgrown hg
  | _ => exact hshrunk (exec_shrinks rfl d)

theorem exec_exchanges (h : (exchanges env).exec pid q x = some (y,b)) :
    y.state = (q.exec x.state).1 ∧ b = (q.exec x.state).2 ∧
      y.log = (pid,⟨x.state.tick,q.act x.state b,
        x.state.store.ended (q.exec x.state).1.store⟩) :: x.log := by
  obtain ⟨hexec,hlog⟩ := exec_observe h
  obtain ⟨hstate,hanswer⟩ := Prod.mk.inj (Option.some.inj hexec)
  exact ⟨hstate.symm,hanswer.symm,hlog⟩

theorem created_exec (q : Query β) (d : Database) {t : RefreshToken}
    (ht : t ∈ (q.exec d).1.store.tokens.rows) (hnew : d.store.tokens.next ≤ t.id) :
    t.createdAt = d.now.current := by
  have hshrunk : Shrinks d.store (q.exec d).1.store → t.createdAt = d.now.current := by
    intro hs
    obtain ⟨a,ha,hsame,-⟩ := hs.rows t ht
    have haid : t.id = a.id := by rw [hsame]
    have hlt : a.id < d.store.tokens.next := d.store.tokens.fresh a ha
    omega
  cases q with
  | storeRefresh tokenHash username expiresAt =>
    rcases exec_storeRefresh tokenHash username expiresAt d with ⟨-,hs⟩ | ⟨hok,-⟩
    · exact hshrunk hs
    · obtain ⟨-,hstored,hstore⟩ := exec_ok (by simp [Query.refuse]) hok
      rw [hstore] at ht
      simp only [Query.effect,Store.storeRefresh] at ht hstored
      split at ht
      · rename_i htaken
        rw [dif_pos htaken] at hstored
        cases hstored
      · rcases Serial.mem_insert.mp ht with hold | rfl
        · have hlt : t.id < d.store.tokens.next := d.store.tokens.fresh t hold
          omega
        · rfl
  | _ => exact hshrunk (exec_shrinks rfl d)

theorem exec_tick (q : Query β) (d : Database) :
    (q.exec d).1.tick = d.tick + 1 ∧ (q.exec d).1.outside = d.outside := by
  unfold Query.exec
  split <;> exact ⟨rfl,rfl⟩

theorem id_unique {s : Store} {a c : RefreshToken} (ha : a ∈ s.tokens.rows) (hc : c ∈ s.tokens.rows)
    (h : a.id = c.id) : a = c := List.inj_on_of_nodup_map s.tokens.nodup ha hc h

theorem act_claimed {d : Database} {r : RefreshToken} (h : q.act d b = .claimed r)
    (hb : b = (q.exec d).2) : r ∈ d.store.tokens.rows ∧ r.revoked = false ∧
      ∀ t ∈ (q.exec d).1.store.tokens.rows, t.id = r.id → t.revoked = true := by
  cases q with
  | claimToken tokenHash =>
    cases b with
    | error e => cases h
    | ok n =>
      obtain ⟨-,-,hstore⟩ := exec_ok (by simp [Query.refuse]) hb.symm
      simp only [Query.act] at h
      cases hv : d.store.validToken tokenHash with
      | none =>
        rw [hv] at h
        cases h
      | some row =>
        rw [hv] at h
        obtain rfl := Act.claimed.inj h
        obtain ⟨hrow,hhash,hvalid⟩ := claimed_valid hv
        refine ⟨hrow,hvalid,fun t ht hid => ?_⟩
        rw [hstore] at ht
        obtain ⟨a,ha,rfl⟩ := Serial.mem_modify.mp ht
        split
        · rfl
        · rename_i hopen
          rw [if_neg hopen] at hid
          obtain rfl := id_unique ha hrow hid
          simp [hhash,hvalid] at hopen
  | loadToken tokenHash => cases b <;> cases h
  | _ => cases b <;> cases h

theorem act_purged {d : Database} {username : String} {leeway : Int} {existing : Nat}
    (h : q.act d b = .purged username leeway existing) (hb : b = (q.exec d).2) :
    existing = d.store.tokens.next ∧ ∀ t ∈ (q.exec d).1.store.tokens.rows, t.username = username →
      t.createdAt < d.now.recent leeway → t.revoked = true := by
  cases q with
  | revokeAllRefreshesExceptRecent owner spared =>
    cases b with
    | error e => cases h
    | ok _ =>
      obtain ⟨rfl,rfl,rfl⟩ := Act.purged.inj h
      obtain ⟨-,-,hstore⟩ := exec_ok (by simp [Query.refuse]) hb.symm
      refine ⟨rfl,fun t ht hname hold => ?_⟩
      rw [hstore] at ht
      obtain ⟨a,ha,rfl⟩ := Serial.mem_modify.mp ht
      split
      · rfl
      · rename_i hspared
        rw [if_neg hspared] at hname hold
        simp only [RefreshToken.oldOf,hname,beq_self_eq_true,Bool.true_and,decide_eq_true_eq] at hspared
        exact absurd hold hspared
  | claimToken tokenHash =>
    cases b with
    | error e => cases h
    | ok n =>
      simp only [Query.act] at h
      split at h <;> cases h
  | _ => cases b <;> cases h

theorem Spent.exec (hx : Spent outside x) (h : (exchanges env).exec pid q x = some (y,b)) :
    Spent outside y := by
  obtain ⟨hstate,hb,hlog⟩ := exec_exchanges h
  obtain ⟨hnext,hrows⟩ := settles_exec q x.state
  obtain ⟨htick,hworld⟩ := exec_tick q x.state
  rw [← hstate] at hnext hrows htick hworld
  have hkept : ∀ t ∈ y.state.store.tokens.rows, t.id < x.state.store.tokens.next →
      ∃ a ∈ x.state.store.tokens.rows, t = { a with revoked := t.revoked } ∧
        (a.revoked = true → t.revoked = true) := hrows
  refine ⟨hworld.trans hx.world,?_,?_,?_,?_,?_,?_⟩
  · intro e he
    rw [hlog] at he
    rw [htick]
    rcases List.mem_cons.mp he with rfl | he
    · exact Nat.lt_succ_self _
    · exact Nat.lt_succ_of_lt (hx.ticks e he)
  · rw [hlog]
    exact .cons (fun e he => hx.ticks e he) hx.ordered
  · intro e he r hr
    rw [hlog] at he
    rcases List.mem_cons.mp he with rfl | he
    · obtain ⟨hmem,-,hdead⟩ := act_claimed hr hb
      rw [hstate]
      exact ⟨Nat.lt_of_lt_of_le (x.state.store.tokens.fresh r hmem) (hstate ▸ hnext),hdead⟩
    · obtain ⟨hlt,hdead⟩ := hx.spent e he r hr
      refine ⟨Nat.lt_of_lt_of_le hlt hnext,fun t ht hid => ?_⟩
      obtain ⟨a,ha,hsame,hrevoked⟩ := hkept t ht (hid ▸ hlt)
      have haid : t.id = a.id := by rw [hsame]
      exact hrevoked (hdead a ha (haid.symm.trans hid))
  · rw [hlog]
    refine .cons (fun e he r r' hr hr' hid => ?_) hx.once
    obtain ⟨hmem,hvalid,-⟩ := act_claimed hr hb
    rw [(hx.spent e he r' hr').2 r hmem hid] at hvalid
    exact nomatch hvalid
  · intro e he username leeway existing hp
    rw [hlog] at he
    rcases List.mem_cons.mp he with rfl | he
    · obtain ⟨rfl,hdead⟩ := act_purged hp hb
      refine ⟨hnext,fun t ht _ hname hold => ?_⟩
      rw [hstate] at ht
      refine hdead t ht hname ?_
      rw [Database.now,hx.world]
      exact hold
    · obtain ⟨hle,hdead⟩ := hx.purged e he username leeway existing hp
      refine ⟨Nat.le_trans hle hnext,fun t ht hid hname hold => ?_⟩
      obtain ⟨a,ha,hsame,hrevoked⟩ := hkept t ht (Nat.lt_of_lt_of_le hid hle)
      have haid : t.id = a.id := by rw [hsame]
      have haname : t.username = a.username := by rw [hsame]
      have hacreated : t.createdAt = a.createdAt := by rw [hsame]
      exact hrevoked (hdead a ha (haid ▸ hid) (haname ▸ hname) (hacreated ▸ hold))
  · intro e he username leeway existing hp t ht hid
    have hlater : e.2.tick ≤ x.state.tick := by
      rw [hlog] at he
      rcases List.mem_cons.mp he with rfl | he
      · exact Nat.le_refl _
      · exact Nat.le_of_lt (hx.ticks e he)
    rcases Nat.lt_or_ge t.id x.state.store.tokens.next with hlt | hge
    · rw [hlog] at he
      rcases List.mem_cons.mp he with rfl | he
      · obtain ⟨rfl,-⟩ := act_purged hp hb
        omega
      · obtain ⟨a,ha,hsame,-⟩ := hkept t ht hlt
        have haid : t.id = a.id := by rw [hsame]
        have hacreated : t.createdAt = a.createdAt := by rw [hsame]
        rw [hacreated]
        exact hx.dated e he username leeway existing hp a ha (haid ▸ hid)
    · rw [hstate] at ht
      refine ⟨x.state.tick,hlater,?_⟩
      rw [created_exec q x.state ht hge,Database.now,hx.world]

end Steps

def Query.Reported (outside : Nat → Outside) {β : Type} (q : Query β) (b : β) (e : Entry) : Prop :=
  match q, b with
  | .loadToken _, .ok row => e.act = .presented (some row) ∧ e.ended = []
  | .loadToken _, .error _ => e.act = .presented none ∧ e.ended = []
  | .clock, now => e.act = .other ∧ e.ended = [] ∧ now = (outside e.tick).clock
  | .claimToken _, .error _ => e.act = .other ∧ e.ended = []
  | .claimToken _, .ok 0 => e.act = .lost ∧ e.ended = []
  | .claimToken tokenHash, .ok _ => ∃ won, e.act = .claimed won ∧ won.tokenHash = tokenHash
  | .revokeAllRefreshesExceptRecent username leeway, .error _ =>
      e.act = .unpurged username leeway ∧ e.ended = [] ∧ (outside e.tick).fault ≠ none
  | .revokeAllRefreshesExceptRecent username leeway, .ok _ =>
      (∃ existing, e.act = .purged username leeway existing) ∧
        ∀ t ∈ e.ended, t.createdAt < (outside e.tick).recent leeway
  | .revokeRefresh _, _ | .revokeAllRefreshes _, _ => e.act = .other
  | _, _ => e.act = .other ∧ e.ended = []

def Query.Reports (outside : Nat → Outside) (β : Type) (q : Query β) (b : β) (n : Option Entry) :
    Prop :=
  ∃ e, n = some e ∧ q.Reported outside b e

structure Settled (outside : Nat → Outside) (tokenHash : String) (o : Option RefreshToken)
    (ns : List Entry) (a : Reply) : Prop where
  silent : ∀ e ∈ ns, ∀ o, e.act ≠ .presented o
  exchanged : a.status = 200 → ∃ row, o = some row ∧ row.revoked = false ∧
    (∃ e ∈ ns, (outside e.tick).clock ≤ row.expiresAt) ∧
    ∃ e ∈ ns, ∃ won, e.act = .claimed won ∧ won.tokenHash = tokenHash
  expelled : ∀ row, o = some row → row.revoked = true ∨ (∃ e ∈ ns, e.act = .lost) →
    (∀ e ∈ ns, ∀ t ∈ e.ended, t.createdAt < (outside e.tick).recent reuseLeeway) ∧
    ∃ e ∈ ns, (∃ existing, e.act = .purged row.username reuseLeeway existing) ∨
      e.act = .unpurged row.username reuseLeeway ∧ (outside e.tick).fault ≠ none

def Refreshed (outside : Nat → Outside) (tokenHash : String) (ns : List Entry) (a : Reply) : Prop :=
  (ns = [] ∧ a.status ≠ 200) ∨ ∃ later first o, ns = later ++ [first] ∧
    first.act = .presented o ∧ first.ended = [] ∧ Settled outside tokenHash o later a

section Transcripts

variable {env : Env} {outside : Nat → Outside} {x y : Traced Database Entry} {β : Type}
  {q : Query β} {b : β} {d : Database}

theorem ended_nil {s t : Store} (h : ∀ a ∈ t.tokens.rows, a.revoked = true →
    a ∈ s.tokens.rows ∨ s.tokens.next ≤ a.id) : s.ended t = [] := by
  refine List.filter_eq_nil_iff.mpr fun r hr hended => ?_
  rw [Bool.and_eq_true,Bool.not_eq_true'] at hended
  obtain ⟨a,ha,hboth⟩ := List.any_eq_true.mp hended.2
  rw [Bool.and_eq_true,beq_iff_eq] at hboth
  rcases h a ha hboth.2 with hold | hnew
  · rw [← id_unique hold hr hboth.1,hboth.2] at hended
    exact nomatch hended.1
  · have hlt := s.tokens.fresh r hr
    have hid : Keyed.key r = a.id := hboth.1.symm
    omega

theorem ended_same {s t : Store} (h : t.tokens = s.tokens) : s.ended t = [] := by
  refine ended_nil fun a ha _ => .inl ?_
  rw [← h]
  exact ha

theorem ended_storeRefresh (tokenHash username : String) (expiresAt : Int) (d : Database) :
    d.store.ended ((Query.storeRefresh tokenHash username expiresAt).exec d).1.store = [] := by
  unfold Query.exec
  cases d.now.fault with
  | some e => exact ended_same rfl
  | none =>
    simp only [Query.effect,Store.storeRefresh]
    split
    · exact ended_same rfl
    · refine ended_nil fun a ha _ => ?_
      rcases Serial.mem_insert.mp ha with hold | rfl
      · exact .inl hold
      · exact .inr (Nat.le_refl _)

theorem ended_revoke {s : Store} {p : RefreshToken → Bool} {r : RefreshToken}
    (h : r ∈ s.ended (s.revoke p)) : r ∈ s.tokens.rows ∧ p r = true := by
  obtain ⟨hr,hended⟩ := List.mem_filter.mp h
  rw [Bool.and_eq_true,Bool.not_eq_true'] at hended
  obtain ⟨a,ha,hboth⟩ := List.any_eq_true.mp hended.2
  rw [Bool.and_eq_true,beq_iff_eq] at hboth
  obtain ⟨c,hc,rfl⟩ := Serial.mem_modify.mp ha
  refine ⟨hr,?_⟩
  by_cases hp : p c = true
  · rw [if_pos hp] at hboth
    rw [← id_unique hc hr hboth.1]
    exact hp
  · rw [if_neg hp] at hboth
    rw [← id_unique hc hr hboth.1,hboth.2] at hended
    exact nomatch hended.1

theorem ended_fault (q : Query β) {e : String} (h : d.now.fault = some e) :
    d.store.ended (q.exec d).1.store = [] := by
  unfold Query.exec
  rw [h]
  exact ended_same rfl

theorem reports_claimToken {tokenHash : String} {answer : Except String Nat}
    (hb : answer = ((Query.claimToken tokenHash).exec d).2) :
    Query.Reports d.outside _ (.claimToken tokenHash) answer
      ((Query.claimToken tokenHash).entry _ d answer) := by
  refine ⟨_,rfl,?_⟩
  cases answer with
  | error e =>
    refine ⟨rfl,?_⟩
    cases hf : d.now.fault with
    | some e => exact ended_fault _ hf
    | none =>
      unfold Query.exec at hb
      rw [hf] at hb
      exact nomatch hb
  | ok n =>
    obtain ⟨hf,hok,hstore⟩ := exec_ok (by simp [Query.refuse]) hb.symm
    cases n with
    | zero =>
      have hnone : ∀ t ∈ d.store.tokens.rows, ¬ (t.tokenHash == tokenHash && !t.revoked) = true :=
        List.countP_eq_zero.mp (Except.ok.inj hok)
      have hlost : d.store.validToken tokenHash = none := List.find?_eq_none.mpr hnone
      refine ⟨by simp only [Query.act,hlost],?_⟩
      rw [hstore]
      refine List.eq_nil_iff_forall_not_mem.mpr fun r hr => ?_
      obtain ⟨hmem,hvalid⟩ := ended_revoke hr
      exact hnone r hmem hvalid
    | succ n =>
      obtain ⟨won,hwon⟩ := claimed_once hb
      exact ⟨won,by simp only [Query.act,hwon],(claimed_valid hwon).2.1⟩

theorem reports_purge {username : String} {leeway : Int} {answer : Except String Unit}
    (hb : answer = ((Query.revokeAllRefreshesExceptRecent username leeway).exec d).2) :
    Query.Reports d.outside _ (.revokeAllRefreshesExceptRecent username leeway) answer
      ((Query.revokeAllRefreshesExceptRecent username leeway).entry _ d answer) := by
  refine ⟨_,rfl,?_⟩
  cases answer with
  | error e =>
    cases hf : d.now.fault with
    | some e =>
      refine ⟨rfl,ended_fault _ hf,fun hnone => ?_⟩
      rw [Database.now,hnone] at hf
      exact nomatch hf
    | none =>
      unfold Query.exec at hb
      rw [hf] at hb
      exact nomatch hb
  | ok _ =>
    obtain ⟨-,-,hstore⟩ := exec_ok (by simp [Query.refuse]) hb.symm
    refine ⟨⟨_,rfl⟩,fun t ht => ?_⟩
    rw [hstore] at ht
    have hold := (ended_revoke ht).2
    rw [RefreshToken.oldOf,Bool.and_eq_true,decide_eq_true_eq] at hold
    exact hold.2

theorem ended_effect (h : ∀ o s, ∀ a ∈ (q.effect o s).1.tokens.rows, a ∈ s.tokens.rows) :
    d.store.ended (q.exec d).1.store = [] := by
  unfold Query.exec
  cases d.now.fault with
  | some e => exact ended_same rfl
  | none => exact ended_nil fun a ha _ => .inl (h _ _ a ha)

theorem reports_exec (hb : b = (q.exec d).2) : q.Reports d.outside β b (q.entry β d b) := by
  have hquiet : (∀ o s, ∀ a ∈ (q.effect o s).1.tokens.rows, a ∈ s.tokens.rows) →
      d.store.ended (q.exec d).1.store = [] := ended_effect
  cases q with
  | claimToken tokenHash => exact reports_claimToken hb
  | revokeAllRefreshesExceptRecent username leeway => exact reports_purge hb
  | loadToken tokenHash =>
    have hended := hquiet fun _ _ _ ha => ha
    cases b with
    | error e => exact ⟨_,rfl,rfl,hended⟩
    | ok row => exact ⟨_,rfl,rfl,hended⟩
  | storeRefresh tokenHash username expiresAt =>
    have hended := ended_storeRefresh tokenHash username expiresAt d
    cases b <;> exact ⟨_,rfl,rfl,hended⟩
  | insertUser username hash role =>
    have hended := hquiet fun o s a ha => by
      rwa [Query.effect,tokens_insertUser] at ha
    cases b <;> exact ⟨_,rfl,rfl,hended⟩
  | deleteToken tokenHash =>
    have hended := hquiet fun _ _ _ ha => (Serial.mem_remove.mp ha).1
    cases b <;> exact ⟨_,rfl,rfl,hended⟩
  | clock =>
    refine ⟨_,rfl,rfl,hquiet fun _ _ _ ha => ha,?_⟩
    rw [hb]
    unfold Query.exec
    split <;> rfl
  | revokeRefresh tokenHash => cases b <;> exact ⟨_,rfl,rfl⟩
  | revokeAllRefreshes username => cases b <;> exact ⟨_,rfl,rfl⟩
  | _ =>
    have hended := hquiet fun _ _ _ ha => ha
    cases b <;> exact ⟨_,rfl,rfl,hended⟩

section Refreshes

variable {tokenHash username : String} {o : Option RefreshToken} {ns : List Entry} {a : Reply}
  {α : Type} {Q : List Entry → α → Prop}

abbrev Told (outside : Nat → Outside) {α : Type} (Q : List Entry → α → Prop) (p : Prog Query α)
    (ns : List Entry) : Prop :=
  p.Yields (Query.Reports outside) (fun _ => True) Q ns

theorem told_any (p : Prog Query α) (ns : List Entry) : Told outside (fun _ _ => True) p ns := by
  induction p generalizing ns with
  | ret a => trivial
  | step q f ih => exact fun b n _ => ⟨fun _ _ => trivial,ih b _⟩

theorem told_perform {f : β → Prog Query α}
    (h : ∀ b e, q.Reported outside b e → Told outside Q (f b) (e :: ns)) :
    Told outside Q (perform q >>= f) ns := by
  rintro b n ⟨e,rfl,he⟩
  exact ⟨fun _ _ => trivial,h b e he⟩

theorem told_issuePair {role : Role} {f : Except String (String × String) → Handler α}
    (h : ∀ pair later, (∀ e ∈ later, e.act = .other) → Told outside Q (f pair) (later ++ ns)) :
    Told outside Q (issuePair env username role >>= f) ns := by
  refine told_perform fun access e1 h1 => ?_
  cases access with
  | error e => exact h _ [e1] (by simp [h1.1])
  | ok access =>
    refine told_perform fun refresh e2 h2 => ?_
    cases refresh with
    | error e => exact h _ [e2,e1] (by simp [h1.1,h2.1])
    | ok refresh =>
      refine told_perform fun now e3 h3 => told_perform fun stored e4 h4 => ?_
      have hall : ∀ e ∈ [e4,e3,e2,e1], e.act = .other := by
        simp [h1.1,h2.1,h3.1,h4.1]
      cases stored with
      | error e => exact h _ [e4,e3,e2,e1] hall
      | ok _ => exact h _ [e4,e3,e2,e1] hall

theorem settled_refused (hstatus : a.status ≠ 200) (hsilent : ∀ e ∈ ns, ∀ o, e.act ≠ .presented o)
    (hkept : ∀ e ∈ ns, e.act ≠ .lost) (hvalid : ∀ row, o = some row → row.revoked = false) :
    Settled outside tokenHash o ns a := by
  refine ⟨hsilent,fun h => absurd h hstatus,fun row ho hreused => ?_⟩
  rcases hreused with hrevoked | ⟨e,he,hlost⟩
  · rw [hvalid row ho] at hrevoked
    exact nomatch hrevoked
  · exact absurd hlost (hkept e he)

theorem told_expelReused {Q : List Entry → Reply → Prop}
    (h : ∀ e, (∀ o, e.act ≠ .presented o) →
      (∀ t ∈ e.ended, t.createdAt < (outside e.tick).recent reuseLeeway) →
      ((∃ existing, e.act = .purged username reuseLeeway existing) ∨
        e.act = .unpurged username reuseLeeway ∧ (outside e.tick).fault ≠ none) → Q (e :: ns) (.expelled "invalid session")) :
    Told outside Q (expelReused username) ns := by
  refine told_perform fun answer e he => ?_
  cases answer with
  | error refused =>
    obtain ⟨hact,hended,hfault⟩ := he
    refine h e ?_ ?_ (.inr ⟨hact,hfault⟩)
    · simp [hact]
    · simp [hended]
  | ok _ =>
    obtain ⟨⟨existing,hact⟩,hended⟩ := he
    refine h e ?_ hended (.inl ⟨existing,hact⟩)
    simp [hact]

theorem settled_expelled {e : Entry} {row : RefreshToken} (ho : o = some row)
    (hsilent : ∀ e ∈ ns, ∀ o, e.act ≠ .presented o) (hquiet : ∀ e ∈ ns, e.ended = [])
    (he : ∀ o, e.act ≠ .presented o)
    (hold : ∀ t ∈ e.ended, t.createdAt < (outside e.tick).recent reuseLeeway)
    (hpurged : (∃ existing, e.act = .purged row.username reuseLeeway existing) ∨
      e.act = .unpurged row.username reuseLeeway ∧ (outside e.tick).fault ≠ none) :
    Settled outside tokenHash o (e :: ns) (.expelled "invalid session") := by
  refine ⟨?_,fun h => absurd h (by decide),fun row' ho' _ => ⟨?_,e,List.mem_cons_self,?_⟩⟩
  · intro e' he'
    rcases List.mem_cons.mp he' with rfl | he'
    · exact he
    · exact hsilent e' he'
  · intro e' he' t ht
    rcases List.mem_cons.mp he' with rfl | he'
    · exact hold t ht
    · rw [hquiet e' he'] at ht
      exact nomatch ht
  · rw [ho] at ho'
    rw [← Option.some.inj ho']
    exact hpurged

theorem told_rotate {first e2 e3 : Entry} {role : Role} {row : RefreshToken}
    (hfirst : first.act = .presented (some row) ∧ first.ended = []) (hvalid : row.revoked = false)
    (h2 : e2.act = .other ∧ e2.ended = []) (h3 : e3.act = .other ∧ e3.ended = [])
    (hnow : (outside e2.tick).clock ≤ row.expiresAt) :
    Told outside (Refreshed outside tokenHash) (rotate env tokenHash row.username role)
      [e3,e2,first] := by
  refine told_perform fun claimed e4 h4 => ?_
  rcases claimed with e | _ | n
  · refine .inr ⟨[e4,e3,e2],first,some row,rfl,hfirst.1,hfirst.2,?_⟩
    refine settled_refused (by decide) ?_ ?_ ?_
    · simp [h4.1,h3.1,h2.1]
    · simp [h4.1,h3.1,h2.1]
    · rintro _ ⟨⟩
      exact hvalid
  · refine told_expelReused fun e5 h5 hold hpurged => ?_
    refine .inr ⟨[e5,e4,e3,e2],first,some row,rfl,hfirst.1,hfirst.2,?_⟩
    refine settled_expelled rfl ?_ ?_ h5 hold hpurged
    · simp [h4.1,h3.1,h2.1]
    · simp [h4.2,h3.2,h2.2]
  · obtain ⟨won,hwon,hhash⟩ := h4
    refine told_issuePair fun pair later hlater => ?_
    have hsilent : ∀ e ∈ later ++ [e4,e3,e2], ∀ o, e.act ≠ .presented o := by
      have hown : ∀ e ∈ [e4,e3,e2], ∀ o, e.act ≠ .presented o := by
        simp [hwon,h3.1,h2.1]
      intro e he
      rcases List.mem_append.mp he with he | he
      · simp [hlater e he]
      · exact hown e he
    have hkept : ∀ e ∈ later ++ [e4,e3,e2], e.act ≠ .lost := by
      have hown : ∀ e ∈ [e4,e3,e2], e.act ≠ .lost := by
        simp [hwon,h3.1,h2.1]
      intro e he
      rcases List.mem_append.mp he with he | he
      · simp [hlater e he]
      · exact hown e he
    have hclaimed : e4 ∈ later ++ [e4,e3,e2] := by simp
    have hchecked : e2 ∈ later ++ [e4,e3,e2] := by simp
    cases pair with
    | error e =>
      refine .inr ⟨later ++ [e4,e3,e2],first,some row,by simp,hfirst.1,hfirst.2,?_⟩
      refine settled_refused (by decide) hsilent hkept ?_
      rintro _ ⟨⟩
      exact hvalid
    | ok pair =>
      refine .inr ⟨later ++ [e4,e3,e2],first,some row,by simp,hfirst.1,hfirst.2,hsilent,?_,?_⟩
      · exact fun _ => ⟨row,rfl,hvalid,⟨e2,hchecked,hnow⟩,e4,hclaimed,won,hwon,hhash⟩
      · rintro _ ⟨⟩ (hrevoked | ⟨e,he,hlost⟩)
        · rw [hvalid] at hrevoked
          exact nomatch hrevoked
        · exact absurd hlost (hkept e he)

theorem told_refresh (cookie body : Option String) :
    Told outside (Refreshed outside (env.hashRefresh (presented cookie body)))
      (refresh env cookie body) [] := by
  unfold refresh
  dsimp only
  split
  · exact .inl ⟨rfl,by decide⟩
  refine told_perform fun row first hfirst => ?_
  cases row with
  | error e =>
    refine .inr ⟨[],first,none,rfl,hfirst.1,hfirst.2,?_⟩
    exact settled_refused (by decide) (by simp) (by simp) (by simp)
  | ok row =>
    dsimp only
    split
    · refine told_expelReused fun e2 h2 hold hpurged => ?_
      refine .inr ⟨[e2],first,some row,rfl,hfirst.1,hfirst.2,?_⟩
      exact settled_expelled rfl (by simp) (by simp) h2 hold hpurged
    rename_i hrevoked
    have hvalid : row.revoked = false := Bool.eq_false_iff.mpr hrevoked
    refine told_perform fun now e2 h2 => ?_
    split
    · refine told_perform fun deleted e3 h3 => ?_
      refine .inr ⟨[e3,e2],first,some row,rfl,hfirst.1,hfirst.2,?_⟩
      refine settled_refused (by decide) (by simp [h3.1,h2.1]) (by simp [h3.1,h2.1]) ?_
      rintro _ ⟨⟩
      exact hvalid
    rename_i hlive
    refine told_perform fun role e3 h3 => ?_
    cases role with
    | error e =>
      refine told_perform fun ended e4 h4 => ?_
      have h4 : e4.act = .other := h4
      refine .inr ⟨[e4,e3,e2],first,some row,rfl,hfirst.1,hfirst.2,?_⟩
      refine settled_refused (by decide) (by simp [h4,h3.1,h2.1]) (by simp [h4,h3.1,h2.1]) ?_
      rintro _ ⟨⟩
      exact hvalid
    | ok role =>
      refine told_rotate hfirst hvalid ⟨h2.1,h2.2.1⟩ h3 ?_
      rw [← h2.2.2]
      exact Int.not_lt.mp hlive

end Refreshes

end Transcripts

def Forward (time : Nat → Int) : Prop := ∀ m n, m ≤ n → time m ≤ time n

structure Exchanged (outside : Nat → Outside) (tokenHash : String) (ns : List Entry) : Prop where
  read : ∃ e ∈ ns, ∃ row, e.act = .presented (some row)
  usable : ∀ e ∈ ns, ∀ o, e.act = .presented o → ∃ row, o = some row ∧ row.revoked = false ∧
    (∃ c ∈ ns, (outside c.tick).clock ≤ row.expiresAt) ∧
    (Forward (fun n => (outside n).clock) → (outside e.tick).clock ≤ row.expiresAt)
  claimed : ∃ e ∈ ns, ∃ won, e.act = .claimed won ∧ won.tokenHash = tokenHash

structure Expelled (outside : Nat → Outside) (username : String) (ns : List Entry)
    (tokens : List RefreshToken) : Prop where
  spares : ∀ e ∈ ns, ∀ t ∈ e.ended, t.createdAt < (outside e.tick).recent reuseLeeway
  ends : ∃ e ∈ ns, e.act = .unpurged username reuseLeeway ∧ (outside e.tick).fault ≠ none ∨
    ∃ existing, e.act = .purged username reuseLeeway existing ∧
      ∀ t ∈ tokens, t.username = username → t.createdAt < (outside e.tick).recent reuseLeeway →
        t.id < existing ∨ Forward (fun n => (outside n).current) → t.revoked = true

section Answered

variable {env : Env} {outside : Nat → Outside} {x : Traced Database Entry} {tokenHash : String}
  {ns : List Entry} {a : Reply} {row : RefreshToken}

theorem spent_begun (d : Database) : Spent d.outside ⟨d,[]⟩ :=
  ⟨rfl,by simp,.nil,by simp,.nil,by simp,by simp⟩

theorem ordered_notes (hx : Spent outside x) (pid : Nat) :
    (notesOf pid x.log).Pairwise fun e c => c.tick < e.tick :=
  List.pairwise_map.mpr (hx.ordered.sublist List.filter_sublist)

theorem exchanged_of (h : Refreshed outside tokenHash ns a)
    (hordered : ns.Pairwise fun e c => c.tick < e.tick) (ha : a.status = 200) :
    Exchanged outside tokenHash ns := by
  rcases h with ⟨-,hn⟩ | ⟨later,first,o,rfl,hfirst,-,hsettled⟩
  · exact absurd ha hn
  obtain ⟨row,rfl,hvalid,⟨c,hc,hclock⟩,e,he,won,hwon,hhash⟩ := hsettled.exchanged ha
  refine ⟨⟨first,by simp,row,hfirst⟩,fun e he o ho => ?_,⟨e,by simp [he],won,hwon,hhash⟩⟩
  rcases List.mem_append.mp he with he | he
  · exact absurd ho (hsettled.silent e he o)
  · obtain rfl := List.mem_singleton.mp he
    rw [hfirst] at ho
    refine ⟨row,(Act.presented.inj ho).symm,hvalid,⟨c,by simp [hc],hclock⟩,fun hforward => ?_⟩
    have hbefore : e.tick < c.tick :=
      (List.pairwise_append.mp hordered).2.2 c hc e List.mem_cons_self
    exact Int.le_trans (hforward e.tick c.tick (Nat.le_of_lt hbefore)) hclock

theorem expelled_of (hx : Spent outside x) {pid : Nat}
    (h : Refreshed outside tokenHash (notesOf pid x.log) a)
    (hread : ∃ e ∈ notesOf pid x.log, e.act = .presented (some row))
    (hreused : row.revoked = true ∨ ∃ e ∈ notesOf pid x.log, e.act = .lost) :
    Expelled outside row.username (notesOf pid x.log) x.state.store.tokens.rows := by
  obtain ⟨e,he,hrow⟩ := hread
  rcases h with ⟨hnone,-⟩ | ⟨later,first,o,hns,hfirst,hquiet,hsettled⟩
  · rw [hnone] at he
    exact nomatch he
  rw [hns] at he hreused ⊢
  have hmine : ∀ e ∈ later ++ [first], (pid,e) ∈ x.log :=
    fun e he => mem_notesOf.mp (hns ▸ he)
  obtain rfl : o = some row := by
    rcases List.mem_append.mp he with he | he
    · exact absurd hrow (hsettled.silent e he _)
    · obtain rfl := List.mem_singleton.mp he
      exact Act.presented.inj (hfirst.symm.trans hrow)
  have hlost : row.revoked = true ∨ ∃ e ∈ later, e.act = .lost := by
    refine hreused.imp_right ?_
    rintro ⟨e,he,hl⟩
    rcases List.mem_append.mp he with he | he
    · exact ⟨e,he,hl⟩
    · rw [List.mem_singleton.mp he,hfirst] at hl
      exact nomatch hl
  obtain ⟨hspares,e,he,hends⟩ := hsettled.expelled row rfl hlost
  refine ⟨fun c hc t ht => ?_,e,List.mem_append_left _ he,?_⟩
  · rcases List.mem_append.mp hc with hc | hc
    · exact hspares c hc t ht
    · rw [List.mem_singleton.mp hc,hquiet] at ht
      exact nomatch ht
  · rcases hends with ⟨existing,hpurged⟩ | hfault
    · have hin := hmine e (List.mem_append_left _ he)
      refine .inr ⟨existing,hpurged,fun t ht hname hold hcase => ?_⟩
      rcases Nat.lt_or_ge t.id existing with hlt | hge
      · exact (hx.purged _ hin _ _ _ hpurged).2 t ht hlt hname hold
      · obtain hlt | hforward := hcase
        · omega
        · obtain ⟨n,hn,hcreated⟩ := hx.dated _ hin _ _ _ hpurged t ht hge
          have hlate : (outside e.tick).current ≤ t.createdAt := by
            rw [hcreated]
            exact hforward _ _ hn
          have hleeway : 0 ≤ recentSeconds reuseLeeway * second := by decide
          unfold Outside.recent at hold
          omega
    · exact .inl hfault

theorem claimed_apart (hx : Spent outside x) {p q : Nat} {e c : Entry} {r r' : RefreshToken}
    (he : (p,e) ∈ x.log) (hc : (q,c) ∈ x.log) (hr : e.act = .claimed r) (hr' : c.act = .claimed r')
    (h : r.id = r'.id) : p = q ∧ e = c :=
  Prod.mk.inj (apart_unique hx.once he hc hr hr' h)

end Answered

theorem refresh_rotation (env : Env) (d : Database) (es : List (Event (exchanges env)))
    (v : World (exchanges env)) (hv : (begun d).run es = some v) :
    (∀ p q e c r r', (p,e) ∈ v.state.log → (q,c) ∈ v.state.log → e.act = .claimed r →
      c.act = .claimed r' → r.id = r'.id → p = q ∧ e = c) ∧
    ∀ pid cookie body a, .start pid (.refresh cookie body) ∈ es → v.pool pid = some (.ret a) →
      (a.status = 200 → Exchanged d.outside (env.hashRefresh (presented cookie body))
        (notesOf pid v.state.log)) ∧
      ∀ row, (∃ e ∈ notesOf pid v.state.log, e.act = .presented (some row)) →
        row.revoked = true ∨ (∃ e ∈ notesOf pid v.state.log, e.act = .lost) →
        Expelled d.outside row.username (notesOf pid v.state.log)
          v.state.state.store.tokens.rows := by
  let Q : Request → List Entry → Reply → Prop := fun r ns a => ∀ cookie body,
    r = .refresh cookie body → Refreshed d.outside (env.hashRefresh (presented cookie body)) ns a
  have hrun : Transcribed (Query.Reports d.outside) (fun _ => True) Q (Spent d.outside) es v := by
    refine transcribed (spent_begun d) ?_ (fun e => e.elim) ?_ hv
    · intro pid x β q y b hx hexec
      obtain ⟨-,hb,-⟩ := exec_exchanges hexec
      refine ⟨hx.exec hexec,?_⟩
      rw [← hx.world]
      exact reports_exec hb
    · intro pid r _
      by_cases hr : ∃ cookie body, r = .refresh cookie body
      · obtain ⟨cookie,body,rfl⟩ := hr
        refine yields_mono ?_ (told_refresh cookie body)
        rintro a ns h _ _ ⟨⟩
        exact h
      · refine yields_mono ?_ (told_any _ _)
        exact fun a ns _ cookie body he => absurd ⟨cookie,body,he⟩ hr
  refine ⟨fun p q e c r r' he hc hr hr' h => claimed_apart hrun.inv he hc hr hr' h,?_⟩
  intro pid cookie body a hm hp
  have hanswer := hrun.answered hv hm hp cookie body rfl
  exact ⟨exchanged_of hanswer (ordered_notes hrun.inv pid),
    fun row hread hreused => expelled_of hrun.inv hanswer hread hreused⟩

def staleSession : RefreshToken := ⟨0,"stale","alice",100,-60 * second,false⟩

def openSession : RefreshToken := ⟨1,"open","alice",100,0,false⟩

def sessionsOf (a b : RefreshToken) : Store :=
  ((Store.empty.storeRefresh a.tokenHash a.username a.expiresAt a.createdAt).1.storeRefresh
    b.tokenHash b.username b.expiresAt b.createdAt).1

def twoSessions : Database :=
  ⟨((sessionsOf staleSession openSession).insertUser "alice" "secret" .admin).1,0,quiet⟩

def raced : List (Event (exchanges plain)) :=
  .start 0 (.refresh (some "open") none) :: .start 1 (.refresh none (some "open")) ::
    ([0,1,0,1,0,1,0,1,0,0,1,0,0].map .act)

def standing (w : World (exchanges plain)) : List (Nat × Bool) × List Act :=
  (w.state.state.store.tokens.rows.map fun t => (t.id,t.revoked),
    (notesOf 1 w.state.log).map Entry.act)

def raceOutcome (w : World (exchanges plain)) :
    (Option Nat × Option Nat) × List (Nat × Bool) × List Act :=
  (((w.answer 0).map Reply.status,(w.answer 1).map Reply.status),standing w)

theorem winner_kept : ∃ v : World (exchanges plain), (begun twoSessions).run raced = some v ∧
    (v.state.state.store.tokens.rows.map fun t => (t.id,t.revoked)) =
      [(0,true),(1,true),(2,false)] ∧
    Exchanged quiet "open" (notesOf 0 v.state.log) ∧
    Expelled quiet "alice" (notesOf 1 v.state.log) v.state.state.store.tokens.rows := by
  have hrun : ((begun twoSessions).run raced).map raceOutcome = some ((some 200,some 401),
      [(0,true),(1,true),(2,false)],
      [.purged "alice" reuseLeeway 2,.lost,.other,.other,.presented (some openSession)]) := by
    decide
  obtain ⟨v,hv,houtcome⟩ := Option.map_eq_some_iff.mp hrun
  obtain ⟨hstatus,hstanding⟩ := Prod.mk.inj houtcome
  obtain ⟨hwon,hlost⟩ := Prod.mk.inj hstatus
  obtain ⟨hrows,hacts⟩ := Prod.mk.inj hstanding
  obtain ⟨won,hwinner,hok⟩ := Option.map_eq_some_iff.mp hwon
  obtain ⟨lost,hloser,-⟩ := Option.map_eq_some_iff.mp hlost
  have hnotes : ∀ a ∈ [Act.lost,.presented (some openSession)],
      ∃ e ∈ notesOf 1 v.state.log, e.act = a := by
    intro a ha
    refine List.mem_map.mp ?_
    rw [hacts]
    simp only [List.mem_cons,List.not_mem_nil,or_false] at ha
    rcases ha with rfl | rfl <;> simp
  obtain ⟨-,hall⟩ := refresh_rotation plain twoSessions raced v hv
  refine ⟨v,hv,hrows,?_,?_⟩
  · exact (hall 0 (some "open") none won (by simp [raced]) (World.answer_eq.mp hwinner)).1 hok
  · exact (hall 1 none (some "open") lost (by simp [raced]) (World.answer_eq.mp hloser)).2
      openSession (hnotes _ (by simp)) (.inr (hnotes _ (by simp)))

end Auth
