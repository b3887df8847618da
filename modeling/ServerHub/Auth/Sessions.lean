import ServerHub.Auth.Requests
import ServerHub.Interleave.Transcript

namespace Auth

open Relational Interleave Interleave.Prog

inductive Trace where
  | role (role : Role)
  | checked (user : User)
  | read (row : RefreshToken)
  | claimed (row : RefreshToken)
  | dropped
  | stored (id : Nat) (username : String)
  | ended (username : String)
deriving DecidableEq

namespace Trace

def claims : Trace → List RefreshToken
  | .claimed row => [row]
  | _ => []

def settles : Trace → RefreshToken → Bool
  | .stored _ _, _ | .dropped, _ => true
  | _, _ => false

end Trace

abbrev Journal := List (Nat × Trace)

def pending (pid : Nat) (log : Journal) : List RefreshToken :=
  outstanding Trace.claims Trace.settles pid log

def session : Journal → Nat → Option Nat
  | [], _ => none
  | (pid,.stored id _) :: log, token =>
      if token = id then
        match pending pid log with
        | [] => some id
        | row :: _ => session log row.id
      else session log token
  | _ :: log, token => session log token

def Query.traced (β : Type) (q : Query β) (d : Database) (b : β) : Option Trace :=
  match q, b with
  | .roleOf _, .ok role => some (.role role)
  | .credentials _, .ok user => some (.checked user)
  | .loadToken _, .ok row => some (.read row)
  | .claimToken tokenHash, .ok _ => (d.store.validToken tokenHash).map .claimed
  | .signAccess _ _, .error _ | .random, .error _ | .storeRefresh _ _ _, .error _ => some .dropped
  | .storeRefresh _ username _, .ok _ => some (.stored d.store.tokens.next username)
  | .revokeAllRefreshes username, .ok _ => some (.ended username)
  | _, _ => none

abbrev journaled (env : Env) : System := (accounts env).observe Query.traced

abbrev Recorded := Traced Database Trace

def Verified (env : Env) (asked : Nat → Request → Prop) (pid : Nat) (username : String)
    (log : Journal) : Prop :=
  ∃ (body : Credentials) (user : User),
    (asked pid (.login (some body)) ∨ asked pid (.token (some body))) ∧
    (pid,.checked user) ∈ log ∧
    env.compareHashAndPassword user.passwordHash body.password = true ∧ user.username = username

def Renewed (env : Env) (asked : Nat → Request → Prop) (log newer : Journal) (username : String)
    (id : Nat) : Prop :=
  ∃ pid root, session log id = some root ∧ (pid,.stored root username) ∈ newer ∧
    Verified env asked pid username log

def Live (env : Env) (asked : Nat → Request → Prop) (log : Journal) (username : String)
    (id : Nat) : Prop :=
  ∀ newer pid older, log = newer ++ (pid,.ended username) :: older →
    Renewed env asked log newer username id

structure Lineage (env : Env) (asked : Nat → Request → Prop) (x : Recorded) : Prop where
  live : ∀ t ∈ x.state.store.tokens.rows, t.revoked = false →
    Live env asked x.log t.username t.id
  claimed : ∀ pid, ∀ row ∈ pending pid x.log,
    Live env asked x.log row.username row.id ∧ row.id < x.state.store.tokens.next
  known : ∀ pid row, (pid,.read row) ∈ x.log → ∀ t ∈ x.state.store.tokens.rows,
    t.tokenHash = row.tokenHash → t.username = row.username

def Query.fresh (log : Journal) : {β : Type} → Query β → Bool
  | _, .storeRefresh tokenHash _ _ => log.all fun e => match e.2 with
      | .read row => row.tokenHash != tokenHash
      | _ => true
  | _, _ => true

def Query.uncrossed (x : Recorded) : {β : Type} → Query β → Bool
  | _, .revokeAllRefreshes username => x.state.now.fault.isNone &&
      x.log.all fun e => (pending e.1 x.log).all fun row => row.username != username
  | _, _ => true

def Fresh (_ : Nat) (x : Recorded) {β : Type} (q : Query β) : Prop := q.fresh x.log = true

def Uncrossed (_ : Nat) (x : Recorded) {β : Type} (q : Query β) : Prop := q.uncrossed x = true

section Tokens

variable {s : Store}

theorem revoked_all {username : String} {r : RefreshToken}
    (hr : r ∈ (s.revoke fun t => t.username == username).tokens.rows) (hname : r.username = username) :
    r.revoked = true := by
  obtain ⟨a,-,rfl⟩ := Serial.mem_modify.mp hr
  split
  · rfl
  · rename_i hne
    rw [if_neg hne] at hname
    exact absurd (beq_iff_eq.mpr hname) hne

theorem shrinks_exec {β : Type} {q : Query β} {d : Database}
    (h : ∀ id username, q.traced β d (q.exec d).2 ≠ some (.stored id username)) :
    Shrinks d.store (q.exec d).1.store := by
  cases q with
  | storeRefresh tokenHash username expiresAt =>
    rcases exec_storeRefresh tokenHash username expiresAt d with ⟨-,hs⟩ | ⟨hok,-⟩
    · exact hs
    · rw [hok] at h
      exact absurd rfl (h _ _)
  | _ => exact exec_shrinks rfl d

end Tokens

section Journals

variable {env : Env} {asked : Nat → Request → Prop} {pid q : Nat} {log newer : Journal}
  {n : Option Trace} {username : String} {id : Nat} {row : RefreshToken}

theorem Verified.grow {longer : Journal} (h : Verified env asked pid username log)
    (hsub : ∀ e ∈ log, e ∈ longer) : Verified env asked pid username longer := by
  obtain ⟨body,user,hasked,hchecked,hmatch⟩ := h
  exact ⟨body,user,hasked,hsub _ hchecked,hmatch⟩

theorem mem_record {e : Nat × Trace} : e ∈ record pid log n ↔ e ∈ log ∨ ∃ m, n = some m ∧ e = (pid,m) := by
  cases n with
  | none => simp [record]
  | some m => simp [record,or_comm]

theorem session_record (pid : Nat) (log : List (Nat × Trace))
    (hstored : ∀ id username, n ≠ some (.stored id username)) (token : Nat) :
    session (record pid log n) token = session log token := by
  cases n with
  | none => rfl
  | some m =>
    cases m with
    | stored id username => exact absurd rfl (hstored id username)
    | _ => rfl

theorem session_stored {token : Nat} (hne : token ≠ id) :
    session ((pid,.stored id username) :: log) token = session log token := by
  rw [session,if_neg hne]

theorem mem_pending_record (h : row ∈ pending q (record pid log n)) :
    row ∈ pending q log ∨ q = pid ∧ n = some (.claimed row) := by
  by_cases hq : q = pid
  · subst hq
    cases n with
    | none => exact .inl h
    | some m =>
      have hmem : row ∈ m.claims ++ (pending q log).filter fun a => !m.settles a := by
        simpa [pending,record,outstanding] using h
      rcases List.mem_append.mp hmem with hgrant | hold
      · cases m with
        | claimed row' =>
          obtain rfl := List.mem_singleton.mp hgrant
          exact .inr ⟨rfl,rfl⟩
        | _ => cases hgrant
      · exact .inl (List.mem_filter.mp hold).1
  · left
    have hown : own q (record pid log n) = own q log := own_record pid log n hq
    rw [pending,outstanding_congr hown] at h
    exact h

theorem live_cons {m : Trace} {token : Nat} {owner : String} (hended : m ≠ .ended owner)
    (hsession : session ((pid,m) :: log) id = session log token)
    (h : Live env asked log owner token) : Live env asked ((pid,m) :: log) owner id := by
  intro newer p older hsplit
  rcases newer with _ | ⟨e,newer⟩
  · obtain ⟨he,-⟩ := List.cons.inj hsplit
    exact absurd (Prod.mk.inj he).2 hended
  · obtain ⟨rfl,hrest⟩ := List.cons.inj hsplit
    obtain ⟨q,root,hroot,hnew,hverified⟩ := h newer p older hrest
    refine ⟨q,root,hsession.trans hroot,List.mem_cons_of_mem _ hnew,?_⟩
    exact hverified.grow fun e he => List.mem_cons_of_mem _ he

theorem live_record (hstored : ∀ id username, n ≠ some (.stored id username))
    (hended : n ≠ some (.ended username)) (h : Live env asked log username id) :
    Live env asked (record pid log n) username id := by
  cases hn : n with
  | none => exact h
  | some m =>
    have hsession := session_record pid log hstored id
    rw [hn] at hsession hended
    exact live_cons (fun he => hended (congrArg some he)) hsession h

theorem live_issued (hissued : session ((pid,.stored id username) :: log) id = some id)
    (hverified : Verified env asked pid username log) :
    Live env asked ((pid,.stored id username) :: log) username id := by
  intro newer p older hsplit
  rcases newer with _ | ⟨e,newer⟩
  · obtain ⟨he,-⟩ := List.cons.inj hsplit
    exact nomatch he
  · obtain ⟨rfl,-⟩ := List.cons.inj hsplit
    exact ⟨pid,id,hissued,List.mem_cons_self,hverified.grow fun e he => List.mem_cons_of_mem _ he⟩

end Journals

def Entitled (env : Env) (asked : Nat → Request → Prop) (pid : Nat) (username : String)
    (log : Journal) : Prop :=
  (∃ row, pending pid log = [row] ∧ row.username = username) ∨
    pending pid log = [] ∧ Verified env asked pid username log

section Lineages

variable {env : Env} {asked : Nat → Request → Prop} {pid : Nat} {x y : Recorded} {β : Type}
  {q : Query β} {b : β}

theorem exec_journaled (h : (journaled env).exec pid q x = some (y,b)) :
    y.state = (q.exec x.state).1 ∧ b = (q.exec x.state).2 ∧
      y.log = record pid x.log (q.traced β x.state b) := by
  obtain ⟨hexec,hlog⟩ := exec_observe h
  obtain ⟨hstate,hanswer⟩ := Prod.mk.inj (Option.some.inj hexec)
  exact ⟨hstate.symm,hanswer.symm,hlog⟩

theorem Lineage.unstored {n : Option Trace} (hx : Lineage env asked x)
    (hlog : y.log = record pid x.log n) (hs : Shrinks x.state.store y.state.store)
    (hstored : ∀ id username, n ≠ some (.stored id username))
    (hclaimed : ∀ row, n = some (.claimed row) →
      row ∈ x.state.store.tokens.rows ∧ row.revoked = false)
    (hread : ∀ row, n = some (.read row) → row ∈ x.state.store.tokens.rows)
    (hended : ∀ username, n = some (.ended username) →
      (∀ t ∈ y.state.store.tokens.rows, t.username = username → t.revoked = true) ∧
        ∀ p, ∀ row ∈ pending p x.log, row.username ≠ username) : Lineage env asked y := by
  have hlive : ∀ {username id}, n ≠ some (.ended username) → Live env asked x.log username id →
      Live env asked y.log username id := by
    intro username id hne h
    rw [hlog]
    exact live_record hstored hne h
  refine ⟨?_,?_,?_⟩
  · intro t ht hvalid
    obtain ⟨a,ha,hsame,hrevoked⟩ := hs.rows t ht
    have hlivea := hx.live a ha (by_contra fun hr => by simp [hrevoked (by simpa using hr)] at hvalid)
    have hid : t.id = a.id := by rw [hsame]
    have hname : t.username = a.username := by rw [hsame]
    rw [← hid,← hname] at hlivea
    refine hlive (fun he => ?_) hlivea
    rw [(hended _ he).1 t ht rfl] at hvalid
    exact nomatch hvalid
  · intro p row hrow
    rw [hlog] at hrow
    rw [hs.next]
    rcases mem_pending_record hrow with hold | ⟨-,hnew⟩
    · obtain ⟨hl,hlt⟩ := hx.claimed p row hold
      exact ⟨hlive (fun he => (hended _ he).2 p row hold rfl) hl,hlt⟩
    · obtain ⟨hmem,hvalid⟩ := hclaimed row hnew
      refine ⟨hlive (fun he => ?_) (hx.live row hmem hvalid),x.state.store.tokens.fresh row hmem⟩
      rw [hnew] at he
      exact nomatch he
  · intro p row hrow t ht hhash
    obtain ⟨a,ha,hsame,-⟩ := hs.rows t ht
    have hname : t.username = a.username := by rw [hsame]
    have hkept : t.tokenHash = a.tokenHash := by rw [hsame]
    rw [hlog] at hrow
    rcases mem_record.mp hrow with hold | ⟨m,hm,he⟩
    · exact hname.trans (hx.known p row hold a ha (hkept.symm.trans hhash))
    · obtain ⟨-,rfl⟩ := Prod.mk.inj he
      rw [hname,hash_unique ha (hread row hm) (hkept.symm.trans hhash)]

theorem Lineage.stored {username tokenHash : String} (hx : Lineage env asked x) (hent : Entitled env asked pid username x.log)
    (hfresh : ∀ p row, (p,.read row) ∈ x.log → row.tokenHash ≠ tokenHash)
    (hlog : y.log = (pid,.stored x.state.store.tokens.next username) :: x.log)
    (hg : Grows x.state.store y.state.store tokenHash username) : Lineage env asked y := by
  refine ⟨?_,?_,?_⟩
  · intro t ht hvalid
    rw [hlog]
    rcases hg.rows t ht with hold | ⟨hid,-,hname⟩
    · have hne := Nat.ne_of_lt (x.state.store.tokens.fresh t hold)
      exact live_cons (by simp) (session_stored hne) (hx.live t hold hvalid)
    · rw [hid,hname]
      rcases hent with ⟨row,hpending,howner⟩ | ⟨hnone,hverified⟩
      · have hrow := hx.claimed pid row (by rw [hpending]; exact List.mem_cons_self)
        refine live_cons (by simp) ?_ (howner ▸ hrow.1)
        rw [session,if_pos rfl,hpending]
      · refine live_issued ?_ hverified
        rw [session,if_pos rfl,hnone]
  · intro p row hrow
    rw [hlog] at hrow ⊢
    have hold : row ∈ pending p x.log := by
      rcases mem_pending_record (n := some (.stored _ username)) hrow with hold | ⟨-,hnew⟩
      · exact hold
      · exact nomatch hnew
    obtain ⟨hl,hlt⟩ := hx.claimed p row hold
    refine ⟨live_cons (by simp) (session_stored (Nat.ne_of_lt hlt)) hl,?_⟩
    rw [hg.next]
    exact Nat.lt_succ_of_lt hlt
  · intro p row hrow t ht hhash
    rw [hlog] at hrow
    rcases List.mem_cons.mp hrow with hnew | hold
    · exact nomatch hnew
    · rcases hg.rows t ht with hin | ⟨-,hnew,-⟩
      · exact hx.known p row hold t hin hhash
      · exact absurd (hhash.symm.trans hnew) (hfresh p row hold)

theorem traced_stored {d : Database} {id : Nat} {username : String} {log : Journal}
    (h : q.traced β d b = some (.stored id username)) (hb : b = (q.exec d).2)
    (hfresh : q.fresh log = true) :
    q.storesFor = some username ∧ id = d.store.tokens.next ∧ ∃ tokenHash,
      (∀ p row, (p,.read row) ∈ log → row.tokenHash ≠ tokenHash) ∧
      Grows d.store (q.exec d).1.store tokenHash username := by
  cases q with
  | storeRefresh tokenHash owner expiresAt =>
    cases b with
    | error e => exact nomatch h
    | ok _ =>
      obtain ⟨rfl,rfl⟩ := Trace.stored.inj (Option.some.inj h)
      rcases exec_storeRefresh tokenHash owner expiresAt d with ⟨⟨e,he⟩,-⟩ | ⟨-,hg⟩
      · rw [he] at hb
        exact nomatch hb
      · refine ⟨rfl,rfl,tokenHash,fun p row hrow => ?_,hg⟩
        have hne := List.all_eq_true.mp hfresh _ hrow
        exact bne_iff_ne.mp hne
  | claimToken tokenHash =>
    cases b with
    | error e => exact nomatch h
    | ok n =>
      obtain ⟨row,-,he⟩ := Option.map_eq_some_iff.mp h
      exact nomatch he
  | _ => cases b <;> exact nomatch h

theorem traced_claimed {d : Database} {row : RefreshToken}
    (h : q.traced β d b = some (.claimed row)) :
    row ∈ d.store.tokens.rows ∧ row.revoked = false := by
  cases q with
  | claimToken tokenHash =>
    cases b with
    | error e => exact nomatch h
    | ok n =>
      obtain ⟨row',hrow,he⟩ := Option.map_eq_some_iff.mp h
      obtain rfl := Trace.claimed.inj he
      exact ⟨(claimed_valid hrow).1,(claimed_valid hrow).2.2⟩
  | _ => cases b <;> exact nomatch h

theorem traced_read {d : Database} {row : RefreshToken}
    (h : q.traced β d b = some (.read row)) (hb : b = (q.exec d).2) :
    row ∈ d.store.tokens.rows := by
  cases q with
  | loadToken tokenHash =>
    cases b with
    | error e => exact nomatch h
    | ok row' =>
      obtain rfl := Trace.read.inj (Option.some.inj h)
      exact (loaded hb).1
  | claimToken tokenHash =>
    cases b with
    | error e => exact nomatch h
    | ok n =>
      obtain ⟨row',-,he⟩ := Option.map_eq_some_iff.mp h
      exact nomatch he
  | _ => cases b <;> exact nomatch h

theorem traced_ended {username : String} (h : q.traced β x.state b = some (.ended username))
    (huncrossed : q.uncrossed x = true) :
    (∀ t ∈ (q.exec x.state).1.store.tokens.rows, t.username = username → t.revoked = true) ∧
      ∀ p, ∀ row ∈ pending p x.log, row.username ≠ username := by
  cases q with
  | revokeAllRefreshes owner =>
    cases b with
    | error e => exact nomatch h
    | ok _ =>
      obtain rfl := Trace.ended.inj (Option.some.inj h)
      have hboth := Bool.and_eq_true_iff.mp huncrossed
      refine ⟨fun t ht => ?_,fun p row hrow => ?_⟩
      · unfold Query.exec at ht
        rw [Option.isNone_iff_eq_none.mp hboth.1] at ht
        exact revoked_all ht
      · obtain ⟨n,hn,-⟩ := mem_outstanding hrow
        have hall := List.all_eq_true.mp (List.all_eq_true.mp hboth.2 _ hn) row hrow
        exact bne_iff_ne.mp hall
  | claimToken tokenHash =>
    cases b with
    | error e => exact nomatch h
    | ok n =>
      obtain ⟨row,-,he⟩ := Option.map_eq_some_iff.mp h
      exact nomatch he
  | _ => cases b <;> exact nomatch h

theorem Lineage.exec (hx : Lineage env asked x) (hfresh : Fresh pid x q)
    (huncrossed : Uncrossed pid x q)
    (hent : ∀ username, q.storesFor = some username → Entitled env asked pid username x.log)
    (h : (journaled env).exec pid q x = some (y,b)) : Lineage env asked y := by
  obtain ⟨hstate,hb,hlog⟩ := exec_journaled h
  by_cases hstored : ∃ id username, q.traced β x.state b = some (.stored id username)
  · obtain ⟨id,username,hnote⟩ := hstored
    obtain ⟨hfor,rfl,tokenHash,hnew,hg⟩ := traced_stored hnote hb hfresh
    rw [hnote] at hlog
    exact hx.stored (hent username hfor) hnew hlog (hstate ▸ hg)
  · have hs : Shrinks x.state.store y.state.store := by
      rw [hstate]
      exact shrinks_exec fun id username hn => hstored ⟨id,username,hb ▸ hn⟩
    refine hx.unstored hlog hs (fun id username hn => hstored ⟨id,username,hn⟩) ?_ ?_ ?_
    · exact fun row hn => traced_claimed hn
    · exact fun row hn => traced_read hn hb
    · intro username hn
      rw [hstate]
      exact traced_ended hn huncrossed

end Lineages

def lineages (env : Env) (asked : Nat → Request → Prop) : Discipline (journaled env) where
  Inv := Lineage env asked
  Rely pid x y := own pid y.log = own pid x.log
  Allow pid x _ q := Fresh pid x q ∧ Uncrossed pid x q
  Duty _ _ _ _ := True
  rely_refl _ _ := rfl
  rely_trans _ _ _ _ h k := k.trans h

def Keeps (env : Env) (asked : Nat → Request → Prop) (pid : Nat) {α : Type}
    (Q : α → Recorded → Prop) (p : Prog Query α) (x : Recorded) : Prop :=
  (lineages env asked).Safe pid Q p x

def Completed (r : Request) (pid : Nat) (a : Reply) (log : Journal) (username : String) : Prop :=
  a.status = 200 ∧ match r with
    | .setRole _ target (some role) =>
        target = username ∧ ∃ current, (pid,.role current) ∈ log ∧ current ≠ role
    | .delete _ target => target = username
    | .logoutAll self | .changePassword self _ => self = username
    | _ => False

def Closes (pid : Nat) (username : String) (a : Reply) (x : Recorded) : Prop :=
  a.status = 200 → (pid,.ended username) ∈ x.log

section Requests

variable {env : Env} {asked : Nat → Request → Prop} {pid : Nat} {x : Recorded} {α β : Type}
  {q : Query β} {Q : α → Recorded → Prop} {username : String} {log log' : Journal}

theorem closes_failed {status : Nat} {text : String} (h : status ≠ 200) :
    Closes pid username (.failed status text) x := fun he => absurd he h

theorem mem_own (log : List (Nat × Trace)) {e : Nat × Trace} (he : e.1 = pid) :
    e ∈ own pid log ↔ e ∈ log := by
  simp [own,he]

theorem mem_of_own {m : Trace} (ho : own pid log' = own pid log) :
    (pid,m) ∈ log' ↔ (pid,m) ∈ log := by
  rw [← mem_own log' rfl,← mem_own log rfl,ho]

theorem Entitled.of_own (h : Entitled env asked pid username log)
    (ho : own pid log' = own pid log) : Entitled env asked pid username log' := by
  have hpending : pending pid log' = pending pid log := outstanding_congr ho
  unfold Entitled
  rw [hpending]
  refine h.imp id fun ⟨hnone,body,user,hasked,hchecked,hmatch⟩ => ⟨hnone,body,user,hasked,?_,hmatch⟩
  exact (mem_of_own ho).mpr hchecked

theorem keeps_perform {f : β → Prog Query α}
    (hent : ∀ username, q.storesFor = some username → Entitled env asked pid username x.log)
    (h : ∀ (t : Recorded) b (y : Recorded), own pid t.log = own pid x.log → Lineage env asked t →
      q.uncrossed t = true → b = (q.exec t.state).2 →
      y.log = record pid t.log (q.traced β t.state b) → Keeps env asked pid Q (f b) y) :
    Keeps env asked pid Q (perform q >>= f) x := by
  intro t hrely ht hallow y b hexec
  obtain ⟨-,hb,hlog⟩ := exec_journaled hexec
  refine ⟨trivial,⟨ht.exec hallow.1 hallow.2 ?_ hexec,?_⟩,h t b y hrely ht hallow.2 hb hlog⟩
  · exact fun username hfor => (hent username hfor).of_own hrely
  · intro p hp
    show own p y.log = own p t.log
    rw [hlog,own_record pid _ _ hp]

theorem keeps_step {f : β → Prog Query α} (hq : q.storesFor = none)
    (h : ∀ b y, Keeps env asked pid Q (f b) y) : Keeps env asked pid Q (perform q >>= f) x := by
  refine keeps_perform (fun username hfor => ?_) fun _ b y _ _ _ _ _ => h b y
  rw [hq] at hfor
  exact nomatch hfor

theorem keeps_silent {f : β → Prog Query α} (hq : ∀ d b, q.traced β d b = none)
    (hs : q.storesFor = none)
    (h : ∀ b (y : Recorded), own pid y.log = own pid x.log → Keeps env asked pid Q (f b) y) :
    Keeps env asked pid Q (perform q >>= f) x := by
  refine keeps_perform (fun username hfor => ?_) fun t b y ht _ _ _ hlog => h b y ?_
  · rw [hs] at hfor
    exact nomatch hfor
  · rw [hlog,hq t.state b]
    exact ht

theorem keeps_unstored {p : Prog Query α} (hp : p.Uses fun q => q.storesFor = none)
    (x : Recorded) : Keeps env asked pid (fun _ _ => True) p x := by
  induction p generalizing x with
  | ret a => trivial
  | step q f ih => exact keeps_step hp.1 fun b y => ih b (hp.2 b) y

theorem keeps_revokeAll {f : Unit → Handler α}
    (h : ∀ y : Recorded, (pid,.ended username) ∈ y.log → Keeps env asked pid Q (f ()) y) :
    Keeps env asked pid Q (revokeAllRefreshes username >>= f) x := by
  refine keeps_perform (q := Query.revokeAllRefreshes username) (fun _ hfor => nomatch hfor)
    fun t b y _ _ huncrossed hb hlog => h y ?_
  have hboth := Bool.and_eq_true_iff.mp huncrossed
  unfold Query.exec at hb
  rw [Option.isNone_iff_eq_none.mp hboth.1] at hb
  rw [hlog,hb]
  exact List.mem_cons_self

theorem keeps_hashPassword {f : Except String String → Handler α} (password : String)
    (h : ∀ a y, Keeps env asked pid Q (f a) y) :
    Keeps env asked pid Q (hashPassword env password >>= f) x := by
  refine keeps_step rfl fun salt y => ?_
  cases salt with
  | error e => exact h _ y
  | ok salt => exact h _ y

theorem keeps_removeUser (target : String) :
    Keeps env asked pid (Closes pid target) (removeUser target) x := by
  refine keeps_step rfl fun removed y => ?_
  rcases removed with e | _ | n
  · exact closes_failed (by decide)
  · exact closes_failed (by decide)
  · exact keeps_revokeAll fun z hz _ => hz

theorem keeps_adminCount {f : Nat → Handler α}
    (h : ∀ n (y : Recorded), own pid y.log = own pid x.log → Keeps env asked pid Q (f n) y) :
    Keeps env asked pid Q (adminCount >>= f) x := by
  refine keeps_silent (fun _ b => by cases b <;> rfl) rfl fun b y hy => ?_
  cases b with
  | error e => exact h 0 y hy
  | ok n => exact h n y hy

theorem keeps_deleteUser (self target : String) :
    Keeps env asked pid (Closes pid target) (deleteUser self target) x := by
  unfold deleteUser
  refine keeps_step rfl fun current y => ?_
  cases current with
  | error e => exact closes_failed (by decide)
  | ok current =>
    dsimp only
    split
    · exact closes_failed (by decide)
    split
    · refine keeps_adminCount fun n z _ => ?_
      split
      · exact closes_failed (by decide)
      · exact keeps_removeUser target
    · exact keeps_removeUser target

theorem keeps_changePassword (self : String) (body : Option PasswordChange) :
    Keeps env asked pid (Closes pid self) (changePassword env self body) x := by
  unfold changePassword
  cases body with
  | none => exact closes_failed (by decide)
  | some b =>
    dsimp only
    split
    · exact closes_failed (by decide)
    split
    · exact closes_failed (by decide)
    refine keeps_step rfl fun hash y => ?_
    cases hash with
    | error e => exact closes_failed (by decide)
    | ok hash =>
      dsimp only
      split
      · exact closes_failed (by decide)
      refine keeps_hashPassword _ fun newHash z => ?_
      cases newHash with
      | error e => exact closes_failed (by decide)
      | ok newHash =>
        refine keeps_step rfl fun written w => ?_
        cases written with
        | error e => exact closes_failed (by decide)
        | ok _ => exact keeps_revokeAll fun u hu _ => hu

def RoleRead (pid : Nat) (current : Role) (log : Journal) : Prop :=
  ∀ role, (pid,.role role) ∈ log → role = current

theorem RoleRead.of_own {current : Role} (h : RoleRead pid current log)
    (ho : own pid log' = own pid log) : RoleRead pid current log' :=
  fun role hrole => h role ((mem_of_own ho).mp hrole)

def Changes (pid : Nat) (role : Role) (log : Journal) : Prop :=
  ∃ current, (pid,.role current) ∈ log ∧ current ≠ role

theorem keeps_writeRole {target : String} {current role : Role} (hx : RoleRead pid current x.log) :
    Keeps env asked pid (fun a y => Changes pid role y.log → Closes pid target a y)
      (writeRole target current role) x := by
  refine keeps_silent (fun _ b => by cases b <;> rfl) rfl fun written y hy => ?_
  cases written with
  | error e => exact fun _ => closes_failed (by decide)
  | ok _ =>
    dsimp only
    split
    · exact keeps_revokeAll fun z hz _ _ => hz
    · rename_i hsame
      rintro ⟨previous,hprevious,hne⟩
      obtain rfl := (hx.of_own hy) previous hprevious
      exact absurd (by simpa using hsame) (Ne.symm hne)

theorem keeps_setRole (self target : String) (role : Role) (hx : own pid x.log = []) :
    Keeps env asked pid (fun a y => Changes pid role y.log → Closes pid target a y)
      (setRole self target (some role)) x := by
  unfold setRole
  dsimp only
  split
  · exact fun _ => closes_failed (by decide)
  refine keeps_perform (fun _ hfor => nomatch hfor) fun t current y ht _ _ _ hlog => ?_
  cases current with
  | error e => exact fun _ => closes_failed (by decide)
  | ok current =>
    have hread : RoleRead pid current y.log := by
      intro previous hprevious
      rw [hlog] at hprevious
      rcases List.mem_cons.mp hprevious with hnew | hold
      · exact Trace.role.inj (Prod.mk.inj hnew).2
      · have hmem := (mem_own _ rfl).mpr hold
        rw [ht,hx] at hmem
        exact nomatch hmem
    dsimp only
    split
    · exact fun _ => closes_failed (by decide)
    split
    · refine keeps_adminCount fun n z hz => ?_
      split
      · exact fun _ => closes_failed (by decide)
      · exact keeps_writeRole (hread.of_own hz)
    · exact keeps_writeRole hread

theorem keeps_issuePair {role : Role} {f : Except String (String × String) → Handler α}
    (hx : Entitled env asked pid username x.log) (h : ∀ a y, Keeps env asked pid Q (f a) y) :
    Keeps env asked pid Q (issuePair env username role >>= f) x := by
  refine keeps_perform (fun _ hfor => nomatch hfor) fun t access y ht _ _ _ hlog => ?_
  cases access with
  | error e => exact h _ y
  | ok access =>
    have hy : own pid y.log = own pid x.log := by
      rw [hlog]
      exact ht
    refine keeps_perform (fun _ hfor => nomatch hfor) fun u refresh z hu _ _ _ hlog => ?_
    cases refresh with
    | error e => exact h _ z
    | ok refresh =>
      have hz : own pid z.log = own pid y.log := by
        rw [hlog]
        exact hu
      refine keeps_silent (fun _ _ => rfl) rfl fun now w hw => ?_
      refine keeps_perform (fun owner hfor => ?_) fun _ stored v _ _ _ _ _ => ?_
      · obtain rfl := Option.some.inj hfor
        exact hx.of_own (hw.trans (hz.trans hy))
      · cases stored <;> exact h _ v

theorem own_first {m : Trace} (hx : own pid log = []) : own pid ((pid,m) :: log) = [(pid,m)] := by
  show ((pid,m) :: log).filter _ = _
  rw [List.filter_cons,if_pos (by simp)]
  exact congrArg _ hx

theorem keeps_verifyCredentials {password : String} {f : Option User → Handler α}
    (hx : own pid x.log = []) (h : ∀ checked (y : Recorded), (∀ user, checked = some user →
      own pid y.log = [(pid,.checked user)] ∧
        env.compareHashAndPassword user.passwordHash password = true) →
      Keeps env asked pid Q (f checked) y) :
    Keeps env asked pid Q (verifyCredentials env username password >>= f) x := by
  refine keeps_perform (fun _ hfor => nomatch hfor) fun t user y ht _ _ _ hlog => ?_
  cases user with
  | error e => exact h none y fun _ he => nomatch he
  | ok user =>
    show Keeps env asked pid Q ((if env.compareHashAndPassword user.passwordHash password = true
      then .ret (some user) else .ret none) >>= f) y
    split
    · rename_i hmatch
      refine h (some user) y fun user' he => ?_
      obtain rfl := Option.some.inj he
      rw [hlog]
      exact ⟨own_first (ht.trans hx),hmatch⟩
    · exact h none y fun _ he => nomatch he

theorem keeps_authenticate {body : Option Credentials} {answer : User → String → String → Reply}
    (hx : own pid x.log = [])
    (hasked : ∀ b, body = some b → asked pid (.login (some b)) ∨ asked pid (.token (some b))) :
    Keeps env asked pid (fun _ _ => True) (authenticate env body answer) x := by
  unfold authenticate
  cases body with
  | none => trivial
  | some b =>
    dsimp only
    split
    · trivial
    refine keeps_verifyCredentials hx fun checked y hy => ?_
    cases checked with
    | none => trivial
    | some user =>
      obtain ⟨hown,hmatch⟩ := hy user rfl
      refine keeps_issuePair (.inr ⟨?_,b,user,hasked b rfl,?_,hmatch,rfl⟩) fun pair z => ?_
      · rw [pending,outstanding_own,hown]
        simp [outstanding,Trace.claims]
      · exact (mem_own _ rfl).mp (hown ▸ List.mem_cons_self)
      · cases pair <;> trivial

theorem keeps_expelReused : Keeps env asked pid (fun _ _ => True) (expelReused username) x :=
  keeps_step rfl fun _ _ => trivial

theorem pending_of_own (ho : own pid log' = own pid log) : pending pid log' = pending pid log :=
  outstanding_congr ho

theorem keeps_rotate {tokenHash : String} {role : Role} {row : RefreshToken}
    (hread : (pid,.read row) ∈ x.log) (hpending : pending pid x.log = [])
    (hhash : row.tokenHash = tokenHash) (hname : row.username = username) :
    Keeps env asked pid (fun _ _ => True) (rotate env tokenHash username role) x := by
  refine keeps_perform (fun _ hfor => nomatch hfor) fun t claimed y ht hlineage _ hb hlog => ?_
  rcases claimed with e | _ | n
  · trivial
  · exact keeps_expelReused
  · obtain ⟨won,hwon⟩ := claimed_once hb
    obtain ⟨hmem,hsame,-⟩ := claimed_valid hwon
    have howner : won.username = row.username :=
      hlineage.known pid row ((mem_of_own ht).mpr hread) won hmem (hsame.trans hhash.symm)
    refine keeps_issuePair (.inl ⟨won,?_,howner.trans hname⟩) fun pair z => ?_
    · have hnone : pending pid t.log = [] := (pending_of_own ht).trans hpending
      simp only [hlog,Query.traced,hwon,Option.map_some,record]
      exact outstanding_first (fun _ => rfl) hnone
    · cases pair <;> trivial

theorem keeps_refresh {cookie body : Option String} (hx : own pid x.log = []) :
    Keeps env asked pid (fun _ _ => True) (refresh env cookie body) x := by
  unfold refresh
  dsimp only
  split
  · trivial
  refine keeps_perform (fun _ hfor => nomatch hfor) fun t row y ht _ _ hb hlog => ?_
  cases row with
  | error e => trivial
  | ok row =>
    have hown : own pid y.log = [(pid,.read row)] := by
      rw [hlog]
      exact own_first (ht.trans hx)
    dsimp only
    split
    · exact keeps_expelReused
    refine keeps_silent (fun _ _ => rfl) rfl fun now z hz => ?_
    split
    · exact keeps_step rfl fun _ _ => trivial
    refine keeps_perform (fun _ hfor => nomatch hfor) fun u role w hu _ _ _ hw => ?_
    cases role with
    | error e => exact keeps_step rfl fun _ _ => trivial
    | ok role =>
      have hu' : own pid u.log = [(pid,.read row)] := hu.trans (hz.trans hown)
      refine keeps_rotate ?_ ?_ (loaded hb).2 rfl
      · rw [hw]
        exact List.mem_cons_of_mem _ ((mem_own _ rfl).mp (hu' ▸ List.mem_cons_self))
      · rw [hw,pending]
        simp only [Query.traced,record]
        rw [outstanding_silent rfl (fun _ => rfl),outstanding_own,hu']
        simp [outstanding,Trace.claims]

theorem keeps_logout {cookie body : Option String} :
    Keeps env asked pid (fun _ _ => True) (logout env cookie body) x := by
  unfold logout
  dsimp only
  split
  · exact keeps_step rfl fun _ _ => trivial
  · trivial

theorem unstored_of_creates (h : q.creates) : q.storesFor = none := by
  cases q with
  | storeRefresh tokenHash owner expiresAt => exact h.elim
  | _ => rfl

theorem keeps_handle (r : Request) (hinv : Lineage env asked x) (hasked : asked pid r)
    (hx : own pid x.log = []) :
    Keeps env asked pid (fun a y => ∀ username, Completed r pid a y.log username →
      (pid,.ended username) ∈ y.log) (handle env r) x := by
  have hother : (∀ a log username, ¬ Completed r pid a log username) →
      Keeps env asked pid (fun _ _ => True) (handle env r) x → Keeps env asked pid
        (fun a y => ∀ username, Completed r pid a y.log username → (pid,.ended username) ∈ y.log)
        (handle env r) x :=
    fun hnever hkeeps => Discipline.Safe.mono
      (fun a (y : Recorded) _ _ username h => absurd h (hnever a y.log username)) hinv hkeeps
  have hcloses : ∀ {target}, (∀ a log username, Completed r pid a log username →
      username = target ∧ a.status = 200) → Keeps env asked pid (Closes pid target) (handle env r) x →
      Keeps env asked pid
        (fun a y => ∀ username, Completed r pid a y.log username → (pid,.ended username) ∈ y.log)
        (handle env r) x := by
    intro target htarget hkeeps
    refine Discipline.Safe.mono (fun a (y : Recorded) _ hcloses username h => ?_) hinv hkeeps
    obtain ⟨rfl,hstatus⟩ := htarget a y.log username h
    exact hcloses hstatus
  cases r with
  | create self body =>
    refine hother (fun _ _ _ h => h.2.elim) (keeps_unstored (uses_mono ?_ (uses_handle _)) x)
    exact fun q h => unstored_of_creates h
  | setRole self target body =>
    cases body with
    | none => exact hother (fun _ _ _ h => h.2.elim) trivial
    | some role =>
      refine Discipline.Safe.mono (fun a y _ hcloses username h => ?_) hinv
        (keeps_setRole self target role hx)
      obtain ⟨hstatus,rfl,hchanged⟩ := h
      exact hcloses hchanged hstatus
  | delete self target =>
    exact hcloses (fun _ _ _ h => ⟨h.2.symm,h.1⟩) (keeps_deleteUser self target)
  | login body =>
    refine hother (fun _ _ _ h => h.2.elim) (keeps_authenticate hx fun b hb => .inl ?_)
    exact hb ▸ hasked
  | token body =>
    refine hother (fun _ _ _ h => h.2.elim) (keeps_authenticate hx fun b hb => .inr ?_)
    exact hb ▸ hasked
  | refresh cookie body => exact hother (fun _ _ _ h => h.2.elim) (keeps_refresh hx)
  | logout self cookie body => exact hother (fun _ _ _ h => h.2.elim) keeps_logout
  | logoutAll self =>
    refine hcloses (fun _ _ _ h => ⟨h.2.symm,h.1⟩) ?_
    exact keeps_revokeAll fun y hy _ => hy
  | changePassword self body =>
    exact hcloses (fun _ _ _ h => ⟨h.2.symm,h.1⟩) (keeps_changePassword self body)

end Requests

section Ended

variable {env : Env} {d : Database} {es : List (Event (journaled env))} {v : World (journaled env)}

theorem lineage_begun (asked : Nat → Request → Prop) : Lineage env asked ⟨d,[]⟩ := by
  refine ⟨?_,(fun _ _ hrow => nomatch hrow),fun _ _ hrow => nomatch hrow⟩
  intro t _ _ newer pid older hsplit
  exact absurd hsplit (by simp)

theorem completed_of_own {r : Request} {pid : Nat} {a : Reply} {log log' : Journal}
    {username : String} (ho : own pid log' = own pid log) (h : Completed r pid a log' username) :
    Completed r pid a log username := by
  cases r with
  | setRole self target body =>
    cases body with
    | none => exact h
    | some role =>
      obtain ⟨hstatus,htarget,current,hrole,hne⟩ := h
      exact ⟨hstatus,htarget,current,(mem_of_own ho).mp hrole,hne⟩
  | _ => exact h

theorem landing_both {w : World (journaled env)} {e : Event (journaled env)}
    (h : Landing Fresh w e ∧ Landing Uncrossed w e) :
    Landing (fun pid x _ q => Fresh pid x q ∧ Uncrossed pid x q) w e := by
  cases e with
  | start pid r => trivial
  | act pid => exact fun β q k hp u b hx => ⟨h.1 β q k hp u b hx,h.2 β q k hp u b hx⟩
  | env e => trivial

def Asked (es : List (Event (journaled env))) (pid : Nat) (r : Request) : Prop :=
  .start pid r ∈ es

theorem sessions_end (env : Env) (d : Database) (es : List (Event (journaled env)))
    (v : World (journaled env)) (hfresh : Along (Landing Fresh) (begun d) es)
    (huncrossed : Along (Landing Uncrossed) (begun d) es) (hv : (begun d).run es = some v)
    (pid : Nat) (r : Request) (a : Reply) (username : String) (hr : .start pid r ∈ es)
    (ha : v.pool pid = some (.ret a)) (hdone : Completed r pid a v.state.log username) :
    ∃ newer older, v.state.log = newer ++ (pid,.ended username) :: older ∧
      ∀ t ∈ v.state.state.store.tokens.rows, t.username = username → t.revoked = false →
        ∃ q root, session v.state.log t.id = some root ∧ (q,.stored root username) ∈ newer ∧
          Verified env (Asked es) q username v.state.log := by
  have hallowed := along_imp (fun _ _ h => landing_both h) (along_and hfresh huncrossed)
  obtain ⟨hinv,hanswers⟩ := observed (D := lineages env (Asked es))
    (Q := fun pid r a y => ∀ username, Completed r pid a y.log username →
      (pid,Trace.ended username) ∈ y.log)
    (fun pid r x hm hx ho => keeps_handle r hx hm ho)
    (fun pid r a x y ho h username hdone =>
      (mem_of_own ho).mpr (h username (completed_of_own ho hdone)))
    (fun e => e.elim) (lineage_begun _) hallowed hv
  obtain ⟨newer,older,hsplit⟩ := List.append_of_mem (hanswers pid r a hr ha username hdone)
  refine ⟨newer,older,hsplit,fun t ht hname hvalid => ?_⟩
  have hlive := hinv.live t ht hvalid
  rw [hname] at hlive
  exact hlive newer pid older hsplit

end Ended

section Runs

variable {env : Env}

instance freshDecidable (pid : Nat) (x : Recorded) (β : Type) (q : Query β) :
    Decidable (Fresh pid x q) := inferInstanceAs (Decidable (_ = true))

instance uncrossedDecidable (pid : Nat) (x : Recorded) (β : Type) (q : Query β) :
    Decidable (Uncrossed pid x q) := inferInstanceAs (Decidable (_ = true))

instance freshLanding (w : World (journaled env)) (e : Event (journaled env)) :
    Decidable (Landing Fresh w e) :=
  landingDecidable (S := journaled env) Fresh (h := freshDecidable) w e

instance uncrossedLanding (w : World (journaled env)) (e : Event (journaled env)) :
    Decidable (Landing Uncrossed w e) :=
  landingDecidable (S := journaled env) Uncrossed (h := uncrossedDecidable) w e

def oneSession : Database :=
  ⟨((Store.empty.insertUser "alice" "secret" .admin).1.storeRefresh "old" "alice" 100 0).1,0,quiet⟩

def steps (pid n : Nat) : List (Event (journaled env)) := List.replicate n (.act pid)

def rotated : List (Event (journaled plain)) := .start 0 (.refresh (some "old") none) :: steps 0 8

def closedAndReopened : List (Event (journaled plain)) :=
  rotated ++ .start 1 (.logoutAll "alice") :: steps 1 1 ++
    .start 2 (.login (some ⟨"alice","secret"⟩)) :: steps 2 5

def valid (w : World (journaled env)) : List (Nat × String) :=
  (w.state.state.store.tokens.rows.filter fun t => !t.revoked).map fun t => (t.id,t.username)

def outcome (pid : Nat) (w : World (journaled env)) : Option Reply × List (Nat × String) :=
  (w.answer pid,valid w)

theorem reopened_session_only :
    Along (Landing Fresh) (begun oneSession) closedAndReopened ∧
    Along (Landing Uncrossed) (begun oneSession) closedAndReopened ∧
    ∃ v : World (journaled plain), (begun oneSession).run closedAndReopened = some v ∧
      valid v = [(2,"alice")] ∧
      ∃ newer older, v.state.log = newer ++ (1,.ended "alice") :: older ∧
        ∀ t ∈ v.state.state.store.tokens.rows, t.username = "alice" → t.revoked = false →
          ∃ q root, session v.state.log t.id = some root ∧ (q,.stored root "alice") ∈ newer ∧
            Verified plain (Asked closedAndReopened) q "alice" v.state.log := by
  have hfresh : Along (Landing Fresh) (begun oneSession) closedAndReopened := by decide
  have huncrossed : Along (Landing Uncrossed) (begun oneSession) closedAndReopened := by decide
  have hrun : ((begun oneSession).run closedAndReopened).map (outcome 1) =
      some (some ⟨200,.ok,.cleared⟩,[(2,"alice")]) := by
    decide
  obtain ⟨v,hv,houtcome⟩ := Option.map_eq_some_iff.mp hrun
  obtain ⟨hanswer,hvalid⟩ := Prod.mk.inj houtcome
  refine ⟨hfresh,huncrossed,v,hv,hvalid,?_⟩
  exact sessions_end plain oneSession closedAndReopened v hfresh huncrossed hv 1
    (.logoutAll "alice") ⟨200,.ok,.cleared⟩ "alice" (by simp [closedAndReopened,rotated])
    (World.answer_eq.mp hanswer) ⟨rfl,rfl⟩

def crossedLogout : List (Event (journaled plain)) :=
  .start 0 (.refresh (some "old") none) :: .start 1 (.logoutAll "alice") ::
    (steps 0 4 ++ steps 1 1 ++ steps 0 4)

theorem rotation_survives_logout :
    ¬ ∀ (env : Env) (d : Database) (es : List (Event (journaled env)))
      (v : World (journaled env)), (∀ n, (d.outside n).fault = none) →
      Along (Landing Fresh) (begun d) es → (begun d).run es = some v →
      ∀ pid self a, .start pid (.logoutAll self) ∈ es → v.pool pid = some (.ret a) →
        ∀ t ∈ v.state.state.store.tokens.rows, t.username = self → t.revoked = false →
          ∃ q body, .start q (.login body) ∈ es ∨ .start q (.token body) ∈ es := by
  intro h
  have hrun : ((begun oneSession).run crossedLogout).map (outcome 1) =
      some (some ⟨200,.ok,.cleared⟩,[(1,"alice")]) := by
    decide
  obtain ⟨v,hv,houtcome⟩ := Option.map_eq_some_iff.mp hrun
  obtain ⟨hanswer,hvalid⟩ := Prod.mk.inj houtcome
  have hin : (1,"alice") ∈ valid v := hvalid ▸ List.mem_cons_self
  obtain ⟨t,ht,he⟩ := List.mem_map.mp hin
  obtain ⟨hmem,hlive⟩ := List.mem_filter.mp ht
  have hlogins := h plain oneSession crossedLogout v (fun _ => rfl) (by decide) hv 1 "alice"
    ⟨200,.ok,.cleared⟩ (by simp [crossedLogout]) (World.answer_eq.mp hanswer) t hmem
    (Prod.mk.inj he).2 (by simpa using hlive)
  obtain ⟨q,body,hlogin⟩ := hlogins
  simp only [crossedLogout,steps,List.mem_cons,List.mem_append,List.mem_replicate] at hlogin
  simp only [reduceCtorEq,and_false,or_false] at hlogin
  rcases hlogin with (he | he) | he | he <;> exact nomatch (Event.start.inj he).2

end Runs

end Auth
