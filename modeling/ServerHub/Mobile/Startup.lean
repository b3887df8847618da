import ServerHub.Mobile.Client
import ServerHub.Auth.Requests

namespace Mobile

open Posix Interleave Interleave.Prog

-- the phone, the server's accounts and the number of calls sent
structure Meeting where
  phone : Phone
  db : Auth.Database
  sent : Nat

def received (r : Auth.Reply) : Received :=
  match r.body with
  | .session _ _ token refreshToken => ⟨r.status,some token,refreshToken,""⟩
  | _ => ⟨r.status,none,none,""⟩

-- the server's Refresh handler on what the phone posts
def served (env : Auth.Env) (presented : String) (d : Auth.Database) : Auth.Database × Auth.Reply :=
  (Auth.refresh env none (some presented)).eval (fun q d => q.exec d) d

section Steps

variable (env : Auth.Env) (net : Nat → Option Received)

-- net tells which calls reach the server and what answers those that are no renewal; one routine runs
-- at a time, so no renewal is ever followed
def step : {β : Type} → PhoneCall β → Meeting → Meeting × β
  | _, .getItem k, m => (m,m.phone.store k)
  | _, .setItem k value, m => ({ m with phone := m.phone.setItem k value },())
  | _, .deleteItem k, m => ({ m with phone := m.phone.deleteItem k },())
  | _, .send r, m =>
      match net m.sent with
      | none => ({ m with sent := m.sent + 1 },none)
      | some res =>
      match r.refreshToken with
      | none => ({ m with sent := m.sent + 1 },some res)
      | some presented =>
          ({ m with sent := m.sent + 1, db := (served env presented m.db).1 },
            some (received (served env presented m.db).2))
  | _, .enter, m =>
      match m.phone.flight with
      | none => ({ m with phone := { m.phone with flight := some 0 } },none)
      | some leader => (m,some leader)
  | _, .follow leader, m => (m,(m.phone.landed leader).getD false)
  | _, .land fresh, m => ({ m with phone := m.phone.land 0 fresh },())
  | _, .signedIn user token, m => ({ m with phone := { m.phone with user := user, token := token } },())
  | _, .check, m => ({ m with phone := { m.phone with checked := true } },())

inductive Op where
  | hydrate
  | request (url : Text)
deriving DecidableEq

def routine : Op → Routine Unit
  | .hydrate => hydrate
  | .request url => do
      let _ ← request url
      return ()

def runOp (op : Op) (m : Meeting) : Meeting := ((routine op).eval (step env net) m).1

def runOps : List Op → Meeting → Meeting
  | [], m => m
  | op :: ops, m => runOps ops (runOp env net op m)

def Live (d : Auth.Database) (presented : String) : Prop :=
  ∃ row, d.store.tokenHashed (env.hashRefresh presented) = some row ∧ row.revoked = false

-- the store holds a refresh token that the server has neither revoked nor rotated away
def Renewable (m : Meeting) : Prop :=
  ∃ presented, truthy (m.phone.store .refresh) = some presented ∧ Live env m.db presented

-- the server does not end the session: it renews a live token that reaches it
def Honours (m : Meeting) : {β : Type} → PhoneCall β → Prop
  | _, .send r => ∀ presented, r.refreshToken = some presented → (net m.sent).isSome →
      Live env m.db presented → (served env presented m.db).2.status = 200
  | _, _ => True

def Verified (m : Meeting) : Op → Prop
  | .hydrate => truthy (m.phone.store .token) = none ∨ truthy (m.phone.store .user) = none ∨
      (succeeded (net m.sent)).isSome = true
  | .request _ => True

def Throughout (P : Meeting → Op → Prop) : List Op → Meeting → Prop
  | [], _ => True
  | op :: ops, m => P m op ∧ Throughout P ops (runOp env net op m)

end Steps

-- what the server mints is never empty
structure Minted (outside : Nat → Auth.Outside) : Prop where
  random : ∀ n refresh, (outside n).random = .ok refresh → refresh ≠ ""
  signed : ∀ n username role access, (outside n).signed username role = .ok access → access ≠ ""

section Served

variable {env : Auth.Env} {d : Auth.Database}

abbrev answer {α : Type} (p : Auth.Handler α) (d : Auth.Database) : Auth.Database × α :=
  p.eval (fun q d => q.exec d) d

theorem exec_outside {β : Type} (q : Auth.Query β) (d : Auth.Database) :
    (q.exec d).1.outside = d.outside := by
  unfold Auth.Query.exec
  cases d.now.fault <;> rfl

theorem exec_signAccess (username : String) (role : Auth.Role) (d : Auth.Database) :
    ((Auth.Query.signAccess username role).exec d).2 = d.now.signed username role := by
  unfold Auth.Query.exec
  cases d.now.fault <;> rfl

theorem exec_random (d : Auth.Database) : (Auth.Query.random.exec d).2 = d.now.random := by
  unfold Auth.Query.exec
  cases d.now.fault <;> rfl

theorem live_stored {tokenHash username : String} {expiresAt : Int}
    (h : ((Auth.Query.storeRefresh tokenHash username expiresAt).exec d).2 = .ok ()) :
    ∃ row, ((Auth.Query.storeRefresh tokenHash username expiresAt).exec d).1.store.tokenHashed
      tokenHash = some row ∧ row.revoked = false := by
  obtain ⟨-,hok,hstore⟩ := Auth.exec_ok (by simp [Auth.Query.refuse]) h
  rw [hstore]
  simp only [Auth.Query.effect,Auth.Store.storeRefresh] at hok ⊢
  split at hok
  · cases hok
  · rename_i hfree
    rw [dif_neg hfree]
    have hnone : ∀ t ∈ d.store.tokens.rows, ¬ (t.tokenHash == tokenHash) = true := by
      intro t ht he
      exact hfree ⟨t,ht,beq_iff_eq.mp he⟩
    refine ⟨⟨d.store.tokens.next,tokenHash,username,expiresAt,d.now.current,false⟩,?_,rfl⟩
    show (d.store.tokens.rows ++ [_]).find? _ = _
    rw [List.find?_append,List.find?_eq_none.mpr hnone]
    simp

-- what a handler leaves, whatever the accounts held before
abbrev Serves {α : Type} (pre : Auth.Database → Prop) (p : Auth.Handler α)
    (post : α → Auth.Database → Prop) : Prop :=
  Triple (fun q d => q.exec d) (fun _ _ _ => True) (fun d => Minted d.outside ∧ pre d) p
    fun a d => Minted d.outside ∧ post a d

theorem serves_perform {β : Type} {q : Auth.Query β} {pre : Auth.Database → Prop}
    {post : β → Auth.Database → Prop}
    (h : ∀ d, Minted d.outside → pre d → post (q.exec d).2 (q.exec d).1) :
    Serves pre (perform q) post := by
  refine triple_perform fun d hd _ => ⟨?_,h d hd.1 hd.2⟩
  rw [exec_outside]
  exact hd.1

theorem serves_ret {α : Type} {a : α} {pre : Auth.Database → Prop} {post : α → Auth.Database → Prop}
    (h : ∀ d, pre d → post a d) : Serves pre (.ret a) post :=
  triple_ret fun d hd => ⟨hd.1,h d hd.2⟩

theorem serves_bind {α γ : Type} {pre : Auth.Database → Prop} {Q : α → Auth.Database → Prop}
    {post : γ → Auth.Database → Prop} {p : Auth.Handler α} {f : α → Auth.Handler γ}
    (hp : Serves pre p Q) (hf : ∀ a, Serves (Q a) (f a) post) : Serves pre (p >>= f) post :=
  triple_bind hp hf

theorem serves_fact {α : Type} {c : Prop} {p : Auth.Handler α} {post : α → Auth.Database → Prop}
    (h : c → Serves (fun _ => True) p post) : Serves (fun _ => c) p post :=
  fun d hd hmeets => h hd.2 d ⟨hd.1,trivial⟩ hmeets

theorem serves_any {β : Type} {q : Auth.Query β} {pre : Auth.Database → Prop} :
    Serves pre (perform q) fun _ _ => True := serves_perform fun _ _ _ => trivial

theorem serves_storeRefresh {username refresh : String} {pre : Auth.Database → Prop} :
    Serves pre (Auth.storeRefresh env username refresh) fun b d => b = .ok () → Live env d refresh :=
  serves_bind serves_any fun _ => serves_perform fun _ _ _ h => live_stored h

theorem serves_signAccess {username : String} {role : Auth.Role} {pre : Auth.Database → Prop} :
    Serves pre (perform (.signAccess username role)) fun b _ => ∀ access, b = .ok access → access ≠ "" := by
  refine serves_perform fun d hd _ access ha => ?_
  rw [exec_signAccess] at ha
  exact hd.signed _ _ _ _ ha

theorem serves_random {pre : Auth.Database → Prop} :
    Serves pre (perform .random) fun b _ => ∀ refresh, b = .ok refresh → refresh ≠ "" := by
  refine serves_perform fun d hd _ refresh hr => ?_
  rw [exec_random] at hr
  exact hd.random _ _ hr

theorem serves_issuePair {username : String} {role : Auth.Role} {pre : Auth.Database → Prop} :
    Serves pre (Auth.issuePair env username role) fun b d => ∀ access refresh,
      b = .ok (access,refresh) → access ≠ "" ∧ refresh ≠ "" ∧ Live env d refresh := by
  refine serves_bind serves_signAccess fun b => serves_fact fun haccess => ?_
  cases b with
  | error e => exact serves_ret fun _ _ _ _ => nofun
  | ok access =>
    refine serves_bind serves_random fun b => serves_fact fun hrefresh => ?_
    cases b with
    | error e => exact serves_ret fun _ _ _ _ => nofun
    | ok refresh =>
      refine serves_bind serves_storeRefresh fun b => ?_
      cases b with
      | error e => exact serves_ret fun _ _ _ _ => nofun
      | ok u =>
        refine serves_ret fun d hd _ _ he => ?_
        obtain ⟨rfl,rfl⟩ := Prod.mk.inj (Except.ok.inj he)
        exact ⟨haccess _ rfl,hrefresh _ rfl,hd rfl⟩

-- a renewal that succeeds hands out a pair, and its refresh token is live
def Renewed (env : Auth.Env) (r : Auth.Reply) (d : Auth.Database) : Prop :=
  r.status = 200 → ∃ access refresh, received r = ⟨200,some access,some refresh,""⟩ ∧ access ≠ "" ∧
    refresh ≠ "" ∧ Live env d refresh

theorem renewed_refusal {r : Auth.Reply} (h : r.status ≠ 200) (d : Auth.Database) : Renewed env r d :=
  fun he => absurd he h

theorem serves_expelReused {username : String} {pre : Auth.Database → Prop} :
    Serves pre (Auth.expelReused username) (Renewed env) :=
  serves_bind serves_any fun _ => serves_ret fun d _ => renewed_refusal (by decide) d

theorem serves_rotate {tokenHash username : String} {role : Auth.Role} {pre : Auth.Database → Prop} :
    Serves pre (Auth.rotate env tokenHash username role) (Renewed env) := by
  refine serves_bind serves_any fun b => ?_
  match b with
  | .error e => exact serves_ret fun d _ => renewed_refusal (by decide) d
  | .ok 0 => exact serves_expelReused
  | .ok (n + 1) =>
    refine serves_bind serves_issuePair fun b => ?_
    match b with
    | .error e => exact serves_ret fun d _ => renewed_refusal (by decide) d
    | .ok (access,refresh) =>
      exact serves_ret fun d hd _ => ⟨access,refresh,rfl,hd access refresh rfl⟩

theorem serves_refresh (presented : String) :
    Serves (fun _ => True) (Auth.refresh env none (some presented)) (Renewed env) := by
  unfold Auth.refresh
  dsimp only
  split
  · exact serves_ret fun d _ => renewed_refusal (by decide) d
  · refine serves_bind serves_any fun b => ?_
    cases b with
    | error e => exact serves_ret fun d _ => renewed_refusal (by decide) d
    | ok row =>
      dsimp only
      split
      · exact serves_expelReused
      · refine serves_bind serves_any fun now => ?_
        split
        · exact serves_bind serves_any fun _ => serves_ret fun d _ => renewed_refusal (by decide) d
        · refine serves_bind serves_any fun b => ?_
          cases b with
          | error e =>
            exact serves_bind serves_any fun _ => serves_ret fun d _ => renewed_refusal (by decide) d
          | ok role => exact serves_rotate

variable (env) in
theorem served_renewed (presented : String) (hm : Minted d.outside) :
    Minted (served env presented d).1.outside ∧
      Renewed env (served env presented d).2 (served env presented d).1 :=
  serves_refresh presented d ⟨hm,trivial⟩ (meets_of_forall (fun _ _ _ => trivial) _ _)

end Served

section Session

variable {env : Auth.Env} {net : Nat → Option Received} {m : Meeting} {α γ : Type}

-- between two awaits of a request: the session is renewable and the server mints
structure Sound (env : Auth.Env) (m : Meeting) : Prop where
  renewable : Renewable env m
  minted : Minted m.db.outside

abbrev Holds (env : Auth.Env) (net : Nat → Option Received) (pre : Meeting → Prop) (p : Routine α)
    (post : α → Meeting → Prop) : Prop :=
  Triple (step env net) (Honours env net) pre p post

def plain : {β : Type} → PhoneCall β → Prop
  | _, .getItem _ => True
  | _, .send r => r.refreshToken = none
  | _, _ => False

variable (env net) in
theorem step_plain {β : Type} {i : PhoneCall β} (hi : plain i) (m : Meeting) :
    (step env net i m).1.phone = m.phone ∧ (step env net i m).1.db = m.db := by
  cases i with
  | getItem k => exact ⟨rfl,rfl⟩
  | send r =>
    have hr : r.refreshToken = none := hi
    simp only [step,hr]
    cases net m.sent <;> exact ⟨rfl,rfl⟩
  | _ => exact hi.elim

theorem Sound.plain {n : Meeting} (h : Sound env m) (hp : n.phone = m.phone) (hd : n.db = m.db) :
    Sound env n := by
  obtain ⟨⟨presented,hstore,hlive⟩,hm⟩ := h
  exact ⟨⟨presented,by rw [hp]; exact hstore,by rw [hd]; exact hlive⟩,by rw [hd]; exact hm⟩

def Calm (env : Auth.Env) (m : Meeting) : Prop := Sound env m ∧ m.phone.flight = none

theorem holds_plain {β : Type} {i : PhoneCall β} (hi : plain i) :
    Holds env net (Calm env) (perform i) fun _ => Calm env := by
  refine triple_perform fun m hm _ => ?_
  obtain ⟨hp,hd⟩ := step_plain env net hi m
  exact ⟨hm.1.plain hp hd,by rw [hp]; exact hm.2⟩

theorem holds_attempt (url : Text) (header : Option String) :
    Holds env net (Calm env) (attempt url header) fun _ => Calm env := by
  refine triple_bind (holds_plain trivial) fun token => ?_
  exact triple_bind (holds_plain rfl) fun answer => triple_ret fun _ h => h

def Issued (env : Auth.Env) (refresh : String) (m : Meeting) : Prop :=
  Minted m.db.outside ∧ refresh ≠ "" ∧ Live env m.db refresh

def Answered (env : Auth.Env) (answer : Option Received) (m : Meeting) : Prop :=
  answer = none ∧ Sound env m ∨
    ∃ access refresh, answer = some ⟨200,some access,some refresh,""⟩ ∧ access ≠ "" ∧
      Issued env refresh m

theorem truthy_some {value : String} (h : value ≠ "") : truthy (some value) = some value := by
  simp [truthy,Option.filter,h]

theorem holds_post {refreshToken : Option String} {presented : String}
    (hp : truthy refreshToken = some presented) :
    Holds env net (fun m => Sound env m ∧ m.phone.store .refresh = refreshToken)
      (perform (.send ⟨authRefresh,none,some presented⟩)) (Answered env) := by
  refine triple_perform fun m hm hhonours => ?_
  obtain ⟨⟨⟨token,hstore,hlive⟩,hminted⟩,hread⟩ := hm
  rw [hread,hp] at hstore
  obtain rfl := Option.some.inj hstore
  cases hn : net m.sent with
  | none =>
    simp only [step,hn]
    exact .inl ⟨rfl,⟨presented,by rw [hread]; exact hp,hlive⟩,hminted⟩
  | some res =>
    have h200 : (served env presented m.db).2.status = 200 := hhonours presented rfl (by rw [hn]; rfl) hlive
    obtain ⟨hout,hrenewed⟩ := served_renewed env presented hminted
    obtain ⟨access,refresh,hreply,ha,hr,hnew⟩ := hrenewed h200
    simp only [step,hn]
    exact .inr ⟨access,refresh,congrArg some hreply,ha,hout,hr,hnew⟩

theorem holds_store {refresh value : String} :
    Holds env net (Issued env refresh) (perform (.setItem .token value)) fun _ => Issued env refresh :=
  triple_perform fun _ h _ => h

theorem holds_rotate {refresh : String} :
    Holds env net (Issued env refresh) (perform (.setItem .refresh refresh)) fun _ => Sound env := by
  refine triple_perform fun m hm _ => ⟨⟨refresh,?_,hm.2.2⟩,hm.1⟩
  show truthy (Function.update m.phone.store .refresh (some refresh) .refresh) = _
  rw [Function.update_self]
  exact truthy_some hm.2.1

theorem holds_keep (access : String) {refresh : String} (hr : refresh ≠ "") :
    Holds env net (Issued env refresh)
      (do perform (.setItem .token access)
          match truthy (some refresh) with
          | none => return true
          | some rotated =>
              perform (.setItem .refresh rotated)
              return true) fun _ => Sound env := by
  rw [truthy_some hr]
  refine triple_bind holds_store fun _ => ?_
  exact triple_bind holds_rotate fun _ => triple_ret fun _ h => h

theorem holds_renew (refreshToken : Option String) :
    Holds env net (fun m => Sound env m ∧ m.phone.store .refresh = refreshToken)
      (renew refreshToken) fun _ => Sound env := by
  unfold renew
  cases hp : truthy refreshToken with
  | none => exact triple_ret fun _ h => h.1
  | some presented =>
    refine triple_bind (holds_post hp) fun answer => ?_
    intro m hm
    rcases hm with ⟨rfl,hsound⟩ | ⟨access,refresh,rfl,haccess,hissued⟩
    · exact fun _ => hsound
    · have hres : succeeded (some ⟨200,some access,some refresh,""⟩) =
          some ⟨200,some access,some refresh,""⟩ := rfl
      rw [hres]
      dsimp only
      rw [truthy_some haccess]
      exact holds_keep access hissued.2.1 m hissued

theorem holds_enter :
    Holds env net (Calm env) (perform .enter) fun b m => b = none ∧ Sound env m := by
  refine triple_perform fun m hm _ => ?_
  simp only [step,hm.2]
  exact ⟨trivial,hm.1.1,hm.1.2⟩

theorem holds_read :
    Holds env net (Sound env) (perform (.getItem .refresh)) fun b m =>
      Sound env m ∧ m.phone.store .refresh = b :=
  triple_perform fun _ hm _ => ⟨hm,rfl⟩

theorem holds_land (fresh : Bool) :
    Holds env net (Sound env) (perform (.land fresh)) fun _ => Calm env :=
  triple_perform fun _ hm _ => ⟨⟨hm.1,hm.2⟩,rfl⟩

theorem holds_lead :
    Holds env net (Sound env)
      (do let refreshToken ← perform (.getItem .refresh)
          let fresh ← renew refreshToken
          perform (.land fresh)
          return fresh) fun _ => Calm env := by
  refine triple_bind holds_read fun b => ?_
  refine triple_bind (holds_renew b) fun fresh => ?_
  exact triple_bind (holds_land fresh) fun _ => triple_ret fun _ h => h

theorem holds_refreshSession :
    Holds env net (Calm env) refreshSession fun _ => Calm env := by
  refine triple_bind holds_enter fun b m hm => ?_
  obtain ⟨rfl,hsound⟩ := hm
  exact holds_lead m hsound

theorem holds_request (url : Text) :
    Holds env net (Calm env) (request url) fun _ => Calm env := by
  refine triple_bind (holds_attempt url none) fun b => ?_
  obtain ⟨header,answer⟩ := b
  dsimp only
  split
  · refine triple_bind holds_refreshSession fun fresh => ?_
    split
    · refine triple_bind (holds_plain trivial) fun token => ?_
      exact triple_bind (holds_attempt url _) fun b => triple_ret fun _ h => h
    · exact triple_ret fun _ h => h
  · exact triple_ret fun _ h => h

theorem runOp_request (url : Text) (hm : Calm env m)
    (hhonours : (routine (.request url)).Meets (step env net) (Honours env net) m) :
    Calm env (runOp env net (.request url) m) := by
  have h : Holds env net (Calm env) (routine (.request url)) fun _ => Calm env :=
    triple_bind (holds_request url) fun _ => triple_ret fun _ h => h
  exact h m hm hhonours

theorem attempt_eval (url : Text) (header : Option String) (m : Meeting) :
    (attempt url header).eval (step env net) m =
      ({ m with sent := m.sent + 1 },((bearer (m.phone.store .token)).or header,net m.sent)) := by
  unfold attempt
  rw [eval_perform_bind,eval_perform_bind]
  simp only [step]
  cases net m.sent <;> rfl

theorem request_authMe (m : Meeting) :
    (request authMe).eval (step env net) m = ({ m with sent := m.sent + 1 },net m.sent) := by
  have hauth : (unauthorized (net m.sent) && !isAuthPath authMe) = false := by
    rw [show isAuthPath authMe = true by decide]
    exact Bool.and_false _
  unfold request
  rw [eval_bind,attempt_eval]
  dsimp only
  rw [if_neg (by rw [hauth]; exact Bool.false_ne_true)]
  rfl

theorem Calm.kept {n : Meeting} (h : Calm env m) (hs : n.phone.store .refresh = m.phone.store .refresh)
    (hf : n.phone.flight = m.phone.flight) (hd : n.db = m.db) : Calm env n := by
  obtain ⟨⟨⟨presented,hstore,hlive⟩,hm⟩,hflight⟩ := h
  refine ⟨⟨⟨presented,?_,?_⟩,?_⟩,hf.trans hflight⟩
  · rw [hs]
    exact hstore
  · rw [hd]
    exact hlive
  · rw [hd]
    exact hm

theorem runOp_hydrate (hm : Calm env m) (hv : Verified net m .hydrate) :
    Calm env (runOp env net .hydrate m) := by
  show Calm env (hydrate.eval (step env net) m).1
  unfold hydrate
  rw [eval_perform_bind,eval_perform_bind]
  simp only [step]
  cases htoken : truthy (m.phone.store .token) with
  | none => exact hm.kept rfl rfl rfl
  | some token =>
    cases huser : truthy (m.phone.store .user) with
    | none => exact hm.kept rfl rfl rfl
    | some userJson =>
      have hme : (succeeded (net m.sent)).isSome = true := by
        rcases hv with h | h | h
        · exact nomatch htoken.symm.trans h
        · exact nomatch huser.symm.trans h
        · exact h
      obtain ⟨freshUser,hok⟩ := Option.isSome_iff_exists.mp hme
      dsimp only
      rw [eval_bind,request_authMe]
      dsimp only
      rw [hok]
      have hrefresh : Function.update m.phone.store .user (some freshUser.data) .refresh =
          m.phone.store .refresh := Function.update_of_ne (by decide) _ _
      exact hm.kept hrefresh rfl rfl

theorem hydrate_forgets (hv : ¬ Verified net m .hydrate) :
    (runOp env net .hydrate m).phone.store .refresh = none := by
  obtain ⟨ht,hu,hme⟩ := not_or.mp hv |>.imp_right not_or.mp
  obtain ⟨token,htoken⟩ := Option.ne_none_iff_exists'.mp ht
  obtain ⟨userJson,huser⟩ := Option.ne_none_iff_exists'.mp hu
  have hfail : succeeded (net m.sent) = none := Option.not_isSome_iff_eq_none.mp hme
  show (hydrate.eval (step env net) m).1.phone.store .refresh = none
  unfold hydrate
  rw [eval_perform_bind,eval_perform_bind]
  simp only [step]
  rw [htoken,huser]
  dsimp only
  rw [eval_bind,request_authMe]
  dsimp only
  rw [hfail]
  rfl

def Honoured (env : Auth.Env) (net : Nat → Option Received) (m : Meeting) (op : Op) : Prop :=
  (routine op).Meets (step env net) (Honours env net) m

theorem runOp_calm {op : Op} (hm : Calm env m) (hh : Honoured env net m op)
    (hv : Verified net m op) : Calm env (runOp env net op m) := by
  cases op with
  | hydrate => exact runOp_hydrate hm hv
  | request url => exact runOp_request url hm hh

theorem verified_of_renewable {op : Op} (h : Renewable env (runOp env net op m)) :
    Verified net m op := by
  cases op with
  | request url => trivial
  | hydrate =>
    by_contra hv
    obtain ⟨presented,hstore,-⟩ := h
    rw [hydrate_forgets hv] at hstore
    exact nomatch hstore

theorem startup_renewable_iff {ops : List Op} (hm : Renewable env m) (hminted : Minted m.db.outside)
    (hflight : m.phone.flight = none) (hh : Throughout env net (Honoured env net) ops m) :
    (∀ pre, pre <+: ops → Renewable env (runOps env net pre m)) ↔
      Throughout env net (Verified net) ops m := by
  have hcalm : Calm env m := ⟨⟨hm,hminted⟩,hflight⟩
  clear hm hminted hflight
  induction ops generalizing m with
  | nil =>
    refine iff_of_true (fun pre hpre => ?_) trivial
    obtain rfl := List.prefix_nil.mp hpre
    exact hcalm.1.renewable
  | cons op ops ih =>
    constructor
    · intro hall
      have hv : Verified net m op :=
        verified_of_renewable (hall [op] (List.prefix_cons_inj op |>.mpr List.nil_prefix))
      have hnext := runOp_calm hcalm hh.1 hv
      refine ⟨hv,(ih hh.2 hnext).mp fun pre hpre => ?_⟩
      exact hall (op :: pre) ((List.prefix_cons_inj op).mpr hpre)
    · rintro ⟨hv,hrest⟩ pre hpre
      have hnext := runOp_calm hcalm hh.1 hv
      cases pre with
      | nil => exact hcalm.1.renewable
      | cons a pre =>
        obtain ⟨rfl,hlater⟩ := List.cons_prefix_cons.mp hpre
        exact (ih hh.2 hnext).mpr hrest pre hlater

end Session

section Sample

def openAccounts : Auth.Database where
  store := ((Auth.Store.empty.insertUser "admin" "hash" .admin).1.storeRefresh "refresh-1" "admin"
    Auth.refreshTTL 0).1
  tick := 0
  outside n := { Auth.quiet (n + 1) with signed := fun _ _ => .ok "access-2" }

def startedPhone : Phone where
  store
    | .token => some "access-1"
    | .refresh => some "refresh-1"
    | .user => some "admin"
  flight := none
  landed _ := none
  user := none
  token := none
  checked := false

def started : Meeting := ⟨startedPhone,openAccounts,0⟩

theorem started_renewable : Renewable Auth.plain started := ⟨"refresh-1",by decide,_,rfl,rfl⟩

theorem started_minted : Minted openAccounts.outside where
  random n refresh h := by
    obtain rfl := Except.ok.inj h
    intro he
    have hlist : List.replicate (n + 1) 'x' = [] := by simpa using congrArg String.toList he
    exact nomatch hlist
  signed n username role access h := by
    obtain rfl := Except.ok.inj h
    decide

def expiredOnce : Nat → Option Received
  | 0 => some ⟨401,none,none,"token expired"⟩
  | _ => some ⟨200,none,none,"admin"⟩

def projects : Text := "/server-hub/api/projects".toList

theorem honours_ordinary {env : Auth.Env} {net : Nat → Option Received} {m : Meeting} {r : Sent}
    (h : r.refreshToken = none) : Honours env net m (.send r) :=
  fun _ he => nomatch h.symm.trans he

theorem honours_renewal {env : Auth.Env} {net : Nat → Option Received} {m : Meeting} {r : Sent}
    {presented : String} (hr : r.refreshToken = some presented)
    (h : (served env presented m.db).2.status = 200) : Honours env net m (.send r) := by
  intro token he _ _
  obtain rfl := Option.some.inj (hr.symm.trans he)
  exact h

theorem startup_renewable_rotated :
    Renewable Auth.plain (runOps Auth.plain expiredOnce [] started) ∧
      Renewable Auth.plain (runOps Auth.plain expiredOnce [.request projects] started) := by
  have hh : Throughout Auth.plain expiredOnce (Honoured Auth.plain expiredOnce) [.request projects]
      started := by
    refine ⟨?_,trivial⟩
    refine ⟨trivial,honours_ordinary rfl,trivial,trivial,honours_renewal rfl rfl,trivial,trivial,trivial,
      trivial,trivial,honours_ordinary rfl,trivial⟩
  have hall := (startup_renewable_iff started_renewable started_minted rfl hh).mpr ⟨trivial,trivial⟩
  exact ⟨hall [] List.nil_prefix,hall _ List.prefix_rfl⟩

theorem hydrate_drops_session :
    Renewable Auth.plain started ∧
      Throughout Auth.plain expiredOnce (Honoured Auth.plain expiredOnce) [.hydrate] started ∧
      ¬ Renewable Auth.plain (runOps Auth.plain expiredOnce [.hydrate] started) := by
  refine ⟨started_renewable,⟨?_,trivial⟩,?_⟩
  · exact ⟨trivial,trivial,trivial,honours_ordinary rfl,trivial,trivial,trivial,trivial,trivial,trivial⟩
  · rintro ⟨presented,hstore,-⟩
    exact nomatch (show none = some presented from hstore)

end Sample

end Mobile
