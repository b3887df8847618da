import ServerHub.Mobile.Client
import ServerHub.Interleave.Routine

namespace Mobile

open Posix Interleave Interleave.Prog

structure Online where
  phone : Phone
  sent : Nat

-- net answers the calls in the order in which their answers arrive
def exec (net : Nat → Option Received) (pid : Nat) :
    {β : Type} → PhoneCall β → Online → Option (Online × β)
  | _, .getItem k, s => some (s,s.phone.store k)
  | _, .setItem k value, s => some ({ s with phone := s.phone.setItem k value },())
  | _, .deleteItem k, s => some ({ s with phone := s.phone.deleteItem k },())
  | _, .send _, s => some ({ s with sent := s.sent + 1 },net s.sent)
  | _, .enter, s =>
      match s.phone.flight with
      | none => some ({ s with phone := { s.phone with flight := some pid } },none)
      | some leader => some (s,some leader)
  | _, .follow leader, s => (s.phone.landed leader).map fun fresh => (s,fresh)
  | _, .land fresh, s => some ({ s with phone := s.phone.land pid fresh },())
  | _, .signedIn user token, s =>
      some ({ s with phone := { s.phone with user := user, token := token } },())
  | _, .check, s => some ({ s with phone := { s.phone with checked := true } },())

inductive Ask where
  | api (url : Text)
  | logout
deriving DecidableEq

inductive Result where
  | answered (answer : Option Received)
  | loggedOut
deriving DecidableEq

def ask : Ask → Routine Result
  | .api url => do
      let answer ← request url
      return .answered answer
  | .logout => do
      logout
      return .loggedOut

def mobile (net : Nat → Option Received) : System where
  Instr := PhoneCall
  State := Online
  Request := Ask
  Answer := Result
  Env := Empty
  exec := exec net
  handle := ask
  env e _ := e.elim

inductive Note where
  | entered
  | deleted (k : Key)
deriving DecidableEq

def note : (β : Type) → PhoneCall β → Online → β → Option Note
  | _, .enter, _, none => some .entered
  | _, .deleteItem k, _, _ => some (.deleted k)
  | _, _, _, _ => none

abbrev Log := List (Nat × Note)

def half (log : Log) : Bool :=
  log.any fun e => e.2 = .deleted .token && !log.contains (e.1,.deleted .refresh)

def crossed : Log → Bool
  | [] => false
  | (_,.entered) :: log => half log
  | (_,.deleted .user) :: log => crossed log
  | (_,.deleted _) :: _ => true

def Gone (k : Key) (log : Log) : Prop := ∃ pid, (pid,.deleted k) ∈ log

abbrev journaled (net : Nat → Option Received) : System := (mobile net).observe note

-- a renewal that overlaps the deletions of a logout is not answered with a token to store
def StoresUncrossed (_pid : Nat) (x : Traced Online Note) {β : Type} : PhoneCall β → Prop
  | .setItem _ _ => crossed x.log = false
  | _ => True

structure Cleared (x : Traced Online Note) : Prop where
  token : Gone .token x.log → x.state.phone.store .token = none
  refresh : Gone .refresh x.log → x.state.phone.store .refresh = none

structure Steady (pid : Nat) (x y : Traced Online Note) : Prop where
  own : own pid y.log = own pid x.log
  grown : x.log ⊆ y.log
  flight : x.state.phone.flight = some pid → y.state.phone.flight = some pid
  uncrossed : x.state.phone.flight = some pid → crossed y.log = false → crossed x.log = false
  gone : x.state.phone.flight = some pid → crossed y.log = false →
    ∀ k, k ≠ .user → Gone k y.log → Gone k x.log

theorem steady_refl (pid : Nat) (x : Traced Online Note) : Steady pid x x :=
  ⟨rfl,List.Subset.refl _,id,fun _ => id,fun _ _ _ _ => id⟩

theorem steady_trans (pid : Nat) (x y z : Traced Online Note) (hxy : Steady pid x y)
    (hyz : Steady pid y z) : Steady pid x z where
  own := hyz.own.trans hxy.own
  grown := List.Subset.trans hxy.grown hyz.grown
  flight h := hyz.flight (hxy.flight h)
  uncrossed h hz := hxy.uncrossed h (hyz.uncrossed (hxy.flight h) hz)
  gone h hz k hk hg :=
    hxy.gone h (hyz.uncrossed (hxy.flight h) hz) k hk (hyz.gone (hxy.flight h) hz k hk hg)

def session (net : Nat → Option Received) : Discipline (journaled net) where
  Inv := Cleared
  Rely := Steady
  Allow := StoresUncrossed
  Duty _ _ _ _ := True
  rely_refl := steady_refl
  rely_trans := steady_trans

section Steps

variable {net : Nat → Option Received} {pid : Nat} {α β γ : Type}
  {J K : Traced Online Note → Prop} {Q : α → Traced Online Note → Prop}

def Secures (net : Nat → Option Received) (pid : Nat) (J : Traced Online Note → Prop)
    (p : Routine α) (Q : α → Traced Online Note → Prop) : Prop :=
  ∀ x, Cleared x → J x → (session net).Safe pid Q p x

def Stable (pid : Nat) (J : Traced Online Note → Prop) : Prop := ∀ x y, Steady pid x y → J x → J y

theorem secures_ret {a : α} (h : ∀ x, J x → Q a x) : Secures net pid J (.ret a) Q :=
  fun x _ hJ => h x hJ

theorem secures_bind {p : Routine α} {f : α → Routine γ} {R : γ → Traced Online Note → Prop}
    (hp : Secures net pid J p Q) (hf : ∀ a, Secures net pid (Q a) (f a) R) :
    Secures net pid J (p >>= f) R :=
  fun x hx hJ => Discipline.Safe.bind hx (hp x hx hJ) fun a y hy hq => hf a y hy hq

theorem secures_mono {p : Routine α} {R : α → Traced Online Note → Prop} (hJ : ∀ x, K x → J x)
    (hQ : ∀ a x, Q a x → R a x) (hp : Secures net pid J p Q) : Secures net pid K p R :=
  fun x hx hK => Discipline.Safe.mono (fun a _ _ h => hQ a _ h) hx (hp x hx (hJ x hK))

theorem secures_perform {i : PhoneCall β} {R : β → Traced Online Note → Prop} (hJ : Stable pid J)
    (h : ∀ x t b, Cleared x → J x → StoresUncrossed pid x i → exec net pid i x.state = some (t,b) →
      Cleared ⟨t,record pid x.log (note β i x.state b)⟩ ∧
        (∀ q, q ≠ pid → Steady q x ⟨t,record pid x.log (note β i x.state b)⟩) ∧
        R b ⟨t,record pid x.log (note β i x.state b)⟩) :
    Secures net pid J (perform i) R := by
  intro x hx hj t hrely ht hallow y b hexec
  obtain ⟨hstate,hlog⟩ := exec_observe hexec
  obtain ⟨hinv,hothers,hR⟩ := h t y.state b ht (hJ x t hrely hj) hallow hstate
  obtain ⟨ystate,ylog⟩ := y
  obtain rfl : ylog = _ := hlog
  exact ⟨trivial,⟨hinv,hothers⟩,hR⟩

def quiet : {β : Type} → PhoneCall β → Prop
  | _, .getItem _ | _, .send _ | _, .follow _ | _, .signedIn _ _ | _, .check => True
  | _, _ => False

theorem exec_quiet {i : PhoneCall β} (hi : quiet i) {s t : Online} {b : β}
    (h : exec net pid i s = some (t,b)) :
    t.phone.store = s.phone.store ∧ t.phone.flight = s.phone.flight ∧ note β i s b = none := by
  cases i <;> simp only [quiet] at hi
  all_goals simp only [exec,Option.map_eq_some_iff,Option.some.injEq,Prod.mk.injEq] at h
  case follow leader =>
    obtain ⟨fresh,-,rfl,-⟩ := h
    exact ⟨rfl,rfl,rfl⟩
  all_goals
    obtain ⟨rfl,-⟩ := h
    exact ⟨rfl,rfl,rfl⟩

theorem secures_read {i : PhoneCall β} (hi : quiet i) (hJ : Stable pid J) :
    Secures net pid J (perform i) fun _ => J := by
  refine secures_perform hJ fun x t b hx hj _ hexec => ?_
  obtain ⟨hstore,hflight,hnote⟩ := exec_quiet hi hexec
  rw [hnote]
  have hsteady : ∀ q, Steady q x ⟨t,x.log⟩ := fun q =>
    ⟨rfl,List.Subset.refl _,fun h => hflight.trans h,fun _ => id,fun _ _ _ _ => id⟩
  refine ⟨⟨fun h => ?_,fun h => ?_⟩,fun q _ => hsteady q,hJ x _ (hsteady pid) hj⟩
  · exact (congrFun hstore .token).trans (hx.token h)
  · exact (congrFun hstore .refresh).trans (hx.refresh h)

-- the flight is this request's, and before a deletion crosses it both tokens go together
def Leads (pid : Nat) (x : Traced Online Note) : Prop :=
  x.state.phone.flight = some pid ∧
    (crossed x.log = false → Gone .token x.log → Gone .refresh x.log)

def Armed (pid : Nat) (x : Traced Online Note) : Prop :=
  x.state.phone.flight = some pid ∧
    (crossed x.log = false → ¬ Gone .token x.log ∧ ¬ Gone .refresh x.log)

theorem stable_leads (pid : Nat) : Stable pid (Leads pid) := by
  rintro x y hs ⟨hflight,hboth⟩
  refine ⟨hs.flight hflight,fun hy hg => ?_⟩
  have hx := hs.uncrossed hflight hy
  obtain ⟨q,hq⟩ := hboth hx (hs.gone hflight hy .token nofun hg)
  exact ⟨q,hs.grown hq⟩

theorem stable_armed (pid : Nat) : Stable pid (Armed pid) := by
  rintro x y hs ⟨hflight,hnone⟩
  refine ⟨hs.flight hflight,fun hy => ?_⟩
  obtain ⟨ht,hr⟩ := hnone (hs.uncrossed hflight hy)
  exact ⟨fun hg => ht (hs.gone hflight hy .token nofun hg),
    fun hg => hr (hs.gone hflight hy .refresh nofun hg)⟩

theorem stable_true (pid : Nat) : Stable pid fun _ => True := fun _ _ _ h => h

theorem stable_noted (pid : Nat) (ns : List Note) :
    Stable pid fun x => ∀ n ∈ ns, (pid,n) ∈ x.log := fun _ _ hs h n hn => hs.grown (h n hn)

theorem gone_of_half {log : Log} (h : half log = false) (hg : Gone .token log) :
    Gone .refresh log := by
  obtain ⟨q,hq⟩ := hg
  simp only [half,List.any_eq_false,Bool.and_eq_true,decide_eq_true_eq,Bool.not_eq_true',not_and,
    Bool.not_eq_false,List.contains_iff_mem] at h
  exact ⟨q,h _ hq rfl⟩

theorem gone_entered {log : Log} {k : Key} : Gone k ((pid,Note.entered) :: log) ↔ Gone k log := by
  simp [Gone]

theorem secures_enter : Secures net pid (fun _ => True) (perform .enter) fun b x =>
    match b with
    | none => Leads pid x
    | some _ => True := by
  refine secures_perform (stable_true pid) fun x t b hx _ _ hexec => ?_
  simp only [exec] at hexec
  cases hf : x.state.phone.flight with
  | some leader =>
    rw [hf] at hexec
    obtain ⟨rfl,rfl⟩ := Prod.mk.inj (Option.some.inj hexec)
    exact ⟨hx,fun q _ => steady_refl q x,trivial⟩
  | none =>
    rw [hf] at hexec
    obtain ⟨rfl,rfl⟩ := Prod.mk.inj (Option.some.inj hexec)
    refine ⟨⟨fun h => hx.token (gone_entered.mp h),fun h => hx.refresh (gone_entered.mp h)⟩,?_,?_⟩
    · intro q hq
      refine ⟨own_record pid _ (some Note.entered) hq,List.subset_cons_self _ _,fun h => ?_,fun h => ?_,
        fun h => ?_⟩
      all_goals exact absurd (hf.symm.trans h) nofun
    · refine ⟨rfl,fun hc hg => ?_⟩
      exact gone_entered.mpr (gone_of_half hc (gone_entered.mp hg))

theorem secures_arm : Secures net pid (Leads pid) (perform (.getItem .refresh)) fun b x =>
    match truthy b with
    | none => Leads pid x
    | some _ => Armed pid x := by
  refine secures_perform (stable_leads pid) fun x t b hx hj _ hexec => ?_
  obtain ⟨rfl,rfl⟩ := Prod.mk.inj (Option.some.inj hexec)
  refine ⟨hx,fun q _ => steady_refl q x,?_⟩
  cases hb : truthy (x.state.phone.store .refresh) with
  | none => exact hj
  | some presented =>
    have hpresent : ¬ Gone .refresh x.log := by
      intro hg
      rw [hx.refresh hg] at hb
      exact nomatch hb
    exact ⟨hj.1,fun hc => ⟨fun hg => hpresent (hj.2 hc hg),hpresent⟩⟩

theorem secures_store (k : Key) (value : String) :
    Secures net pid (Armed pid) (perform (.setItem k value)) fun _ => Armed pid := by
  refine secures_perform (stable_armed pid) fun x t b hx hj hallow hexec => ?_
  obtain ⟨rfl,-⟩ := Prod.mk.inj (Option.some.inj hexec)
  obtain ⟨ht,hr⟩ := hj.2 hallow
  refine ⟨⟨fun h => absurd h ht,fun h => absurd h hr⟩,fun q _ => ?_,hj⟩
  exact ⟨rfl,List.Subset.refl _,id,fun _ => id,fun _ _ _ _ => id⟩

theorem secures_land (fresh : Bool) :
    Secures net pid (fun x => x.state.phone.flight = some pid) (perform (.land fresh))
      fun _ _ => True := by
  refine secures_perform (fun x y hs h => hs.flight h) fun x t b hx hj _ hexec => ?_
  obtain ⟨rfl,-⟩ := Prod.mk.inj (Option.some.inj hexec)
  refine ⟨⟨hx.token,hx.refresh⟩,fun q hq => ?_,trivial⟩
  refine ⟨rfl,List.Subset.refl _,fun h => ?_,fun h => ?_,fun h => ?_⟩
  all_goals exact absurd (Option.some.inj (hj.symm.trans h)).symm hq

theorem secures_delete (k : Key) (ns : List Note) :
    Secures net pid (fun x => ∀ n ∈ ns, (pid,n) ∈ x.log) (perform (.deleteItem k))
      fun _ x => ∀ n ∈ .deleted k :: ns, (pid,n) ∈ x.log := by
  refine secures_perform (stable_noted pid ns) fun x t b hx hj _ hexec => ?_
  obtain ⟨rfl,-⟩ := Prod.mk.inj (Option.some.inj hexec)
  have hgone : ∀ j, j ≠ k → Gone j ((pid,Note.deleted k) :: x.log) → Gone j x.log := by
    rintro j hj ⟨q,hq⟩
    rcases List.mem_cons.mp hq with he | h
    · exact absurd (Note.deleted.inj (Prod.mk.inj he).2) hj
    · exact ⟨q,h⟩
  have hcrossed : crossed ((pid,Note.deleted k) :: x.log) = false → k = .user := by
    intro hc
    cases k with
    | user => rfl
    | token => exact absurd hc nofun
    | refresh => exact absurd hc nofun
  have hstore : ∀ j, (Gone j x.log → x.state.phone.store j = none) →
      Gone j ((pid,Note.deleted k) :: x.log) → (x.state.phone.deleteItem k).store j = none := by
    intro j hold hg
    by_cases he : j = k
    · subst he
      exact Function.update_self _ _ _
    · exact (Function.update_of_ne he _ _).trans (hold (hgone j he hg))
  refine ⟨⟨hstore .token hx.token,hstore .refresh hx.refresh⟩,fun q hq => ?_,?_⟩
  · refine ⟨own_record pid _ (some (Note.deleted k)) hq,List.subset_cons_self _ _,id,fun _ hc => ?_,
      fun _ hc j hj hg => ?_⟩
    · obtain rfl := hcrossed hc
      exact hc
    · obtain rfl := hcrossed hc
      exact hgone j hj hg
  · intro n hn
    rcases List.mem_cons.mp hn with rfl | h
    · exact List.mem_cons_self
    · exact List.mem_cons_of_mem _ (hj n h)

theorem secures_renew (refreshToken : Option String) :
    Secures net pid
      (fun x => match truthy refreshToken with | none => Leads pid x | some _ => Armed pid x)
      (renew refreshToken) fun _ x => x.state.phone.flight = some pid := by
  unfold renew
  cases truthy refreshToken with
  | none => exact secures_ret fun _ h => h.1
  | some presented =>
    refine secures_bind (secures_read trivial (stable_armed pid)) fun answer => ?_
    cases succeeded answer with
    | none => exact secures_ret fun _ h => h.1
    | some res =>
      dsimp only
      cases truthy res.token with
      | none => exact secures_ret fun _ h => h.1
      | some access =>
        refine secures_bind (secures_store .token access) fun _ => ?_
        cases truthy res.refreshToken with
        | none => exact secures_ret fun _ h => h.1
        | some rotated =>
          exact secures_bind (secures_store .refresh rotated) fun _ => secures_ret fun _ h => h.1

theorem secures_refreshSession :
    Secures net pid (fun _ => True) refreshSession fun _ _ => True := by
  refine secures_bind secures_enter fun b => ?_
  cases b with
  | some leader =>
    exact secures_mono (fun _ h => h) (fun _ _ h => h) (secures_read trivial (stable_true pid))
  | none =>
    refine secures_bind secures_arm fun refreshToken => ?_
    refine secures_bind (secures_renew refreshToken) fun fresh => ?_
    exact secures_bind (secures_land fresh) fun _ => secures_ret fun _ h => h

theorem secures_attempt (url : Text) (header : Option String) :
    Secures net pid (fun _ => True) (attempt url header) fun _ _ => True := by
  refine secures_bind (secures_read trivial (stable_true pid)) fun token => ?_
  exact secures_bind (secures_read trivial (stable_true pid)) fun answer => secures_ret fun _ h => h

theorem secures_request (url : Text) :
    Secures net pid (fun _ => True) (request url) fun _ _ => True := by
  refine secures_bind (secures_attempt url none) fun b => ?_
  obtain ⟨header,answer⟩ := b
  dsimp only
  split
  · refine secures_bind secures_refreshSession fun fresh => ?_
    split
    · refine secures_bind (secures_read trivial (stable_true pid)) fun token => ?_
      refine secures_bind (secures_attempt url _) fun b => ?_
      exact secures_ret fun _ h => h
    · exact secures_ret fun _ h => h
  · exact secures_ret fun _ h => h

def Told (pid : Nat) (r : Ask) (_ : Result) (x : Traced Online Note) : Prop :=
  r = .logout → (pid,.deleted .token) ∈ x.log ∧ (pid,.deleted .refresh) ∈ x.log

theorem secures_logout :
    Secures net pid (fun _ => True) logout fun _ x =>
      ∀ n ∈ [Note.deleted .user,.deleted .refresh,.deleted .token], (pid,n) ∈ x.log := by
  refine secures_bind (secures_request authLogout) fun _ => ?_
  refine secures_mono (J := fun x => ∀ n ∈ ([] : List Note), (pid,n) ∈ x.log)
    (fun _ _ => nofun) (fun _ _ h => h) ?_
  refine secures_bind (secures_delete .token []) fun _ => ?_
  refine secures_bind (secures_delete .refresh _) fun _ => ?_
  refine secures_bind (secures_delete .user _) fun _ => ?_
  exact secures_read trivial (stable_noted pid _)

theorem secures_ask (r : Ask) :
    Secures net pid (fun _ => True) (ask r) fun a x => Told pid r a x := by
  cases r with
  | api url => exact secures_bind (secures_request url) fun _ => secures_ret fun _ _ => nofun
  | logout =>
    refine secures_bind secures_logout fun _ => secures_ret fun x h _ => ?_
    exact ⟨h _ (by simp),h _ (by simp)⟩

end Steps

section Runs

variable {net : Nat → Option Received} {s : Online} {es : List (Event (journaled net))}
  {v : World (journaled net)}

theorem logout_final (hcondition : Along (Landing StoresUncrossed) (begun s) es)
    (hv : (begun s).run es = some v) {pid : Nat} (hm : .start pid .logout ∈ es)
    (hreturned : v.returned pid = true) :
    v.state.state.phone.store .token = none ∧ v.state.state.phone.store .refresh = none := by
  have h0 : Cleared (⟨s,[]⟩ : Traced Online Note) :=
    ⟨fun ⟨_,h⟩ => absurd h List.not_mem_nil,fun ⟨_,h⟩ => absurd h List.not_mem_nil⟩
  obtain ⟨hcleared,htold⟩ := observed (D := session net) (Q := fun pid r a x => Told pid r a x)
    (fun pid r x _ hx _ => secures_ask r x hx trivial)
    (fun pid r a x y hs h hr => ⟨hs.grown (h hr).1,hs.grown (h hr).2⟩) (fun e => e.elim) h0
    hcondition hv
  obtain ⟨a,ha⟩ := World.returned_iff.mp hreturned
  obtain ⟨ht,hr⟩ := htold pid .logout a hm ha rfl
  exact ⟨hcleared.token ⟨pid,ht⟩,hcleared.refresh ⟨pid,hr⟩⟩

end Runs

instance storesUncrossedDecidable (pid : Nat) (x : Traced Online Note) (β : Type) :
    (i : PhoneCall β) → Decidable (StoresUncrossed pid x i)
  | .setItem _ _ => inferInstanceAs (Decidable (crossed x.log = false))
  | .getItem _ | .deleteItem _ | .send _ | .enter | .follow _ | .land _ | .signedIn _ _ | .check =>
      isTrue trivial

instance storesUncrossedLanding {net : Nat → Option Received} (w : World (journaled net))
    (e : Event (journaled net)) : Decidable (Landing StoresUncrossed w e) :=
  landingDecidable (S := journaled net) StoresUncrossed (h := storesUncrossedDecidable) w e

section Sample

def expired : Option Received := some ⟨401,none,none,"token expired"⟩

def renewed : Option Received := some ⟨200,some "access-2",some "refresh-2",""⟩

def done : Option Received := some ⟨200,none,none,"ok"⟩

def signedInPhone : Online where
  phone :=
    { store := fun
        | .token => some "access-1"
        | .refresh => some "refresh-1"
        | .user => some "admin"
      flight := none
      landed := fun _ => none
      user := some "admin"
      token := some "access-1"
      checked := true }
  sent := 0

def renewedFirst : Nat → Option Received
  | 0 => expired
  | 1 => renewed
  | _ => done

def renewThenLogout : List (Event (journaled renewedFirst)) :=
  .start 0 (.api "/server-hub/api/projects".toList) :: List.replicate 11 (.act 0) ++
    .start 1 .logout :: List.replicate 6 (.act 1)

theorem logout_final_renewed :
    ∃ v : World (journaled renewedFirst), (begun signedInPhone).run renewThenLogout = some v ∧
      v.state.state.phone.store .token = none ∧ v.state.state.phone.store .refresh = none := by
  have hcondition : Along (Landing StoresUncrossed) (begun signedInPhone) renewThenLogout := by decide
  have hrun : ((begun signedInPhone).run renewThenLogout).map (fun v => v.returned 1) = some true := by
    rfl
  obtain ⟨v,hv,hreturned⟩ := Option.map_eq_some_iff.mp hrun
  have hstart : .start 1 .logout ∈ renewThenLogout := by simp [renewThenLogout]
  exact ⟨v,hv,logout_final hcondition hv hstart hreturned⟩

def renewedLast : Nat → Option Received
  | 0 => expired
  | 2 => renewed
  | _ => done

def logoutDuringRenewal : List (Event (journaled renewedLast)) :=
  .start 0 (.api "/server-hub/api/projects".toList) :: List.replicate 4 (.act 0) ++
    .start 1 .logout :: List.replicate 6 (.act 1) ++ List.replicate 3 (.act 0)

theorem tokens_after_logout :
    ∃ v : World (journaled renewedLast), (begun signedInPhone).run logoutDuringRenewal = some v ∧
      v.returned 1 = true ∧ v.state.state.phone.store .token = some "access-2" ∧
      v.state.state.phone.store .refresh = some "refresh-2" := by
  have hrun : ((begun signedInPhone).run logoutDuringRenewal).map (fun v =>
      (v.returned 1,v.state.state.phone.store .token,v.state.state.phone.store .refresh)) =
        some (true,some "access-2",some "refresh-2") := by rfl
  obtain ⟨v,hv,he⟩ := Option.map_eq_some_iff.mp hrun
  obtain ⟨hreturned,htokens⟩ := Prod.mk.inj he
  exact ⟨v,hv,hreturned,Prod.mk.inj htokens⟩

end Sample

end Mobile
