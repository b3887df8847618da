import ServerHub.Auth.Limiter
import ServerHub.Auth.Requests
import ServerHub.Go.Json
import ServerHub.Interleave.Contract

namespace Auth

open Go Interleave

inductive Content where
  | absent
  | read (body : Json.Bytes)
  | failed
deriving DecidableEq

def Content.text (s : String) : Content := .read (Json.bytes s)

def peekUsername : Content → String
  | .read body =>
      match Json.unmarshal ["username"] body with
      | some v => v "username"
      | none => ""
  | _ => ""

def shouldBindJSON (fields : List String) : Content → Option (String → String)
  | .read body => Json.decode fields body
  | _ => none

def bindCredentials (c : Content) : Option Credentials :=
  (shouldBindJSON ["username","password"] c).map fun v => ⟨v "username",v "password"⟩

inductive Endpoint where
  | login
  | token
  | register
  | enroll
deriving DecidableEq

structure Guarded where
  endpoint : Endpoint
  ip : String
  content : Content
deriving DecidableEq

-- VgRegister and VgEnroll check no account's password
def Guarded.handler (env : Env) (r : Guarded) : Option (Handler Reply) :=
  match r.endpoint with
  | .login => some (login env (bindCredentials r.content))
  | .token => some (token env (bindCredentials r.content))
  | _ => none

def Checks (h : Handler Reply) (u : String) : Prop := ∃ k, h = .step (.credentials u) k

structure Rejection where
  status : Nat
  retryAfter : Int
  error : String
deriving DecidableEq

namespace LoginLimiter

variable (spare : Nat → List Int)

def arrive (l : LoginLimiter) (r : Guarded) (now later : Int) : LoginLimiter × Option Rejection :=
  match l.blocked spare now later r.ip (peekUsername r.content) with
  | (l,true,wait) =>
      (l,some ⟨429,max (wait.tdiv second + 1) 0,"too many login attempts, retry later"⟩)
  | (l,false,_) => (l,none)

def answer (l : LoginLimiter) (r : Guarded) (status : Nat) (now check later : Int) :
    LoginLimiter × Bool :=
  let user := peekUsername r.content
  if status = 200 then (l.recordSuccess user,false)
  else if status = 401 then
    let x := (l.recordFailure spare now r.ip user).blocked spare check later r.ip user
    (x.1,x.2.1)
  else (l,false)

end LoginLimiter

structure Gate where
  limiter : LoginLimiter
  inside : List Guarded

inductive Exchange where
  | arrive (r : Guarded) (now later : Int)
  | answer (r : Guarded) (status : Nat) (now check later : Int)

namespace Gate

variable (spare : Nat → List Int)

def fresh : Gate := ⟨.fresh,[]⟩

def step (g : Gate) : Exchange → Option Gate
  | .arrive r now later =>
      let x := g.limiter.arrive spare r now later
      some ⟨x.1,if x.2.isNone then r :: g.inside else g.inside⟩
  | .answer r status now check later =>
      if r ∈ g.inside then
        some ⟨(g.limiter.answer spare r status now check later).1,g.inside.erase r⟩
      else none

def run (g : Gate) : List Exchange → Option Gate
  | [] => some g
  | e :: es => (g.step spare e).bind fun g => g.run es

def Along (C : Gate → Exchange → Prop) (g : Gate) : List Exchange → Prop
  | [] => True
  | e :: es => C g e ∧ ∀ g', g.step spare e = some g' → Along C g' es

end Gate

def Exchange.Possible (env : Env) : Exchange → Prop
  | .arrive _ _ _ => True
  | .answer r status _ _ _ =>
      ∀ h, r.handler env = some h → ¬h.Ends fun reply => reply.status ≠ status

def Exchange.OwnLogin (u : String) : Exchange → Prop
  | .arrive _ _ _ => False
  | .answer r status _ _ _ =>
      r.endpoint ∈ [Endpoint.login,.token] ∧ status = 200 ∧
        ∃ b, bindCredentials r.content = some b ∧ b.username = u

def Gate.Isolated (g : Gate) : Exchange → Prop
  | .arrive _ _ _ => True
  | .answer r status _ _ _ =>
      (status = 401 → peekUsername r.content ≠ "" →
        g.limiter.accounts.keys.length < maxTrackedAccts) ∧
      (status = 200 → r.endpoint ∈ [Endpoint.register,.enroll] →
        peekUsername r.content ∉ g.limiter.accounts)

section Peek

variable {env : Env} {c : Content} {b : Credentials} {u : String}

theorem bound_eq (h : bindCredentials c = some b) :
    ∃ body v rest r, c = .read body ∧ Json.firstValue body = some (v,rest) ∧
      Json.record ["username"] v = some r ∧ r "username" = b.username := by
  obtain ⟨full,hfull,rfl⟩ := Option.map_eq_some_iff.mp h
  cases c with
  | absent => cases hfull
  | failed => cases hfull
  | read body =>
    obtain ⟨v,rest,hv,hr⟩ := Json.decode_eq_some.mp hfull
    have hapart : ∀ g ∈ ["password"], equalFold g "username" = false := by decide
    obtain ⟨r,hsingle,hsame⟩ := Json.record_single hapart hr
    exact ⟨body,v,rest,r,rfl,hv,hsingle,hsame⟩

theorem peek_read {body rest : Json.Bytes} {v : Json.Value} {r : String → String}
    (hv : Json.firstValue body = some (v,rest)) (hr : Json.record ["username"] v = some r) :
    peekUsername (.read body) = if rest.all Json.isSpace then r "username" else "" := by
  simp only [peekUsername,Json.unmarshal,hv,hr]
  by_cases hrest : rest.all Json.isSpace
  · rw [if_pos hrest,if_pos hrest]
  · rw [if_neg hrest,if_neg hrest]

theorem peek_bound (h : bindCredentials c = some b) :
    peekUsername c = b.username ∨ peekUsername c = "" := by
  obtain ⟨body,v,rest,r,rfl,hv,hr,hsame⟩ := bound_eq h
  rw [peek_read hv hr,hsame]
  split
  · exact .inl rfl
  · exact .inr rfl

theorem authenticate_checks {answer : User → String → String → Reply} {body : Option Credentials}
    (h : Checks (authenticate env body answer) u) : ∃ b, body = some b ∧ b.username = u ∧ u ≠ "" := by
  obtain ⟨k,hk⟩ := h
  cases body with
  | none => cases hk
  | some b =>
    simp only [authenticate] at hk
    split at hk
    · cases hk
    · rename_i hne
      simp only [verifyCredentials,Prog.perform] at hk
      cases hk
      exact ⟨b,rfl,rfl,fun hu => hne (by simp [hu])⟩

theorem checks_bound (h : Checks (login env (bindCredentials c)) u ∨
    Checks (token env (bindCredentials c)) u) :
    ∃ b, bindCredentials c = some b ∧ b.username = u ∧ u ≠ "" :=
  h.elim authenticate_checks authenticate_checks

theorem peek_counts (h : Checks (login env (bindCredentials c)) u ∨
    Checks (token env (bindCredentials c)) u) :
    peekUsername c = u ↔
      ∃ body v rest, c = .read body ∧ Json.firstValue body = some (v,rest) ∧ rest.all Json.isSpace := by
  obtain ⟨b,hb,rfl,hne⟩ := checks_bound h
  obtain ⟨body,v,rest,r,rfl,hv,hr,hsame⟩ := bound_eq hb
  rw [peek_read hv hr,hsame]
  constructor
  · intro hpeek
    by_cases hrest : rest.all Json.isSpace
    · exact ⟨body,v,rest,rfl,hv,hrest⟩
    · rw [if_neg hrest] at hpeek
      exact absurd hpeek.symm hne
  · rintro ⟨_,_,_,⟨⟩,hfirst,hrest⟩
    cases hv.symm.trans hfirst
    rw [if_pos hrest]

theorem checks_of_bound (h : bindCredentials c = some b) (hu : b.username ≠ "")
    (hp : b.password ≠ "") : Checks (login env (bindCredentials c)) b.username := by
  simp only [h,login,authenticate,verifyCredentials,Prog.perform]
  rw [if_neg (by simp [hu,hp])]
  exact ⟨_,rfl⟩

end Peek

def signIn (rest : String) : Content :=
  .text ("\x7b\"username\":\"u\",\"password\":\"p\"\x7d" ++ rest)

theorem newline_counted : peekUsername (signIn "\n") = "u" := by
  have hchecks : Checks (login plain (bindCredentials (signIn "\n"))) "u" :=
    checks_of_bound (b := ⟨"u","p"⟩) (by decide +kernel) (by decide) (by decide)
  refine (peek_counts (.inl hchecks)).mpr ?_
  have hvalue : ((Json.firstValue (Json.bytes "\x7b\"username\":\"u\",\"password\":\"p\"\x7d\n")).map
      fun x => x.2.all Json.isSpace) = some true := by decide +kernel
  obtain ⟨⟨v,rest⟩,hv,hrest⟩ := Option.map_eq_some_iff.mp hvalue
  exact ⟨_,v,rest,rfl,hv,hrest⟩

theorem trailing_uncounted : ¬∀ (env : Env) (c : Content) (u : String),
    Checks (login env (bindCredentials c)) u ∨ Checks (token env (bindCredentials c)) u →
      peekUsername c = u := by
  intro h
  have hpeek : peekUsername (signIn "x") = "" := by decide +kernel
  have hchecks : Checks (login plain (bindCredentials (signIn "x"))) "u" :=
    checks_of_bound (b := ⟨"u","p"⟩) (by decide +kernel) (by decide) (by decide)
  have hcounted := h plain (signIn "x") "u" (.inl hchecks)
  rw [hpeek] at hcounted
  exact absurd hcounted (by decide)

end Auth
