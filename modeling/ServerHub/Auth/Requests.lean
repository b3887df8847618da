import ServerHub.Auth.Accounts
import ServerHub.Interleave.Program

namespace Auth

open Go Relational Interleave Interleave.Prog

structure Env where
  hashRefresh : String → String
  generateFromPassword : String → String → Except String String
  compareHashAndPassword : String → String → Bool

def plain : Env := ⟨id,fun _ password => .ok password,fun hash password => hash == password⟩

def refreshTTL : Int := 7 * 24 * hour

inductive Cookies where
  | unchanged
  | session (access refresh : String)
  | cleared
deriving DecidableEq

inductive Body where
  | error (text : String)
  | user (username : String) (role : Role)
  | session (username : String) (role : Role) (token : String) (refreshToken : Option String)
  | ok
deriving DecidableEq

structure Reply where
  status : Nat
  body : Body
  cookies : Cookies
deriving DecidableEq

def Reply.failed (status : Nat) (text : String) : Reply := ⟨status,.error text,.unchanged⟩

def Reply.expelled (text : String) : Reply := ⟨401,.error text,.cleared⟩

structure NewUser where
  username : String
  password : String
  role : Role
deriving DecidableEq

structure Credentials where
  username : String
  password : String
deriving DecidableEq

structure PasswordChange where
  currentPassword : String
  newPassword : String
deriving DecidableEq

inductive Request where
  | create (self : String) (body : Option NewUser)
  | setRole (self target : String) (body : Option Role)
  | delete (self target : String)
  | login (body : Option Credentials)
  | token (body : Option Credentials)
  | refresh (cookie body : Option String)
  | logout (self : String) (cookie body : Option String)
  | logoutAll (self : String)
  | changePassword (self : String) (body : Option PasswordChange)
deriving DecidableEq

def usernameChar (c : Char) : Bool :=
  ('a' ≤ c && c ≤ 'z') || ('A' ≤ c && c ≤ 'Z') || ('0' ≤ c && c ≤ '9') || c == '.' || c == '_' ||
    c == '-'

@[irreducible] def validUsername (u : String) : Bool :=
  u.toList.all usernameChar && 2 ≤ u.toList.length && u.toList.length ≤ 64

abbrev Handler := Prog Query

def hashPassword (env : Env) (password : String) : Handler (Except String String) := do
  match ← perform .random with
  | .error e => return .error e
  | .ok salt => return env.generateFromPassword salt password

def taken (answer : Except String Nat) : Bool :=
  match answer with
  | .error _ => false
  | .ok n => 0 < n

def createUser (env : Env) (body : Option NewUser) : Handler Reply :=
  match body with
  | none => return .failed 400 "username, password and role are required"
  | some b =>
      let username := trimSpace b.username
      if !validUsername username then
        return .failed 400 "invalid username (2-64 chars: letters, digits, . _ -)"
      else if utf8Length b.password < 8 then
        return .failed 400 "password must be at least 8 characters"
      else if !validRole b.role then return .failed 400 "role must be viewer, operator or admin"
      else do
        if taken (← perform (.countUsers username)) then return .failed 409 "user already exists"
        else
          match ← hashPassword env b.password with
          | .error _ => return .failed 500 "could not hash password"
          | .ok hash =>
              match ← perform (.insertUser username hash b.role) with
              | .error e => return .failed 500 e
              | .ok _ => return ⟨201,.user username b.role,.unchanged⟩

def adminCount : Handler Nat := do
  match ← perform .adminCount with
  | .error _ => return 0
  | .ok n => return n

def revokeAllRefreshes (username : String) : Handler Unit := do
  let _ ← perform (.revokeAllRefreshes username)

def writeRole (target : String) (current role : Role) : Handler Reply := do
  match ← perform (.setRole role target) with
  | .error e => return .failed 500 e
  | .ok _ =>
      if role != current then revokeAllRefreshes target
      return ⟨200,.user target role,.unchanged⟩

def setRole (self target : String) (body : Option Role) : Handler Reply :=
  match body with
  | none => return .failed 400 "role must be viewer, operator or admin"
  | some role =>
      if !validRole role then return .failed 400 "role must be viewer, operator or admin"
      else do
        match ← perform (.roleOf target) with
        | .error _ => return .failed 404 "user not found"
        | .ok current =>
            if target == self && role != current then
              return .failed 400 "cannot change your own role"
            else if current == .admin && role != .admin then
              if (← adminCount) ≤ 1 then return .failed 400 "cannot demote the last admin"
              else writeRole target current role
            else writeRole target current role

def removeUser (target : String) : Handler Reply := do
  match ← perform (.deleteUser target) with
  | .error e => return .failed 500 e
  | .ok 0 => return .failed 404 "user not found"
  | .ok _ =>
      revokeAllRefreshes target
      return ⟨200,.ok,.unchanged⟩

def deleteUser (self target : String) : Handler Reply := do
  match ← perform (.roleOf target) with
  | .error _ => return .failed 404 "user not found"
  | .ok current =>
      if target == self then return .failed 400 "cannot delete your own account"
      else if current == .admin then
        if (← adminCount) ≤ 1 then return .failed 400 "cannot delete the last admin"
        else removeUser target
      else removeUser target

def storeRefresh (env : Env) (username token : String) : Handler (Except String Unit) := do
  let now ← perform .clock
  perform (.storeRefresh (env.hashRefresh token) username (now + refreshTTL))

def issuePair (env : Env) (username : String) (role : Role) :
    Handler (Except String (String × String)) := do
  match ← perform (.signAccess username role) with
  | .error e => return .error e
  | .ok access =>
      match ← perform .random with
      | .error e => return .error e
      | .ok refresh =>
          match ← storeRefresh env username refresh with
          | .error e => return .error e
          | .ok _ => return .ok (access,refresh)

def verifyCredentials (env : Env) (username password : String) : Handler (Option User) := do
  match ← perform (.credentials username) with
  | .error _ => return none
  | .ok user =>
      if env.compareHashAndPassword user.passwordHash password then return some user
      else return none

def authenticate (env : Env) (body : Option Credentials)
    (answer : User → String → String → Reply) : Handler Reply :=
  match body with
  | none => return .failed 400 "username and password required"
  | some b =>
      if b.username == "" || b.password == "" then
        return .failed 400 "username and password required"
      else do
        match ← verifyCredentials env b.username b.password with
        | none => return .failed 401 "invalid credentials"
        | some user =>
            match ← issuePair env user.username user.role with
            | .error _ => return .failed 500 "could not create session"
            | .ok (access,refresh) => return answer user access refresh

def login (env : Env) (body : Option Credentials) : Handler Reply :=
  authenticate env body fun user access refresh =>
    ⟨200,.session user.username user.role access none,.session access refresh⟩

def token (env : Env) (body : Option Credentials) : Handler Reply :=
  authenticate env body fun user access refresh =>
    ⟨200,.session user.username user.role access (some refresh),.unchanged⟩

def presented (cookie body : Option String) : String :=
  match cookie with
  | none => body.getD ""
  | some c => if c == "" then body.getD "" else c

def expelReused (username : String) : Handler Reply := do
  let _ ← perform (.revokeAllRefreshesExceptRecent username reuseLeeway)
  return .expelled "invalid session"

def rotate (env : Env) (tokenHash username : String) (role : Role) : Handler Reply := do
  match ← perform (.claimToken tokenHash) with
  | .error _ => return .failed 500 "could not refresh session"
  | .ok 0 => expelReused username
  | .ok _ =>
      match ← issuePair env username role with
      | .error _ => return .failed 500 "could not refresh session"
      | .ok (access,refresh) =>
          return ⟨200,.session username role access (some refresh),.session access refresh⟩

def refresh (env : Env) (cookie body : Option String) : Handler Reply :=
  let presented := presented cookie body
  if presented == "" then return .failed 401 "refresh token required"
  else do
    let tokenHash := env.hashRefresh presented
    match ← perform (.loadToken tokenHash) with
    | .error _ => return .failed 401 "invalid session"
    | .ok row =>
        if row.revoked then expelReused row.username
        else
          if row.expiresAt < (← perform .clock) then
            let _ ← perform (.deleteToken tokenHash)
            return .expelled "session expired"
          else
            match ← perform (.roleOf row.username) with
            | .error _ =>
                let _ ← perform (.revokeRefresh tokenHash)
                return .failed 401 "invalid session"
            | .ok role => rotate env tokenHash row.username role

def logout (env : Env) (cookie body : Option String) : Handler Reply := do
  let refresh := presented cookie body
  if refresh != "" then
    let _ ← perform (.revokeRefresh (env.hashRefresh refresh))
  return ⟨200,.ok,.cleared⟩

def logoutAll (self : String) : Handler Reply := do
  revokeAllRefreshes self
  return ⟨200,.ok,.cleared⟩

def changePassword (env : Env) (self : String) (body : Option PasswordChange) : Handler Reply :=
  match body with
  | none => return .failed 400 "currentPassword and newPassword are required"
  | some b =>
      if b.currentPassword == "" || b.newPassword == "" then
        return .failed 400 "currentPassword and newPassword are required"
      else if utf8Length b.newPassword < 8 then
        return .failed 400 "new password must be at least 8 characters"
      else do
        match ← perform (.passwordHash self) with
        | .error _ => return .failed 401 "user not found"
        | .ok hash =>
            if !env.compareHashAndPassword hash b.currentPassword then
              return .failed 401 "current password is incorrect"
            else
              match ← hashPassword env b.newPassword with
              | .error _ => return .failed 500 "could not hash password"
              | .ok newHash =>
                  match ← perform (.setPassword newHash self) with
                  | .error _ => return .failed 500 "could not update password"
                  | .ok _ =>
                      revokeAllRefreshes self
                      return ⟨200,.ok,.unchanged⟩

def handle (env : Env) : Request → Handler Reply
  | .create _ body => createUser env body
  | .setRole self target body => setRole self target body
  | .delete self target => deleteUser self target
  | .login body => login env body
  | .token body => token env body
  | .refresh cookie body => refresh env cookie body
  | .logout _ cookie body => logout env cookie body
  | .logoutAll self => logoutAll self
  | .changePassword self body => changePassword env self body

def accounts (env : Env) : System where
  Instr := Query
  State := Database
  Request := Request
  Answer := Reply
  Env := Empty
  exec _ _ q d := some (q.exec d)
  handle := handle env
  env e _ := e.elim

def Query.creates : {β : Type} → Query β → Prop
  | _, .countUsers _ | _, .random | _, .insertUser _ _ _ => True
  | _, _ => False

def Query.governs : {β : Type} → Query β → Prop
  | _, .roleOf _ | _, .adminCount | _, .setRole _ _ | _, .deleteUser _
  | _, .revokeAllRefreshes _ => True
  | _, _ => False

def Query.authenticates : {β : Type} → Query β → Prop
  | _, .credentials _ | _, .signAccess _ _ | _, .random | _, .clock | _, .storeRefresh _ _ _ => True
  | _, _ => False

def Query.rotates : {β : Type} → Query β → Prop
  | _, .loadToken _ | _, .revokeAllRefreshesExceptRecent _ _ | _, .clock | _, .deleteToken _
  | _, .roleOf _ | _, .revokeRefresh _ | _, .claimToken _ | _, .signAccess _ _ | _, .random
  | _, .storeRefresh _ _ _ => True
  | _, _ => False

def Query.changesPassword : {β : Type} → Query β → Prop
  | _, .passwordHash _ | _, .random | _, .setPassword _ _ | _, .revokeAllRefreshes _ => True
  | _, _ => False

def Request.runs : Request → {β : Type} → Query β → Prop
  | .create _ _, _, q => q.creates
  | .setRole _ _ _, _, q | .delete _ _, _, q => q.governs
  | .login _, _, q | .token _, _, q => q.authenticates
  | .refresh _ _, _, q => q.rotates
  | .logout _ _ _, _, q => q.rotates
  | .logoutAll _, _, q | .changePassword _ _, _, q => q.changesPassword

section Footprints

variable {P : {β : Type} → Query β → Prop} {env : Env}

theorem uses_hashPassword (hr : P .random) {f : Except String String → Handler Reply}
    (hf : ∀ a, (f a).Uses P) (password : String) : (hashPassword env password >>= f).Uses P := by
  refine ⟨hr,fun salt => ?_⟩
  cases salt with
  | error e => exact hf _
  | ok salt => exact hf _

theorem uses_adminCount (h : P .adminCount) {f : Nat → Handler Reply} (hf : ∀ n, (f n).Uses P) :
    (adminCount >>= f).Uses P := by
  refine ⟨h,fun count => ?_⟩
  cases count with
  | error e => exact hf _
  | ok n => exact hf _

theorem uses_issuePair (hs : ∀ username role, P (.signAccess username role)) (hr : P .random)
    (hc : P .clock) (ht : ∀ tokenHash username expiresAt, P (.storeRefresh tokenHash username expiresAt))
    (username : String) (role : Role) : (issuePair env username role).Uses P := by
  refine ⟨hs username role,fun access => ?_⟩
  cases access with
  | error e => trivial
  | ok access =>
    refine ⟨hr,fun refresh => ?_⟩
    cases refresh with
    | error e => trivial
    | ok refresh =>
      refine ⟨hc,fun now => ⟨ht _ _ _,fun stored => ?_⟩⟩
      cases stored <;> trivial

theorem uses_authenticate (hu : ∀ username, P (.credentials username))
    (hs : ∀ username role, P (.signAccess username role)) (hr : P .random) (hc : P .clock)
    (ht : ∀ tokenHash username expiresAt, P (.storeRefresh tokenHash username expiresAt))
    (body : Option Credentials) (answer : User → String → String → Reply) :
    (authenticate env body answer).Uses P := by
  cases body with
  | none => trivial
  | some b =>
    refine uses_ite trivial ?_
    refine uses_bind ?_ fun checked => ?_
    · refine ⟨hu b.username,fun user => ?_⟩
      cases user with
      | error e => trivial
      | ok user => exact uses_ite trivial trivial
    · cases checked with
      | none => trivial
      | some user =>
        refine uses_bind (uses_issuePair hs hr hc ht _ _) fun pair => ?_
        cases pair <;> trivial

theorem uses_handle (r : Request) : (handle env r).Uses r.runs := by
  cases r with
  | create self body =>
    cases body with
    | none => trivial
    | some b =>
      refine uses_ite trivial (uses_ite trivial (uses_ite trivial ⟨trivial,fun count => ?_⟩))
      refine uses_ite trivial (uses_hashPassword trivial (fun hash => ?_) _)
      cases hash with
      | error e => trivial
      | ok hash =>
        refine ⟨trivial,fun inserted => ?_⟩
        cases inserted <;> trivial
  | setRole self target body =>
    have hwrite : ∀ current role,
        (writeRole target current role).Uses (Request.setRole self target body).runs := by
      intro current role
      refine ⟨trivial,fun written => ?_⟩
      cases written with
      | error e => trivial
      | ok _ => exact uses_ite ⟨trivial,fun _ => trivial⟩ trivial
    cases body with
    | none => trivial
    | some role =>
      refine uses_ite trivial ⟨trivial,fun current => ?_⟩
      cases current with
      | error e => trivial
      | ok current =>
        refine uses_ite trivial (uses_ite ?_ (hwrite current role))
        exact uses_adminCount trivial fun _ => uses_ite trivial (hwrite current role)
  | delete self target =>
    have hremove : (removeUser target).Uses (Request.delete self target).runs := by
      refine ⟨trivial,fun removed => ?_⟩
      rcases removed with e | _ | n
      · trivial
      · trivial
      · exact ⟨trivial,fun _ => trivial⟩
    refine ⟨trivial,fun current => ?_⟩
    cases current with
    | error e => trivial
    | ok current =>
      refine uses_ite trivial (uses_ite ?_ hremove)
      exact uses_adminCount trivial fun _ => uses_ite trivial hremove
  | login body =>
    exact uses_authenticate (fun _ => trivial) (fun _ _ => trivial) trivial trivial
      (fun _ _ _ => trivial) body _
  | token body =>
    exact uses_authenticate (fun _ => trivial) (fun _ _ => trivial) trivial trivial
      (fun _ _ _ => trivial) body _
  | refresh cookie body =>
    refine uses_ite trivial ⟨trivial,fun row => ?_⟩
    cases row with
    | error e => trivial
    | ok row =>
      refine uses_ite ⟨trivial,fun _ => trivial⟩ ⟨trivial,fun now => ?_⟩
      refine uses_ite ⟨trivial,fun _ => trivial⟩ ⟨trivial,fun role => ?_⟩
      cases role with
      | error e => exact ⟨trivial,fun _ => trivial⟩
      | ok role =>
        refine ⟨trivial,fun claimed => ?_⟩
        rcases claimed with e | _ | n
        · trivial
        · exact ⟨trivial,fun _ => trivial⟩
        · refine uses_bind (p := issuePair env row.username role) ?_ fun pair => ?_
          · exact uses_issuePair (fun _ _ => trivial) trivial trivial (fun _ _ _ => trivial) _ _
          · cases pair <;> trivial
  | logout self cookie body => exact uses_ite ⟨trivial,fun _ => trivial⟩ trivial
  | logoutAll self => exact ⟨trivial,fun _ => trivial⟩
  | changePassword self body =>
    cases body with
    | none => trivial
    | some b =>
      refine uses_ite trivial (uses_ite trivial ⟨trivial,fun hash => ?_⟩)
      cases hash with
      | error e => trivial
      | ok hash =>
        refine uses_ite trivial (uses_hashPassword trivial (fun newHash => ?_) _)
        cases newHash with
        | error e => trivial
        | ok newHash =>
          refine ⟨trivial,fun written => ?_⟩
          cases written with
          | error e => trivial
          | ok _ => exact ⟨trivial,fun _ => trivial⟩

end Footprints

end Auth
