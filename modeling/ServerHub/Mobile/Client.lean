import ServerHub.Interleave.Sequential
import ServerHub.Posix.Path

namespace Mobile

open Posix Interleave Interleave.Prog

inductive Key where
  | token
  | refresh
  | user
deriving DecidableEq

structure Sent where
  url : Text
  authorization : Option String
  refreshToken : Option String
deriving DecidableEq

structure Received where
  status : Nat
  token : Option String
  refreshToken : Option String
  data : String
deriving DecidableEq

-- one await each: an operation of SecureStore, an answer of the network (none: not reached), the
-- guard and the end of the renewal in flight; signedIn and check are the store's set
inductive PhoneCall : Type → Type where
  | getItem (k : Key) : PhoneCall (Option String)
  | setItem (k : Key) (value : String) : PhoneCall Unit
  | deleteItem (k : Key) : PhoneCall Unit
  | send (r : Sent) : PhoneCall (Option Received)
  | enter : PhoneCall (Option Nat)
  | follow (leader : Nat) : PhoneCall Bool
  | land (fresh : Bool) : PhoneCall Unit
  | signedIn (user token : Option String) : PhoneCall Unit
  | check : PhoneCall Unit

abbrev Routine := Prog PhoneCall

def api : Text := "/server-hub/api".toList

def authRefresh : Text := api ++ "/auth/refresh".toList

def authLogout : Text := api ++ "/auth/logout".toList

def authMe : Text := api ++ "/auth/me".toList

def isAuthPath (url : Text) : Bool := decide ("/server-hub/api/auth/".toList <:+: url)

-- an empty string counts as none
def truthy (value : Option String) : Option String := value.filter (· ≠ "")

def succeeded (answer : Option Received) : Option Received :=
  answer.filter fun r => 200 ≤ r.status && r.status < 300

def unauthorized (answer : Option Received) : Bool := answer.any fun r => r.status == 401

def bearer (token : Option String) : Option String := (truthy token).map ("Bearer " ++ ·)

def attempt (url : Text) (header : Option String) :
    Routine (Option String × Option Received) := do
  let token ← perform (.getItem .token)
  let header := (bearer token).or header
  let answer ← perform (.send ⟨url,header,none⟩)
  return (header,answer)

def renew (refreshToken : Option String) : Routine Bool := do
  match truthy refreshToken with
  | none => return false
  | some presented =>
  match succeeded (← perform (.send ⟨authRefresh,none,some presented⟩)) with
  | none => return false
  | some res =>
  match truthy res.token with
  | none => return false
  | some access =>
      perform (.setItem .token access)
      match truthy res.refreshToken with
      | none => return true
      | some rotated =>
          perform (.setItem .refresh rotated)
          return true

def refreshSession : Routine Bool := do
  match ← perform .enter with
  | some leader => perform (.follow leader)
  | none =>
      let refreshToken ← perform (.getItem .refresh)
      let fresh ← renew refreshToken
      perform (.land fresh)
      return fresh

def request (url : Text) : Routine (Option Received) := do
  let (header,answer) ← attempt url none
  if unauthorized answer && !isAuthPath url then
    if ← refreshSession then
      let token ← perform (.getItem .token)
      let (_,again) ← attempt url ((bearer token).or header)
      return again
    else return answer
  else return answer

def logout : Routine Unit := do
  let _ ← request authLogout
  perform (.deleteItem .token)
  perform (.deleteItem .refresh)
  perform (.deleteItem .user)
  perform (.signedIn none none)

def hydrate : Routine Unit := do
  let token ← perform (.getItem .token)
  let userJson ← perform (.getItem .user)
  match truthy token, truthy userJson with
  | some token, some _ =>
      match succeeded (← request authMe) with
      | some freshUser =>
          perform (.setItem .user freshUser.data)
          perform (.signedIn (some freshUser.data) (some token))
          perform .check
      | none =>
          perform (.deleteItem .token)
          perform (.deleteItem .refresh)
          perform (.deleteItem .user)
          perform (.signedIn none none)
          perform .check
  | _, _ => perform .check

structure Phone where
  store : Key → Option String
  flight : Option Nat
  landed : Nat → Option Bool
  user : Option String
  token : Option String
  checked : Bool

namespace Phone

variable (s : Phone)

def setItem (k : Key) (value : String) : Phone :=
  { s with store := Function.update s.store k (some value) }

def deleteItem (k : Key) : Phone := { s with store := Function.update s.store k none }

def land (pid : Nat) (fresh : Bool) : Phone :=
  { s with flight := none, landed := Function.update s.landed pid (some fresh) }

end Phone

end Mobile
