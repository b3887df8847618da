import ServerHub.Go.Strings
import Mathlib.Logic.Function.Basic

namespace Databases

structure Target where
  engine : String
  source : String
  host : String
  port : Int
  container : String
  username : String
  password : String

def dbEngines : List String := ["postgres","mysql","redis","mongo"]

def dbDefaultPort (engine : String) : Int :=
  if engine = "postgres" then 5432
  else if engine = "mysql" then 3306
  else if engine = "redis" then 6379
  else if engine = "mongo" then 27017
  else 0

def dbServerKey (t : Target) : String :=
  Go.join [Go.toLower (Go.trimSpace t.source),Go.toLower (Go.trimSpace t.engine),
    Go.toLower (Go.trimSpace t.host),toString t.port,Go.trimSpace t.container] '|'

-- an error with its authRequired flag, or the number of databases listed
abbrev Listing := Except (Bool × String) Nat

structure Servers where
  pgContainerUser : String → String
  listPostgresExec : String → String → String → Listing
  listPostgresDirect : String → Int → String → String → Listing
  listMysqlExec : String → String → String → Listing
  listMysqlDirect : String → Int → String → String → Listing
  listRedisExec : String → String → Listing
  listRedisDirect : String → Int → String → Listing
  listMongoExec : String → String → String → Listing

def hostRequired : Listing := .error (false,"host is required for non-docker sources")

def browse (s : Servers) (t : Target) (user pass : String) : Listing :=
  let inDocker := t.source = "docker" ∧ Go.trimSpace t.container ≠ ""
  if t.engine = "postgres" then
    if inDocker then
      s.listPostgresExec t.container (if user = "" then s.pgContainerUser t.container else user) pass
    else if Go.trimSpace t.host = "" then hostRequired
    else s.listPostgresDirect t.host t.port user pass
  else if t.engine = "mysql" then
    if inDocker then s.listMysqlExec t.container (if user = "" then "root" else user) pass
    else if Go.trimSpace t.host = "" then hostRequired
    else if user = "" then .error (true,"username and password are required")
    else s.listMysqlDirect t.host t.port user pass
  else if t.engine = "redis" then
    if inDocker then s.listRedisExec t.container pass
    else if Go.trimSpace t.host = "" then hostRequired
    else s.listRedisDirect t.host t.port pass
  else if t.engine = "mongo" then
    if inDocker then s.listMongoExec t.container user pass
    else .error (false,"direct MongoDB connections are not supported yet — run it as a container or save a connection first")
  else .error (false,"unknown engine")

-- keyed: the configured encryption key is one; a seed stands for the random nonce
structure Crypto where
  keyed : Bool
  encrypt : Nat → String → Option (String × String)
  decrypt : String → String → Option String
  undoes : ∀ seed p enc nonce, encrypt seed p = some (enc,nonce) → enc ≠ "" ∧ decrypt enc nonce = some p

structure Row where
  engine : String
  source : String
  host : String
  port : Int
  container : String
  username : String
  encryptedValue : String
  nonce : String
  updatedAt : Nat

-- time counts requests
structure DB where
  servers : String → Option Row
  clock : Nat

def DB.empty : DB := ⟨fun _ => none,0⟩

-- the world of one request: the database servers, the randomness, and which statements fail
structure Surroundings where
  servers : Servers
  seed : Nat
  projectFound : Bool
  savedFails : Bool
  rereadFails : Bool
  insertFails : Bool

def savedCreds (c : Crypto) (db : DB) (fails : Bool) (t : Target) : Option (String × String) :=
  match if fails then none else db.servers (dbServerKey t) with
  | none => none
  | some r =>
      if r.encryptedValue = "" then some (r.username,"")
      else if c.keyed then (c.decrypt r.encryptedValue r.nonce).map fun pt => (r.username,pt)
      else none

def reread (db : DB) (x : Surroundings) (key : String) : String × String :=
  match if x.rereadFails then none else db.servers key with
  | none => ("","")
  | some r => (r.encryptedValue,r.nonce)

def upsert (db : DB) (t : Target) (user enc nonce : String) : DB :=
  { db with
    servers := Function.update db.servers (dbServerKey t)
      (some ⟨t.engine,t.source,t.host,t.port,t.container,user,enc,nonce,db.clock⟩) }

def encrypted (c : Crypto) (x : Surroundings) (pass : String) : Except String (String × String) :=
  if pass ≠ "" then
    if c.keyed then
      match c.encrypt x.seed pass with
      | none => .error "encryption failed"
      | some sealed => .ok sealed
    else .error "server encryption misconfigured"
  else .ok ("","")

structure Reply where
  status : Nat
  error : String
deriving DecidableEq

def unknownEngine : Reply := ⟨400,"unknown engine (want postgres, mysql, redis or mongo)"⟩

def refused (e : Bool × String) : Reply := ⟨if e.1 then 401 else 502,e.2⟩

def normalized (t : Target) : Target :=
  let t := { t with engine := Go.toLower (Go.trimSpace t.engine) }
  if t.port = 0 then { t with port := dbDefaultPort t.engine } else t

def withSource (t : Target) : Target := if t.source = "" then { t with source := "host" } else t

def connect (c : Crypto) (db : DB) (x : Surroundings) (t : Target) : DB × Reply :=
  let t := normalized (withSource t)
  if t.engine ∉ dbEngines then (db,unknownEngine)
  else if t.source = "docker" ∧ Go.trimSpace t.container = "" then
    (db,⟨400,"container is required for docker sources"⟩)
  else if t.source ≠ "docker" ∧ Go.trimSpace t.host = "" then (db,⟨400,"host is required"⟩)
  else
    let given := (Go.trimSpace t.username,t.password)
    let (user,pass) := if given = ("","") then (savedCreds c db x.savedFails t).getD given else given
    match browse x.servers t user pass with
    | .error e => (db,refused e)
    | .ok _ =>
        match encrypted c x pass with
        | .error e => (db,⟨500,e⟩)
        | .ok (enc,nonce) =>
            -- the stored password is kept when none was supplied
            let keep := if pass = "" then reread db x (dbServerKey t) else ("","")
            let (enc,nonce) := if enc = "" then keep else (enc,nonce)
            if x.insertFails then (db,⟨500,"database error"⟩)
            else (upsert db t user enc nonce,⟨200,""⟩)

def saveCreds (c : Crypto) (db : DB) (x : Surroundings) (t : Target) (user pass : String) : DB :=
  match if pass ≠ "" then encrypted c x pass else .ok (reread db x (dbServerKey t)) with
  | .error _ => db
  | .ok (enc,nonce) => if x.insertFails then db else upsert db t user enc nonce

def register (c : Crypto) (db : DB) (x : Surroundings) (server : Target) (username password : String) :
    DB × Reply :=
  if x.projectFound = false then (db,⟨404,"project not found"⟩)
  else
    let t := normalized server
    if t.engine ∉ dbEngines then (db,unknownEngine)
    else if Go.trimSpace username ≠ "" ∨ password ≠ "" then
      let t := { t with username := username, password := password }
      match browse x.servers t (Go.trimSpace username) password with
      | .error e => (db,refused e)
      | .ok _ => (saveCreds c db x t (Go.trimSpace username) password,⟨200,""⟩)
    else (db,⟨200,""⟩)

inductive Request where
  | connect (t : Target)
  | register (server : Target) (username password : String)

def handle (c : Crypto) (db : DB) (x : Surroundings) : Request → DB × Reply
  | .connect t => connect c db x t
  | .register server username password => register c db x server username password

def step (c : Crypto) (db : DB) (e : Request × Surroundings) : DB :=
  { (handle c db e.2 e.1).1 with clock := db.clock + 1 }

def run (c : Crypto) (es : List (Request × Surroundings)) : DB := es.foldl (step c) DB.empty

def attempt (c : Crypto) (db : DB) : Request × Surroundings → Option (Target × String × String)
  | (.connect t,x) =>
      let t := normalized (withSource t)
      let given := (Go.trimSpace t.username,t.password)
      let creds := if given = ("","") then (savedCreds c db x.savedFails t).getD given else given
      if t.engine ∉ dbEngines ∨ t.source = "docker" ∧ Go.trimSpace t.container = "" ∨
        t.source ≠ "docker" ∧ Go.trimSpace t.host = "" then none
      else some (t,creds)
  | (.register server username password,x) =>
      let t := normalized server
      if x.projectFound = false ∨ t.engine ∉ dbEngines ∨ Go.trimSpace username = "" ∧ password = "" then none
      else some ({ t with username := username, password := password },Go.trimSpace username,password)

def Browsed (c : Crypto) (db : DB) (e : Request × Surroundings) (t : Target) (user pass : String) : Prop :=
  attempt c db e = some (t,user,pass) ∧ ∃ n, browse e.2.servers t user pass = .ok n

-- the last request that wrote the row of this key had verified the pair
def Verified (c : Crypto) (es : List (Request × Surroundings)) (key user pass : String) : Prop :=
  ∃ r e t, (run c es).servers key = some r ∧ es[r.updatedAt]? = some e ∧
    Browsed c (run c (es.take r.updatedAt)) e t user pass ∧ dbServerKey t = key

def Keeps (c : Crypto) (db : DB) (e : Request × Surroundings) : Prop :=
  ∃ t user, Browsed c db e t user "" ∧ (reread db e.2 (dbServerKey t)).1 ≠ "" ∧ e.2.insertFails = false

section Steps

variable {c : Crypto} {db : DB} {x : Surroundings} {t : Target} {user pass enc nonce key : String} {r : Row}
  {e : Request × Surroundings} {es : List (Request × Surroundings)}

-- what a row gets for a verified password
def Stored (c : Crypto) (db : DB) (x : Surroundings) (key pass enc nonce : String) : Prop :=
  pass ≠ "" ∧ c.encrypt x.seed pass = some (enc,nonce) ∨ pass = "" ∧ (enc,nonce) = reread db x key

theorem encrypted_empty : encrypted c x "" = .ok ("","") := if_neg (not_not.mpr rfl)

theorem encrypted_ok (hpass : pass ≠ "") (h : encrypted c x pass = .ok (enc,nonce)) :
    c.encrypt x.seed pass = some (enc,nonce) := by
  rw [encrypted,if_pos hpass] at h
  split at h
  · split at h
    · cases h
    · rename_i sealed hsealed
      rw [hsealed,Except.ok.inj h]
  · cases h

-- a request that writes a row does it once, after browse succeeded, for the target it browsed
def Writes (c : Crypto) (db : DB) (e : Request × Surroundings) (db' : DB) : Prop :=
  ∃ t user pass enc nonce, Browsed c db e t user pass ∧ e.2.insertFails = false ∧
    Stored c db e.2 (dbServerKey t) pass enc nonce ∧ db' = upsert db t user enc nonce

theorem connect_cases (c : Crypto) (db : DB) (x : Surroundings) (t : Target) :
    (connect c db x t).1 = db ∨ Writes c db (.connect t,x) (connect c db x t).1 := by
  unfold connect
  dsimp only
  split
  · exact .inl rfl
  · rename_i hengine
    split
    · exact .inl rfl
    · rename_i hdocker
      split
      · exact .inl rfl
      · rename_i hhost
        generalize ht : normalized (withSource t) = t' at *
        obtain ⟨user,pass,hcreds⟩ : ∃ user pass,
            (if (Go.trimSpace t'.username,t'.password) = ("","") then
              (savedCreds c db x.savedFails t').getD (Go.trimSpace t'.username,t'.password)
            else (Go.trimSpace t'.username,t'.password)) = (user,pass) := ⟨_,_,rfl⟩
        rw [hcreds]
        dsimp only
        have hattempt : attempt c db (.connect t,x) = some (t',user,pass) := by
          have hreached : ¬(t'.engine ∉ dbEngines ∨ t'.source = "docker" ∧ Go.trimSpace t'.container = "" ∨
              t'.source ≠ "docker" ∧ Go.trimSpace t'.host = "") := by
            rintro (hno | hno | hno)
            · exact hengine hno
            · exact hdocker hno
            · exact hhost hno
          rw [attempt,ht,if_neg hreached,hcreds]
        cases hbrowse : browse x.servers t' user pass with
        | error e => exact .inl rfl
        | ok n =>
          dsimp only
          cases hsealed : encrypted c x pass with
          | error e => exact .inl rfl
          | ok sealed =>
            obtain ⟨enc,nonce⟩ := sealed
            dsimp only
            split
            · exact .inl rfl
            · rename_i hinsert
              refine .inr ⟨t',user,pass,_,_,⟨hattempt,n,hbrowse⟩,Bool.eq_false_iff.mpr hinsert,?_,rfl⟩
              by_cases hpass : pass = ""
              · subst hpass
                rw [encrypted_empty] at hsealed
                obtain ⟨rfl,rfl⟩ := Prod.mk.inj (Except.ok.inj hsealed)
                exact .inr ⟨rfl,rfl⟩
              · have hencrypt := encrypted_ok hpass hsealed
                have hne : enc ≠ "" := (c.undoes _ _ _ _ hencrypt).1
                rw [if_neg hne]
                exact .inl ⟨hpass,hencrypt⟩

theorem saveCreds_cases (c : Crypto) (db : DB) (x : Surroundings) (t : Target) (user pass : String) :
    saveCreds c db x t user pass = db ∨ ∃ enc nonce, x.insertFails = false ∧
      Stored c db x (dbServerKey t) pass enc nonce ∧ saveCreds c db x t user pass = upsert db t user enc nonce := by
  unfold saveCreds
  cases hsaved : (if pass ≠ "" then encrypted c x pass else .ok (reread db x (dbServerKey t)) :
      Except String (String × String)) with
  | error e => exact .inl rfl
  | ok sealed =>
    obtain ⟨enc,nonce⟩ := sealed
    dsimp only
    split
    · exact .inl rfl
    · rename_i hinsert
      refine .inr ⟨enc,nonce,Bool.eq_false_iff.mpr hinsert,?_,rfl⟩
      by_cases hpass : pass = ""
      · rw [if_neg (not_not.mpr hpass)] at hsaved
        exact .inr ⟨hpass,(Except.ok.inj hsaved).symm⟩
      · rw [if_pos hpass] at hsaved
        exact .inl ⟨hpass,encrypted_ok hpass hsaved⟩

theorem register_cases (c : Crypto) (db : DB) (x : Surroundings) (server : Target) (username password : String) :
    (register c db x server username password).1 = db ∨
      Writes c db (.register server username password,x) (register c db x server username password).1 := by
  unfold register
  dsimp only
  split
  · exact .inl rfl
  · rename_i hproject
    split
    · exact .inl rfl
    · rename_i hengine
      split
      · rename_i hgiven
        cases hbrowse : browse x.servers { normalized server with username := username, password := password }
            (Go.trimSpace username) password with
        | error e => exact .inl rfl
        | ok n =>
          dsimp only
          have hattempt : attempt c db (.register server username password,x) =
              some ({ normalized server with username := username, password := password },
                Go.trimSpace username,password) := by
            rw [attempt,if_neg ?_]
            rintro (hno | hno | ⟨huser,hpass⟩)
            · exact hproject hno
            · exact hengine hno
            · exact hgiven.elim (fun h => h huser) fun h => h hpass
          rcases saveCreds_cases c db x { normalized server with username := username, password := password }
              (Go.trimSpace username) password with hsame | ⟨enc,nonce,hinsert,hstored,hupsert⟩
          · exact .inl hsame
          · exact .inr ⟨_,_,_,enc,nonce,⟨hattempt,n,hbrowse⟩,hinsert,hstored,hupsert⟩
      · exact .inl rfl

theorem handle_cases (c : Crypto) (db : DB) (e : Request × Surroundings) :
    (handle c db e.2 e.1).1 = db ∨ Writes c db e (handle c db e.2 e.1).1 := by
  obtain ⟨r,x⟩ := e
  cases r with
  | connect t => exact connect_cases c db x t
  | register server username password => exact register_cases c db x server username password

theorem servers_upsert (db : DB) (t : Target) (user enc nonce : String) : (upsert db t user enc nonce).servers =
    Function.update db.servers (dbServerKey t)
      (some ⟨t.engine,t.source,t.host,t.port,t.container,user,enc,nonce,db.clock⟩) := by
  simp only [upsert]

theorem run_append (c : Crypto) (es : List (Request × Surroundings)) (e : Request × Surroundings) :
    run c (es ++ [e]) = step c (run c es) e := by
  rw [run,List.foldl_append]
  rfl

theorem clock_run (c : Crypto) (es : List (Request × Surroundings)) : (run c es).clock = es.length := by
  induction es using List.reverseRecOn with
  | nil => rfl
  | append_singleton es e ih =>
    rw [run_append,List.length_append,List.length_singleton,← ih]
    rfl

def Traced (c : Crypto) (es : List (Request × Surroundings)) (key : String) (r : Row) : Prop :=
  ∃ e t pass, es[r.updatedAt]? = some e ∧ Browsed c (run c (es.take r.updatedAt)) e t r.username pass ∧
    dbServerKey t = key ∧
    (r.encryptedValue = "" ∧ pass = "" ∨
      r.encryptedValue ≠ "" ∧ c.decrypt r.encryptedValue r.nonce = some pass)

theorem Traced.append (h : Traced c es key r) (e : Request × Surroundings) : Traced c (es ++ [e]) key r := by
  obtain ⟨e',t,pass,he,hbrowsed,hkey,hpass⟩ := h
  have hlt : r.updatedAt < es.length := (List.getElem?_eq_some_iff.mp he).1
  refine ⟨e',t,pass,?_,?_,hkey,hpass⟩
  · rw [List.getElem?_append_left hlt]
    exact he
  · rw [List.take_append_of_le_length (Nat.le_of_lt hlt)]
    exact hbrowsed

theorem traced_write (h : Writes c (run c es) e (handle c (run c es) e.2 e.1).1) (hkeeps : ¬Keeps c (run c es) e)
    (hr : (handle c (run c es) e.2 e.1).1.servers key = some r)
    (hold : ∀ r, (run c es).servers key = some r → Traced c es key r) : Traced c (es ++ [e]) key r := by
  obtain ⟨t,user,pass,enc,nonce,hbrowsed,hinsert,hstored,hupsert⟩ := h
  rw [hupsert] at hr
  by_cases hkey : key = dbServerKey t
  · subst hkey
    rw [servers_upsert,Function.update_self] at hr
    obtain rfl := Option.some.inj hr
    refine ⟨e,t,pass,?_,?_,rfl,?_⟩
    · rw [clock_run]
      simp
    · rw [clock_run]
      simpa using hbrowsed
    · rcases hstored with ⟨-,hencrypt⟩ | ⟨rfl,hkept⟩
      · obtain ⟨hne,hdecrypt⟩ := c.undoes _ _ _ _ hencrypt
        exact .inr ⟨hne,hdecrypt⟩
      · refine .inl ⟨?_,rfl⟩
        by_contra hne
        refine hkeeps ⟨t,user,hbrowsed,?_,hinsert⟩
        rw [← hkept]
        exact hne
  · rw [servers_upsert,Function.update_of_ne hkey] at hr
    exact (hold r hr).append e

theorem traced_run (h : ∀ n e, es[n]? = some e → ¬Keeps c (run c (es.take n)) e) :
    ∀ key r, (run c es).servers key = some r → Traced c es key r := by
  induction es using List.reverseRecOn with
  | nil => exact fun _ _ hr => nomatch hr
  | append_singleton es e ih =>
    have hbefore : ∀ n e, es[n]? = some e → ¬Keeps c (run c (es.take n)) e := by
      intro n e' he'
      have hlt : n < es.length := (List.getElem?_eq_some_iff.mp he').1
      have hn := h n e' (by rw [List.getElem?_append_left hlt]; exact he')
      rwa [List.take_append_of_le_length (Nat.le_of_lt hlt)] at hn
    have hlast : ¬Keeps c (run c es) e := by
      have hn := h es.length e (by simp)
      simpa using hn
    intro key r hr
    rw [run_append] at hr
    have hrow : (handle c (run c es) e.2 e.1).1.servers key = some r := hr
    rcases handle_cases c (run c es) e with hsame | hwrites
    · rw [hsame] at hrow
      exact (ih hbefore key r hrow).append e
    · exact traced_write hwrites hlast hrow (ih hbefore key)

theorem saved_pair_verified (h : ∀ n e, es[n]? = some e → ¬Keeps c (run c (es.take n)) e)
    (hsaved : savedCreds c (run c es) false t = some (user,pass)) :
    Verified c es (dbServerKey t) user pass := by
  rw [savedCreds,if_neg Bool.false_ne_true] at hsaved
  cases hr : (run c es).servers (dbServerKey t) with
  | none =>
    rw [hr] at hsaved
    cases hsaved
  | some r =>
    obtain ⟨e,t',pass',he,hbrowsed,hkey,hpass⟩ := traced_run h _ r hr
    rw [hr] at hsaved
    dsimp only at hsaved
    rcases hpass with ⟨hempty,rfl⟩ | ⟨hne,hdecrypt⟩
    · rw [if_pos hempty] at hsaved
      obtain ⟨rfl,rfl⟩ := Prod.mk.inj (Option.some.inj hsaved)
      exact ⟨r,e,t',hr,he,hbrowsed,hkey⟩
    · rw [if_neg hne,hdecrypt] at hsaved
      obtain ⟨-,heq⟩ := Option.ite_none_right_eq_some.mp hsaved
      obtain ⟨rfl,rfl⟩ := Prod.mk.inj (Option.some.inj heq)
      exact ⟨r,e,t',hr,he,hbrowsed,hkey⟩

def marked : Crypto where
  keyed := true
  encrypt _ p := some (String.ofList ('c' :: p.toList),"")
  decrypt enc _ :=
    match enc.toList with
    | _ :: p => some (String.ofList p)
    | [] => none
  undoes := by
    rintro seed p enc nonce h
    obtain ⟨rfl,rfl⟩ := Prod.mk.inj (Option.some.inj h)
    refine ⟨fun he => ?_,by simp⟩
    have hlist := congrArg String.toList he
    rw [String.toList_ofList] at hlist
    cases hlist

def trusting : Servers where
  pgContainerUser _ := "postgres"
  listPostgresExec _ _ _ := .ok 1
  listPostgresDirect _ _ _ _ := .ok 1
  listMysqlExec _ _ _ := .ok 1
  listMysqlDirect _ _ _ _ := .ok 1
  listRedisExec _ _ := .ok 1
  listRedisDirect _ _ _ := .ok 1
  listMongoExec _ _ _ := .ok 1

def calm : Surroundings := ⟨trusting,0,true,false,false,false⟩

def postgresAt (user pass : String) : Target := ⟨"postgres","host","db",5432,"",user,pass⟩

def first : List (Request × Surroundings) := [(.connect (postgresAt "u" "p"),calm)]

theorem first_pair_verified : savedCreds marked (run marked first) false (postgresAt "" "") = some ("u","p") ∧
    Verified marked first (dbServerKey (postgresAt "" "")) "u" "p" := by
  have hsaved : savedCreds marked (run marked first) false (postgresAt "" "") = some ("u","p") := by
    decide +kernel
  refine ⟨hsaved,saved_pair_verified ?_ hsaved⟩
  rintro n e he ⟨t,user,-,hkept,-⟩
  obtain ⟨hn,rfl⟩ := List.getElem?_eq_some_iff.mp he
  obtain rfl : n = 0 := Nat.lt_one_iff.mp hn
  exact hkept rfl

def second : List (Request × Surroundings) := first ++ [(.connect (postgresAt "w" ""),calm)]

theorem mixed_pair_saved : ¬∀ (c : Crypto) (es : List (Request × Surroundings)) (t : Target) (user pass : String),
    savedCreds c (run c es) false t = some (user,pass) → Verified c es (dbServerKey t) user pass := by
  intro h
  have hsaved : savedCreds marked (run marked second) false (postgresAt "" "") = some ("w","p") := by
    decide +kernel
  obtain ⟨r,e,t,hr,he,⟨hattempt,-⟩,-⟩ := h marked second _ _ _ hsaved
  have hwritten : ((run marked second).servers (dbServerKey (postgresAt "" ""))).map Row.updatedAt = some 1 := by
    decide +kernel
  rw [hr] at hwritten
  rw [Option.some.inj hwritten] at he hattempt
  obtain rfl := Option.some.inj he
  have hpair : (attempt marked (run marked (second.take 1)) (.connect (postgresAt "w" ""),calm)).map Prod.snd =
      some ("w","") := by
    decide +kernel
  rw [hattempt] at hpair
  have hpass : "p" = "" := congrArg Prod.snd (Option.some.inj hpair)
  exact absurd hpass (by decide)

end Steps

end Databases
