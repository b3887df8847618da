import ServerHub.Go.Hex
import ServerHub.Interleave.Chronicle
import ServerHub.Interleave.Routine
import ServerHub.Interleave.Tickets
import ServerHub.Relational.Serial

namespace Secrets

open Relational Interleave Interleave.Prog

abbrev Text := List Char

abbrev Bytes := List UInt8

structure Secret where
  id : Nat
  projectId : Int
  name : Text
  environment : Text
  serviceId : Option Int
  encryptedValue : Text
  nonce : Text
  updatedAt : Int
deriving DecidableEq

instance : Keyed Secret := ⟨Secret.id⟩

structure SecretMeta where
  id : Nat
  projectId : Int
  name : Text
  environment : Text
  serviceId : Option Int
  configured : Bool
  updatedAt : Int
deriving DecidableEq

def Secret.listed (r : Secret) : SecretMeta :=
  ⟨r.id,r.projectId,r.name,r.environment,r.serviceId,true,r.updatedAt⟩

def Secret.triple (r : Secret) : Int × Text × Text := (r.projectId,r.environment,r.name)

-- the configured key, AES-GCM under a key and a nonce, and the order of names
structure Vault where
  encryptionKey : Text
  gcmSeal : Bytes → Bytes → Bytes → Bytes
  gcmOpen : Bytes → Bytes → Bytes → Option Bytes
  collate : Text → Text → Bool

structure Nonce where
  bytes : Bytes
  size : bytes.length = 12

structure Outside where
  fault : Option Text
  nonce : Option Nonce

structure State where
  secrets : Serial Secret
  clock : Int
  outside : Nat → Outside
  asked : Nat

section Crypto

variable (vault : Vault)

def keyFromHex (h : Text) : Option Bytes :=
  match Go.decodeString h with
  | none => none
  | some k => if k.length ≠ 32 then none else some k

def Vault.encrypt (key : Bytes) (nonce : Nonce) (plaintext : Bytes) : Text × Text :=
  (Go.encodeToString (vault.gcmSeal key nonce.bytes plaintext),Go.encodeToString nonce.bytes)

def Vault.decrypt (key : Bytes) (cipherHex nonceHex : Text) : Option Bytes :=
  match Go.decodeString cipherHex, Go.decodeString nonceHex with
  | some ct, some nonce => vault.gcmOpen key nonce ct
  | _, _ => none

-- what is sealed under a key of 32 bytes and a nonce of 12 opens again
def Vault.Opens : Prop := ∀ key nonce plaintext, key.length = 32 → nonce.length = 12 →
  vault.gcmOpen key nonce (vault.gcmSeal key nonce plaintext) = some plaintext

variable {vault}

theorem keyFromHex_length {h : Text} {key : Bytes} (hk : keyFromHex h = some key) : key.length = 32 := by
  unfold keyFromHex at hk
  split at hk
  · cases hk
  · split at hk
    · cases hk
    · rename_i hlength
      obtain rfl := Option.some.inj hk
      exact not_not.mp hlength

theorem decrypt_encrypt (h : vault.Opens) {key : Bytes} (hkey : key.length = 32) (nonce : Nonce)
    (plaintext : Bytes) : vault.decrypt key (vault.encrypt key nonce plaintext).1
      (vault.encrypt key nonce plaintext).2 = some plaintext := by
  rw [Vault.decrypt,Vault.encrypt,Go.decodeString_encodeToString,Go.decodeString_encodeToString]
  exact h key nonce.bytes plaintext hkey nonce.size

end Crypto

section Statements

-- the row an INSERT … ON CONFLICT of the triple updates
def conflict (t : Serial Secret) (k : Int × Text × Text) : Option Secret :=
  t.rows.find? fun r => r.triple = k

-- the sequence moves on although no row is inserted
def skipId (t : Serial Secret) : Serial Secret where
  toTable := t.toTable
  next := t.next + 1
  fresh r hr := Nat.lt_succ_of_lt (t.fresh r hr)

def upsert (t : Serial Secret) (pid : Int) (name env : Text) (svc : Option Int) (ct nonce : Text)
    (now : Int) : Serial Secret :=
  match conflict t (pid,env,name) with
  | none => t.insert (fun n => ⟨n,pid,name,env,svc,ct,nonce,now⟩) fun _ => rfl
  | some _ => (skipId t).modify (fun r => r.triple = (pid,env,name)) (fun r => { r with
      encryptedValue := ct, nonce := nonce, serviceId := svc, updatedAt := now }) fun _ => rfl

def find (t : Serial Secret) (id : Int) : Option Secret := t.rows.find? fun r => (r.id : Int) = id

def duplicate : Text := "duplicate key value violates unique constraint".toList

def rotate (t : Serial Secret) (id : Int) (ct nonce env : Text) (svc : Option Int) (now : Int) :
    Except Text (Serial Secret) :=
  match find t id with
  | none => .ok t
  | some r =>
      if t.rows.any fun a => a.id ≠ r.id ∧ a.triple = (r.projectId,env,r.name) then .error duplicate
      else .ok (t.modify (fun a => (a.id : Int) = id) (fun a => { a with
        encryptedValue := ct, nonce := nonce, environment := env, serviceId := svc, updatedAt := now })
        fun _ => rfl)

end Statements

inductive Instr : Type → Type where
  | list (pid : Int) (env : Text) : Instr (Except Text (List SecretMeta))
  | upsert (pid : Int) (name env : Text) (svc : Option Int) (ct nonce : Text) : Instr (Except Text Unit)
  | find (id : Int) : Instr (Option Secret)
  | rotate (id : Int) (ct nonce env : Text) (svc : Option Int) : Instr (Except Text Unit)
  | delete (id : Int) : Instr (Except Text Nat)
  | nonce : Instr (Option Nonce)
  | audit (actor action resource id result metadata : Text) : Instr Bool

def State.tick (s : State) : State := { s with asked := s.asked + 1 }

def State.now (s : State) : Outside := s.outside s.asked

-- a statement the database refuses changes nothing
def exec (vault : Vault) : {β : Type} → Instr β → State → State × β
  | _, .list pid env, s => match s.now.fault with
      | some e => (s.tick,.error e)
      | none => (s.tick,.ok ((orderBy (fun a b => vault.collate a.name b.name) (s.secrets.rows.filter fun r =>
          r.projectId = pid ∧ (env = [] ∨ r.environment = env))).map Secret.listed))
  | _, .upsert pid name env svc ct nonce, s => match s.now.fault with
      | some e => (s.tick,.error e)
      | none => ({ s.tick with secrets := upsert s.secrets pid name env svc ct nonce s.clock },.ok ())
  | _, .find id, s => match s.now.fault with
      | some _ => (s.tick,none)
      | none => (s.tick,find s.secrets id)
  | _, .rotate id ct nonce env svc, s => match s.now.fault with
      | some e => (s.tick,.error e)
      | none => match rotate s.secrets id ct nonce env svc s.clock with
          | .error e => (s.tick,.error e)
          | .ok t => ({ s.tick with secrets := t },.ok ())
  | _, .delete id, s => match s.now.fault with
      | some e => (s.tick,.error e)
      | none => ({ s.tick with secrets := s.secrets.remove fun r => (r.id : Int) = id },
          .ok (s.secrets.rows.countP fun r => (r.id : Int) = id))
  | _, .nonce, s => (s.tick,s.now.nonce)
  | _, .audit _ _ _ _ _ _, s => (s.tick,s.now.fault.isNone)

section Exec

variable {vault : Vault} {s : State}

theorem exec_upsert {project : Int} {name env ct nonce : Text} {svc : Option Int}
    (h : s.now.fault = none) : exec vault (.upsert project name env svc ct nonce) s =
      ({ s.tick with secrets := upsert s.secrets project name env svc ct nonce s.clock },.ok ()) := by
  simp [exec,h]

theorem upsert_refused {project : Int} {name env ct nonce e : Text} {svc : Option Int}
    (h : s.now.fault = some e) :
    exec vault (.upsert project name env svc ct nonce) s = (s.tick,.error e) := by
  simp [exec,h]

theorem exec_rotate {id : Int} {ct nonce env : Text} {svc : Option Int} {t : Serial Secret}
    (h : s.now.fault = none) (ht : rotate s.secrets id ct nonce env svc s.clock = .ok t) :
    exec vault (.rotate id ct nonce env svc) s = ({ s.tick with secrets := t },.ok ()) := by
  simp [exec,h,ht]

theorem rotate_refused {id : Int} {ct nonce env e : Text} {svc : Option Int}
    (h : s.now.fault = some e ∨
      s.now.fault = none ∧ rotate s.secrets id ct nonce env svc s.clock = .error e) :
    exec vault (.rotate id ct nonce env svc) s = (s.tick,.error e) := by
  rcases h with h | ⟨h,hrotate⟩
  · simp [exec,h]
  · simp [exec,h,hrotate]

theorem exec_delete {id : Int} (h : s.now.fault = none) : exec vault (.delete id) s =
    ({ s.tick with secrets := s.secrets.remove fun r => (r.id : Int) = id },
      .ok (s.secrets.rows.countP fun r => (r.id : Int) = id)) := by
  simp [exec,h]

theorem delete_refused {id : Int} {e : Text} (h : s.now.fault = some e) :
    exec vault (.delete id) s = (s.tick,.error e) := by
  simp [exec,h]

end Exec

abbrev Handler := Prog Instr

structure UpsertBody where
  name : Text
  value : Bytes
  environment : Text
  serviceId : Option Int

structure UpdateBody where
  value : Bytes
  environment : Text
  serviceId : Option Int

-- ids as strconv.ParseInt reads them, bodies as they bind
inductive Request where
  | list (project : Option Int) (environment : Text)
  | upsert (actor : Text) (project : Option Int) (body : Option UpsertBody)
  | update (actor role : Text) (id : Option Int) (body : Option UpdateBody)
  | delete (actor role : Text) (id : Option Int)
  | reveal (actor role : Text) (id : Option Int)

inductive Reply where
  | invalidProject
  | invalidId
  | required
  | misconfigured
  | encryptionFailed
  | decryptionFailed
  | notFound
  | forbidden
  | failed (error : Text)
  | listed (secrets : List SecretMeta)
  | configured (name environment : Text)
  | deleted
  | revealed (name : Text) (value : Bytes)
deriving DecidableEq

section Handlers

variable (vault : Vault)

def production : Text := "production".toList

def admin : Text := "admin".toList

def itoa (n : Int) : Text := (toString n).toList

def auditSecret (actor action id metadata : Text) : Handler Unit := do
  let _ ← perform (.audit actor action "secret".toList id "ok".toList metadata)

def encrypt (key : Bytes) (plaintext : Bytes) : Handler (Option (Text × Text)) := do
  match ← perform .nonce with
  | none => return none
  | some nonce => return some (vault.encrypt key nonce plaintext)

def list (pid : Int) (env : Text) : Handler Reply := do
  match ← perform (.list pid env) with
  | .error e => return .failed e
  | .ok secrets => return .listed secrets

def upsertSecret (actor : Text) (pid : Int) (body : UpsertBody) : Handler Reply := do
  let env := if body.environment = [] then production else body.environment
  match keyFromHex vault.encryptionKey with
  | none => return .misconfigured
  | some key =>
    match ← encrypt vault key body.value with
    | none => return .encryptionFailed
    | some (ct,nonce) =>
      match ← perform (.upsert pid body.name env body.serviceId ct nonce) with
      | .error e => return .failed e
      | .ok _ =>
        auditSecret actor "upsert-secret".toList body.name ("project=".toList ++ itoa pid)
        return .configured body.name env

def rotateSecret (actor : Text) (id : Int) (body : UpdateBody) (row : Secret) : Handler Reply := do
  let env := if body.environment ≠ [] then body.environment else row.environment
  match keyFromHex vault.encryptionKey with
  | none => return .misconfigured
  | some key =>
    match ← encrypt vault key body.value with
    | none => return .encryptionFailed
    | some (ct,nonce) =>
      match ← perform (.rotate id ct nonce env body.serviceId) with
      | .error e => return .failed e
      | .ok _ =>
        auditSecret actor "rotate-secret".toList (itoa id)
          ("project=".toList ++ itoa row.projectId ++ " name=".toList ++ row.name)
        return .configured row.name env

def update (actor role : Text) (id : Int) (body : UpdateBody) : Handler Reply := do
  match ← perform (.find id) with
  | none => return .notFound
  | some row => if role ≠ admin then return .forbidden else rotateSecret vault actor id body row

def delete (actor role : Text) (id : Int) : Handler Reply := do
  if role ≠ admin then return .forbidden
  else
    match ← perform (.delete id) with
    | .error e => return .failed e
    | .ok n =>
      if n = 0 then return .notFound
      else
        auditSecret actor "delete-secret".toList (itoa id) []
        return .deleted

def reveal (actor role : Text) (id : Int) : Handler Reply := do
  if role ≠ admin then return .forbidden
  else
    match ← perform (.find id) with
    | none => return .notFound
    | some row =>
      match keyFromHex vault.encryptionKey with
      | none => return .misconfigured
      | some key =>
        match vault.decrypt key row.encryptedValue row.nonce with
        | none => return .decryptionFailed
        | some value =>
          auditSecret actor "reveal-secret".toList (itoa id)
            ("project=".toList ++ itoa row.projectId ++ " name=".toList ++ row.name)
          return .revealed row.name value

def handle : Request → Handler Reply
  | .list none _ => return .invalidProject
  | .list (some pid) env => list pid env
  | .upsert _ none _ => return .invalidProject
  | .upsert _ (some _) none => return .required
  | .upsert actor (some pid) (some body) =>
      if body.name = [] ∨ body.value = [] then return .required else upsertSecret vault actor pid body
  | .update _ _ none _ => return .invalidId
  | .update _ _ (some _) none => return .required
  | .update actor role (some id) (some body) =>
      if body.value = [] then return .required else update vault actor role id body
  | .delete _ _ none => return .invalidId
  | .delete actor role (some id) => delete actor role id
  | .reveal _ _ none => return .invalidId
  | .reveal actor role (some id) => reveal vault actor role id

end Handlers

inductive Env where
  | clock (now : Int)

def vaults (vault : Vault) : System where
  Instr := Instr
  State := State
  Request := Request
  Answer := Reply
  Env := Env
  exec _ _ i s := some (exec vault i s)
  handle := handle vault
  env
    | .clock now, s => some { s with clock := now }

section Rows

structure Payload where
  projectId : Int
  name : Text
  encryptedValue : Text
  nonce : Text
deriving DecidableEq

def Secret.payload (r : Secret) : Payload := ⟨r.projectId,r.name,r.encryptedValue,r.nonce⟩

abbrev Moves := List (Tickets.Move Nat Payload)

def Holds (t : Serial Secret) (ms : Moves) : Prop :=
  ∀ id v, (id,v) ∈ Tickets.held ms ↔ ∃ r ∈ t.rows, r.id = id ∧ r.payload = v

def Distinct (t : Serial Secret) : Prop :=
  ∀ a ∈ t.rows, ∀ b ∈ t.rows, a.triple = b.triple → a = b

variable {t : Serial Secret} {ms : Moves} {k : Nat} {v : Payload} {p : Secret → Bool}
  {f : Secret → Secret} {hf : ∀ r, Keyed.key (f r) = Keyed.key r}

theorem eq_of_id {a b : Secret} (ha : a ∈ t.rows) (hb : b ∈ t.rows) (h : a.id = b.id) : a = b :=
  Table.eq_of_key ha hb h

theorem Holds.insert (h : Holds t ms) {mk : Nat → Secret} (hk : ∀ n, (mk n).id = n)
    (hv : (mk t.next).payload = v) : Holds (t.insert mk hk) (.issue t.next v :: ms) := by
  intro id w
  rw [Tickets.mem_held_issue,h id w]
  constructor
  · rintro (⟨rfl,rfl⟩ | ⟨-,r,hr,hid,hw⟩)
    · exact ⟨mk t.next,Serial.mem_insert.mpr (.inr rfl),hk _,hv⟩
    · exact ⟨r,Serial.mem_insert.mpr (.inl hr),hid,hw⟩
  · rintro ⟨r,hr,rfl,rfl⟩
    rcases Serial.mem_insert.mp hr with hr | rfl
    · exact .inr ⟨Nat.ne_of_lt (t.fresh r hr),r,hr,rfl,rfl⟩
    · exact .inl ⟨hk _,hv⟩

theorem Holds.modify (h : Holds t ms) (hp : ∀ r ∈ t.rows, p r = true ↔ r.id = k)
    (hrow : ∃ r ∈ t.rows, r.id = k) (hv : ∀ r ∈ t.rows, r.id = k → (f r).payload = v) :
    Holds (t.modify p f hf) (.issue k v :: ms) := by
  intro id w
  rw [Tickets.mem_held_issue,h id w]
  constructor
  · rintro (⟨rfl,rfl⟩ | ⟨hne,r,hr,rfl,rfl⟩)
    · obtain ⟨r,hr,hid⟩ := hrow
      refine ⟨f r,Serial.mem_modify.mpr ⟨r,hr,if_pos ((hp r hr).mpr hid)⟩,?_,hv r hr hid⟩
      exact (hf r).trans hid
    · exact ⟨r,Serial.mem_modify.mpr ⟨r,hr,if_neg fun hc => hne ((hp r hr).mp hc)⟩,rfl,rfl⟩
  · rintro ⟨b,hb,rfl,rfl⟩
    obtain ⟨r,hr,he⟩ := Serial.mem_modify.mp hb
    split at he
    · rename_i hc
      have hid := (hp r hr).mp hc
      rw [← he]
      exact .inl ⟨(hf r).trans hid,hv r hr hid⟩
    · rename_i hc
      subst he
      exact .inr ⟨fun hid => hc ((hp r hr).mpr hid),r,hr,rfl,rfl⟩

theorem Holds.remove (h : Holds t ms) (hp : ∀ r ∈ t.rows, p r = true ↔ r.id = k) :
    Holds (t.remove p) (.redeem k v :: ms) := by
  intro id w
  rw [Tickets.mem_held_redeem,h id w]
  constructor
  · rintro ⟨hne,r,hr,rfl,rfl⟩
    refine ⟨r,Serial.mem_remove.mpr ⟨hr,?_⟩,rfl,rfl⟩
    exact Bool.eq_false_iff.mpr fun hc => hne ((hp r hr).mp hc)
  · rintro ⟨r,hr,rfl,rfl⟩
    obtain ⟨hr,hc⟩ := Serial.mem_remove.mp hr
    exact ⟨fun hid => by simp [(hp r hr).mpr hid] at hc,r,hr,rfl,rfl⟩

theorem rows_skip : ((skipId t).modify p f hf).rows = (t.modify p f hf).rows := rfl

theorem remove_nobody (h : ∀ r ∈ t.rows, ¬ p r = true) : t.remove p = t := by
  have hrows : t.rows.filter (fun r => !p r) = t.rows := List.filter_eq_self.mpr fun r hr => by simp [h r hr]
  obtain ⟨⟨rows,nodup⟩,next,fresh⟩ := t
  simp only [Serial.remove,Table.remove,hrows]

theorem find_some {id : Int} {r : Secret} (h : find t id = some r) : r ∈ t.rows ∧ (r.id : Int) = id :=
  ⟨List.mem_of_find?_eq_some h,by simpa using List.find?_some h⟩

theorem find_none {id : Int} (h : find t id = none) : ∀ r ∈ t.rows, (r.id : Int) ≠ id := by
  intro r hr
  simpa using List.find?_eq_none.mp h r hr

theorem conflict_some {c : Int × Text × Text} {r : Secret} (h : conflict t c = some r) :
    r ∈ t.rows ∧ r.triple = c :=
  ⟨List.mem_of_find?_eq_some h,by simpa using List.find?_some h⟩

theorem conflict_none {c : Int × Text × Text} (h : conflict t c = none) :
    ∀ r ∈ t.rows, r.triple ≠ c := by
  intro r hr
  simpa using List.find?_eq_none.mp h r hr

end Rows

end Secrets
