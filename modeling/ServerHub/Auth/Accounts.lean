import ServerHub.Relational.Serial
import ServerHub.Go.Strings
import ServerHub.Go.Time

namespace Auth

open Go Relational

inductive Role where
  | viewer
  | operator
  | admin
  | other (text : String) (h : text ∉ ["viewer","operator","admin"])
deriving DecidableEq

def validRole : Role → Bool
  | .viewer | .operator | .admin => true
  | .other _ _ => false

structure User where
  id : Nat
  username : String
  passwordHash : String
  role : Role
deriving DecidableEq

instance : Keyed User := ⟨User.id⟩

structure RefreshToken where
  id : Nat
  tokenHash : String
  username : String
  expiresAt : Int
  createdAt : Int
  revoked : Bool
deriving DecidableEq

instance : Keyed RefreshToken := ⟨RefreshToken.id⟩

structure Store where
  users : Serial User
  tokens : Serial RefreshToken
  names : (users.rows.map User.username).Nodup
  hashes : (tokens.rows.map RefreshToken.tokenHash).Nodup

def duplicateKey : String := "duplicate key value violates unique constraint"

def noRows : String := "sql: no rows in result set"

theorem map_modify {α κ : Type} [Keyed α] (t : Serial α) (p : α → Bool) (f : α → α)
    (hid : ∀ r, Keyed.key (f r) = Keyed.key r) {column : α → κ} (h : ∀ r, column (f r) = column r) :
    (t.modify p f hid).rows.map column = t.rows.map column := by
  show (t.rows.map fun r => if p r then f r else r).map column = _
  rw [List.map_map]
  refine List.map_congr_left fun r _ => ?_
  simp only [Function.comp_apply]
  split
  · exact h r
  · rfl

theorem nodup_insert {α κ : Type} [Keyed α] (t : Serial α) (mk : Nat → α)
    (hid : ∀ n, Keyed.key (mk n) = n) {column : α → κ} (h : (t.rows.map column).Nodup)
    (hfree : ∀ r ∈ t.rows, column r ≠ column (mk t.next)) :
    ((t.insert mk hid).rows.map column).Nodup := by
  show ((t.rows ++ [mk t.next]).map column).Nodup
  rw [List.map_append,List.map_singleton]
  refine List.nodup_append.mpr ⟨h,by simp,?_⟩
  intro a ha b hb
  obtain ⟨r,hr,rfl⟩ := List.mem_map.mp ha
  obtain rfl := List.mem_singleton.mp hb
  exact hfree r hr

namespace Store

def empty : Store := ⟨.empty,.empty,List.nodup_nil,List.nodup_nil⟩

def modifyUsers (s : Store) (p : User → Bool) (f : User → User) (hid : ∀ u, (f u).id = u.id)
    (hname : ∀ u, (f u).username = u.username) : Store where
  users := s.users.modify p f hid
  tokens := s.tokens
  names := by rw [map_modify s.users p f hid hname]; exact s.names
  hashes := s.hashes

def modifyTokens (s : Store) (p : RefreshToken → Bool) (f : RefreshToken → RefreshToken)
    (hid : ∀ t, (f t).id = t.id) (hhash : ∀ t, (f t).tokenHash = t.tokenHash) : Store where
  users := s.users
  tokens := s.tokens.modify p f hid
  names := s.names
  hashes := by rw [map_modify s.tokens p f hid hhash]; exact s.hashes

def userNamed (s : Store) (username : String) : Option User :=
  s.users.rows.find? fun u => u.username == username

def tokenHashed (s : Store) (tokenHash : String) : Option RefreshToken :=
  s.tokens.rows.find? fun t => t.tokenHash == tokenHash

def adminCount (s : Store) : Nat := s.users.count fun u => u.role == .admin

def insertUser (s : Store) (username passwordHash : String) (role : Role) :
    Store × Except String Unit :=
  if h : ∃ u ∈ s.users.rows, u.username = username then (s,.error duplicateKey)
  else
    ({ s with
        users := s.users.insert (fun id => ⟨id,username,passwordHash,role⟩) fun _ => rfl
        names := nodup_insert s.users _ (fun _ => rfl) s.names fun u hu he => h ⟨u,hu,he⟩ },
      .ok ())

def setRole (s : Store) (username : String) (role : Role) : Store :=
  s.modifyUsers (fun u => u.username == username) (fun u => { u with role := role })
    (fun _ => rfl) fun _ => rfl

def setPassword (s : Store) (username passwordHash : String) : Store :=
  s.modifyUsers (fun u => u.username == username) (fun u => { u with passwordHash := passwordHash })
    (fun _ => rfl) fun _ => rfl

def deleteUser (s : Store) (username : String) : Store where
  users := s.users.remove fun u => u.username == username
  tokens := s.tokens
  names := s.names.sublist (List.filter_sublist.map User.username)
  hashes := s.hashes

def revoke (s : Store) (p : RefreshToken → Bool) : Store :=
  s.modifyTokens p (fun t => { t with revoked := true }) (fun _ => rfl) fun _ => rfl

def deleteToken (s : Store) (tokenHash : String) : Store where
  users := s.users
  tokens := s.tokens.remove fun t => t.tokenHash == tokenHash
  names := s.names
  hashes := s.hashes.sublist (List.filter_sublist.map RefreshToken.tokenHash)

def storeRefresh (s : Store) (tokenHash username : String) (expiresAt createdAt : Int) :
    Store × Except String Unit :=
  if h : ∃ t ∈ s.tokens.rows, t.tokenHash = tokenHash then (s,.error duplicateKey)
  else
    ({ s with
        tokens := s.tokens.insert
          (fun id => ⟨id,tokenHash,username,expiresAt,createdAt,false⟩) fun _ => rfl
        hashes := nodup_insert s.tokens _ (fun _ => rfl) s.hashes fun t ht he => h ⟨t,ht,he⟩ },
      .ok ())

end Store

def reuseLeeway : Int := 30 * second

def recentSeconds (leeway : Int) : Int := max 1 (leeway / second)

def RefreshToken.oldOf (username : String) (leeway now : Int) (t : RefreshToken) : Bool :=
  t.username == username && decide (t.createdAt < now - recentSeconds leeway * second)

inductive Query : Type → Type where
  | countUsers (username : String) : Query (Except String Nat)
  | insertUser (username passwordHash : String) (role : Role) : Query (Except String Unit)
  | roleOf (username : String) : Query (Except String Role)
  | adminCount : Query (Except String Nat)
  | setRole (role : Role) (username : String) : Query (Except String Unit)
  | deleteUser (username : String) : Query (Except String Nat)
  | credentials (username : String) : Query (Except String User)
  | passwordHash (username : String) : Query (Except String String)
  | setPassword (passwordHash username : String) : Query (Except String Unit)
  | loadToken (tokenHash : String) : Query (Except String RefreshToken)
  | deleteToken (tokenHash : String) : Query (Except String Unit)
  | claimToken (tokenHash : String) : Query (Except String Nat)
  | storeRefresh (tokenHash username : String) (expiresAt : Int) : Query (Except String Unit)
  | revokeRefresh (tokenHash : String) : Query (Except String Unit)
  | revokeAllRefreshes (username : String) : Query (Except String Unit)
  | revokeAllRefreshesExceptRecent (username : String) (leeway : Int) : Query (Except String Unit)
  | clock : Query Int
  | random : Query (Except String String)
  | signAccess (username : String) (role : Role) : Query (Except String String)

structure Outside where
  fault : Option String
  clock : Int
  current : Int
  random : Except String String
  signed : String → Role → Except String String

def quiet (n : Nat) : Outside :=
  ⟨none,0,0,.ok (String.ofList (List.replicate n 'x')),fun username _ => .ok username⟩

def found {α : Type} : Option α → Except String α
  | some a => .ok a
  | none => .error noRows

def Query.effect (o : Outside) (s : Store) : {β : Type} → Query β → Store × β
  | _, .countUsers username => (s,.ok (s.users.count fun u => u.username == username))
  | _, .insertUser username hash role => s.insertUser username hash role
  | _, .roleOf username => (s,found ((s.userNamed username).map User.role))
  | _, .adminCount => (s,.ok s.adminCount)
  | _, .setRole role username => (s.setRole username role,.ok ())
  | _, .deleteUser username =>
      (s.deleteUser username,.ok (s.users.count fun u => u.username == username))
  | _, .credentials username => (s,found (s.userNamed username))
  | _, .passwordHash username => (s,found ((s.userNamed username).map User.passwordHash))
  | _, .setPassword hash username => (s.setPassword username hash,.ok ())
  | _, .loadToken tokenHash => (s,found (s.tokenHashed tokenHash))
  | _, .deleteToken tokenHash => (s.deleteToken tokenHash,.ok ())
  | _, .claimToken tokenHash =>
      let valid := fun t : RefreshToken => t.tokenHash == tokenHash && !t.revoked
      (s.revoke valid,.ok (s.tokens.count valid))
  | _, .storeRefresh tokenHash username expiresAt =>
      s.storeRefresh tokenHash username expiresAt o.current
  | _, .revokeRefresh tokenHash => (s.revoke fun t => t.tokenHash == tokenHash,.ok ())
  | _, .revokeAllRefreshes username => (s.revoke fun t => t.username == username,.ok ())
  | _, .revokeAllRefreshesExceptRecent username leeway =>
      (s.revoke (RefreshToken.oldOf username leeway o.current),.ok ())
  | _, .clock => (s,o.clock)
  | _, .random => (s,o.random)
  | _, .signAccess username role => (s,o.signed username role)

def Query.refuse (o : Outside) (e : String) : {β : Type} → Query β → β
  | _, .countUsers _ | _, .insertUser _ _ _ | _, .roleOf _ | _, .adminCount | _, .setRole _ _
  | _, .deleteUser _ | _, .credentials _ | _, .passwordHash _ | _, .setPassword _ _
  | _, .loadToken _ | _, .deleteToken _ | _, .claimToken _ | _, .storeRefresh _ _ _
  | _, .revokeRefresh _ | _, .revokeAllRefreshes _ | _, .revokeAllRefreshesExceptRecent _ _ =>
      .error e
  | _, .clock => o.clock
  | _, .random => o.random
  | _, .signAccess username role => o.signed username role

structure Database where
  store : Store
  tick : Nat
  outside : Nat → Outside

def Database.now (d : Database) : Outside := d.outside d.tick

def Query.exec {β : Type} (q : Query β) (d : Database) : Database × β :=
  match d.now.fault with
  | some e => (⟨d.store,d.tick + 1,d.outside⟩,q.refuse d.now e)
  | none => (⟨(q.effect d.now d.store).1,d.tick + 1,d.outside⟩,(q.effect d.now d.store).2)

def Query.storesFor : {β : Type} → Query β → Option String
  | _, .storeRefresh _ username _ => some username
  | _, _ => none

section Tokens

structure Shrinks (s t : Store) : Prop where
  next : t.tokens.next = s.tokens.next
  rows : ∀ r ∈ t.tokens.rows, ∃ a ∈ s.tokens.rows,
    r = { a with revoked := r.revoked } ∧ (a.revoked = true → r.revoked = true)

structure Grows (s t : Store) (tokenHash username : String) : Prop where
  next : t.tokens.next = s.tokens.next + 1
  rows : ∀ r ∈ t.tokens.rows, r ∈ s.tokens.rows ∨
    r.id = s.tokens.next ∧ r.tokenHash = tokenHash ∧ r.username = username

variable {s : Store}

theorem shrinks_of_tokens {t : Store} (h : t.tokens = s.tokens) : Shrinks s t := by
  refine ⟨by rw [h],fun r hr => ⟨r,?_,rfl,id⟩⟩
  rw [← h]
  exact hr

theorem shrinks_revoke (s : Store) (p : RefreshToken → Bool) : Shrinks s (s.revoke p) := by
  refine ⟨rfl,fun r hr => ?_⟩
  obtain ⟨a,ha,rfl⟩ := Serial.mem_modify.mp hr
  refine ⟨a,ha,?_⟩
  split
  · exact ⟨rfl,fun _ => rfl⟩
  · exact ⟨rfl,id⟩

theorem shrinks_deleteToken (s : Store) (tokenHash : String) :
    Shrinks s (s.deleteToken tokenHash) :=
  ⟨rfl,fun r hr => ⟨r,(Serial.mem_remove.mp hr).1,rfl,id⟩⟩

theorem tokens_insertUser (s : Store) (username hash : String) (role : Role) :
    (s.insertUser username hash role).1.tokens = s.tokens := by
  unfold Store.insertUser
  split <;> rfl

theorem storeRefresh_cases (s : Store) (tokenHash username : String) (expiresAt now : Int) :
    (∃ e, (s.storeRefresh tokenHash username expiresAt now).2 = .error e) ∧
        Shrinks s (s.storeRefresh tokenHash username expiresAt now).1 ∨
      (s.storeRefresh tokenHash username expiresAt now).2 = .ok () ∧
        Grows s (s.storeRefresh tokenHash username expiresAt now).1 tokenHash username := by
  unfold Store.storeRefresh
  split
  · exact .inl ⟨⟨_,rfl⟩,shrinks_of_tokens rfl⟩
  · refine .inr ⟨rfl,rfl,fun r hr => ?_⟩
    rcases Serial.mem_insert.mp hr with hold | rfl
    · exact .inl hold
    · exact .inr ⟨rfl,rfl,rfl⟩

theorem hash_unique {a b : RefreshToken} (ha : a ∈ s.tokens.rows) (hb : b ∈ s.tokens.rows)
    (h : a.tokenHash = b.tokenHash) : a = b := List.inj_on_of_nodup_map s.hashes ha hb h

theorem found_ok {α : Type} {o : Option α} {a : α} (h : found o = .ok a) : o = some a := by
  cases o with
  | none => exact nomatch h
  | some b => exact congrArg some (Except.ok.inj h)

theorem exec_ok {d : Database} {β : Type} {q : Query (Except String β)} {b : β}
    (hrefuse : ∀ e, q.refuse d.now e ≠ .ok b) (h : (q.exec d).2 = .ok b) :
    d.now.fault = none ∧ (q.effect d.now d.store).2 = .ok b ∧
      (q.exec d).1.store = (q.effect d.now d.store).1 := by
  unfold Query.exec at h ⊢
  cases hf : d.now.fault with
  | none =>
    rw [hf] at h
    exact ⟨rfl,h,rfl⟩
  | some e =>
    rw [hf] at h
    exact absurd h (hrefuse e)

theorem exec_shrinks {β : Type} {q : Query β} (h : q.storesFor = none) (d : Database) :
    Shrinks d.store (q.exec d).1.store := by
  unfold Query.exec
  cases hf : d.now.fault with
  | some e => exact shrinks_of_tokens rfl
  | none =>
    cases q with
    | storeRefresh tokenHash username expiresAt => exact nomatch h
    | insertUser username hash role =>
      exact shrinks_of_tokens (tokens_insertUser d.store username hash role)
    | deleteToken tokenHash => exact shrinks_deleteToken d.store tokenHash
    | claimToken tokenHash => exact shrinks_revoke d.store _
    | revokeRefresh tokenHash => exact shrinks_revoke d.store _
    | revokeAllRefreshes username => exact shrinks_revoke d.store _
    | revokeAllRefreshesExceptRecent username leeway => exact shrinks_revoke d.store _
    | _ => exact shrinks_of_tokens rfl

theorem exec_storeRefresh (tokenHash username : String) (expiresAt : Int) (d : Database) :
    (∃ e, ((Query.storeRefresh tokenHash username expiresAt).exec d).2 = .error e) ∧
        Shrinks d.store ((Query.storeRefresh tokenHash username expiresAt).exec d).1.store ∨
      ((Query.storeRefresh tokenHash username expiresAt).exec d).2 = .ok () ∧
        Grows d.store ((Query.storeRefresh tokenHash username expiresAt).exec d).1.store
          tokenHash username := by
  unfold Query.exec
  cases hf : d.now.fault with
  | some e => exact .inl ⟨⟨e,rfl⟩,shrinks_of_tokens rfl⟩
  | none => exact storeRefresh_cases d.store tokenHash username expiresAt d.now.current

theorem tokenHashed_mem {tokenHash : String} {row : RefreshToken}
    (h : s.tokenHashed tokenHash = some row) : row ∈ s.tokens.rows ∧ row.tokenHash = tokenHash := by
  unfold Store.tokenHashed at h
  have hhash := List.find?_some h
  exact ⟨List.mem_of_find?_eq_some h,beq_iff_eq.mp hhash⟩

theorem loaded {d : Database} {tokenHash : String} {row : RefreshToken}
    (h : .ok row = ((Query.loadToken tokenHash).exec d).2) :
    row ∈ d.store.tokens.rows ∧ row.tokenHash = tokenHash := by
  obtain ⟨-,hok,-⟩ := exec_ok (by simp [Query.refuse]) h.symm
  exact tokenHashed_mem (found_ok hok)

def Store.validToken (s : Store) (tokenHash : String) : Option RefreshToken :=
  s.tokens.rows.find? fun t => t.tokenHash == tokenHash && !t.revoked

theorem claimed_valid {tokenHash : String} {row : RefreshToken}
    (h : s.validToken tokenHash = some row) :
    row ∈ s.tokens.rows ∧ row.tokenHash = tokenHash ∧ row.revoked = false := by
  have hp := List.find?_some h
  rw [Bool.and_eq_true,Bool.not_eq_true'] at hp
  exact ⟨List.mem_of_find?_eq_some h,beq_iff_eq.mp hp.1,hp.2⟩

theorem claimed_once {d : Database} {tokenHash : String} {n : Nat}
    (h : .ok (n + 1) = ((Query.claimToken tokenHash).exec d).2) :
    ∃ row, d.store.validToken tokenHash = some row := by
  obtain ⟨-,hok,-⟩ := exec_ok (by simp [Query.refuse]) h.symm
  have hcount : 0 < d.store.tokens.count fun t => t.tokenHash == tokenHash && !t.revoked := by
    rw [Except.ok.inj hok]
    exact Nat.succ_pos n
  obtain ⟨t,ht,hvalid⟩ := List.countP_pos_iff.mp hcount
  exact Option.isSome_iff_exists.mp (List.find?_isSome.mpr ⟨t,ht,hvalid⟩)

end Tokens

end Auth
