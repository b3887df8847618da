import ServerHub.Secrets.Rows

namespace Secrets

open Relational Interleave Interleave.Prog

def keeping (vault : Vault) (asked : Nat → Request → Prop) : Ledger (vaults vault) note where
  Inv := Kept vault asked
  Allow _ _ _ _ := True
  Duty _ _ _ _ := True

def Instr.plain : {β : Type} → Instr β → Bool
  | _, .upsert _ _ _ _ _ _ | _, .rotate _ _ _ _ _ | _, .delete _ => false
  | _, _ => true

def Note.quiet : Note → Bool
  | .read _ _ => true
  | _ => false

def UpsertBody.target (b : UpsertBody) : Text := if b.environment = [] then production else b.environment

def projectText (project : Int) : Text := "project=".toList ++ itoa project

def namedText (v : Payload) : Text := projectText v.projectId ++ " name=".toList ++ v.name

def Reply.quiet : Reply → Bool
  | .configured _ _ | .deleted | .revealed _ _ => false
  | _ => true

def Told (vault : Vault) : Request → Reply → List Note → Prop
  | .upsert actor (some pid) (some body), .configured name env, ns => ∃ row ct nonce stored,
      name = body.name ∧ env = body.target ∧
      ns = [.audited actor "upsert-secret".toList body.name (projectText pid) stored,
        .wrote row ⟨pid,body.name,ct,nonce⟩]
  | .update actor role (some id) (some _), .configured name _, ns =>
      ∃ (row : Nat) (v : Payload) (rest : List Note) (stored : Bool), role = admin ∧ (row : Int) = id ∧
      name = v.name ∧
      ns = .audited actor "rotate-secret".toList (itoa id) (namedText v) stored ::
        rest ++ [.read row v] ∧
      (rest = [] ∨ ∃ w, rest = [.wrote row w])
  | .delete actor role (some id), .deleted, ns =>
      ∃ (row : Nat) (v : Payload) (stored : Bool), role = admin ∧ (row : Int) = id ∧
      ns = [.audited actor "delete-secret".toList (itoa id) [] stored,.erased row v]
  | .reveal actor role (some id), .revealed name value, ns =>
      ∃ (row : Nat) (v : Payload) (key : Bytes) (stored : Bool), role = admin ∧ (row : Int) = id ∧
      name = v.name ∧
      keyFromHex vault.encryptionKey = some key ∧
      vault.decrypt key v.encryptedValue v.nonce = some value ∧
      ns = [.audited actor "reveal-secret".toList (itoa id) (namedText v) stored,.read row v]
  | _, a, ns => a.quiet = true ∧ ∀ n ∈ ns, n.quiet = true

section Steps

variable {vault : Vault} {asked : Nat → Request → Prop} {pid : Nat} {β : Type} {J : List Note → Prop}

theorem plain_secrets {i : Instr β} (h : i.plain = true) (s : State) :
    (exec vault i s).1.secrets = s.secrets := by
  cases i with
  | list project env =>
    simp only [exec]
    split <;> rfl
  | find id =>
    simp only [exec]
    split <;> rfl
  | nonce => rfl
  | audit actor action resource id result metadata => rfl
  | _ => cases h

theorem tells_plain {i : Instr β} {R : β → List Note → Prop} (hi : i.plain = true)
    (h : ∀ (x : Traced State Note) b, Kept vault asked x → J (notesOf pid x.log) →
      (exec vault i x.state).2 = b → (∀ m ∈ note β i x.state b, m.changes = false ∧
        Justified vault asked x.log pid m) ∧ R b ((note β i x.state b).toList ++ notesOf pid x.log)) :
    (keeping vault asked).Tells pid J (perform i) R := by
  refine Ledger.tells_perform fun x t b hx hJ _ hexec => ?_
  obtain ⟨rfl,hb⟩ := Prod.mk.inj (Option.some.inj hexec)
  obtain ⟨hjust,hR⟩ := h x b hx hJ hb
  exact ⟨trivial,hx.stay (plain_secrets hi x.state) hjust,hR⟩

theorem tells_silent {i : Instr β} (hi : i.plain = true) (hn : ∀ s b, note β i s b = none) :
    (keeping vault asked).Tells pid J (perform i) fun _ => J := by
  refine tells_plain hi fun x b _ hJ _ => ?_
  rw [hn]
  exact ⟨fun m hm => (by cases hm),hJ⟩

theorem tells_audit {actor action id metadata : Text} {R : List Note → Prop}
    (hR : ∀ stored ns, J ns → R (.audited actor action id metadata stored :: ns)) :
    (keeping vault asked).Tells pid J (auditSecret actor action id metadata) fun _ => R :=
  Ledger.tells_bind (tells_plain rfl fun x stored _ hJ _ => ⟨by
    rintro m ⟨⟩
    exact ⟨rfl,trivial⟩,hR stored _ hJ⟩) fun _ => Ledger.tells_ret fun _ h => h

def Found (id : Int) : Option Secret → List Note → Prop
  | none, ns => ns = []
  | some r, ns => (r.id : Int) = id ∧ ns = [.read r.id r.payload]

theorem tells_find (id : Int) :
    (keeping vault asked).Tells pid (· = []) (perform (.find id)) (Found id) := by
  refine tells_plain rfl fun x b hx hJ hb => ?_
  cases b with
  | none => exact ⟨fun m hm => (by cases hm),hJ⟩
  | some r =>
    have hfound : find x.state.secrets id = some r := by
      simp only [exec] at hb
      split at hb
      · cases hb
      · exact hb
    obtain ⟨hr,hid⟩ := find_some hfound
    refine ⟨?_,hid,congrArg (List.cons (Note.read r.id r.payload)) hJ⟩
    rintro m ⟨⟩
    exact ⟨rfl,(hx.holds r.id r.payload).mpr ⟨r,hr,rfl,rfl⟩⟩

def Encrypted (vault : Vault) (key plaintext : Bytes) : Option (Text × Text) → Prop
  | none => True
  | some c => ∃ nonce, c = vault.encrypt key nonce plaintext

theorem tells_encrypt (key plaintext : Bytes) : (keeping vault asked).Tells pid J
    (encrypt vault key plaintext) fun c ns => J ns ∧ Encrypted vault key plaintext c := by
  refine Ledger.tells_bind (tells_silent rfl fun _ _ => rfl) fun nonce => ?_
  cases nonce with
  | none => exact Ledger.tells_ret fun ns hns => ⟨hns,trivial⟩
  | some nonce => exact Ledger.tells_ret fun ns hns => ⟨hns,nonce,rfl⟩

def Upserted (project : Int) (name ct nonce : Text) : Except Text Unit → List Note → Prop
  | .error _, ns => ns = []
  | .ok _, ns => ∃ row, ns = [.wrote row ⟨project,name,ct,nonce⟩]

theorem tells_upsert {actor env : Text} {project : Int} {body : UpsertBody} {key : Bytes}
    {nonce : Nonce} (hr : asked pid (.upsert actor (some project) (some body)))
    (hkey : keyFromHex vault.encryptionKey = some key) :
    (keeping vault asked).Tells pid (· = []) (perform (.upsert project body.name env body.serviceId
      (vault.encrypt key nonce body.value).1 (vault.encrypt key nonce body.value).2))
      (Upserted project body.name (vault.encrypt key nonce body.value).1
        (vault.encrypt key nonce body.value).2) := by
  refine Ledger.tells_perform fun x t b hx hJ _ hexec => ?_
  have hexec := Option.some.inj hexec
  have hsealed : ∀ row, SealedFor vault asked pid row ⟨project,body.name,
      (vault.encrypt key nonce body.value).1,(vault.encrypt key nonce body.value).2⟩ :=
    fun row => ⟨_,key,nonce,body.value,hr,rfl,⟨rfl,rfl⟩,hkey,rfl⟩
  cases hfault : x.state.now.fault with
  | some e =>
    obtain ⟨rfl,rfl⟩ := Prod.mk.inj ((upsert_refused hfault).symm.trans hexec)
    exact ⟨trivial,hx.stay rfl fun m hm => (by cases hm),hJ⟩
  | none =>
    obtain ⟨rfl,rfl⟩ := Prod.mk.inj ((exec_upsert hfault).symm.trans hexec)
    refine ⟨trivial,hx.upsert rfl hsealed,upserted x.state.secrets project body.name env,?_⟩
    exact congrArg (List.cons (Note.wrote _ _)) hJ

def Rotated (id : Int) (r : Secret) : Except Text Unit → List Note → Prop
  | .error _, ns => ns = [.read r.id r.payload]
  | .ok _, ns => (r.id : Int) = id ∧
      (ns = [.read r.id r.payload] ∨ ∃ w, ns = [.wrote r.id w,.read r.id r.payload])

theorem tells_rotate {actor role env : Text} {id : Int} {body : UpdateBody} {key : Bytes}
    {nonce : Nonce} (hr : asked pid (.update actor role (some id) (some body)))
    (hkey : keyFromHex vault.encryptionKey = some key) (r : Secret) :
    (keeping vault asked).Tells pid (fun ns => (r.id : Int) = id ∧ ns = [.read r.id r.payload])
      (perform (.rotate id (vault.encrypt key nonce body.value).1
        (vault.encrypt key nonce body.value).2 env body.serviceId))
      (Rotated id r) := by
  refine Ledger.tells_perform fun x t b hx hJ _ hexec => ?_
  have hexec := Option.some.inj hexec
  obtain ⟨hid,hns⟩ := hJ
  have hsealed : ∀ row : Secret, (row.id : Int) = id → SealedFor vault asked pid row.id
      ⟨row.projectId,row.name,(vault.encrypt key nonce body.value).1,
        (vault.encrypt key nonce body.value).2⟩ :=
    fun row hrow => ⟨_,key,nonce,body.value,hr,rfl,congrArg some hrow.symm,hkey,rfl⟩
  cases hfault : x.state.now.fault with
  | some e =>
    obtain ⟨rfl,rfl⟩ := Prod.mk.inj ((rotate_refused (.inl hfault)).symm.trans hexec)
    exact ⟨trivial,hx.stay rfl fun m hm => (by cases hm),hns⟩
  | none =>
    cases hrotate : rotate x.state.secrets id (vault.encrypt key nonce body.value).1
      (vault.encrypt key nonce body.value).2 env body.serviceId x.state.clock with
    | error e =>
      obtain ⟨rfl,rfl⟩ := Prod.mk.inj ((rotate_refused (.inr ⟨hfault,hrotate⟩)).symm.trans hexec)
      exact ⟨trivial,hx.stay rfl fun m hm => (by cases hm),hns⟩
    | ok u =>
      obtain ⟨rfl,rfl⟩ := Prod.mk.inj ((exec_rotate hfault hrotate).symm.trans hexec)
      cases hrow : find x.state.secrets id with
      -- the row was deleted since it was read
      | none =>
        have hsame : x.state.secrets = u := by
          simpa [rotate,hrow] using hrotate
        have hnote : note _ (Instr.rotate id (vault.encrypt key nonce body.value).1
            (vault.encrypt key nonce body.value).2 env body.serviceId) x.state (.ok ()) = none := by
          simp [note,hrow]
        rw [hnote]
        exact ⟨trivial,hx.stay hsame.symm fun m hm => (by cases hm),hid,.inl hns⟩
      | some row =>
        have hnote : note _ (Instr.rotate id (vault.encrypt key nonce body.value).1
            (vault.encrypt key nonce body.value).2 env body.serviceId) x.state (.ok ()) =
            some (.wrote row.id ⟨row.projectId,row.name,(vault.encrypt key nonce body.value).1,
              (vault.encrypt key nonce body.value).2⟩) := by
          simp [note,hrow]
        rw [hnote]
        have hsame : row.id = r.id := Int.ofNat_inj.mp ((find_some hrow).2.trans hid.symm)
        have hwrites := hsealed row (find_some hrow).2
        refine ⟨trivial,hx.rotate hrow hrotate hwrites,hid,.inr ⟨⟨row.projectId,row.name,
          (vault.encrypt key nonce body.value).1,(vault.encrypt key nonce body.value).2⟩,?_⟩⟩
        rw [← hsame]
        show _ :: notesOf pid x.log = _
        rw [hns,hsame]

def Deleted (id : Int) : Except Text Nat → List Note → Prop
  | .error _, ns => ns = []
  | .ok n, ns => n = 0 ∧ ns = [] ∨
      n ≠ 0 ∧ ∃ (row : Nat) (v : Payload), (row : Int) = id ∧ ns = [.erased row v]

theorem tells_delete (id : Int) :
    (keeping vault asked).Tells pid (· = []) (perform (.delete id)) (Deleted id) := by
  refine Ledger.tells_perform fun x t b hx hJ _ hexec => ?_
  have hexec := Option.some.inj hexec
  cases hfault : x.state.now.fault with
  | some e =>
    obtain ⟨rfl,rfl⟩ := Prod.mk.inj ((delete_refused hfault).symm.trans hexec)
    exact ⟨trivial,hx.stay rfl fun m hm => (by cases hm),hJ⟩
  | none =>
    obtain ⟨rfl,rfl⟩ := Prod.mk.inj ((exec_delete hfault).symm.trans hexec)
    cases hrow : find x.state.secrets id with
    | none =>
      have hnote : ∀ n, note _ (Instr.delete id) x.state (.ok n) = none := by
        intro n
        simp [note,hrow]
      have hnever : ∀ r ∈ x.state.secrets.rows, ¬ decide ((r.id : Int) = id) = true := by
        intro r hr
        simpa using find_none hrow r hr
      rw [hnote]
      refine ⟨trivial,hx.stay ?_ fun m hm => (by cases hm),.inl ⟨?_,hJ⟩⟩
      · exact remove_nobody hnever
      · exact List.countP_eq_zero.mpr hnever
    | some row =>
      have hnote : ∀ n, note _ (Instr.delete id) x.state (.ok n) = some (.erased row.id row.payload) := by
        intro n
        simp [note,hrow]
      obtain ⟨hin,hid⟩ := find_some hrow
      rw [hnote]
      refine ⟨trivial,hx.remove rfl hin fun r _ => ?_,.inr ⟨?_,row.id,row.payload,hid,?_⟩⟩
      · rw [decide_eq_true_iff,← hid,Int.ofNat_inj]
      · exact Nat.pos_iff_ne_zero.mp (List.countP_pos_iff.mpr ⟨row,hin,decide_eq_true hid⟩)
      · exact congrArg (List.cons (Note.erased row.id row.payload)) hJ

theorem told_nothing {r : Request} {a : Reply} (ha : a.quiet = true) :
    ∀ ns : List Note, (∀ n ∈ ns, n.quiet = true) → Told vault r a ns := by
  intro ns hns
  cases a with
  | configured name env => cases ha
  | deleted => cases ha
  | revealed name value => cases ha
  | _ =>
    cases r with
    | list project env => exact ⟨rfl,hns⟩
    | upsert actor project body =>
      cases project with
      | none => exact ⟨rfl,hns⟩
      | some project => cases body <;> exact ⟨rfl,hns⟩
    | update actor role id body =>
      cases id with
      | none => exact ⟨rfl,hns⟩
      | some id => cases body <;> exact ⟨rfl,hns⟩
    | delete actor role id => cases id <;> exact ⟨rfl,hns⟩
    | reveal actor role id => cases id <;> exact ⟨rfl,hns⟩

theorem tells_quiet {r : Request} {a : Reply} (ha : a.quiet = true)
    (hJ : ∀ ns, J ns → ns = [] ∨ ∃ row v, ns = [.read row v]) :
    (keeping vault asked).Tells pid J (.ret a) (Told vault r) := by
  refine Ledger.tells_ret fun ns hns => told_nothing ha ns fun n hn => ?_
  rcases hJ ns hns with rfl | ⟨row,v,rfl⟩
  · cases hn
  · rw [List.mem_singleton.mp hn]
    rfl

theorem tells_list (project : Option Int) (env : Text) : (keeping vault asked).Tells pid (· = [])
    (handle vault (.list project env)) (Told vault (.list project env)) := by
  cases project with
  | none => exact tells_quiet rfl fun _ => .inl
  | some project =>
    refine Ledger.tells_bind (tells_silent rfl fun _ _ => rfl) fun listed => ?_
    cases listed with
    | error e => exact tells_quiet rfl fun _ => .inl
    | ok secrets => exact tells_quiet rfl fun _ => .inl

theorem tells_upsertSecret {actor : Text} {project : Int} {body : UpsertBody}
    (hr : asked pid (.upsert actor (some project) (some body))) :
    (keeping vault asked).Tells pid (· = []) (upsertSecret vault actor project body)
      (Told vault (.upsert actor (some project) (some body))) := by
  unfold upsertSecret
  cases hkey : keyFromHex vault.encryptionKey with
  | none => exact tells_quiet rfl fun _ => .inl
  | some key =>
    refine Ledger.tells_bind (tells_encrypt key body.value) fun c => Ledger.tells_given fun hc => ?_
    cases c with
    | none => exact tells_quiet rfl fun _ => .inl
    | some c =>
      obtain ⟨nonce,rfl⟩ := hc
      refine Ledger.tells_bind (tells_upsert hr hkey) fun upserted => ?_
      cases upserted with
      | error e => exact tells_quiet rfl fun _ => .inl
      | ok _ =>
        refine Ledger.tells_bind (Q := fun _ ns => Told vault (.upsert actor (some project) (some body))
          (.configured body.name body.target) ns) (tells_audit ?_) fun _ => Ledger.tells_ret fun _ h => h
        rintro stored ns ⟨row,rfl⟩
        exact ⟨row,_,_,stored,rfl,rfl,rfl⟩

theorem tells_update {actor role : Text} {id : Int} {body : UpdateBody}
    (hr : asked pid (.update actor role (some id) (some body))) :
    (keeping vault asked).Tells pid (· = []) (update vault actor role id body)
      (Told vault (.update actor role (some id) (some body))) := by
  refine Ledger.tells_bind (tells_find id) fun found => ?_
  cases found with
  | none => exact tells_quiet rfl fun _ => .inl
  | some r =>
    have hread : ∀ ns, Found id (some r) ns → ns = [] ∨ ∃ row v, ns = [.read row v] :=
      fun ns hns => .inr ⟨_,_,hns.2⟩
    refine Ledger.tells_ite (fun _ => tells_quiet rfl hread) fun hadmin => ?_
    unfold rotateSecret
    cases hkey : keyFromHex vault.encryptionKey with
    | none => exact tells_quiet rfl hread
    | some key =>
      refine Ledger.tells_bind (tells_encrypt key body.value) fun c => Ledger.tells_given fun hc => ?_
      cases c with
      | none => exact tells_quiet rfl hread
      | some c =>
        obtain ⟨nonce,rfl⟩ := hc
        refine Ledger.tells_bind (tells_rotate hr hkey r) fun rotated => ?_
        cases rotated with
        | error e => exact tells_quiet rfl fun ns hns => .inr ⟨_,_,hns⟩
        | ok _ =>
          refine Ledger.tells_bind (Q := fun _ ns => ∀ env, Told vault
            (.update actor role (some id) (some body)) (.configured r.name env) ns) (tells_audit ?_)
            fun _ => Ledger.tells_ret fun ns hns => hns _
          rintro stored ns ⟨hid,rfl | ⟨w,rfl⟩⟩ env
          · exact ⟨r.id,r.payload,[],stored,not_not.mp hadmin,hid,rfl,rfl,.inl rfl⟩
          · exact ⟨r.id,r.payload,[.wrote r.id w],stored,not_not.mp hadmin,hid,rfl,rfl,.inr ⟨w,rfl⟩⟩

theorem tells_deleted {actor role : Text} {id : Int} : (keeping vault asked).Tells pid (· = [])
    (delete actor role id) (Told vault (.delete actor role (some id))) := by
  refine Ledger.tells_ite (fun _ => tells_quiet rfl fun _ => .inl) fun hadmin => ?_
  refine Ledger.tells_bind (tells_delete id) fun deleted => ?_
  cases deleted with
  | error e => exact tells_quiet rfl fun _ => .inl
  | ok n =>
    refine Ledger.tells_ite (fun h0 => tells_quiet rfl fun ns hns => ?_) fun hn => ?_
    · rcases hns with ⟨-,rfl⟩ | ⟨hn,-⟩
      · exact .inl rfl
      · contradiction
    · refine Ledger.tells_bind (Q := fun _ => Told vault (.delete actor role (some id)) .deleted)
        (tells_audit ?_) fun _ => Ledger.tells_ret fun _ h => h
      rintro stored ns (⟨h0,-⟩ | ⟨-,row,v,hid,rfl⟩)
      · contradiction
      · exact ⟨row,v,stored,not_not.mp hadmin,hid,rfl⟩

theorem tells_reveal {actor role : Text} {id : Int} : (keeping vault asked).Tells pid (· = [])
    (reveal vault actor role id) (Told vault (.reveal actor role (some id))) := by
  refine Ledger.tells_ite (fun _ => tells_quiet rfl fun _ => .inl) fun hadmin => ?_
  refine Ledger.tells_bind (tells_find id) fun found => ?_
  cases found with
  | none => exact tells_quiet rfl fun _ => .inl
  | some r =>
    have hread : ∀ ns, Found id (some r) ns → ns = [] ∨ ∃ row v, ns = [.read row v] :=
      fun ns hns => .inr ⟨_,_,hns.2⟩
    show (keeping vault asked).Tells pid (Found id (some r)) _ _
    cases hkey : keyFromHex vault.encryptionKey with
    | none => exact tells_quiet rfl hread
    | some key =>
      simp only
      cases hvalue : vault.decrypt key r.encryptedValue r.nonce with
      | none => exact tells_quiet rfl hread
      | some value =>
        refine Ledger.tells_bind (Q := fun _ => Told vault (.reveal actor role (some id))
          (.revealed r.name value)) (tells_audit ?_) fun _ => Ledger.tells_ret fun _ h => h
        rintro stored ns ⟨hid,rfl⟩
        exact ⟨r.id,r.payload,key,stored,not_not.mp hadmin,hid,rfl,hkey,hvalue,rfl⟩

theorem tells_handle {r : Request} (hr : asked pid r) :
    (keeping vault asked).Tells pid (· = []) (handle vault r) (Told vault r) := by
  cases r with
  | list project env => exact tells_list project env
  | upsert actor project body =>
    cases project with
    | none => exact tells_quiet rfl fun _ => .inl
    | some project =>
      cases body with
      | none => exact tells_quiet rfl fun _ => .inl
      | some body =>
        exact Ledger.tells_ite (fun _ => tells_quiet rfl fun _ => .inl) fun _ => tells_upsertSecret hr
  | update actor role id body =>
    cases id with
    | none => exact tells_quiet rfl fun _ => .inl
    | some id =>
      cases body with
      | none => exact tells_quiet rfl fun _ => .inl
      | some body =>
        exact Ledger.tells_ite (fun _ => tells_quiet rfl fun _ => .inl) fun _ => tells_update hr
  | delete actor role id =>
    cases id with
    | none => exact tells_quiet rfl fun _ => .inl
    | some id => exact tells_deleted
  | reveal actor role id =>
    cases id with
    | none => exact tells_quiet rfl fun _ => .inl
    | some id => exact tells_reveal

end Steps

abbrev kept (vault : Vault) : System := (vaults vault).observe note

section Runs

variable {vault : Vault} {s : State} {es : List (Event (kept vault))} {v : World (kept vault)}

def AskedIn (es : List (Event (kept vault))) (pid : Nat) (r : Request) : Prop := .start pid r ∈ es

theorem kept_empty {vault : Vault} {asked : Nat → Request → Prop} (h0 : s.secrets.rows = []) :
    Kept vault asked ⟨s,[]⟩ := by
  refine ⟨fun id w => ?_,fun a ha => ?_,fun q k v hw => (by cases hw),fun q k v hw => (by cases hw),
    trivial⟩
  · rw [h0]
    simp [moves,Tickets.held]
  · rw [h0] at ha
    cases ha

theorem kept_run (h0 : s.secrets.rows = []) (hv : (begun s).run es = some v) :
    Kept vault (AskedIn es) v.state ∧ ∀ pid r a, .start pid r ∈ es → v.pool pid = some (.ret a) →
      Told vault r a (notesOf pid v.state.log) := by
  refine Ledger.told (L := keeping vault (AskedIn es)) (R := fun _ r => Told vault r)
    (fun pid r hr => tells_handle hr) ?_ (kept_empty h0) ?_ hv
  · rintro ⟨now⟩ x y hx he
    obtain ⟨hstate,hlog⟩ := env_observe he
    have hclock : { x.state with clock := now } = y.state := Option.some.inj hstate
    obtain ⟨state,log⟩ := y
    obtain rfl := hclock
    obtain rfl := hlog
    exact ⟨hx.holds,hx.distinct,hx.old,hx.named,hx.sound⟩
  · exact along_of_mem (fun e _ w => by cases e <;> simp [Landing,keeping]) _

def Untouched (row : Nat) (log : Log) : Prop := ∀ m ∈ moves log, m.key ≠ row

theorem held_written {row : Nat} {p : Payload} {log : Log} : (row,p) ∈ Tickets.held (moves log) ↔
    ∃ newer q older, log = newer ++ (q,.wrote row p) :: older ∧ Untouched row newer := by
  rw [Tickets.held_iff]
  constructor
  · rintro ⟨later,earlier,hsplit,hlater⟩
    obtain ⟨newer,⟨q,n⟩,older,rfl,rfl,hmove⟩ := split_moved hsplit
    cases n with
    | wrote row' p' =>
      obtain ⟨rfl,rfl⟩ := Tickets.Move.issue.inj (Option.some.inj hmove)
      exact ⟨newer,q,older,rfl,hlater⟩
    | _ => cases hmove
  · rintro ⟨newer,q,older,rfl,hnewer⟩
    exact ⟨moves newer,moves older,by simp [moves,noteMove],hnewer⟩

theorem Sound.named {vault : Vault} {asked : Nat → Request → Prop} {log : Log}
    (h : Sound vault asked log) {q q' row : Nat} {p p' : Payload} (hp : (q,.wrote row p) ∈ log)
    (hp' : (q',.wrote row p') ∈ log) : p.projectId = p'.projectId ∧ p.name = p'.name := by
  induction log with
  | nil => cases hp
  | cons e log ih =>
    rcases List.mem_cons.mp hp with rfl | hin
    · rcases List.mem_cons.mp hp' with he | hin'
      · obtain ⟨-,he⟩ := Prod.mk.inj he
        obtain ⟨-,rfl⟩ := Note.wrote.inj he
        exact ⟨rfl,rfl⟩
      · obtain ⟨hproject,hname⟩ := h.1.2 q' p' hin'
        exact ⟨hproject.symm,hname.symm⟩
    · rcases List.mem_cons.mp hp' with rfl | hin'
      · exact h.1.2 q p hin
      · exact ih h.2 hin hin'

theorem secrets_kept (h0 : s.secrets.rows = []) (hv : (begun s).run es = some v) :
    Distinct v.state.state.secrets ∧
    (∀ row p, (∃ r ∈ v.state.state.secrets.rows, r.id = row ∧ r.payload = p) ↔
      ∃ newer q older, v.state.log = newer ++ (q,.wrote row p) :: older ∧ Untouched row newer) ∧
    ∀ q q' row p p', (q,.wrote row p) ∈ v.state.log → (q',.wrote row p') ∈ v.state.log →
      p.projectId = p'.projectId ∧ p.name = p'.name := by
  obtain ⟨hkept,-⟩ := kept_run h0 hv
  refine ⟨hkept.distinct,fun row p => ?_,fun q q' row p p' => hkept.sound.named⟩
  exact (hkept.holds row p).symm.trans held_written

theorem changes_told (h0 : s.secrets.rows = []) (hv : (begun s).run es = some v) (pid : Nat)
    (r : Request) (a : Reply) (hr : .start pid r ∈ es) (ha : v.answer pid = some a) :
    Told vault r a (notesOf pid v.state.log) :=
  (kept_run h0 hv).2 pid r a hr (World.answer_eq.mp ha)

theorem reveal_latest (hopens : vault.Opens) (h0 : s.secrets.rows = [])
    (hv : (begun s).run es = some v) {pid : Nat} {actor role name : Text} {id : Int} {value : Bytes}
    (hr : .start pid (.reveal actor role (some id)) ∈ es)
    (ha : v.answer pid = some (.revealed name value)) :
    ∃ newer row p later q older r,
      v.state.log = newer ++ (pid,.read row p) :: (later ++ (q,.wrote row p) :: older) ∧
      Untouched row later ∧ (row : Int) = id ∧ role = admin ∧ name = p.name ∧ .start q r ∈ es ∧
      r.Targets row p ∧ r.stores = some value ∧
      ∃ stored, (pid,.audited actor "reveal-secret".toList (itoa id) (namedText p) stored) ∈ newer := by
  obtain ⟨hkept,htold⟩ := kept_run h0 hv
  obtain ⟨row,p,key,written,hadmin,hid,hname,hkey,hvalue,hnotes⟩ := htold pid _ _ hr (World.answer_eq.mp ha)
  obtain ⟨newer,older,hlog,hnewer⟩ := notesOf_split [_] hnotes
  obtain ⟨hread,hold⟩ := (hlog ▸ hkept.sound).at
  obtain ⟨later,q,before,rfl,hlater⟩ := held_written.mp hread
  obtain ⟨⟨⟨r,key',nonce,stored,hasked,hstores,htargets,hkey',hsealed⟩,-⟩,-⟩ := hold.at
  obtain rfl : key = key' := Option.some.inj (hkey.symm.trans hkey')
  have hopened : vault.decrypt key p.encryptedValue p.nonce = some stored := by
    have h := decrypt_encrypt hopens (keyFromHex_length hkey) nonce stored
    rwa [← hsealed] at h
  obtain rfl := Option.some.inj (hopened.symm.trans hvalue)
  refine ⟨newer,row,p,later,q,before,r,hlog,hlater,hid,hadmin,hname,hasked,htargets,hstores,written,?_⟩
  exact mem_notesOf.mp (hnewer ▸ List.mem_singleton_self _)

end Runs

section Instances

def plainVault : Vault where
  encryptionKey := Go.encodeToString (List.replicate 32 1)
  gcmSeal _ _ plaintext := plaintext ++ List.replicate 16 0
  gcmOpen _ _ ciphertext := some (ciphertext.take (ciphertext.length - 16))
  collate _ _ := false

theorem plainVault_opens : plainVault.Opens := by
  intro key nonce plaintext _ _
  simp [plainVault]

def calm : Outside := ⟨none,some ⟨List.replicate 12 7,by decide⟩⟩

def noSecrets : State := ⟨.empty,0,fun _ => calm,0⟩

def storeToken (value : Bytes) : Request :=
  .upsert "amy".toList (some 3) (some ⟨"TOKEN".toList,value,[],none⟩)

def revealFirst : Request := .reveal "root".toList admin (some 0)

def rotated : List (Event (kept plainVault)) :=
  .start 0 (storeToken [1]) :: List.replicate 3 (.act 0) ++ .start 1 (storeToken [2]) ::
    List.replicate 3 (.act 1) ++ .start 2 revealFirst :: List.replicate 2 (.act 2)

theorem rotated_run : ∃ v : World (kept plainVault), (begun noSecrets).run rotated = some v ∧
    v.answer 2 = some (.revealed "TOKEN".toList [2]) ∧
    (v.state.state.secrets.rows.map Secret.name) = ["TOKEN".toList] := by
  have hrun : ((begun noSecrets).run rotated).map (fun v : World (kept plainVault) =>
      ((v.answer 2,v.state.state.secrets.rows.map Secret.name) : Option Reply × List Text)) =
        some (some (.revealed "TOKEN".toList [2]),["TOKEN".toList]) := by
    decide +kernel
  obtain ⟨v,hv,hseen⟩ := Option.map_eq_some_iff.mp hrun
  exact ⟨v,hv,(Prod.mk.inj hseen).1,(Prod.mk.inj hseen).2⟩

theorem latest_revealed : ∃ v : World (kept plainVault), (begun noSecrets).run rotated = some v ∧
    ∃ q r, .start q r ∈ rotated ∧ r.stores = some [2] := by
  obtain ⟨v,hv,ha,-⟩ := rotated_run
  have hr : .start 2 revealFirst ∈ rotated := by simp [rotated]
  obtain ⟨newer,row,p,later,q,older,r,-,-,-,-,-,hasked,-,hstores,-⟩ :=
    reveal_latest plainVault_opens rfl hv hr ha
  exact ⟨v,hv,q,r,hasked,hstores⟩

theorem one_token_kept : ∃ v : World (kept plainVault), (begun noSecrets).run rotated = some v ∧
    (v.state.state.secrets.rows.map Secret.name) = ["TOKEN".toList] ∧
    Distinct v.state.state.secrets := by
  obtain ⟨v,hv,-,hrows⟩ := rotated_run
  exact ⟨v,hv,hrows,(secrets_kept rfl hv).1⟩

theorem reveal_told : ∃ v : World (kept plainVault), (begun noSecrets).run rotated = some v ∧
    Told plainVault revealFirst (.revealed "TOKEN".toList [2]) (notesOf 2 v.state.log) := by
  obtain ⟨v,hv,ha,-⟩ := rotated_run
  exact ⟨v,hv,changes_told rfl hv 2 revealFirst _ (by simp [rotated]) ha⟩

end Instances

end Secrets
