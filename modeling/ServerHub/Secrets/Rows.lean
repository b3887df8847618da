import ServerHub.Secrets.Store

namespace Secrets

open Relational Interleave Interleave.Prog

inductive Note where
  | wrote (row : Nat) (v : Payload)
  | erased (row : Nat) (v : Payload)
  | read (row : Nat) (v : Payload)
  | audited (actor action id metadata : Text) (stored : Bool)
deriving DecidableEq

def upserted (t : Serial Secret) (pid : Int) (name env : Text) : Nat :=
  match conflict t (pid,env,name) with
  | none => t.next
  | some r => r.id

def note (β : Type) (i : Instr β) (s : State) (b : β) : Option Note :=
  match β, i, b with
  | _, .upsert pid name env _ ct nonce, .ok _ =>
      some (.wrote (upserted s.secrets pid name env) ⟨pid,name,ct,nonce⟩)
  | _, .rotate id ct nonce _ _, .ok _ =>
      (find s.secrets id).map fun r => .wrote r.id ⟨r.projectId,r.name,ct,nonce⟩
  | _, .delete id, .ok _ => (find s.secrets id).map fun r => .erased r.id r.payload
  | _, .find _, some r => some (.read r.id r.payload)
  | _, .audit actor action _ id _ metadata, stored =>
      some (.audited actor action id metadata stored)
  | _, _, _ => none

abbrev Log := List (Nat × Note)

def noteMove : Nat × Note → Option (Tickets.Move Nat Payload)
  | (_,.wrote row v) => some (.issue row v)
  | (_,.erased row v) => some (.redeem row v)
  | _ => none

def moves (log : Log) : Moves := log.filterMap noteMove

def Note.changes : Note → Bool
  | .wrote _ _ | .erased _ _ => true
  | _ => false

def Request.stores : Request → Option Bytes
  | .upsert _ _ (some body) => some body.value
  | .update _ _ _ (some body) => some body.value
  | _ => none

-- the row a request writes to, or the project and the name it writes under
def Request.Targets (row : Nat) (v : Payload) : Request → Prop
  | .upsert _ project (some body) => project = some v.projectId ∧ body.name = v.name
  | .update _ _ id (some _) => id = some (row : Int)
  | _ => False

section Traces

variable (vault : Vault) (asked : Nat → Request → Prop)

def SealedFor (pid row : Nat) (v : Payload) : Prop :=
  ∃ r key nonce value, asked pid r ∧ r.stores = some value ∧ r.Targets row v ∧
    keyFromHex vault.encryptionKey = some key ∧
    (v.encryptedValue,v.nonce) = vault.encrypt key nonce value

def Justified (older : Log) (pid : Nat) : Note → Prop
  | .wrote row v => SealedFor vault asked pid row v ∧
      ∀ q w, (q,.wrote row w) ∈ older → w.projectId = v.projectId ∧ w.name = v.name
  | .read row v | .erased row v => (row,v) ∈ Tickets.held (moves older)
  | _ => True

def Sound (log : Log) : Prop := Chronicle (fun older e => Justified vault asked older e.1 e.2) log

structure Kept (x : Traced State Note) : Prop where
  holds : Holds x.state.secrets (moves x.log)
  distinct : Distinct x.state.secrets
  old : ∀ q k v, (q,.wrote k v) ∈ x.log → k < x.state.secrets.next
  named : ∀ q k v, (q,.wrote k v) ∈ x.log → ∀ r ∈ x.state.secrets.rows, r.id = k →
    v.projectId = r.projectId ∧ v.name = r.name
  sound : Sound vault asked x.log

variable {vault asked}

variable {x : Traced State Note} {pid : Nat}

theorem Kept.stay (h : Kept vault asked x) {s : State} {n : Option Note}
    (hs : s.secrets = x.state.secrets) (hn : ∀ m ∈ n, m.changes = false ∧
      Justified vault asked x.log pid m) : Kept vault asked ⟨s,record pid x.log n⟩ := by
  cases n with
  | none => exact ⟨hs ▸ h.holds,hs ▸ h.distinct,hs ▸ h.old,hs ▸ h.named,h.sound⟩
  | some m =>
    obtain ⟨hm,hj⟩ := hn m rfl
    have hmoves : moves ((pid,m) :: x.log) = moves x.log := by
      cases m <;> first | rfl | cases hm
    have hold : ∀ {q k v}, (q,.wrote k v) ∈ (pid,m) :: x.log → (q,.wrote k v) ∈ x.log := by
      intro q k v hmem
      rcases List.mem_cons.mp hmem with he | hmem
      · obtain ⟨-,rfl⟩ := Prod.mk.inj he
        cases hm
      · exact hmem
    refine ⟨?_,hs ▸ h.distinct,fun q k v hw => ?_,fun q k v hw => ?_,hj,h.sound⟩
    · show Holds s.secrets (moves ((pid,m) :: x.log))
      rw [hs,hmoves]
      exact h.holds
    · show k < s.secrets.next
      rw [hs]
      exact h.old q k v (hold hw)
    · show ∀ r ∈ s.secrets.rows, _
      rw [hs]
      exact h.named q k v (hold hw)

theorem distinct_modify {t : Serial Secret} (h : Distinct t) {p : Secret → Bool} {f : Secret → Secret}
    {hf : ∀ r, Keyed.key (f r) = Keyed.key r} {k : Nat} (hp : ∀ r ∈ t.rows, p r = true ↔ r.id = k)
    (hfree : ∀ a ∈ t.rows, ∀ b ∈ t.rows, a.id = k → b.id ≠ k → (f a).triple ≠ b.triple) :
    Distinct (t.modify p f hf) := by
  intro a ha b hb hab
  obtain ⟨a,hina,rfl⟩ := Serial.mem_modify.mp ha
  obtain ⟨b,hinb,rfl⟩ := Serial.mem_modify.mp hb
  by_cases hka : a.id = k
  · by_cases hkb : b.id = k
    · rw [eq_of_id hina hinb (hka.trans hkb.symm)]
    · rw [if_pos ((hp a hina).mpr hka),if_neg fun hc => hkb ((hp b hinb).mp hc)] at hab
      exact absurd hab (hfree a hina b hinb hka hkb)
  · by_cases hkb : b.id = k
    · rw [if_neg (fun hc => hka ((hp a hina).mp hc)),if_pos ((hp b hinb).mpr hkb)] at hab
      exact absurd hab.symm (hfree b hinb a hina hkb hka)
    · rw [if_neg (fun hc => hka ((hp a hina).mp hc)),if_neg fun hc => hkb ((hp b hinb).mp hc)] at hab
      rw [h a hina b hinb hab]

theorem Kept.modify (h : Kept vault asked x) {s : State} {p : Secret → Bool} {f : Secret → Secret}
    {hf : ∀ r, Keyed.key (f r) = Keyed.key r} {row : Secret} {ct nonce : Text}
    (hs : s.secrets.rows = (x.state.secrets.modify p f hf).rows)
    (hnext : x.state.secrets.next ≤ s.secrets.next) (hrow : row ∈ x.state.secrets.rows)
    (hp : ∀ r ∈ x.state.secrets.rows, p r = true ↔ r.id = row.id)
    (hv : (f row).payload = ⟨row.projectId,row.name,ct,nonce⟩)
    (hfree : ∀ b ∈ x.state.secrets.rows, b.id ≠ row.id → (f row).triple ≠ b.triple)
    (hsealed : SealedFor vault asked pid row.id ⟨row.projectId,row.name,ct,nonce⟩) :
    Kept vault asked ⟨s,(pid,.wrote row.id ⟨row.projectId,row.name,ct,nonce⟩) :: x.log⟩ := by
  have hsame : ∀ a ∈ x.state.secrets.rows, a.id = row.id → a = row := fun a ha => eq_of_id ha hrow
  have hnamed : ∀ a ∈ x.state.secrets.rows, (if p a then f a else a).projectId = a.projectId ∧
      (if p a then f a else a).name = a.name := by
    intro a ha
    split
    · rename_i hc
      obtain rfl := hsame a ha ((hp a ha).mp hc)
      obtain ⟨hproject,hname,-,-⟩ := Payload.mk.inj hv
      exact ⟨hproject,hname⟩
    · exact ⟨rfl,rfl⟩
  have hid : ∀ a, (if p a then f a else a).id = a.id := by
    intro a
    split
    · exact hf a
    · rfl
  refine ⟨?_,?_,fun q k v hw => ?_,fun q k v hw r hr hrk => ?_,⟨hsealed,fun q w hw => ?_⟩,h.sound⟩
  · have hmodified : Holds (x.state.secrets.modify p f hf) (.issue row.id
        ⟨row.projectId,row.name,ct,nonce⟩ :: moves x.log) :=
      h.holds.modify hp ⟨row,hrow,rfl⟩ fun r hr hk => by rw [hsame r hr hk,hv]
    intro id w
    show (id,w) ∈ Tickets.held (.issue row.id ⟨row.projectId,row.name,ct,nonce⟩ :: moves x.log) ↔ _
    rw [hmodified id w,hs]
  · have hmodified : Distinct (x.state.secrets.modify p f hf) :=
      distinct_modify h.distinct hp fun a ha b hb hka hkb => by
        rw [hsame a ha hka]
        exact hfree b hb hkb
    show ∀ a ∈ s.secrets.rows, ∀ b ∈ s.secrets.rows, _
    rw [hs]
    exact hmodified
  · refine Nat.lt_of_lt_of_le ?_ hnext
    rcases List.mem_cons.mp hw with he | hw
    · obtain ⟨-,he⟩ := Prod.mk.inj he
      obtain ⟨rfl,-⟩ := Note.wrote.inj he
      exact x.state.secrets.fresh row hrow
    · exact h.old q k v hw
  · have hr : r ∈ (x.state.secrets.modify p f hf).rows := hs ▸ hr
    obtain ⟨a,ha,rfl⟩ := Serial.mem_modify.mp hr
    rw [(hnamed a ha).1,(hnamed a ha).2]
    rw [hid] at hrk
    rcases List.mem_cons.mp hw with he | hw
    · obtain ⟨-,he⟩ := Prod.mk.inj he
      obtain ⟨rfl,rfl⟩ := Note.wrote.inj he
      rw [hsame a ha hrk]
      exact ⟨rfl,rfl⟩
    · exact h.named q k v hw a ha hrk
  · exact h.named q row.id w hw row hrow rfl

theorem Kept.insert (h : Kept vault asked x) {s : State} {mk : Nat → Secret} {hk : ∀ n, (mk n).id = n}
    {v : Payload} (hs : s.secrets = x.state.secrets.insert mk hk)
    (hv : (mk x.state.secrets.next).payload = v)
    (hfree : ∀ b ∈ x.state.secrets.rows, b.triple ≠ (mk x.state.secrets.next).triple)
    (hsealed : SealedFor vault asked pid x.state.secrets.next v) :
    Kept vault asked ⟨s,(pid,.wrote x.state.secrets.next v) :: x.log⟩ := by
  refine ⟨?_,?_,fun q k w hw => ?_,fun q k w hw r hr hrk => ?_,⟨hsealed,fun q w hw => ?_⟩,h.sound⟩
  · show Holds s.secrets (.issue x.state.secrets.next v :: moves x.log)
    rw [hs]
    exact h.holds.insert hk hv
  · intro a ha b hb hab
    have ha : a ∈ (x.state.secrets.insert mk hk).rows := hs ▸ ha
    have hb : b ∈ (x.state.secrets.insert mk hk).rows := hs ▸ hb
    rcases Serial.mem_insert.mp ha with ha | rfl
    · rcases Serial.mem_insert.mp hb with hb | rfl
      · exact h.distinct a ha b hb hab
      · exact absurd hab (hfree a ha)
    · rcases Serial.mem_insert.mp hb with hb | rfl
      · exact absurd hab.symm (hfree b hb)
      · rfl
  · show k < s.secrets.next
    rw [hs,Serial.next_insert]
    rcases List.mem_cons.mp hw with he | hw
    · obtain ⟨-,he⟩ := Prod.mk.inj he
      obtain ⟨rfl,-⟩ := Note.wrote.inj he
      exact Nat.lt_succ_self _
    · exact Nat.lt_succ_of_lt (h.old q k w hw)
  · have hr : r ∈ (x.state.secrets.insert mk hk).rows := hs ▸ hr
    rcases Serial.mem_insert.mp hr with hr | rfl
    · rcases List.mem_cons.mp hw with he | hw
      · obtain ⟨-,he⟩ := Prod.mk.inj he
        obtain ⟨rfl,-⟩ := Note.wrote.inj he
        exact absurd (hrk ▸ x.state.secrets.fresh r hr) (Nat.lt_irrefl _)
      · exact h.named q k w hw r hr hrk
    · rcases List.mem_cons.mp hw with he | hw
      · obtain ⟨-,he⟩ := Prod.mk.inj he
        obtain ⟨-,rfl⟩ := Note.wrote.inj he
        rw [← hv]
        exact ⟨rfl,rfl⟩
      · have hlt := h.old q k w hw
        rw [← hrk,hk] at hlt
        exact absurd hlt (Nat.lt_irrefl _)
  · exact absurd (h.old q _ w hw) (Nat.lt_irrefl _)

theorem Kept.remove (h : Kept vault asked x) {s : State} {p : Secret → Bool} {row : Secret}
    (hs : s.secrets = x.state.secrets.remove p) (hrow : row ∈ x.state.secrets.rows)
    (hp : ∀ r ∈ x.state.secrets.rows, p r = true ↔ r.id = row.id) :
    Kept vault asked ⟨s,(pid,.erased row.id row.payload) :: x.log⟩ := by
  have hold : ∀ {q k v}, (q,.wrote k v) ∈ (pid,Note.erased row.id row.payload) :: x.log →
      (q,.wrote k v) ∈ x.log := by
    intro q k v hmem
    simpa using hmem
  refine ⟨?_,fun a ha b hb => ?_,fun q k v hw => ?_,fun q k v hw r hr => ?_,
    (h.holds row.id row.payload).mpr ⟨row,hrow,rfl,rfl⟩,h.sound⟩
  · show Holds s.secrets (.redeem row.id row.payload :: moves x.log)
    rw [hs]
    exact h.holds.remove hp
  · have ha : a ∈ (x.state.secrets.remove p).rows := hs ▸ ha
    have hb : b ∈ (x.state.secrets.remove p).rows := hs ▸ hb
    exact h.distinct a (Serial.mem_remove.mp ha).1 b (Serial.mem_remove.mp hb).1
  · show k < s.secrets.next
    rw [hs]
    exact h.old q k v (hold hw)
  · have hr : r ∈ (x.state.secrets.remove p).rows := hs ▸ hr
    exact h.named q k v (hold hw) r (Serial.mem_remove.mp hr).1

theorem Kept.upsert (h : Kept vault asked x) {s : State} {project : Int} {name env ct nonce : Text}
    {svc : Option Int} {now : Int}
    (hs : s.secrets = upsert x.state.secrets project name env svc ct nonce now)
    (hsealed : ∀ row, SealedFor vault asked pid row ⟨project,name,ct,nonce⟩) :
    Kept vault asked ⟨s,(pid,.wrote (upserted x.state.secrets project name env)
      ⟨project,name,ct,nonce⟩) :: x.log⟩ := by
  cases hrow : conflict x.state.secrets (project,env,name) with
  | none =>
    simp only [Secrets.upsert,hrow] at hs
    simp only [upserted,hrow]
    exact h.insert hs rfl (conflict_none hrow) (hsealed _)
  | some row =>
    simp only [Secrets.upsert,hrow] at hs
    simp only [upserted,hrow]
    obtain ⟨hin,htriple⟩ := conflict_some hrow
    obtain ⟨rfl,henv,rfl⟩ : row.projectId = project ∧ row.environment = env ∧ row.name = name := by
      simpa [Secret.triple] using htriple
    refine h.modify ((congrArg (fun t : Serial Secret => t.rows) hs).trans rows_skip)
      (hs ▸ Nat.le_succ _) hin (fun r hr => ?_) rfl ?_ (hsealed _)
    · rw [decide_eq_true_iff]
      constructor
      · exact fun he => congrArg Secret.id (h.distinct r hr row hin (he.trans htriple.symm))
      · intro he
        rw [eq_of_id hr hin he,htriple]
    · intro b hb hne hsame
      exact hne (congrArg Secret.id (h.distinct b hb row hin hsame.symm))

theorem rotate_ok {t u : Serial Secret} {id : Int} {ct nonce env : Text} {svc : Option Int} {now : Int}
    {row : Secret} (hrow : find t id = some row) (h : rotate t id ct nonce env svc now = .ok u) :
    u = t.modify (fun a => (a.id : Int) = id) (fun a => { a with
        encryptedValue := ct, nonce := nonce, environment := env, serviceId := svc, updatedAt := now })
        (fun _ => rfl) ∧
      ∀ a ∈ t.rows, a.id ≠ row.id → a.triple ≠ (row.projectId,env,row.name) := by
  simp only [rotate,hrow] at h
  split at h
  · cases h
  · rename_i hfree
    refine ⟨(Except.ok.inj h).symm,fun a ha hne he => hfree ?_⟩
    exact List.any_eq_true.mpr ⟨a,ha,decide_eq_true ⟨hne,he⟩⟩

theorem Kept.rotate (h : Kept vault asked x) {s : State} {id : Int} {ct nonce env : Text}
    {svc : Option Int} {now : Int} {row : Secret} (hrow : find x.state.secrets id = some row)
    (hs : rotate x.state.secrets id ct nonce env svc now = .ok s.secrets)
    (hsealed : SealedFor vault asked pid row.id ⟨row.projectId,row.name,ct,nonce⟩) :
    Kept vault asked ⟨s,(pid,.wrote row.id ⟨row.projectId,row.name,ct,nonce⟩) :: x.log⟩ := by
  obtain ⟨hs,hfree⟩ := rotate_ok hrow hs
  obtain ⟨hin,hid⟩ := find_some hrow
  refine h.modify (congrArg (fun t : Serial Secret => t.rows) hs) (hs ▸ Nat.le_refl _) hin
    (fun r _ => ?_) rfl ?_ hsealed
  · rw [decide_eq_true_iff,← hid,Int.ofNat_inj]
  · exact fun b hb hne he => hfree b hb hne he.symm

end Traces

end Secrets
