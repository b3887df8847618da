import ServerHub.Interleave.Chronicle
import ServerHub.Interleave.Routine
import ServerHub.Relational.Picks
import ServerHub.Servers.Agents

namespace Servers

open Relational Interleave Interleave.Prog

variable {F : Type}

inductive Note where
  | registered (server : Nat)
  | unlinked (server : Int) (tokens : List Nat)
  | emptied (server : Int) (metrics : List Nat)
  | removed (server : Int) (tokens metrics : List Nat)
  | minted (token : Nat) (server : Int) (hash : Text)
  | revoked (token : Int)
  | admitted (hash : Text) (token server : Nat)
  | refused (hash : Text)
  | unread (hash : Text)
  | recorded (metric server : Nat)
  | beaten (server : Nat)
deriving DecidableEq

abbrev Log := List (Nat × Note)

def looked (hash : Text) : Option (Nat × Nat × Bool) → Note
  | some (token,server,false) => .admitted hash token server
  | _ => .refused hash

def note : (β : Type) → Instr F β → State F → β → Option Note
  | _, .insertServer _, _, id => some (.registered id)
  | _, .selectTokens server, _, ids => some (.unlinked server ids)
  | _, .selectMetrics server, _, ids => some (.emptied server ids)
  | _, .commitDelete server tokens metrics, _, _ => some (.removed server tokens metrics)
  | _, .insertToken server hash _, _, id => id.map fun id => .minted id server hash
  | _, .revokeToken id, _, _ => some (.revoked id)
  | _, .findToken hash, s, found => some (if s.lookupFails then .unread hash else looked hash found)
  | _, .insertMetric server _ _, s, _ => some (.recorded s.metrics.next server)
  | _, .beat _ server, _, _ => some (.beaten server)
  | _, .describe _ _ server, _, _ => some (.beaten server)
  | _, _, _, _ => none

def Note.writes : Note → Option Nat
  | .recorded _ server => some server
  | .beaten server => some server
  | _ => none

def tokenMark : Nat × Note → Option (Mark Int)
  | (_,.minted token server _) => some (.made token server)
  | (_,.unlinked server tokens) => some (.picked server tokens)
  | (_,.removed _ tokens _) => some (.erased tokens)
  | _ => none

def metricMark : Nat × Note → Option (Mark Int)
  | (_,.recorded metric server) => some (.made metric server)
  | (_,.emptied server metrics) => some (.picked server metrics)
  | (_,.removed _ _ metrics) => some (.erased metrics)
  | _ => none

def Request.header : Request F → Option Text
  | .heartbeat header => some header
  | .ingestMetrics header _ => some header
  | _ => none

abbrev traced (F : Type) (digest : Text → Text) : System := (system F digest).observe note

def Stores (tokens : Serial AgentToken) (token : Nat) (server : Int) (hash : Text) : Prop :=
  ∃ r ∈ tokens.rows, r.id = token ∧ r.serverID = server ∧ r.tokenHash = hash ∧ r.revoked = false

-- the token is in the table since it was minted, neither revoked nor deleted with its server
def Valid (s₀ : State F) (token : Nat) (server : Int) (hash : Text) : Log → Prop :=
  Standing (Stores s₀.tokens token server hash) (fun e => e.2 = .minted token server hash)
    fun e => e.2 = .revoked token ∨ ∃ server' tokens metrics, e.2 = .removed server' tokens metrics ∧ token ∈ tokens

structure Accounted (s₀ : State F) (tokens : Serial AgentToken) (log : Log) : Prop where
  live : ∀ r ∈ tokens.rows, r.revoked = false → Valid s₀ r.id r.serverID r.tokenHash log
  stored : ∀ token server hash, Valid s₀ token server hash log → Stores tokens token server hash
  unique : (tokens.rows.map AgentToken.tokenHash).Nodup

def Registered (s₀ : State F) (server : Nat) : Log → Prop :=
  Standing (∃ r ∈ s₀.servers.rows, r.id = server) (fun e => e.2 = .registered server)
    fun e => ∃ tokens metrics, e.2 = .removed server tokens metrics

section Ledger

variable (digest : Text → Text) (s₀ : State F) (es : List (Event (traced F digest)))

def Bears (pid : Nat) (hash : Text) : Prop :=
  ∃ raw, raw ≠ [] ∧ hash = digest raw ∧ ∃ r : Request F, .start pid r ∈ es ∧ r.header = some (bearer ++ raw)

def Justified (older : Log) : Nat × Note → Prop
  | (pid,.admitted hash token server) => Bears digest es pid hash ∧ Valid s₀ token server hash older
  | (_,.refused hash) => ∀ token server, Valid s₀ token server hash older → server < 0
  | (pid,.recorded _ server) => ∃ hash token, (pid,.admitted hash token server) ∈ older
  | (pid,.beaten server) => ∃ hash token, (pid,.admitted hash token server) ∈ older
  | _ => True

structure Kept (x : Traced (State F) Note) : Prop where
  justified : Chronicle (Justified digest s₀ es) x.log
  accounted : Accounted s₀ x.state.tokens x.log
  tokens : Tracked AgentToken.serverID x.state.tokens (x.log.filterMap tokenMark)
  metrics : Tracked (fun r => (r.serverID : Int)) x.state.metrics (x.log.filterMap metricMark)
  servers : ∀ r ∈ x.state.servers.rows, Registered s₀ r.id x.log

def ledger : Ledger (system F digest) note where
  Inv := Kept digest s₀ es
  Allow _ _ _ _ := True
  Duty _ _ _ _ := True

def Fits (pid : Nat) (ns : List Note) : {β : Type} → Instr F β → Prop
  | _, .findToken hash => Bears digest es pid hash
  | _, .commitDelete server tokens metrics => .unlinked server tokens ∈ ns ∧ .emptied server metrics ∈ ns
  | _, .insertMetric server _ _ => ∃ hash token, .admitted hash token server ∈ ns
  | _, .beat _ server => ∃ hash token, .admitted hash token server ∈ ns
  | _, .describe _ _ server => ∃ hash token, .admitted hash token server ∈ ns
  | _, _ => True

end Ledger

section Accounts

variable {s₀ : State F} {tokens : Serial AgentToken} {log : Log} {pid token : Nat} {server : Int}
  {hash : Text} {n : Note}

theorem valid_cons (h : Valid s₀ token server hash log) (hrevoked : n ≠ .revoked token)
    (hremoved : ∀ server' tokens metrics, n = .removed server' tokens metrics → token ∉ tokens) :
    Valid s₀ token server hash ((pid,n) :: log) := by
  refine Standing.keep h fun hends => ?_
  rcases hends with he | ⟨server',tokens,metrics,he,hin⟩
  · exact hrevoked he
  · exact hremoved server' tokens metrics he hin

theorem registered_cons {id : Nat} (h : Registered s₀ id log)
    (hremoved : ∀ tokens metrics, n ≠ .removed id tokens metrics) :
    Registered s₀ id ((pid,n) :: log) :=
  Standing.keep h fun ⟨tokens,metrics,he⟩ => hremoved tokens metrics he

theorem hashes_modify {p : AgentToken → Bool} {f : AgentToken → AgentToken} {hf : ∀ r, (f r).id = r.id}
    (hhash : ∀ r, (f r).tokenHash = r.tokenHash) :
    (tokens.modify p f hf).rows.map AgentToken.tokenHash = tokens.rows.map AgentToken.tokenHash := by
  show (tokens.rows.map _).map AgentToken.tokenHash = _
  rw [List.map_map,List.map_congr_left (g := AgentToken.tokenHash)]
  intro r _
  show (if p r then f r else r).tokenHash = r.tokenHash
  split
  · exact hhash r
  · rfl

namespace Accounted

variable (h : Accounted s₀ tokens log)

include h

theorem quiet (hminted : ∀ token server hash, n ≠ .minted token server hash) (hrevoked : ∀ token, n ≠ .revoked token)
    (hremoved : ∀ server tokens metrics, n ≠ .removed server tokens metrics) :
    Accounted s₀ tokens ((pid,n) :: log) where
  live r hr hlive := valid_cons (h.live r hr hlive) (hrevoked _) fun _ _ _ he => absurd he (hremoved _ _ _)
  stored token server hash hvalid := by
    rcases Standing.last hvalid with hmade | ⟨hvalid,-⟩
    · exact absurd hmade (hminted _ _ _)
    · exact h.stored token server hash hvalid
  unique := h.unique

theorem insert (label : Text) (hfree : ∀ r ∈ tokens.rows, r.tokenHash ≠ hash) :
    Accounted s₀ (tokens.insert (fun id => ⟨id,server,hash,label,false,none⟩) fun _ => rfl)
      ((pid,.minted tokens.next server hash) :: log) where
  live r hr hlive := by
    rcases Serial.mem_insert.mp hr with hr | rfl
    · exact valid_cons (h.live r hr hlive) (by simp) (by simp)
    · exact Standing.made _ rfl
  stored token server hash hvalid := by
    rcases Standing.last hvalid with hmade | ⟨hvalid,-⟩
    · obtain ⟨rfl,rfl,rfl⟩ := Note.minted.inj hmade
      exact ⟨_,Serial.mem_insert.mpr (.inr rfl),rfl,rfl,rfl,rfl⟩
    · obtain ⟨r,hr,hrow⟩ := h.stored token server hash hvalid
      exact ⟨r,Serial.mem_insert.mpr (.inl hr),hrow⟩
  unique := by
    show ((tokens.rows ++ [_]).map AgentToken.tokenHash).Nodup
    rw [List.map_append,List.map_singleton]
    refine List.nodup_append.mpr ⟨h.unique,List.nodup_singleton _,fun a ha b hb => ?_⟩
    obtain ⟨r,hr,rfl⟩ := List.mem_map.mp ha
    rw [List.mem_singleton.mp hb]
    exact hfree r hr

theorem revoke (id : Int) : Accounted s₀
    (tokens.modify (fun r => r.id = id) (fun r => { r with revoked := true }) fun _ => rfl)
    ((pid,.revoked id) :: log) where
  live r hr hlive := by
    obtain ⟨a,ha,rfl⟩ := Serial.mem_modify.mp hr
    by_cases hid : (a.id : Int) = id
    · rw [if_pos (decide_eq_true hid)] at hlive
      cases hlive
    · rw [if_neg (by simpa using hid)] at hlive ⊢
      refine valid_cons (h.live a ha hlive) (fun he => ?_) (by simp)
      exact hid (Note.revoked.inj he).symm
  stored token server hash hvalid := by
    rcases Standing.last hvalid with hmade | ⟨hvalid,hends⟩
    · cases hmade
    · obtain ⟨r,hr,rfl,hrow⟩ := h.stored token server hash hvalid
      have hid : (r.id : Int) ≠ id := fun hid => hends (.inl (by rw [hid]))
      refine ⟨r,Serial.mem_modify.mpr ⟨r,hr,?_⟩,rfl,hrow⟩
      rw [if_neg (by simpa using hid)]
  unique := by
    rw [hashes_modify]
    · exact h.unique
    · exact fun _ => rfl

theorem used (id : Nat) (now : Int) : Accounted s₀
    (tokens.modify (fun r => r.id = id) (fun r => { r with lastUsedAt := some now }) fun _ => rfl) log where
  live r hr hlive := by
    obtain ⟨a,ha,rfl⟩ := Serial.mem_modify.mp hr
    split at hlive
    · rw [if_pos ‹_›]
      exact h.live a ha hlive
    · rw [if_neg ‹_›]
      exact h.live a ha hlive
  stored token server hash hvalid := by
    obtain ⟨r,hr,hid,hserver,hhash,hlive⟩ := h.stored token server hash hvalid
    refine ⟨_,Serial.mem_modify.mpr ⟨r,hr,rfl⟩,?_⟩
    split <;> exact ⟨hid,hserver,hhash,hlive⟩
  unique := by
    rw [hashes_modify]
    · exact h.unique
    · exact fun _ => rfl

theorem remove (gone metrics : List Nat) : Accounted s₀ (tokens.remove fun r => r.id ∈ gone)
    ((pid,.removed server gone metrics) :: log) where
  live r hr hlive := by
    obtain ⟨hin,hkept⟩ := Serial.mem_remove.mp hr
    refine valid_cons (h.live r hin hlive) (by simp) fun _ tokens' _ he => ?_
    obtain ⟨-,rfl,-⟩ := Note.removed.inj he
    exact of_decide_eq_false hkept
  stored token server hash hvalid := by
    rcases Standing.last hvalid with hmade | ⟨hvalid,hends⟩
    · cases hmade
    · obtain ⟨r,hr,rfl,hrow⟩ := h.stored token server hash hvalid
      have hkept : r.id ∉ gone := fun hin => hends (.inr ⟨_,gone,metrics,rfl,hin⟩)
      exact ⟨r,Serial.mem_remove.mpr ⟨hr,decide_eq_false hkept⟩,rfl,hrow⟩
  unique := h.unique.sublist (List.filter_sublist.map _)

theorem looked (hash : Text) {s : State F} (hs : s.tokens = tokens) (hreads : s.lookupFails = false) :
    (∃ token server : Nat, looked hash (s.findToken hash) = .admitted hash token server ∧
      Valid s₀ token server hash log) ∨
    looked hash (s.findToken hash) = .refused hash ∧
      ∀ token server, Valid s₀ token server hash log → server < 0 := by
  subst hs
  unfold State.findToken
  rw [hreads,if_neg Bool.false_ne_true]
  cases hfound : s.tokens.rows.find? fun r => r.tokenHash = hash with
  | none =>
    refine .inr ⟨rfl,fun token server hvalid => ?_⟩
    obtain ⟨r,hr,-,-,hhash,-⟩ := h.stored token server hash hvalid
    exact absurd (decide_eq_true hhash) (List.find?_eq_none.mp hfound r hr)
  | some r =>
    have hin := List.mem_of_find?_eq_some hfound
    have hhash : r.tokenHash = hash := by simpa using List.find?_some hfound
    have honly : ∀ token server, Valid s₀ token server hash log → r.serverID = server ∧ r.revoked = false := by
      intro token server hvalid
      obtain ⟨a,ha,-,hserver,hsame,hfree⟩ := h.stored token server hash hvalid
      obtain rfl := List.inj_on_of_nodup_map h.unique ha hin (hsame.trans hhash.symm)
      exact ⟨hserver,hfree⟩
    simp only
    by_cases hneg : r.serverID < 0
    · rw [if_pos hneg]
      exact .inr ⟨rfl,fun token server hvalid => (honly token server hvalid).1 ▸ hneg⟩
    · rw [if_neg hneg]
      cases hlive : r.revoked with
      | false =>
        refine .inl ⟨r.id,r.serverID.toNat,rfl,?_⟩
        rw [Int.toNat_of_nonneg (Int.not_lt.mp hneg)]
        exact hhash ▸ h.live r hin hlive
      | true =>
        refine .inr ⟨rfl,fun token server hvalid => ?_⟩
        have hfree := (honly token server hvalid).2
        rw [hlive] at hfree
        cases hfree

end Accounted

end Accounts

section Steps

variable {digest : Text → Text} {s₀ : State F} {es : List (Event (traced F digest))} {pid : Nat}
  {x : Traced (State F) Note} {t : State F} {β : Type} {i : Instr F β} {b : β} {server : Int} {hash : Text}

theorem setServer_row {s : State F} {id : Int} {f : ManagedServer → ManagedServer} {hf : ∀ r, (f r).id = r.id}
    {r : ManagedServer} (hr : r ∈ (s.setServer id f hf).servers.rows) : ∃ a ∈ s.servers.rows, a.id = r.id := by
  obtain ⟨a,ha,rfl⟩ := Serial.mem_modify.mp hr
  refine ⟨a,ha,?_⟩
  split
  · exact (hf a).symm
  · rfl

theorem Kept.registered (hx : Kept digest s₀ es x) {r : ManagedServer}
    (hr : ∃ a ∈ x.state.servers.rows, a.id = r.id) : Registered s₀ r.id x.log := by
  obtain ⟨a,ha,hid⟩ := hr
  exact hid ▸ hx.servers a ha

theorem kept_insertToken {label : Text} {id : Option Nat} (hx : Kept digest s₀ es x)
    (hexec : x.state.insertToken server hash label = (t,id)) :
    Kept digest s₀ es ⟨t,record pid x.log (id.map fun id => .minted id server hash)⟩ := by
  unfold State.insertToken at hexec
  split at hexec
  · obtain ⟨rfl,rfl⟩ := Prod.mk.inj hexec
    exact hx
  · rename_i hany
    obtain ⟨rfl,rfl⟩ := Prod.mk.inj hexec
    have hfree : ∀ r ∈ x.state.tokens.rows, r.tokenHash ≠ hash := by
      intro r hr he
      exact hany (List.any_eq_true.mpr ⟨r,hr,decide_eq_true he⟩)
    exact ⟨⟨trivial,hx.justified⟩,hx.accounted.insert label hfree,
      hx.tokens.insert (fun id => ⟨id,server,hash,label,false,none⟩) fun _ => rfl,hx.metrics,
      fun r hr => registered_cons (hx.servers r hr) (by simp)⟩

theorem kept_findToken (hx : Kept digest s₀ es x) (hbears : Bears digest es pid hash) :
    Kept digest s₀ es ⟨x.state,(pid,if x.state.lookupFails then .unread hash
      else looked hash (x.state.findToken hash)) :: x.log⟩ := by
  cases hfails : x.state.lookupFails with
  | true =>
    rw [if_pos rfl]
    exact ⟨⟨trivial,hx.justified⟩,hx.accounted.quiet (by simp) (by simp) (by simp),hx.tokens,hx.metrics,
      fun r hr => registered_cons (hx.servers r hr) (by simp)⟩
  | false =>
    rw [if_neg Bool.false_ne_true]
    rcases hx.accounted.looked hash rfl hfails with ⟨token,server,hnote,hvalid⟩ | ⟨hnote,hinvalid⟩
    · rw [hnote]
      exact ⟨⟨⟨hbears,hvalid⟩,hx.justified⟩,hx.accounted.quiet (by simp) (by simp) (by simp),hx.tokens,
        hx.metrics,fun r hr => registered_cons (hx.servers r hr) (by simp)⟩
    · rw [hnote]
      exact ⟨⟨hinvalid,hx.justified⟩,hx.accounted.quiet (by simp) (by simp) (by simp),hx.tokens,
        hx.metrics,fun r hr => registered_cons (hx.servers r hr) (by simp)⟩

theorem kept_commitDelete {tokens metrics : List Nat} (hx : Kept digest s₀ es x)
    (htokens : (pid,.unlinked server tokens) ∈ x.log) (hmetrics : (pid,.emptied server metrics) ∈ x.log) :
    Kept digest s₀ es ⟨x.state.commitDelete server tokens metrics,
      (pid,.removed server tokens metrics) :: x.log⟩ := by
  refine ⟨⟨trivial,hx.justified⟩,hx.accounted.remove tokens metrics,hx.tokens.erase (o := server) ?_,
    hx.metrics.erase (o := server) ?_,fun r hr => ?_⟩
  · exact List.mem_filterMap.mpr ⟨_,htokens,rfl⟩
  · exact List.mem_filterMap.mpr ⟨_,hmetrics,rfl⟩
  · obtain ⟨hin,hkept⟩ := Serial.mem_remove.mp hr
    refine registered_cons (hx.servers r hin) fun tokens' metrics' he => ?_
    obtain ⟨hserver,-,-⟩ := Note.removed.inj he
    exact of_decide_eq_false hkept hserver.symm

theorem kept_setServer {server : Nat} (hx : Kept digest s₀ es x) {f : ManagedServer → ManagedServer}
    {hf : ∀ r, (f r).id = r.id} (hadmitted : ∃ hash token, .admitted hash token server ∈ notesOf pid x.log) :
    Kept digest s₀ es ⟨x.state.setServer server f hf,(pid,.beaten server) :: x.log⟩ := by
  obtain ⟨hash,token,hin⟩ := hadmitted
  exact ⟨⟨⟨hash,token,mem_notesOf.mp hin⟩,hx.justified⟩,hx.accounted.quiet (by simp) (by simp) (by simp),
    hx.tokens,hx.metrics,fun r hr => registered_cons (hx.registered (setServer_row hr)) (by simp)⟩

theorem kept_exec (hx : Kept digest s₀ es x) (hfits : Fits digest es pid (notesOf pid x.log) i)
    (hexec : exec i x.state = (t,b)) : Kept digest s₀ es ⟨t,record pid x.log (note β i x.state b)⟩ := by
  cases i with
  | insertToken server hash label => exact kept_insertToken hx hexec
  | now =>
    obtain ⟨rfl,rfl⟩ := Prod.mk.inj hexec
    exact hx
  | random =>
    obtain ⟨rfl,rfl⟩ := Prod.mk.inj hexec
    exact ⟨hx.justified,hx.accounted,hx.tokens,hx.metrics,hx.servers⟩
  | insertServer form =>
    obtain ⟨rfl,rfl⟩ := Prod.mk.inj hexec
    refine ⟨⟨trivial,hx.justified⟩,hx.accounted.quiet (by simp) (by simp) (by simp),hx.tokens,hx.metrics,
      fun r hr => ?_⟩
    rcases (@Serial.mem_insert _ _ x.state.servers form.row (fun _ => rfl) r).mp hr with hr | rfl
    · exact registered_cons (hx.servers r hr) (by simp)
    · exact Standing.made _ rfl
  | updateServer id patch =>
    obtain ⟨rfl,rfl⟩ := Prod.mk.inj hexec
    exact ⟨hx.justified,hx.accounted,hx.tokens,hx.metrics,fun r hr => hx.registered (setServer_row hr)⟩
  | selectTokens server =>
    obtain ⟨rfl,rfl⟩ := Prod.mk.inj hexec
    exact ⟨⟨trivial,hx.justified⟩,hx.accounted.quiet (by simp) (by simp) (by simp),hx.tokens.pick server,
      hx.metrics,fun r hr => registered_cons (hx.servers r hr) (by simp)⟩
  | selectMetrics server =>
    obtain ⟨rfl,rfl⟩ := Prod.mk.inj hexec
    exact ⟨⟨trivial,hx.justified⟩,hx.accounted.quiet (by simp) (by simp) (by simp),hx.tokens,
      hx.metrics.pick server,fun r hr => registered_cons (hx.servers r hr) (by simp)⟩
  | commitDelete server tokens metrics =>
    obtain ⟨rfl,rfl⟩ := Prod.mk.inj hexec
    exact kept_commitDelete hx (mem_notesOf.mp hfits.1) (mem_notesOf.mp hfits.2)
  | revokeToken id =>
    obtain ⟨rfl,rfl⟩ := Prod.mk.inj hexec
    exact ⟨⟨trivial,hx.justified⟩,hx.accounted.revoke id,hx.tokens.modify fun _ => rfl,hx.metrics,
      fun r hr => registered_cons (hx.servers r hr) (by simp)⟩
  | findToken hash =>
    obtain ⟨rfl,rfl⟩ := Prod.mk.inj hexec
    exact kept_findToken hx hfits
  | useToken id =>
    obtain ⟨rfl,rfl⟩ := Prod.mk.inj hexec
    exact ⟨hx.justified,hx.accounted,hx.tokens,hx.metrics,hx.servers⟩
  | beat now server =>
    obtain ⟨rfl,rfl⟩ := Prod.mk.inj hexec
    exact kept_setServer hx hfits
  | insertMetric server now report =>
    obtain ⟨rfl,rfl⟩ := Prod.mk.inj hexec
    obtain ⟨hash,token,hin⟩ := hfits
    exact ⟨⟨⟨hash,token,mem_notesOf.mp hin⟩,hx.justified⟩,hx.accounted.quiet (by simp) (by simp) (by simp),
      hx.tokens,hx.metrics.insert (report.row server now) fun _ => rfl,
      fun r hr => registered_cons (hx.servers r hr) (by simp)⟩
  | describe report now server =>
    obtain ⟨rfl,rfl⟩ := Prod.mk.inj hexec
    exact kept_setServer hx hfits

theorem kept_edit {e : Edit} (hx : Kept digest s₀ es x) (he : e.apply x.state = some t) :
    Kept digest s₀ es ⟨t,x.log⟩ := by
  cases e with
  | tick d =>
    obtain rfl := Option.some.inj he
    exact ⟨hx.justified,hx.accounted,hx.tokens,hx.metrics,hx.servers⟩
  | outage fails =>
    obtain rfl := Option.some.inj he
    exact ⟨hx.justified,hx.accounted,hx.tokens,hx.metrics,hx.servers⟩
  | used id =>
    obtain ⟨-,he⟩ := Option.ite_none_right_eq_some.mp he
    obtain rfl := Option.some.inj he
    exact ⟨hx.justified,hx.accounted.used id x.state.clock,hx.tokens.modify fun _ => rfl,hx.metrics,hx.servers⟩
  | offline id =>
    obtain rfl := Option.some.inj he
    exact ⟨hx.justified,hx.accounted,hx.tokens,hx.metrics,fun r hr => hx.registered (setServer_row hr)⟩
  | prune ids =>
    obtain rfl := Option.some.inj he
    exact ⟨hx.justified,hx.accounted,hx.tokens,hx.metrics.remove,hx.servers⟩
  | ungroup group =>
    obtain rfl := Option.some.inj he
    refine ⟨hx.justified,hx.accounted,hx.tokens,hx.metrics,fun r hr => hx.registered ?_⟩
    obtain ⟨a,ha,rfl⟩ := Serial.mem_modify.mp hr
    refine ⟨a,ha,?_⟩
    split <;> rfl

end Steps

section Requests

variable {digest : Text → Text} {s₀ : State F} {es : List (Event (traced F digest))} {pid : Nat} {β : Type}

theorem tells_step {i : Instr F β} {J : List Note → Prop} {R : β → List Note → Prop}
    (hfits : ∀ ns, J ns → Fits digest es pid ns i)
    (hR : ∀ ns s, J ns → R (exec i s).2 ((note β i s (exec i s).2).toList ++ ns)) :
    (ledger digest s₀ es).Tells pid J (perform i) R := by
  refine Ledger.tells_perform fun x t b hx hJ _ hexec => ?_
  have hstep : exec i x.state = (t,b) := Option.some.inj hexec
  have hb : (exec i x.state).2 = b := congrArg Prod.snd hstep
  exact ⟨trivial,kept_exec hx (hfits _ hJ) hstep,hb ▸ hR _ x.state hJ⟩

theorem tells_free {i : Instr F β} (hfits : ∀ ns, Fits digest es pid ns i) :
    (ledger digest s₀ es).Tells pid (fun _ => True) (perform i) fun _ _ => True :=
  tells_step (fun ns _ => hfits ns) fun _ _ _ => trivial

def Denied (digest : Text → Text) (header : Text) (ns : List Note) : Prop :=
  ∀ raw, header = bearer ++ raw → raw ≠ [] → ∃ n ∈ ns, n = .refused (digest raw) ∨ n = .unread (digest raw)

def Settles (digest : Text → Text) : Request F → Reply → List Note → Prop
  | .delete (some id), a, ns => a = .ok → ∃ tokens metrics,
      ns = [.removed id tokens metrics,.emptied id metrics,.unlinked id tokens]
  | .heartbeat header, a, ns => ∀ text, a = .error 401 text → Denied digest header ns
  | .ingestMetrics header _, a, ns => ∀ text, a = .error 401 text → Denied digest header ns
  | _, _, _ => True

theorem tells_delete (id : Int) : (ledger digest s₀ es).Tells pid (· = []) (delete (some id))
    (Settles digest (.delete (some id) : Request F)) := by
  refine Ledger.tells_bind (tells_step (R := fun tokens ns => ns = [.unlinked id tokens]) (fun _ _ => trivial)
    fun ns s hns => ?_) fun tokens => ?_
  · subst hns
    rfl
  refine Ledger.tells_bind (tells_step (R := fun metrics ns =>
    ns = [.emptied id metrics,.unlinked id tokens]) (fun _ _ => trivial) fun ns s hns => ?_) fun metrics => ?_
  · subst hns
    rfl
  refine Ledger.tells_bind (tells_step (R := fun _ ns =>
    ns = [.removed id tokens metrics,.emptied id metrics,.unlinked id tokens]) (fun ns hns => ?_)
    fun ns s hns => ?_) fun _ => Ledger.tells_ret fun ns hns _ => ⟨tokens,metrics,hns⟩
  · subst hns
    exact ⟨by simp,by simp⟩
  · subst hns
    rfl

theorem tells_create (form : Option ServerForm) :
    (ledger digest s₀ es).Tells pid (fun _ => True) (create form) fun _ _ => True := by
  cases form with
  | none => exact Ledger.tells_ret fun _ _ => trivial
  | some form =>
    refine Ledger.tells_ite (fun _ => Ledger.tells_ret fun _ _ => trivial) fun _ => ?_
    exact Ledger.tells_bind (tells_free fun _ => trivial) fun _ => Ledger.tells_ret fun _ _ => trivial

theorem tells_update (id : Option Int) (patch : Except Text ServerPatch) :
    (ledger digest s₀ es).Tells pid (fun _ => True) (update id patch) fun _ _ => True := by
  cases id with
  | none => exact Ledger.tells_ret fun _ _ => trivial
  | some id =>
    cases patch with
    | error e => exact Ledger.tells_ret fun _ _ => trivial
    | ok patch => exact Ledger.tells_bind (tells_free fun _ => trivial) fun _ => Ledger.tells_ret fun _ _ => trivial

theorem tells_createToken (id : Option Int) (label : Text) :
    (ledger digest s₀ es).Tells pid (fun _ => True) (createToken digest id label) fun _ _ => True := by
  cases id with
  | none => exact Ledger.tells_ret fun _ _ => trivial
  | some id =>
    refine Ledger.tells_bind (Q := fun _ _ => True) (Ledger.tells_bind (tells_free fun _ => trivial)
      fun b => ?_) fun made => ?_
    · cases b <;> exact Ledger.tells_ret fun _ _ => trivial
    · cases made with
      | none => exact Ledger.tells_ret fun _ _ => trivial
      | some made =>
        refine Ledger.tells_bind (tells_free fun _ => trivial) fun tokenID => ?_
        cases tokenID <;> exact Ledger.tells_ret fun _ _ => trivial

theorem tells_revokeToken (id : Option Int) :
    (ledger digest s₀ es).Tells pid (fun _ => True) (revokeToken id) fun _ _ => True := by
  cases id with
  | none => exact Ledger.tells_ret fun _ _ => trivial
  | some id => exact Ledger.tells_bind (tells_free fun _ => trivial) fun _ => Ledger.tells_ret fun _ _ => trivial

def Admits (ns : List Note) (server : Nat) : Prop := ∃ hash token, .admitted hash token server ∈ ns

theorem trimPrefix_ne {s pre : Text} (h : trimPrefix s pre ≠ s) : s = pre ++ trimPrefix s pre := by
  unfold trimPrefix at h ⊢
  split at h
  · rename_i hpre
    obtain ⟨rest,rfl⟩ := List.isPrefixOf_iff_prefix.mp hpre
    rw [if_pos hpre,List.drop_left]
  · exact absurd rfl h

theorem trimPrefix_append (pre raw : Text) : trimPrefix (pre ++ raw) pre = raw := by
  unfold trimPrefix
  rw [if_pos (List.isPrefixOf_iff_prefix.mpr (List.prefix_append pre raw)),List.drop_left]

def Checked (digest : Text → Text) (header : Text) : Except Text Nat → List Note → Prop
  | .ok server, ns => Admits ns server
  | .error _, ns => Denied digest header ns

theorem denied_unread {header : Text} (h : trimPrefix header bearer = [] ∨ trimPrefix header bearer = header)
    (ns : List Note) : Denied digest header ns := by
  rintro raw rfl hraw
  rw [trimPrefix_append] at h
  rcases h with hempty | hsame
  · exact absurd hempty hraw
  · have hbearer : bearer.length = 7 := by decide
    have hlength := congrArg List.length hsame
    rw [List.length_append] at hlength
    omega

def Read (hash : Text) : Option (Nat × Nat × Bool) → List Note → Prop
  | some (token,server,false), ns => .admitted hash token server ∈ ns
  | _, ns => ∃ n ∈ ns, n = .refused hash ∨ n = .unread hash

theorem read_findToken (hash : Text) (s : State F) (ns : List Note) : Read hash (s.findToken hash)
    ((if s.lookupFails then Note.unread hash else looked hash (s.findToken hash)) :: ns) := by
  cases hfails : s.lookupFails with
  | true =>
    unfold State.findToken
    rw [hfails]
    exact ⟨.unread hash,List.mem_cons_self,.inr rfl⟩
  | false =>
    rw [if_neg Bool.false_ne_true]
    cases s.findToken hash with
    | none => exact ⟨.refused hash,List.mem_cons_self,.inl rfl⟩
    | some found =>
      obtain ⟨token,server,revoked⟩ := found
      cases revoked with
      | true => exact ⟨.refused hash,List.mem_cons_self,.inl rfl⟩
      | false => exact List.mem_cons_self

theorem tells_agentAuth {r : Request F} {header : Text} (hstart : .start pid r ∈ es)
    (hheader : r.header = some header) :
    (ledger digest s₀ es).Tells pid (fun _ => True) (agentAuth digest header) (Checked digest header) := by
  refine Ledger.tells_ite (fun hraw => Ledger.tells_ret fun ns _ => denied_unread hraw ns) fun hraw => ?_
  obtain ⟨hne,hpre⟩ := not_or.mp hraw
  have hbears : Bears digest es pid (digest (trimPrefix header bearer)) :=
    ⟨trimPrefix header bearer,hne,rfl,r,hstart,hheader.trans (congrArg some (trimPrefix_ne hpre))⟩
  have hdenied : ∀ ns, (∃ n ∈ ns, n = Note.refused (digest (trimPrefix header bearer)) ∨
      n = .unread (digest (trimPrefix header bearer))) → Denied digest header ns := by
    rintro ns hin raw rfl -
    rwa [trimPrefix_append] at hin
  refine Ledger.tells_bind (tells_step (R := Read (digest (trimPrefix header bearer)))
    (fun _ _ => hbears) fun ns s _ => read_findToken _ s ns) fun found => ?_
  cases found with
  | none => exact Ledger.tells_ret hdenied
  | some found =>
    obtain ⟨token,server,revoked⟩ := found
    cases revoked with
    | true => exact Ledger.tells_ret hdenied
    | false =>
      exact Ledger.tells_bind (tells_step (R := fun _ ns => Admits ns server) (fun _ _ => trivial)
        fun ns s hin => ⟨_,token,hin⟩) fun _ => Ledger.tells_ret fun _ hadmits => hadmits

theorem tells_beat (now : Int) (server : Nat) : (ledger digest s₀ es).Tells pid (fun ns => Admits ns server)
    (perform (.beat now server)) fun _ _ => True :=
  tells_step (fun _ h => h) fun _ _ _ => trivial

theorem tells_now (server : Nat) : (ledger digest s₀ es).Tells pid (fun ns => Admits ns server)
    (perform .now) fun _ ns => Admits ns server :=
  tells_step (fun _ _ => trivial) fun _ _ h => h

theorem tells_heartbeat {header : Text} (hstart : .start pid (Request.heartbeat header) ∈ es) :
    (ledger digest s₀ es).Tells pid (fun _ => True) (heartbeat digest header)
      (Settles digest (.heartbeat header : Request F)) := by
  refine Ledger.tells_bind (tells_agentAuth hstart rfl) fun a => ?_
  cases a with
  | error e => exact Ledger.tells_ret fun _ hdenied _ _ => hdenied
  | ok server =>
    refine Ledger.tells_bind (tells_now server) fun now => ?_
    exact Ledger.tells_bind (tells_beat now server) fun _ => Ledger.tells_ret fun _ _ _ h => by cases h

theorem tells_ingestMetrics {header : Text} {body : Except Text (Report F)}
    (hstart : .start pid (Request.ingestMetrics header body) ∈ es) :
    (ledger digest s₀ es).Tells pid (fun _ => True) (ingestMetrics digest header body)
      (Settles digest (.ingestMetrics header body)) := by
  refine Ledger.tells_bind (tells_agentAuth hstart rfl) fun a => ?_
  cases a with
  | error e => exact Ledger.tells_ret fun _ hdenied _ _ => hdenied
  | ok server =>
    cases body with
    | error e => exact Ledger.tells_ret fun _ _ _ h => by cases h
    | ok report =>
      refine Ledger.tells_bind (tells_now server) fun now => ?_
      refine Ledger.tells_bind (tells_step (R := fun _ ns => Admits ns server) (fun _ h => h)
        fun ns s hadmits => ?_) fun _ => ?_
      · obtain ⟨hash,token,hin⟩ := hadmits
        exact ⟨hash,token,List.mem_cons_of_mem _ hin⟩
      · refine Ledger.tells_ite (fun _ => ?_) fun _ => ?_
        · exact Ledger.tells_bind (tells_step (R := fun _ _ => True) (fun _ h => h) fun _ _ _ => trivial)
            fun _ => Ledger.tells_ret fun _ _ _ h => by cases h
        · exact Ledger.tells_bind (tells_beat now server) fun _ => Ledger.tells_ret fun _ _ _ h => by cases h

theorem tells_handle {r : Request F} (hstart : .start pid r ∈ es) :
    (ledger digest s₀ es).Tells pid (· = []) (handle digest r) (Settles digest r) := by
  cases r with
  | create form => exact Ledger.tells_mono (fun _ _ => trivial) (fun _ _ _ => trivial) (tells_create form)
  | update id patch =>
    exact Ledger.tells_mono (fun _ _ => trivial) (fun _ _ _ => trivial) (tells_update id patch)
  | delete id =>
    cases id with
    | none => exact Ledger.tells_ret fun _ _ => trivial
    | some id => exact tells_delete id
  | createToken id label =>
    exact Ledger.tells_mono (fun _ _ => trivial) (fun _ _ _ => trivial) (tells_createToken id label)
  | revokeToken id => exact Ledger.tells_mono (fun _ _ => trivial) (fun _ _ _ => trivial) (tells_revokeToken id)
  | heartbeat header => exact Ledger.tells_mono (fun _ _ => trivial) (fun _ _ h => h) (tells_heartbeat hstart)
  | ingestMetrics header body =>
    exact Ledger.tells_mono (fun _ _ => trivial) (fun _ _ h => h) (tells_ingestMetrics hstart)

end Requests

section Runs

variable {digest : Text → Text} {s₀ : State F} {es : List (Event (traced F digest))}
  {v : World (traced F digest)}

theorem accounted_begun (hunique : (s₀.tokens.rows.map AgentToken.tokenHash).Nodup) :
    Accounted s₀ s₀.tokens [] where
  live r hr hlive := .inl ⟨⟨r,hr,rfl,rfl,rfl,hlive⟩,fun _ he => nomatch he⟩
  stored token server hash hvalid := by
    rcases hvalid with ⟨hstored,-⟩ | ⟨newer,e,older,hsplit,-⟩
    · exact hstored
    · have hlength := congrArg List.length hsplit
      simp at hlength
  unique := hunique

theorem kept_begun (hunique : (s₀.tokens.rows.map AgentToken.tokenHash).Nodup) : Kept digest s₀ es ⟨s₀,[]⟩ where
  justified := trivial
  accounted := accounted_begun hunique
  tokens := .begun
  metrics := .begun
  servers r hr := .inl ⟨⟨r,hr,rfl⟩,fun _ he => nomatch he⟩

theorem kept_run (hunique : (s₀.tokens.rows.map AgentToken.tokenHash).Nodup)
    (hv : (begun s₀).run es = some v) : Kept digest s₀ es v.state ∧
      ∀ pid r a, .start pid r ∈ es → v.pool pid = some (.ret a) → Settles digest r a (notesOf pid v.state.log) := by
  refine Ledger.told (L := ledger digest s₀ es) (fun pid r hstart => tells_handle hstart) ?_ (kept_begun hunique)
    (along_of_mem (fun e _ w => ?_) _) hv
  · intro e x y hx he
    obtain ⟨hstate,hlog⟩ := env_observe he
    have hkept := kept_edit hx hstate
    exact (congrArg (Kept digest s₀ es) (show (⟨y.state,x.log⟩ : Traced (State F) Note) = y from
      hlog ▸ rfl)).mp hkept
  · cases e <;> first | trivial | exact fun _ _ _ _ _ _ _ => trivial

theorem writes_admitted {newer older : Log} {pid server : Nat} {n : Note}
    (hunique : (s₀.tokens.rows.map AgentToken.tokenHash).Nodup) (hv : (begun s₀).run es = some v)
    (hlog : v.state.log = newer ++ (pid,n) :: older) (hwrites : n.writes = some server) : ∃ hash token mid earlier,
      older = mid ++ (pid,.admitted hash token server) :: earlier ∧ Bears digest es pid hash ∧
      Valid s₀ token server hash earlier := by
  obtain ⟨hjustified,hold⟩ := (hlog ▸ (kept_run hunique hv).1.justified).at
  have hadmitted : ∃ hash token, (pid,.admitted hash token server) ∈ older := by
    cases n with
    | recorded metric s =>
      obtain rfl := Option.some.inj hwrites
      exact hjustified
    | beaten s =>
      obtain rfl := Option.some.inj hwrites
      exact hjustified
    | _ => cases hwrites
  obtain ⟨hash,token,hin⟩ := hadmitted
  obtain ⟨mid,earlier,rfl⟩ := List.append_of_mem hin
  exact ⟨hash,token,mid,earlier,rfl,hold.at.1⟩

theorem refusal_due {pid : Nat} {r : Request F} {raw text : Text}
    (hunique : (s₀.tokens.rows.map AgentToken.tokenHash).Nodup) (hv : (begun s₀).run es = some v)
    (hstart : .start pid r ∈ es) (hheader : r.header = some (bearer ++ raw)) (hraw : raw ≠ [])
    (hanswer : v.answer pid = some (.error 401 text)) : ∃ newer n older,
      v.state.log = newer ++ (pid,n) :: older ∧ (n = .unread (digest raw) ∨
        n = .refused (digest raw) ∧ ∀ token server, Valid s₀ token server (digest raw) older → server < 0) := by
  obtain ⟨hkept,hsettles⟩ := kept_run hunique hv
  have hsettled := hsettles pid r _ hstart (World.answer_eq.mp hanswer)
  have hnoted : ∃ n ∈ notesOf pid v.state.log, n = .refused (digest raw) ∨ n = .unread (digest raw) := by
    cases r with
    | heartbeat header =>
      obtain rfl := Option.some.inj hheader
      exact hsettled text rfl raw rfl hraw
    | ingestMetrics header body =>
      obtain rfl := Option.some.inj hheader
      exact hsettled text rfl raw rfl hraw
    | _ => cases hheader
  obtain ⟨n,hin,hn⟩ := hnoted
  obtain ⟨newer,older,hlog⟩ := List.append_of_mem (mem_notesOf.mp hin)
  refine ⟨newer,n,older,hlog,?_⟩
  rcases hn with rfl | rfl
  · exact .inr ⟨rfl,(hlog ▸ hkept.justified).at.1⟩
  · exact .inl rfl

theorem deleted_gone {pid : Nat} {server : Int} (hunique : (s₀.tokens.rows.map AgentToken.tokenHash).Nodup)
    (hv : (begun s₀).run es = some v) (hstart : .start pid (Request.delete (some server)) ∈ es) (hok : v.answer pid = some .ok) :
    ∃ newer tokens older, v.state.log = newer ++ (pid,.unlinked server tokens) :: older ∧
      (∀ r ∈ v.state.state.servers.rows, (r.id : Int) = server → ∃ q, (q,.registered r.id) ∈ newer) ∧
      (∀ r ∈ v.state.state.tokens.rows, r.serverID = server → ∃ q hash, (q,.minted r.id server hash) ∈ newer) ∧
      ∀ r ∈ v.state.state.metrics.rows, (r.serverID : Int) = server →
        ∃ q, (q,.recorded r.id r.serverID) ∈ newer := by
  obtain ⟨hkept,hsettles⟩ := kept_run hunique hv
  obtain ⟨tokens,metrics,hnotes⟩ := hsettles pid _ _ hstart (World.answer_eq.mp hok) rfl
  have hlog := notesOf_split [Note.removed server tokens metrics,.emptied server metrics] hnotes
  obtain ⟨newer,older,hlog,hnewer⟩ := hlog
  obtain ⟨later,mid,rfl,hlater⟩ := notesOf_split [Note.removed server tokens metrics] hnewer
  obtain ⟨last,before,rfl,-⟩ := notesOf_split [] hlater
  refine ⟨_,tokens,older,hlog,fun r hr hid => ?_,fun r hr hid => ?_,fun r hr hid => ?_⟩
  · have hstands := hkept.servers r hr
    rw [hlog,List.append_assoc,List.append_assoc] at hstands
    obtain ⟨⟨q,n⟩,hin,hn⟩ := hstands.since ⟨tokens,metrics,by rw [hid]⟩ (by simp)
    obtain rfl : n = .registered r.id := hn
    exact ⟨q,List.mem_append_left _ (List.mem_append_left _ hin)⟩
  · have htracked := hkept.tokens
    rw [hlog,List.filterMap_append] at htracked
    have herased : .erased tokens ∈ ((last ++ (pid,Note.removed server tokens metrics) :: before) ++
        (pid,.emptied server metrics) :: mid).filterMap tokenMark :=
      List.mem_filterMap.mpr ⟨(pid,.removed server tokens metrics),by simp,rfl⟩
    obtain ⟨⟨q,n⟩,hin,hmade⟩ := List.mem_filterMap.mp (htracked.since herased hr hid)
    cases n with
    | minted token s hash =>
      obtain ⟨rfl,rfl⟩ := Mark.made.inj (Option.some.inj hmade)
      exact ⟨q,hash,hin⟩
    | _ => cases hmade
  · have htracked := hkept.metrics
    rw [hlog,List.append_assoc,List.filterMap_append] at htracked
    have herased : .erased metrics ∈ (last ++ (pid,Note.removed server tokens metrics) :: before).filterMap
        metricMark :=
      List.mem_filterMap.mpr ⟨(pid,.removed server tokens metrics),by simp,rfl⟩
    obtain ⟨⟨q,n⟩,hin,hmade⟩ := List.mem_filterMap.mp (htracked.since herased hr hid)
    cases n with
    | recorded metric s =>
      obtain ⟨rfl,hserver⟩ := Mark.made.inj (Option.some.inj hmade)
      obtain rfl : r.serverID = s := Int.ofNat_inj.mp (hid.trans hserver.symm)
      exact ⟨q,List.mem_append_left _ hin⟩
    | _ => cases hmade

end Runs

section Instances

def tagged (raw : Text) : Text := 'h' :: raw

def noServers : State Nat where
  clock := 0
  servers := Serial.empty
  tokens := Serial.empty
  metrics := Serial.empty
  pending := []
  random _ := some [10]
  drawn := 0
  lookupFails := false

def idleReport : Report Nat := ⟨1,2,3,4,5,6,7,8,9,[],[],[],[],[],0,0,0⟩

def lateMetrics : List (Event (traced Nat tagged)) :=
  [.start 0 (Request.create (some ⟨"web".toList,[],[],none⟩)),.act 0,
    .start 1 (Request.createToken (some 0) []),.act 1,.act 1,
    .start 2 (Request.delete (some 0)),.act 2,
    .start 3 (Request.ingestMetrics "Bearer 0a".toList (.ok idleReport)),.act 3,.act 3,.env (.used 0),
    .act 2,.act 2,.act 3,.act 3,.act 3]

def lateLog : Log :=
  [(3,.beaten 0),(3,.recorded 0 0),(2,.removed 0 [0] []),(2,.emptied 0 []),
    (3,.admitted "h0a".toList 0 0),(2,.unlinked 0 [0]),(1,.minted 0 0 "h0a".toList),(0,.registered 0)]

theorem lateMetrics_run : ∃ v : World (traced Nat tagged),
    (begun noServers).run lateMetrics = some v ∧ v.answer 2 = some .ok ∧ v.state.log = lateLog := by
  have hrun : ((begun noServers).run lateMetrics).map
      (fun v : World (traced Nat tagged) => ((v.answer 2,v.state.log) : Option Reply × Log)) =
      some (some .ok,lateLog) := by
    decide +kernel
  obtain ⟨v,hv,hseen⟩ := Option.map_eq_some_iff.mp hrun
  obtain ⟨hanswer,hlog⟩ := Prod.mk.inj hseen
  exact ⟨v,hv,hanswer,hlog⟩

theorem late_metric_admitted : ∃ v : World (traced Nat tagged),
    (begun noServers).run lateMetrics = some v ∧ ∃ hash token mid earlier,
      lateLog.drop 2 = mid ++ (3,.admitted hash token 0) :: earlier ∧ Bears tagged lateMetrics 3 hash ∧
      Valid noServers token 0 hash earlier := by
  obtain ⟨v,hv,-,hlog⟩ := lateMetrics_run
  have hsplit : v.state.log = [(3,.beaten 0)] ++ (3,.recorded 0 0) :: lateLog.drop 2 := hlog
  exact ⟨v,hv,writes_admitted List.nodup_nil hv hsplit rfl⟩

theorem deleted_server_gone : ∃ v : World (traced Nat tagged),
    (begun noServers).run lateMetrics = some v ∧ ∃ newer tokens older,
      v.state.log = newer ++ (2,.unlinked 0 tokens) :: older ∧
      (∀ r ∈ v.state.state.servers.rows, (r.id : Int) = 0 → ∃ q, (q,.registered r.id) ∈ newer) ∧
      (∀ r ∈ v.state.state.tokens.rows, r.serverID = 0 → ∃ q hash, (q,.minted r.id 0 hash) ∈ newer) ∧
      ∀ r ∈ v.state.state.metrics.rows, (r.serverID : Int) = 0 →
        ∃ q, (q,.recorded r.id r.serverID) ∈ newer := by
  obtain ⟨v,hv,hok,-⟩ := lateMetrics_run
  have hunique : (noServers.tokens.rows.map AgentToken.tokenHash).Nodup := List.nodup_nil
  exact ⟨v,hv,deleted_gone hunique hv (by simp [lateMetrics]) hok⟩

def revokedAgent : List (Event (traced Nat tagged)) :=
  [.start 0 (Request.createToken (some 0) []),.act 0,.act 0,.start 1 (Request.revokeToken (some 0)),.act 1,
    .start 2 (Request.heartbeat "Bearer 0a".toList),.act 2]

theorem revoked_token_refused : ∃ v : World (traced Nat tagged),
    (begun noServers).run revokedAgent = some v ∧ ∃ newer n older,
      v.state.log = newer ++ (2,n) :: older ∧ (n = .unread (tagged "0a".toList) ∨
        n = .refused (tagged "0a".toList) ∧
          ∀ token server, Valid noServers token server (tagged "0a".toList) older → server < 0) := by
  have hrun : ((begun noServers).run revokedAgent).map
      (fun v : World (traced Nat tagged) => ((v.answer 2,v.state.log.length) : Option Reply × Nat)) =
      some (some (.error 401 "agent token revoked".toList),3) := by
    decide +kernel
  obtain ⟨v,hv,hseen⟩ := Option.map_eq_some_iff.mp hrun
  obtain ⟨hanswer,-⟩ := Prod.mk.inj hseen
  have hunique : (noServers.tokens.rows.map AgentToken.tokenHash).Nodup := List.nodup_nil
  have hstart : .start 2 (Request.heartbeat "Bearer 0a".toList) ∈ revokedAgent := by simp [revokedAgent]
  exact ⟨v,hv,refusal_due hunique hv hstart rfl (by decide) hanswer⟩

end Instances

end Servers
