import ServerHub.VgBackup.Enrollment

namespace VgBackup

open Relational Interleave

def registeredAgent : (β : Type) → Stmt β → β → Option (UUID × String)
  | _, .agent (.register id p), _ => some (id,p.tokenHash)
  | _, _, _ => none

abbrev Registrations := Traced Store (UUID × String)

def registrations (env : Env) : System := (system env).watch registeredAgent

def HasKey (s : Store) (id : UUID) (digest : String) : Prop :=
  ∃ a ∈ s.agents.rows, a.id = id ∧ a.registrationKey = some digest

def KeysUnique (s : Store) : Prop :=
  ∀ id id' digest, HasKey s id digest → HasKey s id' digest → id = id'

def AgentWrite.SpendsKey (s : Store) : {β : Type} → AgentWrite β → Prop
  | _, .register id p =>
      p.storable = true ∧ (first s.agents id).any (·.registrationKey.isSome) = true
  | _, _ => True

def SpendsKey (s : Store) {β : Type} : Stmt β → Prop
  | .agent w => w.SpendsKey s
  | _ => True

structure RegisterInv (s : Store) (x : Registrations) : Prop where
  held : ∀ id digest, HasKey x.state id digest → HasKey s id digest
  spent : ∀ pid id hash, (pid,(id,hash)) ∈ x.log →
    ∃ a, x.state.agents.find id = some a ∧ a.registrationKey = none
  once : (x.log.map fun e => e.2.1).Nodup

def registerRegime (env : Env) (s : Store) : Regime (registrations env) where
  Inv := RegisterInv s
  Later x y := ∀ e ∈ x.log, e ∈ y.log
  Allow _ x _ i := SpendsKey x.state i
  refl _ _ h := h
  trans _ _ _ h k e he := k e (h e he)

theorem AgentsEffect.held {s t : Store} {β : Type} {i : Stmt β} (h : AgentsEffect i s t)
    (hi : i.AddsNoAgent) {id : UUID} {digest : String} (hk : HasKey t id digest) :
    HasKey s id digest := by
  obtain ⟨a',ha',hid,hk⟩ := hk
  cases h with
  | same h => exact ⟨a',h ▸ ha',hid,hk⟩
  | insert a hn h => exact (hn hi).elim
  | update k f hf h hl =>
    rw [h] at ha'
    obtain ⟨a,ha,rfl⟩ := (Table.mem_modify hf).mp ha'
    refine ⟨a,ha,?_⟩
    split at hid
    · rename_i hp
      rw [if_pos hp] at hk
      refine ⟨(hf a).symm.trans hid,?_⟩
      rcases (hl a).registrationKey with he | he
      · exact he.symm.trans hk
      · simp [he] at hk
    · rename_i hp
      rw [if_neg hp] at hk
      exact ⟨hid,hk⟩

section Kept

variable {s : Store} {x y : Registrations} {pid : Nat}

theorem RegisterInv.quiet (hi : RegisterInv s x) {β : Type} {i : Stmt β}
    (he : AgentsEffect i x.state y.state) (hI : i.AddsNoAgent) (hlog : y.log = x.log) :
    RegisterInv s y := by
  refine ⟨?_,?_,?_⟩
  · exact fun id digest hk => hi.held id digest (he.held hI hk)
  · intro q id hash hm
    obtain ⟨a,ha,hn⟩ := hi.spent q id hash (hlog ▸ hm)
    obtain ⟨a',ha',hl⟩ := he.grows id a ha
    refine ⟨a',ha',?_⟩
    rcases hl.registrationKey with hk | hk
    · exact hk.trans hn
    · exact hk
  · rw [hlog]
    exact hi.once

theorem find_updateAgents {t : Store} {id : UUID} {f : VgAgent → VgAgent}
    {hf : ∀ a, (f a).id = a.id} {a : VgAgent} (h : first t.agents id = some a) :
    (t.updateAgents id f hf).agents.find id = some (f a) := by
  obtain ⟨hfind,hlive⟩ := first_some h
  have hid : a.id = id := first_id h
  have hmod : (t.updateAgents id f hf).agents.find id =
      (t.agents.find id).map fun a => if live a && a.id == id then f a else a :=
    Table.find_modify t.agents _ f hf id
  rw [hmod,hfind]
  simp [hlive,hid]

theorem RegisterInv.register (hi : RegisterInv s x) {id : UUID} {p : Registration}
    (hkey : (first x.state.agents id).any (·.registrationKey.isSome) = true)
    (hst : y.state = x.state.updateAgents id (p.apply x.state.clock) fun _ => rfl)
    (hlog : y.log = (pid,(id,p.tokenHash)) :: x.log) : RegisterInv s y := by
  rw [Option.any_eq_true] at hkey
  obtain ⟨a,ha,hsome⟩ := hkey
  have hheld : RegisterInv s ⟨y.state,x.log⟩ :=
    hi.quiet (i := .agent (.register id p)) (y := ⟨y.state,x.log⟩)
      (.update id (p.apply x.state.clock) (fun _ => rfl) (congrArg Store.agents hst)
        fun _ => ⟨fun h => h,.inr rfl⟩) trivial rfl
  refine ⟨hheld.held,?_,?_⟩
  · intro q k hash hm
    rw [hlog] at hm
    rcases List.mem_cons.mp hm with he | hm
    · simp only [Prod.mk.injEq] at he
      obtain ⟨-,rfl,-⟩ := he
      refine ⟨p.apply x.state.clock a,?_,rfl⟩
      rw [hst]
      exact find_updateAgents ha
    · exact hheld.spent q k hash hm
  · rw [hlog,List.map_cons,List.nodup_cons]
    refine ⟨?_,hi.once⟩
    intro hm
    obtain ⟨⟨q,k,hash⟩,he,hk⟩ := List.mem_map.mp hm
    obtain rfl : k = id := hk
    obtain ⟨b,hb,hn⟩ := hi.spent q k hash he
    obtain rfl : a = b := Option.some.inj ((first_some ha).1.symm.trans hb)
    simp [hn] at hsome

end Kept

theorem registerRegime_closed (env : Env) (s : Store) :
    (registerRegime env s).Closed Stmt.AddsNoAgent := by
  intro pid x β i y b hi hI ha hx
  obtain ⟨hex,hlog⟩ := exec_noted hx
  have hlater : ∀ e ∈ x.log, e ∈ y.log := by
    rw [hlog]
    exact fun e he => (suffix_record pid x.log _).subset he
  refine ⟨?_,hlater⟩
  cases hn : registeredAgent β i b with
  | none =>
    rw [hn] at hlog
    exact RegisterInv.quiet hi (agents_effect hex) hI hlog
  | some n =>
    cases i with
    | agent w =>
      cases w with
      | register id p =>
        rw [hn] at hlog
        obtain rfl := Option.some.inj hn
        obtain ⟨hstore,hkey⟩ := ha
        simp only [Stmt.exec,AgentWrite.exec,if_pos hstore] at hex
        obtain ⟨hst,-⟩ := Prod.mk.inj (Option.some.inj hex)
        exact RegisterInv.register hi hkey hst.symm hlog
      | _ => simp [registeredAgent] at hn
    | _ => simp [registeredAgent] at hn

structure Issued (env : Env) (s : Store) (pid draw : Nat) (req : RegisterRequest) (body : Body)
    (x : Registrations) : Prop where
  token : ∃ id token hash, body = .credential id token ∧
    vgMintAgentToken env draw = some (token,hash) ∧ (pid,(id,hash)) ∈ x.log ∧
    HasKey s id (env.sha256Hex req.registrationKey)

def RegisterPost (env : Env) (s : Store) (pid : Nat) (r : Request) (a : Answer)
    (x : Registrations) : Prop :=
  match r with
  | .vgRegister draw req => ∀ body, a = some ⟨200,body⟩ → Issued env s pid draw req body x
  | _ => True

section Requests

variable {env : Env} {s : Store} {pid : Nat} {x : Registrations}

theorem hasKey_agentByKey {t : Store} {digest : String} {a : VgAgent}
    (h : (Select.agentByKey digest).eval t = some a) : HasKey t a.id digest := by
  have hf : firstWhere t.agents (fun a => a.registrationKey == some digest) = some a := h
  have hp := List.find?_some hf
  simp only [Bool.and_eq_true,beq_iff_eq] at hp
  exact ⟨a,List.mem_of_find?_eq_some hf,rfl,hp.2⟩

theorem ensures_vgRegister (draw : Nat) (req : RegisterRequest) :
    (registerRegime env s).Ensures pid
      (fun r y => r.code = 200 → Issued env s pid draw req r.body y) (vgRegister env draw req) x := by
  have hclosed := registerRegime_closed env s
  unfold vgRegister
  split
  · exact ensures_fail (by decide)
  · refine ensures_select hclosed trivial (fun _ => rfl) fun y hy => ?_
    split
    · exact ensures_fail (by decide)
    · rename_i agent hfound
      have hkey : HasKey s agent.id (env.sha256Hex req.registrationKey) :=
        hy.1.held _ _ (hasKey_agentByKey hfound)
      split
      · exact ensures_fail (by decide)
      · refine ensures_select hclosed trivial (fun _ => rfl) fun z hz => ?_
        split
        · exact ensures_fail (by decide)
        · split
          · exact ensures_fail (by decide)
          · rename_i token hash hmint
            refine Regime.ensures_perform hclosed trivial fun _ u _ _ _ hx _ => ?_
            have hin : (pid,(agent.id,hash)) ∈ u.log := (exec_noted hx).2 ▸ List.mem_cons_self
            refine ensures_select hclosed trivial (fun _ => rfl) fun v hv => ?_
            refine Regime.ensures_perform hclosed trivial fun _ w _ _ _ _ hw => ?_
            exact fun _ => ⟨agent.id,token,hash,rfl,hmint,hw.2 _ (hv.2 _ hin),hkey⟩

theorem uses_enrollTransaction (token agentID : UUID) (req : EnrollRequest) (hash : String)
    (now : Time) : (enrollTransaction token agentID req hash now).Uses Stmt.AddsNoAgent := by
  refine Prog.uses_bind (Prog.uses_perform trivial) fun usedAt => ?_
  refine Prog.uses_bind (Prog.uses_perform trivial) fun claimed => ?_
  cases claimed with
  | false => trivial
  | true =>
    refine Prog.uses_bind (Prog.uses_perform trivial) fun found => ?_
    split
    · exact Prog.uses_bind (Prog.uses_perform trivial) fun _ => trivial
    · split
      · exact Prog.uses_bind (Prog.uses_perform trivial) fun _ => trivial
      · refine Prog.uses_bind (Prog.uses_perform trivial) fun machine => ?_
        exact Prog.uses_bind (Prog.uses_perform trivial) fun _ => trivial

theorem uses_vgEnroll (draw : Nat) (req : EnrollRequest) :
    (vgEnroll env draw req).Uses Stmt.AddsNoAgent := by
  unfold vgEnroll
  split
  · trivial
  · refine Prog.uses_bind (Prog.uses_perform trivial) fun found => ?_
    split
    · trivial
    · refine Prog.uses_bind (Prog.uses_perform trivial) fun now0 => ?_
      split
      · trivial
      · split
        · trivial
        · trivial
        · refine Prog.uses_bind (Prog.uses_perform trivial) fun now => ?_
          refine Prog.uses_bind (uses_enrollTransaction _ _ _ _ _) fun done => ?_
          cases done <;> trivial

theorem uses_rotateAgentToken (draw : Nat) (param : String) :
    (rotateAgentToken env draw param).Uses Stmt.AddsNoAgent := by
  unfold rotateAgentToken
  split
  · trivial
  · split
    · trivial
    · refine Prog.uses_bind (Prog.uses_perform trivial) fun done => ?_
      cases done <;> trivial

theorem uses_revokeAgent (actor : Actor) (param : String) :
    (revokeAgent env actor param).Uses Stmt.AddsNoAgent := by
  unfold revokeAgent
  split
  · trivial
  · refine Prog.uses_bind (Prog.uses_perform trivial) fun found => ?_
    split
    · trivial
    · split
      · trivial
      · refine Prog.uses_bind (Prog.uses_perform trivial) fun now => ?_
        exact Prog.uses_bind (Prog.uses_perform trivial) fun _ => trivial

def Request.registers : Request → Bool
  | .vgRegister _ _ | .vgEnroll _ _ | .rotateAgentToken _ _ _ | .revokeAgent _ _ => true
  | _ => false

theorem ensures_registers {r : Request} (hr : r.registers = true) (hx : RegisterInv s x) :
    (registerRegime env s).Ensures pid (RegisterPost env s pid r) (handle env r) x := by
  have hclosed := registerRegime_closed env s
  cases r with
  | vgRegister draw req => exact ensures_answered hx (ensures_vgRegister draw req)
  | vgEnroll draw req => exact ensures_unasked hclosed (uses_vgEnroll draw req)
  | rotateAgentToken actor draw param => exact ensures_unasked hclosed (uses_rotateAgentToken draw param)
  | revokeAgent actor param => exact ensures_unasked hclosed (uses_revokeAgent actor param)
  | _ => simp [Request.registers] at hr

theorem registerPost_later {r : Request} {a : Answer} {y : Registrations}
    (hl : ∀ e ∈ x.log, e ∈ y.log) (h : RegisterPost env s pid r a x) :
    RegisterPost env s pid r a y := by
  cases r with
  | vgRegister draw req =>
    intro body he
    obtain ⟨id,token,hash,hb,hm,hin,hk⟩ := h body he
    exact ⟨id,token,hash,hb,hm,hl _ hin,hk⟩
  | _ => trivial

end Requests

structure RegistersOnce (env : Env) (s : Store) (es : List (Event (system env)))
    (v : World (system env)) : Prop where
  once : ∀ p q d d' r r' body body', .start p (.vgRegister d r) ∈ es →
    .start q (.vgRegister d' r') ∈ es →
    env.sha256Hex r.registrationKey = env.sha256Hex r'.registrationKey →
    v.pool p = some (.ret (some ⟨200,body⟩)) → v.pool q = some (.ret (some ⟨200,body'⟩)) → p = q
  stored : ∀ p d r body, .start p (.vgRegister d r) ∈ es →
    v.pool p = some (.ret (some ⟨200,body⟩)) →
    ∃ id token hash, body = .credential id token ∧ vgMintAgentToken env d = some (token,hash) ∧
      ∃ (xs ys : List (Event (system env))) (u u' : World (system env)),
        es = xs ++ .act p :: ys ∧ (World.idle s).run xs = some u ∧ u.step (.act p) = some u' ∧
        (first u'.state.agents id).any (·.tokenHash == some hash) = true

def KeepsKey {env : Env} (w : World (system env)) (e : Event (system env)) : Prop :=
  Landing (S := system env) (fun _ s _ i => SpendsKey s i) w e

theorem stored_register {pid : Nat} {t u : Store} {β : Type} {i : Stmt β} {b : β} {id : UUID}
    {hash : String} (hn : registeredAgent β i b = some (id,hash)) (hk : SpendsKey t i)
    (hx : i.exec pid t = some (u,b)) :
    (first u.agents id).any (·.tokenHash == some hash) = true := by
  cases i with
  | agent w =>
    cases w with
    | register k p =>
      obtain ⟨rfl,rfl⟩ := Prod.mk.inj (Option.some.inj hn)
      obtain ⟨hstore,hheld⟩ := hk
      simp only [Stmt.exec,AgentWrite.exec,if_pos hstore] at hx
      obtain ⟨rfl,-⟩ := Prod.mk.inj (Option.some.inj hx)
      rw [Option.any_eq_true] at hheld
      obtain ⟨a,ha,-⟩ := hheld
      have hlive : live (p.apply t.clock a) = true := (first_some ha).2
      have hfind : (t.updateAgents k (p.apply t.clock) fun _ => rfl).agents.find k =
          some (p.apply t.clock a) := find_updateAgents ha
      rw [first,hfind,Option.filter_some,if_pos hlive]
      simp [Registration.apply]
    | _ => simp [registeredAgent] at hn
  | _ => simp [registeredAgent] at hn

theorem registration_single_use (env : Env) (s : Store) (es : List (Event (system env)))
    (v : World (system env)) (hkeys : KeysUnique s)
    (hes : ∀ pid r, .start pid r ∈ es → r.registers = true)
    (hc : Along KeepsKey (World.idle s) es) (hv : (World.idle s).run es = some v) :
    RegistersOnce env s es v := by
  have h0 : RegisterInv s ⟨s,[]⟩ := ⟨fun _ _ h => h,by simp,by simp⟩
  have hclock : ∀ now x y, RegisterInv s x → (registrations env).env now x = some y →
      (registerRegime env s).Kept x y := by
    intro now x y hi h
    obtain ⟨hst,hlog⟩ := clock_noted h
    refine ⟨hi.quiet (i := .select .now) (.same (by rw [hst])) trivial hlog,?_⟩
    exact fun e he => hlog ▸ he
  obtain ⟨log,hinv,hpost,hlogged⟩ := recorded (S := system env) (R := registerRegime env s)
    (Q := RegisterPost env s) h0 (fun pid r x hm hx => ensures_registers (hes pid r hm) hx)
    (fun _ _ _ _ _ => registerPost_later) hclock (fun _ _ _ _ h => h) hc hv
  refine ⟨?_,?_⟩
  · intro p q d d' r r' body body' hp hq hsame hpa hqa
    obtain ⟨id,_,hash,-,-,hin,hk⟩ := hpost p _ _ hp hpa body rfl
    obtain ⟨id',_,hash',-,-,hin',hk'⟩ := hpost q _ _ hq hqa body' rfl
    obtain rfl : id = id' := hkeys id id' _ hk (hsame ▸ hk')
    exact congrArg Prod.fst (List.inj_on_of_nodup_map hinv.once hin hin' rfl)
  · intro p d r body hp hpa
    obtain ⟨id,token,hash,hb,hmint,hin,-⟩ := hpost p _ _ hp hpa body rfl
    obtain ⟨xs,ys,u,u',β,i,k,b,rfl,hu,hpool,hstep,hx,hn⟩ := hlogged p (id,hash) hin
    have hland := (along_append hc hu).2.1
    refine ⟨id,token,hash,hb,hmint,xs,ys,u,u',rfl,hu,hstep,?_⟩
    exact stored_register hn (hland β i k hpool u'.state b hx) hx

instance agentKeyDecidable (s : Store) :
    {β : Type} → (w : AgentWrite β) → Decidable (w.SpendsKey s)
  | _, .register _ _ => inferInstanceAs (Decidable (_ = true ∧ _ = true))
  | _, .heartbeat _ _ _ | _, .rotate _ _ | _, .revoke _ _ | _, .insert _
  | _, .insertWithToken _ _ | _, .saveMachine _ _ | _, .claimToken _
  | _, .commitEnrollment _ _ _ _ _ _ | _, .rollback | _, .revokeToken _ _ => isTrue trivial

instance spendsKeyDecidable (s : Store) (β : Type) : (i : Stmt β) → Decidable (SpendsKey s i)
  | .agent w => agentKeyDecidable s w
  | .select _ | .run _ | .restore _ | .job _ | .side _ => isTrue trivial

instance keepsKeyDecidable {env : Env} (w : World (system env)) (e : Event (system env)) :
    Decidable (KeepsKey w e) :=
  @landingDecidable (system env) (fun _ s _ i => SpendsKey s i)
    (fun _ s β i => spendsKeyDecidable s β i) w e

theorem keysUnique_pending : KeysUnique pendingStore := by
  rintro id id' digest ⟨a,ha,rfl,-⟩ ⟨a',ha',rfl,-⟩
  rw [List.mem_singleton.mp ha,List.mem_singleton.mp ha']

def repeatedRegistration : List (Event (system keyEnv)) :=
  .start 1 (.vgRegister 0 registerRequest) :: List.replicate 5 (.act 1) ++
    [.start 2 (.vgRegister 1 registerRequest),.act 2]

theorem repeated_key_refused :
    ∃ v, (World.idle (S := system keyEnv) pendingStore).run repeatedRegistration = some v ∧
      [1,2].map (replyCode v) = [some 200,some 401] ∧
      RegistersOnce keyEnv pendingStore repeatedRegistration v := by
  have hrun : ((World.idle (S := system keyEnv) pendingStore).run repeatedRegistration).map
      (fun v => [1,2].map (replyCode v)) = some [some 200,some 401] := by decide
  obtain ⟨v,hv,hcodes⟩ := Option.map_eq_some_iff.mp hrun
  exact ⟨v,hv,hcodes,registration_single_use keyEnv pendingStore repeatedRegistration v
    keysUnique_pending (allStarts_mem (by decide)) (by decide) hv⟩

def racingRegistrations : List (Event (system keyEnv)) :=
  [.start 1 (.vgRegister 0 registerRequest),.start 2 (.vgRegister 1 registerRequest)] ++
  List.replicate 2 (.act 1) ++ List.replicate 5 (.act 2) ++ List.replicate 3 (.act 1)

def refusedRequest : RegisterRequest := { registerRequest with hostname := "db\x00" }

def refusedRegistrations : List (Event (system keyEnv)) :=
  .start 1 (.vgRegister 0 refusedRequest) :: List.replicate 5 (.act 1) ++
    .start 2 (.vgRegister 1 refusedRequest) :: List.replicate 5 (.act 2)

theorem not_registersOnce {es : List (Event (system keyEnv))} {v : World (system keyEnv)}
    {r r' : RegisterRequest} (hr : .start 1 (.vgRegister 0 r) ∈ es)
    (hr' : .start 2 (.vgRegister 1 r') ∈ es) (hkey : r.registrationKey = r'.registrationKey)
    (hreplies : [1,2].map (replyOf v) =
      [some ⟨200,.credential 3 "aa00"⟩,some ⟨200,.credential 3 "bb11"⟩]) :
    ¬ RegistersOnce keyEnv pendingStore es v := by
  intro h
  simp only [List.map_cons,List.map_nil,List.cons.injEq,and_true] at hreplies
  have hone := h.once 1 2 0 1 r r' _ _ hr hr' (congrArg keyEnv.sha256Hex hkey)
    (replyOf_eq hreplies.1) (replyOf_eq hreplies.2)
  exact absurd hone (by decide)

theorem racing_registrations_both_succeed :
    KeysUnique pendingStore ∧
    (∃ v, (World.idle (S := system keyEnv) pendingStore).run racingRegistrations = some v ∧
      ¬ RegistersOnce keyEnv pendingStore racingRegistrations v) ∧
    ∃ v, (World.idle (S := system keyEnv) pendingStore).run refusedRegistrations = some v ∧
      ¬ RegistersOnce keyEnv pendingStore refusedRegistrations v := by
  have hrun : ((World.idle (S := system keyEnv) pendingStore).run racingRegistrations).map
      (fun v => [1,2].map (replyOf v)) =
      some [some ⟨200,.credential 3 "aa00"⟩,some ⟨200,.credential 3 "bb11"⟩] := by decide
  have hrefused : ((World.idle (S := system keyEnv) pendingStore).run refusedRegistrations).map
      (fun v => [1,2].map (replyOf v)) =
      some [some ⟨200,.credential 3 "aa00"⟩,some ⟨200,.credential 3 "bb11"⟩] := by decide
  obtain ⟨v,hv,hreplies⟩ := Option.map_eq_some_iff.mp hrun
  obtain ⟨u,hu,hreplies'⟩ := Option.map_eq_some_iff.mp hrefused
  refine ⟨keysUnique_pending,⟨v,hv,?_⟩,u,hu,?_⟩
  · exact not_registersOnce
      (by simp [racingRegistrations] : .start 1 (.vgRegister 0 registerRequest) ∈ racingRegistrations)
      (by simp [racingRegistrations] : .start 2 (.vgRegister 1 registerRequest) ∈ racingRegistrations)
      rfl hreplies
  · exact not_registersOnce
      (by simp [refusedRegistrations] : .start 1 (.vgRegister 0 refusedRequest) ∈ refusedRegistrations)
      (by simp [refusedRegistrations] : .start 2 (.vgRegister 1 refusedRequest) ∈ refusedRegistrations)
      rfl hreplies'

end VgBackup
