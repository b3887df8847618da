import ServerHub.VgBackup.Contracts
import ServerHub.VgBackup.Revocation

namespace VgBackup

open Relational Interleave

def enrolledToken : (β : Type) → Stmt β → β → Option UUID
  | _, .agent (.commitEnrollment token _ _ _ _ _), true => some token
  | _, _, _ => none

abbrev Enrollments := Traced Store UUID

def enrollments (env : Env) : System := (system env).watch enrolledToken

structure TokensSound (s : Store) : Prop where
  exclusive : ∀ t ∈ s.tokens.rows, ¬ (t.usedAt.isSome = true ∧ t.revokedAt.isSome = true)
  hashes : ∀ t ∈ s.tokens.rows, ∀ t' ∈ s.tokens.rows, t.tokenHash = t'.tokenHash → t.id = t'.id

structure EnrollInv (x : Enrollments) : Prop where
  sound : TokensSound x.state
  locked : ∀ id pid, x.state.tokenLock id = some pid → x.state.openToken id = true
  used : ∀ pid id, (pid,id) ∈ x.log → ∃ t, x.state.tokens.find id = some t ∧ t.usedAt.isSome = true
  once : (x.log.map Prod.snd).Nodup

structure VgEnrollmentToken.Later (t t' : VgEnrollmentToken) : Prop where
  tokenHash : t'.tokenHash = t.tokenHash
  used : t.usedAt.isSome = true → t'.usedAt.isSome = true
  revoked : t.revokedAt.isSome = true → t'.revokedAt.isSome = true

theorem VgEnrollmentToken.Later.refl (t : VgEnrollmentToken) : t.Later t := ⟨rfl,id,id⟩

theorem VgEnrollmentToken.Later.trans {t u v : VgEnrollmentToken} (h : t.Later u) (k : u.Later v) :
    t.Later v :=
  ⟨k.tokenHash.trans h.tokenHash,k.used ∘ h.used,k.revoked ∘ h.revoked⟩

structure EnrollLater (x y : Enrollments) : Prop where
  log : ∀ e ∈ x.log, e ∈ y.log
  tokens : Grows VgEnrollmentToken.Later x.state.tokens y.state.tokens

def enrollRegime (env : Env) : Regime (enrollments env) where
  Inv := EnrollInv
  Later := EnrollLater
  Allow _ _ _ _ := True
  refl _ := ⟨fun _ h => h,.refl .refl _⟩
  trans _ _ _ h k := ⟨fun e he => k.log e (h.log e he),h.tokens.trans (fun _ _ _ => .trans) k.tokens⟩

section Tokens

variable {s : Store} {id : UUID} {f : VgEnrollmentToken → VgEnrollmentToken}
  {hf : ∀ t, (f t).id = t.id}

theorem openToken_find : s.openToken id = true ↔ ∃ t, s.tokens.find id = some t ∧ t.unspent = true := by
  simp only [Store.openToken,Option.any_eq_true]

theorem unspent_fields {t : VgEnrollmentToken} (h : t.unspent = true) :
    t.usedAt = none ∧ t.revokedAt = none := by
  simp only [VgEnrollmentToken.unspent,Bool.and_eq_true,Option.isNone_iff_eq_none] at h
  exact ⟨h.1.2,h.2⟩

theorem find_updateTokens (k : UUID) : (s.updateTokens id f hf).tokens.find k =
    (s.tokens.find k).map fun t => if t.unspent && t.id == id then f t else t :=
  Table.find_modify s.tokens _ f hf k

theorem find_updateTokens_ne {k : UUID} (h : k ≠ id) :
    (s.updateTokens id f hf).tokens.find k = s.tokens.find k := by
  rw [find_updateTokens]
  cases hk : s.tokens.find k with
  | none => rfl
  | some t =>
    have hid : t.id = k := (Table.find_some hk).2
    simp [hid,h]

theorem find_updateTokens_open {t : VgEnrollmentToken} (h : s.tokens.find id = some t)
    (ht : t.unspent = true) : (s.updateTokens id f hf).tokens.find id = some (f t) := by
  have hid : t.id = id := (Table.find_some h).2
  rw [find_updateTokens,h]
  simp [ht,hid]

theorem grows_updateTokens (h : ∀ t : VgEnrollmentToken, t.unspent = true → t.Later (f t)) :
    Grows VgEnrollmentToken.Later s.tokens (s.updateTokens id f hf).tokens := by
  have hm : ∀ t ∈ s.tokens.rows, (t.unspent && t.id == id) = true → t.Later (f t) := by
    intro t _ hp
    rw [Bool.and_eq_true] at hp
    exact h t hp.1
  exact (grows_modify .refl hm : Grows _ s.tokens (s.tokens.modify _ f hf))

theorem tokensSound_update (hs : TokensSound s)
    (hh : ∀ t : VgEnrollmentToken, t.unspent = true → t.Later (f t))
    (hx : ∀ t : VgEnrollmentToken, t.unspent = true →
      ¬ ((f t).usedAt.isSome = true ∧ (f t).revokedAt.isSome = true)) :
    TokensSound (s.updateTokens id f hf) := by
  have row : ∀ t' ∈ (s.updateTokens id f hf).tokens.rows, ∃ t ∈ s.tokens.rows,
      t'.id = t.id ∧ t'.tokenHash = t.tokenHash ∧
        (t' = t ∨ t.unspent = true ∧ t' = f t) := by
    intro t' ht'
    obtain ⟨t,ht,rfl⟩ := (Table.mem_modify hf).mp ht'
    refine ⟨t,ht,?_⟩
    split
    · rename_i hp
      rw [Bool.and_eq_true] at hp
      exact ⟨hf t,(hh t hp.1).tokenHash,.inr ⟨hp.1,rfl⟩⟩
    · exact ⟨rfl,rfl,.inl rfl⟩
  constructor
  · intro t' ht'
    obtain ⟨t,ht,-,-,rfl | ⟨hu,rfl⟩⟩ := row t' ht'
    · exact hs.exclusive _ ht
    · exact hx t hu
  · intro a ha b hb hab
    obtain ⟨t,ht,hid,hhash,-⟩ := row a ha
    obtain ⟨u,hu,hid',hhash',-⟩ := row b hb
    rw [hid,hid']
    exact hs.hashes t ht u hu (by rw [← hhash,hab,hhash'])

end Tokens

section Kept

variable {x y : Enrollments} {id : UUID}

theorem EnrollInv.frame (hi : EnrollInv x) (ht : y.state.tokens = x.state.tokens)
    (hl : ∀ id q, y.state.tokenLock id = some q → x.state.tokenLock id = some q)
    (hlog : y.log = x.log) : EnrollInv y ∧ EnrollLater x y := by
  have hopen : ∀ id, y.state.openToken id = x.state.openToken id := by
    intro id
    simp only [Store.openToken,ht]
  refine ⟨⟨⟨?_,?_⟩,?_,?_,?_⟩,⟨?_,?_⟩⟩
  · exact fun t h => hi.sound.exclusive t (ht ▸ h)
  · exact fun t h t' h' => hi.sound.hashes t (ht ▸ h) t' (ht ▸ h')
  · exact fun id q h => (hopen id).trans (hi.locked id q (hl id q h))
  · intro q id h
    rw [ht]
    exact hi.used q id (hlog ▸ h)
  · rw [hlog]
    exact hi.once
  · exact fun e h => hlog ▸ h
  · rw [ht]
    exact .refl .refl _

theorem EnrollInv.unlogged (hi : EnrollInv x) (ho : x.state.openToken id = true) (q : Nat) :
    (q,id) ∉ x.log := by
  intro hm
  obtain ⟨t,ht,hu⟩ := hi.used q id hm
  obtain ⟨t',ht',hun⟩ := openToken_find.mp ho
  obtain rfl : t = t' := Option.some.inj (ht.symm.trans ht')
  simp [(unspent_fields hun).1] at hu

theorem EnrollInv.claim (hi : EnrollInv x) {pid : Nat} (ho : x.state.openToken id = true) :
    EnrollInv ⟨{ x.state with tokenLock := Function.update x.state.tokenLock id (some pid) },x.log⟩ := by
  refine ⟨⟨hi.sound.exclusive,hi.sound.hashes⟩,?_,hi.used,hi.once⟩
  intro k q hk
  by_cases e : k = id
  · subst e
    exact ho
  · simp only [Function.update_of_ne e] at hk
    exact hi.locked k q hk

theorem EnrollInv.update (hi : EnrollInv x) {f : VgEnrollmentToken → VgEnrollmentToken}
    {hf : ∀ t, (f t).id = t.id}
    (hh : ∀ t : VgEnrollmentToken, t.unspent = true → t.Later (f t))
    (hx : ∀ t : VgEnrollmentToken, t.unspent = true →
      ¬ ((f t).usedAt.isSome = true ∧ (f t).revokedAt.isSome = true))
    (hst : y.state.tokens = (x.state.updateTokens id f hf).tokens)
    (hl : ∀ k q, y.state.tokenLock k = some q → k ≠ id ∧ x.state.tokenLock k = some q)
    (hlog : ∀ e ∈ x.log, e ∈ y.log) (honce : (y.log.map Prod.snd).Nodup)
    (hnew : ∀ q k, (q,k) ∈ y.log → (q,k) ∈ x.log ∨
      ∃ t, y.state.tokens.find k = some t ∧ t.usedAt.isSome = true) :
    EnrollInv y ∧ EnrollLater x y := by
  have hgrow : Grows VgEnrollmentToken.Later x.state.tokens y.state.tokens :=
    hst ▸ grows_updateTokens hh
  have hs : TokensSound (x.state.updateTokens id f hf) := tokensSound_update hi.sound hh hx
  refine ⟨⟨⟨?_,?_⟩,?_,?_,honce⟩,hlog,hgrow⟩
  · exact fun t h => hs.exclusive t (hst ▸ h)
  · exact fun t h t' h' => hs.hashes t (hst ▸ h) t' (hst ▸ h')
  · intro k q hk
    obtain ⟨hne,hold⟩ := hl k q hk
    have ho := hi.locked k q hold
    simpa only [Store.openToken,hst,find_updateTokens_ne hne] using ho
  · intro q k hk
    rcases hnew q k hk with hold | hnew
    · obtain ⟨t,ht,hu⟩ := hi.used q k hold
      obtain ⟨t',ht',hlater⟩ := hgrow k t ht
      exact ⟨t',ht',hlater.used hu⟩
    · exact hnew

theorem EnrollInv.addToken (hi : EnrollInv x) (a : VgAgent) {t : VgEnrollmentToken}
    (hused : t.usedAt = none)
    (hfree : (x.state.tokens.rows.any fun r => r.tokenHash == t.tokenHash) = false) :
    EnrollInv ⟨(x.state.addAgent a).addToken t,x.log⟩ ∧
      EnrollLater x ⟨(x.state.addAgent a).addToken t,x.log⟩ := by
  have hgrow : Grows VgEnrollmentToken.Later x.state.tokens
      ((x.state.addAgent a).addToken t).tokens := grows_insert .refl _ _
  have row : ∀ r ∈ ((x.state.addAgent a).addToken t).tokens.rows, r ∈ x.state.tokens.rows ∨
      r.usedAt = none ∧ r.tokenHash = t.tokenHash ∧ r.id = (x.state.addAgent a).nextID := by
    intro r hr
    rcases Table.mem_insert hr with hr | rfl
    · exact .inl hr
    · exact .inr ⟨hused,rfl,rfl⟩
  have taken : ∀ r ∈ x.state.tokens.rows, r.tokenHash ≠ t.tokenHash := by
    intro r hr he
    have hany := List.any_eq_false.mp hfree r hr
    simp [he] at hany
  refine ⟨⟨⟨?_,?_⟩,?_,?_,hi.once⟩,fun _ h => h,hgrow⟩
  · intro r hr
    rcases row r hr with hr | ⟨hu,-,-⟩
    · exact hi.sound.exclusive r hr
    · simp [hu]
  · intro r hr r' hr' he
    rcases row r hr with h | ⟨-,hh,hid⟩
    · rcases row r' hr' with h' | ⟨-,hh',hid'⟩
      · exact hi.sound.hashes r h r' h' he
      · exact (taken r h (he.trans hh')).elim
    · rcases row r' hr' with h' | ⟨-,hh',hid'⟩
      · exact (taken r' h' (he.symm.trans hh)).elim
      · rw [hid,hid']
  · intro id q hq
    obtain ⟨t',ht',hun⟩ := openToken_find.mp (hi.locked id q hq)
    exact openToken_find.mpr ⟨t',Table.find_insert_of_some ht',hun⟩
  · intro q id hq
    obtain ⟨t',ht',hu⟩ := hi.used q id hq
    exact ⟨t',Table.find_insert_of_some ht',hu⟩

end Kept

def Stmt.MintsUnused : {β : Type} → Stmt β → Prop
  | _, .agent (.insertWithToken _ t) => t.usedAt = none
  | _, _ => True

theorem enroll_tokens (s : Store) (token : UUID) (usedAt : Time) (agent : UUID) (p : Installation)
    (found : Option UUID) (m : MachineFacts) :
    (s.enroll token usedAt agent p found m).tokens = (s.updateTokens token
      (fun t => { t with updatedAt := s.clock, usedAt := some usedAt }) fun _ => rfl).tokens ∧
    (s.enroll token usedAt agent p found m).tokenLock = s.tokenLock := by
  cases found <;> exact ⟨rfl,rfl⟩

theorem EnrollInv.commit {x : Enrollments} (hi : EnrollInv x) {pid : Nat} {token : UUID}
    (hl : x.state.tokenLock token = some pid) (usedAt : Time) (agent : UUID) (p : Installation)
    (found : Option UUID) (m : MachineFacts) :
    EnrollInv ⟨(x.state.enroll token usedAt agent p found m).releaseTokens pid,
      (pid,token) :: x.log⟩ ∧
    EnrollLater x ⟨(x.state.enroll token usedAt agent p found m).releaseTokens pid,
      (pid,token) :: x.log⟩ := by
  obtain ⟨htok,hlock⟩ := enroll_tokens x.state token usedAt agent p found m
  have ho : x.state.openToken token = true := hi.locked token pid hl
  refine hi.update ?_ ?_ htok ?_ ?_ ?_ ?_
  · exact fun t _ => ⟨rfl,fun _ => rfl,fun h => h⟩
  · intro t ht hboth
    simp [(unspent_fields ht).2] at hboth
  · intro k q hk
    simp only [Store.releaseTokens,hlock,Option.filter_eq_some_iff,bne_iff_ne,ne_eq] at hk
    refine ⟨?_,hk.1⟩
    rintro rfl
    exact hk.2 (Option.some.inj (hk.1.symm.trans hl))
  · exact fun e he => List.mem_cons_of_mem _ he
  · simp only [List.map_cons,List.nodup_cons]
    refine ⟨?_,hi.once⟩
    intro hm
    obtain ⟨⟨q,k⟩,he,hk⟩ := List.mem_map.mp hm
    obtain rfl : k = token := hk
    exact hi.unlogged ho q he
  · intro q k hk
    rcases List.mem_cons.mp hk with he | he
    · obtain ⟨rfl,rfl⟩ := Prod.mk.inj he
      obtain ⟨t,ht,hun⟩ := openToken_find.mp ho
      refine .inr ⟨_,htok ▸ find_updateTokens_open ht hun,rfl⟩
    · exact .inl he

theorem EnrollInv.revoke {x : Enrollments} (hi : EnrollInv x) {id : UUID}
    (hl : x.state.tokenLock id = none) (now : Time) {y : Enrollments}
    (hy : y.state = x.state.updateTokens id (fun t => { t with
      updatedAt := x.state.clock, revokedAt := some now }) fun _ => rfl) (hlog : y.log = x.log) :
    EnrollInv y ∧ EnrollLater x y := by
  refine hi.update ?_ ?_ (congrArg Store.tokens hy) ?_ ?_ ?_ ?_
  · exact fun t _ => ⟨rfl,fun h => h,fun _ => rfl⟩
  · intro t ht hboth
    simp [(unspent_fields ht).1] at hboth
  · intro k q hk
    rw [hy] at hk
    refine ⟨?_,hk⟩
    rintro rfl
    have hk' : x.state.tokenLock k = some q := hk
    simp [hl] at hk'
  · exact fun e he => hlog ▸ he
  · rw [hlog]
    exact hi.once
  · exact fun q k hk => .inl (hlog ▸ hk)

theorem EnrollInv.released {x : Enrollments} (hi : EnrollInv x) {pid : Nat}
    {log : List (Nat × UUID)} (hlog : log = x.log) :
    EnrollInv ⟨x.state.releaseTokens pid,log⟩ ∧ EnrollLater x ⟨x.state.releaseTokens pid,log⟩ := by
  refine hi.frame rfl ?_ hlog
  intro id q hq
  exact (Option.filter_eq_some_iff.mp hq).1

theorem enrollInv_agent {pid : Nat} {x y : Enrollments} {β : Type} {w : AgentWrite β} {b : β}
    (hi : EnrollInv x) (hI : (Stmt.agent w).MintsUnused)
    (hx : w.exec pid x.state = some (y.state,b))
    (hlog : y.log = record pid x.log (enrolledToken β (.agent w) b)) :
    EnrollInv y ∧ EnrollLater x y := by
  obtain ⟨t,log⟩ := y
  simp only at hx hlog
  cases agent_effect hx with
  | saveMachine found m => exact hi.frame (by cases found <;> rfl) (by cases found <;> simp [Store.saveMachine]) hlog
  | insertWithToken a t hk =>
    subst hlog
    exact hi.addToken a hI hk
  | claimToken id ho hl =>
    subst hlog
    exact ⟨hi.claim ho,fun _ h => h,.refl .refl _⟩
  | commitEnrollment token usedAt agent p found m hl =>
    subst hlog
    exact hi.commit hl usedAt agent p found m
  | commitRefused token usedAt agent p found m => exact hi.released hlog
  | rollback => exact hi.released hlog
  | revokeToken id now ho hl => exact hi.revoke hl now rfl hlog
  | _ => exact hi.frame rfl (fun _ _ h => h) hlog

theorem lockless_tokens {pid : Nat} {s t : Store} {β : Type} {i : Stmt β} {b : β}
    (hi : i.Lockless) (h : i.exec pid s = some (t,b)) :
    t.tokens = s.tokens ∧ t.tokenLock = s.tokenLock ∧ t.machines = s.machines := by
  cases stmt_effect h with
  | select q => exact ⟨rfl,rfl,rfl⟩
  | run hr hx =>
    obtain ⟨_,_,_,rfl⟩ := runsOnly_exec hx
    exact ⟨rfl,rfl,rfl⟩
  | restore w =>
    obtain ⟨_,_,hw⟩ := restoresOnly_exec s w
    rw [hw]
    exact ⟨rfl,rfl,rfl⟩
  | job w =>
    obtain ⟨_,_,_,_,_,hw⟩ := jobsOnly_exec s w
    rw [hw]
    exact ⟨rfl,rfl,rfl⟩
  | side w =>
    obtain ⟨_,_,_,_,_,_,hw⟩ := sideOnly_exec s w
    rw [hw]
    exact ⟨rfl,rfl,rfl⟩
  | agent hx => exact hi.elim

theorem enrollRegime_closed (env : Env) : (enrollRegime env).Closed Stmt.MintsUnused := by
  intro pid x β i y b hi hI _ hx
  obtain ⟨hex,hlog⟩ := exec_noted hx
  have quiet : i.Lockless → y.log = x.log → (enrollRegime env).Kept x y := by
    intro hl hsame
    obtain ⟨ht,hlock,-⟩ := lockless_tokens hl hex
    exact EnrollInv.frame hi ht (fun id q h => by rwa [hlock] at h) hsame
  cases i with
  | agent w => exact enrollInv_agent hi hI hex hlog
  | _ => exact quiet trivial hlog

def Holds (digest : String) (id : UUID) (x : Enrollments) : Prop :=
  ∃ t, x.state.tokens.find id = some t ∧ t.tokenHash = digest

theorem Holds.later {digest : String} {id : UUID} {x y : Enrollments} (h : Holds digest id x)
    (hl : EnrollLater x y) : Holds digest id y := by
  obtain ⟨t,ht,hd⟩ := h
  obtain ⟨t',ht',hk⟩ := hl.tokens id t ht
  exact ⟨t',ht',hk.tokenHash.trans hd⟩

def Enrolled (digest : String) (pid : Nat) (x : Enrollments) : Prop :=
  ∃ id, (pid,id) ∈ x.log ∧ Holds digest id x

def Withdrawn (id : Option UUID) (x : Enrollments) : Prop :=
  ∃ k t, id = some k ∧ x.state.tokens.find k = some t ∧ t.revokedAt.isSome = true

section Requests

variable {env : Env} {pid : Nat} {x : Enrollments}

theorem ensures_enrollTransaction {digest : String} {token agentID : UUID} {req : EnrollRequest}
    {hash : String} {now : Time} (hd : Holds digest token x) :
    (enrollRegime env).Ensures pid (fun done y => done = true → Enrolled digest pid y)
      (enrollTransaction token agentID req hash now) x := by
  have hclosed := enrollRegime_closed env
  refine ensures_select hclosed trivial (fun _ => rfl) fun y hy => ?_
  refine Regime.ensures_perform hclosed trivial fun _ z claimed _ _ _ hz => ?_
  cases claimed with
  | false => exact fun h => absurd h Bool.false_ne_true
  | true =>
    refine ensures_select hclosed trivial (fun _ => rfl) fun u hu => ?_
    split
    · refine Regime.ensures_perform hclosed trivial fun _ _ _ _ _ _ _ => ?_
      exact fun h => absurd h Bool.false_ne_true
    · split
      · refine Regime.ensures_perform hclosed trivial fun _ _ _ _ _ _ _ => ?_
        exact fun h => absurd h Bool.false_ne_true
      · refine ensures_select hclosed trivial (fun _ => rfl) fun u' hu' => ?_
        refine Regime.ensures_perform hclosed trivial fun a c done _ _ hx hc => ?_
        rintro rfl
        obtain ⟨-,hlog⟩ := exec_noted hx
        have hin : (pid,token) ∈ c.log := hlog ▸ List.mem_cons_self
        exact ⟨token,hin,((((hd.later hy.2).later hz.2).later hu.2).later hu'.2).later hc.2⟩

theorem holds_tokenByHash {digest : String} {tok : VgEnrollmentToken}
    (h : (Select.tokenByHash digest).eval x.state = some tok) : Holds digest tok.id x := by
  have hf : firstWhere x.state.tokens (fun t => t.tokenHash == digest && t.revokedAt.isNone) =
      some tok := h
  have hp := List.find?_some hf
  simp only [Bool.and_eq_true,beq_iff_eq] at hp
  exact ⟨tok,Table.find_of_mem (List.mem_of_find?_eq_some hf),hp.2.1⟩

theorem ensures_vgEnroll (draw : Nat) (req : EnrollRequest) :
    (enrollRegime env).Ensures pid
      (fun r y => r.code = 200 → Enrolled (env.sha256Hex (Go.trimSpace req.enrollmentToken)) pid y)
      (vgEnroll env draw req) x := by
  have hclosed := enrollRegime_closed env
  unfold vgEnroll
  split
  · exact ensures_fail (by decide)
  · refine ensures_select hclosed trivial (fun _ => rfl) fun y hy => ?_
    split
    · exact ensures_fail (by decide)
    · rename_i tok htok
      refine ensures_select hclosed trivial (fun _ => rfl) fun z hz => ?_
      split
      · exact ensures_fail (by decide)
      · split
        · exact ensures_fail (by decide)
        · exact ensures_fail (by decide)
        · refine ensures_select hclosed trivial (fun _ => rfl) fun u hu => ?_
          have hd := ((holds_tokenByHash htok).later hz.2).later hu.2
          refine Regime.ensures_bind hu.1 (ensures_enrollTransaction hd) ?_
          intro done v _ hdone
          cases done with
          | true => exact fun _ => hdone rfl
          | false => exact ensures_fail (by decide)

theorem withdrawn_revokeToken {id : UUID} {now : Time} {y z : Enrollments}
    (h : (Stmt.agent (.revokeToken id now)).exec pid y.state = some (z.state,true)) :
    Withdrawn (some id) z := by
  simp only [Stmt.exec,AgentWrite.exec] at h
  split at h
  · rename_i ho
    split at h
    · simp at h
    · obtain ⟨hst,-⟩ := Prod.mk.inj (Option.some.inj h)
      obtain ⟨t,ht,hun⟩ := openToken_find.mp ho
      exact ⟨id,_,rfl,hst ▸ find_updateTokens_open ht hun,rfl⟩
  · simp at h

theorem ensures_revokeEnrollmentToken (actor : Actor) (param : String) :
    (enrollRegime env).Ensures pid (fun r y => r.code = 204 → Withdrawn (env.parseUUID param) y)
      (revokeEnrollmentToken env actor param) x := by
  have hclosed := enrollRegime_closed env
  unfold revokeEnrollmentToken
  split
  · exact ensures_fail (by decide)
  · rename_i id hid
    refine ensures_select hclosed trivial (fun _ => rfl) fun y hy => ?_
    split
    · exact ensures_fail (by decide)
    · split
      · exact ensures_fail (by decide)
      · refine ensures_select hclosed trivial (fun _ => rfl) fun z hz => ?_
        refine Regime.ensures_perform hclosed trivial fun u v done _ _ hx hv => ?_
        cases done with
        | true =>
          intro _
          rw [hid]
          exact withdrawn_revokeToken (exec_noted hx).1
        | false => exact ensures_fail (by decide)

theorem uses_generateEnrollmentToken (actor : Actor) (draw : Nat) (req : EnrollmentTokenRequest) :
    (generateEnrollmentToken env actor draw req).Uses Stmt.MintsUnused := by
  unfold generateEnrollmentToken
  split
  · trivial
  · refine Prog.uses_bind (Prog.uses_perform trivial) fun now => ?_
    refine Prog.uses_bind (Prog.uses_perform rfl) fun out => ?_
    split <;> trivial

end Requests

def Stmt.Tentative : {β : Type} → Stmt β → Prop
  | _, .select _ | _, .agent (.claimToken _) | _, .agent .rollback => True
  | _, _ => False

structure RowsUntouched (s t : Store) : Prop where
  agents : t.agents = s.agents
  machines : t.machines = s.machines
  tokens : t.tokens = s.tokens

theorem tentative_untouched {pid : Nat} {s t : Store} {β : Type} {i : Stmt β} {b : β}
    (hi : i.Tentative) (h : i.exec pid s = some (t,b)) : RowsUntouched s t := by
  cases stmt_effect h with
  | select q => exact ⟨rfl,rfl,rfl⟩
  | agent hx =>
    cases agent_effect hx with
    | claimToken id ho hl => exact ⟨rfl,rfl,rfl⟩
    | claimLost id ho => exact ⟨rfl,rfl,rfl⟩
    | rollback => exact ⟨rfl,rfl,rfl⟩
    | _ => exact hi.elim
  | _ => exact hi.elim

section Sparing

variable {α γ : Type} {good : α → Prop} {better : γ → Prop} {f : α → Handler γ}

def Sparing (good : α → Prop) : Handler α → Prop
  | .ret _ => True
  | .step i k => (∀ pid s t b, i.exec pid s = some (t,b) →
      RowsUntouched s t ∨ ∃ a, k b = .ret a ∧ good a) ∧ ∀ b, Sparing good (k b)

theorem sparing_bind {p : Handler α} (hp : Sparing good p)
    (hgood : ∀ a, good a → ∃ c, f a = .ret c ∧ better c) (hf : ∀ a, Sparing better (f a)) :
    Sparing better (p >>= f) := by
  induction p with
  | ret a => exact hf a
  | step i k ih =>
    refine ⟨?_,fun b => ih b (hp.2 b)⟩
    intro pid s t b hx
    rcases hp.1 pid s t b hx with ht | ⟨a,ha,hg⟩
    · exact .inl ht
    · refine .inr ?_
      obtain ⟨c,hc,hb⟩ := hgood a hg
      refine ⟨c,?_,hb⟩
      rw [← hc]
      simp only [ha]
      rfl

theorem sparing_tentative {i : Stmt α} (hi : i.Tentative) (h : ∀ a, Sparing better (f a)) :
    Sparing better (.perform i >>= f) :=
  ⟨fun _ _ _ _ hx => .inl (tentative_untouched hi hx),h⟩

end Sparing

theorem sparing_enrollTransaction (token agentID : UUID) (req : EnrollRequest) (hash : String)
    (now : Time) : Sparing (· = true) (enrollTransaction token agentID req hash now) := by
  refine sparing_tentative trivial fun usedAt => sparing_tentative trivial fun claimed => ?_
  cases claimed with
  | false => trivial
  | true =>
    refine sparing_tentative trivial fun found => ?_
    split
    · exact sparing_tentative trivial fun _ => trivial
    · split
      · exact sparing_tentative trivial fun _ => trivial
      · refine sparing_tentative trivial fun machine => ⟨?_,fun _ => trivial⟩
        intro pid s t done hx
        simp only [Stmt.exec,AgentWrite.exec] at hx
        split at hx
        · split at hx
          · obtain ⟨-,rfl⟩ := Prod.mk.inj (Option.some.inj hx)
            exact .inr ⟨true,rfl,rfl⟩
          · obtain ⟨rfl,-⟩ := Prod.mk.inj (Option.some.inj hx)
            exact .inl ⟨rfl,rfl,rfl⟩
        · simp at hx

def Accepted (a : Answer) : Prop := ∃ body, a = some ⟨200,body⟩

theorem sparing_vgEnroll (env : Env) (draw : Nat) (req : EnrollRequest) :
    Sparing (fun r => r.code = 200) (vgEnroll env draw req) := by
  unfold vgEnroll
  split
  · trivial
  · refine sparing_tentative trivial fun found => ?_
    split
    · trivial
    · refine sparing_tentative trivial fun now0 => ?_
      split
      · trivial
      · split
        · trivial
        · trivial
        · refine sparing_tentative trivial fun now => ?_
          refine sparing_bind (sparing_enrollTransaction _ _ _ _ _) ?_ ?_
          · rintro done rfl
            exact ⟨_,rfl,rfl⟩
          · intro done
            cases done <;> trivial

theorem sparing_handle (env : Env) (draw : Nat) (req : EnrollRequest) :
    Sparing Accepted (handle env (.vgEnroll draw req)) := by
  refine sparing_bind (sparing_vgEnroll env draw req) ?_ fun _ => trivial
  intro r hr
  obtain ⟨code,body⟩ := r
  obtain rfl : code = 200 := hr
  exact ⟨_,rfl,body,rfl⟩

def Request.enrolls : Request → Bool
  | .vgEnroll _ _ | .revokeEnrollmentToken _ _ | .generateEnrollmentToken _ _ _ => true
  | _ => false

def enrollDigest (env : Env) (req : EnrollRequest) : String :=
  env.sha256Hex (Go.trimSpace req.enrollmentToken)

def EnrollPost (env : Env) (pid : Nat) (r : Request) (a : Answer) (x : Enrollments) : Prop :=
  match r with
  | .vgEnroll _ req => ∀ body, a = some ⟨200,body⟩ → Enrolled (enrollDigest env req) pid x
  | .revokeEnrollmentToken _ param =>
      ∀ body, a = some ⟨204,body⟩ → Withdrawn (env.parseUUID param) x
  | _ => True

section Runs

variable {env : Env} {pid : Nat} {x : Enrollments}

theorem ensures_enrolls {r : Request} (hr : r.enrolls = true) (hx : EnrollInv x) :
    (enrollRegime env).Ensures pid (EnrollPost env pid r) (handle env r) x := by
  cases r with
  | vgEnroll draw req => exact ensures_answered hx (ensures_vgEnroll draw req)
  | revokeEnrollmentToken actor param =>
    exact ensures_answered hx (ensures_revokeEnrollmentToken actor param)
  | generateEnrollmentToken actor draw req =>
    exact ensures_unasked (enrollRegime_closed env) (uses_generateEnrollmentToken actor draw req)
  | _ => simp [Request.enrolls] at hr

theorem enrollPost_later {r : Request} {a : Answer} {y : Enrollments} (hl : EnrollLater x y)
    (h : EnrollPost env pid r a x) : EnrollPost env pid r a y := by
  cases r with
  | vgEnroll draw req =>
    intro body he
    obtain ⟨id,hin,hd⟩ := h body he
    exact ⟨id,hl.log _ hin,hd.later hl⟩
  | revokeEnrollmentToken actor param =>
    intro body he
    obtain ⟨id,t,hid,ht,hr⟩ := h body he
    obtain ⟨t',ht',hlater⟩ := hl.tokens id t ht
    exact ⟨id,t',hid,ht',hlater.revoked hr⟩
  | _ => trivial

end Runs

structure SingleUse (env : Env) (s : Store) (es : List (Event (system env)))
    (v : World (system env)) : Prop where
  once : ∀ p q d d' r r' body body', .start p (.vgEnroll d r) ∈ es →
    .start q (.vgEnroll d' r') ∈ es → enrollDigest env r = enrollDigest env r' →
    v.pool p = some (.ret (some ⟨200,body⟩)) → v.pool q = some (.ret (some ⟨200,body'⟩)) → p = q
  exclusive : ∀ t ∈ v.state.tokens.rows, ¬ (t.usedAt.isSome = true ∧ t.revokedAt.isSome = true)
  revocable : ∀ p q d r actor param id t body body', .start p (.vgEnroll d r) ∈ es →
    .start q (.revokeEnrollmentToken actor param) ∈ es → env.parseUUID param = some id →
    v.state.tokens.find id = some t → t.tokenHash = enrollDigest env r →
    v.pool q = some (.ret (some ⟨204,body⟩)) → v.pool p ≠ some (.ret (some ⟨200,body'⟩))
  untouched : ∀ p d r, .start p (.vgEnroll d r) ∈ es →
    (∀ body, v.pool p ≠ some (.ret (some ⟨200,body⟩))) → ∀ xs ys u u', es = xs ++ .act p :: ys →
    (World.idle s).run xs = some u → u.step (.act p) = some u' → RowsUntouched u.state u'.state

theorem untouched_step {env : Env} {s : Store} {xs ys : List (Event (system env))}
    {u u' v : World (system env)} {pid d : Nat} {r : EnrollRequest}
    (hv : (World.idle s).run (xs ++ .act pid :: ys) = some v)
    (hm : .start pid (.vgEnroll d r) ∈ xs ++ .act pid :: ys)
    (hno : ∀ body, v.pool pid ≠ some (.ret (some ⟨200,body⟩)))
    (hu : (World.idle s).run xs = some u) (hs : u.step (.act pid) = some u') :
    RowsUntouched u.state u'.state := by
  obtain ⟨β,i,k,b,hp,hx,hpool⟩ := step_act hs
  obtain ⟨-,hres⟩ := residual_at hv hm hu hp
  have hspare : Sparing Accepted (Prog.step i k) :=
    hres.keeps (P := Sparing Accepted) (fun _ _ b h => h.2 b) (sparing_handle env d r)
  rcases hspare.1 pid _ _ b hx with ht | ⟨a,ha,body,rfl⟩
  · exact ht
  · have hret : u'.pool pid = some (.ret (some ⟨200,body⟩)) := by
      rw [hpool]
      exact (Function.update_self pid _ _).trans (congrArg some ha)
    rw [run_append,hu,Option.bind_some,World.run,hs,Option.bind_some] at hv
    obtain ⟨q,hq,hresq⟩ := residual_run hv hret
    exact (hno body (hresq.of_ret ▸ hq)).elim

theorem enroll_clock {env : Env} {now : Time} {x y : Enrollments} (hi : EnrollInv x)
    (h : (enrollments env).env now x = some y) : (enrollRegime env).Kept x y := by
  obtain ⟨hst,hlog⟩ := clock_noted h
  exact hi.frame (by rw [hst]) (fun id q hq => by rwa [hst] at hq) hlog

theorem nodup_owner {log : List (Nat × UUID)} (h : (log.map Prod.snd).Nodup) {p q : Nat} {id : UUID}
    (hp : (p,id) ∈ log) (hq : (q,id) ∈ log) : p = q :=
  congrArg Prod.fst (List.inj_on_of_nodup_map h hp hq rfl)

theorem enrollment_single_use (env : Env) (s : Store) (es : List (Event (system env)))
    (v : World (system env)) (hs : TokensSound s) (hfree : ∀ id, s.tokenLock id = none)
    (hes : ∀ pid r, .start pid r ∈ es → r.enrolls = true)
    (hv : (World.idle s).run es = some v) : SingleUse env s es v := by
  have h0 : EnrollInv ⟨s,[]⟩ := by
    refine ⟨hs,?_,by simp,by simp⟩
    intro id pid h
    rw [hfree] at h
    simp at h
  obtain ⟨log,hinv,hpost,-⟩ := recorded (S := system env) (R := enrollRegime env)
    (Q := EnrollPost env) h0 (fun pid r x hm hx => ensures_enrolls (hes pid r hm) hx)
    (fun _ _ _ _ _ => enrollPost_later) (fun _ _ _ => enroll_clock) (fun _ _ _ _ h => h)
    (along_unrestricted _ es) hv
  refine ⟨?_,hinv.sound.exclusive,?_,?_⟩
  · intro p q d d' r r' body body' hp hq hsame hpa hqa
    obtain ⟨id,hin,t,ht,hd⟩ := hpost p _ _ hp hpa body rfl
    obtain ⟨id',hin',t',ht',hd'⟩ := hpost q _ _ hq hqa body' rfl
    obtain ⟨hmem,hid⟩ := Table.find_some ht
    obtain ⟨hmem',hid'⟩ := Table.find_some ht'
    have hone : t.id = t'.id := hinv.sound.hashes t hmem t' hmem' (by rw [hd,hd',hsame])
    obtain rfl : id = id' := by rw [← hid,← hid']; exact hone
    exact nodup_owner hinv.once hin hin'
  · intro p q d r actor param id t body body' hp hq hparam ht hhash hqa hpa
    obtain ⟨k,hin,t',ht',hd⟩ := hpost p _ _ hp hpa body' rfl
    obtain ⟨k',t'',hk',ht'',hrev⟩ := hpost q _ _ hq hqa body rfl
    obtain rfl : id = k' := Option.some.inj (hparam.symm.trans hk')
    obtain rfl : t = t'' := Option.some.inj (ht.symm.trans ht'')
    obtain ⟨hmem,hid⟩ := Table.find_some ht
    obtain ⟨hmem',hid'⟩ := Table.find_some ht'
    have hone : t'.id = t.id := hinv.sound.hashes t' hmem' t hmem (by rw [hd,hhash])
    obtain rfl : k = id := by rw [← hid',← hid]; exact hone
    obtain ⟨u,hu,hused⟩ := hinv.used p k hin
    obtain rfl : t = u := Option.some.inj (ht.symm.trans hu)
    exact hinv.sound.exclusive t hmem ⟨hused,hrev⟩
  · rintro p d r hm hno xs ys u u' rfl hu hstep
    exact untouched_step hv hm hno hu hstep

def sampleToken : VgEnrollmentToken :=
  { VgBase.zero with
    id := 6, agentID := some 3, tokenHash := tokenDigest, expiresAt := 30 * 60 * second
    usedAt := none, revokedAt := none, createdByUserID := 1 }

def tokenStore : Store := { sampleStore with tokens := singleRow sampleToken }

def enrollRequest : EnrollRequest := ⟨" e1 ","db01","linux","amd64","1.0","db01","linux","10.0.0.3"⟩

def tokenParam : String := "00000000-0000-0000-0000-000000000006"

def contendedEnrollment : List (Event (system keyEnv)) :=
  [.start 1 (.vgEnroll 0 enrollRequest),.start 2 (.vgEnroll 1 enrollRequest),
    .start 4 (.revokeEnrollmentToken ⟨.admin,1⟩ tokenParam)] ++
  List.replicate 4 (.act 2) ++ List.replicate 2 (.act 4) ++ List.replicate 8 (.act 1) ++
  [.act 2,.act 4]

theorem contended_token_enrolls_once :
    ∃ v, (World.idle (S := system keyEnv) tokenStore).run contendedEnrollment = some v ∧
      [1,2,4].map (replyCode v) = [some 200,some 401,some 404] ∧
      SingleUse keyEnv tokenStore contendedEnrollment v := by
  have hrun : ((World.idle (S := system keyEnv) tokenStore).run contendedEnrollment).map
      (fun v => [1,2,4].map (replyCode v)) = some [some 200,some 401,some 404] := by decide
  obtain ⟨v,hv,hcodes⟩ := Option.map_eq_some_iff.mp hrun
  refine ⟨v,hv,hcodes,?_⟩
  have hrow : ∀ t ∈ tokenStore.tokens.rows, t = sampleToken := fun t ht => List.mem_singleton.mp ht
  have hsound : TokensSound tokenStore := by
    refine ⟨?_,?_⟩
    · intro t ht
      rw [hrow t ht]
      decide
    · intro t ht t' ht' _
      rw [hrow t ht,hrow t' ht']
  exact enrollment_single_use keyEnv tokenStore contendedEnrollment v hsound (fun _ => rfl)
    (allStarts_mem (by decide)) hv

end VgBackup
