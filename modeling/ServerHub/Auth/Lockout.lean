import ServerHub.Auth.Gate

namespace Auth

open Go Interleave

variable {spare : Nat → List Int} {env : Env} {u : String} {st : AcctState}

structure AcctState.Kept (st st' : AcctState) : Prop where
  lockout : st.lockoutUntil ≤ st'.lockoutUntil
  streak : st.failures ≤ st'.failures

theorem AcctState.kept_refl (st : AcctState) : st.Kept st := ⟨le_rfl,le_rfl⟩

theorem AcctState.Kept.trans {a b c : AcctState} (h : a.Kept b) (k : b.Kept c) : a.Kept c :=
  ⟨h.lockout.trans k.lockout,h.streak.trans k.streak⟩

theorem AcctState.kept_fail (st : AcctState) (now : Int) : st.Kept (st.fail now) := by
  unfold fail
  dsimp only
  split
  · rename_i h
    refine ⟨?_,Nat.le_succ _⟩
    have hmax : 0 < maxLockout := by decide
    have hafter := h.2
    dsimp only at hafter ⊢
    split
    · omega
    · rename_i hback
      omega
  · exact ⟨le_rfl,Nat.le_succ _⟩

namespace LoginLimiter

variable (l : LoginLimiter)

theorem blocked_accounts (spare : Nat → List Int) (now later : Int) (ip user : String) :
    (l.blocked spare now later ip user).1.accounts = l.accounts := by
  unfold blocked
  dsimp only
  split
  · rfl
  · split
    · split
      · split <;> rfl
      · rfl
    · rfl

theorem recordHit_accounts (now : Int) (ip : String) :
    (l.recordHit spare now ip).accounts = l.accounts := by
  unfold recordHit
  dsimp only
  split <;> rfl

theorem blocked_locked {l : LoginLimiter} {now : Int} (hu : u ≠ "")
    (hst : l.accounts.lookup u = some st) (hnow : now < st.lockoutUntil) (later : Int) (ip : String) :
    (l.blocked spare now later ip u).2.1 = true := by
  unfold blocked
  dsimp only
  split
  · rfl
  · rw [if_pos (by simpa using hu)]
    simp only [pruneLocked,hst,if_pos hnow]

theorem recordFailure_kept {l : LoginLimiter} {now : Int} {ip user : String}
    (hroom : user ≠ "" → l.accounts.keys.length < maxTrackedAccts)
    (hst : l.accounts.lookup u = some st) :
    ∃ st', (l.recordFailure spare now ip user).accounts.lookup u = some st' ∧ st.Kept st' := by
  unfold recordFailure
  by_cases huser : user = ""
  · rw [if_pos huser,recordHit_accounts]
    exact ⟨st,hst,st.kept_refl⟩
  · rw [if_neg huser]
    simp only [recordAccount,recordHit_accounts]
    rw [if_neg (by have := hroom huser; omega)]
    by_cases hu : u = user
    · subst hu
      rw [AList.lookup_insert,hst]
      exact ⟨_,rfl,st.kept_fail now⟩
    · rw [AList.lookup_insert_ne hu]
      exact ⟨st,hst,st.kept_refl⟩

theorem recordSuccess_kept {l : LoginLimiter} {user : String} (h : user ≠ u)
    (hst : l.accounts.lookup u = some st) :
    (l.recordSuccess user).accounts.lookup u = some st := by
  unfold recordSuccess
  split
  · exact hst
  · exact (AList.lookup_erase_ne h.symm).trans hst

theorem recordFailure_named {l : LoginLimiter} {now : Int} {ip user : String}
    (h : "" ∉ l.accounts) : "" ∉ (l.recordFailure spare now ip user).accounts := by
  unfold recordFailure
  by_cases huser : user = ""
  · rwa [if_pos huser,recordHit_accounts]
  · rw [if_neg huser]
    simp only [recordAccount,recordHit_accounts,AList.mem_insert,not_or]
    refine ⟨Ne.symm huser,?_⟩
    split
    · exact AList.notMem_empty _
    · exact h

theorem recordSuccess_named {l : LoginLimiter} {user : String} (h : "" ∉ l.accounts) :
    "" ∉ (l.recordSuccess user).accounts := by
  unfold recordSuccess
  split
  · exact h
  · exact fun hm => h (AList.mem_erase.mp hm).2

theorem arrive_accounts (r : Guarded) (now later : Int) :
    (l.arrive spare r now later).1.accounts = l.accounts := by
  have h := l.blocked_accounts spare now later r.ip (peekUsername r.content)
  unfold arrive
  split <;> simp_all

theorem answer_accounts (r : Guarded) (status : Nat) (now check later : Int) :
    (l.answer spare r status now check later).1.accounts =
      if status = 200 then (l.recordSuccess (peekUsername r.content)).accounts
      else if status = 401 then
        (l.recordFailure spare now r.ip (peekUsername r.content)).accounts
      else l.accounts := by
  unfold answer
  dsimp only
  split
  · rfl
  · split
    · exact blocked_accounts _ spare check later _ _
    · rfl

end LoginLimiter

theorem verifyCredentials_match (username password : String) :
    (verifyCredentials env username password).Ends fun found => ∀ user, found = some user →
      env.compareHashAndPassword user.passwordHash password := by
  intro row
  cases row with
  | error e => exact fun _ h => absurd h (by simp)
  | ok user =>
    show Prog.Ends _ (if env.compareHashAndPassword user.passwordHash password then
      Prog.ret (some user) else .ret none)
    split
    · rename_i hp
      exact fun _ h => Option.some.inj h ▸ hp
    · exact fun _ h => absurd h (by simp)

theorem authenticate_granted {body : Option Credentials} {answer : User → String → String → Reply} :
    (authenticate env body answer).Ends fun reply => reply.status = 200 →
      ∃ b, ∃ user : User, body = some b ∧ b.username ≠ "" ∧
        env.compareHashAndPassword user.passwordHash b.password := by
  cases body with
  | none => exact fun h => absurd h (by decide)
  | some b =>
    unfold authenticate
    dsimp only
    split
    · exact fun h => absurd h (by decide)
    · rename_i hne
      have hname : b.username ≠ "" := fun hu => hne (by simp [hu])
      refine Prog.ends_then (verifyCredentials_match b.username b.password) ?_
      rintro (_ | user) hmatch
      · exact fun h => absurd h (by decide)
      · exact Prog.ends_of_forall (fun _ _ => ⟨b,user,rfl,hname,hmatch user rfl⟩) _

theorem granted_named {r : Guarded} {h : Handler Reply} (hh : r.handler env = some h) :
    h.Ends fun reply => reply.status = 200 →
      ∃ b, bindCredentials r.content = some b ∧ b.username ≠ "" := by
  have hbody : ∀ {answer}, (authenticate env (bindCredentials r.content) answer).Ends
      fun reply => reply.status = 200 →
        ∃ b, bindCredentials r.content = some b ∧ b.username ≠ "" :=
    Prog.ends_mono (fun _ hg hs =>
      let ⟨b,_,hb,hname,_⟩ := hg hs
      ⟨b,hb,hname⟩) authenticate_granted
  unfold Guarded.handler at hh
  split at hh <;> cases hh <;> exact hbody

namespace Gate

variable {g g' : Gate} {e : Exchange} {es : List Exchange}

theorem step_named (h : g.step spare e = some g') (hnamed : "" ∉ g.limiter.accounts) :
    "" ∉ g'.limiter.accounts := by
  cases e with
  | arrive r now later =>
    obtain rfl := Option.some.inj h
    simpa only [LoginLimiter.arrive_accounts] using hnamed
  | answer r status now check later =>
    obtain ⟨-,hg⟩ := Option.ite_none_right_eq_some.mp h
    obtain rfl := Option.some.inj hg
    simp only [LoginLimiter.answer_accounts]
    split
    · exact LoginLimiter.recordSuccess_named hnamed
    · split
      · exact LoginLimiter.recordFailure_named hnamed
      · exact hnamed

theorem other_success {r : Guarded} {status : Nat} {now check later : Int} (hu : u ≠ "")
    (hp : (Exchange.answer r status now check later).Possible env)
    (hown : ¬(Exchange.answer r status now check later).OwnLogin u)
    (hiso : g.Isolated (.answer r status now check later)) (hstatus : status = 200)
    (hst : u ∈ g.limiter.accounts) : peekUsername r.content ≠ u := by
  intro hpeek
  by_cases hverifies : r.endpoint ∈ [Endpoint.login,.token]
  · have hgranted : ∀ h, r.handler env = some h →
        ∃ b, bindCredentials r.content = some b ∧ b.username ≠ "" := by
      intro h hh
      by_contra hnone
      refine hp h hh (Prog.ends_mono (fun reply hr he => ?_) (granted_named hh))
      exact hnone (hr (he.trans hstatus))
    have hsome : ∃ h, r.handler env = some h := by
      unfold Guarded.handler
      cases hr : r.endpoint <;> simp_all
    obtain ⟨h,hh⟩ := hsome
    obtain ⟨b,hb,-⟩ := hgranted h hh
    rcases peek_bound hb with hsame | hempty
    · exact hown ⟨hverifies,hstatus,b,hb,hsame.symm.trans hpeek⟩
    · exact hu (hpeek.symm.trans hempty)
  · have hagent : r.endpoint ∈ [Endpoint.register,.enroll] := by
      cases hr : r.endpoint <;> simp_all
    exact hiso.2 hstatus hagent (hpeek ▸ hst)

theorem step_kept (hu : u ≠ "") (h : g.step spare e = some g') (hp : e.Possible env)
    (hown : ¬e.OwnLogin u) (hiso : g.Isolated e) (hst : g.limiter.accounts.lookup u = some st) :
    ∃ st', g'.limiter.accounts.lookup u = some st' ∧ st.Kept st' := by
  cases e with
  | arrive r now later =>
    obtain rfl := Option.some.inj h
    exact ⟨st,by simpa only [LoginLimiter.arrive_accounts] using hst,st.kept_refl⟩
  | answer r status now check later =>
    obtain ⟨-,hg⟩ := Option.ite_none_right_eq_some.mp h
    obtain rfl := Option.some.inj hg
    simp only [LoginLimiter.answer_accounts]
    split
    · rename_i hstatus
      have hmem : u ∈ g.limiter.accounts := AList.lookup_isSome.mp (by rw [hst]; rfl)
      have hne := other_success hu hp hown hiso hstatus hmem
      exact ⟨st,LoginLimiter.recordSuccess_kept hne hst,st.kept_refl⟩
    · split
      · rename_i hstatus
        exact LoginLimiter.recordFailure_kept (hiso.1 hstatus) hst
      · exact ⟨st,hst,st.kept_refl⟩

theorem run_named (h : g.run spare es = some g') (hnamed : "" ∉ g.limiter.accounts) :
    "" ∉ g'.limiter.accounts := by
  induction es generalizing g with
  | nil =>
    obtain rfl := Option.some.inj h
    exact hnamed
  | cons e es ih =>
    obtain ⟨g₁,hstep,hrest⟩ := Option.bind_eq_some_iff.mp h
    exact ih hrest (step_named hstep hnamed)

theorem run_kept (hu : u ≠ "") (h : g.run spare es = some g') (hp : ∀ e ∈ es, e.Possible env)
    (hown : ∀ e ∈ es, ¬e.OwnLogin u) (hiso : g.Along spare Isolated es)
    (hst : g.limiter.accounts.lookup u = some st) :
    ∃ st', g'.limiter.accounts.lookup u = some st' ∧ st.Kept st' := by
  induction es generalizing g st with
  | nil =>
    obtain rfl := Option.some.inj h
    exact ⟨st,hst,st.kept_refl⟩
  | cons e es ih =>
    obtain ⟨g₁,hstep,hrest⟩ := Option.bind_eq_some_iff.mp h
    obtain ⟨hnow,hlater⟩ := hiso
    have hhead := List.forall_mem_cons.mp hp
    have hself := List.forall_mem_cons.mp hown
    obtain ⟨st₁,hst₁,hkept⟩ := step_kept hu hstep hhead.1 hself.1 hnow hst
    obtain ⟨st₂,hst₂,hkept'⟩ := ih hrest hhead.2 hself.2 (hlater g₁ hstep) hst₁
    exact ⟨st₂,hst₂,hkept.trans hkept'⟩

end Gate

def LockedOut (spare : Nat → List Int) (u : String) (st : AcctState) (g : Gate) : Prop :=
  (∃ st', g.limiter.accounts.lookup u = some st' ∧ st.failures ≤ st'.failures) ∧
    ∀ now later ip, now < st.lockoutUntil → (g.limiter.blocked spare now later ip u).2.1 = true

theorem lockout_stands {before after : List Exchange} {g g' : Gate}
    (hbefore : Gate.fresh.run spare before = some g) (hst : g.limiter.accounts.lookup u = some st)
    (hafter : g.run spare after = some g') (hp : ∀ e ∈ after, e.Possible env)
    (hown : ∀ e ∈ after, ¬e.OwnLogin u) (hiso : g.Along spare Gate.Isolated after) :
    LockedOut spare u st g' := by
  have hnamed : "" ∉ g.limiter.accounts := Gate.run_named hbefore (AList.notMem_empty _)
  have hu : u ≠ "" := by
    rintro rfl
    exact hnamed (AList.lookup_isSome.mp (by rw [hst]; rfl))
  obtain ⟨st',hst',hkept⟩ := Gate.run_kept hu hafter hp hown hiso hst
  refine ⟨⟨st',hst',hkept.streak⟩,?_⟩
  intro now later ip hnow
  exact LoginLimiter.blocked_locked hu hst' (hnow.trans_le hkept.lockout) later ip

theorem refused_possible {r : Guarded} {b : Credentials} (now check later : Int)
    (hr : r.endpoint = .login) (hb : bindCredentials r.content = some b) (hu : b.username ≠ "")
    (hpass : b.password ≠ "") : (Exchange.answer r 401 now check later).Possible env := by
  intro h hh hends
  simp only [Guarded.handler,hr,Option.some.injEq] at hh
  subst hh
  simp only [hb,login,authenticate,verifyCredentials,Prog.perform] at hends
  rw [if_neg (by simp [hu,hpass])] at hends
  exact hends (.error "no rows") rfl

def guess (ip : String) : Guarded := ⟨.login,ip,signIn ""⟩

def guesses : List Exchange :=
  ["0","1","2","3","4","5","6","7","8","9"].flatMap fun ip =>
    [.arrive (guess ip) 1 1,.answer (guess ip) 401 1 1 1]

theorem bind_guess : bindCredentials (signIn "") = some ⟨"u","p"⟩ := by decide +kernel

theorem guesses_possible : ∀ e ∈ guesses, e.Possible env := by
  intro e he
  obtain ⟨ip,-,he⟩ := List.mem_flatMap.mp he
  simp only [List.mem_cons,List.not_mem_nil,or_false] at he
  rcases he with rfl | rfl
  · trivial
  · exact refused_possible 1 1 1 rfl bind_guess (by decide) (by decide)

def stranger : Guarded := ⟨.login,"10",.text "\x7b\"username\":\"v\",\"password\":\"p\"\x7d"⟩

def probes : List Exchange := [.arrive stranger 2 2,.answer stranger 401 2 2 2]

theorem guesses_lock : (Gate.fresh.run (fun _ => []) guesses).map (fun g =>
    (g.limiter.accounts.lookup "u",g.limiter.accounts.keys.length)) =
      some (some ⟨10,minute + 1,1⟩,1) := by decide +kernel

theorem lockout_outlasts_stranger : ∃ g g', Gate.fresh.run (fun _ => []) guesses = some g ∧
    g.run (fun _ => []) probes = some g' ∧ LockedOut (fun _ => []) "u" ⟨10,minute + 1,1⟩ g' := by
  obtain ⟨g,hg,hlocked⟩ := Option.map_eq_some_iff.mp guesses_lock
  obtain ⟨hst,hkeys⟩ := Prod.mk.inj hlocked
  have hprobes : ((Gate.fresh.run (fun _ => []) guesses).bind
      fun g => g.run (fun _ => []) probes).isSome := by decide +kernel
  obtain ⟨g',hg'⟩ := Option.isSome_iff_exists.mp hprobes
  rw [hg] at hg'
  have hpossible : ∀ e ∈ probes, e.Possible plain := by
    intro e he
    simp only [probes,List.mem_cons,List.not_mem_nil,or_false] at he
    rcases he with rfl | rfl
    · trivial
    · exact refused_possible (b := ⟨"v","p"⟩) 2 2 2 rfl (by decide +kernel) (by decide) (by decide)
  refine ⟨g,g',hg,hg',lockout_stands hg hst hg' hpossible ?_ ?_⟩
  · intro e he
    simp only [probes,List.mem_cons,List.not_mem_nil,or_false] at he
    rcases he with rfl | rfl
    · exact id
    · exact fun hown => absurd hown.2.1 (by decide)
  · refine ⟨trivial,fun g₁ hstep => ⟨⟨fun _ _ => ?_,fun h => absurd h (by decide)⟩,
      fun _ _ => trivial⟩⟩
    obtain rfl := Option.some.inj hstep
    rw [LoginLimiter.arrive_accounts,hkeys]
    decide

def registration : Guarded := ⟨.register,"10",.text
  "\x7b\"registration_key\":\"k\",\"hostname\":\"h\",\"username\":\"u\"\x7d"⟩

theorem registration_unlocks : ¬∀ (spare : Nat → List Int) (env : Env) (before after : List Exchange)
    (g g' : Gate) (u : String) (st : AcctState), Gate.fresh.run spare before = some g →
      g.limiter.accounts.lookup u = some st → g.run spare after = some g' →
      (∀ e ∈ before ++ after, e.Possible env) → (∀ e ∈ after, ¬e.OwnLogin u) →
        LockedOut spare u st g' := by
  intro h
  have hbefore : (Gate.fresh.run (fun _ => []) (.arrive registration 1 1 :: guesses)).map
      (fun g => g.limiter.accounts.lookup "u") = some (some ⟨10,minute + 1,1⟩) := by decide +kernel
  obtain ⟨g,hg,hst⟩ := Option.map_eq_some_iff.mp hbefore
  have hafter : ((Gate.fresh.run (fun _ => []) (.arrive registration 1 1 :: guesses)).bind
      fun g => (g.run (fun _ => []) [.answer registration 200 2 2 2]).map
        fun g => g.limiter.accounts.lookup "u") = some none := by decide +kernel
  rw [hg] at hafter
  obtain ⟨g',hg',hgone⟩ := Option.map_eq_some_iff.mp hafter
  have hpossible : ∀ e ∈ .arrive registration 1 1 :: guesses ++ [.answer registration 200 2 2 2],
      e.Possible plain := by
    intro e he
    rcases List.mem_append.mp he with he | he
    · rcases List.mem_cons.mp he with rfl | he
      · trivial
      · exact guesses_possible e he
    · obtain rfl := List.mem_singleton.mp he
      exact fun _ hh => absurd hh (by simp [registration,Guarded.handler])
  have hown : ∀ e ∈ [Exchange.answer registration 200 2 2 2], ¬e.OwnLogin "u" := by
    intro e he
    obtain rfl := List.mem_singleton.mp he
    exact fun hown => absurd hown.1 (by decide)
  obtain ⟨⟨st',hst',-⟩,-⟩ := h _ plain _ _ g g' "u" _ hg hst hg' hpossible hown
  rw [hgone] at hst'
  cases hst'

end Auth
