import ServerHub.Mobile.Rotated

namespace Mobile.Renewals

open Posix Interleave Interleave.Prog

def keeping (net : Nat → Option Received) (first : Option String) : Ledger (app net) note where
  Inv := Kept net first
  Allow _ _ _ _ := True
  Duty _ _ _ _ := True

section Steps

variable {net : Nat → Option Received} {first : Option String} {x : Traced Online Note} {t : Online}
  {pid : Nat} {n : Note} {α β : Type} {J : List Note → Prop}

theorem setItem_self (s : Phone) (k : Key) (value : String) : (s.setItem k value).store k = some value := by
  simp [Phone.setItem]

theorem setItem_other (s : Phone) {j k : Key} (value : String) (h : k ≠ j) :
    (s.setItem k value).store j = s.store j := by
  simp [Phone.setItem,Function.update_of_ne h.symm]

theorem deleteItem_store (s : Phone) {j k : Key} {value : String}
    (h : (s.deleteItem k).store j = some value) : s.store j = some value := by
  by_cases hk : j = k
  · simp [Phone.deleteItem,hk] at h
  · simpa [Phone.deleteItem,Function.update_of_ne hk] using h

theorem truthy_present {value : Option String} {text : String} (h : truthy value = some text) :
    value = some text := (Option.filter_eq_some_iff.mp h).1

theorem Kept.turned (h : Kept net first x) : Chronicle (Turned Note.turn) x.log :=
  justified_turned h.justified

theorem Kept.renewing_iff (h : Kept net first x) :
    renewing x.log = some pid ↔ holding Note.turn (notesOf pid x.log) = true := holder_iff h.turned

theorem Kept.silent (h : Kept net first x) (hflight : t.phone.flight = x.state.phone.flight)
    (hlanded : t.phone.landed = x.state.phone.landed) (hsent : t.sent = x.state.sent)
    (hstore : ∀ r, t.phone.store .refresh = some r → x.state.phone.store .refresh = some r) :
    Kept net first ⟨t,x.log⟩ := by
  refine ⟨hflight.trans h.flight,fun q fresh hq => ?_,h.justified,fun hfresh => ?_⟩
  · rw [hlanded] at hq
    exact h.landed q fresh hq
  · obtain ⟨howed,hclean⟩ := h.tokens hfresh
    have hseen : ∀ r, Seen r ⟨t,x.log⟩ → Seen r x := fun r hr => hr.imp_left (hstore r)
    refine ⟨⟨fun r hr => ?_,fun q r hr => ?_,fun q r hr hs => howed.unseen q r hr (hseen r hs),
      howed.single⟩,fun p hp => hclean.store p (hstore p hp),hclean.armed⟩
    · show Known net first r t.sent
      rw [hsent]
      exact howed.known r (hseen r hr)
    · show Known net first r t.sent
      rw [hsent]
      exact howed.given q r hr

theorem Kept.plain (h : Kept net first x) (hn : n.plain = true)
    (hjust : Justified (Fresh net first) x.log (pid,n))
    (hland : ∀ fresh, n = .landed fresh → pending (notesOf pid x.log) = none)
    (hflight : t.phone.flight = renewing ((pid,n) :: x.log))
    (hlanded : ∀ q fresh, t.phone.landed q = some fresh → (q,.landed fresh) ∈ (pid,n) :: x.log)
    (hsent : t.sent = x.state.sent)
    (hstore : ∀ r, t.phone.store .refresh = some r → x.state.phone.store .refresh = some r) :
    Kept net first ⟨t,(pid,n) :: x.log⟩ := by
  have hlog : Chronicle (Justified (Fresh net first)) ((pid,n) :: x.log) := ⟨hjust,h.justified⟩
  have hturned : Turned Note.turn x.log (pid,n) := (justified_turned hlog).1
  refine ⟨hflight,hlanded,⟨hjust,h.justified⟩,fun hfresh => ?_⟩
  obtain ⟨howed,hclean⟩ := h.tokens hfresh
  refine ⟨howed.move hsent.ge (fun r => seen_plain hn hstore) fun r hr => .inl ?_,
    hclean.plain hn hturned hland hstore⟩
  by_cases hne : n = .entered
  · subst hne
    cases hr
  · rwa [pending_plain hn hne] at hr

def silent : {β : Type} → PhoneCall β → Prop
  | _, .getItem k => k ≠ .refresh
  | _, .deleteItem _ | _, .signedIn _ _ | _, .check => True
  | _, _ => False

theorem tells_silent {i : PhoneCall β} (hi : silent i) :
    (keeping net first).Tells pid J (perform i) fun _ => J := by
  refine Ledger.tells_perform fun x t b hx hJ _ hexec => ?_
  have hsame : ∀ r, x.state.phone.store .refresh = some r → x.state.phone.store .refresh = some r :=
    fun _ h => h
  cases i with
  | getItem k =>
    obtain ⟨rfl,rfl⟩ := Prod.mk.inj (Option.some.inj hexec)
    cases k with
    | refresh => exact absurd rfl hi
    | token => exact ⟨trivial,hx,hJ⟩
    | user => exact ⟨trivial,hx,hJ⟩
  | deleteItem k =>
    obtain ⟨rfl,rfl⟩ := Prod.mk.inj (Option.some.inj hexec)
    exact ⟨trivial,hx.silent rfl rfl rfl fun r => deleteItem_store x.state.phone,hJ⟩
  | signedIn user token =>
    obtain ⟨rfl,rfl⟩ := Prod.mk.inj (Option.some.inj hexec)
    exact ⟨trivial,hx.silent rfl rfl rfl hsame,hJ⟩
  | check =>
    obtain ⟨rfl,rfl⟩ := Prod.mk.inj (Option.some.inj hexec)
    exact ⟨trivial,hx.silent rfl rfl rfl hsame,hJ⟩
  | _ => exact hi.elim

theorem tells_store {k : Key} {value : String} (hk : k ≠ .refresh) :
    (keeping net first).Tells pid J (perform (.setItem k value)) fun _ ns =>
      ∃ older, ns = .stored k value :: older ∧ J older := by
  refine Ledger.tells_perform fun x t b hx hJ _ hexec => ?_
  obtain ⟨rfl,rfl⟩ := Prod.mk.inj (Option.some.inj hexec)
  have hn : (Note.stored k value).plain = true := by
    cases k with
    | refresh => exact absurd rfl hk
    | token => rfl
    | user => rfl
  refine ⟨trivial,hx.plain hn trivial (fun _ h => by cases h) hx.flight (fun q fresh hq => ?_) rfl
    fun r hr => ?_,_,rfl,hJ⟩
  · exact List.mem_cons_of_mem _ (hx.landed q fresh hq)
  · exact (setItem_other x.state.phone value hk).symm.trans hr

theorem tells_keep {r : String} (hJ : ∀ ns, J ns → pending ns = some r) :
    (keeping net first).Tells pid J (perform (.setItem .refresh r)) fun _ ns =>
      ∃ older, ns = .stored .refresh r :: older ∧ J older := by
  refine Ledger.tells_perform fun x t b hx hns _ hexec => ?_
  obtain ⟨rfl,rfl⟩ := Prod.mk.inj (Option.some.inj hexec)
  have hpending := hJ _ hns
  have hstore := setItem_self x.state.phone .refresh r
  refine ⟨trivial,⟨hx.flight,fun q fresh hq => List.mem_cons_of_mem _ (hx.landed q fresh hq),
    ⟨trivial,hx.justified⟩,fun hfresh => ?_⟩,_,rfl,hns⟩
  obtain ⟨howed,hclean⟩ := hx.tokens hfresh
  refine ⟨howed.keep hpending rfl hstore,hclean.keep ?_ hstore⟩
  rintro ⟨q,a,hq,-⟩
  exact howed.unseen pid r hpending (.inr (.inr ⟨q,a,hq⟩))

theorem tells_ask {url : Text} {header : Option String}
    (hJ : ∀ ns, J ns → Again url ns ∧ holding Note.turn ns = false) :
    (keeping net first).Tells pid J (perform (.send ⟨url,header,none⟩)) fun answer ns =>
      ∃ older, ns = .asked url answer :: older ∧ J older := by
  refine Ledger.tells_perform fun x t b hx hns _ hexec => ?_
  obtain ⟨rfl,rfl⟩ := Prod.mk.inj (Option.some.inj hexec)
  obtain ⟨hagain,hfree⟩ := hJ _ hns
  have hlead : renewing x.log ≠ some pid := by
    rw [Ne,hx.renewing_iff,hfree]
    exact nofun
  refine ⟨trivial,⟨hx.flight,fun q fresh hq => List.mem_cons_of_mem _ (hx.landed q fresh hq),
    ⟨hagain,hx.justified⟩,fun hfresh => ?_⟩,_,rfl,hns⟩
  obtain ⟨howed,hclean⟩ := hx.tokens hfresh
  refine ⟨howed.move (Nat.le_succ _) ?_ fun r hr => .inr ⟨hfresh.unknown hr,?_⟩,hclean.asked rfl hlead⟩
  · rintro r (hr | ⟨q,hq⟩ | ⟨q,a,hq⟩)
    · exact .inl hr
    · exact .inr (.inl ⟨q,by simpa using hq⟩)
    · exact .inr (.inr ⟨q,a,by simpa using hq⟩)
  · exact .inr ⟨_,Nat.lt_succ_self _,hr⟩

theorem tells_enter {base : List Note} (hbase : ∀ fresh, .landed fresh ∉ base) :
    (keeping net first).Tells pid (· = base) (perform .enter) fun b ns =>
      match b with
      | none => ns = .entered :: base
      | some leader => ns = .joined leader :: base := by
  refine Ledger.tells_perform fun x t b hx hns _ hexec => ?_
  have hexec : exec net pid .enter x.state = some (t,b) := hexec
  simp only [exec] at hexec
  cases hf : x.state.phone.flight with
  | none =>
    rw [hf] at hexec
    obtain ⟨rfl,rfl⟩ := Prod.mk.inj (Option.some.inj hexec)
    have hnone : renewing x.log = none := hx.flight.symm.trans hf
    refine ⟨trivial,hx.plain rfl ⟨hnone,fun fresh hin => ?_⟩ (fun _ h => by cases h) rfl
      (fun q fresh hq => List.mem_cons_of_mem _ (hx.landed q fresh hq)) rfl fun _ h => h,?_⟩
    · exact hbase fresh (hns ▸ mem_notesOf.mpr hin)
    · exact congrArg (List.cons Note.entered) hns
  | some leader =>
    rw [hf] at hexec
    obtain ⟨rfl,rfl⟩ := Prod.mk.inj (Option.some.inj hexec)
    refine ⟨trivial,hx.plain rfl (hx.flight.symm.trans hf) (fun _ h => by cases h) hx.flight
      (fun q fresh hq => List.mem_cons_of_mem _ (hx.landed q fresh hq)) rfl fun _ h => h,?_⟩
    exact congrArg (List.cons (Note.joined leader)) hns

theorem tells_follow (leader : Nat) :
    (keeping net first).Tells pid J (perform (.follow leader)) fun fresh ns =>
      ∃ older, ns = .followed leader fresh :: older ∧ J older := by
  refine Ledger.tells_perform fun x t b hx hns _ hexec => ?_
  obtain ⟨fresh,hlanded,he⟩ := Option.map_eq_some_iff.mp hexec
  obtain ⟨rfl,rfl⟩ := Prod.mk.inj he
  refine ⟨trivial,hx.plain rfl (hx.landed leader fresh hlanded) (fun _ h => by cases h) hx.flight
    (fun q fresh hq => List.mem_cons_of_mem _ (hx.landed q fresh hq)) rfl fun _ h => h,_,rfl,hns⟩

theorem holding_leading {base since : List Note} (h : ∀ n ∈ since, n.inner = true) :
    holding Note.turn (since ++ .entered :: base) = true := by
  induction since with
  | nil => rfl
  | cons n since ih =>
    have ih := ih fun m hm => h m (List.mem_cons_of_mem _ hm)
    have hn := h n List.mem_cons_self
    cases n with
    | read p => exact ih
    | posted p a => exact ih
    | stored k value => exact ih
    | _ => cases hn

theorem tells_arm {base : List Note} :
    (keeping net first).Tells pid (· = .entered :: base) (perform (.getItem .refresh)) fun b ns =>
      match truthy b with
      | none => ns = .entered :: base
      | some p => ns = .read p :: .entered :: base := by
  refine Ledger.tells_perform fun x t b hx hns _ hexec => ?_
  obtain ⟨rfl,rfl⟩ := Prod.mk.inj (Option.some.inj hexec)
  cases hp : truthy (x.state.phone.store .refresh) with
  | none =>
    have hnote : note _ (.getItem .refresh) x.state (x.state.phone.store .refresh) = none := by
      simp only [note,hp,Option.map_none]
    rw [hnote]
    exact ⟨trivial,hx,hns⟩
  | some p =>
    have hnote : note _ (.getItem .refresh) x.state (x.state.phone.store .refresh) = some (.read p) := by
      simp only [note,hp,Option.map_some]
    have hstore := truthy_present hp
    have hlead : renewing x.log = some pid := by
      rw [hx.renewing_iff,hns]
      rfl
    rw [hnote]
    refine ⟨trivial,⟨hx.flight,fun q fresh hq => List.mem_cons_of_mem _ (hx.landed q fresh hq),
      ⟨trivial,hx.justified⟩,fun hfresh => ?_⟩,congrArg (List.cons (Note.read p)) hns⟩
    obtain ⟨howed,hclean⟩ := hx.tokens hfresh
    refine ⟨howed.move le_rfl ?_ fun r hr => .inl hr,hclean.read (by rw [hns]; rfl) hstore hlead⟩
    rintro r (hr | ⟨q,hq⟩ | ⟨q,a,hq⟩)
    · exact .inl hr
    · rcases List.mem_cons.mp hq with he | hq
      · cases he
        exact .inl hstore
      · exact .inr (.inl ⟨q,hq⟩)
    · exact .inr (.inr ⟨q,a,by simpa using hq⟩)

theorem tells_post {base : List Note} {p : String} (hbase : ∀ p a, .posted p a ∉ base) :
    (keeping net first).Tells pid (· = .read p :: .entered :: base)
      (perform (.send ⟨authRefresh,none,some p⟩)) fun answer ns =>
        ns = .posted p answer :: .read p :: .entered :: base := by
  refine Ledger.tells_perform fun x t b hx hns _ hexec => ?_
  obtain ⟨rfl,rfl⟩ := Prod.mk.inj (Option.some.inj hexec)
  have hlead : renewing x.log = some pid := by
    rw [hx.renewing_iff,hns]
    rfl
  have hread : (pid,.read p) ∈ x.log := by
    rw [← mem_notesOf,hns]
    exact List.mem_cons_self
  have hunposted : ∀ p a, (pid,.posted p a) ∉ x.log := by
    intro p a hin
    rw [← mem_notesOf,hns] at hin
    simp only [List.mem_cons,reduceCtorEq,false_or] at hin
    exact hbase p a hin
  have hunspent : Fresh net first → ¬ Spent p x.log := fun hfresh =>
    (hx.tokens hfresh).2.armed pid p (by rw [hns]; rfl) hlead
  refine ⟨trivial,⟨hx.flight,fun q fresh hq => List.mem_cons_of_mem _ (hx.landed q fresh hq),
    ⟨⟨hlead,hunposted,hunspent⟩,hx.justified⟩,fun hfresh => ?_⟩,?_⟩
  · obtain ⟨howed,hclean⟩ := hx.tokens hfresh
    refine ⟨howed.move (Nat.le_succ _) ?_ fun r hr => .inr ?_,
      hclean.posted rfl hlead (by rw [hns]; rfl)⟩
    · rintro r (hr | ⟨q,hq⟩ | ⟨q,a,hq⟩)
      · exact .inl hr
      · exact .inr (.inl ⟨q,by simpa using hq⟩)
      · rcases List.mem_cons.mp hq with he | hq
        · cases he
          exact .inr (.inl ⟨pid,hread⟩)
        · exact .inr (.inr ⟨q,a,hq⟩)
    · have hnew := carried_of_rotated hr
      exact ⟨hfresh.unknown hnew,.inr ⟨_,Nat.lt_succ_self _,hnew⟩⟩
  · exact congrArg (List.cons (Note.posted p _)) hns

-- what the leader of a renewal has noted when it is about to end it
structure Led (base : List Note) (fresh : Bool) (ns since : List Note) : Prop where
  notes : ns = since ++ .entered :: base
  inner : ∀ n ∈ since, n.inner = true
  settled : pending ns = none
  stored : fresh = true → ∃ access, .stored .token access ∈ since

theorem Led.unrenewed {base ns : List Note} {p : String} {answer : Option Received} (hnone : rotated answer = none)
    (hns : ns = .posted p answer :: .read p :: .entered :: base) : ∃ since, Led base false ns since := by
  refine ⟨[.posted p answer,.read p],hns,by simp [Note.inner],?_,fun h => by cases h⟩
  rw [hns]
  exact hnone

theorem tells_renew {base : List Note} {refreshToken : Option String} (hbase : ∀ p a, .posted p a ∉ base) :
    (keeping net first).Tells pid (fun ns =>
      match truthy refreshToken with
      | none => ns = .entered :: base
      | some p => ns = .read p :: .entered :: base) (renew refreshToken) fun fresh ns =>
        ∃ since, Led base fresh ns since := by
  unfold renew
  cases truthy refreshToken with
  | none =>
    refine Ledger.tells_ret fun ns hns => ⟨[],hns,by simp,by rw [hns]; rfl,fun h => by cases h⟩
  | some p =>
    refine Ledger.tells_bind (tells_post hbase) fun answer => ?_
    cases hanswer : succeeded answer with
    | none =>
      exact Ledger.tells_ret fun ns hns => Led.unrenewed (by simp only [rotated,hanswer,Option.bind_none]) hns
    | some res =>
      dsimp only
      cases htoken : truthy res.token with
      | none =>
        refine Ledger.tells_ret fun ns hns => Led.unrenewed ?_ hns
        simp only [rotated,hanswer,htoken,Option.bind_some,Option.bind_none]
      | some access =>
        refine Ledger.tells_bind (tells_store (by decide)) fun _ => ?_
        cases hrefresh : truthy res.refreshToken with
        | none =>
          refine Ledger.tells_ret ?_
          rintro ns ⟨older,rfl,rfl⟩
          refine ⟨[.stored .token access,.posted p answer,.read p],rfl,by simp [Note.inner],?_,
            fun _ => ⟨access,List.mem_cons_self⟩⟩
          simp only [pending,rotated,hanswer,htoken,hrefresh,Option.bind_some]
        | some successor =>
          refine Ledger.tells_bind (tells_keep ?_) fun _ => Ledger.tells_ret ?_
          · rintro ns ⟨older,rfl,rfl⟩
            simp only [pending,rotated,hanswer,htoken,hrefresh,Option.bind_some]
          · rintro ns ⟨older,rfl,older',rfl,rfl⟩
            refine ⟨[.stored .refresh successor,.stored .token access,.posted p answer,.read p],rfl,
              by simp [Note.inner],rfl,fun _ => ⟨access,by simp⟩⟩

theorem tells_land {base : List Note} {fresh : Bool} :
    (keeping net first).Tells pid (fun ns => ∃ since, Led base fresh ns since) (perform (.land fresh))
      fun _ ns => ∃ since, ns = .landed fresh :: since ++ .entered :: base ∧
        ∀ n ∈ since, n.inner = true := by
  refine Ledger.tells_perform fun x t b hx hns _ hexec => ?_
  obtain ⟨rfl,rfl⟩ := Prod.mk.inj (Option.some.inj hexec)
  obtain ⟨since,hled⟩ := hns
  have hlead : renewing x.log = some pid := by
    rw [hx.renewing_iff,hled.notes]
    exact holding_leading hled.inner
  have hstored : fresh = true → ∃ access, (pid,.stored .token access) ∈ x.log := by
    intro hfresh
    obtain ⟨access,hin⟩ := hled.stored hfresh
    refine ⟨access,mem_notesOf.mp ?_⟩
    rw [hled.notes]
    exact List.mem_append_left _ hin
  refine ⟨trivial,hx.plain rfl ⟨hlead,hstored⟩ (fun _ _ => hled.settled) rfl (fun q ended hq => ?_) rfl
    fun _ h => h,since,congrArg (List.cons (Note.landed fresh)) hled.notes,hled.inner⟩
  by_cases he : q = pid
  · subst he
    have hq : Function.update x.state.phone.landed q (some fresh) q = some ended := hq
    rw [Function.update_self,Option.some.injEq] at hq
    rw [hq]
    exact List.mem_cons_self
  · have hq : Function.update x.state.phone.landed pid (some fresh) q = some ended := hq
    rw [Function.update_of_ne he] at hq
    exact List.mem_cons_of_mem _ (hx.landed q ended hq)

theorem tells_refreshSession {base : List Note} (hposted : ∀ p a, .posted p a ∉ base)
    (hlanded : ∀ fresh, .landed fresh ∉ base) :
    (keeping net first).Tells pid (· = base) refreshSession fun fresh ns =>
      ∃ mid, ns = mid ++ base ∧ (fresh = true → Refreshed mid) := by
  refine Ledger.tells_bind (tells_enter hlanded) fun b => ?_
  cases b with
  | some leader =>
    refine Ledger.tells_mono (fun _ h => h) ?_ (tells_follow leader)
    rintro fresh ns ⟨older,rfl,rfl⟩
    refine ⟨[.followed leader fresh,.joined leader],rfl,?_⟩
    rintro rfl
    exact .followed leader
  | none =>
    refine Ledger.tells_bind tells_arm fun refreshToken => ?_
    refine Ledger.tells_bind (tells_renew hposted) fun fresh => ?_
    refine Ledger.tells_bind tells_land fun _ => Ledger.tells_ret ?_
    rintro ns ⟨since,rfl,hinner⟩
    refine ⟨.landed fresh :: since ++ [.entered],by simp,?_⟩
    rintro rfl
    exact .led since hinner

theorem holding_refreshed {mid : List Note} {url : Text} {answer : Option Received}
    (h : Refreshed mid) : holding Note.turn (mid ++ [.asked url answer]) = false := by
  cases h with
  | led body hbody => rfl
  | followed leader => rfl

theorem tells_attempt {url : Text} {header : Option String}
    (hJ : ∀ ns, J ns → Again url ns ∧ holding Note.turn ns = false) :
    (keeping net first).Tells pid J (attempt url header) fun b ns =>
      ∃ older, ns = .asked url b.2 :: older ∧ J older := by
  refine Ledger.tells_bind (tells_silent nofun) fun token => ?_
  exact Ledger.tells_bind (tells_ask hJ) fun answer => Ledger.tells_ret fun _ h => h

theorem carried_unauthorized {answer : Option Received} (h : unauthorized answer = true) :
    carried answer = none := by
  cases answer with
  | none => cases h
  | some res =>
    have hstatus : res.status = 401 := by simpa [unauthorized] using h
    simp [carried,succeeded,Option.filter,hstatus]

theorem tells_request (url : Text) :
    (keeping net first).Tells pid (· = []) (request url) fun answer ns =>
      ∀ r, carried answer = some r → pending ns = some r := by
  refine Ledger.tells_bind (tells_attempt ?_) fun b => ?_
  · rintro ns rfl
    exact ⟨.inl rfl,rfl⟩
  obtain ⟨header,answer⟩ := b
  dsimp only
  have hfirst : ∀ ns, (∃ older, ns = Note.asked url answer :: older ∧ older = []) →
      ns = [Note.asked url answer] := by
    rintro ns ⟨older,rfl,rfl⟩
    rfl
  refine Ledger.tells_ite (fun hretry => ?_) fun _ => Ledger.tells_ret fun ns hns r hr => ?_
  · rw [Bool.and_eq_true,Bool.not_eq_true'] at hretry
    refine Ledger.tells_mono hfirst (fun _ _ h => h) ?_
    refine Ledger.tells_bind (tells_refreshSession (by simp) (by simp)) fun fresh => ?_
    refine Ledger.tells_ite (fun hfresh => ?_) fun _ => Ledger.tells_ret fun ns _ r hr => ?_
    · refine Ledger.tells_bind (tells_silent nofun) fun token => ?_
      refine Ledger.tells_bind (tells_attempt ?_) fun b => Ledger.tells_ret ?_
      · rintro ns ⟨mid,rfl,hmid⟩
        exact ⟨.inr ⟨answer,mid,rfl,hretry.1,hretry.2,hmid hfresh⟩,holding_refreshed (hmid hfresh)⟩
      · rintro ns ⟨older,rfl,-⟩ r hr
        exact hr
    · rw [carried_unauthorized hretry.1] at hr
      cases hr
  · rw [hfirst ns hns]
    exact hr

theorem tells_any {p : Routine α} {Q : α → List Note → Prop}
    (h : (keeping net first).Tells pid J p Q) : (keeping net first).Tells pid J p fun _ _ => True :=
  Ledger.tells_mono (fun _ h => h) (fun _ _ _ => trivial) h

theorem tells_login :
    (keeping net first).Tells pid (· = []) login fun _ _ => True := by
  refine Ledger.tells_bind (tells_request authLogin) fun answer => ?_
  cases hanswer : succeeded answer with
  | none => exact Ledger.tells_ret fun _ _ => trivial
  | some res =>
    dsimp only
    cases res.token with
    | none => exact Ledger.tells_ret fun _ _ => trivial
    | some access =>
      refine Ledger.tells_bind (tells_store (by decide)) fun _ => ?_
      have hkeep : (keeping net first).Tells pid (fun ns => ∃ older, ns = .stored .token access :: older ∧
          ∀ r, carried answer = some r → pending older = some r) (keepRefresh res.refreshToken)
          fun _ _ => True := by
        unfold keepRefresh
        cases hrefresh : truthy res.refreshToken with
        | none => exact Ledger.tells_ret fun _ _ => trivial
        | some refresh =>
          refine tells_any (tells_keep ?_)
          rintro ns ⟨older,rfl,hpending⟩
          exact hpending refresh (by simp only [carried,hanswer,Option.bind_some,hrefresh])
      refine Ledger.tells_bind hkeep fun _ => ?_
      refine Ledger.tells_bind (tells_any (tells_store (by decide))) fun _ => ?_
      exact Ledger.tells_bind (tells_silent trivial) fun _ => Ledger.tells_ret fun _ _ => trivial

theorem tells_hydrate :
    (keeping net first).Tells pid (· = []) hydrate fun _ _ => True := by
  refine Ledger.tells_bind (tells_silent nofun) fun token => ?_
  refine Ledger.tells_bind (tells_silent nofun) fun userJson => ?_
  cases truthy token with
  | none => exact tells_any (tells_silent trivial)
  | some token =>
    cases truthy userJson with
    | none => exact tells_any (tells_silent trivial)
    | some user =>
      refine Ledger.tells_bind (tells_request authMe) fun answer => ?_
      cases succeeded answer with
      | some freshUser =>
        refine Ledger.tells_bind (tells_any (tells_store (by decide))) fun _ => ?_
        refine Ledger.tells_bind (tells_silent trivial) fun _ => ?_
        exact tells_silent trivial
      | none =>
        refine Ledger.tells_bind (tells_any (tells_silent trivial)) fun _ => ?_
        refine Ledger.tells_bind (tells_silent trivial) fun _ => ?_
        refine Ledger.tells_bind (tells_silent trivial) fun _ => ?_
        refine Ledger.tells_bind (tells_silent trivial) fun _ => ?_
        exact tells_silent trivial

theorem tells_logout :
    (keeping net first).Tells pid (· = []) logout fun _ _ => True := by
  refine Ledger.tells_bind (tells_any (tells_request authLogout)) fun _ => ?_
  refine Ledger.tells_bind (tells_silent trivial) fun _ => ?_
  refine Ledger.tells_bind (tells_silent trivial) fun _ => ?_
  refine Ledger.tells_bind (tells_silent trivial) fun _ => ?_
  exact tells_silent trivial

theorem tells_call (c : Call) :
    (keeping net first).Tells pid (· = []) (call c) fun _ _ => True := by
  cases c with
  | api url => exact Ledger.tells_bind (tells_request url) fun _ => Ledger.tells_ret fun _ _ => trivial
  | login => exact Ledger.tells_bind tells_login fun _ => Ledger.tells_ret fun _ _ => trivial
  | logout => exact Ledger.tells_bind tells_logout fun _ => Ledger.tells_ret fun _ _ => trivial
  | hydrate => exact Ledger.tells_bind tells_hydrate fun _ => Ledger.tells_ret fun _ _ => trivial

end Steps

abbrev noted (net : Nat → Option Received) : System := (app net).observe note

section Runs

-- the app starts with no renewal in flight
structure Started (s : Online) : Prop where
  flight : s.phone.flight = none
  landed : ∀ q, s.phone.landed q = none

variable {net : Nat → Option Received} {s : Online} {es : List (Event (noted net))}
  {v : World (noted net)}

theorem kept_started (h0 : Started s) : Kept net (s.phone.store .refresh) ⟨s,[]⟩ := by
  have hseen : ∀ r, Seen r (⟨s,[]⟩ : Traced Online Note) → s.phone.store .refresh = some r := by
    rintro r (hr | ⟨q,hq⟩ | ⟨q,a,hq⟩)
    · exact hr
    · cases hq
    · cases hq
  refine ⟨h0.flight,fun q fresh hq => ?_,trivial,fun _ => ⟨⟨fun r hr => .inl (hseen r hr),?_,?_,?_⟩,
    ⟨?_,?_⟩⟩⟩
  · rw [h0.landed] at hq
    cases hq
  · rintro pid r ⟨⟩
  · rintro pid r ⟨⟩
  · rintro pid q r ⟨⟩
  · rintro p - ⟨q,a,hq,-⟩
    cases hq
  · rintro pid p ⟨⟩

theorem kept_run (h0 : Started s) (hv : (begun s).run es = some v) :
    Kept net (s.phone.store .refresh) v.state := by
  refine (Ledger.told (L := keeping net (s.phone.store .refresh)) (R := fun _ _ _ _ => True)
    (fun pid c _ => tells_call c) (fun e => e.elim) (kept_started h0) ?_ hv).1
  exact along_unrestricted _ _

variable {newer mid older : Log} {pid q : Nat} {p p' : String} {a a' : Option Received}

theorem renewals_apart (h0 : Started s) (hv : (begun s).run es = some v)
    (hlog : v.state.log = newer ++ (q,.posted p' a') :: mid ++ (pid,.posted p a) :: older) :
    ∃ fresh, (pid,.landed fresh) ∈ mid := by
  have hkept := kept_run h0 hv
  exact posts_apart (hlog ▸ hkept.justified)

theorem spent_unpresented (h0 : Started s) (hfresh : Fresh net (s.phone.store .refresh))
    (hv : (begun s).run es = some v)
    (hlog : v.state.log = newer ++ (q,.posted p' a') :: mid ++ (pid,.posted p a) :: older)
    (ha : (rotated a).isSome = true) : p' ≠ p := by
  have hkept := kept_run h0 hv
  exact posts_differ hfresh (hlog ▸ hkept.justified) ha

variable {url url' : Text}

theorem retried_once (h0 : Started s) (hv : (begun s).run es = some v)
    (hlog : v.state.log = newer ++ (pid,.asked url' a') :: mid ++ (pid,.asked url a) :: older) :
    url' = url ∧ unauthorized a = true ∧ isAuthPath url = false ∧ (∀ n, (pid,n) ∉ older) ∧
      ∃ later leader earlier access, mid = later ++ (leader,.landed true) :: earlier ∧
        (leader,.stored .token access) ∈ earlier ++ (pid,.asked url a) :: older := by
  have hkept := kept_run h0 hv
  have hjust := hkept.justified
  rw [hlog,List.append_assoc] at hjust
  obtain ⟨hagain,hmid⟩ := hjust.at
  exact asked_again hagain hmid

end Runs

section Sample

def renewedAgain : Option Received := some ⟨200,some "access-3",some "refresh-3",""⟩

def renewedTwice : Nat → Option Received
  | 0 | 1 | 5 => expired
  | 2 => renewed
  | 6 => renewedAgain
  | _ => done

def projects : Text := "/server-hub/api/projects".toList

def threeCalls : List (Event (noted renewedTwice)) :=
  [.start 0 (.api projects),.start 1 (.api projects)] ++ List.replicate 2 (.act 0) ++
    List.replicate 2 (.act 1) ++ [.act 0,.act 1] ++ List.replicate 8 (.act 0) ++
    List.replicate 4 (.act 1) ++ .start 2 (.api projects) :: List.replicate 11 (.act 2)

def secondRenewal : Log :=
  [(2,.asked projects done),(2,.landed true),(2,.stored .refresh "refresh-3"),
    (2,.stored .token "access-3")]

def between : Log :=
  [(2,.read "refresh-2"),(2,.entered),(2,.asked projects expired),(1,.asked projects done),
    (1,.followed 0 true),(0,.asked projects done),(0,.landed true),(0,.stored .refresh "refresh-2"),
    (0,.stored .token "access-2")]

def firstRenewal : Log :=
  [(0,.read "refresh-1"),(1,.joined 0),(0,.entered),(1,.asked projects expired),
    (0,.asked projects expired)]

theorem threeCalls_run : ∃ v : World (noted renewedTwice),
    (begun signedInPhone).run threeCalls = some v ∧ v.state.log = secondRenewal ++
      (2,.posted "refresh-2" renewedAgain) :: between ++ (0,.posted "refresh-1" renewed) :: firstRenewal := by
  have hlog : ((begun signedInPhone).run threeCalls).map (fun v : World (noted renewedTwice) =>
      v.state.log) = some (secondRenewal ++ (2,.posted "refresh-2" renewedAgain) :: between ++
        (0,.posted "refresh-1" renewed) :: firstRenewal) := by
    decide +kernel
  exact Option.map_eq_some_iff.mp hlog

theorem started_signedIn : Started signedInPhone := ⟨rfl,fun _ => rfl⟩

theorem renewed_fresh : Fresh renewedTwice (signedInPhone.phone.store .refresh) := by
  have hcarried : ∀ i r, carried (renewedTwice i) = some r →
      i = 2 ∧ "refresh-2" = r ∨ i = 6 ∧ "refresh-3" = r := by
    intro i r hr
    match i with
    | 0 | 1 | 3 | 4 | 5 => exact nomatch hr
    | 2 => exact .inl ⟨rfl,Option.some.inj hr⟩
    | 6 => exact .inr ⟨rfl,Option.some.inj hr⟩
    | n + 7 => exact nomatch hr
  refine ⟨fun i j r hi hj => ?_,fun i r hi => ?_⟩
  · rcases hcarried i r hi with ⟨rfl,rfl⟩ | ⟨rfl,rfl⟩
    · rcases hcarried j _ hj with ⟨rfl,-⟩ | ⟨-,h⟩
      · rfl
      · exact absurd h (by decide)
    · rcases hcarried j _ hj with ⟨-,h⟩ | ⟨rfl,-⟩
      · exact absurd h (by decide)
      · rfl
  · rcases hcarried i r hi with ⟨-,rfl⟩ | ⟨-,rfl⟩ <;> decide

theorem second_renewal_waits : ∃ fresh, (0,.landed fresh) ∈ between := by
  obtain ⟨v,hv,hlog⟩ := threeCalls_run
  exact renewals_apart started_signedIn hv hlog

theorem successor_presented : ∃ v : World (noted renewedTwice),
    (begun signedInPhone).run threeCalls = some v ∧ "refresh-2" ≠ "refresh-1" := by
  obtain ⟨v,hv,hlog⟩ := threeCalls_run
  exact ⟨v,hv,spent_unpresented started_signedIn renewed_fresh hv hlog rfl⟩

def untilFollowed : Log :=
  [(1,.followed 0 true),(0,.asked projects done),(0,.landed true),(0,.stored .refresh "refresh-2"),
    (0,.stored .token "access-2"),(0,.posted "refresh-1" renewed),(0,.read "refresh-1"),(1,.joined 0),
    (0,.entered)]

def sinceRetried : Log :=
  secondRenewal ++ [(2,.posted "refresh-2" renewedAgain),(2,.read "refresh-2"),(2,.entered),
    (2,.asked projects expired)]

theorem follower_retried : unauthorized expired = true ∧ isAuthPath projects = false ∧
    ∃ later leader earlier, untilFollowed = later ++ (leader,.landed true) :: earlier := by
  obtain ⟨v,hv,hlog⟩ := threeCalls_run
  have hfollower : v.state.log = sinceRetried ++ (1,.asked projects done) :: untilFollowed ++
      (1,.asked projects expired) :: [(0,.asked projects expired)] := hlog
  obtain ⟨-,hexpired,hpath,-,later,leader,earlier,-,hmid,-⟩ :=
    retried_once started_signedIn hv hfollower
  exact ⟨hexpired,hpath,later,leader,earlier,hmid⟩

end Sample

end Mobile.Renewals
