import Mathlib.Data.List.Forall2
import ServerHub.Events.Broker

namespace Events

open Interleave Interleave.Prog

variable {δ : Type} {marshal : Event δ → Option Text}

def fanning (marshal : Event δ → Option Text) : Ledger (broker marshal) note where
  Inv x := Steady x
  Allow _ _ _ _ := True
  Duty _ _ _ _ := True

def Outcome (ev : Event δ) (s : Nat) (n : Note δ) : Prop := n = .sent s ev ∨ n = .dropped s ev

def shown (marshal : Event δ → Option Text) (ev : Event δ) : List (Note δ) :=
  ((marshal ev).map fun payload => Note.wrote (frame ev payload)).toList

-- what the rounds of a stream leave, the oldest first
inductive Streamed (marshal : Event δ → Option Text) (s : Nat) : List Round → List (Note δ) → Prop
  | nil : Streamed marshal s [] []
  | heartbeat {rounds : List Round} {ns : List (Note δ)} : Streamed marshal s rounds ns →
      Streamed marshal s (.heartbeat :: rounds) (.wrote ping :: ns)
  | event {rounds : List Round} {ns : List (Note δ)} (ev : Event δ) : Streamed marshal s rounds ns →
      Streamed marshal s (.event :: rounds) (.received s ev :: (shown marshal ev ++ ns))

def Told (marshal : Event δ → Option Text) : Request δ → Reply → List (Note δ) → Prop
  | .publish eventType data, .published, ns => ∃ timestamp keys outcomes,
      List.Forall₂ (Outcome ⟨eventType,data,timestamp⟩) keys outcomes ∧
      ns = .exited :: (outcomes.reverse ++ [.entered keys])
  | .stream true rounds, .finished, ns => ∃ s seen, Streamed marshal s rounds seen ∧
      ns = .left s :: (seen.reverse ++ [.joined s,.wrote connected])
  | .stream false _, .unsupported, ns => ns = []
  | _, _, _ => False

section Steps

variable {pid s : Nat} {ev : Event δ} {keys : List Nat} {base : List (Note δ)}

theorem publishing_notes {log : Log δ} :
    Publishing pid log keys ↔ (notesOf pid log).find? Note.locks = some (.entered keys) := by
  rw [Publishing,lastOwn_notesOf]

theorem Steady.reached {x : Traced (State δ) (Note δ)} (h : Steady x) (hp : Publishing pid x.log keys)
    (hs : s ∈ keys) : (x.state.subs s).closed = false ∧ s < x.state.next := by
  have hin : s ∈ x.state.registered := (h.publishing pid keys hp).2.mem_iff.mp hs
  obtain ⟨hjoined,hopen⟩ := (h.member s).mp hin
  refine ⟨?_,h.fresh s hjoined⟩
  rw [Bool.eq_false_iff]
  exact fun hc => hopen ((h.closed s).mp hc)

theorem tells_silent {β : Type} {i : Instr δ β} {J : List (Note δ) → Prop} {R : β → List (Note δ) → Prop}
    (hi : ∀ x y b, exec pid i x = some (y,b) → y = x ∧ note β i x b = none)
    (h : ∀ (x : Traced (State δ) (Note δ)) b, Steady x → J (notesOf pid x.log) →
      exec pid i x.state = some (x.state,b) → R b (notesOf pid x.log)) :
    (fanning marshal).Tells pid J (perform i) R := by
  refine Ledger.tells_perform fun x t b hx hJ _ hexec => ?_
  obtain ⟨rfl,hn⟩ := hi _ _ _ hexec
  rw [hn]
  exact ⟨trivial,hx,h x b hx hJ hexec⟩

theorem tells_write {J : List (Note δ) → Prop} (text : Text) {R : List (Note δ) → Prop}
    (hR : ∀ ns, J ns → R (.wrote text :: ns)) :
    (fanning marshal).Tells pid J (perform (.write text)) fun _ => R := by
  refine Ledger.tells_perform fun x t b hx hJ _ hexec => ?_
  obtain ⟨rfl,-⟩ := Prod.mk.inj (Option.some.inj hexec)
  exact ⟨trivial,hx.wrote text,hR _ hJ⟩

theorem send_open {x : State δ} (ev : Event δ) (hopen : (x.subs s).closed = false) : x.send s ev =
    if (x.subs s).buffer.length < capacity then
      (x.set s { x.subs s with buffer := (x.subs s).buffer ++ [ev] },true)
    else (x,false) := by
  simp [State.send,hopen]

theorem receive_head {x : State δ} {rest : List (Event δ)} (h : (x.subs s).buffer = ev :: rest) :
    x.receive s = some (x.set s { x.subs s with buffer := rest },some ev) := by
  unfold State.receive
  rw [h]

theorem receive_empty {x : State δ} (h : (x.subs s).buffer = []) (hopen : (x.subs s).closed = false) :
    x.receive s = none := by
  unfold State.receive
  rw [h]
  exact if_neg (by simp [hopen])

theorem tells_send (hs : s ∈ keys) (hbase : base.find? Note.locks = some (.entered keys)) :
    (fanning marshal).Tells pid (· = base) (perform (.send s ev)) fun _ ns =>
      ∃ n, Outcome ev s n ∧ ns = n :: base := by
  refine Ledger.tells_perform fun x t b hx hJ _ hexec => ?_
  obtain ⟨hopen,hold⟩ := Steady.reached hx (publishing_notes.mpr (hJ ▸ hbase)) hs
  have hsend : x.state.send s ev = (t,b) := Option.some.inj hexec
  rw [send_open ev hopen] at hsend
  split at hsend
  · rename_i hroom
    obtain ⟨rfl,rfl⟩ := Prod.mk.inj hsend
    exact ⟨trivial,Steady.sent hx hold ev hroom,.sent s ev,.inl rfl,congrArg (List.cons _) hJ⟩
  · rename_i hfull
    obtain ⟨rfl,rfl⟩ := Prod.mk.inj hsend
    exact ⟨trivial,Steady.dropped hx ev hfull,.dropped s ev,.inr rfl,congrArg (List.cons _) hJ⟩

theorem tells_publishTo (hs : s ∈ keys) (hbase : base.find? Note.locks = some (.entered keys)) :
    (fanning marshal).Tells pid (· = base) (publishTo ev s) fun _ ns =>
      ∃ n, Outcome ev s n ∧ ns = n :: base := by
  refine Ledger.tells_bind (Q := fun closed ns => ns = base ∧ closed = false)
    (tells_silent (fun _ _ _ h => ?_) fun x b hx hJ hexec => ⟨hJ,?_⟩) fun closed => ?_
  · obtain ⟨rfl,-⟩ := Prod.mk.inj (Option.some.inj h)
    exact ⟨rfl,rfl⟩
  · rw [← (Prod.mk.inj (Option.some.inj hexec)).2]
    exact (hx.reached (publishing_notes.mpr (hJ ▸ hbase)) hs).1
  refine Ledger.tells_given fun hopen => ?_
  rw [if_neg (by simp [hopen])]
  refine Ledger.tells_bind (tells_send hs hbase) fun sent => ?_
  split
  · exact Ledger.tells_ret fun _ h => h
  refine Ledger.tells_bind (Q := fun _ ns => ∃ n, Outcome ev s n ∧ ns = n :: base)
    (tells_silent (fun _ _ _ h => ?_) fun x b _ hJ _ => hJ) fun n => ?_
  · obtain ⟨rfl,-⟩ := Prod.mk.inj (Option.some.inj h)
    exact ⟨rfl,rfl⟩
  refine Ledger.tells_perform fun x t b hx hJ _ hexec => ?_
  obtain ⟨rfl,-⟩ := Prod.mk.inj (Option.some.inj hexec)
  exact ⟨trivial,Steady.count hx s (n + 1),hJ⟩

theorem outcomes_unlocked {done : List Nat} {outcomes : List (Note δ)}
    (h : List.Forall₂ (Outcome ev) done outcomes) : ∀ n ∈ outcomes, n.locks = false := by
  induction h with
  | nil => simp
  | cons hn _ ih =>
    refine List.forall_mem_cons.mpr ⟨?_,ih⟩
    rcases hn with rfl | rfl <;> rfl

theorem tells_fan (keys : List Nat) : (fanning marshal).Tells pid (· = [.entered keys])
    (each (publishTo ev) keys) fun _ ns => ∃ outcomes, List.Forall₂ (Outcome ev) keys outcomes ∧
      ns = outcomes.reverse ++ [.entered keys] := by
  let K : List Nat → List (Note δ) → Prop := fun rest ns => ∃ done outcomes, keys = done ++ rest ∧
    List.Forall₂ (Outcome ev) done outcomes ∧ ns = outcomes.reverse ++ [.entered keys]
  have hstep : ∀ s rest, (fanning marshal).Tells pid (K (s :: rest)) (publishTo ev s) fun _ => K rest := by
    rintro s rest x hx ⟨done,outcomes,hkeys,hall,hns⟩
    have hfind : (outcomes.reverse ++ [Note.entered keys]).find? Note.locks = some (.entered keys) := by
      rw [List.find?_append,List.find?_eq_none.mpr]
      · rfl
      · exact fun n hn => by simp [outcomes_unlocked hall n (List.mem_reverse.mp hn)]
    refine Ledger.tells_mono (fun _ h => h) ?_ (tells_publishTo (by simp [hkeys]) hfind) x hx hns
    rintro _ ns ⟨n,hn,rfl⟩
    refine ⟨done ++ [s],outcomes ++ [n],by simp [hkeys],?_,by simp⟩
    exact List.rel_append hall (.cons hn .nil)
  refine Ledger.tells_mono (J := K keys) ?_ ?_ (Ledger.tells_each hstep)
  · exact fun ns hns => ⟨[],[],rfl,.nil,hns⟩
  · rintro _ ns ⟨done,outcomes,hkeys,hall,hns⟩
    rw [List.append_nil] at hkeys
    exact ⟨outcomes,hkeys ▸ hall,hns⟩

theorem tells_publish {eventType : Text} {data : δ} : (fanning marshal).Tells pid (· = [])
    (publish eventType data) (Told marshal (.publish eventType data)) := by
  refine Ledger.tells_bind (Q := fun _ => (· = [])) (tells_silent (fun _ _ _ h => ?_)
    fun x b _ hJ _ => hJ) fun now => ?_
  · obtain ⟨rfl,-⟩ := Prod.mk.inj (Option.some.inj h)
    exact ⟨rfl,rfl⟩
  refine Ledger.tells_bind (Q := fun keys ns => ns = [.entered keys])
    (Ledger.tells_perform fun x t b hx hJ _ hexec => ?_) fun keys => ?_
  · obtain ⟨rfl,rfl⟩ := Prod.mk.inj (Option.some.inj hexec)
    exact ⟨trivial,Steady.enter hx,congrArg (List.cons _) hJ⟩
  refine Ledger.tells_bind (tells_fan keys) fun _ => ?_
  refine Ledger.tells_bind (Q := fun _ => Told marshal (.publish eventType data) .published)
    (Ledger.tells_perform fun x t b hx hJ _ hexec => ?_) fun _ => Ledger.tells_ret fun _ h => h
  obtain ⟨rfl,-⟩ := Prod.mk.inj (Option.some.inj hexec)
  obtain ⟨outcomes,hall,hns⟩ := hJ
  exact ⟨trivial,Steady.exit hx,now,keys,outcomes,hall,congrArg (List.cons _) hns⟩

theorem Steady.unleft_own {x : Traced (State δ) (Note δ)} (h : Steady x)
    (hjoined : .joined s ∈ notesOf pid x.log) (hleft : .left s ∉ notesOf pid x.log) :
    ¬ Left s x.log := by
  rintro ⟨q,hq⟩
  obtain rfl := h.owner q pid s (h.leaver q s hq) (mem_notesOf.mp hjoined)
  exact hleft (mem_notesOf.mpr hq)

def Received (s : Nat) (base : List (Note δ)) : Option (Event δ) → List (Note δ) → Prop
  | none, _ => False
  | some ev, ns => ns = .received s ev :: base

theorem tells_receive (hjoined : .joined s ∈ base) (hleft : .left s ∉ base) :
    (fanning marshal).Tells pid (· = base) (perform (.receive s)) (Received s base) := by
  refine Ledger.tells_perform fun x t b hx hJ _ hexec => ?_
  have hreceive : x.state.receive s = some (t,b) := hexec
  have hown : .joined s ∈ notesOf pid x.log := hJ ▸ hjoined
  have hopen := Steady.unleft_own hx hown (hJ ▸ hleft)
  cases hbuffer : (x.state.subs s).buffer with
  | nil =>
    have hclosed : (x.state.subs s).closed = false := by
      rw [Bool.eq_false_iff]
      exact fun hc => hopen ((Steady.closed hx s).mp hc)
    rw [receive_empty hbuffer hclosed] at hreceive
    cases hreceive
  | cons ev rest =>
    rw [receive_head hbuffer] at hreceive
    obtain ⟨rfl,rfl⟩ := Prod.mk.inj (Option.some.inj hreceive)
    exact ⟨trivial,Steady.received hx (mem_notesOf.mp (hJ ▸ hjoined)) hbuffer,congrArg (List.cons _) hJ⟩

theorem tells_deliver (base : List (Note δ)) (ev : Event δ) : (fanning marshal).Tells pid (· = base) (deliver marshal ev)
    fun _ ns => ns = (shown marshal ev).reverse ++ base := by
  unfold deliver shown
  cases marshal ev with
  | none => exact Ledger.tells_ret fun _ h => h
  | some payload => exact tells_write _ fun ns hns => congrArg (List.cons _) hns

theorem shown_unleft (ev : Event δ) : .left s ∉ shown marshal ev := by
  unfold shown
  cases marshal ev <;> simp

theorem tells_serve {rounds : List Round} (hjoined : .joined s ∈ base) (hleft : .left s ∉ base) :
    (fanning marshal).Tells pid (· = base) (serve marshal s rounds) fun _ ns => ∃ seen,
      Streamed marshal s rounds seen ∧ .left s ∉ seen ∧ ns = seen.reverse ++ base := by
  induction rounds generalizing base with
  | nil => exact Ledger.tells_ret fun ns hns => ⟨[],.nil,by simp,hns⟩
  | cons round rounds ih =>
    cases round with
    | heartbeat =>
      refine Ledger.tells_bind (Q := fun _ ns => ns = .wrote ping :: base)
        (tells_write ping fun ns hns => congrArg (List.cons _) hns) fun _ => ?_
      refine Ledger.tells_mono (fun _ h => h) ?_ (ih (List.mem_cons_of_mem _ hjoined) (by simpa using hleft))
      rintro _ ns ⟨seen,hseen,hnone,rfl⟩
      exact ⟨.wrote ping :: seen,.heartbeat hseen,by simpa using hnone,by simp⟩
    | event =>
      refine Ledger.tells_bind (tells_receive hjoined hleft) fun received => ?_
      cases received with
      | none => exact fun _ _ h => h.elim
      | some ev =>
        refine Ledger.tells_bind (tells_deliver (.received s ev :: base) ev) fun _ => ?_
        have hstill : .joined s ∈ (shown marshal ev).reverse ++ .received s ev :: base := by
          simp [hjoined]
        refine Ledger.tells_mono (fun _ h => h) ?_ (ih hstill (by simp [hleft,shown_unleft]))
        rintro _ ns ⟨seen,hseen,hnone,rfl⟩
        refine ⟨.received s ev :: (shown marshal ev ++ seen),.event ev hseen,?_,by simp⟩
        simp [hnone,shown_unleft]

theorem tells_stream {flusher : Bool} {rounds : List Round} : (fanning marshal).Tells pid (· = [])
    (stream marshal flusher rounds) (Told marshal (.stream flusher rounds)) := by
  cases flusher with
  | false => exact Ledger.tells_ret fun _ h => h
  | true =>
    refine Ledger.tells_bind (Q := fun _ ns => ns = [.wrote connected])
      (tells_write (J := (· = [])) (R := (· = [.wrote connected])) connected fun ns hns => congrArg (List.cons _) hns) fun _ => ?_
    refine Ledger.tells_bind (Q := fun s ns => ns = [.joined s,.wrote connected])
      (Ledger.tells_perform fun x t b hx hJ _ hexec => ?_) fun s => ?_
    · have hsubscribe : (if x.state.readers = [] then some (x.state.subscribe,x.state.next) else none) =
        some (t,b) := hexec
      split at hsubscribe
      · rename_i hreaders
        obtain ⟨rfl,rfl⟩ := Prod.mk.inj (Option.some.inj hsubscribe)
        exact ⟨trivial,Steady.subscribe hx hreaders,congrArg (List.cons _) hJ⟩
      · cases hsubscribe
    refine Ledger.tells_bind (tells_serve (by simp) (by simp)) fun _ => ?_
    refine Ledger.tells_bind (Q := fun _ => Told marshal (.stream true rounds) .finished)
      (Ledger.tells_perform fun x t b hx hJ _ hexec => ?_) fun _ => Ledger.tells_ret fun _ h => h
    obtain ⟨seen,hseen,hnone,hns⟩ := hJ
    have hunsubscribe : (if x.state.readers = [] then some (x.state.unsubscribe s,()) else none) =
      some (t,b) := hexec
    split at hunsubscribe
    · rename_i hreaders
      obtain ⟨rfl,-⟩ := Prod.mk.inj (Option.some.inj hunsubscribe)
      have hjoined : .joined s ∈ notesOf pid x.log := by simp [hns]
      have hopen := Steady.unleft_own hx hjoined (by simp [hns,hnone])
      refine ⟨trivial,Steady.unsubscribe hx hreaders (mem_notesOf.mp hjoined) hopen,s,seen,hseen,?_⟩
      exact congrArg (List.cons _) hns
    · cases hunsubscribe

theorem tells_handle (r : Request δ) :
    (fanning marshal).Tells pid (· = []) (handle marshal r) (Told marshal r) := by
  cases r with
  | publish eventType data => exact tells_publish
  | stream flusher rounds => exact tells_stream

end Steps

abbrev traced (marshal : Event δ → Option Text) : System := (broker marshal).observe note

def Note.text : Note δ → Option Text
  | .wrote text => some text
  | _ => none

def written (pid : Nat) (log : Log δ) : List Text := (notesOf pid log).reverse.filterMap Note.text

def texts (marshal : Event δ → Option Text) : List Round → List (Event δ) → List Text
  | [], _ => []
  | .heartbeat :: rounds, evs => ping :: texts marshal rounds evs
  | .event :: _, [] => []
  | .event :: rounds, ev :: evs => ((marshal ev).map (frame ev)).toList ++ texts marshal rounds evs

section Runs

variable {clock : Text} {es : List (Interleave.Event (traced marshal))} {v : World (traced marshal)}
  {pid s : Nat}

theorem steady_run (hv : (begun (State.empty clock)).run es = some v) : Steady v.state ∧
    ∀ pid r a, .start pid r ∈ es → v.pool pid = some (.ret a) → Told marshal r a (notesOf pid v.state.log) := by
  refine Ledger.told (L := fanning marshal) (R := fun _ r => Told marshal r)
    (fun pid r _ => tells_handle r) ?_ (steady_empty clock) ?_ hv
  · intro e x y hx he
    obtain ⟨hstate,hlog⟩ := env_observe he
    obtain ⟨state,log⟩ := y
    obtain rfl : log = x.log := hlog
    cases e with
    | tick now =>
      obtain rfl : { x.state with clock := now } = state := Option.some.inj hstate
      exact Steady.tick hx now
    | order keys =>
      have horder : (if keys.Perm x.state.registered then
        some { x.state with registered := keys } else none) = some state := hstate
      split at horder
      · rename_i hperm
        obtain rfl := Option.some.inj horder
        exact Steady.reordered hx hperm
      · cases horder
  · exact along_of_mem (fun e _ w => by cases e <;> simp [Landing,fanning]) _

theorem broker_safe (hv : (begun (State.empty clock)).run es = some v) :
    v.state.state.panicked = false ∧
    (∀ s, sentTo s v.state.log = receivedBy s v.state.log ++ (v.state.state.subs s).buffer) ∧
    (∀ newer pid s ev older, v.state.log = newer ++ (pid,.dropped s ev) :: older →
      ∃ unread, sentTo s older = receivedBy s older ++ unread ∧ unread.length = capacity) ∧
    ∀ newer pid n older, v.state.log = newer ++ (pid,n) :: older → n.membership = true →
      ∀ q keys, ¬ Publishing q older keys := by
  have hx := (steady_run hv).1
  refine ⟨hx.calm,hx.fifo,fun newer pid s ev older hlog => ((hlog ▸ hx.sound).at).1,?_⟩
  intro newer pid n older hlog hn
  have hj := ((hlog ▸ hx.sound).at).1
  cases n with
  | joined s => exact hj
  | left s => exact hj
  | _ => cases hn

theorem publish_reaches (hv : (begun (State.empty clock)).run es = some v) {eventType : Text} {data : δ}
    (hr : .start pid (.publish eventType data) ∈ es) (ha : v.answer pid = some .published) :
    ∃ timestamp keys outcomes newer older,
      List.Forall₂ (Outcome ⟨eventType,data,timestamp⟩) keys outcomes ∧
      notesOf pid v.state.log = .exited :: (outcomes.reverse ++ [.entered keys]) ∧
      v.state.log = newer ++ (pid,.entered keys) :: older ∧ keys.Nodup ∧
      ∀ s, s ∈ keys ↔ Joined s older ∧ ¬ Left s older := by
  obtain ⟨hx,htold⟩ := steady_run hv
  obtain ⟨timestamp,keys,outcomes,hall,hnotes⟩ := htold pid _ _ hr (World.answer_eq.mp ha)
  have hentered : (pid,.entered keys) ∈ v.state.log := mem_notesOf.mp (by simp [hnotes])
  obtain ⟨newer,older,hlog⟩ := List.append_of_mem hentered
  obtain ⟨⟨hnodup,hkeys⟩,-⟩ := (hlog ▸ hx.sound).at
  exact ⟨timestamp,keys,outcomes,newer,older,hall,hnotes,hlog,hnodup,hkeys⟩

theorem streamed_texts {rounds : List Round} {seen : List (Note δ)} (h : Streamed marshal s rounds seen) :
    seen.filterMap Note.text = texts marshal rounds (seen.filterMap (Note.receivedBy s)) ∧
      (seen.filterMap (Note.receivedBy s)).length = rounds.count .event := by
  induction h with
  | nil => exact ⟨rfl,rfl⟩
  | heartbeat _ ih => exact ⟨congrArg (List.cons ping) ih.1,ih.2⟩
  | @event rounds ns ev _ ih =>
    have htexts : (shown marshal ev).filterMap Note.text = ((marshal ev).map (frame ev)).toList := by
      unfold shown
      cases marshal ev <;> rfl
    have hreceived : (shown marshal ev).filterMap (Note.receivedBy s) = [] := by
      unfold shown
      cases marshal ev <;> rfl
    have hseen : (Note.received s ev :: (shown marshal ev ++ ns)).filterMap (Note.receivedBy s) =
        ev :: ns.filterMap (Note.receivedBy s) := by
      simp [Note.receivedBy,hreceived]
    rw [hseen]
    refine ⟨?_,?_⟩
    · rw [texts,← ih.1,← htexts,← List.filterMap_append]
      rfl
    · rw [List.length_cons,ih.2,List.count_cons_self]

theorem stream_prefix (hv : (begun (State.empty clock)).run es = some v) {rounds : List Round}
    (hr : .start pid (.stream true rounds) ∈ es) (ha : v.answer pid = some .finished) :
    ∃ s evs, (pid,.joined s) ∈ v.state.log ∧ (pid,.left s) ∈ v.state.log ∧
      evs.length = rounds.count .event ∧ evs <+: sentTo s v.state.log ∧
      written pid v.state.log = connected :: texts marshal rounds evs := by
  obtain ⟨hx,htold⟩ := steady_run hv
  obtain ⟨s,seen,hseen,hnotes⟩ := htold pid _ _ hr (World.answer_eq.mp ha)
  obtain ⟨htexts,hlength⟩ := streamed_texts hseen
  have hjoined : (pid,.joined s) ∈ v.state.log := mem_notesOf.mp (by simp [hnotes])
  have horder : (notesOf pid v.state.log).reverse = .wrote connected :: .joined s :: (seen ++ [.left s]) := by
    simp [hnotes]
  have hreceived : receivedBy s v.state.log = seen.filterMap (Note.receivedBy s) := by
    rw [receivedBy,chosen_own,horder,List.filterMap_cons_none rfl,List.filterMap_cons_none rfl,
      List.filterMap_append]
    · exact List.append_nil _
    · rintro ⟨q,n⟩ he hn
      cases n with
      | received t ev =>
        by_cases ht : t = s
        · exact hx.owner q pid s (ht ▸ hx.reader q t ev he) hjoined
        · exact absurd (if_neg ht) hn
      | _ => exact absurd rfl hn
  refine ⟨s,seen.filterMap (Note.receivedBy s),hjoined,mem_notesOf.mp (by simp [hnotes]),hlength,?_,?_⟩
  · rw [hx.fifo s,hreceived]
    exact List.prefix_append _ _
  · have hends : (Note.joined s :: (seen ++ [.left s])).filterMap Note.text = seen.filterMap Note.text := by
      rw [List.filterMap_cons_none rfl,List.filterMap_append]
      exact List.append_nil _
    rw [written,horder,← htexts,← hends]
    rfl

end Runs

section Instances

def plainText (ev : Event Nat) : Option Text := if ev.data = 0 then none else some (Nat.toDigits 10 ev.data)

def twoPublishers : List (Interleave.Event (traced plainText)) :=
  .start 2 (.publish "early".toList 3) :: List.replicate 3 (.act 2) ++
    .start 0 (.stream true [.heartbeat,.event]) :: List.replicate 3 (.act 0) ++
    .start 1 (.publish "late".toList 7) :: List.replicate 5 (.act 1) ++ List.replicate 3 (.act 0)

theorem twoPublishers_run : ∃ v : World (traced plainText),
    (begun (State.empty "t".toList)).run twoPublishers = some v ∧ v.answer 0 = some .finished ∧
      v.answer 1 = some .published ∧ v.state.log.length = 11 := by
  have hrun : ((begun (State.empty "t".toList)).run twoPublishers).map
      (fun v : World (traced plainText) =>
        ((v.answer 0,v.answer 1,v.state.log.length) : Option Reply × Option Reply × Nat)) =
      some (some .finished,some .published,11) := by
    decide +kernel
  obtain ⟨v,hv,hseen⟩ := Option.map_eq_some_iff.mp hrun
  obtain ⟨hfinished,hrest⟩ := Prod.mk.inj hseen
  exact ⟨v,hv,hfinished,(Prod.mk.inj hrest).1,(Prod.mk.inj hrest).2⟩

theorem safe_twoPublishers : ∃ v : World (traced plainText),
    (begun (State.empty "t".toList)).run twoPublishers = some v ∧ v.state.state.panicked = false ∧
      ∀ s, sentTo s v.state.log = receivedBy s v.state.log ++ (v.state.state.subs s).buffer := by
  obtain ⟨v,hv,-⟩ := twoPublishers_run
  exact ⟨v,hv,(broker_safe hv).1,(broker_safe hv).2.1⟩

theorem late_publish_reaches : ∃ v : World (traced plainText),
    (begun (State.empty "t".toList)).run twoPublishers = some v ∧
      ∃ timestamp keys outcomes newer older,
        List.Forall₂ (Outcome ⟨"late".toList,7,timestamp⟩) keys outcomes ∧
        notesOf 1 v.state.log = .exited :: (outcomes.reverse ++ [.entered keys]) ∧
        v.state.log = newer ++ (1,.entered keys) :: older ∧ keys.Nodup ∧
        ∀ s, s ∈ keys ↔ Joined s older ∧ ¬ Left s older := by
  obtain ⟨v,hv,-,hpublished,-⟩ := twoPublishers_run
  exact ⟨v,hv,publish_reaches hv (by simp [twoPublishers]) hpublished⟩

theorem late_client_served : ∃ v : World (traced plainText),
    (begun (State.empty "t".toList)).run twoPublishers = some v ∧
      ∃ s evs, (0,.joined s) ∈ v.state.log ∧ (0,.left s) ∈ v.state.log ∧ evs.length = 1 ∧
        evs <+: sentTo s v.state.log ∧
        written 0 v.state.log = connected :: texts plainText [.heartbeat,.event] evs := by
  obtain ⟨v,hv,hfinished,-⟩ := twoPublishers_run
  have hstart : .start 0 (.stream true [.heartbeat,.event]) ∈ twoPublishers := by simp [twoPublishers]
  exact ⟨v,hv, stream_prefix hv hstart hfinished⟩

end Instances

end Events
