import ServerHub.Go.Strings
import ServerHub.Interleave.Chronicle
import ServerHub.Interleave.Routine

namespace Events

open Interleave Interleave.Prog

abbrev Text := List Char

structure Event (δ : Type) where
  type : Text
  data : δ
  timestamp : Text
deriving DecidableEq

structure Subscriber (δ : Type) where
  buffer : List (Event δ)
  slow : Nat
  closed : Bool

-- readers hold the read lock, a section under the write lock is one step
structure State (δ : Type) where
  clock : Text
  subs : Nat → Subscriber δ
  registered : List Nat
  next : Nat
  readers : List Nat
  panicked : Bool

def capacity : Nat := 32

inductive Instr (δ : Type) : Type → Type where
  | now : Instr δ Text
  | enter : Instr δ (List Nat)
  | isClosed (s : Nat) : Instr δ Bool
  | send (s : Nat) (ev : Event δ) : Instr δ Bool
  | slow (s : Nat) : Instr δ Nat
  | setSlow (s n : Nat) : Instr δ Unit
  | exit : Instr δ Unit
  | subscribe : Instr δ Nat
  | unsubscribe (s : Nat) : Instr δ Unit
  | receive (s : Nat) : Instr δ (Option (Event δ))
  | write (text : Text) : Instr δ Unit

variable {δ : Type}

def State.empty (clock : Text) : State δ := ⟨clock,fun _ => ⟨[],0,false⟩,[],0,[],false⟩

def State.set (x : State δ) (s : Nat) (b : Subscriber δ) : State δ :=
  { x with subs := Function.update x.subs s b }

def State.send (x : State δ) (s : Nat) (ev : Event δ) : State δ × Bool :=
  let b := x.subs s
  if b.closed then ({ x with panicked := true },false)
  else if b.buffer.length < capacity then (x.set s { b with buffer := b.buffer ++ [ev] },true)
  else (x,false)

def State.subscribe (x : State δ) : State δ :=
  { x.set x.next ⟨[],0,false⟩ with registered := x.next :: x.registered, next := x.next + 1 }

def State.unsubscribe (x : State δ) (s : Nat) : State δ :=
  { x.set s { x.subs s with closed := true } with
    registered := x.registered.erase s, panicked := x.panicked || (x.subs s).closed }

def State.receive (x : State δ) (s : Nat) : Option (State δ × Option (Event δ)) :=
  match (x.subs s).buffer with
  | ev :: rest => some (x.set s { x.subs s with buffer := rest },some ev)
  | [] => if (x.subs s).closed then some (x,none) else none

def exec (pid : Nat) : {β : Type} → Instr δ β → State δ → Option (State δ × β)
  | _, .now, x => some (x,x.clock)
  | _, .enter, x => some ({ x with readers := pid :: x.readers },x.registered)
  | _, .isClosed s, x => some (x,(x.subs s).closed)
  | _, .send s ev, x => some (x.send s ev)
  | _, .slow s, x => some (x,(x.subs s).slow)
  | _, .setSlow s n, x => some (x.set s { x.subs s with slow := n },())
  | _, .exit, x => some ({ x with readers := x.readers.erase pid },())
  | _, .subscribe, x => if x.readers = [] then some (x.subscribe,x.next) else none
  | _, .unsubscribe s, x => if x.readers = [] then some (x.unsubscribe s,()) else none
  | _, .receive s, x => x.receive s
  | _, .write _, x => some (x,())

abbrev Handler (δ : Type) := Prog (Instr δ)

-- which case of the select of Stream is ready
inductive Round where
  | heartbeat
  | event
deriving DecidableEq

inductive Request (δ : Type) where
  | publish (eventType : Text) (data : δ)
  -- the client leaves after the rounds
  | stream (flusher : Bool) (rounds : List Round)

inductive Reply where
  | published
  | unsupported
  | finished
deriving DecidableEq

section Handlers

def publishTo (ev : Event δ) (s : Nat) : Handler δ Unit := do
  if ← perform (.isClosed s) then return ()
  else if ← perform (.send s ev) then return ()
  else
    let n ← perform (.slow s)
    perform (.setSlow s (n + 1))

def publish (eventType : Text) (data : δ) : Handler δ Reply := do
  let now ← perform .now
  let keys ← perform .enter
  each (publishTo ⟨eventType,data,now⟩) keys
  perform .exit
  return .published

def connected : Text := ": connected\n\n".toList

def ping : Text := ": ping\n\n".toList

def frame (ev : Event δ) (payload : Text) : Text :=
  "event: ".toList ++ ev.type ++ "\ndata: ".toList ++ payload ++ "\n\n".toList

variable (marshal : Event δ → Option Text)

def deliver (ev : Event δ) : Handler δ Unit :=
  match marshal ev with
  | none => return ()
  | some payload => perform (.write (frame ev payload))

def serve (s : Nat) : List Round → Handler δ Unit
  | [] => return ()
  | .heartbeat :: rounds => do
      perform (.write ping)
      serve s rounds
  | .event :: rounds => do
      match ← perform (.receive s) with
      | none => return ()
      | some ev =>
        deliver marshal ev
        serve s rounds

def stream (flusher : Bool) (rounds : List Round) : Handler δ Reply := do
  if !flusher then return .unsupported
  else
    perform (.write connected)
    let s ← perform .subscribe
    serve marshal s rounds
    perform (.unsubscribe s)
    return .finished

def handle : Request δ → Handler δ Reply
  | .publish eventType data => publish eventType data
  | .stream flusher rounds => stream marshal flusher rounds

end Handlers

inductive Env where
  | tick (now : Text)
  -- the order in which the next range over the map goes
  | order (keys : List Nat)

def broker (marshal : Event δ → Option Text) : System where
  Instr := Instr δ
  State := State δ
  Request := Request δ
  Answer := Reply
  Env := Env
  exec := exec
  handle := handle marshal
  env
    | .tick now, x => some { x with clock := now }
    | .order keys, x => if keys.Perm x.registered then some { x with registered := keys } else none

inductive Note (δ : Type) where
  | entered (keys : List Nat)
  | exited
  | sent (s : Nat) (ev : Event δ)
  | dropped (s : Nat) (ev : Event δ)
  | joined (s : Nat)
  | left (s : Nat)
  | received (s : Nat) (ev : Event δ)
  | wrote (text : Text)
deriving DecidableEq

def note (β : Type) (i : Instr δ β) (_ : State δ) (b : β) : Option (Note δ) :=
  match β, i, b with
  | _, .enter, keys => some (.entered keys)
  | _, .send s ev, true => some (.sent s ev)
  | _, .send s ev, false => some (.dropped s ev)
  | _, .exit, _ => some .exited
  | _, .subscribe, s => some (.joined s)
  | _, .unsubscribe s, _ => some (.left s)
  | _, .receive s, some ev => some (.received s ev)
  | _, .write text, _ => some (.wrote text)
  | _, _, _ => none

abbrev Log (δ : Type) := List (Nat × Note δ)

def Note.locks : Note δ → Bool
  | .entered _ | .exited => true
  | _ => false

def Note.sentTo (s : Nat) : Note δ → Option (Event δ)
  | .sent t ev => if t = s then some ev else none
  | _ => none

def Note.receivedBy (s : Nat) : Note δ → Option (Event δ)
  | .received t ev => if t = s then some ev else none
  | _ => none

def chosen (f : Note δ → Option (Event δ)) : Log δ → List (Event δ)
  | [] => []
  | (_,n) :: log => chosen f log ++ (f n).toList

def sentTo (s : Nat) (log : Log δ) : List (Event δ) := chosen (Note.sentTo s) log

def receivedBy (s : Nat) (log : Log δ) : List (Event δ) := chosen (Note.receivedBy s) log

def Joined (s : Nat) (log : Log δ) : Prop := ∃ q, (q,.joined s) ∈ log

def Left (s : Nat) (log : Log δ) : Prop := ∃ q, (q,.left s) ∈ log

def Publishing (pid : Nat) (log : Log δ) (keys : List Nat) : Prop :=
  lastOwn Note.locks pid log = some (.entered keys)

section Traces

def Justified (older : Log δ) : Note δ → Prop
  | .entered keys => keys.Nodup ∧ ∀ s, s ∈ keys ↔ Joined s older ∧ ¬ Left s older
  | .joined _ | .left _ => ∀ q keys, ¬ Publishing q older keys
  | .dropped s _ => ∃ unread, sentTo s older = receivedBy s older ++ unread ∧ unread.length = capacity
  | _ => True

def Sound (log : Log δ) : Prop := Chronicle (fun older e => Justified older e.2) log

structure Steady (x : Traced (State δ) (Note δ)) : Prop where
  calm : x.state.panicked = false
  publishing : ∀ pid keys, Publishing pid x.log keys →
    pid ∈ x.state.readers ∧ keys.Perm x.state.registered
  listed : x.state.registered.Nodup
  member : ∀ s, s ∈ x.state.registered ↔ Joined s x.log ∧ ¬ Left s x.log
  closed : ∀ s, (x.state.subs s).closed = true ↔ Left s x.log
  fresh : ∀ s, Joined s x.log → s < x.state.next
  owner : ∀ p q s, (p,.joined s) ∈ x.log → (q,.joined s) ∈ x.log → p = q
  leaver : ∀ q s, (q,.left s) ∈ x.log → (q,.joined s) ∈ x.log
  reader : ∀ q s ev, (q,.received s ev) ∈ x.log → (q,.joined s) ∈ x.log
  fifo : ∀ s, sentTo s x.log = receivedBy s x.log ++ (x.state.subs s).buffer
  room : ∀ s, (x.state.subs s).buffer.length ≤ capacity
  unused : ∀ s, x.state.next ≤ s → (x.state.subs s).buffer = []
  sound : Sound x.log

section Notes

variable {pid q s : Nat} {n : Note δ} {log : Log δ} {keys : List Nat}

theorem publishing_other (h : n.locks = false ∨ pid ≠ q) :
    Publishing q ((pid,n) :: log) keys ↔ Publishing q log keys := by
  have hskip : ¬ (pid = q ∧ n.locks = true) := by
    rintro ⟨rfl,hn⟩
    exact h.elim (fun h => by simp [hn] at h) fun h => h rfl
  rw [Publishing,Publishing,lastOwn,if_neg hskip]

theorem not_publishing_exited : ¬ Publishing pid ((pid,.exited) :: log) keys := by
  simp [Publishing,lastOwn,Note.locks]

theorem joined_cons : Joined s ((pid,n) :: log) ↔ n = .joined s ∨ Joined s log := by
  simp [Joined,exists_or,eq_comm]

theorem left_cons : Left s ((pid,n) :: log) ↔ n = .left s ∨ Left s log := by
  simp [Left,exists_or,eq_comm]

theorem chosen_skip {f : Note δ → Option (Event δ)} (h : f n = none) :
    chosen f ((pid,n) :: log) = chosen f log := by
  simp [chosen,h]

theorem chosen_eq (f : Note δ → Option (Event δ)) :
    chosen f log = (log.map Prod.snd).reverse.filterMap f := by
  induction log with
  | nil => rfl
  | cons e log ih =>
    simp only [chosen,ih,List.map_cons,List.reverse_cons,List.filterMap_append]
    cases hf : f e.2 <;> simp [hf]

theorem chosen_own {f : Note δ → Option (Event δ)} (h : ∀ e ∈ log, f e.2 ≠ none → e.1 = pid) :
    chosen f log = (notesOf pid log).reverse.filterMap f := by
  rw [notesOf,← chosen_eq]
  induction log with
  | nil => rfl
  | cons e log ih =>
    obtain ⟨hhead,hrest⟩ := List.forall_mem_cons.mp h
    have hchosen : chosen f (e :: log) = chosen f log ++ (f e.2).toList := rfl
    rw [hchosen,ih hrest]
    by_cases he : e.1 = pid
    · have hown : own pid (e :: log) = e :: own pid log := by simp [own,he]
      rw [hown]
      rfl
    · have hown : own pid (e :: log) = own pid log := by simp [own,he]
      have hnone : f e.2 = none := by
        by_contra hf
        exact he (hhead hf)
      rw [hown,hnone]
      simp

end Notes

end Traces

section Steps

variable {x : Traced (State δ) (Note δ)} {pid : Nat}

def Note.membership : Note δ → Bool
  | .joined _ | .left _ => true
  | _ => false

def Note.transfer : Note δ → Bool
  | .sent _ _ | .received _ _ => true
  | _ => false

theorem fifo_skip {n : Note δ} {log : Log δ} {s : Nat} {buffer : List (Event δ)}
    (hn : n.transfer = false) (h : sentTo s log = receivedBy s log ++ buffer) :
    sentTo s ((pid,n) :: log) = receivedBy s ((pid,n) :: log) ++ buffer := by
  have hsent : n.sentTo s = none := by cases n <;> first | rfl | cases hn
  have hreceived : n.receivedBy s = none := by cases n <;> first | rfl | cases hn
  rw [sentTo,receivedBy,chosen_skip hsent,chosen_skip hreceived]
  exact h

theorem Steady.carry (h : Steady x) {y : State δ} {n : Note δ} (hn : n.membership = false)
    (hlisted : y.registered = x.state.registered) (hnext : y.next = x.state.next)
    (hcalm : y.panicked = false) (hclosed : ∀ s, (y.subs s).closed = (x.state.subs s).closed)
    (hpublishing : ∀ q keys, Publishing q ((pid,n) :: x.log) keys →
      q ∈ y.readers ∧ keys.Perm y.registered)
    (hreader : ∀ s ev, n = .received s ev → (pid,.joined s) ∈ x.log)
    (hfifo : ∀ s, sentTo s ((pid,n) :: x.log) = receivedBy s ((pid,n) :: x.log) ++ (y.subs s).buffer)
    (hroom : ∀ s, (y.subs s).buffer.length ≤ capacity)
    (hunused : ∀ s, y.next ≤ s → (y.subs s).buffer = []) (hj : Justified x.log n) :
    Steady ⟨y,(pid,n) :: x.log⟩ := by
  have hjoined : ∀ s, Joined s ((pid,n) :: x.log) ↔ Joined s x.log := by
    intro s
    rw [joined_cons,or_iff_right]
    rintro rfl
    cases hn
  have hleft : ∀ s, Left s ((pid,n) :: x.log) ↔ Left s x.log := by
    intro s
    rw [left_cons,or_iff_right]
    rintro rfl
    cases hn
  have hold : ∀ {q s}, (q,.joined s) ∈ (pid,n) :: x.log → (q,.joined s) ∈ x.log := by
    intro q s hm
    rcases List.mem_cons.mp hm with he | hm
    · obtain ⟨-,rfl⟩ := Prod.mk.inj he
      cases hn
    · exact hm
  refine ⟨hcalm,hpublishing,hlisted ▸ h.listed,fun s => ?_,fun s => ?_,fun s hs => ?_,
    fun p q s hp hq => h.owner p q s (hold hp) (hold hq),fun q s hm => ?_,fun q s ev hm => ?_,hfifo,
    hroom,hunused,hj,h.sound⟩
  · show s ∈ y.registered ↔ _
    rw [hlisted,hjoined,hleft]
    exact h.member s
  · show (y.subs s).closed = true ↔ _
    rw [hclosed,hleft]
    exact h.closed s
  · show s < y.next
    rw [hnext]
    exact h.fresh s ((hjoined s).mp hs)
  · rcases List.mem_cons.mp hm with he | hm
    · obtain ⟨-,rfl⟩ := Prod.mk.inj he
      cases hn
    · exact List.mem_cons_of_mem _ (h.leaver q s hm)
  · rcases List.mem_cons.mp hm with he | hm
    · obtain ⟨rfl,rfl⟩ := Prod.mk.inj he
      exact List.mem_cons_of_mem _ (hreader s ev rfl)
    · exact List.mem_cons_of_mem _ (h.reader q s ev hm)

theorem Steady.others (h : Steady x) {y : State δ} {n : Note δ} (hn : n.locks = false)
    (hreaders : y.readers = x.state.readers) (hlisted : y.registered = x.state.registered) :
    ∀ q keys, Publishing q ((pid,n) :: x.log) keys → q ∈ y.readers ∧ keys.Perm y.registered := by
  intro q keys hq
  rw [hreaders,hlisted]
  exact h.publishing q keys ((publishing_other (.inl hn)).mp hq)

theorem Steady.wrote (h : Steady x) (text : Text) : Steady ⟨x.state,(pid,.wrote text) :: x.log⟩ :=
  h.carry rfl rfl rfl h.calm (fun _ => rfl) (h.others rfl rfl rfl) (by simp)
    (fun s => fifo_skip rfl (h.fifo s))
    h.room h.unused trivial

theorem Steady.enter (h : Steady x) : Steady ⟨{ x.state with readers := pid :: x.state.readers },
    (pid,.entered x.state.registered) :: x.log⟩ := by
  refine h.carry rfl rfl rfl h.calm (fun _ => rfl) (fun q keys hq => ?_)
    (by simp) (fun s => fifo_skip rfl (h.fifo s)) h.room h.unused ⟨h.listed,h.member⟩
  by_cases hpid : pid = q
  · subst hpid
    have hkeys : x.state.registered = keys := by
      simpa [Publishing,lastOwn,Note.locks] using hq
    exact ⟨List.mem_cons_self,hkeys ▸ List.Perm.refl _⟩
  · obtain ⟨hreader,hperm⟩ := h.publishing q keys ((publishing_other (.inr hpid)).mp hq)
    exact ⟨List.mem_cons_of_mem _ hreader,hperm⟩

theorem Steady.exit (h : Steady x) :
    Steady ⟨{ x.state with readers := x.state.readers.erase pid },(pid,.exited) :: x.log⟩ := by
  refine h.carry rfl rfl rfl h.calm (fun _ => rfl) (fun q keys hq => ?_)
    (by simp) (fun s => fifo_skip rfl (h.fifo s)) h.room h.unused trivial
  by_cases hpid : pid = q
  · subst hpid
    exact absurd hq not_publishing_exited
  · obtain ⟨hreader,hperm⟩ := h.publishing q keys ((publishing_other (.inr hpid)).mp hq)
    exact ⟨(List.mem_erase_of_ne (Ne.symm hpid)).mpr hreader,hperm⟩

theorem set_subs (y : State δ) (s t : Nat) (b : Subscriber δ) :
    (y.set s b).subs t = if t = s then b else y.subs t := by
  simp [State.set,Function.update_apply]

theorem Steady.count (h : Steady x) (s n : Nat) :
    Steady ⟨x.state.set s { x.state.subs s with slow := n },x.log⟩ := by
  have hsame : ∀ t, ((x.state.set s { x.state.subs s with slow := n }).subs t).buffer =
      (x.state.subs t).buffer ∧ ((x.state.set s { x.state.subs s with slow := n }).subs t).closed =
      (x.state.subs t).closed := by
    intro t
    rw [set_subs]
    split
    · rename_i ht
      exact ht ▸ ⟨rfl,rfl⟩
    · exact ⟨rfl,rfl⟩
  exact ⟨h.calm,h.publishing,h.listed,h.member,fun t => (hsame t).2 ▸ h.closed t,h.fresh,h.owner,
    h.leaver,h.reader,fun t => (hsame t).1 ▸ h.fifo t,fun t => (hsame t).1 ▸ h.room t,
    fun t ht => (hsame t).1.trans (h.unused t ht),h.sound⟩

theorem Steady.sent (h : Steady x) {s : Nat} (hs : s < x.state.next) (ev : Event δ)
    (hroom : (x.state.subs s).buffer.length < capacity) :
    Steady ⟨x.state.set s { x.state.subs s with buffer := (x.state.subs s).buffer ++ [ev] },
      (pid,.sent s ev) :: x.log⟩ := by
  refine h.carry rfl rfl rfl h.calm (fun t => ?_) (h.others rfl rfl rfl) (by simp)
    (fun t => ?_) (fun t => ?_) (fun t ht => ?_) trivial
  · rw [set_subs]
    split
    · rename_i ht
      rw [ht]
    · rfl
  · have hreceived : receivedBy t ((pid,.sent s ev) :: x.log) = receivedBy t x.log := chosen_skip rfl
    rw [hreceived,set_subs]
    split
    · rename_i ht
      have hsent : sentTo t ((pid,.sent s ev) :: x.log) = sentTo t x.log ++ [ev] := by
        simp [sentTo,chosen,Note.sentTo,ht]
      rw [hsent,h.fifo t,ht,List.append_assoc]
    · rename_i ht
      have hsent : sentTo t ((pid,.sent s ev) :: x.log) = sentTo t x.log :=
        chosen_skip (if_neg (Ne.symm ht))
      rw [hsent]
      exact h.fifo t
  · rw [set_subs]
    split
    · rw [List.length_append]
      exact hroom
    · exact h.room t
  · rw [set_subs,if_neg (Nat.ne_of_gt (Nat.lt_of_lt_of_le hs ht))]
    exact h.unused t ht

theorem Steady.dropped (h : Steady x) {s : Nat} (ev : Event δ)
    (hfull : ¬ (x.state.subs s).buffer.length < capacity) :
    Steady ⟨x.state,(pid,.dropped s ev) :: x.log⟩ :=
  h.carry rfl rfl rfl h.calm (fun _ => rfl) (h.others rfl rfl rfl) (by simp)
    (fun s => fifo_skip rfl (h.fifo s))
    h.room h.unused ⟨_,h.fifo s,Nat.le_antisymm (h.room s) (Nat.not_lt.mp hfull)⟩

theorem Steady.received (h : Steady x) {s : Nat} {ev : Event δ} {rest : List (Event δ)}
    (hmine : (pid,.joined s) ∈ x.log) (hbuffer : (x.state.subs s).buffer = ev :: rest) :
    Steady ⟨x.state.set s { x.state.subs s with buffer := rest },(pid,.received s ev) :: x.log⟩ := by
  refine h.carry rfl rfl rfl h.calm (fun t => ?_) (h.others rfl rfl rfl) (fun t ev' he => ?_)
    (fun t => ?_) (fun t => ?_) (fun t ht => ?_) trivial
  · rw [set_subs]
    split
    · rename_i ht
      rw [ht]
    · rfl
  · obtain ⟨rfl,-⟩ := Note.received.inj he
    exact hmine
  · have hsent : sentTo t ((pid,.received s ev) :: x.log) = sentTo t x.log := chosen_skip rfl
    rw [hsent,set_subs]
    split
    · rename_i ht
      have hreceived : receivedBy t ((pid,.received s ev) :: x.log) = receivedBy t x.log ++ [ev] := by
        simp [receivedBy,chosen,Note.receivedBy,ht]
      rw [hreceived,h.fifo t,ht,hbuffer]
      simp
    · rename_i ht
      have hreceived : receivedBy t ((pid,.received s ev) :: x.log) = receivedBy t x.log :=
        chosen_skip (if_neg (Ne.symm ht))
      rw [hreceived]
      exact h.fifo t
  · rw [set_subs]
    split
    · have hold := h.room s
      rw [hbuffer,List.length_cons] at hold
      exact Nat.le_of_succ_le hold
    · exact h.room t
  · rw [set_subs]
    split
    · rename_i hts
      have hempty := h.unused t ht
      rw [hts,hbuffer] at hempty
      cases hempty
    · exact h.unused t ht

theorem Steady.idle (h : Steady x) (hreaders : x.state.readers = []) :
    ∀ q keys, ¬ Publishing q x.log keys := by
  intro q keys hq
  have hin := (h.publishing q keys hq).1
  rw [hreaders] at hin
  cases hin

theorem Steady.unleft (h : Steady x) {s : Nat} (hs : x.state.next ≤ s) : ¬ Left s x.log := by
  rintro ⟨q,hq⟩
  exact absurd (h.fresh s ⟨q,h.leaver q s hq⟩) (Nat.not_lt.mpr hs)

theorem Steady.subscribe (h : Steady x) (hreaders : x.state.readers = []) :
    Steady ⟨x.state.subscribe,(pid,.joined x.state.next) :: x.log⟩ := by
  have hleft : ∀ s, Left s ((pid,.joined x.state.next) :: x.log) ↔ Left s x.log := by
    simp [left_cons]
  have hnew : ∀ t, x.state.subscribe.subs t = if t = x.state.next then ⟨[],0,false⟩ else x.state.subs t :=
    fun t => set_subs x.state _ t _
  have hunlisted : x.state.next ∉ x.state.registered := fun hin =>
    absurd (h.fresh _ ((h.member _).mp hin).1) (Nat.lt_irrefl _)
  refine ⟨h.calm,fun q keys hq => ?_,List.nodup_cons.mpr ⟨hunlisted,h.listed⟩,fun s => ?_,fun s => ?_,
    fun s hs => ?_,fun p q s hp hq => ?_,fun q s hm => ?_,fun q s ev hm => ?_,fun s => ?_,fun s => ?_,
    fun s hs => ?_,h.idle hreaders,h.sound⟩
  · exact absurd ((publishing_other (.inl rfl)).mp hq) (h.idle hreaders q keys)
  · show s ∈ x.state.next :: x.state.registered ↔ _
    rw [List.mem_cons,joined_cons,hleft,h.member,Note.joined.injEq]
    constructor
    · rintro (rfl | hold)
      · exact ⟨.inl rfl,h.unleft (Nat.le_refl _)⟩
      · exact ⟨.inr hold.1,hold.2⟩
    · rintro ⟨hs | hs,hl⟩
      · exact .inl hs.symm
      · exact .inr ⟨hs,hl⟩
  · show (x.state.subscribe.subs s).closed = true ↔ _
    rw [hleft,hnew]
    split
    · rename_i hs
      simpa using h.unleft (Nat.le_of_eq hs.symm)
    · exact h.closed s
  · rcases joined_cons.mp hs with he | hs
    · rw [← Note.joined.inj he]
      exact Nat.lt_succ_self _
    · exact Nat.lt_succ_of_lt (h.fresh s hs)
  · simp only [List.mem_cons,Prod.mk.injEq,Note.joined.injEq] at hp hq
    rcases hp with ⟨rfl,rfl⟩ | hp
    · rcases hq with ⟨rfl,-⟩ | hq
      · rfl
      · exact absurd (h.fresh _ ⟨q,hq⟩) (Nat.lt_irrefl _)
    · rcases hq with ⟨rfl,rfl⟩ | hq
      · exact absurd (h.fresh _ ⟨p,hp⟩) (Nat.lt_irrefl _)
      · exact h.owner p q s hp hq
  · exact List.mem_cons_of_mem _ (h.leaver q s (by simpa using hm))
  · exact List.mem_cons_of_mem _ (h.reader q s ev (by simpa using hm))
  · refine fifo_skip rfl ?_
    show _ = _ ++ (x.state.subscribe.subs s).buffer
    rw [hnew]
    split
    · rename_i hs
      have hempty := h.unused s (Nat.le_of_eq hs.symm)
      rw [h.fifo s,hempty]
    · exact h.fifo s
  · show (x.state.subscribe.subs s).buffer.length ≤ _
    rw [hnew]
    split
    · exact Nat.zero_le _
    · exact h.room s
  · show (x.state.subscribe.subs s).buffer = []
    rw [hnew]
    split
    · rfl
    · exact h.unused s (Nat.le_of_succ_le hs)

theorem Steady.unsubscribe (h : Steady x) {s : Nat} (hreaders : x.state.readers = [])
    (hmine : (pid,.joined s) ∈ x.log) (hopen : ¬ Left s x.log) :
    Steady ⟨x.state.unsubscribe s,(pid,.left s) :: x.log⟩ := by
  have hjoined : ∀ t, Joined t ((pid,.left s) :: x.log) ↔ Joined t x.log := by
    simp [joined_cons]
  have hnew : ∀ t, (x.state.unsubscribe s).subs t =
      if t = s then { x.state.subs s with closed := true } else x.state.subs t :=
    fun t => set_subs x.state _ t _
  have hbuffer : ∀ t, ((x.state.unsubscribe s).subs t).buffer = (x.state.subs t).buffer := by
    intro t
    rw [hnew]
    split
    · rename_i ht
      rw [ht]
    · rfl
  refine ⟨?_,fun q keys hq => ?_,h.listed.erase s,fun t => ?_,fun t => ?_,
    fun t ht => h.fresh t ((hjoined t).mp ht),fun p q t hp hq => ?_,fun q t hm => ?_,
    fun q t ev hm => ?_,fun t => ?_,fun t => (hbuffer t) ▸ h.room t,fun t ht => (hbuffer t).trans (h.unused t ht),h.idle hreaders,
    h.sound⟩
  · show (x.state.panicked || (x.state.subs s).closed) = false
    rw [h.calm,Bool.false_or,Bool.eq_false_iff]
    exact fun hc => hopen ((h.closed s).mp hc)
  · exact absurd ((publishing_other (.inl rfl)).mp hq) (h.idle hreaders q keys)
  · show t ∈ x.state.registered.erase s ↔ _
    rw [h.listed.mem_erase_iff,hjoined,left_cons,h.member,Note.left.injEq]
    constructor
    · rintro ⟨hne,hj,hl⟩
      exact ⟨hj,fun h => h.elim (fun e => hne e.symm) hl⟩
    · rintro ⟨hj,hl⟩
      exact ⟨fun e => hl (.inl e.symm),hj,fun h => hl (.inr h)⟩
  · show ((x.state.unsubscribe s).subs t).closed = true ↔ _
    rw [hnew,left_cons,Note.left.injEq]
    split
    · rename_i ht
      simp [ht]
    · rename_i ht
      rw [h.closed t,or_iff_right (Ne.symm ht)]
  · exact h.owner p q t (by simpa using hp) (by simpa using hq)
  · rcases List.mem_cons.mp hm with he | hm
    · obtain ⟨rfl,ht⟩ := Prod.mk.inj he
      obtain rfl := Note.left.inj ht
      exact List.mem_cons_of_mem _ hmine
    · exact List.mem_cons_of_mem _ (h.leaver q t hm)
  · exact List.mem_cons_of_mem _ (h.reader q t ev (by simpa using hm))
  · refine fifo_skip rfl ?_
    show _ = _ ++ ((x.state.unsubscribe s).subs t).buffer
    rw [hbuffer]
    exact h.fifo t

theorem steady_empty (clock : Text) : Steady (δ := δ) ⟨.empty clock,[]⟩ := by
  refine ⟨rfl,fun _ _ h => ?_,.nil,fun s => ?_,fun s => ?_,fun s h => ?_,fun p q s h => ?_,fun q s h => ?_,
    fun q s ev h => ?_,fun _ => rfl,fun _ => Nat.zero_le _,fun _ _ => rfl,trivial⟩
  · simp [Publishing,lastOwn] at h
  · simp [State.empty,Joined]
  · simp [State.empty,Left]
  · simp [Joined] at h
  · cases h
  · cases h
  · cases h

theorem Steady.reordered (h : Steady x) {keys : List Nat} (hperm : keys.Perm x.state.registered) :
    Steady ⟨{ x.state with registered := keys },x.log⟩ :=
  ⟨h.calm,fun q ks hq => ⟨(h.publishing q ks hq).1,(h.publishing q ks hq).2.trans hperm.symm⟩,
    hperm.nodup_iff.mpr h.listed,fun s => hperm.mem_iff.trans (h.member s),h.closed,h.fresh,h.owner,
    h.leaver,h.reader,h.fifo,h.room,h.unused,h.sound⟩

theorem Steady.tick (h : Steady x) (now : Text) : Steady ⟨{ x.state with clock := now },x.log⟩ :=
  ⟨h.calm,h.publishing,h.listed,h.member,h.closed,h.fresh,h.owner,h.leaver,h.reader,h.fifo,h.room,
    h.unused,h.sound⟩

end Steps

end Events
