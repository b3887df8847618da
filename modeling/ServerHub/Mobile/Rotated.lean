import ServerHub.Interleave.Routine
import ServerHub.Mobile.Renewals

namespace Mobile.Renewals

open Posix Interleave Interleave.Prog

def pending : List Note → Option String
  | [] => none
  | .asked _ answer :: _ => carried answer
  | .posted _ answer :: _ => rotated answer
  | .stored .refresh _ :: _ | .entered :: _ => none
  | _ :: ns => pending ns

def reading : List Note → Option String
  | .read p :: _ => some p
  | _ => none

def Seen (r : String) (x : Traced Online Note) : Prop :=
  x.state.phone.store .refresh = some r ∨ (∃ q, (q,.read r) ∈ x.log) ∨ ∃ q a, (q,.posted r a) ∈ x.log

def Known (net : Nat → Option Received) (first : Option String) (r : String) (sent : Nat) : Prop :=
  first = some r ∨ ∃ i < sent, carried (net i) = some r

-- what a call has yet to store nobody else has seen
structure Owed (net : Nat → Option Received) (first : Option String) (x : Traced Online Note) : Prop where
  known : ∀ r, Seen r x → Known net first r x.state.sent
  given : ∀ pid r, pending (notesOf pid x.log) = some r → Known net first r x.state.sent
  unseen : ∀ pid r, pending (notesOf pid x.log) = some r → ¬ Seen r x
  single : ∀ pid q r, pending (notesOf pid x.log) = some r → pending (notesOf q x.log) = some r → q = pid

-- a spent token stays in the store only while the renewal that spent it has its successor to store
structure Clean (x : Traced Online Note) : Prop where
  store : ∀ p, x.state.phone.store .refresh = some p → Spent p x.log →
    ∃ pid, renewing x.log = some pid ∧ (pending (notesOf pid x.log)).isSome = true
  armed : ∀ pid p, reading (notesOf pid x.log) = some p → renewing x.log = some pid → ¬ Spent p x.log

structure Kept (net : Nat → Option Received) (first : Option String) (x : Traced Online Note) : Prop where
  flight : x.state.phone.flight = renewing x.log
  landed : ∀ q fresh, x.state.phone.landed q = some fresh → (q,.landed fresh) ∈ x.log
  justified : Chronicle (Justified (Fresh net first)) x.log
  tokens : Fresh net first → Owed net first x ∧ Clean x

section Tokens

variable {net : Nat → Option Received} {first : Option String} {x : Traced Online Note} {t : Online}
  {pid : Nat} {n : Note}

theorem Known.mono {r : String} {i j : Nat} (h : Known net first r i) (hij : i ≤ j) :
    Known net first r j := by
  rcases h with h | ⟨k,hk,h⟩
  · exact .inl h
  · exact .inr ⟨k,by omega,h⟩

theorem Fresh.unknown (h : Fresh net first) {r : String} {sent : Nat} (hr : carried (net sent) = some r) :
    ¬ Known net first r sent := by
  rintro (hfirst | ⟨i,hi,hold⟩)
  · exact h.new sent r hr hfirst
  · have := h.once i sent r hold hr
    omega

theorem carried_of_rotated {a : Option Received} {r : String} (h : rotated a = some r) :
    carried a = some r := by
  simp only [rotated,carried,Option.bind_eq_some_iff] at h ⊢
  obtain ⟨res,hres,-,-,hr⟩ := h
  exact ⟨res,hres,hr⟩

theorem Owed.move (h : Owed net first x) (hsent : x.state.sent ≤ t.sent)
    (hseen : ∀ r, Seen r ⟨t,(pid,n) :: x.log⟩ → Seen r x)
    (hpending : ∀ r, pending (n :: notesOf pid x.log) = some r → pending (notesOf pid x.log) = some r ∨
      ¬ Known net first r x.state.sent ∧ Known net first r t.sent) :
    Owed net first ⟨t,(pid,n) :: x.log⟩ := by
  have hold : ∀ q r, pending (notesOf q ((pid,n) :: x.log)) = some r →
      pending (notesOf q x.log) = some r ∨
        q = pid ∧ ¬ Known net first r x.state.sent ∧ Known net first r t.sent := by
    intro q r hr
    by_cases hq : q = pid
    · subst hq
      rw [notesOf_cons_self] at hr
      exact (hpending r hr).imp_right fun hnew => ⟨rfl,hnew⟩
    · rw [notesOf_cons_other _ _ hq] at hr
      exact .inl hr
  refine ⟨fun r hr => (h.known r (hseen r hr)).mono hsent,fun q r hr => ?_,fun q r hr hs => ?_,
    fun q q' r hr hr' => ?_⟩
  · rcases hold q r hr with hr | ⟨-,-,hknown⟩
    · exact (h.given q r hr).mono hsent
    · exact hknown
  · rcases hold q r hr with hr | ⟨-,hunknown,-⟩
    · exact h.unseen q r hr (hseen r hs)
    · exact hunknown (h.known r (hseen r hs))
  · rcases hold q r hr with hr | ⟨rfl,hunknown,-⟩
    · rcases hold q' r hr' with hr' | ⟨-,hunknown,-⟩
      · exact h.single q q' r hr hr'
      · exact absurd (h.given q r hr) hunknown
    · rcases hold q' r hr' with hr' | ⟨rfl,-,-⟩
      · exact absurd (h.given q' r hr') hunknown
      · rfl

theorem Owed.keep {r : String} (h : Owed net first x) (hr : pending (notesOf pid x.log) = some r)
    (hsent : t.sent = x.state.sent) (hstore : t.phone.store .refresh = some r) :
    Owed net first ⟨t,(pid,.stored .refresh r) :: x.log⟩ := by
  have hseen : ∀ p, Seen p ⟨t,(pid,.stored .refresh r) :: x.log⟩ → Seen p x ∨ p = r := by
    rintro p (hp | ⟨q,hq⟩ | ⟨q,a,hq⟩)
    · exact .inr (Option.some.inj (hp.symm.trans hstore))
    · exact .inl (.inr (.inl ⟨q,by simpa using hq⟩))
    · exact .inl (.inr (.inr ⟨q,a,by simpa using hq⟩))
  have hold : ∀ q p, pending (notesOf q ((pid,.stored .refresh r) :: x.log)) = some p →
      q ≠ pid ∧ pending (notesOf q x.log) = some p := by
    intro q p hp
    by_cases hq : q = pid
    · subst hq
      rw [notesOf_cons_self] at hp
      cases hp
    · rw [notesOf_cons_other _ _ hq] at hp
      exact ⟨hq,hp⟩
  refine ⟨fun p hp => ?_,fun q p hp => ?_,fun q p hp hs => ?_,fun q q' p hp hp' => ?_⟩
  · show Known net first p t.sent
    rw [hsent]
    rcases hseen p hp with hp | rfl
    · exact h.known p hp
    · exact h.given pid p hr
  · show Known net first p t.sent
    rw [hsent]
    exact h.given q p (hold q p hp).2
  · obtain ⟨hne,howes⟩ := hold q p hp
    rcases hseen p hs with hs | rfl
    · exact h.unseen q p howes hs
    · exact hne (h.single pid q p hr howes)
  · exact h.single q q' p (hold q p hp).2 (hold q' p hp').2

def Note.plain : Note → Bool
  | .asked _ _ | .read _ | .posted _ _ | .stored .refresh _ => false
  | _ => true

theorem pending_plain (hn : n.plain = true) (hne : n ≠ .entered) (ns : List Note) :
    pending (n :: ns) = pending ns := by
  cases n with
  | stored k value => cases k <;> first | rfl | cases hn
  | entered => exact absurd rfl hne
  | joined leader => rfl
  | landed fresh => rfl
  | followed leader fresh => rfl
  | _ => cases hn

theorem reading_plain (hn : n.plain = true) (ns : List Note) : reading (n :: ns) = none := by
  cases n with
  | read p => cases hn
  | _ => rfl

theorem seen_plain (hn : n.plain = true)
    (hstore : ∀ r, t.phone.store .refresh = some r → x.state.phone.store .refresh = some r) {r : String}
    (h : Seen r ⟨t,(pid,n) :: x.log⟩) : Seen r x := by
  rcases h with h | ⟨q,hq⟩ | ⟨q,a,hq⟩
  · exact .inl (hstore r h)
  · rcases List.mem_cons.mp hq with he | hq
    · obtain ⟨-,rfl⟩ := Prod.mk.inj he
      cases hn
    · exact .inr (.inl ⟨q,hq⟩)
  · rcases List.mem_cons.mp hq with he | hq
    · obtain ⟨-,rfl⟩ := Prod.mk.inj he
      cases hn
    · exact .inr (.inr ⟨q,a,hq⟩)

theorem spent_cons {p : String} {log : Log} (hn : ∀ a, n ≠ .posted p a) (h : Spent p ((pid,n) :: log)) :
    Spent p log := by
  obtain ⟨q,a,hq,ha⟩ := h
  rcases List.mem_cons.mp hq with he | hq
  · exact absurd (Prod.mk.inj he).2.symm (hn a)
  · exact ⟨q,a,hq,ha⟩

theorem Clean.move (h : Clean x) (hposted : ∀ p a, n ≠ .posted p a)
    (hstore : ∀ r, t.phone.store .refresh = some r → x.state.phone.store .refresh = some r)
    (hlead : ∀ q, renewing x.log = some q → (pending (notesOf q x.log)).isSome = true →
      renewing ((pid,n) :: x.log) = some q ∧ (pending (notesOf q ((pid,n) :: x.log))).isSome = true)
    (harmed : ∀ q p, reading (notesOf q ((pid,n) :: x.log)) = some p →
      renewing ((pid,n) :: x.log) = some q → ¬ Spent p x.log) : Clean ⟨t,(pid,n) :: x.log⟩ := by
  refine ⟨fun p hp hspent => ?_,fun q p hp hq hspent => ?_⟩
  · obtain ⟨q,hq,howes⟩ := h.store p (hstore p hp) (spent_cons (hposted p) hspent)
    exact ⟨q,hlead q hq howes⟩
  · exact harmed q p hp hq (spent_cons (hposted p) hspent)

theorem Clean.armed_other (h : Clean x) {q : Nat} {p : String} (hq : q ≠ pid) (hn : n.turn = none)
    (hp : reading (notesOf q ((pid,n) :: x.log)) = some p) (hlead : renewing ((pid,n) :: x.log) = some q) :
    ¬ Spent p x.log := by
  rw [notesOf_cons_other _ _ hq] at hp
  rw [renewing,holder_other hn] at hlead
  exact h.armed q p hp hlead

theorem Clean.plain (h : Clean x) (hn : n.plain = true) (hturned : Turned Note.turn x.log (pid,n))
    (hland : ∀ fresh, n = .landed fresh → pending (notesOf pid x.log) = none)
    (hstore : ∀ r, t.phone.store .refresh = some r → x.state.phone.store .refresh = some r) :
    Clean ⟨t,(pid,n) :: x.log⟩ := by
  refine h.move ?_ hstore (fun q hq howes => ?_) fun q p hp hq => ?_
  · rintro p a rfl
    cases hn
  · cases hturn : n.turn with
    | none =>
      refine ⟨(holder_other hturn).trans hq,?_⟩
      by_cases he : q = pid
      · subst he
        rw [notesOf_cons_self,pending_plain hn (by rintro rfl; cases hturn)]
        exact howes
      · rw [notesOf_cons_other _ _ he]
        exact howes
    | some turn =>
      cases turn with
      | taken => cases hq.symm.trans (turned_taken hturned hturn)
      | left =>
        obtain rfl := Option.some.inj (hq.symm.trans (turned_left hturned hturn))
        cases n with
        | landed fresh =>
          rw [hland fresh rfl] at howes
          cases howes
        | _ => cases hturn
  · by_cases he : q = pid
    · subst he
      rw [notesOf_cons_self,reading_plain hn] at hp
      cases hp
    · cases hturn : n.turn with
      | none => exact h.armed_other he hturn hp hq
      | some turn =>
        cases turn with
        | taken =>
          rw [renewing,holder_taken hturn] at hq
          exact absurd (Option.some.inj hq).symm he
        | left =>
          rw [renewing,holder_left hturn] at hq
          cases hq

theorem Clean.keep {r : String} (h : Clean x) (hunspent : ¬ Spent r x.log)
    (hstore : t.phone.store .refresh = some r) : Clean ⟨t,(pid,.stored .refresh r) :: x.log⟩ := by
  refine ⟨fun p hp hspent => ?_,fun q p hp hq hspent => ?_⟩
  · obtain rfl := Option.some.inj (hp.symm.trans hstore)
    exact absurd (spent_cons (fun _ => by simp) hspent) hunspent
  · by_cases he : q = pid
    · subst he
      rw [notesOf_cons_self] at hp
      cases hp
    · exact h.armed_other he rfl hp hq (spent_cons (fun _ => by simp) hspent)

theorem Clean.read {p : String} (h : Clean x)
    (hpending : pending (notesOf pid x.log) = none) (hp : x.state.phone.store .refresh = some p)
    (hlead : renewing x.log = some pid) : Clean ⟨x.state,(pid,.read p) :: x.log⟩ := by
  have hunspent : ¬ Spent p x.log := by
    intro hspent
    obtain ⟨q,hq,howes⟩ := h.store p hp hspent
    obtain rfl := Option.some.inj (hlead.symm.trans hq)
    rw [hpending] at howes
    cases howes
  refine h.move (fun _ _ => by simp) (fun _ hr => hr) (fun q hq howes => ?_) fun q p' hp' hq => ?_
  · obtain rfl := Option.some.inj (hlead.symm.trans hq)
    rw [hpending] at howes
    cases howes
  · by_cases he : q = pid
    · subst he
      rw [notesOf_cons_self] at hp'
      obtain rfl := Option.some.inj hp'
      exact hunspent
    · exact h.armed_other he rfl hp' hq

theorem Clean.asked {url : Text} {a : Option Received} (h : Clean x)
    (hstore : t.phone.store = x.state.phone.store) (hfree : renewing x.log ≠ some pid) :
    Clean ⟨t,(pid,.asked url a) :: x.log⟩ := by
  refine h.move (fun _ _ => by simp) (fun r hr => by rwa [hstore] at hr) (fun q hq howes => ?_)
    fun q p hp hq => ?_
  · refine ⟨(holder_other rfl).trans hq,?_⟩
    rw [notesOf_cons_other _ _ (by rintro rfl; exact hfree hq)]
    exact howes
  · by_cases he : q = pid
    · subst he
      rw [notesOf_cons_self] at hp
      cases hp
    · exact h.armed_other he rfl hp hq

theorem Clean.posted {p : String} {a : Option Received} (h : Clean x)
    (hstore : t.phone.store = x.state.phone.store) (hlead : renewing x.log = some pid)
    (hpending : pending (notesOf pid x.log) = none) : Clean ⟨t,(pid,.posted p a) :: x.log⟩ := by
  have hkept : renewing ((pid,.posted p a) :: x.log) = some pid := (holder_other rfl).trans hlead
  refine ⟨fun p' hp' hspent => ⟨pid,hkept,?_⟩,fun q p' hp' hq => ?_⟩
  · rw [hstore] at hp'
    rw [notesOf_cons_self]
    obtain ⟨q,a',hin,ha'⟩ := hspent
    rcases List.mem_cons.mp hin with he | hin
    · cases he
      exact ha'
    · obtain ⟨q',hq',howes⟩ := h.store p' hp' ⟨q,a',hin,ha'⟩
      obtain rfl := Option.some.inj (hlead.symm.trans hq')
      rw [hpending] at howes
      cases howes
  · obtain rfl := Option.some.inj (hkept.symm.trans hq)
    rw [notesOf_cons_self] at hp'
    cases hp'

end Tokens

end Mobile.Renewals
