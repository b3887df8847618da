import ServerHub.Interleave.Turns
import ServerHub.Mobile.Logout

namespace Mobile.Renewals

open Posix Interleave Interleave.Prog

def authLogin : Text := api ++ "/auth/login".toList

def keepRefresh (refreshToken : Option String) : Routine Unit :=
  match truthy refreshToken with
  | none => .ret ()
  | some refresh => perform (.setItem .refresh refresh)

-- false where the page is told that the login failed
def login : Routine Bool := do
  match succeeded (← request authLogin) with
  | none => return false
  | some res =>
  match res.token with
  | none => return false
  | some access =>
      perform (.setItem .token access)
      keepRefresh res.refreshToken
      perform (.setItem .user res.data)
      perform (.signedIn (some res.data) (some access))
      return true

inductive Call where
  | api (url : Text)
  | login
  | logout
  | hydrate
deriving DecidableEq

inductive Outcome where
  | answered (answer : Option Received)
  | loggedIn (success : Bool)
  | settled
deriving DecidableEq

def call : Call → Routine Outcome
  | .api url => do
      let answer ← request url
      return .answered answer
  | .login => do
      let success ← login
      return .loggedIn success
  | .logout => do
      logout
      return .settled
  | .hydrate => do
      hydrate
      return .settled

def app (net : Nat → Option Received) : System where
  Instr := PhoneCall
  State := Online
  Request := Call
  Answer := Outcome
  Env := Empty
  exec := exec net
  handle := call
  env e _ := e.elim

inductive Note where
  | asked (url : Text) (answer : Option Received)
  | entered
  | joined (leader : Nat)
  | read (refresh : String)
  | posted (presented : String) (answer : Option Received)
  | stored (k : Key) (value : String)
  | landed (fresh : Bool)
  | followed (leader : Nat) (fresh : Bool)
deriving DecidableEq

def note : (β : Type) → PhoneCall β → Online → β → Option Note
  | _, .getItem .refresh, _, b => (truthy b).map .read
  | _, .setItem k value, _, _ => some (.stored k value)
  | _, .send r, _, answer =>
      match r.refreshToken with
      | none => some (.asked r.url answer)
      | some presented => some (.posted presented answer)
  | _, .enter, _, none => some .entered
  | _, .enter, _, some leader => some (.joined leader)
  | _, .follow leader, _, fresh => some (.followed leader fresh)
  | _, .land fresh, _, _ => some (.landed fresh)
  | _, _, _, _ => none

abbrev Log := List (Nat × Note)

def Note.turn : Note → Option Turn
  | .entered => some .taken
  | .landed _ => some .left
  | _ => none

abbrev renewing (log : Log) : Option Nat := holder Note.turn log

def carried (answer : Option Received) : Option String :=
  (succeeded answer).bind fun res => truthy res.refreshToken

def rotated (answer : Option Received) : Option String :=
  (succeeded answer).bind fun res => (truthy res.token).bind fun _ => truthy res.refreshToken

def Spent (p : String) (log : Log) : Prop :=
  ∃ pid a, (pid,.posted p a) ∈ log ∧ (rotated a).isSome = true

-- no two answers hand out the same refresh token, and none the first one
structure Fresh (net : Nat → Option Received) (first : Option String) : Prop where
  once : ∀ i j r, carried (net i) = some r → carried (net j) = some r → i = j
  new : ∀ i r, carried (net i) = some r → first ≠ some r

def Note.inner : Note → Bool
  | .read _ | .posted _ _ | .stored _ _ => true
  | _ => false

-- a renewal has ended well, the call's own or the one it waited for
inductive Refreshed : List Note → Prop
  | led (body : List Note) (h : ∀ n ∈ body, n.inner = true) :
      Refreshed (.landed true :: body ++ [.entered])
  | followed (leader : Nat) : Refreshed [.followed leader true,.joined leader]

def Again (url : Text) (ns : List Note) : Prop :=
  ns = [] ∨ ∃ answer between, ns = between ++ [.asked url answer] ∧ unauthorized answer = true ∧
    isAuthPath url = false ∧ Refreshed between

def Justified (fresh : Prop) (older : Log) : Nat × Note → Prop
  | (pid,.asked url _) => Again url (notesOf pid older)
  | (pid,.entered) => renewing older = none ∧ ∀ fresh, (pid,.landed fresh) ∉ older
  | (_,.joined leader) => renewing older = some leader
  | (pid,.posted p _) => renewing older = some pid ∧ (∀ p a, (pid,.posted p a) ∉ older) ∧
      (fresh → ¬ Spent p older)
  | (pid,.landed fresh) => renewing older = some pid ∧
      (fresh = true → ∃ access, (pid,.stored .token access) ∈ older)
  | (_,.followed leader fresh) => (leader,.landed fresh) ∈ older
  | _ => True

section Log

variable {fresh : Prop} {log older mid newer : Log} {pid q : Nat}

theorem justified_turned (h : Chronicle (Justified fresh) log) : Chronicle (Turned Note.turn) log := by
  refine h.imp fun older e he => ?_
  obtain ⟨pid,n⟩ := e
  cases n with
  | entered => exact he.1
  | landed fresh => exact he.1
  | _ => trivial

theorem renewing_unlanded (h : Chronicle (Justified fresh) log) (hq : renewing log = some q) :
    ∀ ended, (q,.landed ended) ∉ log := by
  induction log with
  | nil => exact fun _ => List.not_mem_nil
  | cons e log ih =>
    obtain ⟨pid,n⟩ := e
    intro ended hin
    cases n with
    | entered =>
      obtain rfl := Option.some.inj hq
      rcases List.mem_cons.mp hin with he | hin
      · cases he
      · exact h.1.2 ended hin
    | landed fresh => cases hq
    | _ =>
      rcases List.mem_cons.mp hin with he | hin
      · cases he
      · exact ih h.2 hq ended hin

theorem joined_landed {fresh' : Bool} (h : Chronicle (Justified fresh) (mid ++ (pid,.joined q) :: older))
    (hm : (q,.landed fresh') ∈ mid ++ (pid,.joined q) :: older) : (q,.landed fresh') ∈ mid := by
  obtain ⟨hjoined,hold⟩ := h.at
  rcases List.mem_append.mp hm with hm | hm
  · exact hm
  · rcases List.mem_cons.mp hm with he | hin
    · cases he
    · exact absurd hin (renewing_unlanded hold hjoined fresh')

theorem posts_apart {p p' : String} {a a' : Option Received}
    (h : Chronicle (Justified fresh) (newer ++ (q,.posted p' a') :: mid ++ (pid,.posted p a) :: older)) :
    ∃ ended, (pid,.landed ended) ∈ mid := by
  rw [List.append_assoc] at h
  obtain ⟨⟨hq,hfirst,-⟩,hmid⟩ := h.at
  obtain ⟨⟨hpid,-⟩,-⟩ := hmid.at
  by_contra hnever
  have hkept : renewing (mid ++ (pid,.posted p a) :: older) = some pid := by
    refine holder_kept (justified_turned hmid) ?_ fun n hn hin => ?_
    · exact (holder_other rfl).trans hpid
    · cases n with
      | landed ended => exact hnever ⟨ended,hin⟩
      | _ => cases hn
  obtain rfl := Option.some.inj (hkept.symm.trans hq)
  exact hfirst p a (List.mem_append_right _ List.mem_cons_self)

theorem posts_differ {p p' : String} {a a' : Option Received} (hfresh : fresh)
    (h : Chronicle (Justified fresh) (newer ++ (q,.posted p' a') :: mid ++ (pid,.posted p a) :: older))
    (ha : (rotated a).isSome = true) : p' ≠ p := by
  rw [List.append_assoc] at h
  rintro rfl
  exact h.at.1.2.2 hfresh ⟨pid,a,List.mem_append_right _ List.mem_cons_self,ha⟩

theorem refreshed_unasked {ns : List Note} (h : Refreshed ns) (url : Text) (a : Option Received) :
    .asked url a ∉ ns := by
  intro hin
  cases h with
  | led body hbody =>
    simp only [List.cons_append,List.mem_cons,List.mem_append,List.not_mem_nil,or_false,
      reduceCtorEq,false_or] at hin
    cases hbody _ hin
  | followed leader => simp at hin

theorem again_cut {url url' : Text} {a : Option Received} {later earlier : List Note}
    (h : Again url (later ++ .asked url' a :: earlier)) : url' = url ∧ unauthorized a = true ∧
      isAuthPath url = false ∧ Refreshed later ∧ earlier = [] := by
  rcases h with h | ⟨answer,between,he,hunauthorized,hpath,hbetween⟩
  · simp at h
  · obtain ⟨rest,rfl,hrest⟩ | ⟨rest,rfl,hrest⟩ := List.append_eq_append_iff.mp he
    · cases rest with
      | nil =>
        obtain ⟨hhead,rfl⟩ := List.cons.inj hrest
        cases hhead
        exact ⟨rfl,hunauthorized,hpath,by simpa using hbetween,rfl⟩
      | cons m rest =>
        obtain ⟨rfl,-⟩ := List.cons.inj hrest
        exact absurd (List.mem_append_right _ List.mem_cons_self) (refreshed_unasked hbetween url' a)
    · cases rest with
      | nil =>
        obtain ⟨hhead,rfl⟩ := List.cons.inj hrest
        cases hhead
        exact ⟨rfl,hunauthorized,hpath,by simpa using hbetween,rfl⟩
      | cons m rest =>
        obtain ⟨-,hnil⟩ := List.cons.inj hrest
        simp at hnil

theorem asked_again {url url' : Text} {a : Option Received}
    (hagain : Again url' (notesOf pid (mid ++ (pid,.asked url a) :: older)))
    (hlog : Chronicle (Justified fresh) (mid ++ (pid,.asked url a) :: older)) :
    url' = url ∧ unauthorized a = true ∧ isAuthPath url = false ∧ (∀ n, (pid,n) ∉ older) ∧
      ∃ later leader earlier access, mid = later ++ (leader,.landed true) :: earlier ∧
        (leader,.stored .token access) ∈ earlier ++ (pid,.asked url a) :: older := by
  rw [notesOf_append,notesOf_cons_self] at hagain
  obtain ⟨rfl,hunauthorized,hpath,hrefreshed,hfirst⟩ := again_cut hagain
  have hended : ∃ leader, (leader,.landed true) ∈ mid := by
    generalize hbetween : notesOf pid mid = between at hrefreshed
    cases hrefreshed with
    | led body hbody =>
      exact ⟨pid,mem_notesOf.mp (by rw [hbetween]; exact List.mem_cons_self)⟩
    | followed leader =>
      obtain ⟨newest,rest,rfl,hnewest⟩ := notesOf_split [] hbetween
      have hrest : notesOf pid rest = [.joined leader] := by
        rw [notesOf_append,hnewest,notesOf_cons_self] at hbetween
        exact (List.cons.inj hbetween).2
      obtain ⟨newer,oldest,rfl,-⟩ := notesOf_split [] hrest
      rw [List.append_assoc,List.cons_append,List.append_assoc] at hlog
      obtain ⟨hfollowed,hlog⟩ := hlog.at
      exact ⟨leader,List.mem_append_right _ (List.mem_cons_of_mem _
        (List.mem_append_left _ (joined_landed hlog hfollowed)))⟩
  obtain ⟨leader,hin⟩ := hended
  obtain ⟨later,earlier,rfl⟩ := List.append_of_mem hin
  rw [List.append_assoc] at hlog
  obtain ⟨access,hstored⟩ := hlog.at.1.2 rfl
  refine ⟨rfl,hunauthorized,hpath,fun n hn => ?_,later,leader,earlier,access,rfl,hstored⟩
  have hnone := mem_notesOf.mpr hn
  rw [hfirst] at hnone
  cases hnone

end Log

end Mobile.Renewals
