import ServerHub.Go.Netip

namespace SafeHttp

open Go

def metadataIPs : List IP :=
  ["169.254.169.254","fd00:ec2::254"].filterMap fun s => parseIP s.toList

def deniedByPolicy (ip : IP) (strict : Bool) : Bool :=
  if ip.isUnspecified || ip.isMulticast then true
  else if metadataIPs.contains ip then true
  else if !strict then false
  else ip.isLoopback || ip.isPrivate || ip.isLinkLocalUnicast || ip.isLinkLocalMulticast

abbrev Answer := Except String (List IP)

inductive Failure where
  | invalidAddress (addr : List Char)
  | notAllowed (host : List Char)
  | unresolved (host : List Char) (reason : Option String)
  | disallowed (host : List Char)
  | dial (reason : String)
deriving DecidableEq

def brackets (c : Char) : Bool := c == '[' || c == ']'

def trimBrackets (s : List Char) : List Char := (s.dropWhile brackets).rdropWhile brackets

def literal (host : List Char) : Option IP := parseIP (trimBrackets (beforeZone host))

-- a literal is its own answer; any other name takes the answer of the lookup
def lookupIPAddr (answer : Answer) (host : List Char) : Answer :=
  match parseAddr host with
  | some x => .ok [x.1]
  | none => answer

-- dialing :: falls back to 0.0.0.0
def internetAddrList (answer : Answer) (host : List Char) : Answer :=
  match lookupIPAddr answer host with
  | .ok [ip] => if ip = 0 then .ok [ip,IP.v4 [0,0,0,0]] else .ok [ip]
  | a => a

def lookupIP (answer : Answer) (host : List Char) : Answer :=
  if host = [] then .error "no such host" else internetAddrList answer host

structure Check where
  checked : List (IP × Bool)
  error : Option Failure
deriving DecidableEq

def checkAll (strict : Bool) : List IP → List (IP × Bool) × Bool
  | [] => ([],true)
  | ip :: ips =>
      if deniedByPolicy ip strict then ([(ip,true)],false)
      else ((ip,false) :: (checkAll strict ips).1,(checkAll strict ips).2)

def resolveAndCheck (answer : Answer) (host : List Char) (strict : Bool) : Check :=
  match literal host with
  | some ip =>
      if deniedByPolicy ip strict then ⟨[(ip,true)],some (.notAllowed host)⟩ else ⟨[(ip,false)],none⟩
  | none =>
      match lookupIP answer host with
      | .error e => ⟨[],some (.unresolved host (some e))⟩
      | .ok ips =>
          if ips = [] then ⟨[],some (.unresolved host none)⟩
          else
            ⟨(checkAll strict ips).1,
              if (checkAll strict ips).2 then none else some (.disallowed host)⟩

-- which of the resolved addresses the dialer tries before one accepts
structure Network where
  tries : List IP → List IP
  among : ∀ ips, tries ips ⊆ ips

structure Dialed where
  checked : List (IP × Bool)
  connected : List IP
  error : Option Failure

def dialer (net : Network) (strict : Bool) (addr : List Char) (ofCheck ofDial : Answer) : Dialed :=
  match splitHostPort addr with
  | none => ⟨[],[],some (.invalidAddress addr)⟩
  | some (host,_) =>
      let check := resolveAndCheck ofCheck host strict
      match check.error with
      | some e => ⟨check.checked,[],some e⟩
      | none =>
          match internetAddrList ofDial host with
          | .error e => ⟨check.checked,[],some (.dial e)⟩
          | .ok ips => ⟨check.checked,net.tries ips,none⟩

def Dialed.Guarded (d : Dialed) : Prop := ∀ ip ∈ d.connected, (ip,false) ∈ d.checked

def addresses : Answer → List IP
  | .ok ips => ips
  | .error _ => []

def vetted (answer : Answer) (host : List Char) : List IP :=
  match literal host with
  | some ip => [ip]
  | none => addresses (lookupIP answer host)

def Refused (strict : Bool) (answer : Answer) (host : List Char) : Prop :=
  vetted answer host = [] ∨ ∃ ip ∈ vetted answer host, deniedByPolicy ip strict

def Agreeing (net : Network) (strict : Bool) (addr : List Char) (ofCheck ofDial : Answer) : Prop :=
  ∀ host port, splitHostPort addr = some (host,port) →
    (parseAddr host).isSome ∨ Refused strict ofCheck host ∨
      ∀ ips, internetAddrList ofDial host = .ok ips → ∀ ip ∈ net.tries ips, ip ∈ vetted ofCheck host

variable {net : Network} {strict : Bool} {addr host port : List Char} {ofCheck ofDial : Answer}
  {ip : IP} {ips : List IP}

theorem checkAll_ok : (checkAll strict ips).2 = true ↔ ∀ ip ∈ ips, deniedByPolicy ip strict = false := by
  induction ips with
  | nil => simp [checkAll]
  | cons ip ips ih =>
    rw [checkAll]
    by_cases h : deniedByPolicy ip strict
    · simp [h]
    · simp [h,ih]

theorem mem_checkAll (h : (checkAll strict ips).2 = true) :
    (ip,false) ∈ (checkAll strict ips).1 ↔ ip ∈ ips := by
  induction ips with
  | nil => simp [checkAll]
  | cons a ips ih =>
    rw [checkAll] at h ⊢
    by_cases ha : deniedByPolicy a strict
    · simp [ha] at h
    · rw [if_neg ha] at h ⊢
      simp [ih h]

theorem resolveAndCheck_ok :
    (resolveAndCheck ofCheck host strict).error = none ↔ ¬Refused strict ofCheck host := by
  unfold resolveAndCheck Refused vetted
  cases literal host with
  | some ip => by_cases h : deniedByPolicy ip strict <;> simp [h]
  | none =>
    cases lookupIP ofCheck host with
    | error e => simp [addresses]
    | ok ips =>
      by_cases hips : ips = []
      · simp [addresses,hips]
      · have hall := @checkAll_ok strict ips
        cases hc : (checkAll strict ips).2 <;> simp_all [addresses]

theorem mem_checked (h : (resolveAndCheck ofCheck host strict).error = none) :
    (ip,false) ∈ (resolveAndCheck ofCheck host strict).checked ↔ ip ∈ vetted ofCheck host := by
  have hok := resolveAndCheck_ok.mp h
  revert h hok
  unfold resolveAndCheck Refused vetted
  cases literal host with
  | some a => by_cases ha : deniedByPolicy a strict <;> simp [ha]
  | none =>
    cases lookupIP ofCheck host with
    | error e => simp [addresses]
    | ok ips =>
      by_cases hips : ips = []
      · simp [addresses,hips]
      · intro h hok
        simp only [if_neg hips] at h ⊢
        exact mem_checkAll (by simpa using h)

theorem literal_of_parseAddr {x : IP × List Char} (hsplit : splitHostPort addr = some (host,port))
    (h : parseAddr host = some x) : literal host = some x.1 := by
  have htrim : trimBrackets (beforeZone host) = beforeZone host := by
    have hplain : ∀ c ∈ beforeZone host, brackets c = false := by
      intro c hc
      have hne := splitHostPort_plain hsplit (List.takeWhile_subset _ hc)
      simp [brackets,hne.1,hne.2]
    have hfront : (beforeZone host).dropWhile brackets = beforeZone host := by
      cases hb : beforeZone host with
      | nil => rfl
      | cons c cs =>
        rw [hb] at hplain
        exact List.dropWhile_cons_of_neg (by simp [hplain c List.mem_cons_self])
    rw [trimBrackets,hfront,List.rdropWhile_eq_self_iff]
    intro hne
    simp [hplain _ (List.getLast_mem hne)]
  rw [literal,htrim]
  exact parseAddr_beforeZone h

theorem agreeing_iff (hsplit : splitHostPort addr = some (host,port)) :
    Agreeing net strict addr ofCheck ofDial ↔
      (parseAddr host).isSome ∨ Refused strict ofCheck host ∨
        ∀ ips, internetAddrList ofDial host = .ok ips → ∀ ip ∈ net.tries ips, ip ∈ vetted ofCheck host := by
  constructor
  · exact fun h => h host port hsplit
  · intro h host' port' hsplit'
    cases hsplit.symm.trans hsplit'
    exact h

-- an accepted literal is not ::, so the fallback adds nothing to it
theorem literal_dialed {x : IP × List Char} (hsplit : splitHostPort addr = some (host,port))
    (hlit : parseAddr host = some x) (hok : ¬Refused strict ofCheck host) :
    internetAddrList ofDial host = .ok [x.1] ∧ vetted ofCheck host = [x.1] := by
  have hvetted : vetted ofCheck host = [x.1] := by
    rw [vetted,literal_of_parseAddr hsplit hlit]
  refine ⟨?_,hvetted⟩
  have hzero : x.1 ≠ 0 := by
    intro h0
    refine hok (.inr ⟨x.1,by simp [hvetted],?_⟩)
    rw [h0]
    cases strict <;> decide
  simp only [internetAddrList,lookupIPAddr,hlit,if_neg hzero]

theorem dialed_checked : (dialer net strict addr ofCheck ofDial).Guarded ↔
    Agreeing net strict addr ofCheck ofDial := by
  cases hsplit : splitHostPort addr with
  | none => simp [dialer,hsplit,Dialed.Guarded,Agreeing]
  | some x =>
    obtain ⟨host,port⟩ := x
    rw [agreeing_iff hsplit]
    cases hcheck : (resolveAndCheck ofCheck host strict).error with
    | some e =>
      have hrefused : Refused strict ofCheck host := by
        by_contra h
        rw [resolveAndCheck_ok.mpr h] at hcheck
        cases hcheck
      simp only [dialer,hsplit,hcheck]
      exact ⟨fun _ => .inr (.inl hrefused),fun _ _ h => absurd h List.not_mem_nil⟩
    | none =>
      have hnot := resolveAndCheck_ok.mp hcheck
      have hguarded : (dialer net strict addr ofCheck ofDial).Guarded ↔
          ∀ ips, internetAddrList ofDial host = .ok ips →
            ∀ ip ∈ net.tries ips, ip ∈ vetted ofCheck host := by
        simp only [dialer,hsplit,hcheck]
        cases internetAddrList ofDial host with
        | error e => simp [Dialed.Guarded]
        | ok ips => simp [Dialed.Guarded,mem_checked hcheck]
      rw [hguarded]
      constructor
      · exact fun h => .inr (.inr h)
      · rintro (hlit | hrefused | h)
        · obtain ⟨x,hx⟩ := Option.isSome_iff_exists.mp hlit
          obtain ⟨hdial,hvetted⟩ := literal_dialed hsplit hx hnot
          intro ips hips ip hip
          cases hdial.symm.trans hips
          rw [hvetted]
          exact net.among _ hip
        · exact absurd hrefused hnot
        · exact h

def Network.all : Network := ⟨fun ips => ips,fun _ _ h => h⟩

theorem rebinding_connects : ¬∀ (net : Network) (strict : Bool) (addr : List Char)
    (ofCheck ofDial : Answer), (dialer net strict addr ofCheck ofDial).Guarded := by
  intro h
  have hguarded := h .all false "h.test:80".toList (.ok [IP.v4 [93,184,216,34]])
    (.ok [IP.v4 [169,254,169,254]]) (IP.v4 [169,254,169,254]) (by decide +kernel)
  revert hguarded
  decide +kernel

end SafeHttp
