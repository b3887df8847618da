import ServerHub.Go.Strings

namespace Go

abbrev IP := BitVec 128

namespace IP

def ofBytes (bytes : List Nat) : IP := BitVec.ofNat 128 (bytes.foldl (fun n b => 256 * n + b) 0)

def v4 (bytes : List Nat) : IP := ofBytes (0xff :: 0xff :: bytes)

def to4 (ip : IP) : Option (BitVec 32) :=
  if ip >>> 32 = 0xffff#128 then some (ip.setWidth 32) else none

def isUnspecified (ip : IP) : Bool := ip == v4 [0,0,0,0] || ip == 0

def isMulticast (ip : IP) : Bool :=
  match ip.to4 with
  | some ip4 => ip4 >>> 28 == 0xe
  | none => ip >>> 120 == 0xff

def isLoopback (ip : IP) : Bool :=
  match ip.to4 with
  | some ip4 => ip4 >>> 24 == 127
  | none => ip == 1

def isPrivate (ip : IP) : Bool :=
  match ip.to4 with
  | some ip4 => ip4 >>> 24 == 10 || ip4 >>> 20 == 0xac1 || ip4 >>> 16 == 0xc0a8
  | none => ip >>> 121 == 0x7e

def isLinkLocalUnicast (ip : IP) : Bool :=
  match ip.to4 with
  | some ip4 => ip4 >>> 16 == 0xa9fe
  | none => ip >>> 118 == 0x3fa

def isLinkLocalMulticast (ip : IP) : Bool :=
  match ip.to4 with
  | some ip4 => ip4 >>> 8 == 0xe00000
  | none => ip >>> 120 == 0xff && (ip >>> 112) &&& 0xf == 2

end IP

def octet (s : List Char) : Option Nat :=
  if s.head? = some '0' ∧ s ≠ ['0'] then none
  else (digits s).filter fun n => n ≤ 255

def parseIPv4Fields (s : List Char) : Option (List Nat) :=
  let fields := s.splitOn '.'
  if fields.length = 4 then fields.mapM octet else none

def parseIPv4 (s : List Char) : Option IP := (parseIPv4Fields s).map IP.v4

def hexDigit (c : Char) : Option Nat :=
  if '0' ≤ c ∧ c ≤ '9' then some (c.toNat - 48)
  else if 'a' ≤ c ∧ c ≤ 'f' then some (c.toNat - 87)
  else if 'A' ≤ c ∧ c ≤ 'F' then some (c.toNat - 55)
  else none

def hexGroup (s : List Char) : List Nat × List Char :=
  (s.takeWhile (hexDigit · |>.isSome) |>.filterMap hexDigit,s.dropWhile (hexDigit · |>.isSome))

structure Groups where
  bytes : List Nat
  ellipsis : Option Nat
  rest : List Char

-- one turn reads one group of at most four digits; sixteen bytes end the loop
def parseGroups : Nat → Groups → Option Groups
  | 0, g => some g
  | room + 1, g =>
      let x := hexGroup g.rest
      let acc := x.1.foldl (fun n d => 16 * n + d) 0
      if x.1 = [] ∨ 4 < x.1.length then none
      else if x.2.head? = some '.' then
        if (g.ellipsis.isNone ∧ g.bytes.length ≠ 12) ∨ 12 < g.bytes.length then none
        else (parseIPv4Fields g.rest).map fun fields => ⟨g.bytes ++ fields,g.ellipsis,[]⟩
      else
        let bytes := g.bytes ++ [acc / 256,acc % 256]
        match x.2 with
        | [] => some ⟨bytes,g.ellipsis,[]⟩
        | [_] => none
        | c :: d :: rest =>
            if c ≠ ':' then none
            else if d ≠ ':' then parseGroups room ⟨bytes,g.ellipsis,d :: rest⟩
            else if g.ellipsis.isSome then none
            else if rest = [] then some ⟨bytes,some bytes.length,[]⟩
            else parseGroups room ⟨bytes,some bytes.length,rest⟩

def Groups.address (g : Groups) : Option IP :=
  if g.rest ≠ [] then none
  else
    match g.ellipsis with
    | none => if g.bytes.length < 16 then none else some (IP.ofBytes g.bytes)
    | some i =>
        if g.bytes.length < 16 then
          some (IP.ofBytes
            (g.bytes.take i ++ List.replicate (16 - g.bytes.length) 0 ++ g.bytes.drop i))
        else none

def parseIPv6 (s : List Char) : Option IP :=
  match s with
  | ':' :: ':' :: rest =>
      if rest = [] then some 0 else (parseGroups 8 ⟨[],some 0,rest⟩).bind Groups.address
  | _ => (parseGroups 8 ⟨[],none,s⟩).bind Groups.address

def beforeZone (s : List Char) : List Char := s.takeWhile (· ≠ '%')

-- the address and its zone; a zone is written after a per cent sign and is not empty
def parseAddr (s : List Char) : Option (IP × List Char) :=
  match s.find? (fun c => c == '.' || c == ':' || c == '%') with
  | some '.' => (parseIPv4 s).map (·,[])
  | some ':' =>
      if s.dropWhile (· ≠ '%') = ['%'] then none
      else (parseIPv6 (beforeZone s)).map (·,(s.dropWhile (· ≠ '%')).tail)
  | _ => none

def parseIP (s : List Char) : Option IP :=
  match parseAddr s with
  | some (ip,[]) => some ip
  | _ => none

def lastColon (s : List Char) : Option (List Char × List Char) :=
  if ':' ∈ s then
    some ((s.reverse.dropWhile (· ≠ ':')).tail.reverse,(s.reverse.takeWhile (· ≠ ':')).reverse)
  else none

def splitHostPort (s : List Char) : Option (List Char × List Char) :=
  match lastColon s with
  | none => none
  | some (before,port) =>
      if s.head? = some '[' then
        let host := s.tail.takeWhile (· ≠ ']')
        if before = '[' :: host ++ [']'] ∧ '[' ∉ s.tail ∧ ']' ∉ port then some (host,port) else none
      else if ':' ∈ before ∨ '[' ∈ s ∨ ']' ∈ s then none
      else some (before,port)

section Zones

variable {s f : List Char} {c sep : Char} {ip : IP} {zone : List Char}

theorem mem_field (h : c ∈ s) (hc : c ≠ sep) : ∃ f ∈ s.splitOn sep, c ∈ f := by
  induction s with
  | nil => cases h
  | cons x s ih =>
    rw [List.splitOn_cons_eq_if_modifyHead]
    obtain ⟨g,fields,hfields⟩ := List.exists_cons_of_ne_nil (List.splitOn_ne_nil sep s)
    rw [hfields] at ih ⊢
    split
    · rename_i hx
      rcases List.mem_cons.mp h with rfl | hm
      · exact absurd (beq_iff_eq.mp hx) hc
      · obtain ⟨f,hf,hcf⟩ := ih hm
        exact ⟨f,List.mem_cons_of_mem _ hf,hcf⟩
    · rcases List.mem_cons.mp h with rfl | hm
      · exact ⟨_,List.mem_cons_self,List.mem_cons_self⟩
      · obtain ⟨f,hf,hcf⟩ := ih hm
        rcases List.mem_cons.mp hf with rfl | hf
        · exact ⟨_,List.mem_cons_self,List.mem_cons_of_mem _ hcf⟩
        · exact ⟨f,List.mem_cons_of_mem _ hf,hcf⟩

theorem isDigit_of_foldlM {n m : Nat}
    (h : f.foldlM (fun n c => if isDigit c then some (10 * n + (c.toNat - 48)) else none) n = some m)
    (hc : c ∈ f) : isDigit c := by
  induction f generalizing n with
  | nil => cases hc
  | cons x f ih =>
    rw [List.foldlM_cons] at h
    obtain ⟨k,hx,hrest⟩ := Option.bind_eq_some_iff.mp h
    rcases List.mem_cons.mp hc with rfl | hm
    · exact (Option.ite_none_right_eq_some.mp hx).1
    · exact ih hrest hm

theorem octet_digits {n : Nat} (h : octet f = some n) (hc : c ∈ f) : isDigit c := by
  obtain ⟨-,h⟩ := Option.ite_none_left_eq_some.mp h
  obtain ⟨hd,-⟩ := Option.filter_eq_some_iff.mp h
  exact isDigit_of_foldlM (Option.ite_none_left_eq_some.mp hd).2 hc

theorem octets_some {fields : List (List Char)} {bytes : List Nat}
    (h : fields.mapM octet = some bytes) (hf : f ∈ fields) : ∃ n, octet f = some n := by
  induction fields generalizing bytes with
  | nil => cases hf
  | cons g fields ih =>
    rw [List.mapM_cons] at h
    obtain ⟨n,hn,hrest⟩ := Option.bind_eq_some_iff.mp h
    obtain ⟨ns,hns,-⟩ := Option.bind_eq_some_iff.mp hrest
    rcases List.mem_cons.mp hf with rfl | hm
    · exact ⟨n,hn⟩
    · exact ih hns hm

theorem parseIPv4_chars (h : parseIPv4 s = some ip) (hc : c ∈ s) : c = '.' ∨ isDigit c := by
  by_cases hdot : c = '.'
  · exact .inl hdot
  · right
    obtain ⟨bytes,hbytes,-⟩ := Option.map_eq_some_iff.mp h
    obtain ⟨-,hfields⟩ := Option.ite_none_right_eq_some.mp hbytes
    obtain ⟨f,hf,hcf⟩ := mem_field hc hdot
    obtain ⟨n,hn⟩ := octets_some hfields hf
    exact octet_digits hn hcf

theorem beforeZone_plain (h : c ∈ beforeZone s) : c ≠ '%' := by
  have hkept := List.mem_takeWhile_imp h
  simpa using hkept

theorem find_beforeZone (h : s.find? (fun c => c == '.' || c == ':' || c == '%') = some ':') :
    (beforeZone s).find? (fun c => c == '.' || c == ':' || c == '%') = some ':' := by
  obtain ⟨hcolon,before,after,rfl,hbefore⟩ := List.find?_eq_some_iff_append.mp h
  have hplain : ∀ c ∈ before, decide (c ≠ '%') = true := by
    intro c hc
    have hnone := hbefore c hc
    simp only [Bool.not_eq_true',Bool.or_eq_false_iff,beq_eq_false_iff_ne] at hnone
    simpa using hnone.2
  refine List.find?_eq_some_iff_append.mpr ⟨hcolon,before,after.takeWhile (· ≠ '%'),?_,hbefore⟩
  rw [beforeZone,List.takeWhile_append_of_pos hplain]
  rfl

theorem parseAddr_beforeZone (h : parseAddr s = some (ip,zone)) : parseIP (beforeZone s) = some ip := by
  unfold parseAddr at h
  split at h
  · rename_i hfirst
    obtain ⟨ip',hip,heq⟩ := Option.map_eq_some_iff.mp h
    obtain ⟨rfl,-⟩ := Prod.mk.inj heq
    have hbefore : beforeZone s = s := by
      refine List.takeWhile_eq_self_iff.mpr fun c hc => ?_
      rcases parseIPv4_chars hip hc with rfl | hd
      · rfl
      · have hpercent : c ≠ '%' := by
          rintro rfl
          exact absurd hd (by decide)
        simpa using hpercent
    simp only [hbefore,parseIP,parseAddr,hfirst,hip,Option.map_some]
  · rename_i hfirst
    obtain ⟨-,h⟩ := Option.ite_none_left_eq_some.mp h
    obtain ⟨ip',hip,heq⟩ := Option.map_eq_some_iff.mp h
    obtain ⟨rfl,-⟩ := Prod.mk.inj heq
    have hone := find_beforeZone hfirst
    have hzone : (beforeZone s).dropWhile (· ≠ '%') = [] :=
      List.dropWhile_eq_nil_iff.mpr fun c hc => decide_eq_true (beforeZone_plain hc)
    have htwice : beforeZone (beforeZone s) = beforeZone s :=
      List.takeWhile_eq_self_iff.mpr fun c hc => decide_eq_true (beforeZone_plain hc)
    simp only [parseIP,parseAddr,hone,hzone,htwice,hip]
    rfl
  · cases h

theorem lastColon_mem {before after : List Char} (h : lastColon s = some (before,after))
    (hc : c ∈ before) : c ∈ s := by
  obtain ⟨-,heq⟩ := Option.ite_none_right_eq_some.mp h
  obtain ⟨rfl,-⟩ := Prod.mk.inj (Option.some.inj heq)
  have hdropped := List.mem_of_mem_tail (List.mem_reverse.mp hc)
  exact List.mem_reverse.mp ((List.dropWhile_suffix _).subset hdropped)

theorem splitHostPort_plain {host port : List Char} (h : splitHostPort s = some (host,port))
    (hc : c ∈ host) : c ≠ '[' ∧ c ≠ ']' := by
  unfold splitHostPort at h
  cases hl : lastColon s with
  | none => simp [hl] at h
  | some x =>
    obtain ⟨before,after⟩ := x
    simp only [hl] at h
    split at h
    · obtain ⟨⟨-,hopen,-⟩,heq⟩ := Option.ite_none_right_eq_some.mp h
      obtain ⟨rfl,-⟩ := Prod.mk.inj (Option.some.inj heq)
      refine ⟨?_,?_⟩
      · rintro rfl
        exact hopen (List.takeWhile_subset _ hc)
      · have hkept := List.mem_takeWhile_imp hc
        simpa using hkept
    · obtain ⟨hclear,heq⟩ := Option.ite_none_left_eq_some.mp h
      obtain ⟨rfl,-⟩ := Prod.mk.inj (Option.some.inj heq)
      have hmem : c ∈ s := lastColon_mem hl hc
      refine ⟨?_,?_⟩
      · rintro rfl
        exact hclear (.inr (.inl hmem))
      · rintro rfl
        exact hclear (.inr (.inr hmem))

end Zones

end Go
