import ServerHub.Go.Strings

namespace Go.Json

abbrev Bytes := List UInt8

inductive Value where
  | null
  | bool (b : Bool)
  | number (literal : Bytes)
  | string (s : String)
  | array (items : List Value)
  | object (members : List (String × Value))

def byte (c : Char) : UInt8 := c.toNat.toUInt8

def bytes (s : String) : Bytes := s.toList.map byte

def isSpace (b : UInt8) : Bool := b == byte ' ' || b == byte '\t' || b == byte '\r' || b == byte '\n'

def hexDigit (b : UInt8) : Option Nat :=
  if byte '0' ≤ b ∧ b ≤ byte '9' then some (b.toNat - 48)
  else if byte 'a' ≤ b ∧ b ≤ byte 'f' then some (b.toNat - 87)
  else if byte 'A' ≤ b ∧ b ≤ byte 'F' then some (b.toNat - 55)
  else none

def getu4 : Bytes → Option Nat
  | b :: u :: a :: c :: d :: e :: _ =>
      if b = byte '\\' ∧ u = byte 'u' then
        [a,c,d,e].foldlM (fun n x => (hexDigit x).map (16 * n + ·)) 0
      else none
  | _ => none

def replacement : Char := Char.ofNat 0xfffd

def isSurrogate (r : Nat) : Bool := 0xd800 ≤ r && r < 0xe000

def surrogatePair (r : Nat) (s : Bytes) : Option Char :=
  match getu4 s with
  | some r' =>
      if r < 0xdc00 ∧ 0xdc00 ≤ r' ∧ r' < 0xe000 then
        some (Char.ofNat (0x10000 + (r - 0xd800) * 1024 + (r' - 0xdc00)))
      else none
  | none => none

def unescape (s : Bytes) (b : UInt8) : Char × Nat :=
  if b = byte 'b' then (Char.ofNat 8,2)
  else if b = byte 'f' then (Char.ofNat 12,2)
  else if b = byte 'n' then ('\n',2)
  else if b = byte 'r' then ('\r',2)
  else if b = byte 't' then ('\t',2)
  else if b = byte 'u' then
    match getu4 s with
    | none => (replacement,2)
    | some r =>
        if isSurrogate r then
          match surrogatePair r (s.drop 6) with
          | some c => (c,12)
          | none => (replacement,6)
        else (Char.ofNat r,6)
  else (Char.ofNat b.toNat,2)

def isTail (b : UInt8) : Bool := 0x80 ≤ b && b ≤ 0xbf

def tailBits (b : UInt8) : Nat := b.toNat % 64

-- first byte, its least and greatest second byte, and how many bytes there are
def leads : List (UInt8 × UInt8 × UInt8 × UInt8 × Nat) :=
  [(0xc2,0xdf,0x80,0xbf,2),(0xe0,0xe0,0xa0,0xbf,3),(0xe1,0xec,0x80,0xbf,3),(0xed,0xed,0x80,0x9f,3),
    (0xee,0xef,0x80,0xbf,3),(0xf0,0xf0,0x90,0xbf,4),(0xf1,0xf3,0x80,0xbf,4),(0xf4,0xf4,0x80,0x8f,4)]

def decodeRune (b : UInt8) (s : Bytes) : Char × Nat :=
  if b < 0x80 then (Char.ofNat b.toNat,1)
  else
    match leads.find? fun lead => lead.1 ≤ b && b ≤ lead.2.1 with
    | none => (replacement,1)
    | some (_,_,least,greatest,size) =>
        let tail := (s.drop 1).take (size - 1)
        if tail.length = size - 1 && tail.all isTail &&
            tail.head?.all fun c => least ≤ c && c ≤ greatest then
          (Char.ofNat (tail.foldl (fun n c => 64 * n + tailBits c) (b.toNat % 2 ^ (7 - size))),size)
        else (replacement,1)

def nextRune : Bytes → Option (Char × Nat)
  | [] => none
  | b :: s =>
      if b = byte '\\' then
        match s with
        | [] => some (replacement,1)
        | c :: _ => some (unescape (b :: s) c)
      else some (decodeRune b (b :: s))

def unquoteFrom : Nat → Bytes → List Char
  | 0, _ => []
  | n + 1, s =>
      match nextRune s with
      | none => []
      | some (c,size) => c :: unquoteFrom n (s.drop size)

def unquote (s : Bytes) : String := String.ofList (unquoteFrom s.length s)

inductive Digits where
  | neg
  | zero
  | int
  | dot
  | frac
  | e
  | eSign
  | exp
deriving DecidableEq

def Digits.complete : Digits → Bool
  | .zero | .int | .frac | .exp => true
  | _ => false

def isDigit (b : UInt8) : Bool := byte '0' ≤ b && b ≤ byte '9'

def isExp (b : UInt8) : Bool := b == byte 'e' || b == byte 'E'

def Digits.next (d : Digits) (b : UInt8) : Option Digits :=
  match d with
  | .neg => if b = byte '0' then some .zero else if isDigit b then some .int else none
  | .zero => if b = byte '.' then some .dot else if isExp b then some .e else none
  | .int =>
      if isDigit b then some .int
      else if b = byte '.' then some .dot else if isExp b then some .e else none
  | .dot => if isDigit b then some .frac else none
  | .frac => if isDigit b then some .frac else if isExp b then some .e else none
  | .e =>
      if b = byte '+' || b = byte '-' then some .eSign else if isDigit b then some .exp else none
  | .eSign => if isDigit b then some .exp else none
  | .exp => if isDigit b then some .exp else none

inductive Mode where
  | value
  | valueOrEmpty
  | string
  | stringOrEmpty
  | text (raw : Bytes)
  | escape (raw : Bytes)
  | unicode (left : Nat) (raw : Bytes)
  | number (d : Digits) (raw : Bytes)
  | literal (left : Bytes) (v : Value)
  | ended

inductive Frame where
  | array (items : List Value)
  | key (members : List (String × Value))
  | colon (members : List (String × Value)) (key : String)
  | member (members : List (String × Value)) (key : String)
  | object (members : List (String × Value))

inductive Progress where
  | more (m : Mode) (frames : List Frame)
  | done (v : Value) (used : Bool)
  | error

def maxNestingDepth : Nat := 10000

def push (m : Mode) (f : Frame) (frames : List Frame) : Progress :=
  if frames.length < maxNestingDepth then .more m (f :: frames) else .error

def complete (v : Value) : List Frame → Progress
  | [] => .done v true
  | .array items :: fs => .more .ended (.array (items ++ [v]) :: fs)
  | .member ms k :: fs => .more .ended (.object (ms ++ [(k,v)]) :: fs)
  | .key ms :: fs =>
      match v with
      | .string k => .more .ended (.colon ms k :: fs)
      | _ => .error
  | _ => .error

def endValue (fs : List Frame) (b : UInt8) : Progress :=
  if isSpace b then .more .ended fs
  else
    match fs with
    | .colon ms k :: fs => if b = byte ':' then .more .value (.member ms k :: fs) else .error
    | .object ms :: fs =>
        if b = byte ',' then .more .string (.key ms :: fs)
        else if b = byte '\x7d' then complete (.object ms) fs
        else .error
    | .array items :: fs =>
        if b = byte ',' then .more .value (.array items :: fs)
        else if b = byte ']' then complete (.array items) fs
        else .error
    | _ => .error

def endNumber (raw : Bytes) (fs : List Frame) (b : UInt8) : Progress :=
  match complete (.number raw.reverse) fs with
  | .more _ fs => endValue fs b
  | .done v _ => .done v false
  | .error => .error

def beginValue (fs : List Frame) (b : UInt8) : Progress :=
  if isSpace b then .more .value fs
  else if b = byte '\x7b' then push .stringOrEmpty (.key []) fs
  else if b = byte '[' then push .valueOrEmpty (.array []) fs
  else if b = byte '"' then .more (.text []) fs
  else if b = byte '-' then .more (.number .neg [b]) fs
  else if b = byte '0' then .more (.number .zero [b]) fs
  else if isDigit b then .more (.number .int [b]) fs
  else if b = byte 't' then .more (.literal (bytes "rue") (.bool true)) fs
  else if b = byte 'f' then .more (.literal (bytes "alse") (.bool false)) fs
  else if b = byte 'n' then .more (.literal (bytes "ull") .null) fs
  else .error

def beginString (fs : List Frame) (b : UInt8) : Progress :=
  if isSpace b then .more .string fs
  else if b = byte '"' then .more (.text []) fs
  else .error

def step (m : Mode) (fs : List Frame) (b : UInt8) : Progress :=
  match m with
  | .value => beginValue fs b
  | .valueOrEmpty =>
      if isSpace b then .more .valueOrEmpty fs
      else if b = byte ']' then endValue fs b
      else beginValue fs b
  | .string => beginString fs b
  | .stringOrEmpty =>
      if isSpace b then .more .stringOrEmpty fs
      else if b = byte '\x7d' then
        match fs with
        | .key ms :: fs => complete (.object ms) fs
        | _ => .error
      else beginString fs b
  | .text raw =>
      if b = byte '"' then complete (.string (unquote raw.reverse)) fs
      else if b = byte '\\' then .more (.escape (b :: raw)) fs
      else if b < 0x20 then .error
      else .more (.text (b :: raw)) fs
  | .escape raw =>
      if b ∈ bytes "bfnrt\\/\"" then .more (.text (b :: raw)) fs
      else if b = byte 'u' then .more (.unicode 4 (b :: raw)) fs
      else .error
  | .unicode left raw =>
      if (hexDigit b).isSome then
        if left = 1 then .more (.text (b :: raw)) fs else .more (.unicode (left - 1) (b :: raw)) fs
      else .error
  | .number d raw =>
      match d.next b with
      | some d => .more (.number d (b :: raw)) fs
      | none => if d.complete then endNumber raw fs b else .error
  | .literal left v =>
      match left with
      | [] => .error
      | [c] => if b = c then complete v fs else .error
      | c :: left => if b = c then .more (.literal left v) fs else .error
  | .ended => endValue fs b

def finish (m : Mode) (fs : List Frame) : Option Value :=
  match m, fs with
  | .number d raw, [] => if d.complete then some (.number raw.reverse) else none
  | _, _ => none

def scan (m : Mode) (fs : List Frame) : Bytes → Option (Value × Bytes)
  | [] => (finish m fs).map (·,[])
  | b :: rest =>
      match step m fs b with
      | .more m fs => scan m fs rest
      | .done v used => some (v,if used then rest else b :: rest)
      | .error => none

def firstValue (body : Bytes) : Option (Value × Bytes) := scan .value [] body

def fieldOf (fields : List String) (key : String) : Option String :=
  (fields.find? (· == key)).or (fields.find? (equalFold key))

def assign (fields : List String) (record : String → String) (m : String × Value) :
    Option (String → String) :=
  match fieldOf fields m.1, m.2 with
  | none, _ => some record
  | some _, .null => some record
  | some f, .string s => some (Function.update record f s)
  | some _, _ => none

def record (fields : List String) : Value → Option (String → String)
  | .null => some fun _ => ""
  | .object ms => ms.foldlM (assign fields) fun _ => ""
  | _ => none

def unmarshal (fields : List String) (body : Bytes) : Option (String → String) :=
  match firstValue body with
  | some (v,rest) => if rest.all isSpace then record fields v else none
  | none => none

def decode (fields : List String) (body : Bytes) : Option (String → String) :=
  (firstValue body).bind fun x => record fields x.1

theorem decode_eq_some {fields : List String} {body : Bytes} {r : String → String} :
    decode fields body = some r ↔
      ∃ v rest, firstValue body = some (v,rest) ∧ record fields v = some r := by
  simp [decode,Option.bind_eq_some_iff]

section Single

variable {f : String} {others : List String} {key : String}

theorem equalFold_self (s : String) : equalFold s s = true := by simp [equalFold]

theorem fieldOf_single (f key : String) :
    fieldOf [f] key = if equalFold key f then some f else none := by
  by_cases h : f = key
  · subst h
    simp [fieldOf,equalFold_self]
  · by_cases hf : equalFold key f <;> simp [fieldOf,h,hf]

theorem fieldOf_first (h : ∀ g ∈ others, equalFold g f = false) :
    fieldOf (f :: others) key = some f ↔ equalFold key f := by
  unfold fieldOf
  constructor
  · intro hkey
    rcases Option.or_eq_some_iff.mp hkey with hexact | ⟨-,hfold⟩
    · have he := List.find?_some hexact
      rw [← beq_iff_eq.mp he]
      exact equalFold_self f
    · exact List.find?_some hfold
  · intro hkey
    have hexact : (f :: others).find? (· == key) = none ∨ (f :: others).find? (· == key) = some f := by
      by_cases hf : f = key
      · exact .inr (by simp [hf])
      · left
        refine List.find?_eq_none.mpr fun g hg he => ?_
        rcases List.mem_cons.mp hg with rfl | hg
        · exact hf (beq_iff_eq.mp he)
        · have hne := h g hg
          rw [beq_iff_eq.mp he,hkey] at hne
          cases hne
    rcases hexact with hexact | hexact
    · simp [hexact,hkey]
    · simp [hexact]

theorem assign_single {r r' r₁ : String → String} {m : String × Value}
    (h : ∀ g ∈ others, equalFold g f = false) (hr : assign (f :: others) r m = some r₁)
    (hsame : r' f = r f) : ∃ r₂, assign [f] r' m = some r₂ ∧ r₂ f = r₁ f := by
  obtain ⟨key,v⟩ := m
  by_cases hkey : equalFold key f
  · have hfield := (fieldOf_first h).mpr hkey
    cases v <;> simp_all [assign,fieldOf_single]
    subst hr
    simp
  · refine ⟨r',by simp [assign,fieldOf_single,hkey],?_⟩
    have hfield : fieldOf (f :: others) key ≠ some f := fun hf => hkey ((fieldOf_first h).mp hf)
    rw [hsame]
    cases hg : fieldOf (f :: others) key with
    | none => simp_all [assign]
    | some g =>
      have hne : f ≠ g := by rintro rfl; exact hfield hg
      cases v <;> simp_all [assign]
      subst hr
      simp [Function.update_of_ne hne]

theorem foldlM_single {ms : List (String × Value)} {r r' r₁ : String → String}
    (h : ∀ g ∈ others, equalFold g f = false) (hr : ms.foldlM (assign (f :: others)) r = some r₁)
    (hsame : r' f = r f) : ∃ r₂, ms.foldlM (assign [f]) r' = some r₂ ∧ r₂ f = r₁ f := by
  induction ms generalizing r r' with
  | nil => simp_all
  | cons m ms ih =>
    simp only [List.foldlM_cons,Option.bind_eq_bind,Option.bind_eq_some_iff] at hr
    obtain ⟨a,ha,hrest⟩ := hr
    obtain ⟨b,hb,hab⟩ := assign_single h ha hsame
    obtain ⟨r₂,hr₂,hlast⟩ := ih hrest hab
    exact ⟨r₂,by simp [hb,hr₂],hlast⟩

theorem record_single {v : Value} {r : String → String}
    (h : ∀ g ∈ others, equalFold g f = false) (hr : record (f :: others) v = some r) :
    ∃ r', record [f] v = some r' ∧ r' f = r f := by
  cases v with
  | null =>
    obtain rfl := Option.some.inj hr
    exact ⟨fun _ => "",rfl,rfl⟩
  | object ms => exact foldlM_single h hr rfl
  | _ => cases hr

end Single

end Go.Json
