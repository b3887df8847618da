import ServerHub.Go.Json
import ServerHub.Rules.Validate

namespace Rules

open Go

namespace Field

def ofText (s : String) : Field :=
  if s = "severity" then .severity
  else if s = "condition" then .condition
  else if s = "value" then .value
  else if s = "serverId" then .serverId
  else .other s

end Field

def Operator.ofText (s : String) : Operator :=
  if s = "eq" then .eq
  else if s = "neq" then .neq
  else if s = "contains" then .contains
  else if s = "gt" then .gt
  else if s = "gte" then .gte
  else if s = "lt" then .lt
  else if s = "lte" then .lte
  else if s = "in" then .oneOf
  else .other s

section Decoding

-- the number a literal reads as, none when it is out of range
variable (float : Json.Bytes → Option Int)

def Scalar.ofJson : Json.Value → Scalar
  | .string s => .text s
  | .number literal => (float literal).elim .other .number
  | _ => .other

def Value.ofJson : Json.Value → Value
  | .array items => .many (items.map (Scalar.ofJson float))
  | v => .one (.ofJson float v)

def conditionFields : List String := ["field","operator","value"]

def assignMember (c : Condition) (m : String × Json.Value) : Option Condition :=
  match Json.fieldOf conditionFields m.1 with
  | none => some c
  | some key =>
      if key = "value" then some { c with value := .ofJson float m.2 }
      else match m.2 with
        | .null => some c
        | .string s => some (if key = "field" then { c with field := .ofText s }
            else { c with operator := .ofText s })
        | _ => none

def zeroCondition : Condition := ⟨.other "",.other "",.one .other⟩

def decodeCondition : Json.Value → Option Condition
  | .null => some zeroCondition
  | .object ms => ms.foldlM (assignMember float) zeroCondition
  | _ => none

def utf8 (s : String) : Json.Bytes := s.toByteArray.data.toList

def firstCondition (raw : String) : Option Condition :=
  (Json.firstValue (utf8 raw)).bind fun x => decodeCondition float x.1

def Env.decoder (quote malformed : String → String) : Env where
  quote := quote
  decode raw := match firstCondition float raw with
    | some c => .ok c
    | none => .error (malformed raw)

-- the condition the first object of the trimmed text spells, and what follows that object
def Spells (raw : String) (c : Condition) (rest : Json.Bytes) : Prop :=
  ∃ ms, Json.firstValue (utf8 (trimSpace raw)) = some (.object ms,rest) ∧
    decodeCondition float (.object ms) = some c

end Decoding

section Meaning

-- what an event has under a field
inductive Reading where
  | text (s : String)
  | number (n : Int)
  | absent

namespace Reading

def Is : Reading → Scalar → Prop
  | .text s, .text w => equalFold s w = true
  | .number n, .number m => n = m
  | _, _ => False

def Contains : Reading → Scalar → Prop
  | .text s, .text w => (toLower w).toList <:+: (toLower s).toList
  | _, _ => False

def Compares (r : Int → Int → Prop) : Reading → Scalar → Prop
  | .number n, .number m => r n m
  | _, _ => False

def Meets (x : Reading) (op : Operator) (v : Value) : Prop :=
  match op with
  | .eq => x.Is v.scalar
  | .neq => ¬x.Is v.scalar
  | .oneOf => ∃ item ∈ v.items, x.Is item
  | .contains => x.Contains v.scalar
  | .gt => x.Compares (· > ·) v.scalar
  | .gte => x.Compares (· ≥ ·) v.scalar
  | .lt => x.Compares (· < ·) v.scalar
  | .lte => x.Compares (· ≤ ·) v.scalar
  | .other _ => False

end Reading

def Event.reading (ev : Event) : Field → Reading
  | .severity => .text (toUpper ev.severity)
  | .condition => .text ev.condition
  | .value => .number ev.value
  | .serverId => ev.serverID.elim .absent fun id => .number id
  | .other _ => .absent

def Operator.opposite : Operator → Option Operator
  | .eq => some .neq
  | .neq => some .eq
  | .gt => some .lte
  | .lte => some .gt
  | .gte => some .lt
  | .lt => some .gte
  | _ => none

structure Condition.Decides (c : Condition) (ev : Event) : Prop where
  meaning : Matches (some c) ev = true ↔ (ev.reading c.field).Meets c.operator c.value
  opposite : ∀ op, c.operator.opposite = some op →
    Matches (some c) ev = !Matches (some { c with operator := op }) ev
  oneOf : c.operator = .oneOf → Matches (some c) ev =
    c.value.items.any fun v => Matches (some ⟨c.field,.eq,.one v⟩) ev

-- the value of a server condition stands off the number the code gives a missing server
def Operator.Clear (op : Operator) (v : Value) : Prop :=
  match op with
  | .eq | .neq => v.scalar ≠ .number (-1)
  | .oneOf => .number (-1) ∉ v.items
  | .gt => ∀ m, v.scalar = .number m → -1 ≤ m
  | .gte => ∀ m, v.scalar = .number m → -1 < m
  | .lt => ∀ m, v.scalar = .number m → m ≤ -1
  | .lte => ∀ m, v.scalar = .number m → m < -1
  | .contains | .other _ => True

def Condition.Clear (c : Condition) (ev : Event) : Prop :=
  c.field = .serverId → ev.serverID = none → c.operator.Clear c.value

def Field.Kind (f : Field) (v : Scalar) : Prop :=
  (f.stringField = true → ∃ w, v = .text w) ∧ (f.numberField = true → ∃ n, v = .number n)

structure Condition.Valid (c : Condition) : Prop where
  field : c.field.stringField = true ∨ c.field.numberField = true
  contains : c.operator = .contains → c.field.stringField = true
  ordered : c.operator ∈ [.gt,.gte,.lt,.lte] → c.field.numberField = true
  known : ∀ raw, c.operator ≠ .other raw
  items : c.operator = .oneOf → ∀ item ∈ c.value.items, c.field.Kind item
  scalar : c.operator ≠ .oneOf → c.field.Kind c.value.scalar

variable {env : Env} {c : Condition} {ev : Event}

theorem checkText_ok {f : Field} {v : Scalar} {u : Unit} (h : checkText env f v = .ok u) :
    ∃ w, v = .text w := by
  cases v with
  | text w => exact ⟨w,rfl⟩
  | number n => cases h
  | other => cases h

theorem checkValueKind_ok {f : Field} {v : Scalar} {u : Unit}
    (h : checkValueKind env f v = .ok u) : f.Kind v := by
  cases f with
  | severity => exact ⟨fun _ => checkText_ok h,fun hf => nomatch hf⟩
  | condition => exact ⟨fun _ => checkText_ok h,fun hf => nomatch hf⟩
  | other raw => exact ⟨(fun hf => nomatch hf),fun hf => nomatch hf⟩
  | _ =>
    refine ⟨(fun hf => nomatch hf),fun _ => ?_⟩
    cases v with
    | number n => exact ⟨n,rfl⟩
    | _ => cases h

theorem forM_ok {α : Type} {f : α → Except String Unit} {as : List α} {u : Unit}
    (h : as.forM f = .ok u) : ∀ a ∈ as, ∃ u, f a = .ok u := by
  induction as with
  | nil => exact fun a ha => nomatch ha
  | cons a as ih =>
    rw [List.forM_eq_forM,List.forM_cons,bind_ok] at h
    obtain ⟨v,hv,hrest⟩ := h
    rw [← List.forM_eq_forM] at hrest
    exact List.forall_mem_cons.mpr ⟨⟨v,hv⟩,ih hrest⟩

theorem valid_of_validate {u : Unit} (h : c.validate env = .ok u) : c.Valid := by
  obtain ⟨⟨⟩,hfield,hrest⟩ := bind_ok.mp h
  obtain ⟨⟨⟩,hop,hvalue⟩ := bind_ok.mp hrest
  have hknown : c.field.stringField = true ∨ c.field.numberField = true := by
    unfold Condition.checkField at hfield
    split at hfield
    · exact (Bool.or_eq_true _ _).mp ‹_›
    · cases hfield
  unfold Condition.checkOperator at hop
  unfold Condition.checkValue at hvalue
  refine ⟨hknown,fun hc => ?_,fun ho => ?_,fun raw hraw => ?_,fun hin item hi => ?_,fun hin => ?_⟩
  · simp only [hc] at hop
    by_contra hs
    rw [if_neg hs] at hop
    cases hop
  · by_contra hn
    simp only [List.mem_cons,List.not_mem_nil,or_false] at ho
    obtain ho | ho | ho | ho := ho <;> simp only [ho,if_neg hn] at hop <;> cases hop
  · simp only [hraw] at hop
    cases hop
  · rw [if_pos hin] at hvalue
    split at hvalue
    · cases hvalue
    · obtain ⟨u,hu⟩ := forM_ok hvalue item hi
      exact checkValueKind_ok hu
  · rw [if_neg hin] at hvalue
    exact checkValueKind_ok hvalue

theorem matchString_iff {s : String} {op : Operator} {v : Value}
    (hscalar : op ≠ .oneOf → ∃ w, v.scalar = .text w) (ho : op ∉ [.gt,.gte,.lt,.lte]) :
    matchString s op v = true ↔ (Reading.text s).Meets op v := by
  cases op with
  | oneOf =>
    simp only [matchString,Reading.Meets,List.any_eq_true]
    refine exists_congr fun item => and_congr_right fun _ => ?_
    cases item <;> simp [Reading.Is]
  | gt | gte | lt | lte => exact absurd (by decide) ho
  | other raw => exact ⟨(fun h => nomatch h),fun h => nomatch h⟩
  | eq | neq | contains =>
    obtain ⟨w,hw⟩ := hscalar (by decide)
    simp [matchString,Reading.Meets,Reading.Is,Reading.Contains,hw]

theorem matchNumber_iff {n : Int} {op : Operator} {v : Value}
    (hscalar : op ≠ .oneOf → ∃ m, v.scalar = .number m) (ho : op ≠ .contains) :
    matchNumber n op v = true ↔ (Reading.number n).Meets op v := by
  cases op with
  | oneOf =>
    simp only [matchNumber,Reading.Meets,List.any_eq_true]
    refine exists_congr fun item => and_congr_right fun _ => ?_
    cases item with
    | number m => simpa [Reading.Is,toFloat] using eq_comm
    | _ => simp [Reading.Is,toFloat]
  | contains => exact absurd rfl ho
  | other raw =>
    obtain ⟨m,hm⟩ := hscalar (by simp)
    simp [matchNumber,Reading.Meets,hm,toFloat]
  | _ =>
    obtain ⟨m,hm⟩ := hscalar (by decide)
    simp [matchNumber,Reading.Meets,Reading.Is,Reading.Compares,hm,toFloat]

theorem absent_meets {op : Operator} {v : Value} : Reading.absent.Meets op v ↔ op = .neq := by
  cases op <;> simp [Reading.Meets,Reading.Is,Reading.Contains,Reading.Compares]

-- a missing server is matched as the number -1
theorem clear_iff {op : Operator} {v : Value} (hscalar : op ≠ .oneOf → ∃ m, v.scalar = .number m)
    (ho : op ≠ .contains) : ((Reading.number (-1)).Meets op v ↔ op = .neq) ↔ op.Clear v := by
  cases op with
  | oneOf =>
    have hitem : (∃ item ∈ v.items, (Reading.number (-1)).Is item) ↔ .number (-1) ∈ v.items := by
      constructor
      · rintro ⟨item,hm,hi⟩
        cases item with
        | number m => exact (show (-1 : Int) = m from hi) ▸ hm
        | _ => exact hi.elim
      · exact fun hm => ⟨_,hm,rfl⟩
    simp [Reading.Meets,Operator.Clear,hitem]
  | contains => exact absurd rfl ho
  | other raw => simp [Reading.Meets,Operator.Clear]
  | _ =>
    obtain ⟨m,hm⟩ := hscalar (by decide)
    simp only [Reading.Meets,Reading.Is,Reading.Compares,Operator.Clear,hm]
    simp
    try omega

theorem Condition.Valid.scalar_text (h : c.Valid) (hf : c.field.stringField = true) :
    c.operator ≠ .oneOf → ∃ w, c.value.scalar = .text w :=
  fun hop => (h.scalar hop).1 hf

theorem Condition.Valid.scalar_number (h : c.Valid) (hf : c.field.numberField = true) :
    c.operator ≠ .oneOf → ∃ n, c.value.scalar = .number n :=
  fun hop => (h.scalar hop).2 hf

theorem not_ordered (h : c.Valid) (hf : c.field.numberField = false) :
    c.operator ∉ [.gt,.gte,.lt,.lte] :=
  fun ho => Bool.false_ne_true (hf.symm.trans (h.ordered ho))

theorem not_contains (h : c.Valid) (hf : c.field.stringField = false) : c.operator ≠ .contains :=
  fun ho => Bool.false_ne_true (hf.symm.trans (h.contains ho))

theorem meaning_iff (h : c.Valid) (ev : Event) :
    (Condition.Matches (some c) ev = true ↔ (ev.reading c.field).Meets c.operator c.value) ↔
      c.Clear ev := by
  obtain ⟨field,op,v⟩ := c
  cases field with
  | severity =>
    exact iff_of_true (matchString_iff (h.scalar_text rfl) (not_ordered h rfl)) (fun hf => nomatch hf)
  | condition =>
    exact iff_of_true (matchString_iff (h.scalar_text rfl) (not_ordered h rfl)) (fun hf => nomatch hf)
  | value =>
    exact iff_of_true (matchNumber_iff (h.scalar_number rfl) (not_contains h rfl))
      (fun hf => nomatch hf)
  | serverId =>
    have hmatch : ∀ n, matchNumber n op v = true ↔ (Reading.number n).Meets op v := fun n =>
      matchNumber_iff (h.scalar_number rfl) (not_contains h rfl)
    simp only [Condition.Matches,Event.reading,Condition.Clear,true_implies]
    cases hs : ev.serverID with
    | some id => exact iff_of_true (hmatch id) (fun hn => nomatch hn)
    | none =>
      simp only [Option.map_none,Option.getD_none,Option.elim_none,hmatch,absent_meets,true_implies]
      exact clear_iff (h.scalar_number rfl) (not_contains h rfl)
  | other raw => exact (h.field.elim (fun hf => nomatch hf) fun hf => nomatch hf)

theorem matchString_opposite {s : String} {op op' : Operator} {v : Value}
    (ho : op ∉ [.gt,.gte,.lt,.lte]) (h : op.opposite = some op') :
    matchString s op v = !matchString s op' v := by
  cases op with
  | eq | neq =>
    obtain rfl := Option.some.inj h
    simp [matchString]
  | gt | gte | lt | lte => exact absurd (by decide) ho
  | _ => cases h

theorem matchNumber_opposite {n : Int} {op op' : Operator} {v : Value}
    (hscalar : op ≠ .oneOf → ∃ m, v.scalar = .number m) (h : op.opposite = some op') :
    matchNumber n op v = !matchNumber n op' v := by
  cases op with
  | oneOf | contains | other raw => cases h
  | _ =>
    obtain ⟨m,hm⟩ := hscalar (by decide)
    obtain rfl := Option.some.inj h
    simp [matchNumber,hm,toFloat,bne,← decide_not]

theorem matches_opposite (h : c.Valid) {op : Operator} (ho : c.operator.opposite = some op) :
    Condition.Matches (some c) ev = !Condition.Matches (some { c with operator := op }) ev := by
  obtain ⟨field,_,v⟩ := c
  cases field with
  | severity => exact matchString_opposite (not_ordered h rfl) ho
  | condition => exact matchString_opposite (not_ordered h rfl) ho
  | value => exact matchNumber_opposite (h.scalar_number rfl) ho
  | serverId => exact matchNumber_opposite (h.scalar_number rfl) ho
  | other raw => exact (h.field.elim (fun hf => nomatch hf) fun hf => nomatch hf)

theorem matchString_oneOf {s : String} {v : Value} (h : ∀ item ∈ v.items, ∃ w, item = .text w) :
    matchString s .oneOf v = v.items.any fun item => matchString s .eq (.one item) := by
  simp only [matchString]
  rw [Bool.eq_iff_iff,List.any_eq_true,List.any_eq_true]
  refine exists_congr fun item => and_congr_right fun hm => ?_
  obtain ⟨w,rfl⟩ := h item hm
  rfl

theorem matchNumber_oneOf {n : Int} {v : Value} :
    matchNumber n .oneOf v = v.items.any fun item => matchNumber n .eq (.one item) := by
  simp only [matchNumber]
  rw [Bool.eq_iff_iff,List.any_eq_true,List.any_eq_true]
  refine exists_congr fun item => and_congr_right fun _ => ?_
  cases item with
  | number m => simpa [Value.scalar,toFloat] using eq_comm
  | _ => exact Iff.rfl

theorem matches_oneOf (h : c.Valid) (ho : c.operator = .oneOf) : Condition.Matches (some c) ev =
    c.value.items.any fun v => Condition.Matches (some ⟨c.field,.eq,.one v⟩) ev := by
  obtain ⟨field,_,v⟩ := c
  obtain rfl : _ = Operator.oneOf := ho
  cases field with
  | severity => exact matchString_oneOf fun item hm => (h.items rfl item hm).1 rfl
  | condition => exact matchString_oneOf fun item hm => (h.items rfl item hm).1 rfl
  | value => exact matchNumber_oneOf
  | serverId => exact matchNumber_oneOf
  | other raw => exact (h.field.elim (fun hf => nomatch hf) fun hf => nomatch hf)

theorem decides_iff (h : c.Valid) (ev : Event) : c.Decides ev ↔ c.Clear ev := by
  constructor
  · exact fun hd => (meaning_iff h ev).mp hd.meaning
  · exact fun hc => ⟨(meaning_iff h ev).mpr hc,fun op ho => matches_opposite h ho,matches_oneOf h⟩

end Meaning

section Parsing

variable {float : Json.Bytes → Option Int} {quote malformed : String → String} {raw : String}
  {c c' : Condition} {rest rest' : Json.Bytes}

theorem spells_unique (h : Spells float raw c rest) (h' : Spells float raw c' rest') :
    c = c' ∧ rest = rest' := by
  obtain ⟨ms,hv,hc⟩ := h
  obtain ⟨ms',hv',hc'⟩ := h'
  obtain ⟨hobject,rfl⟩ := Prod.mk.inj (Option.some.inj (hv.symm.trans hv'))
  obtain rfl := Json.Value.object.inj hobject
  exact ⟨Option.some.inj (hc.symm.trans hc'),rfl⟩

theorem parse_iff : parseCondition (.decoder float quote malformed) raw = .ok (some c) ↔
    (∃ rest, Spells float raw c rest) ∧ c.validate (.decoder float quote malformed) = .ok () := by
  unfold parseCondition
  dsimp only
  constructor
  · intro h
    split at h
    · cases h
    have hdecode : (Env.decoder float quote malformed).decode (trimSpace raw) =
        match firstCondition float (trimSpace raw) with
        | some c => .ok c
        | none => .error (malformed (trimSpace raw)) := rfl
    rw [hdecode] at h
    cases hfirst : firstCondition float (trimSpace raw) with
    | none =>
      rw [hfirst] at h
      cases h
    | some d =>
      rw [hfirst] at h
      obtain ⟨⟨⟩,hvalid,hd⟩ := bind_ok.mp h
      obtain rfl := Option.some.inj (Except.ok.inj hd)
      obtain ⟨⟨v,rest⟩,hv,hcond⟩ := Option.bind_eq_some_iff.mp hfirst
      refine ⟨⟨rest,?_⟩,hvalid⟩
      cases v with
      | object ms => exact ⟨ms,hv,hcond⟩
      | null =>
        obtain rfl := Option.some.inj hcond
        exact absurd (valid_of_validate hvalid).field (by decide)
      | _ => cases hcond
  · rintro ⟨⟨rest,ms,hv,hcond⟩,hvalid⟩
    have hblank : ¬(trimSpace raw = "" ∨ trimSpace raw = "null") := by
      rintro (h | h)
      · rw [h] at hv
        exact nomatch hv
      · rw [h] at hv
        have hnull : Json.firstValue (utf8 "null") = some (.null,[]) := rfl
        exact nomatch hnull.symm.trans hv
    rw [if_neg hblank]
    have hfirst : firstCondition float (trimSpace raw) = some c := by
      rw [firstCondition,hv]
      exact hcond
    have hdecode : (Env.decoder float quote malformed).decode (trimSpace raw) = .ok c := by
      show (match firstCondition float (trimSpace raw) with
        | some c => Except.ok c
        | none => .error (malformed (trimSpace raw))) = .ok c
      rw [hfirst]
    rw [hdecode]
    exact bind_ok.mpr ⟨(),hvalid,rfl⟩

theorem condition_language_iff (float : Json.Bytes → Option Int) (quote malformed : String → String)
    (raw : String) (ev : Event) :
    ((∀ c, parseCondition (.decoder float quote malformed) raw = .ok (some c) ↔
          Spells float raw c [] ∧ c.validate (.decoder float quote malformed) = .ok ()) ∧
        ∀ c, parseCondition (.decoder float quote malformed) raw = .ok (some c) → c.Decides ev) ↔
      ∀ c rest, Spells float raw c rest → c.validate (.decoder float quote malformed) = .ok () →
        rest = [] ∧ c.Clear ev := by
  constructor
  · rintro ⟨hparse,hdecide⟩ c rest hspell hvalid
    have hok := parse_iff.mpr ⟨⟨rest,hspell⟩,hvalid⟩
    have hsole := ((hparse c).mp hok).1
    exact ⟨(spells_unique hspell hsole).2,
      (decides_iff (valid_of_validate hvalid) ev).mp (hdecide c hok)⟩
  · intro h
    refine ⟨fun c => ⟨fun hok => ?_,fun hsole => ?_⟩,fun c hok => ?_⟩
    · obtain ⟨⟨rest,hspell⟩,hvalid⟩ := parse_iff.mp hok
      exact ⟨(h c rest hspell hvalid).1 ▸ hspell,hvalid⟩
    · exact parse_iff.mpr ⟨⟨[],hsole.1⟩,hsole.2⟩
    · obtain ⟨⟨rest,hspell⟩,hvalid⟩ := parse_iff.mp hok
      exact (decides_iff (valid_of_validate hvalid) ev).mpr (h c rest hspell hvalid).2

def wholeNumber (literal : Json.Bytes) : Option Int :=
  match literal.map fun b => Char.ofNat b.toNat with
  | '-' :: ds => (digits ds).map fun n => -Int.ofNat n
  | ds => (digits ds).map Int.ofNat

def serverless : Event where
  type := .serverAlert
  serverID := none
  severity := "WARNING"
  condition := "disk"
  value := 0
  message := ""
  fingerprint := ""
  timestamp := 1
  alertID := none

theorem condition_read_loosely :
    parseCondition (.decoder wholeNumber id id)
        "\x7b\"field\":\"serverId\",\"operator\":\"lt\",\"value\":5\x7d trailing" =
      .ok (some ⟨.serverId,.lt,.one (.number 5)⟩) ∧
    (∀ c, ¬Spells wholeNumber
        "\x7b\"field\":\"serverId\",\"operator\":\"lt\",\"value\":5\x7d trailing" c []) ∧
    Condition.Matches (some ⟨.serverId,.lt,.one (.number 5)⟩) serverless = true ∧
    ¬(serverless.reading .serverId).Meets .lt (.one (.number 5)) := by
  refine ⟨rfl,?_,by decide,id⟩
  rintro c ⟨ms,hv,-⟩
  have hrest : (Json.firstValue (utf8 (trimSpace
      "\x7b\"field\":\"serverId\",\"operator\":\"lt\",\"value\":5\x7d trailing"))).map Prod.snd =
      some (utf8 " trailing") := by
    decide +kernel
  rw [hv] at hrest
  exact nomatch hrest

end Parsing

end Rules
