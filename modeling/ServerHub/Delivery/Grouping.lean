import ServerHub.Delivery.Digests
import ServerHub.Interleave.Routine
import ServerHub.Rules.Engine

namespace Delivery

open Go Relational Interleave
open Rules (RuleRow Event DeliveryRequest Handoff)

-- the request as rulesEngine hands it to Dispatch
def dispatchInput (req : DeliveryRequest) : Input where
  key := req.key
  severity := req.severity
  title := req.title
  body := req.body
  channels := req.channels.map Rules.Channel.text
  groupID := req.groupID
  serverID := req.serverID
  ruleID := req.ruleID
  labels := req.labels
  resource := req.resource
  isRecovery := req.isRecovery
  cooldownSec := req.cooldownSec
  repeatSec := req.repeatSec
  maxRepeats := req.maxRepeats
  notifyRecovery := req.notifyRecovery
  digestMode := req.digestMode
  digestIntervalMin := req.digestIntervalMin
  groupBy := req.groupBy

def Handed (eng : Rules.Engine) (r : RuleRow) (ev : Event) (n : Notice) : Prop :=
  ∃ req, Handoff.deliver req ∈ Rules.handoffs eng r ev ∧ n = (dispatchInput req).notice

section Keys

theorem length_intercalate {α : Type} (sep : List α) (xs : List (List α)) :
    (sep.intercalate xs).length = (xs.map List.length).sum + (xs.length - 1) * sep.length := by
  induction xs with
  | nil => simp
  | cons x xs ih =>
    cases xs with
    | nil => simp
    | cons y ys =>
      rw [List.intercalate_cons_cons,List.length_append,List.length_append,ih]
      simp only [List.map_cons,List.sum_cons,List.length_cons,Nat.add_sub_cancel,Nat.add_mul]
      omega

theorem intercalate_inj {α : Type} {sep : List α} {xs ys : List (List α)}
    (hlen : xs.map List.length = ys.map List.length)
    (h : sep.intercalate xs = sep.intercalate ys) : xs = ys := by
  induction xs generalizing ys with
  | nil => exact (List.map_eq_nil_iff.mp hlen.symm).symm
  | cons x xs ih =>
    cases ys with
    | nil => cases hlen
    | cons y ys =>
      rw [List.map_cons,List.map_cons,List.cons.injEq] at hlen
      cases xs with
      | nil =>
        obtain rfl := List.map_eq_nil_iff.mp hlen.2.symm
        rw [List.intercalate_singleton,List.intercalate_singleton] at h
        rw [h]
      | cons a as =>
        cases ys with
        | nil => cases hlen.2
        | cons b bs =>
          rw [List.intercalate_cons_cons,List.intercalate_cons_cons,List.append_assoc,
            List.append_assoc] at h
          obtain ⟨rfl,hrest⟩ := List.append_inj h hlen.1
          rw [ih hlen.2 (List.append_cancel_left hrest)]

def keyPart (cond k : String) : String := k ++ "=" ++ if k = "condition" then cond else ""

theorem length_keyPart (cond k : String) : (keyPart cond k).toList.length =
    k.toList.length + 1 + if k = "condition" then cond.toList.length else 0 := by
  unfold keyPart
  split
  · simp only [String.toList_append,List.length_append]
    rfl
  · simp

theorem sum_keyParts (cond : String) (ks : List String) :
    ((ks.map (keyPart cond)).map fun p => p.toList.length).sum =
      (ks.map fun k => k.toList.length + 1).sum + ks.count "condition" * cond.toList.length := by
  induction ks with
  | nil => simp
  | cons k ks ih =>
    simp only [List.map_cons,List.sum_cons,ih,length_keyPart,List.count_cons,beq_iff_eq]
    split
    · rw [Nat.add_mul]
      omega
    · simp only [Nat.add_zero]
      omega

theorem keyParts_inj {ks : List String} {cond cond' : String}
    (h : ",".intercalate (ks.map (keyPart cond)) = ",".intercalate (ks.map (keyPart cond')))
    (hk : "condition" ∈ ks) : cond = cond' := by
  have hlist := congrArg String.toList h
  rw [String.toList_intercalate,String.toList_intercalate] at hlist
  have hlength := congrArg List.length hlist
  rw [length_intercalate,length_intercalate,List.map_map,List.map_map] at hlength
  have hsum := sum_keyParts cond ks
  have hsum' := sum_keyParts cond' ks
  have hpos : 0 < ks.count "condition" := List.count_pos_iff.mpr hk
  have hsame : cond.toList.length = cond'.toList.length := by
    simp only [List.length_map,List.map_map] at hlength hsum hsum'
    refine Nat.eq_of_mul_eq_mul_left hpos ?_
    simp only [Function.comp_def] at hlength hsum hsum'
    omega
  have hparts : (ks.map (keyPart cond)).map String.toList =
      (ks.map (keyPart cond')).map String.toList := by
    refine intercalate_inj ?_ hlist
    simp only [List.map_map,Function.comp_def,length_keyPart,hsame]
  have hpart := List.map_inj_left.mp (List.map_injective_iff.mpr
    (fun _ _ h => String.toList_inj.mp h) hparts) "condition" hk
  simpa [keyPart] using hpart

def ruleKeys : List String := ["severity","condition","server"]

theorem trimSpace_ruleKey {k : String} (h : k ∈ ruleKeys) : trimSpace k = k ∧ k ≠ "" := by
  simp only [ruleKeys,List.mem_cons,List.not_mem_nil,or_false] at h
  obtain rfl | rfl | rfl := h <;> decide

variable {eng : Rules.Engine} {r : RuleRow} {ev ev' : Event} {m m' : Notice}

theorem handed_input (h : Handed eng r ev m) : m.input.ruleID = r.id ∧
    m.input.groupBy = r.groupBy ∧ m.input.labels = [("condition",ev.condition)] := by
  obtain ⟨req,hreq,rfl⟩ := h
  unfold Rules.handoffs at hreq
  rcases List.mem_append.mp hreq with hm | hm
  · obtain ⟨ch,-,hch⟩ := List.mem_map.mp hm
    cases ch <;> cases hch
  · split at hm
    · cases hm
    split at hm
    · obtain rfl := Handoff.deliver.inj (List.mem_singleton.mp hm)
      exact ⟨rfl,rfl,rfl⟩
    · obtain ⟨ch,-,hch⟩ := List.mem_map.mp hm
      cases ch <;> cases hch

theorem digestKey_handed (h : Handed eng r ev m) (hk : ∀ k ∈ r.groupBy, k ∈ ruleKeys) :
    digestKey m.input = if r.groupBy = [] then "rule:" ++ toString r.id
      else "rule:" ++ toString r.id ++ "|" ++ ",".intercalate (r.groupBy.map (keyPart ev.condition)) := by
  obtain ⟨hid,hgroup,hlabels⟩ := handed_input h
  have hkeys : r.groupBy.map trimSpace = r.groupBy :=
    (List.map_congr_left fun k hm => (trimSpace_ruleKey (hk k hm)).1).trans (List.map_id _)
  have hparts : (r.groupBy.filterMap fun k => if k = "" then none else
      some (k ++ "=" ++ (m.input.labels.lookup k).getD "")) =
        r.groupBy.map (keyPart ev.condition) := by
    rw [← List.filterMap_eq_map]
    refine List.filterMap_congr fun k hm => ?_
    rw [if_neg (trimSpace_ruleKey (hk k hm)).2,hlabels]
    have hlookup : [("condition",ev.condition)].lookup k =
        if k = "condition" then some ev.condition else none := by
      by_cases hc : k = "condition"
      · simp [hc]
      · simp [hc,beq_false_of_ne hc]
    rw [hlookup]
    show _ = some (keyPart ev.condition k)
    unfold keyPart
    split <;> rfl
  unfold digestKey
  simp only [hid,hgroup,hkeys,hparts,List.map_eq_nil_iff]

theorem digestKey_eq_iff (h : Handed eng r ev m) (h' : Handed eng r ev' m')
    (hk : ∀ k ∈ r.groupBy, k ∈ ruleKeys) : digestKey m.input = digestKey m'.input ↔
      ("condition" ∈ r.groupBy → ev.condition = ev'.condition) := by
  rw [digestKey_handed h hk,digestKey_handed h' hk]
  by_cases hnil : r.groupBy = []
  · simp [hnil]
  rw [if_neg hnil,if_neg hnil,String.append_right_inj]
  constructor
  · exact fun heq hm => keyParts_inj heq hm
  · intro heq
    congr 1
    refine List.map_congr_left fun k hm => ?_
    by_cases hc : k = "condition"
    · rw [heq (hc ▸ hm)]
    · simp only [keyPart,if_neg hc]

-- the batches are told apart by their key and window
def batchIndex (b : DigestBatch) : Option (String × Int) := some (b.digestKey,b.windowEnd)

def Store.DistinctBatches (s : Store) : Prop := s.batches.Unique batchIndex

def Placed (s : Store) (key : String) (window : Int) (id : Nat) : Prop :=
  ∃ b, s.batches.find id = some b ∧ b.digestKey = key ∧ b.windowEnd = window

def KeepsPlaces (s t : Store) : Prop :=
  (s.DistinctBatches → t.DistinctBatches) ∧
    ∀ key window id, Placed s key window id → Placed t key window id

theorem keepsPlaces_refl (s : Store) : KeepsPlaces s s := ⟨id,fun _ _ _ h => h⟩

theorem KeepsPlaces.trans {s t u : Store} (h : KeepsPlaces s t) (k : KeepsPlaces t u) :
    KeepsPlaces s u :=
  ⟨k.1 ∘ h.1,fun key window id hp => k.2 key window id (h.2 key window id hp)⟩

theorem keepsPlaces_same {s t : Store} (h : t.batches = s.batches) : KeepsPlaces s t := by
  unfold KeepsPlaces Store.DistinctBatches Placed
  rw [h]
  exact ⟨id,fun _ _ _ hp => hp⟩

theorem keepsPlaces_modify {s t : Store} {p : DigestBatch → Bool} {f : DigestBatch → DigestBatch}
    {hf : ∀ b, key (f b) = key b} (ht : t.batches = s.batches.modify p f hf)
    (h : ∀ b, (f b).digestKey = b.digestKey ∧ (f b).windowEnd = b.windowEnd) : KeepsPlaces s t := by
  have hsame : ∀ b, (if p b then f b else b).digestKey = b.digestKey ∧
      (if p b then f b else b).windowEnd = b.windowEnd := by
    intro b
    split
    · exact h b
    · exact ⟨rfl,rfl⟩
  constructor
  · intro hs a ha b hb k hka hkb
    rw [ht] at ha hb
    obtain ⟨a₀,ha₀,rfl⟩ := Serial.mem_modify.mp ha
    obtain ⟨b₀,hb₀,rfl⟩ := Serial.mem_modify.mp hb
    simp only [batchIndex,hsame] at hka hkb
    rw [hs a₀ ha₀ b₀ hb₀ k hka hkb]
  · rintro key window id ⟨b,hb,rfl,rfl⟩
    refine ⟨_,by rw [ht,Serial.find_modify,hb,Option.map_some],(hsame b).1,(hsame b).2⟩

variable {n : Notice} {ts : Int} {s t : Store} {e : Entry} {keep : Bool}

theorem upsertBatch_places (e : Entry) (keep : Bool) (s : Store) :
    KeepsPlaces s (s.upsertBatch e keep).1 ∧ ∀ id, (s.upsertBatch e keep).2 = some id →
      Placed (s.upsertBatch e keep).1 e.digestKey e.windowEnd id := by
  have hup := upserted e keep s
  generalize (s.upsertBatch e keep).1 = t at hup ⊢
  generalize (s.upsertBatch e keep).2 = hit at hup ⊢
  cases hup with
  | created h =>
    have hfree : ∀ b ∈ s.batches.rows, batchIndex b ≠ some (e.digestKey,e.windowEnd) := by
      intro b hb hindex
      simp only [batchIndex,Option.some.injEq,Prod.mk.injEq] at hindex
      have hnone := List.find?_eq_none.mp h b hb
      simp [hindex.1,hindex.2] at hnone
    refine ⟨⟨fun hs a ha b hb k hka hkb => ?_,?_⟩,?_⟩
    · have ha : a ∈ (s.batches.insert e.row fun _ => rfl).rows := ha
      have hb : b ∈ (s.batches.insert e.row fun _ => rfl).rows := hb
      rcases Serial.mem_insert.mp ha with ha | rfl
      · rcases Serial.mem_insert.mp hb with hb | rfl
        · exact hs a ha b hb k hka hkb
        · exact absurd (hka.trans hkb.symm) (hfree a ha)
      · rcases Serial.mem_insert.mp hb with hb | rfl
        · exact absurd (hkb.trans hka.symm) (hfree b hb)
        · rfl
    · rintro key window id ⟨b,hb,hkey,hwindow⟩
      refine ⟨b,?_,hkey,hwindow⟩
      rw [find_addBatch_ne (Nat.ne_of_lt (Serial.find_lt hb)),hb]
    · intro id hid
      obtain rfl := Option.some.inj hid
      exact ⟨_,find_addBatch_self s e,rfl,rfl⟩
  | merged b h ho =>
    have hfind : s.batches.find b.id = some b := Table.find_of_mem (target_spec h).1
    have hkeeps : KeepsPlaces s { s with batches := s.mergeBatch e keep b.id } :=
      keepsPlaces_modify rfl fun _ => ⟨rfl,rfl⟩
    refine ⟨hkeeps,fun id hid => ?_⟩
    obtain rfl := Option.some.inj hid
    have hwindow : b.windowEnd = e.windowEnd := by
      have hp := List.find?_some h
      simp only [Bool.and_eq_true,beq_iff_eq] at hp
      exact hp.2
    exact hkeeps.2 _ _ _ ⟨b,hfind,(target_spec h).2,hwindow⟩
  | refused b h hf => exact ⟨keepsPlaces_refl s,fun _ hid => nomatch hid⟩

theorem entry_windowEnd {ch : Channel} (h : n.entry ts ch = some e) :
    e.windowEnd = digestWindow n.input ts := by
  simp only [Notice.entry,Bind.bind,Option.bind_eq_some_iff,Pure.pure,Option.some.injEq] at h
  obtain ⟨title,-,resource,-,rfl⟩ := h
  rfl

def batchKey (n : Notice) (ch : Channel) : String := digestKey n.input ++ "::" ++ ch.text

theorem appendDigest_places {chs : List Channel} {hits : List (Channel × Option Nat)}
    (h : appendDigest n ts chs s = .ok (t,hits)) : KeepsPlaces s t ∧
      ∀ ch id, (ch,some id) ∈ hits → Placed t (batchKey n ch) (digestWindow n.input ts) id := by
  induction chs generalizing s hits with
  | nil =>
    simp only [appendDigest,Except.ok.injEq,Prod.mk.injEq] at h
    obtain ⟨rfl,rfl⟩ := h
    exact ⟨keepsPlaces_refl s,fun _ _ hm => by cases hm⟩
  | cons ch chs ih =>
    obtain ⟨e,rest,he,rfl,hrest⟩ := appendDigest_cons h
    obtain ⟨hfirst,hplaced⟩ := upsertBatch_places e false s
    obtain ⟨hlater,hrestPlaced⟩ := ih hrest
    refine ⟨hfirst.trans hlater,fun c id hm => ?_⟩
    rcases List.mem_cons.mp hm with heq | hm
    · obtain ⟨rfl,hid⟩ := Prod.mk.inj heq
      have hnew := hplaced id hid.symm
      rw [(entry_label he).1,entry_windowEnd he] at hnew
      exact hlater.2 _ _ _ hnew
    · exact hrestPlaced c id hm

theorem digested_places {rc : Receipt} (h : Digested n ts s t rc) : KeepsPlaces s t ∧
    ∀ ch id, (ch,some id) ∈ rc.hits → Placed t (batchKey n ch) (digestWindow n.input ts) id := by
  cases h with
  | appended u v hmode hu happ hv =>
    obtain ⟨hkeeps,hplaced⟩ := appendDigest_places happ
    have hend : KeepsPlaces v t := keepsPlaces_same hv
    exact ⟨(keepsPlaces_same hu).trans (hkeeps.trans hend),
      fun ch id hm => hend.2 _ _ _ (hplaced ch id hm)⟩
  | elsewhere haction hhits ht =>
    rw [hhits]
    exact ⟨keepsPlaces_same ht,fun _ _ hm => nomatch hm⟩

theorem effect_places {β : Type} (i : Stmt β) (o : Outside) (s : Store) :
    KeepsPlaces s (i.effect o s).1 := by
  cases i with
  | claim pol n ts =>
    show KeepsPlaces s (claimed pol n ts o.refusal s).1
    obtain ⟨e,he⟩ | ⟨t,rc,hclaim,he⟩ := claimed_cases pol n ts o.refusal s
    · rw [he]
      exact keepsPlaces_refl s
    · rw [he]
      exact (digested_places (claim_digested hclaim)).1
  | overflow r ts =>
    show KeepsPlaces s (s.recordOverflow r ts).1
    unfold Store.recordOverflow
    split
    · exact keepsPlaces_refl s
    · exact (upsertBatch_places _ true s).1
  | flushDue ts => exact keepsPlaces_modify rfl (fun _ => ⟨rfl,rfl⟩)
  | insertSummary b ts =>
    refine keepsPlaces_same ?_
    show (s.insertSummary b ts).1.batches = s.batches
    unfold Store.insertSummary
    split <;> rfl
  | _ => exact keepsPlaces_same (still_batches (by trivial) o s)

end Keys

section Runs

-- an event the pipeline claimed, when, and the batches that counted it
structure Counting where
  notice : Notice
  ts : Int
  receipt : Receipt

def countingNote : (β : Type) → Stmt β → β → Option Counting
  | _, .claim _ n ts, .ok rc => some ⟨n,ts,rc⟩
  | _, _, _ => none

abbrev counted (env : Env) : System := (system env).watch countingNote

def Counting.window (c : Counting) : Int := digestWindow c.notice.input c.ts

def Counting.In (c : Counting) (ch : Channel) (id : Nat) : Prop := (ch,some id) ∈ c.receipt.hits

structure Grouped (x : Traced State Counting) : Prop where
  distinct : x.state.store.DistinctBatches
  placed : ∀ pid c, (pid,c) ∈ x.log → ∀ ch id, c.In ch id →
    Placed x.state.store (batchKey c.notice ch) c.window id

theorem Grouped.keeps {x y : Traced State Counting} (hx : Grouped x)
    (hk : KeepsPlaces x.state.store y.state.store) (hlog : y.log = x.log) : Grouped y :=
  ⟨hk.1 hx.distinct,fun pid c hm ch id hid =>
    hk.2 _ _ _ (hx.placed pid c (hlog ▸ hm) ch id hid)⟩

theorem grouped_exec {env : Env} {pid : Nat} {x y : Traced State Counting} {β : Type} {i : Stmt β}
    {b : β} (hx : Grouped x) (h : (counted env).exec pid i x = some (y,b)) : Grouped y := by
  obtain ⟨hstore,hb,hlog⟩ := exec_noted h
  have hkeeps : KeepsPlaces x.state.store y.state.store :=
    hstore ▸ effect_places i x.state.now x.state.store
  cases hn : countingNote β i b with
  | none => exact hx.keeps hkeeps (by rw [hlog,hn]; rfl)
  | some c =>
    refine ⟨hkeeps.1 hx.distinct,fun q d hm ch id hid => ?_⟩
    rw [hlog,hn] at hm
    rcases List.mem_cons.mp hm with heq | hm
    · obtain ⟨-,rfl⟩ := Prod.mk.inj heq
      cases i with
      | claim pol n ts =>
        have hclaimed : b = (claimed pol n ts x.state.now.refusal x.state.store).2 := hb
        have hstore : y.state.store = (claimed pol n ts x.state.now.refusal x.state.store).1 :=
          hstore
        obtain ⟨e,he⟩ | ⟨t,rc,hclaim,he⟩ := claimed_cases pol n ts x.state.now.refusal x.state.store
        · rw [he] at hclaimed
          rw [hclaimed] at hn
          cases hn
        · rw [he] at hclaimed hstore
          rw [hclaimed] at hn
          obtain rfl := Option.some.inj hn
          rw [hstore]
          exact (digested_places (claim_digested hclaim)).2 ch id hid
      | _ => cases hn
    · exact hkeeps.2 _ _ _ (hx.placed q d hm ch id hid)

theorem grouped_run {env : Env} {s : State} {es : List (Interleave.Event (counted env))}
    {w : World (counted env)} (h : s.store.DistinctBatches)
    (hr : (World.idle (S := counted env) ⟨s,[]⟩).run es = some w) : Grouped w.state := by
  have hstart : Grouped (⟨s,[]⟩ : Traced State Counting) := ⟨h,fun _ _ hm => nomatch hm⟩
  refine landed (S := counted env) (P := fun _ _ _ _ => True) (I := Grouped) ?_ ?_ hstart ?_ hr
  · exact fun pid x β i y b hx _ h => grouped_exec hx h
  · exact fun e => Empty.elim e
  · refine along_of_mem (fun e _ w => ?_) _
    cases e with
    | act pid => exact fun _ _ _ _ _ _ _ => trivial
    | _ => trivial

theorem same_batch_iff {x : Traced State Counting} (hx : Grouped x) {p p' : Nat} {c c' : Counting}
    (hc : (p,c) ∈ x.log) (hc' : (p',c') ∈ x.log) (hw : c.window = c'.window) {ch : Channel}
    {id id' : Nat} (hin : c.In ch id) (hin' : c'.In ch id') :
    id = id' ↔ digestKey c.notice.input = digestKey c'.notice.input := by
  obtain ⟨b,hb,hkey,hwin⟩ := hx.placed p c hc ch id hin
  obtain ⟨b',hb',hkey',hwin'⟩ := hx.placed p' c' hc' ch id' hin'
  constructor
  · rintro rfl
    obtain rfl := Option.some.inj (hb.symm.trans hb')
    have hsame : batchKey c.notice ch = batchKey c'.notice ch := hkey.symm.trans hkey'
    simpa only [batchKey,String.append_left_inj] using hsame
  · intro hkeys
    obtain ⟨hm,hid⟩ := Table.find_some hb
    obtain ⟨hm',hid'⟩ := Table.find_some hb'
    have hsame : b = b' := hx.distinct b hm b' hm' (batchKey c.notice ch,c.window)
      (by rw [batchIndex,hkey,hwin]) (by rw [batchIndex,hkey',hwin',hw,batchKey,batchKey,hkeys])
    rw [← hid,← hid',hsame]

def SameField (k : String) (ev ev' : Event) : Prop :=
  (k = "severity" → ev.severity = ev'.severity) ∧ (k = "condition" → ev.condition = ev'.condition) ∧
    (k = "server" → ev.serverID = ev'.serverID)

-- where the batches follow the fields the rule groups by
def Separated (keys : List String) (ev ev' : Event) : Prop :=
  "condition" ∈ keys ∧ ev.condition ≠ ev'.condition ∨
    ("severity" ∈ keys → ev.severity = ev'.severity) ∧ ("server" ∈ keys → ev.serverID = ev'.serverID)

theorem sameFields_iff {keys : List String} {ev ev' : Event} :
    ((∀ k ∈ keys, SameField k ev ev') ↔ ("condition" ∈ keys → ev.condition = ev'.condition)) ↔
      Separated keys ev ev' := by
  have hfields : (∀ k ∈ keys, SameField k ev ev') ↔
      ("severity" ∈ keys → ev.severity = ev'.severity) ∧
        ("condition" ∈ keys → ev.condition = ev'.condition) ∧
          ("server" ∈ keys → ev.serverID = ev'.serverID) := by
    constructor
    · exact fun h => ⟨fun hk => (h _ hk).1 rfl,fun hk => (h _ hk).2.1 rfl,fun hk => (h _ hk).2.2 rfl⟩
    · rintro ⟨hs,hc,hv⟩ k hk
      exact ⟨fun he => hs (he ▸ hk),fun he => hc (he ▸ hk),fun he => hv (he ▸ hk)⟩
  rw [hfields,Separated]
  tauto

theorem batches_separate_iff (env : Env) (s : State) (es : List (Interleave.Event (counted env)))
    (w : World (counted env)) (hs : s.store.DistinctBatches)
    (hr : (World.idle (S := counted env) ⟨s,[]⟩).run es = some w) (eng : Rules.Engine) (r : RuleRow)
    (hk : ∀ k ∈ r.groupBy, k ∈ ruleKeys) (ev ev' : Event) (p p' : Nat) (c c' : Counting)
    (hc : (p,c) ∈ w.state.log) (hc' : (p',c') ∈ w.state.log) (h : Handed eng r ev c.notice)
    (h' : Handed eng r ev' c'.notice) (hw : c.window = c'.window) (ch : Channel) (id id' : Nat)
    (hin : c.In ch id) (hin' : c'.In ch id') :
    (id = id' ↔ ∀ k ∈ r.groupBy, SameField k ev ev') ↔ Separated r.groupBy ev ev' := by
  have hgrouped := grouped_run hs hr
  rw [same_batch_iff hgrouped hc hc' hw hin hin',digestKey_eq_iff h h' hk,← sameFields_iff]
  exact ⟨Iff.symm,Iff.symm⟩

end Runs

def pipelineEngine : Rules.Engine := ⟨true,true,true,true⟩

def digestRule (key : String) : RuleRow where
  id := 1
  name := "disk"
  eventType := .serverAlert
  severity := ""
  conditionJSON := ""
  notificationGroupID := 1
  channels := [.email]
  cooldownSeconds := 0
  notifyOnRecovery := false
  repeatIntervalSec := 0
  maxRepeats := 0
  digestMode := "digest"
  digestIntervalMin := 60
  groupBy := [key]

def firing (severity condition : String) : Event where
  type := .serverAlert
  serverID := some 1
  severity := severity
  condition := condition
  value := 0
  message := "threshold exceeded"
  fingerprint := severity ++ condition
  timestamp := 1
  alertID := none

def digestInput (key : String) (ev : Event) : Input :=
  dispatchInput (.of (digestRule key) ev [.email])

def runPair (a b : Input) : Option (World (counted .utc)) :=
  (World.idle (S := counted .utc) ⟨⟨.empty,0,closing 100⟩,[]⟩).run
    (.start 0 (.dispatch a) :: List.replicate 5 (.act 0) ++
      .start 1 (.dispatch b) :: List.replicate 5 (.act 1))

theorem handed_digestInput (key : String) (ev : Event) :
    Handed pipelineEngine (digestRule key) ev (digestInput key ev).notice :=
  ⟨_,List.mem_singleton.mpr rfl,rfl⟩

structure Sighting where
  pid : Nat
  notice : Notice
  ts : Int
  hits : List (Channel × Option Nat)
deriving DecidableEq

def Counting.sighting (e : Nat × Counting) : Sighting :=
  ⟨e.1,e.2.notice,e.2.ts,e.2.receipt.hits⟩

theorem counted_of_sighting {log : List (Nat × Counting)} {p : Nat} {n : Notice} {ts : Int}
    {ch : Channel} {id : Nat} (h : ⟨p,n,ts,[(ch,some id)]⟩ ∈ log.map Counting.sighting) :
    ∃ rc : Receipt, (p,⟨n,ts,rc⟩) ∈ log ∧ (Counting.mk n ts rc).In ch id := by
  obtain ⟨⟨q,c⟩,hm,heq⟩ := List.mem_map.mp h
  simp only [Counting.sighting,Sighting.mk.injEq] at heq
  obtain ⟨rfl,rfl,rfl,hhits⟩ := heq
  exact ⟨c.receipt,hm,by rw [Counting.In,hhits]; exact List.mem_cons_self⟩

theorem conditions_apart : ∃ w c c',
    runPair (digestInput "condition" (firing "INFO" "disk"))
        (digestInput "condition" (firing "INFO" "cpu")) = some w ∧
      c.In .email 0 ∧ c'.In .email 1 ∧ (0,c) ∈ w.state.log ∧ (1,c') ∈ w.state.log ∧
      ((0 = 1 ↔ ∀ k ∈ ["condition"], SameField k (firing "INFO" "disk") (firing "INFO" "cpu")) ↔
        Separated ["condition"] (firing "INFO" "disk") (firing "INFO" "cpu")) := by
  have hrun : (runPair (digestInput "condition" (firing "INFO" "disk"))
      (digestInput "condition" (firing "INFO" "cpu"))).map (fun w =>
        w.state.log.map Counting.sighting) =
      some [⟨1,(digestInput "condition" (firing "INFO" "cpu")).notice,3599000000000,[(.email,some 1)]⟩,
        ⟨0,(digestInput "condition" (firing "INFO" "disk")).notice,3599000000000,
          [(.email,some 0)]⟩] := by
    decide +kernel
  obtain ⟨w,hw,hlog⟩ := Option.map_eq_some_iff.mp hrun
  obtain ⟨rc,hm,hin⟩ := counted_of_sighting (hlog ▸ List.mem_cons_of_mem _ List.mem_cons_self)
  obtain ⟨rc',hm',hin'⟩ := counted_of_sighting (hlog ▸ List.mem_cons_self)
  exact ⟨w,_,_,hw,hin,hin',hm,hm',batches_separate_iff .utc ⟨.empty,0,closing 100⟩ _ w
    (fun _ h => nomatch h) hw pipelineEngine (digestRule "condition") (by decide) _ _ 0 1 _ _ hm hm'
    (handed_digestInput "condition" _) (handed_digestInput "condition" _) rfl .email 0 1 hin hin'⟩

theorem severities_share_batch : ∃ w c c',
    runPair (digestInput "severity" (firing "INFO" "disk"))
        (digestInput "severity" (firing "WARNING" "disk")) = some w ∧
      (0,c) ∈ w.state.log ∧ (1,c') ∈ w.state.log ∧
      Handed pipelineEngine (digestRule "severity") (firing "INFO" "disk") c.notice ∧
      Handed pipelineEngine (digestRule "severity") (firing "WARNING" "disk") c'.notice ∧
      c.window = c'.window ∧ c.In .email 0 ∧ c'.In .email 0 ∧
      ¬SameField "severity" (firing "INFO" "disk") (firing "WARNING" "disk") := by
  have hrun : (runPair (digestInput "severity" (firing "INFO" "disk"))
      (digestInput "severity" (firing "WARNING" "disk"))).map (fun w =>
        w.state.log.map Counting.sighting) =
      some [⟨1,(digestInput "severity" (firing "WARNING" "disk")).notice,3599000000000,
          [(.email,some 0)]⟩,
        ⟨0,(digestInput "severity" (firing "INFO" "disk")).notice,3599000000000,
          [(.email,some 0)]⟩] := by
    decide +kernel
  obtain ⟨w,hw,hlog⟩ := Option.map_eq_some_iff.mp hrun
  obtain ⟨rc,hm,hin⟩ := counted_of_sighting (hlog ▸ List.mem_cons_of_mem _ List.mem_cons_self)
  obtain ⟨rc',hm',hin'⟩ := counted_of_sighting (hlog ▸ List.mem_cons_self)
  refine ⟨w,_,_,hw,hm,hm',handed_digestInput "severity" _,handed_digestInput "severity" _,rfl,
    hin,hin',fun h => ?_⟩
  exact absurd (h.1 rfl) (by decide)

end Delivery
