import ServerHub.Interleave.Chronicle
import ServerHub.Operations.Jobs

namespace Operations

open Interleave Interleave.Prog

section Stages

def states (stages : List (Text × StageState)) : List StageState := stages.map Prod.snd

-- what is done comes first, what is pending last, with one stage in between at most
def Ordered (l : List StageState) : Prop :=
  ∃ d m p, l = List.replicate d .done ++ m ++ List.replicate p .pending ∧
    (m = [] ∨ m = [.active] ∨ m = [.failed])

structure Sane (op : Operation) : Prop where
  ordered : Ordered (states op.stages)
  success : op.status = .success → ∀ s ∈ op.stages, s.2 = .done
  failed : op.status = .failed → ∀ s ∈ op.stages, s.2 ≠ .active
  error : op.error ≠ [] → op.status = .failed

def Operation.Open (op : Operation) : Prop := op.status = .queued ∨ op.status = .running

def Operation.Clean (op : Operation) : Prop := ∀ s ∈ op.stages, s.2 ≠ .failed

def Operation.mark (idx : Nat) (failed : Bool) (label : Text) (op : Operation) : Operation :=
  op.saveStages (markStages idx failed op.stages) (stageName op idx label)

def Operation.finish (status : OpStatus) (error : Text) (now : Int) (op : Operation) : Operation :=
  op.complete status error (closeStages status op.stages) now

inductive Advance (op : Operation) : Operation → Prop where
  | start (now : Int) : Advance op (op.start now)
  | mark (idx : Nat) (failed : Bool) (label : Text) : Advance op (op.mark idx failed label)
  | finish (status : OpStatus) (error : Text) (now : Int) : Advance op (op.finish status error now)

theorem Advance.id {op new : Operation} (h : Advance op new) : new.id = op.id := by
  cases h <;> rfl

theorem markStages_cons (idx : Nat) (failed : Bool) (s : Text × StageState)
    (stages : List (Text × StageState)) : markStages (idx + 1) failed (s :: stages) =
      (s.1,.done) :: markStages idx failed stages := by
  simp [markStages,List.mapIdx_cons]

theorem markStages_zero (failed : Bool) (s : Text × StageState) (stages : List (Text × StageState)) :
    markStages 0 failed (s :: stages) = (s.1,if failed then .failed else .active) ::
      stages.map fun s => (s.1,.pending) := by
  have hrest : stages.mapIdx (fun _ s => (s.1,Deploy.StageState.pending)) =
      stages.map fun s => (s.1,.pending) := List.mapIdx_eq_iff.mpr fun i => List.getElem?_map
  simp [markStages,List.mapIdx_cons,hrest]

theorem Ordered.done {l : List StageState} (h : Ordered l) : Ordered (.done :: l) := by
  obtain ⟨d,m,p,rfl,hm⟩ := h
  exact ⟨d + 1,m,p,rfl,hm⟩

theorem ordered_replicate (p : Nat) : Ordered (List.replicate p .pending) :=
  ⟨0,[],p,rfl,.inl rfl⟩

theorem states_pending (stages : List (Text × StageState)) :
    states (stages.map fun s => (s.1,.pending)) = List.replicate stages.length .pending := by
  rw [states,List.map_map]
  exact List.map_const'

theorem ordered_mark (idx : Nat) (failed : Bool) (stages : List (Text × StageState)) :
    Ordered (states (markStages idx failed stages)) := by
  induction stages generalizing idx with
  | nil => exact ordered_replicate 0
  | cons s stages ih =>
    cases idx with
    | zero =>
      rw [markStages_zero]
      show Ordered (_ :: states _)
      rw [states_pending]
      cases failed with
      | true => exact ⟨0,[.failed],stages.length,rfl,.inr (.inr rfl)⟩
      | false => exact ⟨0,[.active],stages.length,rfl,.inr (.inl rfl)⟩
    | succ idx =>
      rw [markStages_cons]
      exact (ih idx).done

theorem clean_mark (idx : Nat) (stages : List (Text × StageState)) :
    ∀ s ∈ markStages idx false stages, s.2 ≠ .failed := by
  induction stages generalizing idx with
  | nil => simp [markStages]
  | cons s stages ih =>
    cases idx with
    | zero =>
      rw [markStages_zero]
      refine List.forall_mem_cons.mpr ⟨by simp,fun a ha => ?_⟩
      obtain ⟨b,-,rfl⟩ := List.mem_map.mp ha
      simp
    | succ idx =>
      rw [markStages_cons]
      exact List.forall_mem_cons.mpr ⟨by simp,ih idx⟩

theorem close_done {stages : List (Text × StageState)} (h : ∀ s ∈ stages, s.2 ≠ .failed) :
    ∀ s ∈ closeStages .success stages, s.2 = .done := by
  intro s hs
  obtain ⟨⟨name,state⟩,ha,rfl⟩ := List.mem_map.mp hs
  have hfailed := h _ ha
  cases state <;> simp at hfailed ⊢

theorem close_still (stages : List (Text × StageState)) :
    ∀ s ∈ closeStages .failed stages, s.2 ≠ .active := by
  intro s hs
  obtain ⟨⟨name,state⟩,ha,rfl⟩ := List.mem_map.mp hs
  cases state <;> simp

theorem states_done {stages : List (Text × StageState)} (h : ∀ s ∈ stages, s.2 = .done) :
    states stages = List.replicate stages.length .done := by
  refine List.eq_replicate_iff.mpr ⟨List.length_map _,fun b hb => ?_⟩
  obtain ⟨s,hs,rfl⟩ := List.mem_map.mp hb
  exact h s hs

def closeState : StageState → StageState
  | .active => .failed
  | s => s

theorem states_failed (stages : List (Text × StageState)) :
    states (closeStages .failed stages) = (states stages).map closeState := by
  rw [states,states,closeStages,List.map_map,List.map_map]
  refine List.map_congr_left fun s _ => ?_
  obtain ⟨name,state⟩ := s
  cases state <;> rfl

theorem Ordered.close {l : List StageState} (h : Ordered l) : Ordered (l.map closeState) := by
  obtain ⟨d,m,p,rfl,hm⟩ := h
  refine ⟨d,m.map closeState,p,by simp [closeState],?_⟩
  rcases hm with rfl | rfl | rfl
  · exact .inl rfl
  · exact .inr (.inr rfl)
  · exact .inr (.inr rfl)

variable {op : Operation}

theorem Operation.Open.not_success (h : op.Open) : op.status ≠ .success := by
  rcases h with h | h <;> rw [h] <;> decide

theorem Operation.Open.not_failed (h : op.Open) : op.status ≠ .failed := by
  rcases h with h | h <;> rw [h] <;> decide

theorem Sane.no_error (h : Sane op) (ho : op.Open) : op.error = [] :=
  not_not.mp fun he => ho.not_failed (h.error he)

theorem sane_open (ho : op.Open) (he : op.error = []) (hs : Ordered (states op.stages)) : Sane op :=
  ⟨hs,fun h => absurd h ho.not_success,fun h => absurd h ho.not_failed,fun h => absurd he h⟩

theorem Sane.start (h : Sane op) (ho : op.Open) (now : Int) : Sane (op.start now) :=
  sane_open (.inr rfl) (h.no_error ho) h.ordered

theorem Sane.mark (h : Sane op) (ho : op.Open) (idx : Nat) (failed : Bool) (label : Text) :
    Sane (op.mark idx failed label) :=
  sane_open ho (h.no_error ho) (ordered_mark idx failed op.stages)

theorem Sane.finish_success (hc : op.Clean) (now : Int) : Sane (op.finish .success [] now) := by
  have hdone := close_done hc
  refine ⟨?_,fun _ => hdone,fun h => (by cases h),fun h => absurd rfl h⟩
  show Ordered (states (closeStages .success op.stages))
  rw [states_done hdone]
  exact ⟨(closeStages .success op.stages).length,[],0,by simp,.inl rfl⟩

theorem Sane.finish_failed (h : Sane op) (error : Text) (now : Int) : Sane (op.finish .failed error now) := by
  refine ⟨?_,fun h => (by cases h),fun _ => close_still op.stages,fun _ => rfl⟩
  show Ordered (states (closeStages .failed op.stages))
  rw [states_failed]
  exact h.ordered.close

theorem Target.sane (t : Target) (id : Text) (now : Int) : Sane (t.row id now) :=
  sane_open (.inl rfl) rfl ⟨0,[],t.stages.length,by simp [states,Target.row,Function.comp_def],.inl rfl⟩

end Stages

inductive Note where
  | stored (op : Operation)
  | refused
deriving DecidableEq

def updated (s : State) (id : Text) (f : Operation → Operation) : Option Text → Option Note
  | none => (s.find id).map fun op => .stored (f op)
  | some _ => some .refused

def callNote (β : Type) (i : Call β) (s : State) (b : β) : Option Note :=
  match β, i, b with
  | _, .insert op, none => some (.stored op)
  | _, .insert _, some _ => some .refused
  | _, .start id, e => updated s id (Operation.start s.clock) e
  | _, .select _, none => some .refused
  | _, .saveStages id stages stage, e => updated s id (Operation.saveStages stages stage) e
  | _, .complete id status error stages, e =>
      updated s id (Operation.complete status error stages s.clock) e
  | _, _, _ => none

def note (β : Type) (i : Instr β) (s : State) (b : β) : Option Note :=
  match i with
  | .main call => callNote β call s b
  | .side _ => none

abbrev Log := List (Nat × Note)

def Note.row (id : Text) : Note → Option Operation
  | .stored op => if op.id = id then some op else none
  | .refused => none

def latest (id : Text) (ns : List Note) : Option Operation := ns.findSome? (Note.row id)

def version (id : Text) (log : Log) : Option Operation := latest id (log.map Prod.snd)

section Traces

def Fresh (op : Operation) : Prop := ∃ t id now, op = Target.row t id now

def Justified (older : Log) (pid : Nat) : Note → Prop
  | .stored op => Sane op ∧ (version op.id older = none ∧ Fresh op ∨
      ∃ old, version op.id older = some old ∧ (pid,.stored old) ∈ older ∧ Advance old op)
  | .refused => True

def Sound (log : Log) : Prop := Chronicle (fun older e => Justified older e.1 e.2) log

structure Tracked (x : Traced State Note) : Prop where
  distinct : (x.state.operations.map Operation.id).Nodup
  table : ∀ id, x.state.find id = version id x.log
  sound : Sound x.log

variable {id : Text} {op : Operation} {ns : List Note} {log : Log} {pid : Nat}

@[simp] theorem latest_refused : latest id (.refused :: ns) = latest id ns :=
  List.findSome?_cons_of_isNone rfl

theorem latest_own (h : op.id = id) : latest id (.stored op :: ns) = some op := by
  have hrow : Note.row id (.stored op) = some op := if_pos h
  rw [latest,List.findSome?_cons_of_isSome (by simp [hrow]),hrow]

theorem latest_other (h : op.id ≠ id) : latest id (.stored op :: ns) = latest id ns := by
  have hrow : Note.row id (.stored op) = none := if_neg h
  rw [latest,List.findSome?_cons_of_isNone (by simp [hrow]),latest]

theorem row_some {n : Note} (h : n.row id = some op) : n = .stored op ∧ op.id = id := by
  cases n with
  | stored o =>
    simp only [Note.row] at h
    split at h
    · obtain rfl := Option.some.inj h
      exact ⟨rfl,‹_›⟩
    · cases h
  | refused => cases h

theorem latest_id (h : latest id ns = some op) : op.id = id := by
  obtain ⟨n,-,hn⟩ := List.exists_of_findSome?_eq_some h
  exact (row_some hn).2

theorem version_mem (h : version id log = some op) : ∃ q, (q,.stored op) ∈ log := by
  obtain ⟨n,hn,hrow⟩ := List.exists_of_findSome?_eq_some h
  obtain ⟨⟨q,m⟩,hmem,rfl⟩ := List.mem_map.mp hn
  obtain ⟨rfl,-⟩ := row_some hrow
  exact ⟨q,hmem⟩

theorem version_none (h : version id log = none) {q : Nat} (hq : (q,.stored op) ∈ log) : op.id ≠ id := by
  intro hid
  have hrow := List.findSome?_eq_none_iff.mp h (.stored op) (List.mem_map_of_mem hq)
  simp [Note.row,hid] at hrow

theorem Sound.owner (h : Sound log) {p q : Nat} {a b : Operation} (ha : (p,.stored a) ∈ log)
    (hb : (q,.stored b) ∈ log) (hid : a.id = b.id) : p = q := by
  induction log generalizing p q a b with
  | nil => cases ha
  | cons e log ih =>
    have head : ∀ {p q : Nat} {a b : Operation}, e = (p,.stored a) → (q,.stored b) ∈ log → a.id = b.id →
        p = q := by
      rintro p q a b rfl hb hid
      rcases h.1.2 with ⟨hnone,-⟩ | ⟨old,-,hold,hadvance⟩
      · exact absurd hid.symm (version_none hnone hb)
      · exact ih h.2 hold hb (hadvance.id.symm.trans hid)
    rcases List.mem_cons.mp ha with he | ha
    · rcases List.mem_cons.mp hb with he' | hb
      · exact congrArg Prod.fst (he.trans he'.symm)
      · exact head he.symm hb hid
    · rcases List.mem_cons.mp hb with he | hb
      · exact (head he.symm ha hid.symm).symm
      · exact ih h.2 ha hb hid

theorem version_own (h : ∀ q b, (q,.stored b) ∈ log → b.id = id → q = pid) :
    version id log = latest id (notesOf pid log) := by
  induction log with
  | nil => rfl
  | cons e log ih =>
    obtain ⟨q,n⟩ := e
    have hrest := ih fun q b hb => h q b (List.mem_cons_of_mem _ hb)
    have hnotes : notesOf pid ((q,n) :: log) = if q = pid then n :: notesOf pid log else notesOf pid log := by
      by_cases hq : q = pid <;> simp [notesOf,own,hq]
    show latest id (n :: log.map Prod.snd) = _
    rw [hnotes]
    cases n with
    | refused =>
      rw [latest_refused]
      split
      · rw [latest_refused]
        exact hrest
      · exact hrest
    | stored b =>
      by_cases hid : b.id = id
      · rw [latest_own hid,if_pos (h q b List.mem_cons_self hid),latest_own hid]
      · rw [latest_other hid]
        split
        · rw [latest_other hid]
          exact hrest
        · exact hrest

variable {x : Traced State Note}

theorem Tracked.own (h : Tracked x) (ho : latest id (notesOf pid x.log) = some op) :
    x.state.find id = some op ∧ (pid,.stored op) ∈ x.log := by
  have hid := latest_id ho
  obtain ⟨n,hn,hrow⟩ := List.exists_of_findSome?_eq_some ho
  obtain ⟨rfl,-⟩ := row_some hrow
  have hmem := mem_notesOf.mp hn
  refine ⟨?_,hmem⟩
  rw [h.table,version_own fun q b hb hb' => h.sound.owner hb hmem (hb'.trans hid.symm)]
  exact ho

theorem Tracked.stay (h : Tracked x) {s : State} {n : Option Note}
    (hs : s.operations = x.state.operations) (hn : ∀ m ∈ n, m = .refused) :
    Tracked ⟨s,record pid x.log n⟩ := by
  have hfind : ∀ id, s.find id = x.state.find id := fun id => by rw [State.find,hs,State.find]
  cases n with
  | none => exact ⟨hs ▸ h.distinct,fun id => (hfind id).trans (h.table id),h.sound⟩
  | some m =>
    obtain rfl := hn m rfl
    refine ⟨hs ▸ h.distinct,fun id => (hfind id).trans ((h.table id).trans ?_),trivial,h.sound⟩
    exact latest_refused.symm

theorem find_append {ops : List Operation} (h : ops.find? (fun o => o.id = op.id) = none) :
    (ops ++ [op]).find? (fun o => o.id = id) =
      if op.id = id then some op else ops.find? fun o => o.id = id := by
  rw [List.find?_append]
  split
  · rename_i hid
    rw [← hid,h]
    simp
  · rename_i hid
    simp [hid]

theorem Tracked.insert (h : Tracked x) {s : State} (hnone : x.state.find op.id = none)
    (hfresh : Fresh op) (hsane : Sane op) (hs : s.operations = x.state.operations ++ [op]) :
    Tracked ⟨s,(pid,.stored op) :: x.log⟩ := by
  refine ⟨?_,fun id => ?_,⟨hsane,.inl ⟨(h.table op.id).symm.trans hnone,hfresh⟩⟩,h.sound⟩
  · show (s.operations.map Operation.id).Nodup
    rw [hs,List.map_append,List.map_singleton]
    refine List.nodup_append.mpr ⟨h.distinct,by simp,fun a ha b hb he => ?_⟩
    obtain ⟨o,ho,rfl⟩ := List.mem_map.mp ha
    obtain rfl := List.mem_singleton.mp hb
    simpa [he] using List.find?_eq_none.mp hnone o ho
  · show s.operations.find? _ = latest id (.stored op :: x.log.map Prod.snd)
    rw [hs,find_append hnone]
    split
    · rw [latest_own ‹_›]
    · rw [latest_other ‹_›]
      exact h.table id

variable {f : Operation → Operation}

theorem find_update {ops : List Operation} {target : Text} (hf : ∀ o, (f o).id = o.id) :
    (ops.map fun o => if o.id = target then f o else o).find? (fun o => o.id = id) =
      (ops.find? fun o => o.id = id).map fun o => if o.id = target then f o else o := by
  have hsame : ((fun o : Operation => decide (o.id = id)) ∘ fun o => if o.id = target then f o else o) =
      fun o => decide (o.id = id) := by
    funext o
    show decide ((if o.id = target then f o else o).id = id) = _
    split
    · rw [hf]
    · rfl
  rw [List.find?_map,hsame]

theorem Tracked.update (h : Tracked x) {s : State} (hold : x.state.find id = some op)
    (hmem : (pid,.stored op) ∈ x.log) (hadvance : Advance op (f op)) (hsane : Sane (f op))
    (hf : ∀ o, (f o).id = o.id)
    (hs : s.operations = x.state.operations.map fun o => if o.id = id then f o else o) :
    Tracked ⟨s,(pid,.stored (f op)) :: x.log⟩ := by
  have hid : op.id = id := by simpa using List.find?_some hold
  have hversion : version (f op).id x.log = some op := by
    rw [hf,hid,← h.table,hold]
  refine ⟨?_,fun id' => ?_,⟨hsane,.inr ⟨op,hversion,hmem,hadvance⟩⟩,h.sound⟩
  · have hids : (Operation.id ∘ fun o => if o.id = id then f o else o) = Operation.id := by
      funext o
      show (if o.id = id then f o else o).id = o.id
      split
      · exact hf o
      · rfl
    show (s.operations.map Operation.id).Nodup
    rw [hs,List.map_map,hids]
    exact h.distinct
  · show s.operations.find? _ = latest id' (.stored (f op) :: x.log.map Prod.snd)
    rw [hs,find_update hf]
    by_cases he : id = id'
    · subst he
      have hfound : x.state.operations.find? (fun o => o.id = id) = some op := hold
      rw [latest_own ((hf op).trans hid),hfound]
      simp [hid]
    · rw [latest_other fun hc => he (hid.symm.trans ((hf op).symm.trans hc))]
      have hother := h.table id'
      rw [State.find] at hother
      rw [hother]
      show (version id' x.log).map _ = version id' x.log
      cases hv : version id' x.log with
      | none => rfl
      | some o =>
        have hne : o.id ≠ id := fun hc => he (hc.symm.trans (latest_id hv))
        simp [hne]

end Traces

end Operations
