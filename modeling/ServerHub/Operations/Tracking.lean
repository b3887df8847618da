import ServerHub.Operations.Versions

namespace Operations

open Interleave Interleave.Prog

def tracking (m : Nat → Machine) : Ledger (jobs m) note where
  Inv := Tracked
  Allow _ _ _ _ := True
  Duty _ _ _ _ := True

abbrev Moves (m : Nat → Machine) (pid : Nat) {α : Type} (J : List Note → Prop) (p : Handler α)
    (Q : α → List Note → Prop) : Prop := (tracking m).Tells pid J p Q

def Owns (id : Text) (P : Operation → Prop) (ns : List Note) : Prop :=
  ∃ op, latest id ns = some op ∧ P op

def NoRow (ns : List Note) : Prop := ∀ op, .stored op ∉ ns

structure Live (op : Operation) : Prop where
  isOpen : op.Open
  clean : op.Clean
  sane : Sane op

structure Limping (op : Operation) : Prop where
  isOpen : op.Open
  sane : Sane op

def Finished (id : Text) (P : Operation → Prop) (ns : List Note) : Prop := .refused ∈ ns ∨ Owns id P ns

section Statements

variable {m : Nat → Machine} {pid : Nat} {β γ : Type} {J : List Note → Prop} {id : Text} {op : Operation}

theorem tells_quiet {call : Call β} (hops : ∀ s, (run call s).1.operations = s.operations)
    (hn : ∀ s b, callNote β call s b = none) : Moves m pid J (ask call) fun _ => J := by
  refine Ledger.tells_perform fun x t b hx hJ _ hexec => ?_
  obtain ⟨ht,-⟩ := Prod.mk.inj (Option.some.inj hexec)
  have hnote : note β (.main call) x.state b = none := hn _ _
  rw [hnote]
  exact ⟨trivial,hx.stay (ht ▸ hops x.state) fun m hm => (by cases hm),hJ⟩

theorem tells_side {call : Deploy.DeployCall β} : Moves m pid J (perform (.side call)) fun _ => J := by
  refine Ledger.tells_perform fun x t b hx hJ _ hexec => ?_
  obtain ⟨b',-,he⟩ := Option.map_eq_some_iff.mp hexec
  obtain ⟨rfl,rfl⟩ := Prod.mk.inj he
  exact ⟨trivial,hx.stay rfl fun m hm => (by cases hm),hJ⟩

theorem run_update (s : State) (id : Text) (f : Operation → Operation) :
    (s.update id f).2 = none ∧
      (s.update id f).1.operations = s.operations.map (fun o => if o.id = id then f o else o) ∨
    (∃ e, (s.update id f).2 = some e) ∧ (s.update id f).1.operations = s.operations := by
  unfold State.update
  cases (s.outside s.asked).fault with
  | none => exact .inl ⟨rfl,rfl⟩
  | some e => exact .inr ⟨⟨e,rfl⟩,rfl⟩

theorem tells_update {call : Call (Option Text)} {f : Int → Operation → Operation} {R : List Note → Prop}
    (hrun : ∀ s, run call s = s.update id (f s.clock))
    (hnote : ∀ s b, callNote _ call s b = updated s id (f s.clock) b)
    (hf : ∀ now o, (f now o).id = o.id) (hadvance : ∀ now, Advance op (f now op))
    (hsane : ∀ now, Sane (f now op)) (hR : ∀ ns now, latest id ns = some op → R (.stored (f now op) :: ns))
    (hrefused : ∀ ns, latest id ns = some op → R (.refused :: ns)) :
    Moves m pid (fun ns => latest id ns = some op) (ask call) fun _ => R := by
  refine Ledger.tells_perform fun x t b hx hJ _ hexec => ?_
  have hexec : State.update x.state id (f x.state.clock) = (t,b) :=
    (hrun x.state).symm.trans (Option.some.inj hexec)
  obtain ⟨hfound,hmem⟩ := hx.own hJ
  have hn : note _ (.main call) x.state b = updated x.state id (f x.state.clock) b := hnote _ _
  rw [hn]
  rcases run_update x.state id (f x.state.clock) with ⟨hb,hops⟩ | ⟨⟨e,hb⟩,hops⟩
  · rw [hexec] at hb hops
    obtain rfl : b = none := hb
    have hstored : updated x.state id (f x.state.clock) none = some (.stored (f x.state.clock op)) :=
      congrArg (Option.map fun o => Note.stored (f x.state.clock o)) hfound
    rw [hstored]
    exact ⟨trivial,hx.update hfound hmem (hadvance _) (hsane _) (hf _) hops,hR _ _ hJ⟩
  · rw [hexec] at hb hops
    obtain rfl : b = some e := hb
    refine ⟨trivial,hx.stay hops fun m hm => ?_,hrefused _ hJ⟩
    obtain rfl := Option.some.inj hm
    rfl

def Selected (id : Text) (P : Operation → Prop) : Option Operation → List Note → Prop
  | none, ns => Owns id P ns ∧ .refused ∈ ns
  | some op, ns => latest id ns = some op ∧ P op

theorem run_select (s : State) (id : Text) : (run (.select id) s).1.operations = s.operations ∧
    ((run (.select id) s).2 = none ∨ (run (.select id) s).2 = s.find id) := by
  simp only [run]
  cases (s.outside s.asked).fault with
  | none => exact ⟨rfl,.inr rfl⟩
  | some e => exact ⟨rfl,.inl rfl⟩

theorem tells_select {P : Operation → Prop} :
    Moves m pid (Owns id P) (ask (.select id)) (Selected id P) := by
  refine Ledger.tells_perform fun x t b hx hJ _ hexec => ?_
  have hexec : run (.select id) x.state = (t,b) := Option.some.inj hexec
  obtain ⟨hops,hb⟩ := run_select x.state id
  rw [hexec] at hops hb
  cases b with
  | none =>
    have hnote : note _ (.main (Call.select id)) x.state none = some .refused := rfl
    rw [hnote]
    refine ⟨trivial,hx.stay hops fun m hm => (Option.some.inj hm).symm,?_,List.mem_cons_self⟩
    obtain ⟨op,hop,hP⟩ := hJ
    exact ⟨op,latest_refused.trans hop,hP⟩
  | some op' =>
    have hnote : note _ (.main (Call.select id)) x.state (some op') = none := rfl
    obtain ⟨op,hop,hP⟩ := hJ
    have hfound : x.state.find id = some op' := (hb.resolve_left fun h => by cases h).symm
    obtain rfl := Option.some.inj ((hx.own hop).1.symm.trans hfound)
    rw [hnote]
    exact ⟨trivial,hx.stay hops fun m hm => (by cases hm),hop,hP⟩

theorem tells_start : Moves m pid (Owns id Live) (start id) fun _ => Owns id Live := by
  refine Ledger.tells_exists fun op => Ledger.tells_given fun hlive => ?_
  refine Ledger.tells_bind (Q := fun _ => Owns id Live) (tells_update (f := Operation.start)
    (fun _ => rfl) (fun _ _ => rfl) (fun _ _ => rfl) .start
    (hlive.sane.start hlive.isOpen) (fun ns now h => ?_) fun ns h => ?_) fun _ => Ledger.tells_ret fun _ h => h
  · have hid := latest_id h
    exact ⟨op.start now,latest_own hid,.inr rfl,hlive.clean,hlive.sane.start hlive.isOpen now⟩
  · exact ⟨op,latest_refused.trans h,hlive⟩

theorem tells_mark {P : Operation → Prop} {idx : Nat} {failed : Bool} {label : Text}
    (hmark : ∀ op, Live op → P (op.mark idx failed label)) (hkeep : ∀ op, Live op → P op) :
    Moves m pid (Owns id Live) (setStage id idx failed label) fun _ => Owns id P := by
  refine Ledger.tells_bind (tells_select (P := Live)) fun found => ?_
  cases found with
  | none =>
    refine Ledger.tells_ret fun ns hns => ?_
    obtain ⟨⟨op,hop,hlive⟩,-⟩ := hns
    exact ⟨op,hop,hkeep op hlive⟩
  | some op =>
    refine Ledger.tells_given fun hlive => ?_
    refine Ledger.tells_bind (Q := fun _ => Owns id P) (tells_update
      (f := fun _ => Operation.saveStages (markStages idx failed op.stages) (stageName op idx label))
      (fun _ => rfl) (fun _ _ => rfl) (fun _ _ => rfl) (fun _ => .mark idx failed label)
      (fun _ => hlive.sane.mark hlive.isOpen idx failed label) (fun ns _ h => ?_) fun ns h => ?_)
      fun _ => Ledger.tells_ret fun _ h => h
    · have hid := latest_id h
      exact ⟨op.mark idx failed label,latest_own hid,hmark op hlive⟩
    · exact ⟨op,latest_refused.trans h,hkeep op hlive⟩

theorem tells_setStage (idx : Nat) (label : Text) :
    Moves m pid (Owns id Live) (setStage id idx false label) fun _ => Owns id Live :=
  tells_mark (fun op h => ⟨h.isOpen,clean_mark idx op.stages,h.sane.mark h.isOpen idx false label⟩)
    fun _ h => h

theorem tells_failStage (idx : Nat) (label : Text) :
    Moves m pid (Owns id Live) (setStage id idx true label) fun _ => Owns id Limping :=
  tells_mark (fun _ h => ⟨h.isOpen,h.sane.mark h.isOpen idx true label⟩) fun _ h => ⟨h.isOpen,h.sane⟩

def Ended (status : OpStatus) (error : Text) (op : Operation) : Prop :=
  op.status = status ∧ op.error = error

theorem tells_finish {P : Operation → Prop} {status : OpStatus} {error : Text}
    (hsane : ∀ op, P op → ∀ now, Sane (op.finish status error now)) :
    Moves m pid (Owns id P) (finish id status error) fun _ => Finished id (Ended status error) := by
  refine Ledger.tells_bind (tells_select (P := P)) fun found => ?_
  cases found with
  | none => exact Ledger.tells_ret fun ns hns => .inl hns.2
  | some op =>
    refine Ledger.tells_given fun hP => ?_
    refine Ledger.tells_bind (Q := fun _ => Finished id (Ended status error)) (tells_update
      (f := fun now => Operation.complete status error (closeStages status op.stages) now)
      (fun _ => rfl) (fun _ _ => rfl) (fun _ _ => rfl) (.finish status error) (hsane op hP)
      (fun ns now h => ?_) fun ns h => .inl List.mem_cons_self) fun _ => Ledger.tells_ret fun _ h => h
    have hid := latest_id h
    exact .inr ⟨op.finish status error now,latest_own hid,rfl,rfl⟩

theorem tells_success :
    Moves m pid (Owns id Live) (finish id .success []) fun _ => Finished id (Ended .success []) :=
  tells_finish fun _ h => Sane.finish_success h.clean

theorem tells_failure (error : Text) : Moves m pid (Owns id Limping) (finish id .failed error)
    fun _ => Finished id (Ended .failed error) :=
  tells_finish fun _ h => h.sane.finish_failed error

theorem limps {ns : List Note} (h : Owns id Live ns) : Owns id Limping ns := by
  obtain ⟨op,hop,hlive⟩ := h
  exact ⟨op,hop,hlive.isOpen,hlive.sane⟩

def Created : Except Text Operation → List Note → Prop
  | .error _, ns => NoRow ns
  | .ok op, ns => Owns op.id Live ns ∧ op.id ≠ []

theorem run_insert (s : State) (op : Operation) :
    s.find op.id = none ∧ (run (.insert op) s).2 = none ∧
      (run (.insert op) s).1.operations = s.operations ++ [op] ∨
    (∃ e, (run (.insert op) s).2 = some e) ∧ (run (.insert op) s).1.operations = s.operations := by
  simp only [run]
  cases (s.outside s.asked).fault with
  | some e => exact .inr ⟨⟨e,rfl⟩,rfl⟩
  | none =>
    by_cases h : s.find op.id = none
    · rw [if_pos h]
      exact .inl ⟨h,rfl,rfl⟩
    · rw [if_neg h]
      exact .inr ⟨⟨duplicate,rfl⟩,rfl⟩

theorem Target.live (t : Target) (id : Text) (now : Int) : Live (t.row id now) := by
  refine ⟨.inl rfl,fun s hs => ?_,t.sane id now⟩
  obtain ⟨name,-,rfl⟩ := List.mem_map.mp hs
  simp

theorem tells_insert (t : Target) (id : Text) (now : Int) :
    Moves m pid NoRow (ask (.insert (t.row id now))) fun e ns =>
      if e = none then Owns id Live ns else NoRow ns := by
  refine Ledger.tells_perform fun x u b hx hJ _ hexec => ?_
  have hexec : run (.insert (t.row id now)) x.state = (u,b) := Option.some.inj hexec
  rcases run_insert x.state (t.row id now) with ⟨hnone,hb,hops⟩ | ⟨⟨e,hb⟩,hops⟩
  · rw [hexec] at hb hops
    obtain rfl : b = none := hb
    have hnote : note _ (.main (Call.insert (t.row id now))) x.state none =
        some (.stored (t.row id now)) := rfl
    rw [hnote,if_pos rfl]
    exact ⟨trivial,hx.insert hnone ⟨t,id,now,rfl⟩ (t.sane id now) hops,t.row id now,latest_own rfl,
      t.live id now⟩
  · rw [hexec] at hb hops
    obtain rfl : b = some e := hb
    have hnote : note _ (.main (Call.insert (t.row id now))) x.state (some e) = some .refused := rfl
    rw [hnote,if_neg (by simp)]
    refine ⟨trivial,hx.stay hops fun m hm => (Option.some.inj hm).symm,fun op hop => ?_⟩
    rcases List.mem_cons.mp hop with h | h
    · cases h
    · exact hJ op h

theorem tells_create (t : Target) : Moves m pid NoRow (create t) Created := by
  refine Ledger.tells_bind (tells_quiet (fun _ => rfl) fun _ _ => rfl) fun b => ?_
  refine Ledger.tells_bind (tells_quiet (fun _ => rfl) fun _ _ => rfl) fun now => ?_
  refine Ledger.tells_bind (tells_insert t (newID b) now) fun e => ?_
  cases e with
  | none => exact Ledger.tells_ret fun ns hns => ⟨hns,List.cons_ne_nil _ _⟩
  | some e => exact Ledger.tells_ret fun ns hns => hns

end Statements

def Ledgered : Deploy.Outcome → OpStatus
  | .success => .success
  | .failed => .failed

def Told (r : Reply) (ns : List Note) : Prop :=
  match r with
  | .tracked id => Owns id Live ns
  | .done id => Finished id (Ended .success []) ns
  | .failed id error => Finished id (Ended .failed error) ns
  | .deployed id outcome => Finished id (fun op => op.status = Ledgered outcome) ns
  | .operation op => Sane op ∧ NoRow ns
  | .operations ops => (∀ op ∈ ops, Sane op) ∧ NoRow ns
  | _ => NoRow ns

section Drivers

variable {m : Nat → Machine} {pid : Nat} {id : Text}

theorem tells_fail (error : Text) : Moves m pid (Owns id Limping) (fail id error) Told :=
  Ledger.tells_bind (tells_failure error) fun _ => Ledger.tells_ret fun _ h => h

theorem tells_failLive (error : Text) : Moves m pid (Owns id Live) (fail id error) Told :=
  Ledger.tells_mono (fun _ h => limps h) (fun _ _ h => h) (tells_fail error)

theorem tells_succeed : Moves m pid (Owns id Live) (succeed id) Told :=
  Ledger.tells_bind tells_success fun _ => Ledger.tells_ret fun _ h => h

theorem tells_attempt {J : List Note → Prop} (w : Work) : Moves m pid J (ask (.attempt w)) fun _ => J :=
  tells_quiet (fun _ => rfl) fun _ _ => rfl

theorem tells_tracked {t : Target} {job : Text → Handler Reply}
    (h : ∀ id, Moves m pid (Owns id Live) (job id) Told) : Moves m pid NoRow (tracked t job) Told := by
  refine Ledger.tells_bind (tells_create t) fun created => ?_
  cases created with
  | error e => exact Ledger.tells_ret fun ns hns => hns
  | ok op => exact Ledger.tells_mono (fun ns hns => hns.1) (fun _ _ h => h) (h op.id)

theorem tells_runContainer (action container : Text) :
    Moves m pid (Owns id Live) (runContainer id action container) Told := by
  refine Ledger.tells_bind (tells_quiet (fun _ => rfl) fun _ _ => rfl) fun available => ?_
  refine Ledger.tells_ite (fun _ => ?_) fun _ => tells_failLive _
  refine Ledger.tells_bind tells_start fun _ => ?_
  refine Ledger.tells_bind (tells_setStage 0 []) fun _ => ?_
  refine Ledger.tells_bind (tells_attempt _) fun failure => ?_
  cases failure with
  | none => exact tells_succeed
  | some e => exact Ledger.tells_bind (tells_failStage 0 []) fun _ => tells_fail e

theorem tells_denyProtected (id : Text) : Moves m pid NoRow (denyProtected id) fun _ => NoRow := by
  refine Ledger.tells_bind (tells_quiet (fun _ => rfl) fun _ _ => rfl) fun available => ?_
  refine Ledger.tells_ite (fun _ => ?_) fun _ => Ledger.tells_ret fun _ h => h
  refine Ledger.tells_bind (tells_quiet (fun _ => rfl) fun _ _ => rfl) fun found => ?_
  cases found with
  | none => exact Ledger.tells_ret fun _ h => h
  | some info =>
    exact Ledger.tells_bind (tells_quiet (fun _ => rfl) fun _ _ => rfl) fun _ => Ledger.tells_ret fun _ h => h

theorem tells_lifecycle (action id actor : Text) (needConfirm confirmed : Bool) :
    Moves m pid NoRow (lifecycle action id actor needConfirm confirmed) Told := by
  refine Ledger.tells_ite (fun _ => Ledger.tells_ret fun _ h => h) fun _ => ?_
  refine Ledger.tells_bind (Q := fun _ => NoRow) ?_ fun reason => ?_
  · exact Ledger.tells_ite (fun _ => tells_denyProtected id) fun _ => Ledger.tells_ret fun _ h => h
  · refine Ledger.tells_ite (fun _ => Ledger.tells_ret fun _ h => h) fun _ => ?_
    exact tells_tracked fun op => tells_runContainer action id

theorem tells_recordSnapshot : Moves m pid (Owns id Live) (recordSnapshot id) Told := by
  refine Ledger.tells_bind (tells_setStage 1 []) fun _ => ?_
  refine Ledger.tells_bind (tells_attempt _) fun failure => ?_
  cases failure with
  | none => exact tells_succeed
  | some e => exact tells_failLive _

theorem tells_writeSnapshot (path : Text) : Moves m pid (Owns id Live) (writeSnapshot id path) Told := by
  refine Ledger.tells_bind (tells_setStage 0 []) fun _ => ?_
  refine Ledger.tells_bind (tells_attempt _) fun failure => ?_
  cases failure with
  | some e => exact tells_failLive _
  | none =>
    refine Ledger.tells_bind (tells_attempt _) fun werr => ?_
    refine Ledger.tells_bind (tells_attempt _) fun cerr => ?_
    exact Ledger.tells_ite (fun _ => tells_failLive _) fun _ => tells_recordSnapshot

theorem tells_runBackup (path : Text) : Moves m pid (Owns id Live) (runBackup id path) Told := by
  refine Ledger.tells_bind tells_start fun _ => ?_
  refine Ledger.tells_ite (fun _ => tells_failLive _) fun _ => ?_
  refine Ledger.tells_bind (tells_attempt _) fun missing => ?_
  cases missing with
  | some e => exact tells_failLive _
  | none =>
    refine Ledger.tells_bind (tells_attempt _) fun failure => ?_
    cases failure with
    | some e => exact tells_failLive _
    | none => exact tells_writeSnapshot path

theorem tells_runRestore (dest : Text) : Moves m pid (Owns id Live) (runRestore id dest) Told := by
  refine Ledger.tells_bind tells_start fun _ => ?_
  refine Ledger.tells_bind (tells_setStage 0 []) fun _ => ?_
  refine Ledger.tells_bind (tells_attempt _) fun failure => ?_
  cases failure with
  | some e => exact Ledger.tells_bind (tells_failStage 0 []) fun _ => tells_fail _
  | none =>
    refine Ledger.tells_bind (tells_setStage 1 []) fun _ => ?_
    refine Ledger.tells_bind (tells_attempt _) fun failure => ?_
    cases failure with
    | some e => exact Ledger.tells_bind (tells_failStage 0 []) fun _ => tells_fail _
    | none => exact tells_succeed

end Drivers

end Operations
