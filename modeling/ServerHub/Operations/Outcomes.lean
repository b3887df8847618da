import ServerHub.Operations.Tracking

namespace Operations

open Interleave Interleave.Prog

def aside : {β : Type} → Deploy.DeployCall β → Prop
  | _, .createOp _ => False
  | _, .startOp _ => False
  | _, .setStage _ _ _ _ => False
  | _, .finishOp _ _ _ => False
  | _, _ => True

section Lowered

variable {m : Nat → Machine} {pid : Nat} {id : Text} {α β γ : Type} {J : List Note → Prop}
  {job : Deploy.Job}

abbrev Lowers (m : Nat → Machine) (pid : Nat) {α : Type} (J : List Note → Prop) (p : Deploy.Pipeline α)
    (Q : α → List Note → Prop) : Prop := Moves m pid J (p.lower lowerCall) Q

theorem lowers_bind {p : Deploy.Pipeline α} {g : α → Deploy.Pipeline γ} {Q : α → List Note → Prop}
    {R : γ → List Note → Prop} (hp : Lowers m pid J p Q) (hg : ∀ a, Lowers m pid (Q a) (g a) R) :
    Lowers m pid J (p >>= g) R := Ledger.tells_lower hp hg

theorem lowers_ret {a : α} {Q : α → List Note → Prop} (h : ∀ ns, J ns → Q a ns) :
    Lowers m pid J (.ret a) Q := Ledger.tells_ret h

theorem lowers_call {i : Deploy.DeployCall β} {Q : β → List Note → Prop}
    (h : Moves m pid J (lowerCall i) Q) : Lowers m pid J (perform i) Q :=
  Ledger.tells_bind h fun _ => Ledger.tells_ret fun _ h => h

theorem lowers_ite {c : Prop} [Decidable c] {p q : Deploy.Pipeline α} {Q : α → List Note → Prop}
    (hp : c → Lowers m pid J p Q) (hq : ¬c → Lowers m pid J q Q) :
    Lowers m pid J (if c then p else q) Q := by
  split
  · exact hp ‹c›
  · exact hq ‹¬c›

theorem tells_aside {i : Deploy.DeployCall β} (h : aside i) : Moves m pid J (lowerCall i) fun _ => J := by
  cases i <;> first | exact tells_side | cases h

theorem lowers_aside {p : Deploy.Pipeline α} (h : p.Uses aside) : Lowers m pid J p fun _ => J :=
  Ledger.tells_uses (fun _ hi => tells_aside hi) h

theorem run_aside (buf dir name : Text) (args : List Text) :
    (Deploy.run buf dir name args).Uses aside := ⟨trivial,fun _ => trivial⟩

theorem resolveExec_aside (path : Text) (roots : List Text) :
    (Deploy.resolveExec path roots).Uses aside := by
  unfold Deploy.resolveExec
  cases Deploy.validateWrite path roots with
  | error e => trivial
  | ok cleaned =>
    refine uses_ite trivial ⟨trivial,fun b => ?_⟩
    match b with
    | .error (.notExist,_) => trivial
    | .error (.notDir,_) => trivial
    | .error (.loop,_) => trivial
    | .ok resolved => exact uses_ite trivial trivial

theorem warnComposeRefs_aside (p : Text) (roots : List Text) :
    (Deploy.warnComposeRefs p roots).Uses aside := by
  refine ⟨trivial,fun b => ?_⟩
  cases b with
  | error e => trivial
  | ok refs => exact uses_ite trivial trivial

theorem checkURL_aside (url : Text) : (Deploy.checkURL url).Uses aside :=
  uses_ite trivial ⟨trivial,fun _ => trivial⟩

def Closed (id : Text) (outcome : Deploy.Outcome) : List Note → Prop :=
  Finished id fun op => op.status = Ledgered outcome

theorem finished_mono {P Q : Operation → Prop} (h : ∀ op, P op → Q op) {ns : List Note}
    (hns : Finished id P ns) : Finished id Q ns := by
  rcases hns with hns | ⟨op,hop,hP⟩
  · exact .inl hns
  · exact .inr ⟨op,hop,h op hP⟩

theorem lowers_fail (logs : Text) : Lowers m pid (Owns job.opID Limping) (Deploy.fail job logs)
    (Closed job.opID) := by
  refine lowers_bind (lowers_aside ⟨trivial,fun _ => trivial⟩) fun _ => ?_
  refine lowers_bind (lowers_call (tells_failure logs)) fun _ => ?_
  exact lowers_ret fun ns hns => finished_mono (fun _ h => h.1) hns

theorem lowers_failLive (logs : Text) : Lowers m pid (Owns job.opID Live) (Deploy.fail job logs)
    (Closed job.opID) :=
  Ledger.tells_mono (fun _ h => limps h) (fun _ _ h => h) (lowers_fail logs)

theorem lowers_succeed (logs : Text) : Lowers m pid (Owns job.opID Live) (Deploy.succeed job logs)
    (Closed job.opID) := by
  refine lowers_bind (lowers_aside ⟨trivial,fun _ => trivial⟩) fun _ => ?_
  refine lowers_bind (lowers_call tells_success) fun _ => ?_
  exact lowers_ret fun ns hns => finished_mono (fun _ h => h.1) hns

theorem lowers_stage (idx : Nat) : Lowers m pid (Owns id Live) (perform (.setStage id idx false []))
    fun _ => Owns id Live := lowers_call (tells_setStage idx [])

theorem lowers_failStage (idx : Nat) : Lowers m pid (Owns id Live) (perform (.setStage id idx true []))
    fun _ => Owns id Limping := lowers_call (tells_failStage idx [])

theorem lowers_checkHealth (policy : Deploy.ExecPolicy) (buf : Text) :
    Lowers m pid (Owns job.opID Live) (Deploy.checkHealth policy job buf) (Closed job.opID) := by
  refine lowers_bind (lowers_stage 2) fun _ => ?_
  refine lowers_ite (fun _ => lowers_succeed buf) fun _ => ?_
  refine lowers_bind (lowers_aside ⟨trivial,fun _ => trivial⟩) fun health => ?_
  obtain ⟨healthy,reason⟩ := health
  cases healthy with
  | true => exact lowers_succeed _
  | false => exact lowers_bind (lowers_failStage 2) fun _ => lowers_fail _

theorem lowers_failUp (buf err : Text) :
    Lowers m pid (Owns job.opID Live) (Deploy.failUp job buf err) (Closed job.opID) :=
  lowers_bind (lowers_failStage 1) fun _ => lowers_fail _

theorem lowers_startServices (policy : Deploy.ExecPolicy) (dir buf : Text) :
    Lowers m pid (Owns job.opID Live) (Deploy.startServices policy job dir buf) (Closed job.opID) := by
  refine lowers_bind (lowers_stage 1) fun _ => ?_
  refine lowers_bind (lowers_aside (run_aside _ _ _ _)) fun up => ?_
  obtain ⟨buf,err⟩ := up
  cases err with
  | none => exact lowers_checkHealth policy buf
  | some err =>
    refine lowers_bind (lowers_aside (run_aside _ _ _ _)) fun pull => ?_
    obtain ⟨buf,failed⟩ := pull
    cases failed with
    | some _ => exact lowers_failUp buf err
    | none =>
      refine lowers_bind (lowers_aside (run_aside _ _ _ _)) fun legacy => ?_
      obtain ⟨buf,failed⟩ := legacy
      cases failed with
      | some _ => exact lowers_failUp buf err
      | none => exact lowers_checkHealth policy buf

theorem lowers_pullImages (policy : Deploy.ExecPolicy) (dir buf : Text) :
    Lowers m pid (Owns job.opID Live) (Deploy.pullImages policy job dir buf) (Closed job.opID) := by
  refine lowers_bind (lowers_stage 0) fun _ => ?_
  refine lowers_bind (lowers_aside (run_aside _ _ _ _)) fun pull => ?_
  obtain ⟨buf,err⟩ := pull
  cases err <;> exact lowers_startServices policy dir _

variable (job) in
theorem lowers_executeDeploy (policy : Deploy.ExecPolicy) :
    Lowers m pid (Owns job.opID Live) (Deploy.executeDeploy policy job) (Closed job.opID) := by
  refine lowers_bind (lowers_call tells_start) fun _ => ?_
  refine lowers_bind (lowers_aside (resolveExec_aside _ _)) fun resolved => ?_
  cases resolved with
  | error e => exact lowers_failLive e
  | ok dir =>
    dsimp only
    cases Deploy.validateComposeFile job.project.composeFile with
    | error e => exact lowers_failLive e
    | ok _ =>
      refine lowers_bind (lowers_aside (checkURL_aside _)) fun invalid => ?_
      cases invalid with
      | some e => exact lowers_failLive _
      | none =>
        refine lowers_bind (lowers_aside ⟨trivial,fun _ => trivial⟩) fun found => ?_
        cases found with
        | none => exact lowers_failLive _
        | some _ =>
          refine lowers_bind (lowers_aside (warnComposeRefs_aside _ _)) fun buf => ?_
          exact lowers_pullImages policy dir buf

def Opened : Option Text → List Note → Prop
  | none, ns => NoRow ns
  | some id, ns => Owns id Live ns ∧ id ≠ []

theorem lowers_createOp (n : Deploy.NewOperation) :
    Lowers m pid NoRow (perform (.createOp n)) Opened := by
  refine lowers_call (Ledger.tells_bind (tells_create _) fun created => ?_)
  cases created with
  | error e => exact Ledger.tells_ret fun ns hns => hns
  | ok op => exact Ledger.tells_ret fun ns hns => hns

theorem tells_runDeployment (policy : Deploy.ExecPolicy) (type : Text) (q : Deploy.Project)
    (actor commit : Text) (deployID : Nat) :
    Moves m pid NoRow (runDeployment policy type q actor commit deployID) Told := by
  refine Ledger.tells_bind (Q := fun r => Told (deployReply r)) (lowers_bind (lowers_createOp _)
    fun created => ?_) fun r => Ledger.tells_ret fun _ h => h
  cases created with
  | none => exact lowers_ret fun ns hns => hns
  | some id =>
    refine lowers_bind (Q := Closed id) ?_ fun out => lowers_ret fun ns hns => hns
    exact Ledger.tells_mono (fun ns hns => hns.1) (fun _ _ h => h)
      (lowers_executeDeploy ⟨id,deployID,q,actor,commit⟩ policy)

theorem told_refused (code : Nat) (error : Text) {ns : List Note} (h : NoRow ns) :
    Told (lifecycleReply (Deploy.refused code error)) ns := by
  have hreply : lifecycleReply (Deploy.refused code error) =
      if code = 500 then .untracked else .refused code := rfl
  rw [hreply]
  split <;> exact h

def ComposeChosen (r : Except Deploy.LifecycleReply Text) (ns : List Note) : Prop :=
  NoRow ns ∧ ∀ reply, r = .error reply → ∃ code error, reply = Deploy.refused code error

theorem lowers_effectiveCompose (project : Int) (dir : Text) :
    Lowers m pid NoRow (Deploy.effectiveCompose project dir) ComposeChosen := by
  have refused : ∀ code error, Lowers m pid NoRow (.ret (.error (Deploy.refused code error)))
      ComposeChosen := fun code error => lowers_ret fun ns hns => ⟨hns,fun reply h =>
    ⟨code,error,(Except.error.inj h).symm⟩⟩
  have chosen : ∀ file, Lowers m pid NoRow (.ret (.ok file)) ComposeChosen := fun file =>
    lowers_ret fun ns hns => ⟨hns,fun reply h => by cases h⟩
  refine lowers_bind (lowers_aside ⟨trivial,fun _ => trivial⟩) fun found => ?_
  cases found with
  | some _ => exact chosen _
  | none =>
    refine lowers_bind (lowers_aside ⟨trivial,fun _ => trivial⟩) fun declared => ?_
    dsimp only
    split
    · exact refused 400 _
    · refine lowers_bind (lowers_aside ⟨trivial,fun _ => trivial⟩) fun found => ?_
      cases found with
      | none => exact refused 400 _
      | some _ => exact chosen _

theorem scanLog_aside (composePath : Text) (roots : List Text) :
    (Deploy.scanLog composePath roots).Uses aside := by
  refine ⟨trivial,fun b => ?_⟩
  cases b <;> trivial

theorem lowers_runCompose (hid : id ≠ []) (name action dir buf : Text) (args : List Text) :
    Lowers m pid (Owns id Live) (Deploy.runCompose name action dir id buf args)
      fun r => Told (lifecycleReply r) := by
  have done : ∀ logs ns, Finished id (Ended .success []) ns →
      Told (lifecycleReply ⟨200,[],logs,id⟩) ns := by
    intro logs ns hns
    rw [lifecycleReply,if_neg hid,if_pos rfl]
    exact hns
  refine lowers_bind (lowers_call tells_start) fun _ => ?_
  refine lowers_bind (lowers_stage 0) fun _ => ?_
  refine lowers_bind (lowers_aside ⟨trivial,fun _ => trivial⟩) fun first => ?_
  obtain ⟨out,err⟩ := first
  cases err with
  | none => exact lowers_bind (lowers_call tells_success) fun _ => lowers_ret (done _)
  | some _ =>
    refine lowers_bind (lowers_aside ⟨trivial,fun _ => trivial⟩) fun second => ?_
    obtain ⟨more,err⟩ := second
    cases err with
    | none => exact lowers_bind (lowers_call tells_success) fun _ => lowers_ret (done _)
    | some _ =>
      refine lowers_bind (lowers_failStage 0) fun _ => ?_
      refine lowers_bind (lowers_call (tells_failure _)) fun _ => lowers_ret fun ns hns => ?_
      rw [lifecycleReply,if_neg hid,if_neg (show (502 : Nat) ≠ 200 by decide)]
      exact hns

theorem tells_runOne (roots : List Text) (actor : Text) (project : Int) (action : Text)
    (args : List Text) : Moves m pid NoRow (runOne roots actor project action args) Told := by
  refine Ledger.tells_bind (Q := fun r => Told (lifecycleReply r)) ?_ fun r => Ledger.tells_ret fun _ h => h
  refine lowers_bind (lowers_aside ⟨trivial,fun _ => trivial⟩) fun found => ?_
  cases found with
  | none => exact lowers_ret fun ns hns => told_refused 404 _ hns
  | some p =>
    refine lowers_bind (lowers_aside (resolveExec_aside _ _)) fun resolved => ?_
    cases resolved with
    | error e => exact lowers_ret fun ns hns => told_refused 400 e hns
    | ok dir =>
      refine lowers_bind (lowers_effectiveCompose project dir) fun chosen => ?_
      cases chosen with
      | error reply =>
        refine lowers_ret fun ns hns => ?_
        obtain ⟨code,error,rfl⟩ := hns.2 reply rfl
        exact told_refused code error hns.1
      | ok composeFile =>
        refine lowers_bind (Q := fun _ => NoRow) (Ledger.tells_mono (fun _ h => h.1) (fun _ _ h => h)
          (lowers_aside (scanLog_aside _ _))) fun buf => ?_
        refine lowers_bind (lowers_createOp _) fun created => ?_
        cases created with
        | none => exact lowers_ret fun ns hns => told_refused 500 _ hns
        | some id =>
          exact Ledger.tells_given (J := Owns id Live) fun hid => lowers_runCompose hid _ _ _ _ _

end Lowered

section Reads

variable {m : Nat → Machine} {pid : Nat} {x : Traced State Note} {op : Operation}

theorem Tracked.sane (h : Tracked x) {q : Nat} (hop : (q,.stored op) ∈ x.log) : Sane op := by
  obtain ⟨newer,older,hlog⟩ := List.append_of_mem hop
  exact (hlog ▸ h.sound).at.1.1

theorem Tracked.found (h : Tracked x) {id : Text} (hfound : x.state.find id = some op) : Sane op := by
  obtain ⟨q,hq⟩ := version_mem ((h.table id).symm.trans hfound)
  exact h.sane hq

theorem Tracked.find_mem (h : Tracked x) (hop : op ∈ x.state.operations) :
    x.state.find op.id = some op := by
  obtain ⟨found,hfound⟩ : ∃ found, x.state.find op.id = some found := by
    refine Option.ne_none_iff_exists'.mp fun hnone => ?_
    simpa using List.find?_eq_none.mp hnone op hop
  have hid : found.id = op.id := by simpa using List.find?_some hfound
  have hin : found ∈ x.state.operations := List.mem_of_find?_eq_some hfound
  rw [hfound,List.inj_on_of_nodup_map h.distinct hin hop hid]

theorem tells_get (id : Text) : Moves m pid NoRow (handle (.get id)) Told := by
  refine Ledger.tells_bind (Q := fun found => Told (getReply found)) (Ledger.tells_perform
    fun x t b hx hJ _ hexec => ?_) fun found => Ledger.tells_ret fun _ h => h
  have hexec : run (.select id) x.state = (t,b) := Option.some.inj hexec
  obtain ⟨hops,hb⟩ := run_select x.state id
  rw [hexec] at hops hb
  cases b with
  | none =>
    refine ⟨trivial,hx.stay hops fun m hm => (Option.some.inj hm).symm,fun op hop => ?_⟩
    rcases List.mem_cons.mp hop with h | h
    · cases h
    · exact hJ op h
  | some op =>
    have hfound : x.state.find id = some op := (hb.resolve_left fun h => by cases h).symm
    exact ⟨trivial,hx.stay hops fun m hm => (by cases hm),hx.found hfound,hJ⟩

def Held (s : State) : Except Text (List Operation) → Prop
  | .error _ => True
  | .ok ops => ∀ op ∈ ops, op ∈ s.operations

theorem run_newest (s : State) (limit : Nat) :
    (run (.newest limit) s).1.operations = s.operations ∧ Held s (run (.newest limit) s).2 := by
  simp only [run]
  cases (s.outside s.asked).fault with
  | some e => exact ⟨rfl,trivial⟩
  | none =>
    refine ⟨rfl,fun op hop => ?_⟩
    exact Relational.mem_orderBy.mp (List.mem_of_mem_take hop)

theorem tells_list (limit : Option Int) : Moves m pid NoRow (handle (.list limit)) Told := by
  refine Ledger.tells_bind (Q := fun r => Told (listReply r)) (Ledger.tells_perform
    fun x t b hx hJ _ hexec => ?_) fun found => Ledger.tells_ret fun _ h => h
  have hexec : run (.newest _) x.state = (t,b) := Option.some.inj hexec
  obtain ⟨hops,hb⟩ := run_newest x.state _
  rw [hexec] at hops hb
  cases b with
  | error e => exact ⟨trivial,hx.stay hops fun m hm => (by cases hm),hJ⟩
  | ok ops =>
    refine ⟨trivial,hx.stay hops fun m hm => (by cases hm),fun op hop => ?_,hJ⟩
    exact hx.found (hx.find_mem (hb op hop))

theorem tells_handle (r : Request) : Moves m pid NoRow (handle r) Told := by
  cases r with
  | container action id actor needConfirm confirmed => exact tells_lifecycle action id actor _ _
  | project roots actor project action args => exact tells_runOne roots actor project action args
  | backup project path actor => exact tells_tracked fun op => tells_runBackup path
  | restore id dest actor => exact tells_tracked fun op => tells_runRestore dest
  | deployment policy type q actor commit deployID => exact tells_runDeployment policy type q actor commit _
  | shell id actor => exact tells_tracked fun op => Ledger.tells_ret (a := Reply.tracked op) fun _ h => h
  | get id => exact tells_get id
  | list limit => exact tells_list limit

end Reads

abbrev tracedJobs (m : Nat → Machine) : System := (jobs m).observe note

section Runs

variable {m : Nat → Machine} {s : State} {es : List (Event (tracedJobs m))} {v : World (tracedJobs m)}

theorem tracked_run (h0 : s.operations = []) (hv : (begun s).run es = some v) :
    Tracked v.state ∧ ∀ pid r a, .start pid r ∈ es → v.pool pid = some (.ret a) →
      Told a (notesOf pid v.state.log) := by
  refine Ledger.told (L := tracking m) (R := fun _ _ => Told) (fun pid r _ => ?_) ?_ ?_ ?_ hv
  · exact Ledger.tells_mono (fun ns hns op hop => by simp [hns] at hop) (fun _ _ h => h) (tells_handle r)
  · rintro ⟨now⟩ x y hx he
    obtain ⟨hstate,hlog⟩ := env_observe he
    have hclock : { x.state with clock := now } = y.state := Option.some.inj hstate
    obtain ⟨state,log⟩ := y
    obtain rfl := hclock
    obtain rfl := hlog
    exact ⟨hx.distinct,hx.table,hx.sound⟩
  · refine ⟨?_,fun id => ?_,trivial⟩
    · simp [h0]
    · rw [State.find,h0]
      rfl
  · exact along_of_mem (fun e _ w => by cases e <;> simp [Landing,tracking]) _

theorem operations_versioned (h0 : s.operations = []) (hv : (begun s).run es = some v) :
    (∀ id, v.state.state.find id = version id v.state.log) ∧
    (∀ newer pid op older, v.state.log = newer ++ (pid,.stored op) :: older →
      version op.id older = none ∧ Fresh op ∨
      ∃ old, version op.id older = some old ∧ (pid,.stored old) ∈ older ∧ Advance old op) ∧
    ∀ p q a b, (p,.stored a) ∈ v.state.log → (q,.stored b) ∈ v.state.log → a.id = b.id → p = q := by
  obtain ⟨htracked,-⟩ := tracked_run h0 hv
  refine ⟨htracked.table,fun newer pid op older hlog => ?_,fun p q a b => htracked.sound.owner⟩
  exact (hlog ▸ htracked.sound).at.1.2

theorem checklists_ordered (h0 : s.operations = []) (hv : (begun s).run es = some v) :
    (∀ q op, (q,.stored op) ∈ v.state.log → Sane op) ∧ ∀ op ∈ v.state.state.operations, Sane op := by
  obtain ⟨htracked,-⟩ := tracked_run h0 hv
  exact ⟨fun q op => htracked.sane,fun op hop => htracked.found (htracked.find_mem hop)⟩

def Stands (s : State) : Reply → Prop
  | .tracked id => ∃ op, s.find id = some op ∧ op.Open
  | .done id => ∃ op, s.find id = some op ∧ Ended .success [] op ∧ ∀ st ∈ op.stages, st.2 = .done
  | .failed id error => ∃ op, s.find id = some op ∧ Ended .failed error op ∧
      ∀ st ∈ op.stages, st.2 ≠ .active
  | .deployed id outcome => ∃ op, s.find id = some op ∧ op.status = Ledgered outcome
  | _ => True

theorem Tracked.finished {x : Traced State Note} (h : Tracked x) {pid : Nat} {id : Text}
    {P : Operation → Prop} (hok : (pid,.refused) ∉ x.log) (hp : Finished id P (notesOf pid x.log)) :
    ∃ op, x.state.find id = some op ∧ P op ∧ Sane op := by
  obtain ⟨op,hop,hP⟩ := hp.resolve_left fun hr => hok (mem_notesOf.mp hr)
  obtain ⟨hfound,hmem⟩ := h.own hop
  exact ⟨op,hfound,hP,h.sane hmem⟩

theorem answers_stand (h0 : s.operations = []) (hv : (begun s).run es = some v) {pid : Nat} {r : Request}
    {a : Reply} (hr : .start pid r ∈ es) (ha : v.answer pid = some a)
    (hok : (pid,.refused) ∉ v.state.log) : Stands v.state.state a := by
  obtain ⟨htracked,htold⟩ := tracked_run h0 hv
  have hsaid := htold pid r a hr (World.answer_eq.mp ha)
  cases a with
  | tracked id =>
    obtain ⟨op,hop,hlive⟩ := hsaid
    exact ⟨op,(htracked.own hop).1,hlive.isOpen⟩
  | done id =>
    obtain ⟨op,hfound,hended,hsane⟩ := htracked.finished hok hsaid
    exact ⟨op,hfound,hended,hsane.success hended.1⟩
  | failed id error =>
    obtain ⟨op,hfound,hended,hsane⟩ := htracked.finished hok hsaid
    exact ⟨op,hfound,hended,hsane.failed hended.1⟩
  | deployed id outcome =>
    obtain ⟨op,hfound,hstatus,-⟩ := htracked.finished hok hsaid
    exact ⟨op,hfound,hstatus⟩
  | _ => trivial

end Runs

section Instances

theorem nothing_rooted (e : Posix.Place × Posix.Node Posix.Bytes) (h : e ∈ []) :
    e.1 ≠ [] ∧ (e.1.dropLast = [] ∨
      (e.1.dropLast,Posix.Node.dir) ∈ ([] : List (Posix.Place × Posix.Node Posix.Bytes))) := by
  cases h

def bareHost : Deploy.Host where
  tree := ⟨[],nothing_rooted⟩
  unmarshal _ := none
  resolveError _ := []
  statError _ := []
  readError _ := []
  urlError _ := none
  command _ _ _ := ([],none)
  health _ _ := (true,[])

def oneMachine : Nat → Machine := fun _ => ⟨bareHost,[]⟩

def quietSite (n : Nat) : Outside := ⟨List.replicate 6 (UInt8.ofNat n),none,true,none,[],none⟩

def noOperations : State := ⟨[],0,quietSite,0⟩

def startWeb : Request := .container "start".toList "web".toList "amy".toList false false

def restoreSix : Request := .restore 6 "/srv/web".toList "bob".toList

def sideBySide : List (Event (tracedJobs oneMachine)) :=
  .start 0 startWeb :: .start 1 restoreSix ::
    (List.replicate 10 [.act 0,.act 1]).flatten ++ List.replicate 2 (.act 1)

def firstID : Text := newID (List.replicate 6 0)

def answered (v : World (tracedJobs oneMachine)) (pid : Nat) (id : Text) : Bool :=
  match v.answer pid with
  | some (.done op) => op = id
  | _ => false

theorem answered_done {v : World (tracedJobs oneMachine)} {pid : Nat} {id : Text}
    (h : answered v pid id = true) : v.answer pid = some (.done id) := by
  unfold answered at h
  split at h
  · rename_i op ha
    rw [ha,of_decide_eq_true h]
  · cases h

theorem sideBySide_run : ∃ v : World (tracedJobs oneMachine), (begun noOperations).run sideBySide = some v ∧
    v.answer 0 = some (.done firstID) ∧ (0,.refused) ∉ v.state.log ∧
    v.state.state.operations.map Operation.status = [.success,.success] := by
  have hrun : ((begun noOperations).run sideBySide).map (fun v : World (tracedJobs oneMachine) =>
      ((answered v 0 firstID,v.state.log.all fun e => e.2 ≠ .refused,
        v.state.state.operations.map Operation.status) : Bool × Bool × List OpStatus)) =
      some (true,true,[.success,.success]) := by
    decide +kernel
  obtain ⟨v,hv,hseen⟩ := Option.map_eq_some_iff.mp hrun
  obtain ⟨hanswer,hrest⟩ := Prod.mk.inj hseen
  obtain ⟨hok,hstatus⟩ := Prod.mk.inj hrest
  refine ⟨v,hv,answered_done hanswer,fun hr => ?_,hstatus⟩
  simpa using List.all_eq_true.mp hok _ hr

theorem two_versioned : ∃ v : World (tracedJobs oneMachine), (begun noOperations).run sideBySide = some v ∧
    v.state.state.operations.map Operation.status = [.success,.success] ∧
    v.state.state.find firstID = version firstID v.state.log := by
  obtain ⟨v,hv,-,-,hstatus⟩ := sideBySide_run
  exact ⟨v,hv,hstatus,(operations_versioned rfl hv).1 firstID⟩

theorem two_ordered : ∃ v : World (tracedJobs oneMachine), (begun noOperations).run sideBySide = some v ∧
    v.state.state.operations.map Operation.status = [.success,.success] ∧
    ∀ op ∈ v.state.state.operations, Sane op := by
  obtain ⟨v,hv,-,-,hstatus⟩ := sideBySide_run
  exact ⟨v,hv,hstatus,(checklists_ordered rfl hv).2⟩

theorem start_stands : ∃ v : World (tracedJobs oneMachine), (begun noOperations).run sideBySide = some v ∧
    Stands v.state.state (.done firstID) := by
  obtain ⟨v,hv,ha,hok,-⟩ := sideBySide_run
  have hr : .start 0 startWeb ∈ sideBySide := by simp [sideBySide]
  exact ⟨v,hv,answers_stand rfl hv hr ha hok⟩

end Instances

end Operations
