import ServerHub.Deploy.Requests
import ServerHub.Interleave.Routine

namespace Deploy

open Posix Interleave Interleave.Prog

inductive Note where
  | opened (id : Nat)
  | handed (id : Nat)
  | took (creator : Nat) (job : Job)
  | closed (id : Nat) (status : DeployStatus)
deriving DecidableEq

def Note.grants : Note → List Nat
  | .opened id => [id]
  | .took _ job => [job.deployID]
  | _ => []

def Note.releases : Note → Nat → Bool
  | .handed id, a => a = id
  | .closed id _, a => a = id
  | _, _ => false

def note : (β : Type) → DeployCall β → Records → β → Option Note
  | _, .insertDeployment d, _, some id => if d.status = .running then some (.opened id) else none
  | _, .spawn job, _, _ => some (.handed job.deployID)
  | _, .take, _, (creator,job) => some (.took creator job)
  | _, .finishDeployment id status _, _, _ => some (.closed id status)
  | _, _, _, _ => none

def holds : List Note → List Nat
  | [] => []
  | n :: ns => n.grants ++ (holds ns).filter fun a => !n.releases a

def hands (pid : Nat) (log : List (Nat × Note)) : List Nat := holds (notesOf pid log)

section Hands

variable {pid q a id : Nat} {log : List (Nat × Note)} {n : Note}

theorem hands_other (hq : q ≠ pid) : hands q (record pid log (some n)) = hands q log := by
  rw [hands,notesOf_other log (some n) hq,hands]

theorem mem_hands_grant (hn : n.grants = [id]) (hr : ∀ a, n.releases a = false) :
    a ∈ hands q (record pid log (some n)) ↔ q = pid ∧ a = id ∨ a ∈ hands q log := by
  by_cases hq : q = pid
  · subst hq
    rw [hands,notesOf_record]
    simp [holds,hn,hr,hands]
  · rw [hands_other hq]
    simp [hq]

theorem mem_hands_release (hn : n.grants = []) (hr : ∀ a, n.releases a = decide (a = id)) :
    a ∈ hands q (record pid log (some n)) ↔ a ∈ hands q log ∧ ¬ (q = pid ∧ a = id) := by
  by_cases hq : q = pid
  · subst hq
    rw [hands,notesOf_record]
    simp [holds,hn,hr,hands]
  · rw [hands_other hq]
    simp [hq]

end Hands

def Opened (first : Nat) (s : Records) (id creator : Nat) : Prop :=
  ∃ d ∈ s.deployments, d.id = id ∧ first ≤ id ∧ d.creator = creator ∧ d.status = .running

def queuedIDs (s : Records) : List Nat := s.jobs.map fun j => j.2.deployID

-- rows from first on are this run's; each that is RUNNING is in one pair of hands or in the queue
structure Books (first : Nat) (x : Traced Records Note) : Prop where
  below : ∀ d ∈ x.state.deployments, d.id < x.state.nextDeployment
  unique : (x.state.deployments.map Deployment.id).Nodup
  start : first ≤ x.state.nextDeployment
  queued : ∀ j ∈ x.state.jobs, Opened first x.state j.2.deployID j.1
  held : ∀ pid id, id ∈ hands pid x.log → ∃ creator, Opened first x.state id creator
  line : (queuedIDs x.state).Nodup
  apart : ∀ pid id, id ∈ hands pid x.log → id ∉ queuedIDs x.state
  sole : ∀ pid q id, id ∈ hands pid x.log → id ∈ hands q x.log → pid = q
  kept : ∀ d ∈ x.state.deployments, first ≤ d.id → d.status = .running →
    (∃ pid, d.id ∈ hands pid x.log) ∨ d.id ∈ queuedIDs x.state
  opener : ∀ pid id, (pid,.opened id) ∈ x.log →
    ∃ d ∈ x.state.deployments, d.id = id ∧ d.creator = pid
  taken : ∀ pid creator job, (pid,.took creator job) ∈ x.log →
    ∃ d ∈ x.state.deployments, d.id = job.deployID ∧ first ≤ d.id ∧ d.creator = creator
  gone : ∀ pid creator job, (pid,.took creator job) ∈ x.log → job.deployID ∉ queuedIDs x.state
  taker : ∀ pid q creator job, (pid,.took creator job) ∈ x.log →
    job.deployID ∈ hands q x.log → q = pid
  once : ∀ pid q c c' job job', (pid,.took c job) ∈ x.log → (q,.took c' job') ∈ x.log →
    job.deployID = job'.deployID → pid = q
  closed : ∀ pid id status, (pid,.closed id status) ∈ x.log →
    status ≠ .running ∧ ∃ d ∈ x.state.deployments, d.id = id ∧ d.status = status

section Steps

variable {first pid id creator : Nat} {x : Traced Records Note} {t : Records}

theorem Books.opened_unique (hx : Books first x) (h : Opened first x.state id creator)
    {d : Deployment} (hd : d ∈ x.state.deployments) (hid : d.id = id) :
    d.creator = creator ∧ d.status = .running := by
  obtain ⟨d',hd',hid',-,hc,hr⟩ := h
  obtain rfl := List.inj_on_of_nodup_map hx.unique hd hd' (hid.trans hid'.symm)
  exact ⟨hc,hr⟩

theorem Books.still (hx : Books first x) (hd : t.deployments = x.state.deployments)
    (hn : t.nextDeployment = x.state.nextDeployment) (hj : t.jobs = x.state.jobs) :
    Books first ⟨t,x.log⟩ := by
  obtain ⟨⟨projects,deployments,next,operations,inserts,jobs⟩,log⟩ := x
  obtain ⟨projects',deployments',next',operations',inserts',jobs'⟩ := t
  obtain rfl : deployments' = deployments := hd
  obtain rfl : next' = next := hn
  obtain rfl : jobs' = jobs := hj
  exact ⟨hx.below,hx.unique,hx.start,hx.queued,hx.held,hx.line,hx.apart,hx.sole,hx.kept,hx.opener,
    hx.taken,hx.gone,hx.taker,hx.once,hx.closed⟩

theorem Opened.mono {s : Records} (h : Opened first s id creator)
    (hsub : s.deployments ⊆ t.deployments) : Opened first t id creator := by
  obtain ⟨d,hd,hrest⟩ := h
  exact ⟨d,hsub hd,hrest⟩

theorem mem_record {n m : Note} {log : List (Nat × Note)} {q : Nat} :
    (q,m) ∈ record pid log (some n) ↔ q = pid ∧ m = n ∨ (q,m) ∈ log := by
  simp [record]

theorem of_record {n m : Note} {log : List (Nat × Note)} {q : Nat}
    (hm : (q,m) ∈ record pid log (some n)) (h : m ≠ n) : (q,m) ∈ log :=
  (mem_record.mp hm).resolve_left fun he => h he.2

theorem Books.fresh_hand (hx : Books first x) {q : Nat} :
    x.state.nextDeployment ∉ hands q x.log := by
  intro hm
  obtain ⟨c,d,hd,hid,-⟩ := hx.held q _ hm
  exact absurd (hx.below d hd) (by omega)

theorem Books.addDeployment (hx : Books first x) (pid : Nat) (d : NewDeployment) :
    Books first ⟨x.state.addDeployment pid d,record pid x.log
      (if d.status = .running then some (.opened x.state.nextDeployment) else none)⟩ := by
  set next := x.state.nextDeployment with hnext
  set log := record pid x.log (if d.status = .running then some (.opened next) else none) with hlog
  set row : Deployment := { d with id := next, creator := pid } with hrow
  have hh : ∀ q a, a ∈ hands q log ↔ (d.status = .running ∧ q = pid ∧ a = next) ∨ a ∈ hands q x.log := by
    intro q a
    by_cases hr : d.status = .running
    · rw [hlog,if_pos hr,mem_hands_grant rfl fun _ => rfl]
      simp [hr]
    · rw [hlog,if_neg hr]
      simp [hr,record]
  have hl : ∀ q n, (q,n) ∈ log ↔ (d.status = .running ∧ q = pid ∧ n = .opened next) ∨ (q,n) ∈ x.log := by
    intro q n
    by_cases hr : d.status = .running
    · rw [hlog,if_pos hr,mem_record]
      simp [hr]
    · rw [hlog,if_neg hr]
      simp [hr,record]
  have hold : ∀ q n, n ≠ .opened next → (q,n) ∈ log → (q,n) ∈ x.log := by
    intro q n hn hm
    exact ((hl q n).mp hm).resolve_left fun h => hn h.2.2
  have hsub : x.state.deployments ⊆ (x.state.addDeployment pid d).deployments :=
    List.subset_append_left _ _
  have hlast : row ∈ (x.state.addDeployment pid d).deployments :=
    List.mem_append_right _ List.mem_cons_self
  have hnotqueued : next ∉ queuedIDs x.state := by
    intro hm
    obtain ⟨j,hj,he⟩ := List.mem_map.mp hm
    obtain ⟨d',hd',hid,-⟩ := hx.queued j hj
    exact absurd (hx.below d' hd') (by rw [hid,he]; exact lt_irrefl _)
  constructor
  case below =>
    intro d' hd'
    rcases List.mem_append.mp hd' with h | h
    · exact (hx.below d' h).trans (Nat.lt_succ_self _)
    · obtain rfl := List.mem_singleton.mp h
      exact Nat.lt_succ_self _
  case unique =>
    show ((x.state.deployments ++ [row]).map Deployment.id).Nodup
    rw [List.map_append,List.nodup_append']
    refine ⟨hx.unique,List.nodup_singleton _,?_⟩
    intro a ha hb
    obtain ⟨d',hd',rfl⟩ := List.mem_map.mp ha
    obtain he := List.mem_singleton.mp hb
    exact absurd (hx.below d' hd') (by rw [he]; exact lt_irrefl _)
  case start => exact hx.start.trans (Nat.le_succ _)
  case queued => exact fun j hj => (hx.queued j hj).mono hsub
  case held =>
    intro q a ha
    rcases (hh q a).mp ha with ⟨hr,-,rfl⟩ | h
    · exact ⟨pid,row,hlast,rfl,hx.start,rfl,hr⟩
    · obtain ⟨c,hc⟩ := hx.held q a h
      exact ⟨c,hc.mono hsub⟩
  case line => exact hx.line
  case apart =>
    intro q a ha
    rcases (hh q a).mp ha with ⟨-,-,rfl⟩ | h
    · exact hnotqueued
    · exact hx.apart q a h
  case sole =>
    intro q q' a ha ha'
    rcases (hh q a).mp ha with ⟨-,rfl,rfl⟩ | h
    · rcases (hh q' _).mp ha' with ⟨-,rfl,-⟩ | h'
      · rfl
      · exact absurd h' hx.fresh_hand
    · rcases (hh q' a).mp ha' with ⟨-,-,rfl⟩ | h'
      · exact absurd h hx.fresh_hand
      · exact hx.sole q q' a h h'
  case kept =>
    intro d' hd' hfirst hrun
    rcases List.mem_append.mp hd' with h | h
    · refine (hx.kept d' h hfirst hrun).imp_left ?_
      rintro ⟨q,hq⟩
      exact ⟨q,(hh q _).mpr (.inr hq)⟩
    · obtain rfl := List.mem_singleton.mp h
      exact .inl ⟨pid,(hh pid _).mpr (.inl ⟨hrun,rfl,rfl⟩)⟩
  case opener =>
    intro q a ha
    rcases (hl q _).mp ha with ⟨-,rfl,he⟩ | h
    · exact ⟨row,hlast,(Note.opened.inj he).symm,rfl⟩
    · obtain ⟨d',hd',hrest⟩ := hx.opener q a h
      exact ⟨d',hsub hd',hrest⟩
  case taken =>
    intro q c job hm
    obtain ⟨d',hd',hrest⟩ := hx.taken q c job (hold _ _ (by simp) hm)
    exact ⟨d',hsub hd',hrest⟩
  case gone => exact fun q c job hm => hx.gone q c job (hold _ _ (by simp) hm)
  case taker =>
    intro q q' c job hm ha
    rcases (hh q' _).mp ha with ⟨-,-,he⟩ | h
    · obtain ⟨d',hd',hid,-⟩ := hx.taken q c job (hold _ _ (by simp) hm)
      exact absurd (hx.below d' hd') (by rw [hid,he]; exact lt_irrefl _)
    · exact hx.taker q q' c job (hold _ _ (by simp) hm) h
  case once => exact fun q q' c c' job job' hm hm' => hx.once q q' c c' job job' (hold _ _ (by simp) hm) (hold _ _ (by simp) hm')
  case closed =>
    intro q a status hm
    obtain ⟨hne,d',hd',hrest⟩ := hx.closed q a status (hold _ _ (by simp) hm)
    exact ⟨hne,d',hsub hd',hrest⟩

theorem Books.spawn (hx : Books first x) {job : Job} (hid : job.deployID ∈ hands pid x.log)
    (hopened : (pid,.opened job.deployID) ∈ x.log)
    (hnone : ∀ c j, (pid,.took c j) ∉ x.log) :
    Books first ⟨{ x.state with jobs := x.state.jobs ++ [(pid,job)] },
      record pid x.log (some (.handed job.deployID))⟩ := by
  have hh : ∀ q a, a ∈ hands q (record pid x.log (some (.handed job.deployID))) ↔
      a ∈ hands q x.log ∧ ¬ (q = pid ∧ a = job.deployID) :=
    fun q a => mem_hands_release rfl fun _ => rfl
  have hids : queuedIDs { x.state with jobs := x.state.jobs ++ [(pid,job)] } =
      queuedIDs x.state ++ [job.deployID] := by simp [queuedIDs]
  have hsame : ∀ c, Opened first x.state job.deployID c → Opened first x.state job.deployID pid := by
    rintro c ⟨d,hd,hdid,hfirst,-,hrun⟩
    obtain ⟨d',hd',hdid',hc'⟩ := hx.opener pid _ hopened
    obtain rfl := List.inj_on_of_nodup_map hx.unique hd hd' (hdid.trans hdid'.symm)
    exact ⟨d,hd,hdid,hfirst,hc',hrun⟩
  constructor
  case below => exact hx.below
  case unique => exact hx.unique
  case start => exact hx.start
  case queued =>
    intro j hj
    rcases List.mem_append.mp hj with h | h
    · exact hx.queued j h
    · obtain rfl := List.mem_singleton.mp h
      obtain ⟨c,hc⟩ := hx.held pid _ hid
      exact hsame c hc
  case held => exact fun q a ha => hx.held q a ((hh q a).mp ha).1
  case line =>
    rw [hids,List.nodup_append']
    exact ⟨hx.line,List.nodup_singleton _,List.disjoint_singleton.mpr (hx.apart pid _ hid)⟩
  case apart =>
    intro q a ha
    obtain ⟨hold,hne⟩ := (hh q a).mp ha
    rw [hids,List.mem_append,List.mem_singleton]
    rintro (hq | rfl)
    · exact hx.apart q a hold hq
    · exact hne ⟨hx.sole q pid _ hold hid,rfl⟩
  case sole => exact fun q q' a ha ha' => hx.sole q q' a ((hh q a).mp ha).1 ((hh q' a).mp ha').1
  case kept =>
    intro d hd hfirst hrun
    rw [hids,List.mem_append,List.mem_singleton]
    rcases hx.kept d hd hfirst hrun with ⟨q,hq⟩ | hq
    · by_cases he : d.id = job.deployID
      · exact .inr (.inr he)
      · exact .inl ⟨q,(hh q _).mpr ⟨hq,fun h => he h.2⟩⟩
    · exact .inr (.inl hq)
  case opener => exact fun q a hm => hx.opener q a (of_record hm nofun)
  case taken => exact fun q c j hm => hx.taken q c j (of_record hm nofun)
  case gone =>
    intro q c j hm
    have hm := of_record hm nofun
    rw [hids,List.mem_append,List.mem_singleton]
    rintro (hq | he)
    · exact hx.gone q c j hm hq
    · obtain rfl := hx.taker q pid c j hm (he ▸ hid)
      exact hnone c j hm
  case taker =>
    exact fun q q' c j hm ha => hx.taker q q' c j (of_record hm nofun) ((hh q' _).mp ha).1
  case once =>
    intro q q' c c' j j' hm hm'
    exact hx.once q q' c c' j j' (of_record hm nofun) (of_record hm' nofun)
  case closed => exact fun q a st hm => hx.closed q a st (of_record hm nofun)

theorem Books.take (hx : Books first x) {job : Job} {rest : List (Nat × Job)}
    (hjobs : x.state.jobs = (creator,job) :: rest) :
    Books first ⟨{ x.state with jobs := rest },record pid x.log (some (.took creator job))⟩ := by
  have hh : ∀ q a, a ∈ hands q (record pid x.log (some (.took creator job))) ↔
      q = pid ∧ a = job.deployID ∨ a ∈ hands q x.log :=
    fun q a => mem_hands_grant rfl fun _ => rfl
  have hids : queuedIDs x.state = job.deployID :: queuedIDs { x.state with jobs := rest } := by
    simp [queuedIDs,hjobs]
  have hopen : Opened first x.state job.deployID creator := by
    have := hx.queued (creator,job) (by rw [hjobs]; exact List.mem_cons_self)
    exact this
  have hqueued : job.deployID ∈ queuedIDs x.state := by rw [hids]; exact List.mem_cons_self
  have hline := hx.line
  rw [hids,List.nodup_cons] at hline
  have hrest : ∀ a, a ∈ queuedIDs { x.state with jobs := rest } → a ∈ queuedIDs x.state := by
    intro a ha
    rw [hids]
    exact List.mem_cons_of_mem _ ha
  constructor
  case below => exact hx.below
  case unique => exact hx.unique
  case start => exact hx.start
  case queued => exact fun j hj => hx.queued j (by rw [hjobs]; exact List.mem_cons_of_mem _ hj)
  case held =>
    intro q a ha
    rcases (hh q a).mp ha with ⟨-,rfl⟩ | h
    · exact ⟨creator,hopen⟩
    · exact hx.held q a h
  case line => exact hline.2
  case apart =>
    intro q a ha
    rcases (hh q a).mp ha with ⟨-,rfl⟩ | h
    · exact hline.1
    · exact fun hq => hx.apart q a h (hrest a hq)
  case sole =>
    intro q q' a ha ha'
    rcases (hh q a).mp ha with ⟨rfl,rfl⟩ | h
    · rcases (hh q' _).mp ha' with ⟨rfl,-⟩ | h'
      · rfl
      · exact absurd hqueued (hx.apart q' _ h')
    · rcases (hh q' a).mp ha' with ⟨-,rfl⟩ | h'
      · exact absurd hqueued (hx.apart q _ h)
      · exact hx.sole q q' a h h'
  case kept =>
    intro d hd hfirst hrun
    rcases hx.kept d hd hfirst hrun with ⟨q,hq⟩ | hq
    · exact .inl ⟨q,(hh q _).mpr (.inr hq)⟩
    · rw [hids,List.mem_cons] at hq
      exact hq.imp_left fun he => ⟨pid,(hh pid _).mpr (.inl ⟨rfl,he⟩)⟩
  case opener => exact fun q a hm => hx.opener q a (of_record hm nofun)
  case taken =>
    intro q c j hm
    rcases mem_record.mp hm with ⟨-,he⟩ | h
    · obtain ⟨rfl,rfl⟩ := Note.took.inj he
      obtain ⟨d,hd,hid,hfirst,hc,-⟩ := hopen
      exact ⟨d,hd,hid,hid ▸ hfirst,hc⟩
    · exact hx.taken q c j h
  case gone =>
    intro q c j hm
    rcases mem_record.mp hm with ⟨-,he⟩ | h
    · obtain ⟨rfl,rfl⟩ := Note.took.inj he
      exact hline.1
    · exact fun hq => hx.gone q c j h (hrest _ hq)
  case taker =>
    intro q q' c j hm ha
    rcases mem_record.mp hm with ⟨rfl,he⟩ | h
    · obtain ⟨rfl,rfl⟩ := Note.took.inj he
      rcases (hh q' _).mp ha with ⟨rfl,-⟩ | h'
      · rfl
      · exact absurd hqueued (hx.apart q' _ h')
    · rcases (hh q' _).mp ha with ⟨-,he⟩ | h'
      · exact absurd (he ▸ hqueued) (hx.gone q c j h)
      · exact hx.taker q q' c j h h'
  case once =>
    intro q q' c c' j j' hm hm' he
    rcases mem_record.mp hm with ⟨rfl,hj⟩ | h
    · rcases mem_record.mp hm' with ⟨rfl,-⟩ | h'
      · rfl
      · obtain ⟨rfl,rfl⟩ := Note.took.inj hj
        exact absurd (he ▸ hqueued) (hx.gone q' c' j' h')
    · rcases mem_record.mp hm' with ⟨rfl,hj⟩ | h'
      · obtain ⟨rfl,rfl⟩ := Note.took.inj hj
        exact absurd (he ▸ hqueued) (hx.gone q c j h)
      · exact hx.once q q' c c' j j' h h' he
  case closed => exact fun q a st hm => hx.closed q a st (of_record hm nofun)

theorem Books.finish (hx : Books first x) {status : DeployStatus} {logs : Text}
    (hid : id ∈ hands pid x.log) (hs : status ≠ .running) :
    Books first ⟨x.state.finishDeployment id status logs,
      record pid x.log (some (.closed id status))⟩ := by
  have hh : ∀ q a, a ∈ hands q (record pid x.log (some (.closed id status))) ↔
      a ∈ hands q x.log ∧ ¬ (q = pid ∧ a = id) :=
    fun q a => mem_hands_release rfl fun _ => rfl
  obtain ⟨c,hopen⟩ := hx.held pid id hid
  have hother : ∀ d ∈ x.state.deployments, d.id ≠ id →
      d ∈ (x.state.finishDeployment id status logs).deployments := by
    intro d hd hne
    exact List.mem_map.mpr ⟨d,hd,if_neg hne⟩
  have hrow : ∀ d ∈ x.state.deployments, ∃ d' ∈ (x.state.finishDeployment id status logs).deployments,
      d'.id = d.id ∧ d'.creator = d.creator ∧ d'.status = if d.id = id then status else d.status := by
    intro d hd
    refine ⟨_,List.mem_map_of_mem hd,?_⟩
    split_ifs with he <;> simp
  have hback : ∀ d' ∈ (x.state.finishDeployment id status logs).deployments,
      ∃ d ∈ x.state.deployments, d'.id = d.id ∧ d'.status = if d.id = id then status else d.status := by
    intro d' hd'
    obtain ⟨d,hd,rfl⟩ := List.mem_map.mp hd'
    refine ⟨d,hd,?_⟩
    split_ifs with he <;> simp
  have hopened : ∀ a c, a ≠ id → Opened first x.state a c →
      Opened first (x.state.finishDeployment id status logs) a c := by
    rintro a c hne ⟨d,hd,rfl,hrest⟩
    exact ⟨d,hother d hd hne,rfl,hrest⟩
  constructor
  case below =>
    intro d' hd'
    obtain ⟨d,hd,he,-⟩ := hback d' hd'
    exact he ▸ hx.below d hd
  case unique =>
    have hmap : (x.state.finishDeployment id status logs).deployments.map Deployment.id =
        x.state.deployments.map Deployment.id := by
      show (x.state.deployments.map _).map Deployment.id = _
      rw [List.map_map]
      refine List.map_congr_left fun d _ => ?_
      show (if d.id = id then _ else d : Deployment).id = d.id
      split_ifs <;> rfl
    rw [hmap]
    exact hx.unique
  case start => exact hx.start
  case queued =>
    intro j hj
    refine hopened _ _ ?_ (hx.queued j hj)
    rintro rfl
    exact hx.apart pid _ hid (List.mem_map_of_mem hj)
  case held =>
    intro q a ha
    obtain ⟨hold,hne⟩ := (hh q a).mp ha
    obtain ⟨c,hc⟩ := hx.held q a hold
    refine ⟨c,hopened a c ?_ hc⟩
    rintro rfl
    exact hne ⟨hx.sole q pid _ hold hid,rfl⟩
  case line => exact hx.line
  case apart => exact fun q a ha => hx.apart q a ((hh q a).mp ha).1
  case sole => exact fun q q' a ha ha' => hx.sole q q' a ((hh q a).mp ha).1 ((hh q' a).mp ha').1
  case kept =>
    intro d' hd' hfirst hrun
    obtain ⟨d,hd,he,hst⟩ := hback d' hd'
    by_cases hid' : d.id = id
    · rw [if_pos hid',hrun] at hst
      exact absurd hst.symm hs
    · rw [if_neg hid',hrun] at hst
      rw [he] at hfirst ⊢
      refine (hx.kept d hd hfirst hst.symm).imp_left ?_
      rintro ⟨q,hq⟩
      exact ⟨q,(hh q _).mpr ⟨hq,fun h => hid' h.2⟩⟩
  case opener =>
    intro q a hm
    obtain ⟨d,hd,he,hc⟩ := hx.opener q a (of_record hm nofun)
    obtain ⟨d',hd',he',hc',-⟩ := hrow d hd
    exact ⟨d',hd',he'.trans he,hc'.trans hc⟩
  case taken =>
    intro q c j hm
    obtain ⟨d,hd,he,hfirst,hc⟩ := hx.taken q c j (of_record hm nofun)
    obtain ⟨d',hd',he',hc',-⟩ := hrow d hd
    exact ⟨d',hd',he'.trans he,he' ▸ hfirst,hc'.trans hc⟩
  case gone => exact fun q c j hm => hx.gone q c j (of_record hm nofun)
  case taker =>
    exact fun q q' c j hm ha => hx.taker q q' c j (of_record hm nofun) ((hh q' _).mp ha).1
  case once =>
    intro q q' c c' j j' hm hm'
    exact hx.once q q' c c' j j' (of_record hm nofun) (of_record hm' nofun)
  case closed =>
    intro q a st hm
    rcases mem_record.mp hm with ⟨-,he⟩ | h
    · obtain ⟨rfl,rfl⟩ := Note.closed.inj he
      obtain ⟨d,hd,hdid,-⟩ := hopen
      obtain ⟨d',hd',he',-,hst⟩ := hrow d hd
      exact ⟨hs,d',hd',he'.trans hdid,hst.trans (if_pos hdid)⟩
    · obtain ⟨hne,d,hd,hdid,hst⟩ := hx.closed q a st h
      refine ⟨hne,d,hother d hd ?_,hdid,hst⟩
      intro he
      exact hne (hst ▸ (hx.opened_unique hopen hd he).2)

end Steps

end Deploy
