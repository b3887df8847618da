import ServerHub.VgBackup.RestoreMachine

namespace VgBackup

open Relational

structure Collation where
  le : String → String → Bool
  ilike : String → String → Bool

structure RunsQuery where
  page : Int
  limit : Int
  jobID : String
  status : String
  search : String
  sort : String
  order : String
deriving DecidableEq

structure Reading (α : Type) where
  code : Nat
  body : Except String α

structure RunView where
  row : VgBackupRun
  backupJob : VgBackupJob
deriving DecidableEq

structure RunsPage where
  data : List RunView
  total : Nat
  page : Int
  limit : Int

structure RestoreView where
  row : VgRestoreJob
  backupRun : RunView
  connection : Option VgDatabaseConnection
deriving DecidableEq

def RunsQuery.pageNumber (q : RunsQuery) : Int := if q.page < 1 then 1 else q.page

def RunsQuery.size (q : RunsQuery) : Int := if q.limit < 1 ∨ 200 < q.limit then 50 else q.limit

def RunsQuery.unfiltered (q : RunsQuery) : Prop :=
  q.jobID = "" ∧ q.status = "" ∧ Go.trimSpace q.search = ""

def Store.preloadRun (s : Store) (r : VgBackupRun) : RunView :=
  ⟨r,(first s.jobs r.backupJobID).getD VgBackupJob.zero⟩

def Store.preloadRestore (s : Store) (r : VgRestoreJob) : RestoreView where
  row := r
  backupRun := ((first s.runs r.backupRunID).map s.preloadRun).getD ⟨VgBackupRun.zero,VgBackupJob.zero⟩
  connection := r.connectionID.bind (first s.connections)

def Store.joinedRuns (s : Store) : List (VgBackupRun × VgBackupJob) :=
  (allWhere s.runs fun _ => true).filterMap fun r => (s.jobs.find r.backupJobID).map (r,·)

def RunsQuery.selects (db : Collation) (env : Env) (actor : Actor) (q : RunsQuery)
    (x : VgBackupRun × VgBackupJob) : Bool :=
  (actor.role == .admin || x.2.createdByUserID == actor.userID) &&
  (q.jobID == "" || env.parseUUID q.jobID == some x.1.backupJobID) &&
  (q.status == "" || x.1.status.text == q.status) &&
  (Go.trimSpace q.search == "" || db.ilike x.2.name ("%" ++ Go.trimSpace q.search ++ "%"))

def RunsQuery.column (db : Collation) (q : RunsQuery) (a b : VgBackupRun × VgBackupJob) : Bool :=
  match q.sort with
  | "job" => db.le a.2.name b.2.name
  | "started" => nullsLast (fun x : VgBackupRun × VgBackupJob => x.1.startedAt) a b
  | "duration" => decide (a.1.durationSeconds ≤ b.1.durationSeconds)
  | "uploaded" => decide (a.1.bytesUploaded ≤ b.1.bytesUploaded)
  | _ => decide (a.1.createdAt ≤ b.1.createdAt)

def RunsQuery.before (db : Collation) (q : RunsQuery) (a b : VgBackupRun × VgBackupJob) : Bool :=
  let le := if Go.toUpper q.order = "ASC" then q.column db else Function.swap (q.column db)
  le a b && (!le b a || decide (b.1.createdAt ≤ a.1.createdAt))

def listBackupRuns (db : Collation) (env : Env) (actor : Actor) (q : RunsQuery) (s : Store) :
    Reading RunsPage :=
  let rows := s.joinedRuns.filter (q.selects db env actor)
  let offset := (q.pageNumber - 1) * q.size
  let shown := ((orderBy (q.before db) rows).drop offset.toNat).take q.size.toNat
  ⟨200,.ok ⟨shown.map fun x => s.preloadRun x.1,rows.length,q.pageNumber,q.size⟩⟩

def getBackupRun (env : Env) (actor : Actor) (param : String) (s : Store) : Reading RunView :=
  match env.parseUUID param with
  | none => ⟨400,.error "invalid id"⟩
  | some id =>
      match (first s.runs id).map s.preloadRun with
      | none => ⟨404,.error "run not found"⟩
      | some run =>
          if canAccessBackupResource actor run.backupJob.createdByUserID then ⟨200,.ok run⟩
          else ⟨404,.error "run not found"⟩

def Store.restoreOwner (s : Store) (r : VgRestoreJob) : Option Nat :=
  (s.runs.find r.backupRunID).bind fun run =>
    (s.jobs.find run.backupJobID).map (·.createdByUserID)

def listRestores (actor : Actor) (s : Store) : Reading (List RestoreView) :=
  let rows := allWhere s.restores fun r =>
    actor.role == .admin || s.restoreOwner r == some actor.userID
  ⟨200,.ok ((orderBy (fun a b => decide (b.createdAt ≤ a.createdAt)) rows).map s.preloadRestore)⟩

def getRestore (env : Env) (actor : Actor) (param : String) (s : Store) : Reading RestoreView :=
  match env.parseUUID param with
  | none => ⟨400,.error "invalid id"⟩
  | some id =>
      match (first s.restores id).map s.preloadRestore with
      | none => ⟨404,.error "restore job not found"⟩
      | some job =>
          if canAccessBackupResource actor job.backupRun.backupJob.createdByUserID then ⟨200,.ok job⟩
          else ⟨404,.error "restore job not found"⟩

def ListsRun (db : Collation) (env : Env) (actor : Actor) (q : RunsQuery) (s : Store)
    (id : UUID) : Prop :=
  ∃ n p, (listBackupRuns db env actor { q with page := n } s).body = .ok p ∧
    ∃ v ∈ p.data, v.row.id = id

def ListsRestore (actor : Actor) (s : Store) (id : UUID) : Prop :=
  ∃ views, (listRestores actor s).body = .ok views ∧ ∃ v ∈ views, v.row.id = id

section Access

variable {actor : Actor} {owner : Nat}

theorem access_admin (h : actor.role = .admin) :
    canAccessBackupResource actor owner = true ↔ actor.userID ≠ 0 := by
  simp [canAccessBackupResource,h]

theorem access_owner (h : actor.role ≠ .admin) :
    canAccessBackupResource actor owner = true ↔ actor.userID ≠ 0 ∧ actor.userID = owner := by
  cases hr : actor.role with
  | admin => exact absurd hr h
  | viewer => simp [canAccessBackupResource,hr]
  | operator => simp [canAccessBackupResource,hr]

end Access

theorem mem_allWhere {α : Type} [Row α] {t : Table α} {p : α → Bool} {r : α} :
    r ∈ allWhere t p ↔ r ∈ t.rows ∧ live r = true ∧ p r = true := by
  simp [allWhere,Table.select]

theorem eq_of_id {α : Type} [Row α] {t : Table α} {a b : α} (ha : a ∈ t.rows) (hb : b ∈ t.rows)
    (h : key a = key b) : a = b := by
  have hf := Table.find_of_mem ha
  rw [h,Table.find_of_mem hb,Option.some.injEq] at hf
  exact hf.symm

theorem first_of_live {α : Type} [Row α] {t : Table α} {r : α} (hr : r ∈ t.rows)
    (hl : live r = true) : first t (key r) = some r := by
  rw [first,Table.find_of_mem hr,Option.filter_some_pos hl]

theorem first_none_of_find {α : Type} [Row α] {t : Table α} {id : UUID} (h : t.find id = none) :
    first t id = none := by
  rw [first,h,Option.filter_none]

theorem first_of_find {α : Type} [Row α] {t : Table α} {id : UUID} {r : α}
    (h : t.find id = some r) : first t id = if live r then some r else none := by
  rw [first,h]
  rfl

section Runs

variable {db : Collation} {env : Env} {actor : Actor} {q : RunsQuery} {s : Store}
  {r : VgBackupRun} {param : String}

theorem size_pos (q : RunsQuery) : 0 < q.size := by
  unfold RunsQuery.size
  split
  · decide
  · omega

theorem mem_joinedRuns {x : VgBackupRun × VgBackupJob} :
    x ∈ s.joinedRuns ↔ (x.1 ∈ s.runs.rows ∧ live x.1 = true) ∧
      s.jobs.find x.1.backupJobID = some x.2 := by
  simp only [Store.joinedRuns,List.mem_filterMap,mem_allWhere,Option.map_eq_some_iff]
  constructor
  · rintro ⟨r,⟨hr,hl,-⟩,j,hj,rfl⟩
    exact ⟨⟨hr,hl⟩,hj⟩
  · rintro ⟨⟨hr,hl⟩,hj⟩
    exact ⟨x.1,⟨hr,hl,trivial⟩,x.2,hj,rfl⟩

theorem selects_unfiltered (hq : q.unfiltered) (x : VgBackupRun × VgBackupJob) :
    q.selects db env actor x = true ↔
      (actor.role = .admin ∨ x.2.createdByUserID = actor.userID) := by
  obtain ⟨hjob,hstatus,hsearch⟩ := hq
  simp [RunsQuery.selects,hjob,hstatus,hsearch]

theorem listsRun_shown (id : UUID) : ListsRun db env actor q s id ↔
    ∃ x ∈ s.joinedRuns.filter (q.selects db env actor), x.1.id = id := by
  have hpos := size_pos q
  have hpage : ∀ x, (∃ n : Int, x ∈ ((orderBy (q.before db) (s.joinedRuns.filter
      (q.selects db env actor))).drop (((if n < 1 then 1 else n) - 1) * q.size).toNat).take
        q.size.toNat) ↔ x ∈ s.joinedRuns.filter (q.selects db env actor) := by
    intro x
    have hsize : 0 < q.size.toNat := by omega
    have hordered : x ∈ orderBy (q.before db) (s.joinedRuns.filter (q.selects db env actor)) ↔
      x ∈ s.joinedRuns.filter (q.selects db env actor) := mem_orderBy
    rw [← hordered,← mem_some_page hsize]
    constructor
    · rintro ⟨n,hx⟩
      refine ⟨((if n < 1 then 1 else n) - 1).toNat,?_⟩
      rw [page,← Int.toNat_mul (by split <;> omega) hpos.le]
      exact hx
    · rintro ⟨n,hx⟩
      refine ⟨n + 1,?_⟩
      have hn : (n : Int) + 1 - 1 = n := by omega
      rw [if_neg (by omega),hn,Int.toNat_mul (by omega) hpos.le,Int.toNat_natCast]
      exact hx
  constructor
  · rintro ⟨n,p,hp,v,hv,hid⟩
    obtain rfl := Except.ok.inj hp
    obtain ⟨x,hx,rfl⟩ := List.mem_map.mp hv
    exact ⟨x,(hpage x).mp ⟨n,hx⟩,hid⟩
  · rintro ⟨x,hx,hid⟩
    obtain ⟨n,hn⟩ := (hpage x).mpr hx
    exact ⟨n,_,rfl,s.preloadRun x.1,List.mem_map.mpr ⟨x,hn,rfl⟩,hid⟩

theorem listsRun_iff (hr : r ∈ s.runs.rows) (hl : live r = true) (hq : q.unfiltered) :
    ListsRun db env actor q s r.id ↔ ∃ j, s.jobs.find r.backupJobID = some j ∧
      (actor.role = .admin ∨ j.createdByUserID = actor.userID) := by
  rw [listsRun_shown]
  simp only [List.mem_filter,mem_joinedRuns,selects_unfiltered hq]
  constructor
  · rintro ⟨⟨r',j⟩,⟨⟨⟨hr',-⟩,hj⟩,hown⟩,hid⟩
    obtain rfl : r' = r := eq_of_id hr' hr hid
    exact ⟨j,hj,hown⟩
  · rintro ⟨j,hj,hown⟩
    exact ⟨(r,j),⟨⟨⟨hr,hl⟩,hj⟩,hown⟩,rfl⟩

theorem getsRun_iff (hr : r ∈ s.runs.rows) (hl : live r = true)
    (hp : env.parseUUID param = some r.id) :
    (getBackupRun env actor param s).code = 200 ↔
      canAccessBackupResource actor (s.preloadRun r).backupJob.createdByUserID = true := by
  have hf : first s.runs r.id = some r := first_of_live hr hl
  simp only [getBackupRun,hp,hf,Option.map_some]
  split <;> simp_all

theorem runOwner_iff (h : actor.userID ≠ 0) :
    actor.userID = (s.preloadRun r).backupJob.createdByUserID ↔
      ∃ j, s.jobs.find r.backupJobID = some j ∧ live j = true ∧
        j.createdByUserID = actor.userID := by
  cases hj : s.jobs.find r.backupJobID with
  | none => simpa [Store.preloadRun,first_none_of_find hj,VgBackupJob.zero] using h
  | some j =>
    rw [Store.preloadRun,first_of_find hj]
    by_cases hl : live j = true
    · rw [if_pos hl,Option.getD_some]
      simp only [Option.some.injEq,exists_eq_left',hl,true_and]
      exact eq_comm
    · simpa [hl,VgBackupJob.zero] using h

def RunAgrees (s : Store) (actor : Actor) (r : VgBackupRun) : Prop :=
  if actor.role = .admin then (actor.userID ≠ 0 ↔ (s.jobs.find r.backupJobID).isSome)
  else ∀ j, s.jobs.find r.backupJobID = some j → j.createdByUserID = actor.userID →
    actor.userID ≠ 0 ∧ live j = true

theorem run_views_agree (hr : r ∈ s.runs.rows) (hl : live r = true) (hq : q.unfiltered)
    (hp : env.parseUUID param = some r.id) :
    (ListsRun db env actor q s r.id ↔ (getBackupRun env actor param s).code = 200) ↔
      RunAgrees s actor r := by
  rw [listsRun_iff hr hl hq,getsRun_iff hr hl hp]
  by_cases hadmin : actor.role = .admin
  · rw [access_admin hadmin,RunAgrees,if_pos hadmin]
    simp only [hadmin,true_or,and_true,← Option.isSome_iff_exists]
    exact iff_comm
  · rw [access_owner hadmin,RunAgrees,if_neg hadmin]
    simp only [hadmin,false_or]
    constructor
    · intro h j hj hown
      obtain ⟨hne,howner⟩ := h.mp ⟨j,hj,hown⟩
      obtain ⟨j',hj',hlive,-⟩ := (runOwner_iff hne).mp howner
      rw [hj,Option.some.injEq] at hj'
      exact ⟨hne,hj' ▸ hlive⟩
    · intro h
      constructor
      · rintro ⟨j,hj,hown⟩
        obtain ⟨hne,hlive⟩ := h j hj hown
        exact ⟨hne,(runOwner_iff hne).mpr ⟨j,hj,hlive,hown⟩⟩
      · rintro ⟨hne,howner⟩
        obtain ⟨j,hj,-,hown⟩ := (runOwner_iff hne).mp howner
        exact ⟨j,hj,hown⟩

end Runs

section Restores

variable {env : Env} {actor : Actor} {s : Store} {r : VgRestoreJob} {param : String}

theorem restoreOwner_iff {u : Nat} : s.restoreOwner r = some u ↔ ∃ run j,
    s.runs.find r.backupRunID = some run ∧ s.jobs.find run.backupJobID = some j ∧
      j.createdByUserID = u := by
  simp [Store.restoreOwner,Option.bind_eq_some_iff]

theorem listsRestore_iff (hr : r ∈ s.restores.rows) (hl : live r = true) :
    ListsRestore actor s r.id ↔
      (actor.role = .admin ∨ s.restoreOwner r = some actor.userID) := by
  simp only [ListsRestore,listRestores,Except.ok.injEq,exists_eq_left',List.mem_map,mem_orderBy,
    mem_allWhere,Bool.or_eq_true,beq_iff_eq]
  constructor
  · rintro ⟨v,⟨r',⟨hr',-,hown⟩,rfl⟩,hid⟩
    obtain rfl : r' = r := eq_of_id hr' hr hid
    exact hown
  · intro hown
    exact ⟨_,⟨r,⟨hr,hl,hown⟩,rfl⟩,rfl⟩

theorem getsRestore_iff (hr : r ∈ s.restores.rows) (hl : live r = true)
    (hp : env.parseUUID param = some r.id) :
    (getRestore env actor param s).code = 200 ↔ canAccessBackupResource actor
      (s.preloadRestore r).backupRun.backupJob.createdByUserID = true := by
  have hf : first s.restores r.id = some r := first_of_live hr hl
  simp only [getRestore,hp,hf,Option.map_some]
  split <;> simp_all

theorem loadedOwner_iff (h : actor.userID ≠ 0) :
    actor.userID = (s.preloadRestore r).backupRun.backupJob.createdByUserID ↔
      ∃ run j, s.runs.find r.backupRunID = some run ∧ live run = true ∧
        s.jobs.find run.backupJobID = some j ∧ live j = true ∧
          j.createdByUserID = actor.userID := by
  cases hrun : s.runs.find r.backupRunID with
  | none => simpa [Store.preloadRestore,first_none_of_find hrun,VgBackupJob.zero] using h
  | some run =>
    by_cases hl : live run = true
    · have hload : (s.preloadRestore r).backupRun = s.preloadRun run := by
        simp [Store.preloadRestore,first_of_find hrun,hl]
      rw [hload,runOwner_iff h]
      simp [hl]
    · simpa [Store.preloadRestore,first_of_find hrun,hl,VgBackupJob.zero] using h

def RestoreAgrees (s : Store) (actor : Actor) (r : VgRestoreJob) : Prop :=
  if actor.role = .admin then actor.userID ≠ 0
  else ∀ run j, s.runs.find r.backupRunID = some run → s.jobs.find run.backupJobID = some j →
    j.createdByUserID = actor.userID → actor.userID ≠ 0 ∧ live run = true ∧ live j = true

theorem restore_views_agree (hr : r ∈ s.restores.rows) (hl : live r = true)
    (hp : env.parseUUID param = some r.id) :
    (ListsRestore actor s r.id ↔ (getRestore env actor param s).code = 200) ↔
      RestoreAgrees s actor r := by
  rw [listsRestore_iff hr hl,getsRestore_iff hr hl hp]
  by_cases hadmin : actor.role = .admin
  · rw [access_admin hadmin,RestoreAgrees,if_pos hadmin]
    simp [hadmin]
  · rw [access_owner hadmin,RestoreAgrees,if_neg hadmin]
    simp only [hadmin,false_or,restoreOwner_iff]
    constructor
    · intro h run j hrun hj hown
      obtain ⟨hne,howner⟩ := h.mp ⟨run,j,hrun,hj,hown⟩
      obtain ⟨run',j',hrun',hlr,hj',hlj,-⟩ := (loadedOwner_iff hne).mp howner
      rw [hrun,Option.some.injEq] at hrun'
      subst hrun'
      rw [hj,Option.some.injEq] at hj'
      exact ⟨hne,hlr,hj' ▸ hlj⟩
    · intro h
      constructor
      · rintro ⟨run,j,hrun,hj,hown⟩
        obtain ⟨hne,hlr,hlj⟩ := h run j hrun hj hown
        exact ⟨hne,(loadedOwner_iff hne).mpr ⟨run,j,hrun,hlr,hj,hlj,hown⟩⟩
      · rintro ⟨hne,howner⟩
        obtain ⟨run,j,hrun,-,hj,-,hown⟩ := (loadedOwner_iff hne).mp howner
        exact ⟨run,j,hrun,hj,hown⟩

end Restores

structure ViewsAgree (db : Collation) (env : Env) (actor : Actor) (q : RunsQuery) (s : Store)
    (run : VgBackupRun → Prop) (restore : VgRestoreJob → Prop) : Prop where
  runs : ∀ r ∈ s.runs.rows, live r = true → ∀ param, env.parseUUID param = some r.id →
    ((ListsRun db env actor q s r.id ↔ (getBackupRun env actor param s).code = 200) ↔ run r)
  restores : ∀ r ∈ s.restores.rows, live r = true → ∀ param, env.parseUUID param = some r.id →
    ((ListsRestore actor s r.id ↔ (getRestore env actor param s).code = 200) ↔ restore r)

theorem views_agree_iff (db : Collation) (env : Env) (actor : Actor) (q : RunsQuery) (s : Store)
    (hq : q.unfiltered) :
    ViewsAgree db env actor q s (RunAgrees s actor) (RestoreAgrees s actor) where
  runs _ hr hl _ hp := run_views_agree hr hl hq hp
  restores _ hr hl _ hp := restore_views_agree hr hl hp

def firstPage : RunsQuery := ⟨1,50,"","","","",""⟩

def caseless : Collation := ⟨fun a b => decide (Go.toLower a ≤ Go.toLower b),fun a b => a == b⟩

theorem unfiltered_firstPage : firstPage.unfiltered := by
  refine ⟨rfl,rfl,?_⟩
  decide

theorem owned_run_in_both_views :
    ListsRun caseless sampleEnv ⟨.operator,1⟩ firstPage sampleStore 7 ↔
      (getBackupRun sampleEnv ⟨.operator,1⟩ runParam sampleStore).code = 200 := by
  have h := (views_agree_iff caseless sampleEnv ⟨.operator,1⟩ firstPage sampleStore
    unfiltered_firstPage).runs sampleRun (by decide) (by decide) runParam (by decide)
  refine h.mpr ?_
  rw [RunAgrees,if_neg (by decide)]
  intro j hj _
  have hjob : sampleStore.jobs.find 5 = some sampleJob := by decide
  rw [show sampleRun.backupJobID = 5 from rfl,hjob,Option.some.injEq] at hj
  exact ⟨by decide,hj ▸ (by decide)⟩

def orphanRestore : VgRestoreJob :=
  { VgBase.zero with
    id := 8, backupRunID := 7, agentID := 3, connectionID := none, status := .completed
    destinationPath := "/srv", targetDatabase := "", startedAt := none, completedAt := none
    durationSeconds := 0, errorMessage := "" }

def orphanStore : Store :=
  { sampleStore with
    jobs := singleRow { sampleJob with deletedAt := some 1 }
    restores := singleRow orphanRestore }

theorem deleted_job_listed_not_shown :
    ¬ (ListsRun caseless sampleEnv ⟨.operator,1⟩ firstPage orphanStore 7 ↔
      (getBackupRun sampleEnv ⟨.operator,1⟩ runParam orphanStore).code = 200) ∧
    ¬ (ListsRestore ⟨.operator,1⟩ orphanStore 8 ↔
      (getRestore sampleEnv ⟨.operator,1⟩ restoreParam orphanStore).code = 200) := by
  constructor
  · intro h
    have hagree : RunAgrees orphanStore ⟨.operator,1⟩ sampleRun :=
      (run_views_agree (by decide) (by decide) unfiltered_firstPage (by decide)).mp h
    rw [RunAgrees,if_neg (by decide)] at hagree
    have hlive := (hagree { sampleJob with deletedAt := some 1 } (by decide) rfl).2
    simp [live,VgBase.live,Row.base] at hlive
  · intro h
    have hagree : RestoreAgrees orphanStore ⟨.operator,1⟩ orphanRestore :=
      (restore_views_agree (by decide) (by decide) (by decide)).mp h
    rw [RestoreAgrees,if_neg (by decide)] at hagree
    have hlive := (hagree sampleRun { sampleJob with deletedAt := some 1 } (by decide)
      (by decide) rfl).2.2
    simp [live,VgBase.live,Row.base] at hlive

end VgBackup
