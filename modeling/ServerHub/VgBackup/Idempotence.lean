import ServerHub.VgBackup.Contracts

namespace VgBackup

open Relational Interleave

structure Registry (α κ : Type) [Row α] where
  table : Store → Table α
  index : α → Option κ

namespace Registry

variable {α κ : Type} [Row α]

structure Sound (g : Registry α κ) (s : Store) : Prop where
  unique : (g.table s).Unique g.index
  fresh : ∀ r ∈ (g.table s).rows, key r < s.nextID

structure Holds (g : Registry α κ) (s : Store) (k : κ) (r : α) : Prop where
  mem : r ∈ (g.table s).rows
  index : g.index r = some k

structure Added (g : Registry α κ) (s t : Store) (k : κ) (r : α) : Prop where
  free : ∀ a ∈ (g.table s).rows, g.index a ≠ some k
  index : g.index r = some k
  key : key r = s.nextID
  live : live r = true
  table : g.table t = (g.table s).insert r
  nextID : t.nextID = s.nextID + 1

inductive Attempt (g : Registry α κ) (k : κ) (s : Store) : Store → Option α → Prop
  | taken {a : α} (h : g.Holds s k a) : Attempt g k s s none
  | made {t : Store} {r : α} (h : g.Added s t k r) : Attempt g k s t (some r)

variable {g : Registry α κ} {s t : Store} {k : κ} {r : α}

theorem Sound.eq (h : g.Sound s) {a b : α} (ha : g.Holds s k a) (hb : g.Holds s k b) : a = b :=
  h.unique a ha.mem b hb.mem k ha.index hb.index

theorem Holds.later (h : g.Holds s k r) (hst : (g.table s).rows ⊆ (g.table t).rows) :
    g.Holds t k r := ⟨hst h.mem,h.index⟩

theorem Sound.same (h : g.Sound s) (ht : g.table t = g.table s) (hn : s.nextID ≤ t.nextID) :
    g.Sound t := by
  refine ⟨ht ▸ h.unique,?_⟩
  rw [ht]
  exact fun r hr => Nat.lt_of_lt_of_le (h.fresh r hr) hn

theorem Sound.unused (h : g.Sound s) (hr : key r = s.nextID) :
    (g.table s).find (key r) = none := by
  cases hf : (g.table s).find (key r) with
  | none => rfl
  | some a =>
    obtain ⟨hm,hk⟩ := Table.find_some hf
    have hlt := h.fresh a hm
    omega

theorem Added.holds (h : g.Added s t k r) (hs : g.Sound s) : g.Holds t k r := by
  refine ⟨?_,h.index⟩
  rw [h.table]
  exact Table.mem_insert_self (hs.unused h.key)

theorem Added.sound (h : g.Added s t k r) (hs : g.Sound s) : g.Sound t := by
  refine ⟨?_,?_⟩
  · rw [h.table]
    exact hs.unique.insert h.index h.free
  · rw [h.table,h.nextID]
    intro a ha
    rcases Table.mem_insert ha with ha | rfl
    · exact Nat.lt_succ_of_lt (hs.fresh a ha)
    · exact Nat.lt_succ_of_le h.key.le

theorem Added.subset (h : g.Added s t k r) : (g.table s).rows ⊆ (g.table t).rows := by
  rw [h.table]
  exact Table.subset_insert _ r

theorem Attempt.kept {b : Option α} (h : g.Attempt k s t b) (hs : g.Sound s) :
    g.Sound t ∧ (g.table s).rows ⊆ (g.table t).rows ∧ s.nextID ≤ t.nextID := by
  cases h with
  | taken h => exact ⟨hs,List.Subset.refl _,Nat.le_refl _⟩
  | made h => exact ⟨h.sound hs,h.subset,h.nextID ▸ Nat.le_succ _⟩

theorem attempt_insert {p : α → Bool} (hp : ∀ a, p a = true ↔ g.index a = some k)
    (hk : g.index r = some k) (hid : key r = s.nextID) (hl : VgBackup.live r = true)
    (htable : g.table t = (g.table s).insert r) (hnext : t.nextID = s.nextID + 1) :
    g.Attempt k s (if (g.table s).rows.any p then (s,none) else (t,some r)).1
      (if (g.table s).rows.any p then (s,none) else (t,some r)).2 := by
  split
  · rename_i h
    obtain ⟨a,ha,hpa⟩ := List.any_eq_true.mp h
    exact .taken ⟨ha,(hp a).mp hpa⟩
  · rename_i h
    refine .made ⟨?_,hk,hid,hl,htable,hnext⟩
    exact fun a ha hka => h (List.any_eq_true.mpr ⟨a,ha,(hp a).mpr hka⟩)

variable [DecidableEq κ]

structure Only (g : Registry α κ) (s : Store) (k : κ) (r : α) : Prop where
  only : ((g.table s).select fun a => decide (g.index a = some k)) = [r]
  live : live r = true

def lookup (g : Registry α κ) (s : Store) (k : κ) : Option α :=
  firstWhere (g.table s) fun a => decide (g.index a = some k)

theorem Only.holds (h : g.Only s k r) : g.Holds s k r := by
  have hm : r ∈ (g.table s).select fun a => decide (g.index a = some k) := by
    rw [h.only]
    exact List.mem_singleton.mpr rfl
  obtain ⟨hr,hk⟩ := List.mem_filter.mp hm
  exact ⟨hr,of_decide_eq_true hk⟩

theorem Sound.only (h : g.Sound s) (hr : g.Holds s k r) (hl : VgBackup.live r = true) :
    g.Only s k r := ⟨h.unique.select_eq hr.mem hr.index,hl⟩

theorem lookup_some (h : g.lookup s k = some r) : g.Holds s k r ∧ VgBackup.live r = true := by
  have hp := List.find?_some h
  simp only [Bool.and_eq_true,decide_eq_true_eq] at hp
  exact ⟨⟨List.mem_of_find?_eq_some h,hp.2⟩,hp.1⟩

theorem lookup_none (h : g.lookup s k = none) (hr : g.Holds s k r) :
    VgBackup.live r = false := by
  have hp := List.find?_eq_none.mp h r hr.mem
  simpa [hr.index] using hp

theorem firstWhere_index {p : α → Bool} (hp : ∀ a, p a = true ↔ g.index a = some k) :
    firstWhere (g.table s) p = g.lookup s k := by
  have he : p = fun a => decide (g.index a = some k) := by
    funext a
    exact Bool.eq_iff_iff.mpr ((hp a).trans decide_eq_true_iff.symm)
  rw [he]
  rfl

end Registry

abbrev ArtifactKey := UUID × String

abbrev ChunkKey := UUID × Int

def artifactNames : Registry VgBackupArtifact ArtifactKey where
  table := Store.artifacts
  index a := some (a.backupRunID,a.name)

def chunkIndexes : Registry VgBackupChunk ChunkKey where
  table := Store.chunks
  index c := some (c.artifactID,c.index)

def pendingRestores : Registry VgRestoreJob RestoreKey where
  table := Store.restores
  index r := if r.status = .pending then some r.restoreKey else none

structure RegistriesSound (s : Store) : Prop where
  artifacts : artifactNames.Sound s
  chunks : chunkIndexes.Sound s
  restores : pendingRestores.Sound s

structure RowsKept (s t : Store) : Prop where
  runs : t.runs = s.runs
  artifacts : s.artifacts.rows ⊆ t.artifacts.rows
  chunks : s.chunks.rows ⊆ t.chunks.rows
  restores : s.restores.rows ⊆ t.restores.rows

theorem RowsKept.refl (s : Store) : RowsKept s s :=
  ⟨rfl,List.Subset.refl _,List.Subset.refl _,List.Subset.refl _⟩

theorem RowsKept.trans {s t u : Store} (h : RowsKept s t) (k : RowsKept t u) : RowsKept s u where
  runs := k.runs.trans h.runs
  artifacts := List.Subset.trans h.artifacts k.artifacts
  chunks := List.Subset.trans h.chunks k.chunks
  restores := List.Subset.trans h.restores k.restores

theorem rowsKept_first {α : Type} [Row α] {t u : Table α} {id : UUID} {r : α}
    (h : t.rows ⊆ u.rows) (hr : first t id = some r) : first u id = some r := by
  obtain ⟨hfind,hlive⟩ := first_some hr
  obtain ⟨hm,rfl⟩ := Table.find_some hfind
  have hu : u.find (key r) = some r := Table.find_of_mem (h hm)
  simp [first,hu,hlive]

def registryRegime (env : Env) : Regime (system env) where
  Inv := RegistriesSound
  Later := RowsKept
  Allow _ _ _ _ := True
  refl := RowsKept.refl
  trans _ _ _ h k := h.trans k

def SideWrite.Registers : {β : Type} → SideWrite β → Prop
  | _, .insertArtifact _ => True
  | _, .insertChunk _ => True
  | _, _ => False

def RestoreWrite.Registers : {β : Type} → RestoreWrite β → Prop
  | _, .insert _ => True
  | _, .update _ _ => False

def Stmt.Registers : {β : Type} → Stmt β → Prop
  | _, .select _ => True
  | _, .side w => w.Registers
  | _, .restore w => w.Registers
  | _, _ => False

theorem index_artifact {a : VgBackupArtifact} {run : UUID} {name : String} :
    (a.backupRunID == run && a.name == name) = true ↔
      artifactNames.index a = some (run,name) := by
  simp [artifactNames]

theorem index_chunk {c : VgBackupChunk} {artifact : UUID} {index : Int} :
    (c.artifactID == artifact && c.index == index) = true ↔
      chunkIndexes.index c = some (artifact,index) := by
  simp [chunkIndexes]

theorem index_restore {r : VgRestoreJob} {k : RestoreKey} :
    (decide (r.restoreKey = k) && decide (r.status = .pending)) = true ↔
      pendingRestores.index r = some k := by
  simp only [pendingRestores]
  split <;> simp_all

theorem attempt_artifact (s : Store) (n : NewArtifact) :
    artifactNames.Attempt (n.backupRunID,n.name) s (s.insertArtifact n).1 (s.insertArtifact n).2 :=
  Registry.attempt_insert (fun _ => index_artifact) rfl rfl rfl rfl rfl

theorem attempt_chunk (s : Store) (n : NewChunk) :
    chunkIndexes.Attempt (n.artifactID,n.index) s (s.insertChunk n).1 (s.insertChunk n).2 :=
  Registry.attempt_insert (fun _ => index_chunk) rfl rfl rfl rfl rfl

theorem attempt_restore (s : Store) (n : NewRestore) :
    pendingRestores.Attempt n.dedupe s (s.insertRestore n).1 (s.insertRestore n).2 :=
  Registry.attempt_insert (fun _ => index_restore) rfl rfl rfl rfl rfl

theorem lookup_artifact (s : Store) (run : UUID) (name : String) :
    (Select.artifactNamed run name).eval s = artifactNames.lookup s (run,name) :=
  Registry.firstWhere_index fun _ => index_artifact

theorem lookup_chunk (s : Store) (artifact : UUID) (index : Int) :
    (Select.chunkAt artifact index).eval s = chunkIndexes.lookup s (artifact,index) :=
  Registry.firstWhere_index fun _ => index_chunk

theorem lookup_restore (s : Store) (k : RestoreKey) :
    (Select.pendingRestore k).eval s = pendingRestores.lookup s k :=
  Registry.firstWhere_index fun _ => index_restore

section Kept

variable {s : Store}

theorem kept_insertArtifact (hs : RegistriesSound s) (n : NewArtifact) :
    RegistriesSound (s.insertArtifact n).1 ∧ RowsKept s (s.insertArtifact n).1 := by
  obtain ⟨hsound,hsub,hnext⟩ := (attempt_artifact s n).kept hs.artifacts
  obtain ⟨hruns,hchunks,hrestores⟩ : (s.insertArtifact n).1.runs = s.runs ∧
      (s.insertArtifact n).1.chunks = s.chunks ∧ (s.insertArtifact n).1.restores = s.restores := by
    unfold Store.insertArtifact
    split <;> exact ⟨rfl,rfl,rfl⟩
  refine ⟨⟨hsound,hs.chunks.same hchunks hnext,hs.restores.same hrestores hnext⟩,hruns,hsub,?_,?_⟩
  · rw [hchunks]
    exact List.Subset.refl _
  · rw [hrestores]
    exact List.Subset.refl _

theorem kept_insertChunk (hs : RegistriesSound s) (n : NewChunk) :
    RegistriesSound (s.insertChunk n).1 ∧ RowsKept s (s.insertChunk n).1 := by
  obtain ⟨hsound,hsub,hnext⟩ := (attempt_chunk s n).kept hs.chunks
  obtain ⟨hruns,hartifacts,hrestores⟩ : (s.insertChunk n).1.runs = s.runs ∧
      (s.insertChunk n).1.artifacts = s.artifacts ∧
      (s.insertChunk n).1.restores = s.restores := by
    unfold Store.insertChunk
    split <;> exact ⟨rfl,rfl,rfl⟩
  refine ⟨⟨hs.artifacts.same hartifacts hnext,hsound,hs.restores.same hrestores hnext⟩,
    hruns,?_,hsub,?_⟩
  · rw [hartifacts]
    exact List.Subset.refl _
  · rw [hrestores]
    exact List.Subset.refl _

theorem kept_insertRestore (hs : RegistriesSound s) (n : NewRestore) :
    RegistriesSound (s.insertRestore n).1 ∧ RowsKept s (s.insertRestore n).1 := by
  obtain ⟨hsound,hsub,hnext⟩ := (attempt_restore s n).kept hs.restores
  obtain ⟨hruns,hartifacts,hchunks⟩ : (s.insertRestore n).1.runs = s.runs ∧
      (s.insertRestore n).1.artifacts = s.artifacts ∧
      (s.insertRestore n).1.chunks = s.chunks := by
    unfold Store.insertRestore
    split <;> exact ⟨rfl,rfl,rfl⟩
  refine ⟨⟨hs.artifacts.same hartifacts hnext,hs.chunks.same hchunks hnext,hsound⟩,
    hruns,?_,?_,hsub⟩
  · rw [hartifacts]
    exact List.Subset.refl _
  · rw [hchunks]
    exact List.Subset.refl _

end Kept

theorem closed_registers (env : Env) : (registryRegime env).Closed Stmt.Registers := by
  intro pid s β i t b hs hi _ hx
  cases i with
  | select q =>
    obtain ⟨rfl,-⟩ := Prod.mk.inj (Option.some.inj hx)
    exact ⟨hs,RowsKept.refl s⟩
  | side w =>
    obtain ⟨rfl,-⟩ := Prod.mk.inj (Option.some.inj hx)
    cases w with
    | insertArtifact n => exact kept_insertArtifact hs n
    | insertChunk n => exact kept_insertChunk hs n
    | _ => exact hi.elim
  | restore w =>
    obtain ⟨rfl,-⟩ := Prod.mk.inj (Option.some.inj hx)
    cases w with
    | insert n => exact kept_insertRestore hs n
    | update w p => exact hi.elim
  | run w => exact hi.elim
  | job w => exact hi.elim
  | agent w => exact hi.elim

theorem registers_records {β : Type} (i : Stmt β) (h : i.Records) : i.Registers := by
  cases i with
  | select q => trivial
  | side w =>
    cases w with
    | insertArtifact n => trivial
    | insertChunk n => trivial
    | _ => exact h.elim
  | _ => exact h.elim

theorem registers_exec {pid : Nat} {β : Type} {i : Stmt β} (hi : i.Registers) (s : Store) :
    ∃ t b, i.exec pid s = some (t,b) := by
  cases i with
  | select q => exact ⟨_,_,rfl⟩
  | side w => exact ⟨_,_,rfl⟩
  | restore w => exact ⟨_,_,rfl⟩
  | run w => exact hi.elim
  | job w => exact hi.elim
  | agent w => exact hi.elim

section FindOrInsert

variable {env : Env} {α κ : Type} [Row α] [DecidableEq κ] {g : Registry α κ} {k : κ}
  {look : Select (Option α)} {add : Stmt (Option α)} {known made : α → Handler Reply}
  {lost : Handler Reply} {pid : Nat} {s : Store} {Q : Reply → Store → Prop}

theorem ensures_findOrInsert (hg : ∀ t, RegistriesSound t → g.Sound t)
    (hrows : ∀ t u, RowsKept t u → (g.table t).rows ⊆ (g.table u).rows)
    (hlook : ∀ t, look.eval t = g.lookup t k) (hadd : add.Registers)
    (hexec : ∀ t u b, add.exec pid t = some (u,b) → g.Attempt k t u b)
    (hknown : ∀ t row, g.Holds t k row → live row = true →
      (registryRegime env).Ensures pid Q (known row) t)
    (hmade : ∀ t u row, add.exec pid t = some (u,some row) → g.Holds u k row → live row = true →
      (registryRegime env).Ensures pid Q (made row) u)
    (hlost : ∀ t row, g.Holds t k row → live row = false →
      (registryRegime env).Ensures pid Q lost t) :
    (registryRegime env).Ensures pid Q (findOrInsert look add known made lost) s := by
  refine ensures_query (closed_registers env) trivial fun t ht => ?_
  cases hfound : look.eval t with
  | some row =>
    obtain ⟨hrow,hlive⟩ := Registry.lookup_some ((hlook t).symm.trans hfound)
    exact hknown t row hrow hlive
  | none =>
    refine Regime.ensures_perform (closed_registers env) hadd ?_
    intro u u' out hu _ hx _
    cases hexec u u' out hx with
    | made h => exact hmade u u' _ hx (h.holds (hg u hu.1)) h.live
    | taken htaken =>
      refine ensures_query (closed_registers env) trivial fun v hv => ?_
      cases hfound : look.eval v with
      | some row =>
        obtain ⟨hrow,hlive⟩ := Registry.lookup_some ((hlook v).symm.trans hfound)
        exact hknown v row hrow hlive
      | none =>
        have hheld := htaken.later (hrows u v hv.2)
        exact hlost v _ hheld (Registry.lookup_none ((hlook v).symm.trans hfound) hheld)

end FindOrInsert

def Reply.succeeded (r : Reply) : Bool := decide (r.code < 300)

structure Returned {α κ : Type} [Row α] (g : Registry α κ) (body : α → Body)
    (k : κ) (r : Reply) (row : α) (t : Store) : Prop where
  body : r.body = body row
  holds : g.Holds t k row
  live : live row = true

def ArtifactAnswer (env : Env) (param name : String) (r : Reply) (t : Store) : Prop :=
  r.succeeded = true → ∃ run row, env.parseUUID param = some run ∧
    Returned artifactNames .artifact (run,name) r row t

def RestoreAnswer (env : Env) (req : RestoreRequest) (r : Reply) (t : Store) : Prop :=
  r.succeeded = true → ∃ run agent row, env.parseUUID req.backupRunID = some run ∧
    env.parseUUID req.agentID = some agent ∧
    Returned pendingRestores .restoreJob ⟨run,agent,req.destinationPath,req.targetDatabase⟩ r row t

structure ChunkAdmitted (env : Env) (s : Store) (agent : UUID) (param : String) (req : ChunkReport)
    (artifact : UUID) : Prop where
  parsed : env.parseUUID param = some artifact
  owned : ∃ a run, first s.artifacts artifact = some a ∧ first s.runs a.backupRunID = some run ∧
    run.agentID = agent
  index : 0 ≤ req.index
  size : 0 ≤ req.size

def chunkConflict : Reply := ⟨409,.error "chunk already exists with a different checksum"⟩

inductive ChunkSettled (k : ChunkKey) (checksum : String) (t : Store) : Reply → Prop
  | stored {code : Nat} {row : VgBackupChunk} (h : chunkIndexes.Holds t k row)
      (hl : live row = true) (hc : row.checksum = checksum) :
      ChunkSettled k checksum t ⟨code,.chunk row⟩
  | conflict {row : VgBackupChunk} (h : chunkIndexes.Holds t k row) (hc : row.checksum ≠ checksum) :
      ChunkSettled k checksum t chunkConflict
  | buried {row : VgBackupChunk} {message : String} (h : chunkIndexes.Holds t k row)
      (hl : live row = false) : ChunkSettled k checksum t ⟨500,.error message⟩

def ChunkAnswer (env : Env) (agent : UUID) (param : String) (req : ChunkReport) (s : Store)
    (r : Reply) (t : Store) : Prop :=
  (∃ artifact, env.parseUUID param = some artifact ∧
    ChunkSettled (artifact,req.index) req.checksum t r) ∨
  (r.succeeded = false ∧ ∀ artifact, ¬ ChunkAdmitted env s agent param req artifact)

section Answers

variable {env : Env} {pid : Nat} {s : Store}

theorem ensures_refused {code : Nat} {message : String} {P : Reply → Store → Prop}
    (h : 300 ≤ code) : (registryRegime env).Ensures pid (fun r t => r.succeeded = true → P r t)
      (fail code message) s := by
  intro hr
  have hlt : code < 300 := of_decide_eq_true hr
  omega

theorem ensures_registerArtifact (n : NewArtifact) :
    (registryRegime env).Ensures pid (fun r t => r.succeeded = true → ∃ row,
      Returned artifactNames .artifact (n.backupRunID,n.name) r row t) (registerArtifact n) s := by
  rw [registerArtifact_eq]
  refine ensures_findOrInsert (g := artifactNames) (fun _ h => h.artifacts)
    (fun _ _ h => h.artifacts) (fun t => lookup_artifact t _ _) trivial ?_ ?_ ?_ ?_
  · intro t u b hx
    obtain ⟨rfl,rfl⟩ := Prod.mk.inj (Option.some.inj hx)
    exact attempt_artifact t n
  · exact fun t row hrow hlive _ => ⟨row,rfl,hrow,hlive⟩
  · exact fun t u row _ hrow hlive _ => ⟨row,rfl,hrow,hlive⟩
  · exact fun t row _ _ => ensures_refused (by decide)

theorem ensures_vgRegisterArtifact (agent : UUID) (param : String) (req : ArtifactReport) :
    (registryRegime env).Ensures pid (ArtifactAnswer env param req.name)
      (vgRegisterArtifact env agent param req) s := by
  unfold vgRegisterArtifact
  split
  · exact ensures_refused (by decide)
  · rename_i runID hparse
    refine ensures_query (closed_registers env) trivial fun t ht => ?_
    split
    · exact ensures_refused (by decide)
    · split
      · exact ensures_refused (by decide)
      · split
        · exact ensures_refused (by decide)
        · have hnew : ∀ (u : Store) (target : UUID), RegistriesSound u →
              (registryRegime env).Ensures pid (ArtifactAnswer env param req.name)
                (registerArtifact ⟨runID,req.name,req.size,req.checksum,req.storagePath,target⟩)
                u := by
            intro u target hu
            refine Regime.ensures_mono hu (ensures_registerArtifact _) ?_
            intro r v _ hr hsucc
            obtain ⟨row,hrow⟩ := hr hsucc
            exact ⟨runID,row,hparse,hrow⟩
          dsimp only
          split
          · refine ensures_query (closed_registers env) trivial fun u hu => ?_
            split
            · exact ensures_refused (by decide)
            · exact hnew u _ hu.1
          · exact hnew t _ ht.1

theorem ensures_repeatedChunk {k : ChunkKey} {row : VgBackupChunk} (checksum : String)
    (hrow : chunkIndexes.Holds s k row) (hlive : live row = true) :
    (registryRegime env).Ensures pid (fun r t => ChunkSettled k checksum t r)
      (repeatedChunk row checksum) s := by
  unfold repeatedChunk
  split
  · rename_i hne
    exact ChunkSettled.conflict hrow hne
  · rename_i he
    exact ChunkSettled.stored hrow hlive (not_not.mp he)

theorem checksum_insertChunk {n : NewChunk} {row : VgBackupChunk}
    (h : (s.insertChunk n).2 = some row) : row.checksum = n.checksum := by
  unfold Store.insertChunk at h
  split at h
  · simp at h
  · obtain rfl := Option.some.inj h
    rfl

theorem ensures_registerChunk (n : NewChunk) :
    (registryRegime env).Ensures pid (fun r t => ChunkSettled (n.artifactID,n.index) n.checksum t r)
      (registerChunk n) s := by
  rw [registerChunk_eq]
  refine ensures_findOrInsert (g := chunkIndexes) (fun _ h => h.chunks) (fun _ _ h => h.chunks)
    (fun t => lookup_chunk t _ _) trivial ?_ ?_ ?_ ?_
  · intro t u b hx
    obtain ⟨rfl,rfl⟩ := Prod.mk.inj (Option.some.inj hx)
    exact attempt_chunk t n
  · exact fun t row hrow hlive => ensures_repeatedChunk n.checksum hrow hlive
  · intro t u row hx hrow hlive
    exact ChunkSettled.stored hrow hlive (checksum_insertChunk (congrArg Prod.snd (Option.some.inj hx)))
  · exact fun t row hrow hlive => ChunkSettled.buried hrow hlive

theorem ChunkAdmitted.later {t : Store} {agent artifact : UUID} {param : String}
    {req : ChunkReport} (h : ChunkAdmitted env s agent param req artifact) (hst : RowsKept s t) :
    ChunkAdmitted env t agent param req artifact := by
  obtain ⟨a,run,ha,hrun,hown⟩ := h.owned
  exact ⟨h.parsed,⟨a,run,rowsKept_first hst.artifacts ha,hst.runs ▸ hrun,hown⟩,h.index,h.size⟩

theorem ensures_vgRegisterChunk (agent : UUID) (param : String) (req : ChunkReport) :
    (registryRegime env).Ensures pid (ChunkAnswer env agent param req s)
      (vgRegisterChunk env agent param req) s := by
  unfold vgRegisterChunk
  split
  · rename_i hparse
    refine .inr ⟨rfl,?_⟩
    intro artifact h
    have hsome := h.parsed
    simp [hparse] at hsome
  · rename_i artifactID hparse
    have hkey : ∀ artifact, ChunkAdmitted env s agent param req artifact → artifact = artifactID :=
      fun artifact h => Option.some.inj (h.parsed.symm.trans hparse)
    refine ensures_query (closed_registers env) trivial fun t ht => ?_
    split
    · rename_i hnone
      refine .inr ⟨rfl,?_⟩
      intro artifact h
      obtain rfl := hkey artifact h
      obtain ⟨a,run,ha,-⟩ := (h.later ht.2).owned
      simp [Select.eval,ha] at hnone
    · rename_i a ha
      refine ensures_query (closed_registers env) trivial fun u hu => ?_
      split
      · rename_i hnone
        refine .inr ⟨rfl,?_⟩
        intro artifact h
        obtain rfl := hkey artifact h
        obtain ⟨a',run,ha',hrun,hown⟩ := (h.later ht.2).owned
        obtain rfl : a = a' := Option.some.inj (ha.symm.trans ha')
        have hfound : first u.runs a.backupRunID = some run := hu.2.runs ▸ hrun
        simp [Select.eval,hfound,hown] at hnone
      · dsimp only
        split
        · rename_i hneg
          refine .inr ⟨rfl,?_⟩
          intro artifact h
          have := h.index
          have := h.size
          omega
        · refine Regime.ensures_mono hu.1 (ensures_registerChunk _) ?_
          exact fun r v _ hr => .inl ⟨artifactID,hparse,hr⟩

theorem ensures_insertRestore (n : NewRestore) :
    (registryRegime env).Ensures pid (fun r t => r.succeeded = true → ∃ row,
      Returned pendingRestores .restoreJob n.dedupe r row t) (insertRestore n) s := by
  rw [insertRestore_eq]
  refine ensures_findOrInsert (g := pendingRestores) (fun _ h => h.restores)
    (fun _ _ h => h.restores) (fun t => lookup_restore t _) trivial ?_ ?_ ?_ ?_
  · intro t u b hx
    obtain ⟨rfl,rfl⟩ := Prod.mk.inj (Option.some.inj hx)
    exact attempt_restore t n
  · exact fun t row hrow hlive _ => ⟨row,rfl,hrow,hlive⟩
  · exact fun t u row _ hrow hlive _ => ⟨row,rfl,hrow,hlive⟩
  · exact fun t row _ _ => ensures_refused (by decide)

theorem registers_restoreConnection (job : VgBackupJob) (agent : UUID) :
    (restoreConnection job agent).Uses Stmt.Registers := by
  unfold restoreConnection
  split
  · trivial
  · refine Prog.uses_bind (Prog.uses_perform trivial) fun conn => ?_
    split
    · trivial
    · split <;> trivial

theorem ensures_createRestore (actor : Actor) (req : RestoreRequest) :
    (registryRegime env).Ensures pid (RestoreAnswer env req) (createRestore env actor req) s := by
  unfold createRestore
  split
  · exact ensures_refused (by decide)
  · exact ensures_refused (by decide)
  · exact ensures_refused (by decide)
  · rename_i runID agentID hbind hrun hagent
    refine ensures_query (closed_registers env) trivial fun t ht => ?_
    split
    · exact ensures_refused (by decide)
    · refine ensures_query (closed_registers env) trivial fun u hu => ?_
      split
      · exact ensures_refused (by decide)
      · split
        · exact ensures_refused (by decide)
        · split
          · exact ensures_refused (by decide)
          · have hconn : ∀ p : Handler (Except String (Option UUID)), p.Uses Stmt.Registers →
                (registryRegime env).Ensures pid (fun _ _ => True) p u := fun p hp =>
              Regime.ensures_uses (closed_registers env) hp (Prog.ends_of_forall (fun _ _ => trivial) p) u
            refine Regime.ensures_bind hu.1 (hconn _ (registers_restoreConnection _ _)) ?_
            intro conn v hv _
            split
            · exact ensures_refused (by decide)
            · refine Regime.ensures_mono hv (ensures_insertRestore _) ?_
              intro r w _ hr hsucc
              obtain ⟨row,hrow⟩ := hr hsucc
              exact ⟨runID,agentID,row,hrun,hagent,hrow⟩

theorem registers_createRestore (actor : Actor) (req : RestoreRequest) :
    (createRestore env actor req).Uses Stmt.Registers := by
  unfold createRestore
  split
  · trivial
  · trivial
  · trivial
  · refine Prog.uses_bind (Prog.uses_perform trivial) fun agent => ?_
    split
    · trivial
    · refine Prog.uses_bind (Prog.uses_perform trivial) fun loaded => ?_
      split
      · trivial
      · split
        · trivial
        · split
          · trivial
          · refine Prog.uses_bind (registers_restoreConnection _ _) fun conn => ?_
            split
            · trivial
            · rw [insertRestore_eq]
              exact uses_findOrInsert trivial trivial (fun _ => trivial) (fun _ => trivial) trivial

end Answers

def Request.records : Request → Bool
  | .vgRegisterArtifact _ _ _ | .vgRegisterChunk _ _ _ | .createRestore _ _ => true
  | _ => false

def RegistryAnswer (env : Env) (s : Store) (r : Reply) (t : Store) : Request → Prop
  | .vgRegisterArtifact _ param req => ArtifactAnswer env param req.name r t
  | .vgRegisterChunk agent param req => ChunkAnswer env agent param req s r t
  | .createRestore _ req => RestoreAnswer env req r t
  | _ => True

structure Idempotent (env : Env) (s : Store) (es : List (Event (system env)))
    (v : World (system env)) : Prop where
  artifact : ∀ pid agent param req r, .start pid (.vgRegisterArtifact agent param req) ∈ es →
    replyOf v pid = some r → r.succeeded = true →
    ∃ run row, env.parseUUID param = some run ∧ r.body = .artifact row ∧
      artifactNames.Only v.state (run,req.name) row
  chunk : ∀ pid agent param req r, .start pid (.vgRegisterChunk agent param req) ∈ es →
    replyOf v pid = some r → r.succeeded = true →
    ∃ artifact row, env.parseUUID param = some artifact ∧ r.body = .chunk row ∧
      row.checksum = req.checksum ∧ chunkIndexes.Only v.state (artifact,req.index) row
  restore : ∀ pid actor req r, .start pid (.createRestore actor req) ∈ es →
    replyOf v pid = some r → r.succeeded = true →
    ∃ run agent row, env.parseUUID req.backupRunID = some run ∧
      env.parseUUID req.agentID = some agent ∧ r.body = .restoreJob row ∧
      pendingRestores.Only v.state ⟨run,agent,req.destinationPath,req.targetDatabase⟩ row
  kept : ∀ xs ys u, es = xs ++ ys → (World.idle (S := system env) s).run xs = some u →
    RowsKept u.state v.state
  conflict : ∀ pid agent param req r xs ys u artifact row,
    es = xs ++ .start pid (.vgRegisterChunk agent param req) :: ys →
    (World.idle (S := system env) s).run xs = some u →
    ChunkAdmitted env u.state agent param req artifact →
    chunkIndexes.Only v.state (artifact,req.index) row → row.checksum ≠ req.checksum →
    replyOf v pid = some r → r = chunkConflict
  answers : ∀ pid r, .start pid r ∈ es → ∃ n w,
    v.run (List.replicate n (.act pid)) = some w ∧ (replyOf w pid).isSome = true

section Registers

variable {env : Env} {s : Store} {es : List (Event (system env))} {v : World (system env)}

theorem registers_handle {r : Request} (h : r.records = true) :
    (handle env r).Uses Stmt.Registers := by
  cases r with
  | vgRegisterArtifact agent param req =>
    exact Prog.uses_bind (Prog.uses_mono registers_records (records_vgRegisterArtifact agent param req))
      fun _ => trivial
  | vgRegisterChunk agent param req =>
    exact Prog.uses_bind (Prog.uses_mono registers_records (records_vgRegisterChunk agent param req))
      fun _ => trivial
  | createRestore actor req =>
    exact Prog.uses_bind (registers_createRestore actor req) fun _ => trivial
  | _ => simp [Request.records] at h

theorem answered_handle {r : Request} (h : r.records = true) :
    (handle env r).Ends (·.isSome = true) := by
  cases r with
  | vgRegisterArtifact agent param req => exact Prog.ends_bind fun _ => rfl
  | vgRegisterChunk agent param req => exact Prog.ends_bind fun _ => rfl
  | createRestore actor req => exact Prog.ends_bind fun _ => rfl
  | _ => simp [Request.records] at h

theorem ensures_handle {pid : Nat} {r : Request} (h : r.records = true)
    (hs : RegistriesSound s) : (registryRegime env).Ensures pid
      (fun a t => ∀ reply, a = some reply → RegistryAnswer env s reply t r) (handle env r) s := by
  cases r with
  | vgRegisterArtifact agent param req =>
    exact ensures_reply hs (ensures_vgRegisterArtifact agent param req)
  | vgRegisterChunk agent param req =>
    exact ensures_reply hs (ensures_vgRegisterChunk agent param req)
  | createRestore actor req => exact ensures_reply hs (ensures_createRestore actor req)
  | _ => simp [Request.records] at h

theorem Returned.later {α κ : Type} [Row α] {g : Registry α κ} {body : α → Body} {k : κ}
    {r : Reply} {row : α} {t u : Store} (h : Returned g body k r row t)
    (htu : (g.table t).rows ⊆ (g.table u).rows) : Returned g body k r row u :=
  ⟨h.body,h.holds.later htu,h.live⟩

theorem ChunkSettled.later {k : ChunkKey} {checksum : String} {r : Reply} {t u : Store}
    (h : ChunkSettled k checksum t r) (htu : RowsKept t u) : ChunkSettled k checksum u r := by
  cases h with
  | stored h hl hc => exact .stored (h.later htu.chunks) hl hc
  | conflict h hc => exact .conflict (h.later htu.chunks) hc
  | buried h hl => exact .buried (h.later htu.chunks) hl

theorem registryAnswer_later {r : Request} {reply : Reply} {t u : Store} (htu : RowsKept t u)
    (h : RegistryAnswer env s reply t r) : RegistryAnswer env s reply u r := by
  cases r with
  | vgRegisterArtifact agent param req =>
    intro hr
    obtain ⟨run,row,hrun,hrow⟩ := h hr
    exact ⟨run,row,hrun,hrow.later htu.artifacts⟩
  | vgRegisterChunk agent param req =>
    rcases h with ⟨artifact,hparse,hset⟩ | h
    · exact .inl ⟨artifact,hparse,hset.later htu⟩
    · exact .inr h
  | createRestore actor req =>
    intro hr
    obtain ⟨run,agent,row,hrun,hagent,hrow⟩ := h hr
    exact ⟨run,agent,row,hrun,hagent,hrow.later htu.restores⟩
  | _ => trivial

theorem ChunkAnswer.returned {agent : UUID} {param : String} {req : ChunkReport} {r : Reply}
    {t : Store} (h : ChunkAnswer env agent param req s r t) (ht : chunkIndexes.Sound t)
    (hsucc : r.succeeded = true) :
    ∃ artifact row, env.parseUUID param = some artifact ∧ r.body = .chunk row ∧
      row.checksum = req.checksum ∧ chunkIndexes.Only t (artifact,req.index) row := by
  rcases h with ⟨artifact,hparse,hset⟩ | ⟨hno,-⟩
  · cases hset with
    | stored h hl hc => exact ⟨artifact,_,hparse,rfl,hc,ht.only h hl⟩
    | conflict h hc => simp [Reply.succeeded,chunkConflict] at hsucc
    | buried h hl => simp [Reply.succeeded] at hsucc
  · simp [hno] at hsucc

theorem ChunkAnswer.conflict {agent artifact : UUID} {param : String} {req : ChunkReport}
    {r : Reply} {t : Store} {row : VgBackupChunk} (h : ChunkAnswer env agent param req s r t)
    (ht : chunkIndexes.Sound t) (hadm : ChunkAdmitted env s agent param req artifact)
    (hrow : chunkIndexes.Only t (artifact,req.index) row) (hne : row.checksum ≠ req.checksum) :
    r = chunkConflict := by
  rcases h with ⟨artifact',hparse,hset⟩ | ⟨-,hno⟩
  · obtain rfl : artifact = artifact' := Option.some.inj (hadm.parsed.symm.trans hparse)
    cases hset with
    | stored h hl hc =>
      obtain rfl := ht.eq hrow.holds h
      exact absurd hc hne
    | conflict h hc => rfl
    | buried h hl =>
      obtain rfl := ht.eq hrow.holds h
      simp [hrow.live] at hl
  · exact (hno artifact hadm).elim

theorem registry_clock (now : Time) (t u : Store) (hs : RegistriesSound t)
    (h : (system env).env now t = some u) : (registryRegime env).Kept t u := by
  obtain ⟨-,rfl⟩ := advance_eq h
  refine ⟨⟨hs.artifacts.same rfl (Nat.le_refl _),hs.chunks.same rfl (Nat.le_refl _),
    hs.restores.same rfl (Nat.le_refl _)⟩,?_⟩
  exact ⟨rfl,List.Subset.refl _,List.Subset.refl _,List.Subset.refl _⟩

theorem registers_run {w : World (system env)} (hw : (registryRegime env).Within Stmt.Registers w)
    (hes : ∀ pid r, .start pid r ∈ es → r.records = true) (hv : w.run es = some v) :
    (registryRegime env).Within Stmt.Registers v ∧ RowsKept w.state v.state :=
  hw.run (closed_registers env) registry_clock (along_unrestricted w es)
    (fun pid r hm => registers_handle (hes pid r hm)) hv

theorem rowsKept_suffix {xs ys : List (Event (system env))} {u : World (system env)}
    (hs : RegistriesSound s) (hes : ∀ pid r, .start pid r ∈ xs ++ ys → r.records = true)
    (hu : (World.idle s).run xs = some u) (hv : (World.idle s).run (xs ++ ys) = some v) :
    RowsKept u.state v.state := by
  rw [run_append,hu,Option.bind_some] at hv
  have hbefore := registers_run (Regime.within_idle hs)
    (fun pid r hm => hes pid r (List.mem_append_left ys hm)) hu
  exact (registers_run hbefore.1 (fun pid r hm => hes pid r (List.mem_append_right xs hm)) hv).2

theorem reply_reached {pid : Nat} {r : Request} (hs : RegistriesSound s)
    (hes : ∀ pid r, .start pid r ∈ es → r.records = true) (hv : (World.idle s).run es = some v)
    (hm : .start pid r ∈ es) :
    ∃ n w, v.run (List.replicate n (.act pid)) = some w ∧ (replyOf w pid).isSome = true := by
  obtain ⟨p,hp,hres⟩ := started_residual hv hm
  have huses := (registers_run (Regime.within_idle hs) hes hv).1.uses pid p hp
  have hends : p.Ends fun a : Answer => a.isSome = true :=
    hres.ends (answered_handle (hes pid r hm))
  have htotal : ∀ t : Store, True → ∀ {β : Type} (i : Stmt β), i.Registers →
      ∃ u b, i.exec pid t = some (u,b) ∧ True := by
    intro t _ β i hi
    obtain ⟨u,b,hx⟩ := registers_exec hi t
    exact ⟨u,b,hx,trivial⟩
  obtain ⟨t,a,ha,-⟩ := Prog.alone_total htotal huses (s := v.state) trivial
  obtain ⟨n,w,hrun,-,hpool⟩ := run_alone hp ha
  refine ⟨n,w,hrun,?_⟩
  have hret : w.pool pid = some (.ret a) := by rw [hpool,Function.update_self]
  rw [replyOf,hret]
  exact Prog.alone_ends (Q := fun a : Answer => a.isSome = true) hends ha

theorem idempotent_registration (env : Env) (s : Store) (es : List (Event (system env)))
    (v : World (system env)) (hs : RegistriesSound s)
    (hes : ∀ pid r, .start pid r ∈ es → r.records = true)
    (hv : (World.idle s).run es = some v) : Idempotent env s es v := by
  obtain ⟨hinv,hpost⟩ := fulfilled (R := registryRegime env)
    (Q := fun _ r t a u => ∀ reply, a = some reply → RegistryAnswer env t reply u r) hs
    (fun pid r t hm ht => ensures_handle (hes pid r hm) ht)
    (fun _ _ _ _ _ _ hlater h reply he => registryAnswer_later hlater (h reply he))
    registry_clock (along_unrestricted _ es) hv
  have hanswer : ∀ pid r reply, .start pid r ∈ es → replyOf v pid = some reply →
      ∃ u : World (system env), RegistryAnswer env u.state reply v.state r := by
    intro pid r reply hm hr
    obtain ⟨xs,ys,he⟩ := List.append_of_mem hm
    have hrun := hv
    rw [he,run_append,Option.bind_eq_some_iff] at hrun
    obtain ⟨u,hu,-⟩ := hrun
    exact ⟨u,hpost pid r _ xs ys u he hu (replyOf_eq hr) reply rfl⟩
  refine ⟨?_,?_,?_,?_,?_,fun pid r hm => reply_reached hs hes hv hm⟩
  · intro pid agent param req r hm hr hsucc
    obtain ⟨u,h⟩ := hanswer pid _ r hm hr
    obtain ⟨run,row,hrun,hrow⟩ := h hsucc
    exact ⟨run,row,hrun,hrow.body,hinv.artifacts.only hrow.holds hrow.live⟩
  · intro pid agent param req r hm hr hsucc
    obtain ⟨u,h⟩ := hanswer pid _ r hm hr
    exact ChunkAnswer.returned h hinv.chunks hsucc
  · intro pid actor req r hm hr hsucc
    obtain ⟨u,h⟩ := hanswer pid _ r hm hr
    obtain ⟨run,agent,row,hrun,hagent,hrow⟩ := h hsucc
    exact ⟨run,agent,row,hrun,hagent,hrow.body,hinv.restores.only hrow.holds hrow.live⟩
  · rintro xs ys u rfl hu
    exact rowsKept_suffix hs hes hu hv
  · intro pid agent param req r xs ys u artifact row he hu hadm hrow hne hr
    have h : ChunkAnswer env agent param req u.state r v.state :=
      hpost pid _ _ xs ys u he hu (replyOf_eq hr) r rfl
    exact h.conflict hinv.chunks hadm hrow hne

end Registers

def baseArtifact : VgBackupArtifact :=
  { VgBase.zero with
    id := 6, backupRunID := 7, name := "base.tar", size := 1, checksum := "", storagePath := ""
    storageTargetID := 4, verifiedAt := none, verificationStatus := .unverified }

def recordStore : Store :=
  { sampleStore with
    runs := singleRow { sampleRun with status := .completed }
    artifacts := singleRow baseArtifact }

def artifactParam : String := "00000000-0000-0000-0000-000000000006"

def dumpReport : ArtifactReport := ⟨"dump.tar",10,"",""⟩

def chunkReport (checksum : String) : ChunkReport := ⟨0,5,checksum,"",true⟩

def restoreRequest : RestoreRequest :=
  ⟨runParam,"00000000-0000-0000-0000-000000000003","/restore","",true⟩

def racingRecords : List SampleEvent :=
  [.start 1 (.vgRegisterArtifact 3 runParam dumpReport),
    .start 2 (.vgRegisterArtifact 3 runParam dumpReport),
    .start 3 (.vgRegisterChunk 3 artifactParam (chunkReport "c0")),
    .start 4 (.vgRegisterChunk 3 artifactParam (chunkReport "c0")),
    .start 5 (.vgRegisterChunk 3 artifactParam (chunkReport "c1")),
    .start 6 (.createRestore ⟨.admin,1⟩ restoreRequest),
    .start 7 (.createRestore ⟨.admin,1⟩ restoreRequest)] ++
  acts 1 2 ++ acts 2 2 ++ acts 3 3 ++ acts 4 3 ++ acts 5 3 ++ acts 6 3 ++ acts 7 3 ++
  [.act 1,.act 3,.act 6] ++ acts 2 2 ++ acts 4 2 ++ acts 5 2 ++ acts 7 2

theorem sound_recordStore : RegistriesSound recordStore := by
  have hrow : ∀ a ∈ recordStore.artifacts.rows, a = baseArtifact :=
    fun a ha => List.mem_singleton.mp ha
  refine ⟨⟨?_,?_⟩,⟨?_,?_⟩,⟨?_,?_⟩⟩
  · exact fun a ha b hb _ _ _ => (hrow a ha).trans (hrow b hb).symm
  · intro a ha
    rw [hrow a ha]
    decide
  · exact fun a ha => absurd ha List.not_mem_nil
  · exact fun a ha => absurd ha List.not_mem_nil
  · exact fun a ha => absurd ha List.not_mem_nil
  · exact fun a ha => absurd ha List.not_mem_nil

theorem racing_records_registered_once :
    ∃ v, (World.idle (S := system sampleEnv) recordStore).run racingRecords = some v ∧
      [1,2,3,4,5,6,7].map (replyCode v) =
        [some 201,some 200,some 201,some 200,some 409,some 201,some 200] ∧
      Idempotent sampleEnv recordStore racingRecords v := by
  have hrun : ((World.idle (S := system sampleEnv) recordStore).run racingRecords).map
      (fun v => [1,2,3,4,5,6,7].map (replyCode v)) =
        some [some 201,some 200,some 201,some 200,some 409,some 201,some 200] := by decide
  obtain ⟨v,hv,hcodes⟩ := Option.map_eq_some_iff.mp hrun
  refine ⟨v,hv,hcodes,?_⟩
  exact idempotent_registration sampleEnv recordStore racingRecords v sound_recordStore
    (allStarts_mem (by decide)) hv

end VgBackup
