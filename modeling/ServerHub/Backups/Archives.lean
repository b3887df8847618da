import ServerHub.Go.Strings
import ServerHub.Interleave.Routine
import ServerHub.Posix.Disk

namespace Backups

open Posix Interleave

structure Clock where
  year : Nat
  month : Nat
  day : Nat
  hour : Nat
  minute : Nat
  second : Nat
deriving DecidableEq

def padded (width n : Nat) : Text :=
  List.replicate (width - (Nat.toDigits 10 n).length) '0' ++ Nat.toDigits 10 n

-- Format("20060102-150405")
def Clock.stamp (c : Clock) : Text :=
  padded 4 c.year ++ padded 2 c.month ++ padded 2 c.day ++ ['-'] ++
    padded 2 c.hour ++ padded 2 c.minute ++ padded 2 c.second

def isDash (c : Char) : Bool := c == '-'

def keepsRune (c : Char) : Bool :=
  ('a' ≤ c && c ≤ 'z') || ('0' ≤ c && c ≤ '9') || c == '-' || c == '_'

def sanitize (s : Text) : Text :=
  let b := s.map fun c => if keepsRune (Go.lower c) then Go.lower c else '-'
  let out := (b.dropWhile isDash).rdropWhile isDash
  if out = [] then "project".toList else out

inductive BackupKind where
  | snapshot
  | preRestore
deriving DecidableEq

def BackupKind.between : BackupKind → Text
  | .snapshot => "-".toList
  | .preRestore => "-pre-restore-".toList

def archivePath (dir name : Text) (kind : BackupKind) (now : Clock) : Text :=
  joinPath dir (sanitize name ++ kind.between ++ now.stamp ++ ".tar.gz".toList)

inductive BackupStatus where
  | success
  | failed
  | deleted
deriving DecidableEq

-- wrote is no column: the bytes that the row's own snapshot wrote to its archive
structure BackupRow where
  id : Nat
  projectId : Int
  kind : BackupKind
  path : Text
  status : BackupStatus
  wrote : Bytes
deriving DecidableEq

-- the archive that an operation has created and not yet recorded or removed
structure Making where
  path : Text
  file : Nat
  written : Bytes
deriving DecidableEq

-- reclaimed holds the rows whose own Delete has removed their archive
structure Archives where
  rows : List BackupRow
  nextId : Nat
  names : Text → Option Nat
  content : Nat → Bytes
  next : Nat
  making : Nat → Option Making
  reclaimed : List Nat

inductive ArchiveCall : Type → Type where
  | create (path : Text) (allowed : Bool) : ArchiveCall Bool
  | write (data : Bytes) : ArchiveCall Unit
  | remove (path : Text) : ArchiveCall Unit
  | insert (projectId : Int) (kind : BackupKind) (path : Text) (status : BackupStatus)
      (stored : Bool) : ArchiveCall (Option Nat)
  | select (id : Nat) : ArchiveCall (Option Text)
  | reclaim (id : Nat) (path : Text) : ArchiveCall Unit
  | markDeleted (id : Nat) (stored : Bool) : ArchiveCall Unit

-- a write at the offset off: what lies before it and was never written is zero
def writeAt (old : Bytes) (off : Nat) (data : Bytes) : Bytes :=
  old.take off ++ List.replicate (off - old.length) 0 ++ data ++ old.drop (off + data.length)

namespace Archives

variable (s : Archives)

def create (pid : Nat) (path : Text) : Archives :=
  let file := (s.names path).getD s.next
  { s with
    names := Function.update s.names path (some file)
    content := Function.update s.content file []
    next := max s.next (file + 1)
    making := Function.update s.making pid (some ⟨path,file,[]⟩) }

def write (pid : Nat) (data : Bytes) : Archives :=
  match s.making pid with
  | none => s
  | some m =>
      { s with
        content := Function.update s.content m.file
          (writeAt (s.content m.file) m.written.length data)
        making := Function.update s.making pid (some { m with written := m.written ++ data }) }

def unlink (path : Text) : Archives := { s with names := Function.update s.names path none }

def insert (pid : Nat) (projectId : Int) (kind : BackupKind) (path : Text) (status : BackupStatus) :
    Archives :=
  let wrote := match s.making pid with
    | none => []
    | some m => m.written
  { s with
    rows := s.rows ++ [⟨s.nextId,projectId,kind,path,status,wrote⟩]
    nextId := s.nextId + 1
    making := Function.update s.making pid none }

def markDeleted (id : Nat) : Archives :=
  { s with rows := s.rows.map fun r => if r.id = id then { r with status := .deleted } else r }

def exec (pid : Nat) : {β : Type} → ArchiveCall β → Archives → Option (Archives × β)
  | _, .create path allowed, s => some (if allowed then s.create pid path else s,allowed)
  | _, .write data, s => some (s.write pid data,())
  | _, .remove path, s =>
      some ({ s.unlink path with making := Function.update s.making pid none },())
  | _, .insert projectId kind path status stored, s =>
      if stored then some (s.insert pid projectId kind path status,some s.nextId) else some (s,none)
  | _, .select id, s => some (s,(s.rows.find? fun r => r.id = id).map BackupRow.path)
  | _, .reclaim id path, s => some ({ s.unlink path with reclaimed := id :: s.reclaimed },())
  | _, .markDeleted id stored, s => some (if stored then s.markDeleted id else s,())

def Live (r : BackupRow) : Prop := r.status = .success ∧ r.id ∉ s.reclaimed

instance (r : BackupRow) : Decidable (s.Live r) :=
  inferInstanceAs (Decidable (r.status = .success ∧ r.id ∉ s.reclaimed))

end Archives

-- what the machine makes of the steps of a snapshot
structure Machine where
  live : Bool
  dirMade : Bool
  now : Clock
  created : Bool
  chunks : List Bytes
  written : Bool
  closed : Bool
  recorded : Bool
  failureRecorded : Bool

abbrev ArchiveProg := Prog ArchiveCall

open Prog

-- what runBackup and snapshotLive share: whether the row is recorded
def takeSnapshot (projectId : Int) (kind : BackupKind) (archive : Text) (m : Machine) :
    ArchiveProg Bool := do
  if !(← perform (.create archive m.created)) then return false
  else
  each (fun data => perform (.write data)) m.chunks
  if !m.written || !m.closed then
    perform (.remove archive)
    return false
  else
  match ← perform (.insert projectId kind archive .success m.recorded) with
  | some _ => return true
  | none =>
      perform (.remove archive)
      return false

def runBackup (dir : Text) (projectId : Int) (name deployPath : Text) (m : Machine) :
    ArchiveProg Unit := do
  let fail : ArchiveProg Unit := do
    let _ ← perform (.insert projectId .snapshot [] .failed m.failureRecorded)
    return ()
  if deployPath = [] ∨ !m.live ∨ !m.dirMade then fail
  else if ← takeSnapshot projectId .snapshot (archivePath dir name .snapshot m.now) m then return ()
  else fail

def snapshotLive (dir : Text) (projectId : Int) (name : Text) (m : Machine) : ArchiveProg Unit := do
  if !m.live ∨ !m.dirMade then return ()
  else
    let _ ← takeSnapshot projectId .preRestore (archivePath dir name .preRestore m.now) m
    return ()

def delete (id : Nat) (stored : Bool) : ArchiveProg Unit := do
  match ← perform (.select id) with
  | none => return ()
  | some path =>
      perform (.reclaim id path)
      perform (.markDeleted id stored)

inductive BackupRequest where
  | runBackup (projectId : Int) (name deployPath : Text) (m : Machine)
  | snapshotLive (projectId : Int) (name : Text) (m : Machine)
  | delete (id : Nat) (stored : Bool)

def backups (dir : Text) : System where
  Instr := ArchiveCall
  State := Archives
  Request := BackupRequest
  Answer := Unit
  Env := Empty
  exec := Archives.exec
  handle
    | .runBackup projectId name deployPath m => runBackup dir projectId name deployPath m
    | .snapshotLive projectId name m => snapshotLive dir projectId name m
    | .delete id stored => delete id stored
  env e := e.elim

namespace Archives

-- a snapshot under way owns its archive, and a live row owns the archive that it names
inductive Owns (s : Archives) : Nat ⊕ Nat → Text → Bytes → Prop
  | making {pid : Nat} {m : Making} (h : s.making pid = some m) : Owns s (.inl pid) m.path m.written
  | row {r : BackupRow} (h : r ∈ s.rows) (hl : s.Live r) : Owns s (.inr r.id) r.path r.wrote

structure Kept (s : Archives) : Prop where
  owned : ∀ o p b, s.Owns o p b → ∃ f, s.names p = some f ∧ s.content f = b
  apart : ∀ o o' p b b', s.Owns o p b → s.Owns o' p b' → o = o'
  opened : ∀ pid m, s.making pid = some m → s.names m.path = some m.file
  named : ∀ p q f, s.names p = some f → s.names q = some f → p = q
  used : ∀ p f, s.names p = some f → f < s.next
  keyed : (s.rows.map BackupRow.id).Nodup
  issued : ∀ r ∈ s.rows, r.id < s.nextId

def Marked (s : Archives) : Prop :=
  (∀ id ∈ s.reclaimed, id < s.nextId) ∧ ∀ r ∈ s.rows, r.status = .success → r.id ∉ s.reclaimed

section Steps

variable {s t : Archives}

theorem Kept.replace (hs : s.Kept) (o : Nat ⊕ Nat) (path : Text) (b : Bytes) (f : Nat)
    (hold : ∀ o' p c, t.Owns o' p c → o' = o ∧ p = path ∧ c = b ∨ p ≠ path ∧ s.Owns o' p c)
    (hnew : t.names path = some f ∧ t.content f = b)
    (hkeep : ∀ p g, p ≠ path → s.names p = some g → t.names p = some g ∧ t.content g = s.content g)
    (hopened : ∀ pid m, t.making pid = some m → t.names m.path = some m.file)
    (hnamed : ∀ p q g, t.names p = some g → t.names q = some g → p = q)
    (hused : ∀ p g, t.names p = some g → g < t.next)
    (hkeyed : (t.rows.map BackupRow.id).Nodup) (hissued : ∀ r ∈ t.rows, r.id < t.nextId) :
    t.Kept := by
  refine ⟨?_,?_,hopened,hnamed,hused,hkeyed,hissued⟩
  · intro o' p c h
    obtain ⟨-,rfl,rfl⟩ | ⟨hp,h⟩ := hold o' p c h
    · exact ⟨f,hnew⟩
    · obtain ⟨g,hg,hc⟩ := hs.owned o' p c h
      obtain ⟨hg',hc'⟩ := hkeep p g hp hg
      exact ⟨g,hg',hc'.trans hc⟩
  · intro o₁ o₂ p c c' h h'
    obtain ⟨rfl,hp,-⟩ | ⟨hp,h⟩ := hold o₁ p c h
    · obtain ⟨rfl,-,-⟩ | ⟨hp',-⟩ := hold o₂ p c' h'
      · rfl
      · exact (hp' hp).elim
    · obtain ⟨-,hp',-⟩ | ⟨-,h'⟩ := hold o₂ p c' h'
      · exact (hp hp').elim
      · exact hs.apart o₁ o₂ p c c' h h'

theorem Kept.release (hs : s.Kept)
    (hold : ∀ o p c, t.Owns o p c → s.Owns o p c ∧ t.names p = s.names p)
    (hnames : ∀ p g, t.names p = some g → s.names p = some g)
    (hcontent : t.content = s.content) (hnext : t.next = s.next)
    (hmaking : ∀ pid m, t.making pid = some m → s.making pid = some m)
    (hkeyed : (t.rows.map BackupRow.id).Nodup) (hissued : ∀ r ∈ t.rows, r.id < t.nextId) :
    t.Kept := by
  refine ⟨?_,?_,?_,?_,?_,hkeyed,hissued⟩
  · intro o p c h
    obtain ⟨h,hp⟩ := hold o p c h
    obtain ⟨g,hg,hc⟩ := hs.owned o p c h
    exact ⟨g,hp.trans hg,hcontent ▸ hc⟩
  · exact fun o o' p c c' h h' => hs.apart o o' p c c' (hold o p c h).1 (hold o' p c' h').1
  · intro pid m hm
    exact (hold _ _ _ (.making hm)).2.trans (hs.opened pid m (hmaking pid m hm))
  · exact fun p q g hp hq => hs.named p q g (hnames p g hp) (hnames q g hq)
  · exact fun p g hp => hnext ▸ hs.used p g (hnames p g hp)

theorem making_cases {pid q : Nat} {x : Option Making} {m : Making}
    (h : Function.update s.making pid x q = some m) :
    q = pid ∧ x = some m ∨ q ≠ pid ∧ s.making q = some m := by
  by_cases e : q = pid
  · subst e
    exact .inl ⟨rfl,by rwa [Function.update_self] at h⟩
  · exact .inr ⟨e,by rwa [Function.update_of_ne e] at h⟩

theorem created_file (hs : s.Kept) (path : Text) {p : Text} {g : Nat} (hp : p ≠ path)
    (h : s.names p = some g) : g ≠ (s.names path).getD s.next := by
  rintro rfl
  cases hn : s.names path with
  | none =>
    rw [hn] at h
    exact (hs.used p _ h).false
  | some f =>
    rw [hn] at h
    exact hp (hs.named p path f h hn)

theorem kept_create {pid : Nat} {path : Text} (hs : s.Kept)
    (hfree : ∀ o c, ¬ s.Owns o path c) : (s.create pid path).Kept := by
  let file := (s.names path).getD s.next
  have hclear : ∀ {o p c}, s.Owns o p c → p ≠ path := by
    rintro o p c h rfl
    exact hfree o c h
  have hnames : ∀ p g, (s.create pid path).names p = some g →
      p = path ∧ g = file ∨ p ≠ path ∧ s.names p = some g := by
    intro p g h
    by_cases e : p = path
    · subst e
      simp only [create,Function.update_self,Option.some.injEq] at h
      exact .inl ⟨rfl,h.symm⟩
    · simp only [create,Function.update_of_ne e] at h
      exact .inr ⟨e,h⟩
  refine hs.replace (.inl pid) path [] file ?_ ?_ ?_ ?_ ?_ ?_
    hs.keyed hs.issued
  · intro o p c h
    cases h with
    | making h =>
      obtain ⟨rfl,hm⟩ | ⟨-,hm⟩ := making_cases h
      · rw [Option.some.injEq] at hm
        exact .inl ⟨rfl,by rw [← hm],by rw [← hm]⟩
      · exact .inr ⟨hclear (.making hm),.making hm⟩
    | row h hl => exact .inr ⟨hclear (.row h hl),.row h hl⟩
  · exact ⟨by simp [create,file],by simp [create,file]⟩
  · intro p g hp h
    exact ⟨by simp only [create,Function.update_of_ne hp,h],
      by simp only [create,Function.update_of_ne (created_file hs path hp h)]⟩
  · intro q m h
    obtain ⟨rfl,hm⟩ | ⟨-,hm⟩ := making_cases h
    · rw [Option.some.injEq] at hm
      subst hm
      simp only [create,Function.update_self]
    · have hp : m.path ≠ path := hclear (.making hm)
      simp only [create,Function.update_of_ne hp]
      exact hs.opened q m hm
  · intro p q g hp hq
    obtain ⟨rfl,rfl⟩ | ⟨hne,hp'⟩ := hnames p g hp
    · obtain ⟨rfl,-⟩ | ⟨hne,hq'⟩ := hnames q _ hq
      · rfl
      · exact (created_file hs p hne hq' rfl).elim
    · obtain ⟨rfl,rfl⟩ | ⟨-,hq'⟩ := hnames q g hq
      · exact (created_file hs q hne hp' rfl).elim
      · exact hs.named p q g hp' hq'
  · intro p g h
    show g < max s.next (file + 1)
    obtain ⟨-,rfl⟩ | ⟨-,h⟩ := hnames p g h
    · omega
    · have := hs.used p g h
      omega

theorem writeAt_end (old data : Bytes) : writeAt old old.length data = old ++ data := by
  simp [writeAt]

theorem kept_write {pid : Nat} (hs : s.Kept) (data : Bytes) : (s.write pid data).Kept := by
  unfold write
  split
  · exact hs
  rename_i m hm
  have hown : s.Owns (.inl pid) m.path m.written := .making hm
  have hfile : s.content m.file = m.written := by
    obtain ⟨f,hf,hc⟩ := hs.owned _ _ _ hown
    rw [hs.opened pid m hm,Option.some.injEq] at hf
    exact hf ▸ hc
  refine hs.replace (.inl pid) m.path (m.written ++ data) m.file ?_ ?_ ?_
    ?_ hs.named hs.used hs.keyed hs.issued
  · intro o p c h
    have other : ∀ o', o' ≠ .inl pid → s.Owns o' p c → p ≠ m.path := by
      rintro o' hne h' rfl
      exact hne (hs.apart _ _ _ _ _ h' hown)
    cases h with
    | making h =>
      obtain ⟨rfl,hm'⟩ | ⟨hne,hm'⟩ := making_cases h
      · rw [Option.some.injEq] at hm'
        exact .inl ⟨rfl,by rw [← hm'],by rw [← hm']⟩
      · exact .inr ⟨other _ (by simpa using hne) (.making hm'),.making hm'⟩
    | row h hl => exact .inr ⟨other _ (by simp) (.row h hl),.row h hl⟩
  · refine ⟨hs.opened pid m hm,?_⟩
    show Function.update s.content m.file _ m.file = _
    rw [Function.update_self,hfile,writeAt_end]
  · intro p g hp h
    have hne : g ≠ m.file := by
      rintro rfl
      exact hp (hs.named p m.path _ h (hs.opened pid m hm))
    exact ⟨h,Function.update_of_ne hne ..⟩
  · intro q n h
    obtain ⟨rfl,hn⟩ | ⟨-,hn⟩ := making_cases h
    · rw [Option.some.injEq] at hn
      subst hn
      exact hs.opened q m hm
    · exact hs.opened q n hn

theorem owns_other {pid : Nat} {m : Making} {o : Nat ⊕ Nat} {p : Text} {c : Bytes} (hs : s.Kept)
    (hm : s.making pid = some m) (hne : o ≠ .inl pid) (h : s.Owns o p c) : p ≠ m.path := by
  rintro rfl
  exact hne (hs.apart _ _ _ _ _ h (.making hm))

theorem kept_remove {pid : Nat} {m : Making} (hs : s.Kept) (hm : s.making pid = some m) :
    ({ s.unlink m.path with making := Function.update s.making pid none } : Archives).Kept := by
  refine hs.release ?_ ?_ rfl rfl ?_ hs.keyed hs.issued
  · intro o p c h
    cases h with
    | making h =>
      obtain ⟨-,h⟩ | ⟨hne,h⟩ := making_cases h
      · cases h
      · exact ⟨.making h,Function.update_of_ne (owns_other hs hm (by simpa using hne) (.making h)) ..⟩
    | row h hl =>
      exact ⟨.row h hl,Function.update_of_ne (owns_other hs hm (by simp) (.row h hl)) ..⟩
  · intro p g h
    by_cases e : p = m.path
    · subst e
      simp [unlink] at h
    · exact (Function.update_of_ne e ..).symm.trans h
  · intro q n h
    obtain ⟨-,h⟩ | ⟨-,h⟩ := making_cases h
    · cases h
    · exact h

theorem keyed_insert {r : BackupRow} (hs : s.Kept) (hid : r.id = s.nextId) :
    ((s.rows ++ [r]).map BackupRow.id).Nodup ∧ ∀ q ∈ s.rows ++ [r], q.id < s.nextId + 1 := by
  constructor
  · rw [List.map_append,List.nodup_append]
    refine ⟨hs.keyed,List.nodup_singleton _,?_⟩
    intro a ha b hb
    obtain ⟨q,hq,rfl⟩ := List.mem_map.mp ha
    have hlt := hs.issued q hq
    simp only [List.map_cons,List.map_nil,List.mem_singleton] at hb
    omega
  · intro q hq
    rcases List.mem_append.mp hq with hq | hq
    · have := hs.issued q hq
      omega
    · obtain rfl := List.mem_singleton.mp hq
      omega

theorem kept_insert {pid : Nat} {m : Making} (hs : s.Kept) (hm : s.making pid = some m)
    (projectId : Int) (kind : BackupKind) :
    (s.insert pid projectId kind m.path .success).Kept := by
  have hown : s.Owns (.inl pid) m.path m.written := .making hm
  obtain ⟨f,hf⟩ := hs.owned _ _ _ hown
  obtain ⟨hkeyed,hissued⟩ := keyed_insert (r := ⟨s.nextId,projectId,kind,m.path,.success,m.written⟩)
    hs rfl
  have hrows : (s.insert pid projectId kind m.path .success).rows =
      s.rows ++ [⟨s.nextId,projectId,kind,m.path,.success,m.written⟩] := by
    simp only [insert,hm]
  refine hs.replace (.inr s.nextId) m.path m.written f ?_ hf ?_ ?_
    hs.named hs.used (hrows ▸ hkeyed) (hrows ▸ hissued)
  · intro o p c h
    cases h with
    | making h =>
      obtain ⟨-,h⟩ | ⟨hne,h⟩ := making_cases h
      · cases h
      · exact .inr ⟨owns_other hs hm (by simpa using hne) (.making h),.making h⟩
    | row h hl =>
      rw [hrows] at h
      rcases List.mem_append.mp h with h | h
      · exact .inr ⟨owns_other hs hm (by simp) (.row h hl),.row h hl⟩
      · obtain rfl := List.mem_singleton.mp h
        exact .inl ⟨rfl,rfl,rfl⟩
  · exact fun p g _ h => ⟨h,rfl⟩
  · intro q n h
    obtain ⟨-,h⟩ | ⟨-,h⟩ := making_cases h
    · cases h
    · exact hs.opened q n h

theorem kept_failed {pid : Nat} {status : BackupStatus} (hs : s.Kept) (hst : status ≠ .success)
    (projectId : Int) (kind : BackupKind) (path : Text) :
    (s.insert pid projectId kind path status).Kept := by
  obtain ⟨hkeyed,hissued⟩ := keyed_insert (r := ⟨s.nextId,projectId,kind,path,status,
    (s.making pid).elim [] Making.written⟩) hs rfl
  have hrows : (s.insert pid projectId kind path status).rows =
      s.rows ++ [⟨s.nextId,projectId,kind,path,status,(s.making pid).elim [] Making.written⟩] := by
    simp only [insert]
    cases s.making pid <;> rfl
  refine hs.release ?_ (fun p g h => h) rfl rfl ?_ (hrows ▸ hkeyed) (hrows ▸ hissued)
  · intro o p c h
    cases h with
    | making h =>
      obtain ⟨-,h⟩ | ⟨-,h⟩ := making_cases h
      · cases h
      · exact ⟨.making h,rfl⟩
    | row h hl =>
      rw [hrows] at h
      rcases List.mem_append.mp h with h | h
      · exact ⟨.row h hl,rfl⟩
      · obtain rfl := List.mem_singleton.mp h
        exact (hst hl.1).elim
  · intro q n h
    obtain ⟨-,h⟩ | ⟨-,h⟩ := making_cases h
    · cases h
    · exact h

theorem kept_reclaim {id : Nat} {path : Text} (hs : s.Kept)
    (hloose : ∀ o c, s.Owns o path c → o = .inr id) :
    ({ s.unlink path with reclaimed := id :: s.reclaimed } : Archives).Kept := by
  refine hs.release ?_ ?_ rfl rfl (fun q n h => h) hs.keyed hs.issued
  · intro o p c h
    have keeps : ∀ {o'}, o' ≠ .inr id → s.Owns o' p c →
        s.Owns o' p c ∧ (s.unlink path).names p = s.names p := by
      intro o' hne h'
      refine ⟨h',Function.update_of_ne ?_ ..⟩
      rintro rfl
      exact hne (hloose _ _ h')
    cases h with
    | making h => exact keeps (by simp) (.making h)
    | row h hl =>
      obtain ⟨hne,hl'⟩ := not_or.mp fun he => hl.2 (List.mem_cons.mpr he)
      exact keeps (by simpa using hne) (.row h ⟨hl.1,hl'⟩)
  · intro p g h
    by_cases e : p = path
    · subst e
      simp [unlink] at h
    · exact (Function.update_of_ne e ..).symm.trans h

theorem markDeleted_ids (id : Nat) :
    (s.markDeleted id).rows.map BackupRow.id = s.rows.map BackupRow.id := by
  rw [markDeleted,List.map_map]
  refine List.map_congr_left fun r _ => ?_
  simp only [Function.comp_apply]
  split <;> rfl

theorem markDeleted_row {id : Nat} {r : BackupRow} (h : r ∈ (s.markDeleted id).rows)
    (hr : r.status = .success) : r ∈ s.rows := by
  obtain ⟨q,hq,rfl⟩ := List.mem_map.mp h
  split at hr
  · cases hr
  · rename_i hne
    rwa [if_neg hne]

theorem kept_markDeleted {id : Nat} (hs : s.Kept) : (s.markDeleted id).Kept := by
  refine hs.release ?_ (fun p g h => h) rfl rfl (fun q n h => h) ?_ ?_
  · intro o p c h
    cases h with
    | making h => exact ⟨.making h,rfl⟩
    | row h hl => exact ⟨.row (markDeleted_row h hl.1) hl,rfl⟩
  · rw [markDeleted_ids]
    exact hs.keyed
  · intro r hr
    have hid : r.id ∈ s.rows.map BackupRow.id := markDeleted_ids id ▸ List.mem_map_of_mem hr
    obtain ⟨q,hq,he⟩ := List.mem_map.mp hid
    exact he ▸ hs.issued q hq

end Steps

-- the steps that go by a name meet no archive but their own
def Spares (_ : Nat) (s : Archives) : {β : Type} → ArchiveCall β → Prop
  | _, .create path allowed => allowed = true → ∀ o b, ¬ s.Owns o path b
  | _, .reclaim id path => ∀ o b, s.Owns o path b → o = .inr id
  | _, _ => True

def Retired (_ : Nat) (s : Archives) : {β : Type} → ArchiveCall β → Prop
  | _, .reclaim id _ => ∀ r ∈ s.rows, r.id = id → r.status ≠ .success
  | _, _ => True

-- what the operations themselves see to
def Knows (pid : Nat) (s : Archives) : {β : Type} → ArchiveCall β → Prop
  | _, .remove path => ∃ m, s.making pid = some m ∧ m.path = path
  | _, .insert _ _ path status _ =>
      if status = .success then ∃ m, s.making pid = some m ∧ m.path = path else path = []
  | _, .reclaim id path => ∃ r ∈ s.rows, r.id = id ∧ r.path = path
  | _, _ => True

end Archives

def Archives.Grown (s t : Archives) : Prop :=
  ∀ r ∈ s.rows, ∃ r' ∈ t.rows, r'.id = r.id ∧ r'.path = r.path

def knowing (dir : Text) : Discipline (backups dir) where
  Inv _ := True
  Rely pid s t := t.making pid = s.making pid ∧ Archives.Grown s t
  Allow _ _ _ _ := True
  Duty pid s _ i := Archives.Knows pid s i
  rely_refl _ _ := ⟨rfl,fun r hr => ⟨r,hr,rfl,rfl⟩⟩
  rely_trans _ _ _ _ h h' := by
    refine ⟨h'.1.trans h.1,fun r hr => ?_⟩
    obtain ⟨r',hr',hid,hpath⟩ := h.2 r hr
    obtain ⟨q,hq,hid',hpath'⟩ := h'.2 r' hr'
    exact ⟨q,hq,hid'.trans hid,hpath'.trans hpath⟩

namespace Archives

variable {s t : Archives} {pid : Nat} {dir : Text}

theorem grown_same (h : t.rows = s.rows) : s.Grown t := fun r hr => ⟨r,h ▸ hr,rfl,rfl⟩

theorem grown_markDeleted (id : Nat) : s.Grown (s.markDeleted id) := by
  intro r hr
  refine ⟨_,List.mem_map_of_mem hr,?_⟩
  split <;> exact ⟨rfl,rfl⟩

theorem exec_grown {β : Type} {i : ArchiveCall β} {b : β} (h : exec pid i s = some (t,b)) :
    s.Grown t := by
  cases i with
  | insert projectId kind path status stored =>
    simp only [exec] at h
    split at h
    · obtain ⟨rfl,-⟩ := Prod.mk.inj (Option.some.inj h)
      exact fun r hr => ⟨r,List.mem_append_left _ hr,rfl,rfl⟩
    · obtain ⟨rfl,-⟩ := Prod.mk.inj (Option.some.inj h)
      exact grown_same rfl
  | markDeleted id stored =>
    obtain ⟨rfl,-⟩ := Prod.mk.inj (Option.some.inj h)
    split
    · exact grown_markDeleted id
    · exact grown_same rfl
  | create path allowed =>
    obtain ⟨rfl,-⟩ := Prod.mk.inj (Option.some.inj h)
    split <;> exact grown_same rfl
  | write data =>
    obtain ⟨rfl,-⟩ := Prod.mk.inj (Option.some.inj h)
    unfold write
    split <;> exact grown_same rfl
  | _ =>
    obtain ⟨rfl,-⟩ := Prod.mk.inj (Option.some.inj h)
    exact grown_same rfl

theorem exec_others {q : Nat} {β : Type} {i : ArchiveCall β} {b : β} (hne : q ≠ pid)
    (h : exec pid i s = some (t,b)) : t.making q = s.making q := by
  cases i with
  | create path allowed =>
    obtain ⟨rfl,-⟩ := Prod.mk.inj (Option.some.inj h)
    split
    · exact Function.update_of_ne hne ..
    · rfl
  | write data =>
    obtain ⟨rfl,-⟩ := Prod.mk.inj (Option.some.inj h)
    unfold write
    split
    · rfl
    · exact Function.update_of_ne hne ..
  | remove path =>
    obtain ⟨rfl,-⟩ := Prod.mk.inj (Option.some.inj h)
    exact Function.update_of_ne hne ..
  | insert projectId kind path status stored =>
    simp only [exec] at h
    split at h
    · obtain ⟨rfl,-⟩ := Prod.mk.inj (Option.some.inj h)
      exact Function.update_of_ne hne ..
    · obtain ⟨rfl,-⟩ := Prod.mk.inj (Option.some.inj h)
      rfl
  | select id =>
    obtain ⟨rfl,-⟩ := Prod.mk.inj (Option.some.inj h)
    rfl
  | reclaim id path =>
    obtain ⟨rfl,-⟩ := Prod.mk.inj (Option.some.inj h)
    rfl
  | markDeleted id stored =>
    obtain ⟨rfl,-⟩ := Prod.mk.inj (Option.some.inj h)
    split <;> rfl

theorem exec_kept {β : Type} {i : ArchiveCall β} {b : β} (hs : s.Kept) (ha : Spares pid s i)
    (hk : Knows pid s i) (h : exec pid i s = some (t,b)) : t.Kept := by
  cases i with
  | create path allowed =>
    obtain ⟨rfl,-⟩ := Prod.mk.inj (Option.some.inj h)
    split
    · exact kept_create hs (ha ‹_›)
    · exact hs
  | write data =>
    obtain ⟨rfl,-⟩ := Prod.mk.inj (Option.some.inj h)
    exact kept_write hs data
  | remove path =>
    obtain ⟨rfl,-⟩ := Prod.mk.inj (Option.some.inj h)
    obtain ⟨m,hm,rfl⟩ := hk
    exact kept_remove hs hm
  | insert projectId kind path status stored =>
    simp only [exec] at h
    split at h
    · obtain ⟨rfl,-⟩ := Prod.mk.inj (Option.some.inj h)
      by_cases hst : status = .success
      · subst hst
        obtain ⟨m,hm,rfl⟩ := hk
        exact kept_insert hs hm projectId kind
      · exact kept_failed hs hst projectId kind path
    · obtain ⟨rfl,-⟩ := Prod.mk.inj (Option.some.inj h)
      exact hs
  | select id =>
    obtain ⟨rfl,-⟩ := Prod.mk.inj (Option.some.inj h)
    exact hs
  | reclaim id path =>
    obtain ⟨rfl,-⟩ := Prod.mk.inj (Option.some.inj h)
    exact kept_reclaim hs ha
  | markDeleted id stored =>
    obtain ⟨rfl,-⟩ := Prod.mk.inj (Option.some.inj h)
    split
    · exact kept_markDeleted hs
    · exact hs

theorem knowing_perform {α β : Type} {i : ArchiveCall β} {f : β → ArchiveProg α}
    {Q : α → Archives → Prop}
    (h : ∀ t, t.making pid = s.making pid → s.Grown t →
      Knows pid t i ∧ ∀ u b, exec pid i t = some (u,b) → (knowing dir).Safe pid Q (f b) u) :
    (knowing dir).Safe pid Q (.perform i >>= f) s := by
  intro t hr _ _ u b hx
  obtain ⟨hk,hf⟩ := h t hr.1 hr.2
  exact ⟨hk,⟨trivial,fun q hq => ⟨exec_others hq hx,exec_grown hx⟩⟩,hf u b hx⟩

def Holding (pid : Nat) (path : Text) (s : Archives) : Prop :=
  ∃ m, s.making pid = some m ∧ m.path = path

theorem Holding.rely {path : Text} (h : Holding pid path s) (hm : t.making pid = s.making pid) :
    Holding pid path t := by
  obtain ⟨m,hs,hp⟩ := h
  exact ⟨m,hm.trans hs,hp⟩

theorem Holding.write {path : Text} (h : Holding pid path s) (data : Bytes) :
    Holding pid path (s.write pid data) := by
  obtain ⟨m,hs,hp⟩ := h
  refine ⟨{ m with written := m.written ++ data },?_,hp⟩
  simp only [Archives.write,hs,Function.update_self]

theorem holding_create (path : Text) : Holding pid path (s.create pid path) :=
  ⟨_,Function.update_self ..,rfl⟩

theorem writes_safe {path : Text} (chunks : List Bytes) (h : Holding pid path s) :
    (knowing dir).Safe pid (fun _ t => Holding pid path t)
      (.each (fun data => .perform (.write data)) chunks) s := by
  induction chunks generalizing s with
  | nil => exact h
  | cons data chunks ih =>
    rw [Prog.each_cons]
    refine knowing_perform fun t hm _ => ⟨trivial,?_⟩
    intro u b hx
    obtain ⟨rfl,-⟩ := Prod.mk.inj (Option.some.inj hx)
    exact ih ((h.rely hm).write data)

theorem discard_safe {α : Type} {path : Text} {a : α} (h : Holding pid path s) :
    (knowing dir).Safe pid (fun _ _ => True)
      (.perform (.remove path) >>= fun _ => .ret a : ArchiveProg α) s :=
  knowing_perform fun _ hm _ => ⟨h.rely hm,fun _ _ _ => trivial⟩

theorem takeSnapshot_safe (projectId : Int) (kind : BackupKind) (archive : Text) (m : Machine) :
    (knowing dir).Safe pid (fun _ _ => True) (takeSnapshot projectId kind archive m) s := by
  refine knowing_perform fun t _ _ => ⟨trivial,fun u b hx => ?_⟩
  obtain ⟨rfl,rfl⟩ := Prod.mk.inj (Option.some.inj hx)
  cases hc : m.created with
  | false => exact trivial
  | true =>
    refine Discipline.Safe.bind trivial (writes_safe m.chunks (holding_create archive)) ?_
    intro _ w _ hh
    split
    · exact discard_safe hh
    · refine knowing_perform fun x hm _ => ⟨hh.rely hm,fun y b hx => ?_⟩
      cases b with
      | some id => exact trivial
      | none =>
        simp only [exec] at hx
        split at hx
        · cases hx
        · obtain ⟨rfl,-⟩ := Prod.mk.inj (Option.some.inj hx)
          exact discard_safe (hh.rely hm)

theorem fail_safe {α : Type} {a : α} (projectId : Int) (stored : Bool) :
    (knowing dir).Safe pid (fun _ _ => True)
      (.perform (.insert projectId .snapshot [] .failed stored) >>= fun _ => .ret a :
        ArchiveProg α) s :=
  knowing_perform fun _ _ _ => ⟨rfl,fun _ _ _ => trivial⟩

theorem delete_safe (id : Nat) (stored : Bool) :
    (knowing dir).Safe pid (fun _ _ => True) (delete id stored) s := by
  refine knowing_perform fun t _ _ => ⟨trivial,fun u b hx => ?_⟩
  obtain ⟨rfl,rfl⟩ := Prod.mk.inj (Option.some.inj hx)
  cases hf : t.rows.find? fun r => r.id = id with
  | none => exact trivial
  | some r =>
    have hid : r.id = id := by simpa using List.find?_some hf
    refine knowing_perform fun w _ hgrown => ⟨?_,fun _ _ _ => ?_⟩
    · obtain ⟨r',hr',hid',hpath⟩ := hgrown r (List.mem_of_find?_eq_some hf)
      exact ⟨r',hr',hid'.trans hid,hpath⟩
    · exact knowing_perform fun _ _ _ => ⟨trivial,fun _ _ _ => trivial⟩

theorem handlers_sound (pid : Nat) (r : BackupRequest) :
    (knowing dir).Sound pid ((backups dir).handle r) := by
  intro s hs
  cases r with
  | runBackup projectId name deployPath m =>
    show (knowing dir).Safe pid _ (runBackup dir projectId name deployPath m) s
    unfold runBackup
    split
    · exact fail_safe projectId m.failureRecorded
    · refine Discipline.Safe.bind hs (takeSnapshot_safe projectId .snapshot _ m) ?_
      intro recorded t _ _
      split
      · exact trivial
      · exact fail_safe projectId m.failureRecorded
  | snapshotLive projectId name m =>
    show (knowing dir).Safe pid _ (snapshotLive dir projectId name m) s
    unfold snapshotLive
    split
    · exact trivial
    · exact Discipline.Safe.bind hs (takeSnapshot_safe projectId .preRestore _ m) fun _ _ _ _ => trivial
  | delete id stored => exact delete_safe id stored

theorem exec_marked {β : Type} {i : ArchiveCall β} {b : β} (hkept : s.Kept) (hs : s.Marked)
    (hk : Knows pid s i) (hr : Retired pid s i) (h : exec pid i s = some (t,b)) : t.Marked := by
  cases i with
  | create path allowed =>
    obtain ⟨rfl,-⟩ := Prod.mk.inj (Option.some.inj h)
    split
    · exact hs
    · exact hs
  | write data =>
    obtain ⟨rfl,-⟩ := Prod.mk.inj (Option.some.inj h)
    unfold write
    split
    · exact hs
    · exact hs
  | remove path =>
    obtain ⟨rfl,-⟩ := Prod.mk.inj (Option.some.inj h)
    exact hs
  | insert projectId kind path status stored =>
    simp only [exec] at h
    split at h
    · obtain ⟨rfl,-⟩ := Prod.mk.inj (Option.some.inj h)
      refine ⟨fun id hid => Nat.lt_succ_of_lt (hs.1 id hid),fun r hr hst hid => ?_⟩
      rcases List.mem_append.mp hr with hr | hr
      · exact hs.2 r hr hst hid
      · obtain rfl := List.mem_singleton.mp hr
        exact (hs.1 _ hid).false
    · obtain ⟨rfl,-⟩ := Prod.mk.inj (Option.some.inj h)
      exact hs
  | select id =>
    obtain ⟨rfl,-⟩ := Prod.mk.inj (Option.some.inj h)
    exact hs
  | reclaim id path =>
    obtain ⟨rfl,-⟩ := Prod.mk.inj (Option.some.inj h)
    refine ⟨fun id' hid => ?_,fun r hmem hst hid => ?_⟩
    · rcases List.mem_cons.mp hid with rfl | hid
      · obtain ⟨r,hmem,rfl,-⟩ := hk
        exact hkept.issued r hmem
      · exact hs.1 id' hid
    · rcases List.mem_cons.mp hid with he | hid
      · exact hr r hmem he hst
      · exact hs.2 r hmem hst hid
  | markDeleted id stored =>
    obtain ⟨rfl,-⟩ := Prod.mk.inj (Option.some.inj h)
    split
    · exact ⟨hs.1,fun r hr hst => hs.2 r (markDeleted_row hr hst) hst⟩
    · exact hs

def HasArchive (s : Archives) (r : BackupRow) : Prop :=
  ∃ f, s.names r.path = some f ∧ s.content f = r.wrote

structure Intact (s : Archives) (P : BackupRow → Prop) : Prop where
  archived : ∀ r ∈ s.rows, P r → s.HasArchive r
  apart : ∀ r ∈ s.rows, ∀ q ∈ s.rows, P r → P q → r.path = q.path → r = q

theorem Kept.intact (hs : s.Kept) : s.Intact s.Live := by
  refine ⟨fun r hr hl => hs.owned _ _ _ (.row hr hl),fun r hr q hq hlr hlq he => ?_⟩
  have hown : s.Owns (.inr q.id) r.path q.wrote := he ▸ Owns.row hq hlq
  have hid := hs.apart _ _ _ _ _ (.row hr hlr) hown
  exact List.inj_on_of_nodup_map hs.keyed hr hq (Sum.inr.inj hid)

theorem Marked.intact (hm : s.Marked) (hs : s.Intact s.Live) :
    s.Intact fun r => r.status = .success :=
  ⟨fun r hr hst => hs.archived r hr ⟨hst,hm.2 r hr hst⟩,fun r hr q hq hst hst' =>
    hs.apart r hr q hq ⟨hst,hm.2 r hr hst⟩ ⟨hst',hm.2 q hq hst'⟩⟩

section Runs

variable {es : List (Event (backups dir))} {v : World (backups dir)}

theorem allowed (w : World (backups dir)) (e : Event (backups dir)) :
    Landing (knowing dir).Allow w e := by
  cases e with
  | act pid => exact fun _ _ _ _ _ _ _ => trivial
  | start pid r => trivial
  | env e => trivial

theorem along_knows (s : Archives) (es : List (Event (backups dir))) :
    Along (Landing Knows) (World.idle s : World (backups dir)) es :=
  Discipline.along_duty (D := knowing dir) handlers_sound (fun e => Empty.elim e)
    (Discipline.held_idle trivial) (along_of_mem (fun e _ w => allowed w e) _)

theorem kept_run (hs : s.Kept)
    (hc : Along (Landing Spares) (World.idle s : World (backups dir)) es)
    (hv : (World.idle s).run es = some v) : Archives.Kept v.state :=
  landed (fun _ _ _ _ _ _ ht hp hx => exec_kept ht hp.1 hp.2 hx) (fun e => Empty.elim e) hs
    (along_imp (fun _ _ => landing_and) (along_and hc (along_knows s es))) hv

theorem marked_run (hs : s.Kept) (hm : s.Marked)
    (hc : Along (Landing Spares) (World.idle s : World (backups dir)) es)
    (hr : Along (Landing Retired) (World.idle s : World (backups dir)) es)
    (hv : (World.idle s).run es = some v) : Archives.Marked v.state := by
  have hall : Along (Landing fun pid s {_} i => (Spares pid s i ∧ Knows pid s i) ∧ Retired pid s i)
      (World.idle s : World (backups dir)) es :=
    along_imp (fun _ _ h => landing_and ⟨landing_and h.1,h.2⟩)
      (along_and (along_and hc (along_knows s es)) hr)
  refine (landed (I := fun t => Archives.Kept t ∧ Archives.Marked t)
    (fun _ _ _ _ _ _ ht hp hx => ⟨exec_kept ht.1 hp.1.1 hp.1.2 hx,
      exec_marked ht.1 ht.2 hp.1.2 hp.2 hx⟩) (fun e => Empty.elim e) ⟨hs,hm⟩ hall hv).2

end Runs

end Archives

end Backups
