import ServerHub.Backups.Archives

namespace Backups

open Posix Interleave Interleave.Prog

def Machine.opens (m : Machine) : Bool := m.live && m.dirMade && m.created

-- the archive that an operation makes, after its project's name and its reading of the clock
def BackupRequest.archive (dir : Text) : BackupRequest → Option Text
  | .runBackup _ name deployPath m =>
      if deployPath ≠ [] ∧ m.opens then some (archivePath dir name .snapshot m.now) else none
  | .snapshotLive _ name m => if m.opens then some (archivePath dir name .preRestore m.now) else none
  | .delete _ _ => none

namespace Archives

-- no two snapshots of the run make one name, nor one that a row has already
structure Apart (dir : Text) (s : Archives) (es : List (Event (backups dir))) : Prop where
  requests : ∀ p q r r' a, .start p r ∈ es → .start q r' ∈ es → r.archive dir = some a →
    r'.archive dir = some a → p = q
  recorded : ∀ p r a, .start p r ∈ es → r.archive dir = some a → ∀ row ∈ s.rows, row.path ≠ a

-- no snapshot is under way, and a live row shares its archive with no other
structure Settled (s : Archives) : Prop where
  kept : s.Kept
  idle : ∀ pid, s.making pid = none
  named : ∀ r ∈ s.rows, s.Live r → r.path ≠ []
  alone : ∀ r ∈ s.rows, ∀ q ∈ s.rows, s.Live r → q.path = r.path → q = r

def Tame : {β : Type} → ArchiveCall β → Prop
  | _, .create _ allowed => allowed = false
  | _, _ => True

section Programs

variable {dir : Text}

theorem archive_ne_nil {r : BackupRequest} {a : Text} (h : r.archive dir = some a) : a ≠ [] := by
  have hpath : ∀ name kind now, archivePath dir name kind now ≠ [] := by
    intro name kind now
    unfold archivePath joinPath
    have hfile : sanitize name ++ kind.between ++ now.stamp ++ ".tar.gz".toList ≠ [] := by
      simp
    split
    · exact clean_ne_nil _
    · exact clean_ne_nil _
  cases r with
  | runBackup projectId name deployPath m =>
    obtain ⟨-,rfl⟩ := Option.ite_none_right_eq_some.mp h |>.imp id Option.some.inj
    exact hpath _ _ _
  | snapshotLive projectId name m =>
    obtain ⟨-,rfl⟩ := Option.ite_none_right_eq_some.mp h |>.imp id Option.some.inj
    exact hpath _ _ _
  | delete id stored => cases h

theorem takeSnapshot_opens (projectId : Int) (kind : BackupKind) (archive : Text) (m : Machine) :
    ∃ k, takeSnapshot projectId kind archive m = .step (.create archive m.created) k ∧
      ∀ b, (k b).Uses Tame := by
  refine ⟨_,rfl,fun b => ?_⟩
  cases b with
  | false => trivial
  | true =>
    refine uses_bind (p := each (fun data => perform (ArchiveCall.write data)) m.chunks)
      (uses_each fun _ _ => uses_perform trivial) fun _ => ?_
    split
    · exact ⟨trivial,fun _ => trivial⟩
    · refine ⟨trivial,fun recorded => ?_⟩
      cases recorded with
      | none => exact ⟨trivial,fun _ => trivial⟩
      | some id => trivial

theorem handle_opens (dir : Text) (r : BackupRequest) : ((backups dir).handle r).Uses Tame ∨
    ∃ path k, (backups dir).handle r = .step (.create path true) k ∧ r.archive dir = some path ∧
      ∀ b, (k b).Uses Tame := by
  have hfail : ∀ projectId stored, (perform (.insert projectId .snapshot [] .failed stored) >>=
      fun _ => (.ret () : ArchiveProg Unit)).Uses Tame := fun _ _ => ⟨trivial,fun _ => trivial⟩
  cases r with
  | runBackup projectId name deployPath m =>
    show (runBackup dir projectId name deployPath m).Uses Tame ∨ ∃ path k,
      runBackup dir projectId name deployPath m = .step (.create path true) k ∧ _
    unfold runBackup
    split
    · exact .inl (hfail projectId m.failureRecorded)
    · rename_i hguard
      obtain ⟨k,hk,htame⟩ := takeSnapshot_opens projectId .snapshot (archivePath dir name .snapshot m.now) m
      have hrest : ∀ b, (k b >>= fun recorded => if recorded then (.ret () : ArchiveProg Unit)
          else perform (.insert projectId .snapshot [] .failed m.failureRecorded) >>= fun _ => .ret ()).Uses
            Tame := by
        refine fun b => uses_bind (htame b) fun recorded => ?_
        split
        · trivial
        · exact hfail projectId m.failureRecorded
      rw [hk]
      cases hc : m.created with
      | false => exact .inl ⟨rfl,hrest⟩
      | true =>
        refine .inr ⟨_,_,rfl,if_pos ?_,hrest⟩
        simpa [Machine.opens,hc] using hguard
  | snapshotLive projectId name m =>
    show (snapshotLive dir projectId name m).Uses Tame ∨ ∃ path k,
      snapshotLive dir projectId name m = .step (.create path true) k ∧ _
    unfold snapshotLive
    split
    · exact .inl trivial
    · rename_i hguard
      obtain ⟨k,hk,htame⟩ :=
        takeSnapshot_opens projectId .preRestore (archivePath dir name .preRestore m.now) m
      have hrest : ∀ b, (k b >>= fun _ => (.ret () : ArchiveProg Unit)).Uses Tame :=
        fun b => uses_bind (htame b) fun _ => trivial
      rw [hk]
      cases hc : m.created with
      | false => exact .inl ⟨rfl,hrest⟩
      | true =>
        refine .inr ⟨_,_,rfl,if_pos ?_,hrest⟩
        simpa [Machine.opens,hc] using hguard
  | delete id stored =>
    refine .inl ⟨trivial,fun path => ?_⟩
    cases path with
    | none => trivial
    | some path => exact ⟨trivial,fun _ => ⟨trivial,fun _ => trivial⟩⟩

end Programs

-- where a row is from: from before the run, or from the operation that its maker is
structure Placed (dir : Text) (s : Archives) (es : List (Event (backups dir))) (maker : Nat → Option Nat)
    (w : World (backups dir)) : Prop where
  rows : ∀ r ∈ w.state.rows, r.path = [] ∨
    (∃ q ∈ s.rows, q.id = r.id ∧ q.path = r.path ∧ (Live w.state r → s.Live q)) ∨
    ∃ p req, maker r.id = some p ∧ .start p req ∈ es ∧ req.archive dir = some r.path
  once : ∀ r ∈ w.state.rows, ∀ q ∈ w.state.rows, ∀ p, maker r.id = some p → maker q.id = some p →
    r.id = q.id
  named : ∀ r ∈ w.state.rows, Live w.state r → r.path ≠ []
  making : ∀ p m, w.state.making p = some m → (∃ req, .start p req ∈ es ∧ req.archive dir = some m.path) ∧
    ∀ r ∈ w.state.rows, maker r.id ≠ some p
  issued : ∀ r ∈ w.state.rows, r.id < w.state.nextId
  fresh : ∀ id, w.state.nextId ≤ id → maker id = none
  pool : ∀ p prog, w.pool p = some prog → prog.Uses Tame ∨
    (∃ req, .start p req ∈ es ∧ prog = (backups dir).handle req) ∧ w.state.making p = none ∧
      ∀ r ∈ w.state.rows, maker r.id ≠ some p
  unstarted : ∀ p, w.pool p = none → w.state.making p = none ∧ ∀ r ∈ w.state.rows, maker r.id ≠ some p

section Placed

variable {dir : Text} {s t : Archives} {es : List (Event (backups dir))} {maker : Nat → Option Nat}
  {w v : World (backups dir)} {pid : Nat} {path : Text}

theorem placed_idle (hs : s.Settled) : Placed dir s es (fun _ => none) (World.idle s) where
  rows r hr := .inr (.inl ⟨r,hr,rfl,rfl,id⟩)
  once _ _ _ _ _ h := by cases h
  named r hr hl := hs.named r hr hl
  making p m h := by
    have hnone := hs.idle p
    exact absurd (hnone.symm.trans h) (by simp)
  issued := hs.kept.issued
  fresh _ _ := rfl
  pool _ _ h := by cases h
  unstarted p _ := ⟨hs.idle p,fun _ _ => by simp⟩

theorem Placed.start (h : Placed dir s es maker w) {r : BackupRequest} (hr : .start pid r ∈ es)
    (hstep : w.step (.start pid r) = some v) : Placed dir s es maker v := by
  obtain ⟨hnone,hstate,hpool⟩ := step_start hstep
  refine ⟨hstate ▸ h.rows,hstate ▸ h.once,hstate ▸ h.named,hstate ▸ h.making,hstate ▸ h.issued,
    hstate ▸ h.fresh,?_,?_⟩
  · intro p prog hp
    rw [hstate]
    rw [hpool] at hp
    by_cases he : p = pid
    · subst he
      rw [Function.update_self,Option.some.injEq] at hp
      obtain ⟨hm,hrows⟩ := h.unstarted p hnone
      exact .inr ⟨⟨r,hr,hp.symm⟩,hm,hrows⟩
    · rw [Function.update_of_ne he] at hp
      exact h.pool p prog hp
  · intro p hp
    rw [hstate]
    rw [hpool] at hp
    by_cases he : p = pid
    · subst he
      simp at hp
    · rw [Function.update_of_ne he] at hp
      exact h.unstarted p hp

theorem Placed.pooled (h : Placed dir s es maker w) {prog : ArchiveProg Unit}
    (hprog : prog.Uses Tame) {maker' : Nat → Option Nat}
    (hidle : ∀ p, p ≠ pid → w.state.making p = none → t.making p = none)
    (hmade : ∀ p, p ≠ pid → (∀ r ∈ w.state.rows, maker r.id ≠ some p) →
      ∀ r ∈ t.rows, maker' r.id ≠ some p) :
    (∀ p prog', Function.update w.pool pid (some prog) p = some prog' → prog'.Uses Tame ∨
      (∃ req, .start p req ∈ es ∧ prog' = (backups dir).handle req) ∧ t.making p = none ∧
        ∀ r ∈ t.rows, maker' r.id ≠ some p) ∧
    ∀ p, Function.update w.pool pid (some prog) p = none →
      t.making p = none ∧ ∀ r ∈ t.rows, maker' r.id ≠ some p := by
  constructor
  · intro p prog' hp
    by_cases he : p = pid
    · subst he
      rw [Function.update_self] at hp
      exact .inl (Option.some.inj hp ▸ hprog)
    · rw [Function.update_of_ne he] at hp
      exact (h.pool p prog' hp).imp id fun ⟨hreq,hm,hnone⟩ => ⟨hreq,hidle p he hm,hmade p he hnone⟩
  · intro p hp
    by_cases he : p = pid
    · subst he
      simp at hp
    · rw [Function.update_of_ne he] at hp
      exact (h.unstarted p hp).imp (hidle p he) (hmade p he)

theorem Placed.keep (h : Placed dir s es maker w) {prog : ArchiveProg Unit} (hprog : prog.Uses Tame)
    (hrows : ∀ r ∈ t.rows, ∃ q ∈ w.state.rows, q.id = r.id ∧ q.path = r.path ∧
      (t.Live r → Live w.state q))
    (hmaking : ∀ p m, t.making p = some m → ∃ m', w.state.making p = some m' ∧ m'.path = m.path)
    (hnext : t.nextId = w.state.nextId) :
    Placed dir s es maker ⟨t,Function.update w.pool pid (some prog)⟩ := by
  have hidle : ∀ p, w.state.making p = none → t.making p = none := by
    intro p hp
    cases hm : t.making p with
    | none => rfl
    | some m =>
      obtain ⟨m',hm',-⟩ := hmaking p m hm
      rw [hp] at hm'
      cases hm'
  have hmade : ∀ p, (∀ r ∈ w.state.rows, maker r.id ≠ some p) → ∀ r ∈ t.rows, maker r.id ≠ some p := by
    intro p hp r hr
    obtain ⟨q,hq,hid,-⟩ := hrows r hr
    exact hid ▸ hp q hq
  obtain ⟨hpool,hunstarted⟩ := h.pooled hprog (fun p _ => hidle p) (fun p _ => hmade p)
  refine ⟨?_,?_,?_,?_,?_,fun id hid => h.fresh id (hnext ▸ hid),hpool,hunstarted⟩
  · intro r hr
    obtain ⟨q,hq,hid,hpath,hlive⟩ := hrows r hr
    rw [← hid,← hpath]
    rcases h.rows q hq with hnil | ⟨q₀,hq₀,hid₀,hpath₀,hlive₀⟩ | hmade
    · exact .inl hnil
    · exact .inr (.inl ⟨q₀,hq₀,hid₀,hpath₀,fun hl => hlive₀ (hlive hl)⟩)
    · exact .inr (.inr hmade)
  · intro r hr r' hr' p hp hp'
    obtain ⟨q,hq,hid,-⟩ := hrows r hr
    obtain ⟨q',hq',hid',-⟩ := hrows r' hr'
    rw [← hid,← hid']
    exact h.once q hq q' hq' p (hid ▸ hp) (hid' ▸ hp')
  · intro r hr hl
    obtain ⟨q,hq,-,hpath,hlive⟩ := hrows r hr
    exact hpath ▸ h.named q hq (hlive hl)
  · intro p m hm
    obtain ⟨m',hm',hpath⟩ := hmaking p m hm
    obtain ⟨hreq,hnone⟩ := h.making p m' hm'
    exact ⟨hpath ▸ hreq,hmade p hnone⟩
  · intro r hr
    obtain ⟨q,hq,hid,-⟩ := hrows r hr
    exact hid ▸ hnext ▸ h.issued q hq

theorem Placed.create (h : Placed dir s es maker w) {prog : ArchiveProg Unit} (hprog : prog.Uses Tame)
    {req : BackupRequest} (hreq : .start pid req ∈ es) (hpath : req.archive dir = some path)
    (hnone : ∀ r ∈ w.state.rows, maker r.id ≠ some pid) :
    Placed dir s es maker
      ⟨Archives.create w.state pid path,Function.update w.pool pid (some prog)⟩ := by
  have hother : ∀ p, p ≠ pid → (Archives.create w.state pid path).making p = w.state.making p :=
    fun p hp => Function.update_of_ne hp ..
  obtain ⟨hpool,hunstarted⟩ := h.pooled hprog (fun p he hm => (hother p he).trans hm) (fun _ _ => id)
  refine ⟨h.rows,h.once,h.named,fun p m hm => ?_,h.issued,h.fresh,hpool,hunstarted⟩
  by_cases he : p = pid
  · subst he
    have hself : some m = some (⟨path,_,[]⟩ : Making) := hm.symm.trans (Function.update_self ..)
    obtain rfl := Option.some.inj hself
    exact ⟨⟨req,hreq,hpath⟩,hnone⟩
  · exact h.making p m ((hother p he).symm.trans hm)

theorem Placed.insert (h : Placed dir s es maker w) {prog : ArchiveProg Unit} (hprog : prog.Uses Tame)
    {projectId : Int} {kind : BackupKind} {status : BackupStatus} {o : Option Nat}
    (ho : o = none ∧ status ≠ .success ∧ path = [] ∨ o = some pid ∧ Holding pid path w.state) :
    Placed dir s es (Function.update maker w.state.nextId o)
      ⟨Archives.insert w.state pid projectId kind path status,
        Function.update w.pool pid (some prog)⟩ := by
  obtain ⟨new,hid,hnewpath,hstatus,hmem⟩ : ∃ new : BackupRow, new.id = w.state.nextId ∧
      new.path = path ∧ new.status = status ∧
      ∀ {r}, r ∈ (Archives.insert w.state pid projectId kind path status).rows →
        r ∈ w.state.rows ∨ r = new :=
    ⟨_,rfl,rfl,rfl,fun hr => (List.mem_append.mp hr).imp id List.mem_singleton.mp⟩
  have hold : ∀ {r}, r ∈ w.state.rows → Function.update maker w.state.nextId o r.id = maker r.id :=
    fun hr => Function.update_of_ne (h.issued _ hr).ne ..
  have hnew : Function.update maker w.state.nextId o new.id = o := by
    rw [hid,Function.update_self]
  have hself : ∀ {p}, o = some p → p = pid ∧ Holding pid path w.state := by
    intro p hp
    rcases ho with ⟨rfl,-⟩ | ⟨rfl,hm⟩
    · cases hp
    · exact ⟨(Option.some.inj hp).symm,hm⟩
  have hnone : ∀ {p}, o = some p → ∀ r ∈ w.state.rows, maker r.id ≠ some p := by
    intro p hp
    obtain ⟨rfl,m,hm,-⟩ := hself hp
    exact (h.making p m hm).2
  have hother : ∀ p, p ≠ pid → (∀ r ∈ w.state.rows, maker r.id ≠ some p) →
      ∀ r ∈ (Archives.insert w.state pid projectId kind path status).rows,
        Function.update maker w.state.nextId o r.id ≠ some p := by
    intro p hp hrows r hr
    rcases hmem hr with hr | rfl
    · exact hold hr ▸ hrows r hr
    · rw [hnew]
      exact fun he => hp (hself he).1
  have hmaking : ∀ p, p ≠ pid →
      (Archives.insert w.state pid projectId kind path status).making p = w.state.making p :=
    fun p hp => Function.update_of_ne hp ..
  obtain ⟨hpool,hunstarted⟩ := h.pooled hprog (fun p he hm => (hmaking p he).trans hm) hother
  refine ⟨?_,?_,?_,?_,?_,?_,hpool,hunstarted⟩
  · intro r hr
    rcases hmem hr with hr | rfl
    · rw [hold hr]
      exact h.rows r hr
    · rcases ho with ⟨-,-,hnil⟩ | ⟨rfl,m,hm,rfl⟩
      · exact .inl (hnewpath.trans hnil)
      · obtain ⟨⟨req,hreq,hpath⟩,-⟩ := h.making pid m hm
        exact .inr (.inr ⟨pid,req,hnew,hreq,hnewpath ▸ hpath⟩)
  · intro r hr q hq p hrp hqp
    rcases hmem hr with hr | rfl
    · rw [hold hr] at hrp
      rcases hmem hq with hq | rfl
      · rw [hold hq] at hqp
        exact h.once r hr q hq p hrp hqp
      · exact absurd hrp (hnone (hnew.symm.trans hqp) r hr)
    · rcases hmem hq with hq | rfl
      · rw [hold hq] at hqp
        exact absurd hqp (hnone (hnew.symm.trans hrp) q hq)
      · rfl
  · intro r hr hl
    rcases hmem hr with hr | rfl
    · exact h.named r hr hl
    · rcases ho with ⟨-,hst,-⟩ | ⟨-,m,hm,rfl⟩
      · exact absurd (hstatus.symm.trans hl.1) hst
      · obtain ⟨⟨req,-,hpath⟩,-⟩ := h.making pid m hm
        exact hnewpath ▸ archive_ne_nil hpath
  · intro p m hm
    by_cases he : p = pid
    · subst he
      have hcleared : (Archives.insert w.state p projectId kind path status).making p = none :=
        Function.update_self ..
      exact absurd (hcleared.symm.trans hm) (by simp)
    · obtain ⟨hreq,hrows⟩ := h.making p m ((hmaking p he).symm.trans hm)
      exact ⟨hreq,hother p he hrows⟩
  · intro r hr
    rcases hmem hr with hr | rfl
    · exact Nat.lt_succ_of_lt (h.issued r hr)
    · exact hid ▸ Nat.lt_succ_self _
  · intro id hid
    have hlt : w.state.nextId < id := hid
    rw [Function.update_of_ne hlt.ne']
    exact h.fresh id hlt.le

theorem write_making {data : Bytes} {p : Nat} {m : Making} (h : (t.write pid data).making p = some m) :
    ∃ m', t.making p = some m' ∧ m'.path = m.path := by
  unfold write at h
  split at h
  · exact ⟨m,h,rfl⟩
  rename_i m₀ hm₀
  rcases making_cases h with ⟨rfl,hm⟩ | ⟨-,hm⟩
  · obtain rfl := Option.some.inj hm
    exact ⟨m₀,hm₀,rfl⟩
  · exact ⟨m,hm,rfl⟩

theorem markDeleted_old {id : Nat} {r : BackupRow} (h : r ∈ (t.markDeleted id).rows) :
    ∃ q ∈ t.rows, q.id = r.id ∧ q.path = r.path ∧ ((t.markDeleted id).Live r → t.Live q) := by
  obtain ⟨q,hq,rfl⟩ := List.mem_map.mp h
  split
  · exact ⟨q,hq,rfl,rfl,fun hl => absurd hl.1 (by simp)⟩
  · exact ⟨q,hq,rfl,rfl,fun hl => hl⟩

theorem Placed.tame (h : Placed dir s es maker w) {β : Type} {i : ArchiveCall β} {b : β}
    {prog : ArchiveProg Unit} (hi : Tame i) (hprog : prog.Uses Tame)
    (hk : Knows pid w.state i) (hx : exec pid i w.state = some (t,b)) :
    ∃ maker', Placed dir s es maker' ⟨t,Function.update w.pool pid (some prog)⟩ := by
  have hsame : ∀ r ∈ w.state.rows, ∃ q ∈ w.state.rows, q.id = r.id ∧ q.path = r.path ∧
      (Live w.state r → Live w.state q) := fun r hr => ⟨r,hr,rfl,rfl,id⟩
  cases i with
  | create path allowed =>
    obtain rfl : allowed = false := hi
    obtain ⟨rfl,-⟩ := Prod.mk.inj (Option.some.inj hx)
    exact ⟨maker,h.keep hprog hsame (fun p m hm => ⟨m,hm,rfl⟩) rfl⟩
  | write data =>
    obtain ⟨rfl,-⟩ := Prod.mk.inj (Option.some.inj hx)
    have hrows : (Archives.write w.state pid data).rows = w.state.rows := by
      unfold write
      split <;> rfl
    have hreclaimed : (Archives.write w.state pid data).reclaimed = w.state.reclaimed := by
      unfold write
      split <;> rfl
    have hnext : (Archives.write w.state pid data).nextId = w.state.nextId := by
      unfold write
      split <;> rfl
    refine ⟨maker,h.keep hprog (fun r hr => ⟨r,hrows ▸ hr,rfl,rfl,fun hl => ?_⟩)
      (fun p m hm => write_making hm) hnext⟩
    exact ⟨hl.1,hreclaimed ▸ hl.2⟩
  | remove path =>
    obtain ⟨rfl,-⟩ := Prod.mk.inj (Option.some.inj hx)
    refine ⟨maker,h.keep hprog hsame (fun p m hm => ?_) rfl⟩
    rcases making_cases hm with ⟨-,hm⟩ | ⟨-,hm⟩
    · cases hm
    · exact ⟨m,hm,rfl⟩
  | insert projectId kind path status stored =>
    simp only [exec] at hx
    split at hx
    · obtain ⟨rfl,-⟩ := Prod.mk.inj (Option.some.inj hx)
      by_cases hst : status = .success
      · exact ⟨_,h.insert hprog (.inr ⟨rfl,by simpa [Knows,hst,Holding] using hk⟩)⟩
      · exact ⟨_,h.insert hprog (.inl ⟨rfl,hst,by simpa [Knows,hst] using hk⟩)⟩
    · obtain ⟨rfl,-⟩ := Prod.mk.inj (Option.some.inj hx)
      exact ⟨maker,h.keep hprog hsame (fun p m hm => ⟨m,hm,rfl⟩) rfl⟩
  | select id =>
    obtain ⟨rfl,-⟩ := Prod.mk.inj (Option.some.inj hx)
    exact ⟨maker,h.keep hprog hsame (fun p m hm => ⟨m,hm,rfl⟩) rfl⟩
  | reclaim id path =>
    obtain ⟨rfl,-⟩ := Prod.mk.inj (Option.some.inj hx)
    refine ⟨maker,h.keep hprog (fun r hr => ⟨r,hr,rfl,rfl,fun hl => ?_⟩)
      (fun p m hm => ⟨m,hm,rfl⟩) rfl⟩
    exact ⟨hl.1,fun hin => hl.2 (List.mem_cons_of_mem _ hin)⟩
  | markDeleted id stored =>
    obtain ⟨rfl,-⟩ := Prod.mk.inj (Option.some.inj hx)
    cases stored with
    | false => exact ⟨maker,h.keep hprog hsame (fun p m hm => ⟨m,hm,rfl⟩) rfl⟩
    | true =>
      exact ⟨maker,h.keep hprog (fun r hr => markDeleted_old hr) (fun p m hm => ⟨m,hm,rfl⟩) rfl⟩

theorem Placed.act (h : Placed dir s es maker w) (hk : Landing Knows w (.act pid))
    (hstep : w.step (.act pid) = some v) : ∃ maker', Placed dir s es maker' v := by
  obtain ⟨β,i,k,b,hp,hx,hpool⟩ := step_act hstep
  obtain ⟨t,pool⟩ := v
  obtain rfl : pool = _ := hpool
  have hknows : Knows pid w.state i := hk β i k hp t b hx
  rcases h.pool pid _ hp with htame | ⟨⟨req,hreq,he⟩,-,hrows⟩
  · exact h.tame htame.1 (htame.2 b) hknows hx
  rcases handle_opens dir req with htame | ⟨path,k',hk',hpath,htame⟩
  · rw [← he] at htame
    exact h.tame htame.1 (htame.2 b) hknows hx
  · rw [hk'] at he
    obtain ⟨rfl,hi,hkeq⟩ := Prog.step.inj he
    obtain rfl := eq_of_heq hi
    obtain rfl := eq_of_heq hkeq
    obtain ⟨rfl,rfl⟩ := Prod.mk.inj (Option.some.inj hx)
    exact ⟨maker,h.create (htame true) hreq hpath hrows⟩

theorem placed_step {e : Event (backups dir)} (h : ∃ maker, Placed dir s es maker w)
    (hc : Landing Knows w e ∧ e ∈ es) (hstep : w.step e = some v) :
    ∃ maker', Placed dir s es maker' v := by
  obtain ⟨maker,h⟩ := h
  cases e with
  | start pid r => exact ⟨maker,h.start hc.2 hstep⟩
  | act pid => exact h.act hc.1 hstep
  | env e => exact e.elim

theorem Placed.unrecorded (h : Placed dir s es maker w) (hc : Apart dir s es) {req : BackupRequest}
    (hreq : .start pid req ∈ es) (hpath : req.archive dir = some path)
    (hnone : ∀ r ∈ w.state.rows, maker r.id ≠ some pid) {r : BackupRow} (hr : r ∈ w.state.rows) :
    r.path ≠ path := by
  intro he
  rcases h.rows r hr with hnil | ⟨q,hq,-,hqpath,-⟩ | ⟨p,req',hp,hreq',hpath'⟩
  · exact archive_ne_nil hpath (he.symm.trans hnil)
  · exact hc.recorded _ _ _ hreq hpath q hq (hqpath.trans he)
  · obtain rfl := hc.requests _ _ _ _ _ hreq hreq' hpath (he ▸ hpath')
    exact hnone r hr hp

theorem Placed.alone (h : Placed dir s es maker w) (hs : s.Settled) (hc : Apart dir s es)
    {r q : BackupRow} (hr : r ∈ w.state.rows) (hl : Live w.state r) (hq : q ∈ w.state.rows)
    (he : q.path = r.path) : q.id = r.id := by
  have hne : r.path ≠ [] := h.named r hr hl
  rcases h.rows r hr with hnil | ⟨r₀,hr₀,hrid,hrpath,hrlive⟩ | ⟨p,req,hp,hreq,hpath⟩
  · exact (hne hnil).elim
  · rcases h.rows q hq with hnil | ⟨q₀,hq₀,hqid,hqpath,-⟩ | ⟨p',req',-,hreq',hpath'⟩
    · exact (hne (he.symm.trans hnil)).elim
    · have hsame : q₀.path = r₀.path := hqpath.trans (he.trans hrpath.symm)
      rw [← hqid,← hrid,hs.alone r₀ hr₀ q₀ hq₀ (hrlive hl) hsame]
    · exact (hc.recorded _ _ _ hreq' hpath' r₀ hr₀ (hrpath.trans he.symm)).elim
  · rcases h.rows q hq with hnil | ⟨q₀,hq₀,-,hqpath,-⟩ | ⟨p',req',hp',hreq',hpath'⟩
    · exact (hne (he.symm.trans hnil)).elim
    · exact (hc.recorded _ _ _ hreq hpath q₀ hq₀ (hqpath.trans he)).elim
    · obtain rfl := hc.requests _ _ _ _ _ hreq hreq' hpath (he ▸ hpath')
      exact h.once q hq r hr _ hp' hp

theorem Placed.opening (h : Placed dir s es maker w) {k : Bool → ArchiveProg Unit}
    (hp : w.pool pid = some (.step (.create path true) k)) :
    (∃ req, .start pid req ∈ es ∧ req.archive dir = some path) ∧
      w.state.making pid = none ∧ ∀ r ∈ w.state.rows, maker r.id ≠ some pid := by
  rcases h.pool pid _ hp with htame | ⟨⟨req,hreq,he⟩,hm,hrows⟩
  · exact absurd htame.1 (by simp [Tame])
  rcases handle_opens dir req with htame | ⟨path',k',hk',hpath,-⟩
  · rw [← he] at htame
    exact absurd htame.1 (by simp [Tame])
  · rw [hk'] at he
    obtain ⟨-,hi,-⟩ := Prog.step.inj he
    obtain ⟨rfl,-⟩ := ArchiveCall.create.inj (eq_of_heq hi)
    exact ⟨⟨req,hreq,hpath⟩,hm,hrows⟩

theorem Placed.spares (h : Placed dir s es maker w) (hs : s.Settled) (hc : Apart dir s es)
    {e : Event (backups dir)} (hk : Landing Knows w e) : Landing Spares w e := by
  cases e with
  | start pid r => trivial
  | env e => exact e.elim
  | act pid =>
    intro β i k hp t b hx
    have hknows : Knows pid w.state i := hk β i k hp t b hx
    cases i with
    | create path allowed =>
      rintro rfl o c hown
      obtain ⟨⟨req,hreq,hpath⟩,hm,hrows⟩ := h.opening hp
      cases hown with
      | @making q m hq =>
        obtain ⟨⟨req',hreq',hpath'⟩,-⟩ := h.making q m hq
        obtain rfl := hc.requests _ _ _ _ _ hreq hreq' hpath hpath'
        exact absurd (hm.symm.trans hq) (by simp)
      | row hr hl => exact h.unrecorded hc hreq hpath hrows hr rfl
    | reclaim id path =>
      intro o c hown
      obtain ⟨q,hq,rfl,hqpath⟩ := hknows
      cases hown with
      | @making p m hm =>
        obtain ⟨⟨req,hreq,hpath⟩,hrows⟩ := h.making p m hm
        exact (h.unrecorded hc hreq hpath hrows hq hqpath).elim
      | row hr hl => rw [h.alone hs hc hr hl hq hqpath]
    | _ => trivial

theorem along_spares (hs : s.Settled) (hc : Apart dir s es) :
    Along (Landing Spares) (World.idle s : World (backups dir)) es := by
  refine along_mono (I := fun w => ∃ maker, Placed dir s es maker w) (fun _ _ _ => placed_step) ?_
    ⟨_,placed_idle hs⟩ (along_and (along_knows s es) (along_of_mem (fun e he _ => he) _))
  rintro w e ⟨maker,h⟩ ⟨hk,-⟩
  exact h.spares hs hc hk

theorem archives_intact {v : World (backups dir)} (hs : s.Settled) (hc : Apart dir s es)
    (hv : (World.idle s).run es = some v) :
    v.state.Intact v.state.Live ∧
    (s.Marked → Along (Landing Retired) (World.idle s : World (backups dir)) es →
      v.state.Intact fun r => r.status = .success) := by
  have hspares := along_spares hs hc
  have hlive : v.state.Intact v.state.Live := (kept_run hs.kept hspares hv).intact
  exact ⟨hlive,fun hm hr => (marked_run hs.kept hm hspares hr hv).intact hlive⟩

end Placed

end Archives

def noArchives : Archives where
  rows := []
  nextId := 1
  names _ := none
  content _ := []
  next := 0
  making _ := none
  reclaimed := []

def noon : Clock := ⟨2026,7,1,12,0,0⟩

def snapshotOf (data : Bytes) : Machine where
  live := true
  dirMade := true
  now := noon
  created := true
  chunks := [data]
  written := true
  closed := true
  recorded := true
  failureRecorded := true

theorem noArchives_unowned (o : Nat ⊕ Nat) (p : Text) (b : Bytes) : ¬ noArchives.Owns o p b := by
  intro h
  cases h with
  | making h => cases h
  | row h _ => cases h

theorem kept_noArchives : noArchives.Kept where
  owned o p b h := (noArchives_unowned o p b h).elim
  apart o _ p b _ h := (noArchives_unowned o p b h).elim
  opened _ _ h := by cases h
  named _ _ _ h := by cases h
  used _ _ h := by cases h
  keyed := List.nodup_nil
  issued _ h := by cases h

theorem settled_noArchives : noArchives.Settled where
  kept := kept_noArchives
  idle _ := rfl
  named _ h := by cases h
  alone _ h := by cases h

theorem marked_noArchives : noArchives.Marked :=
  ⟨fun _ h => absurd h List.not_mem_nil,fun _ h => absurd h List.not_mem_nil⟩

abbrev BackupEvents := List (Event (backups "/b".toList))

def made : BackupEvents :=
  [.start 0 (.runBackup 1 "shop".toList "/srv/shop".toList (snapshotOf [7])),
    .start 1 (.runBackup 2 "blog".toList "/srv/blog".toList (snapshotOf [8])),
    .act 0,.act 1,.act 1,.act 0,.act 0,.act 1]

def deleted : BackupEvents := [.start 2 (.delete 1 true),.act 2,.act 2,.act 2]

theorem mem_made {pid : Nat} {r : BackupRequest} (h : .start pid r ∈ made ++ deleted) :
    pid = 0 ∧ r.archive "/b".toList = some "/b/shop-20260701-120000.tar.gz".toList ∨
    pid = 1 ∧ r.archive "/b".toList = some "/b/blog-20260701-120000.tar.gz".toList ∨
    r.archive "/b".toList = none := by
  rcases List.mem_append.mp h with h | h
  · rcases List.mem_cons.mp h with he | h
    · obtain ⟨rfl,rfl⟩ := Event.start.inj he
      exact .inl ⟨rfl,by decide⟩
    · rcases List.mem_cons.mp h with he | h
      · obtain ⟨rfl,rfl⟩ := Event.start.inj he
        exact .inr (.inl ⟨rfl,by decide⟩)
      · simp at h
  · rcases List.mem_cons.mp h with he | h
    · obtain ⟨rfl,rfl⟩ := Event.start.inj he
      exact .inr (.inr rfl)
    · simp at h

theorem deleted_apart : Archives.Apart "/b".toList noArchives (made ++ deleted) where
  requests p q r r' a hp hq hr hr' := by
    rcases mem_made hp with ⟨rfl,he⟩ | ⟨rfl,he⟩ | he
    · rcases mem_made hq with ⟨rfl,he'⟩ | ⟨rfl,he'⟩ | he'
      · rfl
      · rw [he,← hr',he'] at hr
        exact absurd hr (by decide)
      · exact absurd (he'.symm.trans hr') (by simp)
    · rcases mem_made hq with ⟨rfl,he'⟩ | ⟨rfl,he'⟩ | he'
      · rw [he,← hr',he'] at hr
        exact absurd hr (by decide)
      · rfl
      · exact absurd (he'.symm.trans hr') (by simp)
    · exact absurd (he.symm.trans hr) (by simp)
  recorded _ _ _ _ _ _ h := by cases h

theorem made_apart : Archives.Apart "/b".toList noArchives made where
  requests p q r r' a hp hq :=
    deleted_apart.requests p q r r' a (List.mem_append_left _ hp) (List.mem_append_left _ hq)
  recorded _ _ _ _ _ _ h := by cases h

theorem made_retired : Along (Landing Archives.Retired)
    (World.idle noArchives : World (backups "/b".toList)) made := by
  refine along_cons rfl trivial (along_cons rfl trivial ?_)
  refine along_cons rfl (landing_act rfl trivial) (along_cons rfl (landing_act rfl trivial) ?_)
  refine along_cons rfl (landing_act rfl trivial) (along_cons rfl (landing_act rfl trivial) ?_)
  exact along_cons rfl (landing_act rfl trivial) (along_cons rfl (landing_act rfl trivial) trivial)

theorem made_then_deleted :
    (∃ v, (World.idle noArchives).run made = some v ∧
      v.state.Intact fun r => r.status = .success) ∧
    ∃ v, (World.idle noArchives).run (made ++ deleted) = some v ∧
      v.state.Intact v.state.Live :=
  ⟨⟨_,rfl,(Archives.archives_intact settled_noArchives made_apart rfl).2 marked_noArchives
      made_retired⟩,
    _,rfl,(Archives.archives_intact settled_noArchives deleted_apart rfl).1⟩

def twoNames : BackupEvents :=
  [.start 0 (.runBackup 1 "a b".toList "/srv/one".toList (snapshotOf [7])),.act 0,.act 0,.act 0,
    .start 1 (.runBackup 2 "a-b".toList "/srv/two".toList (snapshotOf [8])),.act 1]

theorem archive_truncated : noArchives.Settled ∧ noArchives.Marked ∧
    ∃ v, (World.idle noArchives).run twoNames = some v ∧
      ¬ v.state.Intact fun r => r.status = .success := by
  refine ⟨settled_noArchives,marked_noArchives,_,rfl,fun h => ?_⟩
  obtain ⟨f,hf,hc⟩ := h.archived _ List.mem_cons_self rfl
  have hfile : some 0 = some f := hf
  obtain rfl : 0 = f := Option.some.inj hfile
  cases hc

end Backups
