import ServerHub.Transfer.Assembly

namespace Transfer

open Posix Posix.FileTree Interleave Interleave.Prog Interleave.Ledger

section Condition

-- the SaveChunk that made the chunk has reported success
def Finished (log : ChunkLog) (f : ChunkFile) : Prop :=
  ∃ e ∈ log, e.2 = .opened f.session f.name f.inode ∧ Saved log e.1

def Answered (log : ChunkLog) (f : ChunkFile) : Prop :=
  ∃ e ∈ log, e.2 = .opened f.session f.name f.inode ∧ Done log e.1

-- a FinalizeChunk lists the directory of the upload, and a sweep finds it stale, while no SaveChunk is
-- at work in it, and no SaveChunk makes a chunk while one of these is collecting it
def Undisturbed (u : Name) (_ : Nat) (x : Traced Uploads ChunkNote) : {β : Type} → ChunkOp β → Prop
  | _, .inr (.readDir session) => session = u → x.state.faulty = false →
      ∀ f ∈ x.state.area.files, f.session = u → Finished x.log f
  | _, .inr (.isStale session cutoff) => session = u → x.state.stale session cutoff = true →
      ∀ f ∈ x.state.area.files, f.session = u → Answered x.log f
  | _, .inr (.openExcl session name) => session = u →
      (x.state.opening session name).isOk = true → ¬Busy u x.log
  | _, _ => True

end Condition

structure Coherent (root : Text) (u : Name) (x : Traced Uploads ChunkNote) : Prop where
  payloads : Payloads x.log x.state.area
  reports : Reports x.log
  directed : Directed u x.log x.state.area.files
  copied : Copied u x.log
  outputs : Outputs x.log x.state.disk
  deliveries : Deliveries root u x.log

def wholeness (root : Text) (maxUploadSize : Int) (u : Name) :
    Ledger (chunkedUploads root maxUploadSize) chunkNote where
  Inv := Coherent root u
  Allow := Undisturbed u
  Duty _ _ _ _ := True

section Steps

variable {root : Text} {maxUploadSize : Int} {u : Name} {pid : Nat} {α β : Type}
  {J : List ChunkNote → Prop}

abbrev Traces (root : Text) (maxUploadSize : Int) (u : Name) (pid : Nat) (J : List ChunkNote → Prop)
    (p : ChunkCalls α) (Q : α → List ChunkNote → Prop) : Prop :=
  (wholeness root maxUploadSize u).Tells pid J p Q

def Unnoted : {β : Type} → ChunkOp β → Prop
  | _, .inl (.stat _) => True
  | _, .inr .sessionDirs => True
  | _, .inr .now => True
  | _, .inr (.mkdirAll _) => True
  | _, .inr (.close _) => True
  | _, .inr (.size _ _) => True
  | _, .inr (.leftovers _) => True
  | _, .inr (.resolve _) => True
  | _, .inr .cancelled => True
  | _, _ => False

structure Untouched (s t : Uploads) : Prop where
  files : t.area.files = s.area.files
  bytes : t.area.bytes = s.area.bytes
  next : t.area.next = s.area.next
  disk : t.disk = s.disk

theorem exec_unnoted {i : ChunkOp β} (hi : Unnoted i) {s t : Uploads} {b : β}
    (h : exec root pid i s = some (t,b)) : Untouched s t ∧ chunkNote β i s b = none := by
  rcases i with c | c <;> cases c <;> simp only [Unnoted] at hi
  case inr.mkdirAll session =>
    simp only [exec,execChunk] at h
    split at h
    · obtain ⟨rfl,rfl⟩ := Prod.mk.inj (Option.some.inj h)
      exact ⟨⟨rfl,rfl,rfl,rfl⟩,rfl⟩
    · split at h <;>
      · obtain ⟨rfl,rfl⟩ := Prod.mk.inj (Option.some.inj h)
        exact ⟨⟨rfl,rfl,rfl,rfl⟩,rfl⟩
  all_goals
    obtain ⟨rfl,rfl⟩ := Prod.mk.inj (Option.some.inj h)
    exact ⟨⟨rfl,rfl,rfl,rfl⟩,rfl⟩

theorem Coherent.untouched {x : Traced Uploads ChunkNote} {t : Uploads} (h : Coherent root u x)
    (ht : Untouched x.state t) : Coherent root u ⟨t,x.log⟩ where
  payloads := by
    obtain ⟨hf,hs,ho,hc⟩ := h.payloads
    exact ⟨fun h => ht.next ▸ hf h,hs,ho,fun h => by rw [ht.bytes,hc h]⟩
  reports := h.reports
  directed := by
    show Directed u x.log t.area.files
    rw [ht.files]
    exact h.directed
  copied := h.copied
  outputs := by
    show Outputs x.log t.disk
    rw [ht.disk]
    exact h.outputs
  deliveries := h.deliveries

theorem traces_quiet {i : ChunkOp β} (hi : Unnoted i) :
    Traces root maxUploadSize u pid J (perform i) fun _ => J := by
  refine tells_perform fun x t b hx hJ _ hexec => ?_
  obtain ⟨ht,hnote⟩ := exec_unnoted hi hexec
  rw [hnote]
  exact ⟨trivial,hx.untouched ht,hJ⟩

section Facts

variable {log : ChunkLog} {ns : List ChunkNote} {q : Nat} {f : ChunkFile}

theorem Finished.opener (h : Finished log f) : ∃ p, Opened log f p ∧ Saved log p := by
  obtain ⟨⟨p,n⟩,he,rfl,hs⟩ := h
  exact ⟨p,he,hs⟩

theorem Answered.opener (h : Answered log f) : ∃ p, Opened log f p ∧ Done log p := by
  obtain ⟨⟨p,n⟩,he,rfl,hs⟩ := h
  exact ⟨p,he,hs⟩

theorem not_done (h : ∀ n ∈ notesOf q log, n.isReply = false) : ¬Done log q := by
  rintro hd
  obtain ⟨r,a,hm⟩ := done_iff.mp hd
  cases h _ (mem_notesOf.mpr hm)

end Facts

section Sweeping

def ChunkNote.sweeps : ChunkNote → Bool
  | .stale _ => true
  | .swept _ => true
  | .unlinked _ => true
  | .stuck _ => true
  | _ => false

def ChunkNote.saves : ChunkNote → Bool
  | .opened _ _ _ => true
  | .wrote _ _ => true
  | n => n.sweeps

def Sweeping (ns : List ChunkNote) : Prop := ∀ n ∈ ns, n.sweeps = true

def Reaping (session : Name) (ns : List ChunkNote) : Prop := Sweeping ns ∧ reaping session ns = true

structure Writing (u : Name) (f : ChunkFile) (w : Bytes) (ns : List ChunkNote) : Prop where
  opened : .opened f.session f.name f.inode ∈ ns
  amount : received ns = w
  saves : ∀ n ∈ ns, n.saves = true
  present : f.session = u → .unlinked f ∉ ns

theorem ChunkNote.saves_silent {n : ChunkNote} (h : n.saves = true) : n.isReply = false := by
  cases n <;> first | rfl | cases h

theorem ChunkNote.sweeps_saves {n : ChunkNote} (h : n.sweeps = true) : n.saves = true := by
  cases n <;> first | rfl | cases h

theorem Sweeping.saves {ns : List ChunkNote} (h : Sweeping ns) : ∀ n ∈ ns, n.saves = true :=
  fun n hn => ChunkNote.sweeps_saves (h n hn)

theorem Sweeping.silent {ns : List ChunkNote} (h : Sweeping ns) : ∀ n ∈ ns, n.isReply = false :=
  fun n hn => ChunkNote.saves_silent (h.saves n hn)

theorem received_sweeping {ns : List ChunkNote} (h : Sweeping ns) : received ns = [] := by
  induction ns with
  | nil => rfl
  | cons n ns ih =>
    have hn := h n List.mem_cons_self
    rw [received_other,ih fun m hm => h m (List.mem_cons_of_mem _ hm)]
    rintro i b rfl
    cases hn

theorem Sweeping.cons {ns : List ChunkNote} {n : ChunkNote} (h : Sweeping ns) (hn : n.sweeps = true) :
    Sweeping (n :: ns) := by
  intro m hm
  rcases List.mem_cons.mp hm with rfl | hm
  · exact hn
  · exact h m hm

theorem traces_isStale (session : Name) (cutoff : Int) :
    Traces root maxUploadSize u pid Sweeping (chunk (.isStale session cutoff)) fun b ns =>
      if b = true then Reaping session ns else Sweeping ns := by
  refine tells_perform fun x t b hx hJ hallow hexec => ?_
  obtain ⟨rfl,rfl⟩ := Prod.mk.inj (Option.some.inj hexec)
  cases hs : x.state.stale session cutoff with
  | false => exact ⟨trivial,hx,hJ⟩
  | true =>
    refine ⟨trivial,?_,hJ.cons rfl,by simp [chunkNote,noteChunk,reaping]⟩
    refine ⟨hx.payloads.note rfl rfl (by simp) (by simp),hx.reports.note (by simp) (by simp),?_,
      hx.copied.note (by simp) (by simp) (by simp) (by simp),hx.outputs.note (by simp) (by simp),
      hx.deliveries.note (by simp [ChunkNote.gathers]) (by simp)⟩
    by_cases hu : session = u
    · subst hu
      exact hx.directed.reap fun f hf hfu => (hallow rfl hs f hf hfu).opener
    · exact hx.directed.note (by simp) (by simp) (by simp) (by simpa using hu) rfl nofun

theorem find_mem {a : ChunkArea} {session name : Name} {f : ChunkFile}
    (h : a.find session name = some f) : f ∈ a.files ∧ f.session = session ∧ f.name = name := by
  refine ⟨List.mem_of_find?_eq_some h,?_⟩
  simpa using List.find?_some h

theorem Coherent.unlink {x : Traced Uploads ChunkNote} {f : ChunkFile} (hx : Coherent root u x)
    (hf : f ∈ x.state.area.files)
    (hwhy : f.session = u → Removed x.log pid f ∧
      (Opened x.log f pid ∨ ∃ p, Opened x.log f p ∧ Done x.log p)) :
    Coherent root u ⟨{ x.state with area := x.state.area.without f x.state.clock },
      (pid,.unlinked f) :: x.log⟩ :=
  ⟨hx.payloads.note rfl rfl (by simp) (by simp),hx.reports.note (by simp) (by simp),
    hx.directed.unlink hf hwhy,hx.copied.note (by simp) (by simp) (by simp) (by simp),
    hx.outputs.note (by simp) (by simp),hx.deliveries.note (by simp [ChunkNote.gathers]) (by simp)⟩

theorem Coherent.aside {x : Traced Uploads ChunkNote} {session : Name} {n : ChunkNote}
    (hx : Coherent root u x) (hn : n = .stuck session ∨ n = .swept session) :
    Coherent root u ⟨x.state,(pid,n) :: x.log⟩ := by
  rcases hn with rfl | rfl <;>
    exact ⟨hx.payloads.note rfl rfl (by simp) (by simp),hx.reports.note (by simp) (by simp),
      hx.directed.note (by simp) (by simp) (by simp) (by simp) rfl nofun,
      hx.copied.note (by simp) (by simp) (by simp) (by simp),hx.outputs.note (by simp) (by simp),
      hx.deliveries.note (by simp [ChunkNote.gathers]) (by simp)⟩

theorem traces_unlink {session name : Name} {K : List ChunkNote → Prop}
    (hstuck : ∀ x, Coherent root u x → J (notesOf pid x.log) →
      K (.stuck session :: notesOf pid x.log))
    (hnone : ∀ x, Coherent root u x → J (notesOf pid x.log) → x.state.area.find session name = none →
      K (notesOf pid x.log))
    (h : ∀ x f, Coherent root u x → J (notesOf pid x.log) → f ∈ x.state.area.files →
      f.session = session → f.name = name →
        (f.session = u → Removed x.log pid f ∧
          (Opened x.log f pid ∨ ∃ p, Opened x.log f p ∧ Done x.log p)) ∧
        K (.unlinked f :: notesOf pid x.log)) :
    Traces root maxUploadSize u pid J (chunk (.unlink session name)) fun _ => K := by
  refine tells_perform fun x t b hx hJ _ hexec => ?_
  have hrun : execChunk root pid (.unlink session name) x.state = some (t,b) := hexec
  have hnote : chunkNote Unit (.inr (.unlink session name)) x.state b =
      if x.state.faulty then some (.stuck session)
      else (x.state.area.find session name).map .unlinked := rfl
  rw [hnote]
  cases hfault : x.state.faulty with
  | true =>
    have hstay : x.state.unlinked session name = none := by simp [Uploads.unlinked,hfault]
    simp only [execChunk,hstay] at hrun
    obtain ⟨rfl,-⟩ := Prod.mk.inj (Option.some.inj hrun)
    exact ⟨trivial,hx.aside (.inl rfl),hstuck x hx hJ⟩
  | false =>
    have hfind : x.state.unlinked session name = x.state.area.find session name := by
      simp [Uploads.unlinked,hfault]
    cases hfound : x.state.area.find session name with
    | none =>
      simp only [execChunk,hfind,hfound] at hrun
      obtain ⟨rfl,-⟩ := Prod.mk.inj (Option.some.inj hrun)
      exact ⟨trivial,hx,hnone x hx hJ hfound⟩
    | some f =>
      simp only [execChunk,hfind,hfound] at hrun
      obtain ⟨rfl,-⟩ := Prod.mk.inj (Option.some.inj hrun)
      obtain ⟨hmem,hsession,hname⟩ := find_mem hfound
      obtain ⟨hwhy,hnext⟩ := h x f hx hJ hmem hsession hname
      exact ⟨trivial,hx.unlink hmem hwhy,hnext⟩

theorem traces_rmdir {session : Name} {K : List ChunkNote → Prop}
    (h : ∀ ns, J ns → K (.swept session :: ns)) :
    Traces root maxUploadSize u pid J (chunk (.rmdir session)) fun _ => K := by
  refine tells_perform fun x t b hx hJ _ hexec => ?_
  obtain ⟨rfl,-⟩ := Prod.mk.inj (Option.some.inj hexec)
  refine ⟨trivial,?_,h _ hJ⟩
  have hsame : Untouched x.state { x.state with area := x.state.rmdir session } := by
    unfold Uploads.rmdir
    constructor <;> dsimp only <;> split <;> rfl
  exact (hx.untouched hsame).aside (.inr rfl)

theorem traces_removeSession {session : Name} {K : List ChunkNote → Prop}
    (hu : ∀ name, Traces root maxUploadSize u pid J (chunk (.unlink session name)) fun _ => J)
    (hr : ∀ ns, J ns → K (.swept session :: ns)) :
    Traces root maxUploadSize u pid J (removeSession session) fun _ => K := by
  refine tells_bind (traces_quiet trivial) fun names => ?_
  refine tells_bind ?_ fun _ => traces_rmdir hr
  exact (closed_tells (wholeness root maxUploadSize u) pid J).each fun name _ => hu name

theorem traces_sweep (session name : Name) :
    Traces root maxUploadSize u pid (Reaping session) (chunk (.unlink session name))
      fun _ => Reaping session := by
  refine traces_unlink (fun _ _ h => ⟨h.1.cons rfl,h.2⟩) (fun _ _ h _ => h)
    fun x f hx hJ hf hsession _ => ⟨fun hfu => ?_,?_⟩
  · have hstale : (pid,.stale f.session) ∈ x.log := by
      rw [hsession]
      exact mem_notesOf.mp (reaping_stale hJ.2)
    have hreaping : reaping u (notesOf pid x.log) = true := by
      rw [← hfu,hsession]
      exact hJ.2
    exact ⟨.reaped hstale,.inr (hx.directed.reaped hreaping f hf hfu)⟩
  · exact ⟨hJ.1.cons rfl,hJ.2⟩

theorem traces_sweepStaleChunks :
    Traces root maxUploadSize u pid Sweeping sweepStaleChunks fun _ => Sweeping := by
  refine tells_bind (traces_quiet trivial) fun entries => ?_
  refine tells_bind (traces_quiet trivial) fun t => ?_
  refine (closed_tells (wholeness root maxUploadSize u) pid Sweeping).each fun session _ => ?_
  refine tells_bind (traces_isStale session _) fun b => ?_
  cases b with
  | false => exact tells_ret fun ns h => by simpa using h
  | true =>
    refine tells_mono (J := Reaping session) (fun ns h => by simpa using h) (fun _ _ h => h) ?_
    exact traces_removeSession (traces_sweep session) fun ns h => h.1.cons rfl

end Sweeping

section Saving

theorem opening_ok {s : Uploads} {session name : Name} {a : ChunkArea}
    (h : s.opening session name = .ok a) :
    (∀ g ∈ s.area.files, ¬(g.session = session ∧ g.name = name)) ∧
      a.files = ⟨session,name,s.area.next⟩ :: s.area.files ∧
      a.bytes = Function.update s.area.bytes s.area.next [] ∧ a.next = s.area.next + 1 := by
  unfold Uploads.opening at h
  split at h
  · cases h
  · split at h
    · cases h
    · split at h
      · cases h
      · rename_i hfree
        obtain rfl := Except.ok.inj h
        refine ⟨fun g hg hsame => ?_,rfl,rfl,rfl⟩
        have hnone : s.area.find session name = none := by simpa using hfree
        exact List.find?_eq_none.mp hnone g hg (by simpa using hsame)

theorem traces_openExcl (session name : Name) :
    Traces root maxUploadSize u pid Sweeping (chunk (.openExcl session name)) fun r ns =>
      match r with
      | .ok i => Writing u ⟨session,name,i⟩ [] ns
      | .error _ => Sweeping ns := by
  refine tells_perform fun x t b hx hJ hallow hexec => ?_
  have hrun : execChunk root pid (.openExcl session name) x.state = some (t,b) := hexec
  have hfirst : ∀ f, ¬Opened x.log f pid := by
    intro f hf
    cases hJ _ (mem_notesOf.mpr hf)
  cases hopen : x.state.opening session name with
  | error e =>
    simp only [execChunk,hopen] at hrun
    obtain ⟨rfl,rfl⟩ := Prod.mk.inj (Option.some.inj hrun)
    exact ⟨trivial,hx,hJ⟩
  | ok a =>
    simp only [execChunk,hopen] at hrun
    obtain ⟨rfl,rfl⟩ := Prod.mk.inj (Option.some.inj hrun)
    obtain ⟨hfree,hfiles,hbytes,hnext⟩ := opening_ok hopen
    -- a chunk of the upload that was removed before has an older inode
    have hunseen : session = u → ∀ p, (p,.unlinked ⟨session,name,x.state.area.next⟩) ∉ x.log := by
      intro hu p hp
      rcases (hx.directed.removed hp hu).2 with ho | ⟨_,ho,_⟩ <;> exact (hx.payloads.fresh ho).false
    refine ⟨trivial,⟨?_,hx.reports.note (by simp) (by simp),?_,
      hx.copied.note (by simp) (by simp) (by simp) (by simp),hx.outputs.note (by simp) (by simp),
      hx.deliveries.note (by simp [ChunkNote.gathers]) (by simp)⟩,?_⟩
    · exact hx.payloads.openNew hfirst (received_sweeping hJ) hbytes hnext
    · show Directed u _ a.files
      rw [hfiles]
      refine hx.directed.openNew
        (fun hu => ⟨fun g hg hgu hname => hfree g hg ⟨hgu.trans hu.symm,hname⟩,?_⟩) hunseen
      exact hallow hu (by rw [hopen]; rfl)
    · refine ⟨List.mem_cons_self,?_,?_,?_⟩
      · exact (received_other (by simp) _).trans (received_sweeping hJ)
      · intro n hn
        rcases List.mem_cons.mp hn with rfl | hn
        · rfl
        · exact hJ.saves n hn
      · intro hu hmem
        rcases List.mem_cons.mp hmem with he | hmem
        · cases he
        · exact hunseen hu pid (mem_notesOf.mp hmem)

variable {f : ChunkFile} {w : Bytes}

theorem Writing.silent {ns : List ChunkNote} (h : Writing u f w ns) : ∀ n ∈ ns, n.isReply = false :=
  fun n hn => ChunkNote.saves_silent (h.saves n hn)

theorem traces_write (b : Bytes) :
    Traces root maxUploadSize u pid (Writing u f w) (chunk (.write f.inode b)) fun done ns =>
      Writing u f (if done = true then w ++ b else w) ns := by
  refine tells_perform fun x t done hx hJ _ hexec => ?_
  have hrun : execChunk root pid (.write f.inode b) x.state = some (t,done) := hexec
  simp only [execChunk] at hrun
  split at hrun
  · obtain ⟨rfl,rfl⟩ := Prod.mk.inj (Option.some.inj hrun)
    exact ⟨trivial,hx,hJ⟩
  · obtain ⟨rfl,rfl⟩ := Prod.mk.inj (Option.some.inj hrun)
    have hopened : Opened x.log f pid := mem_notesOf.mp hJ.opened
    have hunsaved : ¬Saved x.log pid := fun hs => not_done hJ.silent hs.done
    refine ⟨trivial,⟨hx.payloads.write hopened rfl,hx.reports.note (fun _ _ _ => hunsaved) (by simp),
      hx.directed.note (by simp) (by simp) (by simp) (by simp) rfl nofun,
      hx.copied.note (by simp) (by simp) (by simp) fun _ _ _ => hunsaved,
      hx.outputs.note (by simp) (by simp),
      hx.deliveries.note (by simp [ChunkNote.gathers]) (by simp)⟩,?_⟩
    refine ⟨List.mem_cons_of_mem _ hJ.opened,?_,?_,fun hu hmem => ?_⟩
    · show received (notesOf pid x.log) ++ b = w ++ b
      rw [hJ.amount]
    · intro n hn
      rcases List.mem_cons.mp hn with rfl | hn
      · rfl
      · exact hJ.saves n hn
    · exact hJ.present hu ((List.mem_cons.mp hmem).resolve_left nofun)

theorem traces_receive (cut : Bool) (left : Nat) (pieces : List Bytes) (written : Nat) :
    Traces root maxUploadSize u pid (Writing u f w) (receive f.inode cut left pieces written)
      fun r ns => written ≤ r.1 ∧ ∃ w', Writing u f w' ns ∧
        (r.2 = false → r.1 < written + left → w' = w ++ pieces.flatten ∧ cut = false) := by
  induction pieces generalizing left written w with
  | nil =>
    cases left with
    | zero => exact tells_ret fun ns h => ⟨le_rfl,w,h,fun _ hlt => absurd hlt (by simp)⟩
    | succ left => exact tells_ret fun ns h => ⟨le_rfl,w,h,fun hc _ => ⟨by simp,hc⟩⟩
  | cons p ps ih =>
    cases left with
    | zero => exact tells_ret fun ns h => ⟨le_rfl,w,h,fun _ hlt => absurd hlt (by simp)⟩
    | succ left =>
      rw [receive]
      split
      · rename_i hempty
        subst hempty
        exact ih (left + 1) written
      · refine tells_bind (traces_write (p.take (left + 1))) fun done => ?_
        cases done with
        | false => exact tells_ret fun ns h => ⟨le_rfl,w,by simpa using h,nofun⟩
        | true =>
          refine tells_mono (fun ns h => by simpa using h) ?_
            (ih (w := w ++ p.take (left + 1)) (left + 1 - (p.take (left + 1)).length)
              (written + (p.take (left + 1)).length))
          rintro r ns ⟨hmore,w',hw,hall⟩
          refine ⟨by omega,w',hw,fun herr hlt => ?_⟩
          have hlength := List.length_take (l := p) (i := left + 1)
          obtain ⟨rfl,hcut⟩ := hall herr (by omega)
          have hwhole : p.take (left + 1) = p := List.take_of_length_le (by omega)
          rw [hwhole]
          exact ⟨by simp,hcut⟩

structure Abandoned (u : Name) (ns : List ChunkNote) : Prop where
  saves : ∀ n ∈ ns, n.saves = true
  unlinked : ∀ f : ChunkFile, .opened f.session f.name f.inode ∈ ns → f.session = u →
    .unlinked f ∈ ns ∨ .stuck u ∈ ns

theorem Sweeping.abandoned {ns : List ChunkNote} (h : Sweeping ns) : Abandoned u ns :=
  ⟨h.saves,fun _ ho _ => nomatch h _ ho⟩

theorem Coherent.standing {x : Traced Uploads ChunkNote} (hx : Coherent root u x)
    (hJ : Writing u f w (notesOf pid x.log)) (hu : f.session = u) : f ∈ x.state.area.files := by
  have hopened : Opened x.log f pid := mem_notesOf.mp hJ.opened
  refine (hx.directed.placed hopened hu).resolve_right ?_
  rintro ⟨p,hp⟩
  rcases (hx.directed.removed hp hu).2 with ho | ⟨p',ho,hdone⟩
  · obtain ⟨rfl,-⟩ := hx.payloads.single ho hopened rfl
    exact hJ.present hu (mem_notesOf.mpr hp)
  · obtain ⟨rfl,-⟩ := hx.payloads.single ho hopened rfl
    exact not_done hJ.silent hdone

theorem Coherent.own_chunk {x : Traced Uploads ChunkNote} {g : ChunkFile} (hx : Coherent root u x)
    (hJ : Writing u f w (notesOf pid x.log)) (hg : g ∈ x.state.area.files)
    (hsession : g.session = f.session) (hname : g.name = f.name) (hu : g.session = u) : g = f :=
  hx.directed.distinct g hg f (hx.standing hJ (hsession ▸ hu)) hu (hsession ▸ hu) hname

theorem traces_giveUp (f : ChunkFile) :
    Traces root maxUploadSize u pid (fun ns => ∃ w, Writing u f w ns)
      (chunk (.unlink f.session f.name)) fun _ => Abandoned u := by
  have hgone {x : Traced Uploads ChunkNote} {w : Bytes} {n : ChunkNote} (hx : Coherent root u x)
      (hJ : Writing u f w (notesOf pid x.log)) (hn : n.saves = true) (hopens : ∀ s m i, n ≠ .opened s m i)
      (hwhy : f.session = u → n = .unlinked f ∨ n = .stuck u) : Abandoned u (n :: notesOf pid x.log) := by
    constructor
    · intro m hm
      rcases List.mem_cons.mp hm with rfl | hm
      · exact hn
      · exact hJ.saves m hm
    · intro g hg hgu
      have hg' : Opened x.log g pid :=
        mem_notesOf.mp ((List.mem_cons.mp hg).resolve_left fun he => hopens _ _ _ he.symm)
      obtain rfl := hx.payloads.once hg' (mem_notesOf.mp hJ.opened)
      rcases hwhy hgu with rfl | rfl
      · exact .inl List.mem_cons_self
      · exact .inr List.mem_cons_self
  refine traces_unlink ?_ ?_ ?_
  · rintro x hx ⟨w,hJ⟩
    exact hgone hx hJ rfl (by simp) fun hu => .inr (by rw [hu])
  · rintro x hx ⟨w,hJ⟩ hnone
    -- in the directory of the upload its chunk is found
    refine ⟨hJ.saves,fun g hg hgu => ?_⟩
    obtain rfl := hx.payloads.once (mem_notesOf.mp hg) (mem_notesOf.mp hJ.opened)
    exact absurd (List.find?_eq_none.mp hnone g (hx.standing hJ hgu)) (by simp)
  · rintro x g hx ⟨w,hJ⟩ hg hsession hname
    refine ⟨fun hu => ?_,hgone hx hJ rfl (by simp) fun hu => ?_⟩
    · obtain rfl := hx.own_chunk hJ hg hsession hname hu
      have hopened : Opened x.log g pid := mem_notesOf.mp hJ.opened
      exact ⟨.own hopened fun hs => not_done hJ.silent hs.done,.inl hopened⟩
    · rw [hx.own_chunk hJ hg hsession hname (hsession.trans hu)]
      exact .inl rfl

def Kept (u uploadID : Name) (k : Int) (src : Source) : Except AppError Unit → List ChunkNote → Prop
  | .ok _, ns => ∃ f : ChunkFile, f.session = uploadID ∧ f.name = chunkName k.toNat ∧
      (0 ≤ k ∧ k ≤ 99999) ∧ src.cut = false ∧ Writing u f src.payload ns
  | .error _, ns => Abandoned u ns

theorem traces_saveChunk (hmax : Go.int64 (maxUploadSize + 1) = maxUploadSize + 1) (uploadID : Name) (k : Int)
    (src : Source) :
    Traces root maxUploadSize u pid Sweeping (saveChunk maxUploadSize uploadID k src)
      (Kept u uploadID k src) := by
  unfold saveChunk
  split
  · exact tells_ret fun ns h => Sweeping.abandoned h
  · split
    · exact tells_ret fun ns h => Sweeping.abandoned h
    · rename_i hindex
      refine tells_bind traces_sweepStaleChunks fun _ => ?_
      refine tells_bind (traces_quiet trivial) fun made => ?_
      cases made with
      | false => exact tells_ret fun ns h => Sweeping.abandoned h
      | true =>
        refine tells_bind (traces_openExcl uploadID (chunkName k.toNat)) fun r => ?_
        cases r with
        | error e => cases e <;> exact tells_ret fun ns h => Sweeping.abandoned h
        | ok i =>
          refine tells_bind (traces_receive (f := ⟨uploadID,chunkName k.toNat,i⟩) src.cut
            (Go.int64 (maxUploadSize + 1)).toNat src.pieces 0) fun r => ?_
          obtain ⟨written,copyErr⟩ := r
          refine tells_bind (traces_quiet trivial) fun closed => ?_
          dsimp only
          split
          · refine tells_bind (tells_mono ?_ (fun _ _ h => h)
              (traces_giveUp ⟨uploadID,chunkName k.toNat,i⟩)) fun _ => tells_ret fun _ h => h
            rintro ns ⟨-,w,hw,-⟩
            exact ⟨w,hw⟩
          · rename_i hclosed
            split
            · refine tells_bind (tells_mono ?_ (fun _ _ h => h)
                (traces_giveUp ⟨uploadID,chunkName k.toNat,i⟩)) fun _ => tells_ret fun _ h => h
              rintro ns ⟨-,w,hw,-⟩
              exact ⟨w,hw⟩
            · rename_i hfits
              refine tells_ret ?_
              rintro ns ⟨-,w,hw,hall⟩
              have herr : copyErr = false := by
                cases copyErr <;> simp_all
              rw [hmax] at hall
              obtain ⟨rfl,hcut⟩ := hall herr (by omega)
              exact ⟨_,rfl,rfl,by omega,hcut,hw⟩

end Saving

end Steps

end Transfer
