import ServerHub.Interleave.Solo
import ServerHub.Transfer.Chunks

namespace Transfer

open Posix Posix.FileTree Interleave Interleave.Prog

section NewFile

def written (d : Disk) (e : Entry) (b : Bytes) : Disk :=
  { d.enter e (.file d.next) with bytes := Function.update d.bytes d.next b, next := d.next + 1 }

-- no name has changed, and no file that there was
structure Unchanged (d d' : Disk) : Prop where
  node : ∀ q, d'.tree.node q = d.tree.node q
  bytes : ∀ i, i < d.next → d'.bytes i = d.bytes i

-- p is a new file that holds b, and nothing else has changed
def Delivers (d : Disk) (p : Text) (b : Bytes) (d' : Disk) : Prop :=
  ∃ e, d'.named p = .ok (e,.file d.next) ∧ d'.bytes d.next = b ∧ d.tree.node e.place = none ∧
    (∀ q, q ≠ e.place → d'.tree.node q = d.tree.node q) ∧ ∀ i, i < d.next → d'.bytes i = d.bytes i

variable {d : Disk} {e : Entry} {b c : Bytes} {q : Place} {n : Name}

theorem allocate_written : d.allocate e = written d e [] := rfl

theorem append_written : ((written d e b).run (.append d.next c)).disk = written d e (b ++ c) := by
  show ({ written d e b with
    bytes := Function.update (written d e b).bytes d.next ((written d e b).bytes d.next ++ c) } : Disk) = _
  simp [written]

theorem unchanged_refl (d : Disk) : Unchanged d d := ⟨fun _ => rfl,fun _ _ => rfl⟩

variable (hq : ValidPlace (q ++ [n])) (hv : d.vacantEntry (absText (q ++ [n])) = .ok e)
include hq hv

theorem written_named : (written d e b).named (absText (q ++ [n])) = .ok (e,.file d.next) := by
  obtain ⟨he,hvac⟩ := Disk.vacantEntry_ok.mp hv
  obtain ⟨hdir,hfree⟩ := Disk.vacant_iff.mp hvac
  obtain ⟨hw,hname⟩ := (Disk.entryAt_some_iff hq).mp he
  have hext : Extends d.tree (written d e b).tree := extends_put hfree
  have hself : (written d e b).tree.node e.place = some (.file d.next) :=
    node_put_self (by simp [Entry.place]) (by rwa [Entry.place,List.dropLast_concat])
  exact Disk.named_ok.mpr ⟨(Disk.entryAt_some_iff hq).mpr ⟨walk_extends hext hw,hname⟩,
    dirAt_iff.mpr (hext _ _ hdir),hself⟩

theorem written_stat : (written d e b).stat (absText (q ++ [n])) = .ok ⟨.file,b.length,.inr d.next⟩ := by
  rw [Disk.stat,Disk.found_named hq (written_named hq hv) fun _ => by simp]
  simp [Except.map,Disk.info,written]

theorem written_delivers : Delivers d (absText (q ++ [n])) b (written d e b) := by
  obtain ⟨-,hvac⟩ := Disk.vacantEntry_ok.mp hv
  have hfree := (Disk.vacant_iff.mp hvac).2
  exact ⟨e,written_named hq hv,Function.update_self _ _ _,hfree,fun r hr => node_put_other hfree hr,
    fun i hi => Function.update_of_ne hi.ne _ _⟩

theorem written_removed : Unchanged d ((written d e b).run (.remove (absText (q ++ [n])))).disk := by
  obtain ⟨he,hdir,hself⟩ := Disk.named_ok.mp (written_named (b := b) hq hv)
  obtain ⟨-,hvac⟩ := Disk.vacantEntry_ok.mp hv
  have hfree := (Disk.vacant_iff.mp hvac).2
  have hremoved : (written d e b).tree.removedEntry (absText (q ++ [n])) = some e :=
    Option.filter_eq_some_iff.mpr ⟨he,Disk.removable_of hq (dirAt_iff.mp hdir) hself (by simp)⟩
  rw [Disk.remove_some hremoved]
  constructor
  · intro r
    by_cases hpre : e.place <+: r
    · have hr : r ≠ [] := by
        rintro rfl
        simp [Entry.place] at hpre
      show ((written d e b).tree.prune e.place).node r = d.tree.node r
      rw [node_prune _ _ _ hr,if_pos hpre]
      cases hn : d.tree.node r with
      | none => rfl
      | some nd => exact absurd hfree (node_above hn hpre)
    · have hne : r ≠ e.place := by
        rintro rfl
        exact hpre List.prefix_rfl
      exact (node_prune_other hpre).trans (node_put_other hfree hne)
  · intro i hi
    exact Function.update_of_ne hi.ne _ _

end NewFile

section Alone

-- what a call that runs alone finds, and whether no call on the chunk area fails
structure Finds (a : ChunkArea) (d : Disk) (calm : Prop) (x : Traced Uploads ChunkNote) : Prop where
  area : x.state.area = a
  disk : x.state.disk = d
  healthy : calm → x.state.faulty = false

def Beside (calm : Prop) (x y : Traced Uploads ChunkNote) : Prop :=
  y.state.area = x.state.area ∧ y.state.disk = x.state.disk ∧
    (calm → x.state.faulty = false → y.state.faulty = false)

variable (root : Text) (maxUploadSize : Int) (pid : Nat) (calm : Prop)

abbrev Alone {α : Type} (P : Traced Uploads ChunkNote → Prop) (p : ChunkCalls α)
    (Q : α → Traced Uploads ChunkNote → Prop) : Prop :=
  Solo (fun i => ((chunkedUploads root maxUploadSize).observe chunkNote).exec pid i) (Beside calm) P p Q

variable {root maxUploadSize pid calm} {a : ChunkArea} {d : Disk} {β : Type}

theorem Finds.stable {x y : Traced Uploads ChunkNote} (h : Finds a d calm x) (hxy : Beside calm x y) :
    Finds a d calm y :=
  ⟨hxy.1.trans h.area,hxy.2.1.trans h.disk,fun hc => hxy.2.2 hc (h.healthy hc)⟩

theorem alone_storage (c : Syscall β) :
    Alone root maxUploadSize pid calm (Finds a d calm) (storage c) fun b x =>
      Finds a (d.run c).disk calm x ∧ b = (d.run c).answer := by
  refine solo_perform (fun _ _ => Finds.stable) ?_
  intro x y b hx hexec
  obtain ⟨hstate,-⟩ := exec_observe hexec
  obtain ⟨ht,rfl⟩ := Prod.mk.inj (Option.some.inj hstate)
  rw [← hx.disk]
  exact ⟨⟨ht ▸ hx.area,ht ▸ rfl,fun hc => ht ▸ hx.healthy hc⟩,rfl⟩

theorem alone_look {c : ChunkCall β} {R : β → Prop}
    (h : ∀ s t b, s.area = a → s.disk = d → (calm → s.faulty = false) →
      execChunk root pid c s = some (t,b) → t = s ∧ R b) :
    Alone root maxUploadSize pid calm (Finds a d calm) (chunk c) fun b x => Finds a d calm x ∧ R b := by
  refine solo_perform (fun _ _ => Finds.stable) ?_
  intro x y b hx hexec
  obtain ⟨hstate,-⟩ := exec_observe hexec
  obtain ⟨ht,hb⟩ := h x.state y.state b hx.area hx.disk hx.healthy hstate
  exact ⟨⟨ht ▸ hx.area,ht ▸ hx.disk,fun hc => ht ▸ hx.healthy hc⟩,hb⟩

theorem alone_readDir (session : Name) :
    Alone root maxUploadSize pid calm (Finds a d calm) (chunk (.readDir session)) fun r x =>
      Finds a d calm x ∧ (r = some ((a.listing session).map ChunkFile.name) ∨
        r = none ∧ (calm → a.hasSession session = false)) := by
  refine alone_look fun s t b ha hd hcalm hexec => ?_
  obtain ⟨rfl,rfl⟩ := Prod.mk.inj (Option.some.inj hexec)
  subst ha
  refine ⟨rfl,?_⟩
  split
  · rename_i hmissing
    refine .inr ⟨rfl,fun hc => ?_⟩
    simpa [hcalm hc] using hmissing
  · exact .inl rfl

theorem alone_size {session name : Name} {f : ChunkFile} (hf : a.find session name = some f) :
    Alone root maxUploadSize pid calm (Finds a d calm) (chunk (.size session name)) fun r x =>
      Finds a d calm x ∧ (r = some (a.bytes f.inode).length ∨ r = none ∧ ¬calm) := by
  refine alone_look fun s t b ha hd hcalm hexec => ?_
  obtain ⟨rfl,rfl⟩ := Prod.mk.inj (Option.some.inj hexec)
  subst ha
  refine ⟨rfl,?_⟩
  split
  · rename_i hfault
    exact .inr ⟨rfl,fun hc => by simp [hcalm hc] at hfault⟩
  · exact .inl (by rw [hf]; rfl)

theorem alone_openRead {session name : Name} {f : ChunkFile} (hf : a.find session name = some f) :
    Alone root maxUploadSize pid calm (Finds a d calm) (chunk (.openRead session name)) fun r x =>
      Finds a d calm x ∧ (r = some f.inode ∨ r = none) := by
  refine alone_look fun s t b ha hd hcalm hexec => ?_
  obtain ⟨rfl,rfl⟩ := Prod.mk.inj (Option.some.inj hexec)
  subst ha
  refine ⟨rfl,?_⟩
  split
  · exact .inr rfl
  · exact .inl (by rw [hf]; rfl)

theorem alone_read (i : Nat) :
    Alone root maxUploadSize pid calm (Finds a d calm) (chunk (.read i)) fun r x =>
      Finds a d calm x ∧ (r = some (a.bytes i) ∨ r = none) := by
  refine alone_look fun s t b ha hd hcalm hexec => ?_
  obtain ⟨rfl,rfl⟩ := Prod.mk.inj (Option.some.inj hexec)
  subst ha
  refine ⟨rfl,?_⟩
  split
  · exact .inr rfl
  · exact .inl rfl

theorem alone_resolve (p : Text) :
    Alone root maxUploadSize pid calm (Finds a d calm) (chunk (.resolve p)) fun r x =>
      Finds a d calm x ∧ r = resolveSafePath d.tree root p := by
  refine alone_look fun s t b ha hd hcalm hexec => ?_
  obtain ⟨rfl,rfl⟩ := Prod.mk.inj (Option.some.inj hexec)
  exact ⟨rfl,by rw [hd]⟩

theorem alone_cancelled :
    Alone root maxUploadSize pid calm (Finds a d calm) (chunk .cancelled) fun _ x =>
      Finds a d calm x ∧ True := by
  refine alone_look fun s t b ha hd hcalm hexec => ?_
  obtain ⟨rfl,rfl⟩ := Prod.mk.inj (Option.some.inj hexec)
  exact ⟨rfl,trivial⟩

theorem execChunk_disk {c : ChunkCall β} {s t : Uploads} {b : β}
    (h : execChunk root pid c s = some (t,b)) : t.disk = s.disk := by
  cases c <;> simp only [execChunk] at h <;> (try split at h) <;> (try split at h) <;>
    (obtain ⟨rfl,-⟩ := Prod.mk.inj (Option.some.inj h); rfl)

theorem alone_aside {P : Disk → Prop} (c : ChunkCall β) :
    Alone root maxUploadSize pid calm (fun x => P x.state.disk) (chunk c) fun _ x => P x.state.disk := by
  refine solo_perform (fun x y hx hxy => ?_) ?_
  · rw [hxy.2.1]
    exact hx
  · intro x y b hx hexec
    rw [execChunk_disk (exec_observe hexec).1]
    exact hx

theorem alone_removeSession {P : Disk → Prop} (session : Name) :
    Alone root maxUploadSize pid calm (fun x => P x.state.disk) (removeSession session) fun _ x =>
      P x.state.disk :=
  solo_bind (alone_aside _) fun names => solo_bind (solo_each (fun _ => alone_aside _) names)
    fun _ => alone_aside _

section Listed

variable {session : Name} {l : List ChunkFile} (hl : ∀ f ∈ l, a.find session f.name = some f)
include hl

theorem alone_totalSize (total : Nat) :
    Alone root maxUploadSize pid calm (Finds a d calm) (totalSize session (l.map ChunkFile.name) total)
      fun n x => Finds a d calm x ∧ n ≤ total + (a.content l).length ∧
        (calm → n = total + (a.content l).length) := by
  induction l generalizing total with
  | nil => exact solo_ret fun x hx => ⟨hx,le_rfl,fun _ => rfl⟩
  | cons f l ih =>
    have hrest := ih fun g hg => hl g (List.mem_cons_of_mem _ hg)
    have hlength : (a.content (f :: l)).length = (a.bytes f.inode).length + (a.content l).length := by
      simp [ChunkArea.content]
    refine solo_bind (alone_size (hl f List.mem_cons_self)) fun r => ?_
    rintro x ⟨hx,rfl | ⟨rfl,hfault⟩⟩
    · refine leaves_mono ?_ (hrest (total + (a.bytes f.inode).length) x hx)
      rintro n y ⟨hy,hle,heq⟩
      exact ⟨hy,by omega,fun hc => by rw [heq hc,hlength]; omega⟩
    · refine leaves_mono ?_ (hrest total x hx)
      rintro n y ⟨hy,hle,-⟩
      exact ⟨hy,by omega,fun hc => absurd hc hfault⟩

end Listed

def TooLarge (r : Except (Option AppError) Text) : Prop := ∃ e, r = .error (some e) ∧ e.code = .fileTooLarge

-- any other error, that of the cancelled context too
abbrev Mild (err : Option AppError) : Prop := err.map AppError.code ≠ some .fileTooLarge

theorem Mild.not_large {err : Option AppError} (h : Mild err) : ¬TooLarge (.error err) := by
  rintro ⟨e,he,hcode⟩
  obtain rfl := Except.error.inj he
  exact h (congrArg some hcode)

-- the chunks are in the new file, or it is gone again
def Gathered (a : ChunkArea) (d : Disk) (calm : Prop) (e : Entry) (b : Bytes)
    (r : Option (Option AppError)) (x : Traced Uploads ChunkNote) : Prop :=
  (r = none ∧ Finds a (written d e b) calm x) ∨
    ∃ err, r = some err ∧ Mild err ∧ Unchanged d x.state.disk

section Written

variable {q : Place} {n : Name} {e : Entry} (hq : ValidPlace (q ++ [n]))
  (hv : d.vacantEntry (absText (q ++ [n])) = .ok e)
include hq hv

theorem alone_discard {b c : Bytes} {err : Option AppError} (herr : Mild err) :
    Alone root maxUploadSize pid calm (Finds a (written d e b) calm) (discard (absText (q ++ [n])) err)
      (Gathered a d calm e c) := by
  refine solo_bind (alone_storage _) fun _ => solo_ret ?_
  rintro x ⟨hx,-⟩
  exact .inr ⟨err,rfl,herr,hx.disk ▸ written_removed hq hv⟩

theorem alone_assemble {session : Name} {l : List ChunkFile} {b : Bytes}
    (hl : ∀ f ∈ l, a.find session f.name = some f) :
    Alone root maxUploadSize pid calm (Finds a (written d e b) calm)
      (assemble d.next (absText (q ++ [n])) session (l.map ChunkFile.name))
      (Gathered a d calm e (b ++ a.content l)) := by
  induction l generalizing b with
  | nil => exact solo_ret fun x hx => .inl ⟨rfl,by simpa [ChunkArea.content] using hx⟩
  | cons f l ih =>
    refine solo_bind alone_cancelled fun ended => ?_
    rintro x ⟨hx,-⟩
    cases ended with
    | true => exact alone_discard hq hv (by decide) x hx
    | false =>
      refine solo_bind (alone_openRead (hl f List.mem_cons_self)) (fun r => ?_) x hx
      rintro x ⟨hx,rfl | rfl⟩
      · refine solo_bind (alone_read f.inode) (fun r => ?_) x hx
        rintro x ⟨hx,rfl | rfl⟩
        · refine solo_bind (alone_storage (.append d.next (a.bytes f.inode))) (fun _ => ?_) x hx
          rintro x ⟨hx,-⟩
          rw [append_written] at hx
          have hcontent : b ++ a.content (f :: l) = b ++ a.bytes f.inode ++ a.content l := by
            simp [ChunkArea.content]
          rw [hcontent]
          exact ih (fun g hg => hl g (List.mem_cons_of_mem _ hg)) x hx
        · exact alone_discard hq hv (by decide) x hx
      · exact alone_discard hq hv (by decide) x hx

end Written

-- how a FinalizeChunk ends that has found nothing at p and the bytes b in the chunks
structure Settled (root : Text) (maxUploadSize : Int) (d : Disk) (p : Text) (b : Bytes) (calm : Prop)
    (r : Except (Option AppError) Text) (d' : Disk) : Prop where
  done : ∀ t, r = .ok t → t = toClientPath root p ∧ (b.length : Int) ≤ maxUploadSize ∧ Delivers d p b d'
  failed : ∀ err, r = .error err → Unchanged d d'
  exceeded : TooLarge r → maxUploadSize < b.length
  large : calm → maxUploadSize < b.length → TooLarge r

variable {q : Place} {n : Name}

theorem alone_gather {session : Name} {l : List ChunkFile} (hq : ValidPlace (q ++ [n]))
    (hl : ∀ f ∈ l, a.find session f.name = some f) :
    Alone root maxUploadSize pid calm (Finds a d calm)
      (gather root maxUploadSize session (absText (q ++ [n])) (l.map ChunkFile.name)) fun r x =>
        Settled root maxUploadSize d (absText (q ++ [n])) (a.content l) calm r x.state.disk := by
  refine solo_bind (alone_totalSize hl 0) fun total => ?_
  rintro x ⟨hx,hle,heq⟩
  split
  · rename_i hover
    refine ⟨(by simp),fun _ _ => hx.disk ▸ unchanged_refl d,fun _ => by omega,fun _ _ => ⟨tooLarge,rfl,rfl⟩⟩
  · rename_i hfits
    have hroom : calm → ¬maxUploadSize < (a.content l).length := fun hc => by
      have := heq hc
      omega
    have hrefused {err : Option AppError} {x : Traced Uploads ChunkNote} (herr : Mild err)
        (hsame : Unchanged d x.state.disk) :
        Settled root maxUploadSize d (absText (q ++ [n])) (a.content l) calm (.error err) x.state.disk :=
      ⟨(by simp),fun _ _ => hsame,fun h => absurd h herr.not_large,
        fun hc hlarge => absurd hlarge (hroom hc)⟩
    refine solo_bind (alone_storage (.createExcl (absText (q ++ [n])))) (fun r => ?_) x hx
    rintro x ⟨hx,rfl⟩
    cases hv : d.vacantEntry (absText (q ++ [n])) with
    | error err =>
      have hrun : d.run (.createExcl (absText (q ++ [n]))) = d.failed err := by
        simp [Disk.run,Disk.createExcl,hv]
      have hsame : Unchanged d x.state.disk := by
        rw [hx.disk,hrun]
        exact unchanged_refl d
      rw [hrun]
      cases err <;> exact hrefused (by decide) hsame
    | ok e =>
      have hrun : d.run (.createExcl (absText (q ++ [n]))) = ⟨written d e [],.ok d.next,[.create e]⟩ := by
        simp [Disk.run,Disk.createExcl,hv,allocate_written]
      rw [hrun] at hx ⊢
      refine solo_bind (alone_assemble hq hv hl) (fun r => ?_) x hx
      rintro x (⟨rfl,hx⟩ | ⟨err,rfl,herr,hsame⟩)
      · rw [List.nil_append] at hx
        refine solo_bind (alone_storage (.stat (absText (q ++ [n])))) (fun r => ?_) x hx
        rintro x ⟨hx,rfl⟩
        have hstat : ((written d e (a.content l)).run (.stat (absText (q ++ [n])))).answer =
            .ok ⟨.file,(a.content l).length,.inr d.next⟩ := written_stat hq hv
        rw [hstat]
        have hdisk : x.state.disk = written d e (a.content l) := hx.disk
        by_cases hsize : ((a.content l).length : Int) ≤ maxUploadSize
        · rw [if_pos (by simp [Except.map,hsize])]
          refine solo_bind (alone_removeSession (P := (· = written d e (a.content l))) session)
            (fun _ => solo_ret fun x hx => ?_) x hdisk
          refine ⟨fun t ht => ⟨(Except.ok.inj ht).symm,hsize,?_⟩,(by simp),?_,fun _ hlarge => by omega⟩
          · exact hx ▸ written_delivers hq hv
          · rintro ⟨err,he,-⟩
            cases he
        · rw [if_neg (by simp [Except.map,hsize])]
          refine solo_bind (alone_storage (.remove (absText (q ++ [n])))) (fun _ => ?_) x hx
          rintro x ⟨hx,-⟩
          have hgone : Unchanged d x.state.disk := hx.disk ▸ written_removed hq hv
          refine solo_bind (alone_removeSession (P := Unchanged d) session)
            (fun _ => solo_ret fun x hx => ?_) x hgone
          exact ⟨(by simp),fun _ _ => hx,fun _ => by omega,fun _ _ => ⟨tooLarge,rfl,rfl⟩⟩
      · exact hrefused herr hsame

-- the path that a FinalizeChunk is to make, if its arguments are in order and Stat finds nothing there
def freeDestination (root : Text) (d : Disk) (uploadID : Name) (destDir : Text) (filename : Name) :
    Option Text :=
  if validUploadID uploadID = true ∧ validateFileName filename = .ok () ∧ filename ≠ trashDirName ∧
      rejectTrash destDir = .ok () then
    match resolveSafePath d.tree root destDir with
    | .error _ => none
    | .ok absDir =>
        if (d.stat (joinPath absDir filename)).isOk then none else some (joinPath absDir filename)
  else none

-- a FinalizeChunk that has nothing to make fails, and not for the size of the chunks
structure Declined (d : Disk) (r : Except (Option AppError) Text) (d' : Disk) : Prop where
  failed : ∃ err, r = .error err ∧ Mild err
  unchanged : Unchanged d d'

theorem validateFileName_mild {name : Name} {e : AppError} (h : validateFileName name = .error e) :
    Mild (some e) := by
  unfold validateFileName at h
  split at h
  · obtain rfl := Except.error.inj h
    simp
  · cases h

theorem rejectTrash_mild {p : Text} {e : AppError} (h : rejectTrash p = .error e) : Mild (some e) := by
  unfold rejectTrash at h
  split at h
  · obtain rfl := Except.error.inj h
    simp
  · cases h

theorem nearestExisting_mild {δ : Type} {t : FileTree δ} {rev suffix : List Name} {e : AppError}
    (h : nearestExisting t rev suffix = .error e) : Mild (some e) := by
  induction rev generalizing suffix with
  | nil => cases h
  | cons c rest ih =>
    rw [nearestExisting] at h
    split at h
    · cases h
    · exact ih h
    · obtain rfl := Except.error.inj h
      simp

theorem assertResolvedWithinRoot_mild {δ : Type} {t : FileTree δ} {rootClean abs : Text} {e : AppError}
    (h : assertResolvedWithinRoot t rootClean abs = .error e) : Mild (some e) := by
  unfold assertResolvedWithinRoot at h
  repeat' split at h
  · obtain rfl := Except.error.inj h
    rename_i hnear
    exact nearestExisting_mild hnear
  all_goals
    first
    | cases h; done
    | (obtain rfl := Except.error.inj h; simp)

theorem resolveSafePath_mild {p : Text} {e : AppError} (h : resolveSafePath d.tree root p = .error e) :
    Mild (some e) := by
  unfold resolveSafePath at h
  dsimp only at h
  split at h
  · obtain rfl := Except.error.inj h
    simp
  · split at h
    · obtain rfl := Except.error.inj h
      simp
    · split at h
      · rename_i hassert
        obtain rfl := Except.error.inj h
        exact assertResolvedWithinRoot_mild hassert
      · cases h

-- how the FinalizeChunk of an upload ends whose chunks hold b
def Concluded (root : Text) (maxUploadSize : Int) (d : Disk) (uploadID : Name) (destDir : Text)
    (filename : Name) (b : Bytes) (calm : Prop) (r : Except (Option AppError) Text) (d' : Disk) : Prop :=
  match freeDestination root d uploadID destDir filename with
  | none => Declined d r d'
  | some p => Settled root maxUploadSize d p b calm r d'

theorem destination_absText (hroot : isAbs root = true) {destDir absDir : Text} {filename : Name}
    (h : resolveSafePath d.tree root destDir = .ok absDir) (hname : validateFileName filename = .ok ()) :
    ∃ q, ValidPlace (q ++ [filename]) ∧ joinPath absDir filename = absText (q ++ [filename]) := by
  obtain ⟨c,hc,rfl,-⟩ := resolveSafePath_ok hroot h
  have hvalid : ValidName filename := valid_newName hname
  have hdir : ValidPlace (components root ++ c) := ValidPlace.append.mpr ⟨components_valid hroot,hc⟩
  exact ⟨_,ValidPlace.append.mpr ⟨hdir,ValidPlace.cons.mpr ⟨hvalid,validPlace_nil⟩⟩,
    joinPath_name hdir hvalid⟩

theorem alone_finalizeChunk (hroot : isAbs root = true) {uploadID filename : Name} {destDir : Text}
    (hl : ∀ f ∈ a.listing uploadID, a.find uploadID f.name = some f) :
    Alone root maxUploadSize pid calm (Finds a d calm)
      (finalizeChunk root maxUploadSize uploadID destDir filename) fun r x =>
        Concluded root maxUploadSize d uploadID destDir filename (a.content (a.listing uploadID))
          (calm ∧ a.hasSession uploadID = true) r x.state.disk := by
  have hdeclined {err : Option AppError} {x : Traced Uploads ChunkNote} (hx : Finds a d calm x)
      (herr : Mild err) : Declined d (.error err) x.state.disk :=
    ⟨⟨err,rfl,herr⟩,hx.disk ▸ unchanged_refl d⟩
  unfold finalizeChunk Concluded
  split
  · rename_i hid
    rw [show freeDestination root d uploadID destDir filename = none by simp [freeDestination,hid]]
    exact solo_ret fun x hx => hdeclined hx (by decide)
  · rename_i hid
    split
    · rename_i e hname
      rw [show freeDestination root d uploadID destDir filename = none by simp [freeDestination,hname]]
      exact solo_ret fun x hx => hdeclined hx (validateFileName_mild hname)
    · rename_i hname
      split
      · rename_i hreserved
        rw [show freeDestination root d uploadID destDir filename = none by
          simp [freeDestination,hreserved]]
        exact solo_ret fun x hx => hdeclined hx (by decide)
      · rename_i hreserved
        split
        · rename_i e htrash
          rw [show freeDestination root d uploadID destDir filename = none by
            simp [freeDestination,htrash]]
          exact solo_ret fun x hx => hdeclined hx (rejectTrash_mild htrash)
        · rename_i htrash
          have hgiven : validUploadID uploadID = true ∧ validateFileName filename = .ok () ∧
              filename ≠ trashDirName ∧ rejectTrash destDir = .ok () :=
            ⟨by simpa using hid,hname,hreserved,htrash⟩
          refine solo_bind (alone_resolve destDir) fun r => ?_
          rintro x ⟨hx,rfl⟩
          cases hresolve : resolveSafePath d.tree root destDir with
          | error e =>
            rw [show freeDestination root d uploadID destDir filename = none by
              simp [freeDestination,hresolve]]
            exact hdeclined hx (resolveSafePath_mild hresolve)
          | ok absDir =>
            refine solo_bind (alone_storage (.stat (joinPath absDir filename))) (fun r => ?_) x hx
            rintro x ⟨hx,rfl⟩
            have hanswer : (d.run (.stat (joinPath absDir filename))).answer =
                d.stat (joinPath absDir filename) := rfl
            rw [hanswer]
            cases hstat : d.stat (joinPath absDir filename) with
            | ok info =>
              rw [show freeDestination root d uploadID destDir filename = none by
                simp [freeDestination,hresolve,hstat,Except.isOk,Except.toBool]]
              exact hdeclined hx (by simp)
            | error err =>
              rw [show freeDestination root d uploadID destDir filename = some (joinPath absDir filename) by
                simp [freeDestination,hgiven,hresolve,hstat,Except.isOk,Except.toBool]]
              refine solo_bind (alone_readDir uploadID) (fun r => ?_) x hx
              rintro x ⟨hx,rfl | ⟨rfl,hmissing⟩⟩
              · obtain ⟨q,hq,hp⟩ := destination_absText hroot hresolve hname
                rw [hp]
                refine leaves_mono (fun r y h => ?_) (alone_gather hq hl x hx)
                exact ⟨h.done,h.failed,h.exceeded,fun hc => h.large hc.1⟩
              · refine ⟨nofun,fun _ _ => hx.disk ▸ unchanged_refl d,?_,fun hc => ?_⟩
                · exact fun h => absurd h (Mild.not_large (by decide))
                · exact absurd hc.2 (by simp [hmissing hc.1])

theorem alone_handleChunk (hroot : isAbs root = true) {uploadID filename : Name} {destDir : Text}
    (hl : ∀ f ∈ a.listing uploadID, a.find uploadID f.name = some f) :
    Alone root maxUploadSize pid calm (Finds a d calm)
      (handleChunk root maxUploadSize (.finalizeChunk uploadID destDir filename)) fun c x =>
        ∃ r, c = .finalized r ∧ Concluded root maxUploadSize d uploadID destDir filename
          (a.content (a.listing uploadID)) (calm ∧ a.hasSession uploadID = true) r x.state.disk := by
  let P (c : ChunkAnswer) (d' : Disk) : Prop := ∃ r, c = .finalized r ∧
    Concluded root maxUploadSize d uploadID destDir filename (a.content (a.listing uploadID))
      (calm ∧ a.hasSession uploadID = true) r d'
  refine solo_bind (solo_bind (alone_finalizeChunk hroot hl) fun r => solo_ret fun x hx => ?_)
    fun c => solo_bind (alone_aside (P := P c) (.reply _ c)) fun _ => solo_ret fun x hx => hx
  exact ⟨r,rfl,hx⟩

end Alone

end Transfer
