import ServerHub.Transfer.Finalizing

namespace Transfer

open Posix Posix.FileTree Interleave Interleave.Prog Interleave.Ledger

abbrev tracedUploads (root : Text) (maxUploadSize : Int) : System :=
  (chunkedUploads root maxUploadSize).observe chunkNote

section Runs

variable {root : Text} {maxUploadSize : Int} {u : Name} {s : Uploads}
  {es : List (Event (tracedUploads root maxUploadSize))} {v : World (tracedUploads root maxUploadSize)}

theorem coherent_begun (h : ∀ f ∈ s.area.files, f.session ≠ u) : Coherent root u ⟨s,[]⟩ where
  payloads := ⟨nofun,nofun,nofun,nofun⟩
  reports := nofun
  directed := by
    have hnone : (s.area.files.filter fun f => f.session = u) = [] :=
      List.filter_eq_nil_iff.mpr fun f hf => by simpa using h f hf
    exact ⟨fun f hf hu => absurd hu (h f hf),fun f hf _ _ hu => absurd hu (h f hf),hnone ▸ List.nodup_nil,
      nofun,nofun,nofun,nofun,nofun⟩
  copied := ⟨nofun,nofun⟩
  outputs := ⟨nofun,nofun,nofun,nofun⟩
  deliveries := nofun

theorem coherent_env {e : ChunkEnv} {x y : Traced Uploads ChunkNote} (hx : Coherent root u x)
    (h : (tracedUploads root maxUploadSize).env e x = some y) :
    Coherent root u y := by
  obtain ⟨hact,hlog⟩ := env_observe h
  obtain ⟨harea,hdisk,-⟩ := act_same hact
  have hy := hx.untouched ⟨congrArg _ harea,congrArg _ harea,congrArg _ harea,hdisk⟩
  rwa [← hlog] at hy

theorem coherent_run (hmax : Go.int64 (maxUploadSize + 1) = maxUploadSize + 1)
    (h : ∀ f ∈ s.area.files, f.session ≠ u) (hc : Along (Landing (Undisturbed u)) (begun s) es)
    (hv : (begun s).run es = some v) :
    Coherent root u v.state ∧ ∀ pid r a, .start pid r ∈ es → v.pool pid = some (.ret a) →
      ∃ ms, notesOf pid v.state.log = .replied r a :: ms ∧ Told root u r a ms :=
  told (L := wholeness root maxUploadSize u) (fun _ r _ => traces_handleChunk hmax r)
    (fun _ _ _ hx he => coherent_env hx he) (coherent_begun h) hc hv

theorem caller_started {q : Nat} {n : ChunkNote} (hv : (begun s).run es = some v)
    (hm : (q,n) ∈ v.state.log) : ∃ r, .start q r ∈ es := by
  cases hp : v.pool q with
  | none =>
    have hnone := unseen_run hv q hp
    have hown : (q,n) ∈ Interleave.own q v.state.log :=
      List.mem_filter.mpr ⟨hm,decide_eq_true rfl⟩
    rw [hnone] at hown
    cases hown
  | some p => exact pool_started (S := tracedUploads root maxUploadSize) hv rfl hp

end Runs

section Parts

theorem parts_of {l : List ChunkFile} {bytes : Nat → Bytes} {P : Int → Bytes → Prop}
    (hsorted : l.Pairwise Before)
    (h : ∀ f ∈ l, ∃ k, (0 ≤ k ∧ k ≤ 99999) ∧ f.name = chunkName k.toNat ∧ P k (bytes f.inode)) :
    ∃ parts : List (Int × Bytes), (parts.map Prod.fst).Pairwise (· < ·) ∧
      parts.map Prod.snd = l.map (fun f => bytes f.inode) ∧
      (∀ part ∈ parts, (0 ≤ part.1 ∧ part.1 ≤ 99999) ∧ P part.1 part.2 ∧
        ∃ f ∈ l, f.name = chunkName part.1.toNat) ∧
      ∀ f ∈ l, ∀ k, 0 ≤ k ∧ k ≤ 99999 → f.name = chunkName k.toNat → (k,bytes f.inode) ∈ parts := by
  induction l with
  | nil => exact ⟨[],.nil,rfl,nofun,nofun⟩
  | cons f l ih =>
    obtain ⟨hfirst,hrest⟩ := List.pairwise_cons.mp hsorted
    obtain ⟨parts,hordered,hbytes,hparts,hall⟩ := ih hrest fun g hg => h g (List.mem_cons_of_mem _ hg)
    obtain ⟨k,hk,hname,hP⟩ := h f List.mem_cons_self
    refine ⟨(k,bytes f.inode) :: parts,?_,by simp [hbytes],?_,?_⟩
    · rw [List.map_cons,List.pairwise_cons]
      refine ⟨fun k' hk' => ?_,hordered⟩
      obtain ⟨part,hpart,rfl⟩ := List.mem_map.mp hk'
      obtain ⟨hrange,-,g,hg,hgname⟩ := hparts part hpart
      obtain ⟨hle,hne⟩ := hfirst g hg
      rw [hname,hgname] at hle hne
      have hindex := chunkName_le (by omega) (by omega) hle
      have hapart : k ≠ part.1 := fun he => hne (by rw [he])
      show k < part.1
      omega
    · intro part hpart
      rcases List.mem_cons.mp hpart with rfl | hpart
      · exact ⟨hk,hP,f,List.mem_cons_self,hname⟩
      · obtain ⟨hrange,hpart,g,hg,hgname⟩ := hparts part hpart
        exact ⟨hrange,hpart,g,List.mem_cons_of_mem _ hg,hgname⟩
    · intro g hg k' hk' hname'
      rcases List.mem_cons.mp hg with rfl | hg
      · have he := chunkName_inj (by omega) (by omega) (hname.symm.trans hname')
        obtain rfl : k = k' := by omega
        exact List.mem_cons_self
      · exact List.mem_cons_of_mem _ (hall g hg k' hk' hname')

def SavedAs (u : Name) (log : ChunkLog) (k : Int) (b : Bytes) : Prop :=
  ∃ q src, (q,.replied (.saveChunk u k src) (.saved (.ok ()))) ∈ log ∧ src.cut = false ∧ src.payload = b

variable {root : Text} {u : Name} {x : Traced Uploads ChunkNote} {f : ChunkFile} {q : Nat}

theorem Coherent.saved_file (hx : Coherent root u x) (ho : Opened x.log f q) (hs : Saved x.log q)
    (hu : f.session = u) : ∃ k, (0 ≤ k ∧ k ≤ 99999) ∧ f.name = chunkName k.toNat ∧
      SavedAs u x.log k (x.state.area.bytes f.inode) := by
  obtain ⟨r,hr⟩ := saved_iff.mp hs
  obtain ⟨g,k,src,rfl,hstored⟩ := hx.reports q r hr
  obtain rfl := hx.payloads.once hstored.opened ho
  refine ⟨k,hstored.index,hstored.name,q,src,hu ▸ hr,hstored.complete,?_⟩
  rw [hx.payloads.content ho,hstored.payload]

theorem Coherent.file_saved (hx : Coherent root u x) {k : Int} {src : Source}
    (hr : (q,.replied (.saveChunk u k src) (.saved (.ok ()))) ∈ x.log) :
    ∃ f : ChunkFile, f.session = u ∧ (0 ≤ k ∧ k ≤ 99999) ∧ f.name = chunkName k.toNat ∧ Opened x.log f q ∧
      Saved x.log q ∧ x.state.area.bytes f.inode = src.payload := by
  obtain ⟨f,k',src',he,hstored⟩ := hx.reports q _ hr
  obtain ⟨rfl,rfl,rfl⟩ := ChunkRequest.saveChunk.inj he
  refine ⟨f,rfl,hstored.index,hstored.name,hstored.opened,saved_iff.mpr ⟨_,hr⟩,?_⟩
  rw [hx.payloads.content hstored.opened,hstored.payload]

theorem Coherent.assembled_bytes (hx : Coherent root u x) {l : List ChunkFile} {p : Text} {e : Entry}
    {o : Nat} (ha : Assembled (notesOf q x.log) u l p e o) :
    output (notesOf q x.log) = (l.map fun f => x.state.area.bytes f.inode).flatten := by
  have hlisted : (q,.listed u l) ∈ x.log := mem_notesOf.mp ha.listed
  have hread : ∀ c ∈ gathered (notesOf q x.log), c.2 = x.state.area.bytes c.1 := by
    rintro ⟨i,b⟩ hc
    have hnote : .read i b ∈ notesOf q x.log := gathered_mem hc
    obtain ⟨f,p',rfl,ho,-,rfl⟩ := hx.copied.read hlisted (mem_notesOf.mp hnote)
    exact (hx.payloads.content ho).symm
  rw [ha.copied,List.map_congr_left hread]
  have hmap : (gathered (notesOf q x.log)).map (fun c => x.state.area.bytes c.1) =
      ((gathered (notesOf q x.log)).map Prod.fst).map x.state.area.bytes := by rw [List.map_map]; rfl
  rw [hmap,ha.whole,List.map_map]
  rfl

end Parts

section Whole

-- the chunks that a new file is made of, in the order of their indices
structure Composed (u : Name) (log : ChunkLog) (parts : List (Int × Bytes)) : Prop where
  ordered : (parts.map Prod.fst).Pairwise (· < ·)
  saved : ∀ part ∈ parts, (0 ≤ part.1 ∧ part.1 ≤ 99999) ∧ SavedAs u log part.1 part.2

def Holding (d : Disk) (p : Text) (parts : List (Int × Bytes)) : Prop :=
  ∃ e o, d.named p = .ok (e,.file o) ∧ d.bytes o = (parts.map Prod.snd).flatten

-- the file that the SaveChunk q has made
structure Made (u : Name) (log : ChunkLog) (q : Nat) (k : Int) (f : ChunkFile) : Prop where
  session : f.session = u
  name : f.name = chunkName k.toNat
  opened : Opened log f q

variable {root : Text} {maxUploadSize : Int} {u : Name}

-- q is a FinalizeChunk of the upload that has answered so, or it has not returned
def Ends (u : Name) (v : World (tracedUploads root maxUploadSize)) (q : Nat)
    (res : Except (Option AppError) Text) : Prop :=
  v.returned q = false ∨
    ∃ destDir filename, (q,.replied (.finalizeChunk u destDir filename) (.finalized res)) ∈ v.state.log

-- what has become of the chunk of a SaveChunk that reported success
inductive Spent (u : Name) (v : World (tracedUploads root maxUploadSize)) (saver : Nat) (k : Int)
    (b : Bytes) : Prop where
  | standing (f : ChunkFile) (made : Made u v.state.log saver k f) (mem : f ∈ v.state.state.area.files)
      (bytes : v.state.state.area.bytes f.inode = b)
  | swept (f : ChunkFile) (made : Made u v.state.log saver k f) (q : Nat)
      (unlinked : (q,.unlinked f) ∈ v.state.log) (stale : (q,.stale u) ∈ v.state.log)
  | rejected (f : ChunkFile) (made : Made u v.state.log saver k f) (q : Nat)
      (unlinked : (q,.unlinked f) ∈ v.state.log) (l : List ChunkFile) (p : Text)
      (listed : (q,.listed u l) ∈ v.state.log) (mem : f ∈ l) (withdrawn : (q,.withdrawn p) ∈ v.state.log)
      (ends : Ends u v q (.error (some tooLarge)))
  | delivered (f : ChunkFile) (made : Made u v.state.log saver k f) (q : Nat)
      (unlinked : (q,.unlinked f) ∈ v.state.log) (l : List ChunkFile) (p : Text)
      (listed : (q,.listed u l) ∈ v.state.log) (mem : f ∈ l) (parts : List (Int × Bytes))
      (part : (k,b) ∈ parts) (composed : Composed u v.state.log parts)
      (holding : Holding v.state.state.disk p parts) (ends : Ends u v q (.ok (toClientPath root p)))

structure Whole (u : Name) (v : World (tracedUploads root maxUploadSize)) : Prop where
  delivered : ∀ q destDir filename t,
    (q,.replied (.finalizeChunk u destDir filename) (.finalized (.ok t))) ∈ v.state.log →
      ∃ absDir parts, t = toClientPath root (joinPath absDir filename) ∧ Composed u v.state.log parts ∧
        Holding v.state.state.disk (joinPath absDir filename) parts
  kept : ∀ q k src, (q,.replied (.saveChunk u k src) (.saved (.ok ()))) ∈ v.state.log →
    Spent u v q k src.payload

variable {x : Traced Uploads ChunkNote} {q : Nat} {l : List ChunkFile} {p : Text} {e : Entry} {o : Nat}
  {s : Uploads} {es : List (Event (tracedUploads root maxUploadSize))}
  {v : World (tracedUploads root maxUploadSize)}

theorem Coherent.composed (hx : Coherent root u x) (ha : Assembled (notesOf q x.log) u l p e o) :
    ∃ parts, Composed u x.log parts ∧ Holding x.state.disk p parts ∧
      ∀ f ∈ l, ∀ k, 0 ≤ k ∧ k ≤ 99999 → f.name = chunkName k.toNat →
        (k,x.state.area.bytes f.inode) ∈ parts := by
  obtain ⟨hall,hsorted,-⟩ := hx.directed.collected (mem_notesOf.mp ha.listed)
  have hfiles : ∀ f ∈ l, ∃ k, (0 ≤ k ∧ k ≤ 99999) ∧ f.name = chunkName k.toNat ∧
      SavedAs u x.log k (x.state.area.bytes f.inode) := by
    intro f hf
    obtain ⟨hu,p',ho,hs⟩ := hall f hf
    exact hx.saved_file ho hs hu
  obtain ⟨parts,hordered,hbytes,hparts,hmem⟩ := parts_of hsorted hfiles
  obtain ⟨hnamed,hcontent⟩ := hx.outputs.kept (mem_notesOf.mp ha.created) fun p' hp =>
    ha.kept p' (mem_notesOf.mpr hp)
  refine ⟨parts,⟨hordered,fun part hp => ⟨(hparts part hp).1,(hparts part hp).2.1⟩⟩,
    ⟨e,o,hnamed,?_⟩,hmem⟩
  rw [hcontent,hx.assembled_bytes ha,hbytes]

def Answering (root : Text) (u : Name) (v : World (tracedUploads root maxUploadSize)) : Prop :=
  ∀ q n, (q,n) ∈ v.state.log → v.returned q = true → ∃ r a ms,
    notesOf q v.state.log = .replied r a :: ms ∧ Told root u r a ms

theorem answering (hv : (begun s).run es = some v)
    (htold : ∀ pid r a, .start pid r ∈ es → v.pool pid = some (.ret a) →
      ∃ ms, notesOf pid v.state.log = .replied r a :: ms ∧ Told root u r a ms) :
    Answering root u v := by
  intro q n hm hdone
  obtain ⟨r,hr⟩ := caller_started hv hm
  obtain ⟨a,ha⟩ := World.returned_iff.mp hdone
  obtain ⟨ms,hms,ht⟩ := htold q r a hr ha
  exact ⟨r,a,ms,hms,ht⟩

theorem Answering.collector (hv : Answering root u v) {f : ChunkFile} (hdone : v.returned q = true)
    (hf : (q,.unlinked f) ∈ v.state.log) (hl : (q,.listed f.session l) ∈ v.state.log) :
    ∃ destDir filename res ms,
      notesOf q v.state.log = .replied (.finalizeChunk f.session destDir filename) (.finalized res) :: ms ∧
      .unlinked f ∈ ms ∧ Closed root u f.session filename res ms := by
  obtain ⟨r,a,ms,hnotes,htold⟩ := hv q _ hf hdone
  have hpast {n : ChunkNote} (hn : (q,n) ∈ v.state.log) (hr : n.isReply = false) : n ∈ ms := by
    have hmem := mem_notesOf.mpr hn
    rw [hnotes] at hmem
    refine (List.mem_cons.mp hmem).resolve_left ?_
    rintro rfl
    cases hr
  cases r with
  | saveChunk uploadID k src =>
    cases a with
    | finalized res => exact htold.elim
    | saved res => cases Kept.saves htold _ (hpast hl rfl)
  | finalizeChunk uploadID destDir filename =>
    cases a with
    | saved res => exact htold.elim
    | finalized res =>
      obtain rfl : f.session = uploadID := of_decide_eq_true (Closed.finalizes htold _ (hpast hl rfl))
      exact ⟨destDir,filename,res,ms,hnotes,hpast hf rfl,htold⟩

theorem spent_rejected {f : ChunkFile} {saver : Nat} {k : Int} {b : Bytes} (hv : Answering root u v)
    (hmade : Made u v.state.log saver k f) (hf : (q,.unlinked f) ∈ v.state.log)
    (hl : (q,.listed f.session l) ∈ v.state.log) (hmem : f ∈ l) (hw : (q,.withdrawn p) ∈ v.state.log)
    (hreplies : ∀ r a, (q,.replied r a) ∈ v.state.log → a = .finalized (.error (some tooLarge))) :
    Spent u v saver k b := by
  obtain rfl := hmade.session
  refine .rejected f hmade q hf l p hl hmem hw ?_
  cases hdone : v.returned q with
  | false => exact .inl hdone
  | true =>
    obtain ⟨destDir,filename,res,ms,hnotes,-⟩ := hv.collector hdone hf hl
    have hreply := mem_notesOf.mp (hnotes ▸ List.mem_cons_self)
    obtain rfl := ChunkAnswer.finalized.inj (hreplies _ _ hreply)
    exact .inr ⟨destDir,filename,hreply⟩

theorem spent_delivered {f : ChunkFile} {saver : Nat} {k : Int} (hx : Coherent root u v.state)
    (hv : Answering root u v) (hmade : Made u v.state.log saver k f) (hindex : 0 ≤ k ∧ k ≤ 99999)
    (hf : (q,.unlinked f) ∈ v.state.log)
    (ha : Assembled (notesOf q v.state.log) f.session l p e o) (hmem : f ∈ l)
    (hreplies : ∀ r a, (q,.replied r a) ∈ v.state.log → ∃ t, a = .finalized (.ok t)) :
    Spent u v saver k (v.state.state.area.bytes f.inode) := by
  obtain rfl := hmade.session
  cases hdone : v.returned q with
  | false =>
    obtain ⟨parts,hcomposed,hholding,hparts⟩ := hx.composed ha
    exact .delivered f hmade q hf l p (mem_notesOf.mp ha.listed) hmem parts
      (hparts f hmem k hindex hmade.name) hcomposed hholding (.inl hdone)
  | true =>
    obtain ⟨destDir,filename,res,ms,hnotes,hgone,hclosed⟩ :=
      hv.collector hdone hf (mem_notesOf.mp ha.listed)
    have hreply := mem_notesOf.mp (hnotes ▸ List.mem_cons_self)
    obtain ⟨t,ht⟩ := hreplies _ _ hreply
    obtain rfl := ChunkAnswer.finalized.inj ht
    -- the file that the call has answered with
    obtain ⟨l',p',e',o',absDir,hd,rfl,-⟩ := hclosed
    have hassembled : Assembled (notesOf q v.state.log) f.session l' p' e' o' := by
      rw [hnotes]
      exact (hd.assembled rfl).note rfl
    have hmem' : f ∈ l' := (hd.unlinked f hgone rfl).2
    obtain ⟨parts,hcomposed,hholding,hparts⟩ := hx.composed hassembled
    exact .delivered f hmade q hf l' p' (mem_notesOf.mp hassembled.listed) hmem' parts
      (hparts f hmem' k hindex hmade.name) hcomposed hholding (.inr ⟨destDir,filename,hreply⟩)

theorem Coherent.whole (hx : Coherent root u v.state) (hv : Answering root u v) : Whole u v := by
  constructor
  · intro q destDir filename t hr
    obtain ⟨l,p,e,o,absDir,ha,rfl,rfl⟩ := hx.deliveries q destDir filename t hr
    obtain ⟨parts,hcomposed,hholding,-⟩ := hx.composed ha
    exact ⟨absDir,parts,rfl,hcomposed,hholding⟩
  · intro q k src hr
    obtain ⟨f,hu,hindex,hname,ho,hs,hbytes⟩ := hx.file_saved hr
    have hmade : Made u v.state.log q k f := ⟨hu,hname,ho⟩
    rcases hx.directed.placed ho hu with hf | ⟨p,hp⟩
    · exact .standing f hmade hf hbytes
    · cases (hx.directed.removed hp hu).1 with
      | own opened failed =>
        obtain ⟨rfl,-⟩ := hx.payloads.single opened ho rfl
        exact absurd hs failed
      | reaped stale => exact .swept f hmade p hp (hu ▸ stale)
      | rejected l p' listed mem withdrawn replies =>
        exact spent_rejected hv hmade hp listed mem withdrawn replies
      | delivered l p' e o assembled mem replies =>
        exact hbytes ▸ spent_delivered hx hv hmade hindex hp assembled mem replies

theorem uploads_whole (hmax : Go.int64 (maxUploadSize + 1) = maxUploadSize + 1)
    (h : ∀ f ∈ s.area.files, f.session ≠ u) (hc : Along (Landing (Undisturbed u)) (begun s) es)
    (hv : (begun s).run es = some v) : Whole u v := by
  obtain ⟨hcoherent,htold⟩ := coherent_run hmax h hc hv
  exact hcoherent.whole (answering hv htold)

end Whole

section Sample

def emptyDisk : Disk where
  tree := { nodes := [([['r']],.dir)], rooted := by decide }
  bytes := fun _ => []
  next := 0
  hardLinks := true

def emptyUploads : Uploads where
  area := ⟨[],[],fun _ => [],0⟩
  disk := emptyDisk
  clock := 0
  faulty := false
  cancelled := fun _ => false

abbrev sampleUploads : System := tracedUploads ['/','r'] 100

def saved (pid : Nat) (k : Int) (b : Bytes) (steps : Nat) : List (Event sampleUploads) :=
  .start pid (.saveChunk ['u'] k ⟨[b],false⟩) :: List.replicate steps (.act pid)

def gapRun : List (Event sampleUploads) :=
  saved 0 1 [7] 7 ++ .start 1 (.finalizeChunk ['u'] ['/'] ['a']) :: List.replicate 14 (.act 1)

-- two SaveChunks side by side, and one for another upload beside the FinalizeChunk
def twoRun : List (Event sampleUploads) :=
  .start 0 (.saveChunk ['u'] 1 ⟨[[8]],false⟩) :: .start 2 (.saveChunk ['u'] 0 ⟨[[7]],false⟩) ::
    (List.replicate 7 [.act 0,.act 2]).flatten ++
    .start 1 (.finalizeChunk ['u'] ['/'] ['a']) :: .start 3 (.saveChunk ['w'] 0 ⟨[[9]],false⟩) ::
    (List.replicate 8 [.act 1,.act 3]).flatten ++ List.replicate 12 (.act 1)

instance (log : ChunkLog) (f : ChunkFile) : Decidable (Finished log f) :=
  inferInstanceAs (Decidable (∃ e ∈ log, e.2 = .opened f.session f.name f.inode ∧ Saved log e.1))

instance (log : ChunkLog) (f : ChunkFile) : Decidable (Answered log f) :=
  inferInstanceAs (Decidable (∃ e ∈ log, e.2 = .opened f.session f.name f.inode ∧ Done log e.1))

instance (u : Name) (log : ChunkLog) : Decidable (Busy u log) :=
  inferInstanceAs (Decidable (∃ e ∈ log, e.2.lists u = true ∧ ¬Done log e.1 ∨
    reaping u (notesOf e.1 log) = true))

instance undisturbedDecidable (u : Name) (pid : Nat) (x : Traced Uploads ChunkNote) (β : Type) :
    (i : ChunkOp β) → Decidable (Undisturbed u pid x i)
  | .inr (.readDir session) => inferInstanceAs (Decidable (session = u → x.state.faulty = false →
      ∀ f ∈ x.state.area.files, f.session = u → Finished x.log f))
  | .inr (.isStale session cutoff) => inferInstanceAs (Decidable (session = u →
      x.state.stale session cutoff = true → ∀ f ∈ x.state.area.files, f.session = u → Answered x.log f))
  | .inr (.openExcl session name) => inferInstanceAs (Decidable (session = u →
      (x.state.opening session name).isOk = true → ¬Busy u x.log))
  | .inl _ => isTrue trivial
  | .inr .sessionDirs | .inr .now | .inr (.mkdirAll _) | .inr (.write _ _) | .inr (.close _)
  | .inr (.size _ _) | .inr (.openRead _ _) | .inr (.read _) | .inr (.leftovers _) | .inr (.unlink _ _)
  | .inr (.rmdir _) | .inr (.resolve _) | .inr .cancelled | .inr (.reply _ _) => isTrue trivial

instance (w : World sampleUploads) (e : Event sampleUploads) :
    Decidable (Landing (Undisturbed ['u']) w e) :=
  landingDecidable (S := sampleUploads) (Undisturbed ['u']) (h := undisturbedDecidable ['u']) w e

theorem two_chunks_whole : ∃ v, (begun emptyUploads).run twoRun = some v ∧ Whole ['u'] v ∧
    (1,.replied (.finalizeChunk ['u'] ['/'] ['a']) (.finalized (.ok ['/','a']))) ∈ v.state.log ∧
    v.state.state.disk.bytes 0 = [7,8] := by
  have hrun : ((begun emptyUploads).run twoRun).map (fun v => (v.state.log.head?,v.state.state.disk.bytes 0)) =
      some (some (1,.replied (.finalizeChunk ['u'] ['/'] ['a']) (.finalized (.ok ['/','a']))),[7,8]) := by
    decide +kernel
  obtain ⟨v,hv,hst⟩ := Option.map_eq_some_iff.mp hrun
  obtain ⟨hhead,hbytes⟩ := Prod.mk.inj hst
  refine ⟨v,hv,uploads_whole (by decide) (by simp [emptyUploads]) ?_ hv,List.mem_of_mem_head? hhead,hbytes⟩
  decide +kernel

-- a FinalizeChunk passes while the only SaveChunk has made its chunk and not written it
def tornRun : List (Event sampleUploads) :=
  .start 0 (.saveChunk ['u'] 0 ⟨[[7]],false⟩) :: List.replicate 4 (.act 0) ++
    .start 1 (.finalizeChunk ['u'] ['/'] ['a']) :: List.replicate 14 (.act 1) ++ List.replicate 3 (.act 0)

-- the delivered file is the chunks 0, 1, ..., n - 1
def Seamless (root : Text) (u : Name) (x : Traced Uploads ChunkNote) : Prop :=
  ∀ q destDir filename t, (q,.replied (.finalizeChunk u destDir filename) (.finalized (.ok t))) ∈ x.log →
    ∃ absDir parts, t = toClientPath root (joinPath absDir filename) ∧ Composed u x.log parts ∧
      parts.map Prod.fst = (List.range parts.length).map Int.ofNat ∧
      Holding x.state.disk (joinPath absDir filename) parts

def onlyOne : ChunkNote → Bool
  | .replied (.saveChunk _ k _) _ => k = 1
  | _ => true

theorem gap_delivered :
    (∃ v, (begun emptyUploads).run gapRun = some v ∧ ¬Seamless ['/','r'] ['u'] v.state) ∧
    ∃ v, (begun emptyUploads).run tornRun = some v ∧
      (0,.replied (.saveChunk ['u'] 0 ⟨[[7]],false⟩) (.saved (.ok ()))) ∈ v.state.log ∧
      (1,.replied (.finalizeChunk ['u'] ['/'] ['a']) (.finalized (.ok ['/','a']))) ∈ v.state.log ∧
      v.state.state.area.files = [] ∧ v.state.state.disk.bytes 0 = [] := by
  constructor
  · have hrun : ((begun emptyUploads).run gapRun).map (fun v =>
        (v.state.log.head?,v.state.log.all fun c => onlyOne c.2)) =
        some (some (1,.replied (.finalizeChunk ['u'] ['/'] ['a']) (.finalized (.ok ['/','a']))),true) := by
      decide +kernel
    have hdisk : ((begun emptyUploads).run gapRun).map (fun v =>
        (v.state.state.disk.tree.nodes,v.state.state.disk.bytes 0)) =
        some ([([['r'],['a']],.file 0),([['r']],.dir)],[7]) := by
      decide +kernel
    obtain ⟨v,hv,hst⟩ := Option.map_eq_some_iff.mp hrun
    obtain ⟨hhead,honly⟩ := Prod.mk.inj hst
    rw [hv] at hdisk
    obtain ⟨hnodes,hbytes⟩ := Prod.mk.inj (Option.some.inj hdisk)
    refine ⟨v,hv,fun hall => ?_⟩
    obtain ⟨absDir,parts,-,hcomposed,hindices,e,o,hnamed,hcontent⟩ :=
      hall 1 ['/'] ['a'] ['/','a'] (List.mem_of_mem_head? hhead)
    have ho : o = 0 := by
      rcases node_mem (Disk.named_ok.mp hnamed).2.2 with ⟨-,he⟩ | ⟨-,hm⟩
      · cases he
      · simp [hnodes] at hm
        exact hm.2
    rw [ho,hbytes] at hcontent
    -- a file that is not empty has a first chunk, and chunk 0 was never saved
    cases parts with
    | nil => cases hcontent
    | cons part parts =>
      have hzero : part.1 = 0 := by
        rw [List.length_cons,List.range_succ_eq_map] at hindices
        exact (List.cons.inj hindices).1
      obtain ⟨q,src,hr,-⟩ := (hcomposed.saved part List.mem_cons_self).2
      have hone := List.all_eq_true.mp honly _ hr
      simp [onlyOne,hzero] at hone
  · have hrun : ((begun emptyUploads).run tornRun).map (fun v => (v.state.log.filter fun c => c.2.isReply,
        v.state.state.area.files,v.state.state.disk.bytes 0)) =
        some ([(0,.replied (.saveChunk ['u'] 0 ⟨[[7]],false⟩) (.saved (.ok ()))),
          (1,.replied (.finalizeChunk ['u'] ['/'] ['a']) (.finalized (.ok ['/','a'])))],[],[]) := by
      decide +kernel
    obtain ⟨v,hv,hst⟩ := Option.map_eq_some_iff.mp hrun
    obtain ⟨hlog,hst⟩ := Prod.mk.inj hst
    obtain ⟨hfiles,hbytes⟩ := Prod.mk.inj hst
    have hmem {c : Nat × ChunkNote} (hc : c ∈ v.state.log.filter fun c => c.2.isReply) :
        c ∈ v.state.log := List.mem_of_mem_filter hc
    rw [hlog] at hmem
    exact ⟨v,hv,hmem List.mem_cons_self,hmem (List.mem_cons_of_mem _ List.mem_cons_self),hfiles,hbytes⟩

end Sample

end Transfer
