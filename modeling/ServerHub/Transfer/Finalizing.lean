import ServerHub.Transfer.Uploading

namespace Transfer

open Posix Posix.FileTree Interleave Interleave.Prog Interleave.Ledger

section Stages

-- a FinalizeChunk lists the directory of its own upload and makes no chunk
def ChunkNote.finalizes (session : Name) : ChunkNote → Bool
  | .listed s _ => s = session
  | .opened _ _ _ => false
  | .wrote _ _ => false
  | .stale _ => false
  | .replied _ _ => false
  | _ => true

def Finalizes (session : Name) (ns : List ChunkNote) : Prop := ∀ n ∈ ns, n.finalizes session = true

-- the chunks that are in the new file; the next to be written is pending
structure Collecting (u session : Name) (l : List ChunkFile) (p : Text) (e : Entry) (o : Nat)
    (fetched : List ChunkFile) (pending : Bytes) (ns : List ChunkNote) : Prop where
  finalizes : Finalizes session ns
  listed : .listed session l ∈ ns
  created : .created p e o ∈ ns
  whole : session = u → (gathered ns).map Prod.fst = fetched.map ChunkFile.inode
  copied : output ns ++ pending = ((gathered ns).map Prod.snd).flatten
  kept : ∀ p', .withdrawn p' ∉ ns
  present : ∀ f, .unlinked f ∉ ns

structure Delivered (u session : Name) (l : List ChunkFile) (p : Text) (e : Entry) (o : Nat)
    (ns : List ChunkNote) : Prop where
  finalizes : Finalizes session ns
  assembled : session = u → Assembled ns session l p e o
  unlinked : ∀ f, .unlinked f ∈ ns → f.session = u → f.session = session ∧ f ∈ l

structure Rejected (u session : Name) (l : List ChunkFile) (p : Text) (ns : List ChunkNote) : Prop where
  finalizes : Finalizes session ns
  listed : .listed session l ∈ ns
  withdrawn : .withdrawn p ∈ ns
  unlinked : ∀ f, .unlinked f ∈ ns → f.session = u → f.session = session ∧ f ∈ l

structure Refused (session : Name) (ns : List ChunkNote) : Prop where
  finalizes : Finalizes session ns
  present : ∀ f, .unlinked f ∉ ns

def Closed (root : Text) (u uploadID : Name) (filename : Name) :
    Except (Option AppError) Text → List ChunkNote → Prop
  | .ok t, ns => ∃ l p e o absDir, Delivered u uploadID l p e o ns ∧ t = toClientPath root p ∧
      p = joinPath absDir filename
  | .error err, ns => Refused uploadID ns ∨ err = some tooLarge ∧ ∃ l p, Rejected u uploadID l p ns

variable {u session : Name} {l fetched : List ChunkFile} {p : Text} {e : Entry} {o : Nat}
  {pending : Bytes} {ns : List ChunkNote} {n : ChunkNote}

theorem Finalizes.cons (h : Finalizes session ns) (hn : n.finalizes session = true) :
    Finalizes session (n :: ns) := by
  intro m hm
  rcases List.mem_cons.mp hm with rfl | hm
  · exact hn
  · exact h m hm

theorem Finalizes.silent (h : Finalizes session ns) : ∀ n ∈ ns, n.isReply = false := by
  intro n hn
  have hfinal := h n hn
  cases n <;> first | rfl | cases hfinal

theorem Collecting.note (h : Collecting u session l p e o fetched pending ns)
    (hn : n.finalizes session = true) (hg : n.gathers = false) (hu : ∀ f, n ≠ .unlinked f) :
    Collecting u session l p e o fetched pending (n :: ns) := by
  have hgathered : gathered (n :: ns) = gathered ns := gathered_other (by rintro i b rfl; cases hg) ns
  have houtput : output (n :: ns) = output ns := output_other (by rintro i b rfl; cases hg) ns
  refine ⟨h.finalizes.cons hn,List.mem_cons_of_mem _ h.listed,List.mem_cons_of_mem _ h.created,?_,?_,
    ?_,?_⟩
  · rw [hgathered]
    exact h.whole
  · rw [hgathered,houtput]
    exact h.copied
  · intro p' hp
    rcases List.mem_cons.mp hp with rfl | hp
    · cases hg
    · exact h.kept p' hp
  · intro f hf
    rcases List.mem_cons.mp hf with rfl | hf
    · exact hu f rfl
    · exact h.present f hf

theorem Collecting.read {f : ChunkFile} {b : Bytes} {i : Nat}
    (h : Collecting u session l p e o fetched [] ns) (hi : session = u → i = f.inode) :
    Collecting u session l p e o (fetched ++ [f]) b (.read i b :: ns) := by
  refine ⟨h.finalizes.cons rfl,List.mem_cons_of_mem _ h.listed,List.mem_cons_of_mem _ h.created,
    fun hu => ?_,?_,fun p' hp => h.kept p' ((List.mem_cons.mp hp).resolve_left nofun),
    fun f hf => h.present f ((List.mem_cons.mp hf).resolve_left nofun)⟩
  · simp [gathered,h.whole hu,hi hu]
  · have hcopied := h.copied
    rw [List.append_nil] at hcopied
    simp [gathered,output,hcopied]

theorem Collecting.copy {b : Bytes} (h : Collecting u session l p e o fetched b ns) :
    Collecting u session l p e o fetched [] (.copied o b :: ns) :=
  ⟨h.finalizes.cons rfl,List.mem_cons_of_mem _ h.listed,List.mem_cons_of_mem _ h.created,h.whole,by
    simpa [output,gathered] using h.copied,
    fun p' hp => h.kept p' ((List.mem_cons.mp hp).resolve_left nofun),
    fun f hf => h.present f ((List.mem_cons.mp hf).resolve_left nofun)⟩

theorem Collecting.delivered (h : Collecting u session l p e o l [] ns) :
    Delivered u session l p e o ns :=
  ⟨h.finalizes,fun hu => ⟨h.listed,h.created,h.whole hu,by simpa using h.copied,h.kept⟩,
    fun f hf => absurd hf (h.present f)⟩

theorem Collecting.refused (h : Collecting u session l p e o fetched pending ns) : Refused session ns :=
  ⟨h.finalizes,h.present⟩

theorem Refused.withdrawn (h : Refused session ns) : Refused session (.withdrawn p :: ns) :=
  ⟨h.finalizes.cons rfl,fun f hf => h.present f ((List.mem_cons.mp hf).resolve_left nofun)⟩

end Stages

section Steps

variable {root : Text} {maxUploadSize : Int} {u session : Name} {pid : Nat} {l fetched : List ChunkFile}
  {p : Text} {e : Entry} {o : Nat} {J : List ChunkNote → Prop}

theorem Coherent.listing {x : Traced Uploads ChunkNote} (hx : Coherent root u x) :
    (x.state.area.listing u).Pairwise Before := by
  have hnodup := ChunkArea.listing_nodup hx.directed.nodup
  refine (ChunkArea.listing_sorted.and hnodup).imp_of_mem ?_
  rintro f g hf hg ⟨hle,hne⟩
  obtain ⟨hf,hfu⟩ := ChunkArea.mem_listing.mp hf
  obtain ⟨hg,hgu⟩ := ChunkArea.mem_listing.mp hg
  exact ⟨hle,fun hname => hne (hx.directed.distinct f hf g hg hfu hgu hname)⟩

theorem traces_readDir (session : Name) :
    Traces root maxUploadSize u pid (· = []) (chunk (.readDir session)) fun r ns =>
      match r with
      | none => ns = []
      | some names => ∃ l, ns = [.listed session l] ∧ names = l.map ChunkFile.name := by
  refine tells_perform fun x t b hx hJ hallow hexec => ?_
  obtain ⟨rfl,rfl⟩ := Prod.mk.inj (Option.some.inj hexec)
  split
  · exact ⟨trivial,hx,hJ⟩
  · rename_i hopen
    have hhealthy : x.state.faulty = false := by
      by_contra hf
      exact hopen (by simp [hf])
    have hfirst : ∀ n, (pid,n) ∉ x.log := fun n hn => by
      have hmem := mem_notesOf.mpr hn
      rw [hJ] at hmem
      cases hmem
    refine ⟨trivial,⟨hx.payloads.note rfl rfl (by simp) (by simp),hx.reports.note (by simp) (by simp),?_,
      hx.copied.note (fun _ _ => ⟨fun _ => hfirst _,fun _ _ => hfirst _⟩) (by simp) (by simp) (by simp),
      hx.outputs.note (by simp) (by simp),hx.deliveries.note (by simp [ChunkNote.gathers]) (by simp)⟩,
      _,by rw [hJ]; rfl,rfl⟩
    by_cases hu : session = u
    · subst hu
      exact hx.directed.list (fun f => ChunkArea.mem_listing) hx.listing
        fun f hf hfu => (hallow rfl hhealthy f hf hfu).opener
    · exact hx.directed.note (by simp) (by simp) (by simpa using hu) (by simp) rfl (by rintro ⟨⟩)

theorem traces_totalSize (session : Name) (names : List Name) (total : Nat) :
    Traces root maxUploadSize u pid J (totalSize session names total) fun _ => J := by
  induction names generalizing total with
  | nil => exact tells_ret fun _ h => h
  | cons name names ih =>
    refine tells_bind (traces_quiet trivial) fun size => ?_
    cases size with
    | none => exact ih total
    | some n => exact ih (total + n)

theorem traces_createExcl (p : Text) :
    Traces root maxUploadSize u pid (· = [.listed session l]) (storage (.createExcl p)) fun r ns =>
      match r with
      | .ok o => ∃ e, ns = [.created p e o,.listed session l]
      | .error _ => ns = [.listed session l] := by
  refine tells_perform fun x t b hx hJ _ hexec => ?_
  obtain ⟨rfl,rfl⟩ := Prod.mk.inj (Option.some.inj hexec)
  have hfirst : ∀ n, (pid,n) ∈ x.log → n = .listed session l := fun n hn => by
    have hmem := mem_notesOf.mpr hn
    rw [hJ] at hmem
    exact List.mem_singleton.mp hmem
  cases hv : x.state.disk.vacantEntry p with
  | error err =>
    have hrun : x.state.disk.run (.createExcl p) = x.state.disk.failed err := by
      simp [Disk.run,Disk.createExcl,hv]
    rw [hrun]
    exact ⟨trivial,hx,hJ⟩
  | ok e =>
    have hrun : x.state.disk.run (.createExcl p) =
        ⟨x.state.disk.allocate e,.ok x.state.disk.next,[.create e]⟩ := by
      simp [Disk.run,Disk.createExcl,hv]
    have hnote : chunkNote (Except SysErr Nat) (.inl (.createExcl p)) x.state (.ok x.state.disk.next) =
        some (.created p e x.state.disk.next) := by
      simp [chunkNote,noteStorage,hv,Except.toOption]
    rw [hrun]
    show _ ∧ Coherent root u ⟨_,record pid x.log (chunkNote _ _ _ _)⟩ ∧ _
    rw [hnote]
    refine ⟨trivial,⟨hx.payloads.note rfl rfl (by simp) (by simp),hx.reports.note (by simp) (by simp),
      hx.directed.note (by simp) (by simp) (by simp) (by simp) rfl (by rintro ⟨⟩),
      hx.copied.note (by simp) (by simp) (by simp) (by simp),?_,
      hx.deliveries.note (by simp [ChunkNote.gathers]) (by simp)⟩,e,by rw [hJ]; rfl⟩
    refine hx.outputs.create (fun p' e' o' hc => ?_) ?_ hv
    · cases hfirst _ hc
    · rw [hJ]
      rfl

theorem traces_openRead (session name : Name) {f : ChunkFile} {rest : List ChunkFile}
    (hl : l = fetched ++ f :: rest) (hname : f.name = name) :
    Traces root maxUploadSize u pid (Collecting u session l p e o fetched [])
      (chunk (.openRead session name)) fun r ns => Collecting u session l p e o fetched [] ns ∧
        ∀ i, r = some i → session = u → i = f.inode := by
  refine tells_perform fun x t b hx hJ _ hexec => ?_
  have hrun : execChunk root pid (.openRead session name) x.state = some (t,b) := hexec
  simp only [execChunk] at hrun
  split at hrun
  · obtain ⟨rfl,rfl⟩ := Prod.mk.inj (Option.some.inj hrun)
    exact ⟨trivial,hx,hJ,(by simp)⟩
  · cases hfind : x.state.area.find session name with
    | none =>
      simp only [hfind] at hrun
      obtain ⟨rfl,rfl⟩ := Prod.mk.inj (Option.some.inj hrun)
      exact ⟨trivial,hx,hJ,(by simp)⟩
    | some g =>
      simp only [hfind] at hrun
      obtain ⟨rfl,rfl⟩ := Prod.mk.inj (Option.some.inj hrun)
      obtain ⟨hg,rfl,hgname⟩ := find_mem hfind
      have hfound : (⟨g.session,name,g.inode⟩ : ChunkFile) = g := by rw [← hgname]
      have hwindow {l' : List ChunkFile} (hl' : (pid,.listed u l') ∈ x.log) (hgu : g.session = u) :
          g ∈ l' := (hx.directed.collected hl').2.2 (not_done hJ.finalizes.silent) g hg hgu
      refine ⟨trivial,⟨hx.payloads.note rfl rfl (by simp) (by simp),hx.reports.note (by simp) (by simp),
        hx.directed.note (by simp) (by simp) (by simp) (by simp) rfl (by rintro ⟨⟩),?_,
        hx.outputs.note (by simp) (by simp),
        hx.deliveries.note (by simp [ChunkNote.gathers]) (by simp)⟩,
        hJ.note rfl rfl (by simp),?_⟩
      · refine hx.copied.note (by simp) (fun g' hn l' hl' hgu => ?_) (by simp) (by simp)
        obtain rfl := ChunkNote.found.inj hn
        rw [hfound] at hgu ⊢
        exact hwindow hl' hgu
      · rintro i hi rfl
        -- no two of the listed chunks have one name
        obtain rfl : g.inode = i := Option.some.inj hi
        have hlisted : (pid,.listed g.session l) ∈ x.log := mem_notesOf.mp hJ.listed
        have hsorted := (hx.directed.collected hlisted).2.1
        have hmem := hwindow hlisted rfl
        have hf : f ∈ l := by simp [hl]
        have hnodup : (l.map ChunkFile.name).Nodup := List.pairwise_map.mpr (hsorted.imp fun h => h.2)
        rw [List.inj_on_of_nodup_map hnodup hf hmem (hname.trans hgname.symm)]

theorem traces_read {i : Nat} {f : ChunkFile} (hi : session = u → i = f.inode) (hf : f ∈ l) :
    Traces root maxUploadSize u pid (Collecting u session l p e o fetched []) (chunk (.read i))
      fun r ns => match r with
        | none => Collecting u session l p e o fetched [] ns
        | some b => Collecting u session l p e o (fetched ++ [f]) b ns := by
  refine tells_perform fun x t b hx hJ _ hexec => ?_
  obtain ⟨rfl,rfl⟩ := Prod.mk.inj (Option.some.inj hexec)
  split
  · exact ⟨trivial,hx,hJ⟩
  · have hlisted : (pid,.listed session l) ∈ x.log := mem_notesOf.mp hJ.listed
    refine ⟨trivial,⟨hx.payloads.note rfl rfl (by simp) (by simp),hx.reports.note (by simp) (by simp),
      hx.directed.note (by simp) (by simp) (by simp) (by simp) rfl
        fun _ g hg => hJ.present g (mem_notesOf.mpr hg),?_,hx.outputs.note (by simp) (by simp),
      hx.deliveries.note (fun _ => not_done hJ.finalizes.silent) (by simp)⟩,hJ.read hi⟩
    refine hx.copied.note (by simp) (by simp) (fun i' b' hn l' hl' => ?_) (by simp)
    obtain ⟨rfl,rfl⟩ := ChunkNote.read.inj hn
    have hu : session = u := (of_decide_eq_true (hJ.finalizes _ (mem_notesOf.mpr hl'))).symm
    subst hu
    obtain ⟨hsession,p',hopened,hsaved⟩ := (hx.directed.collected hlisted).1 f hf
    refine ⟨f,p',(hi rfl).symm,hopened,hsaved,?_⟩
    rw [hi rfl]
    exact hx.payloads.content hopened

theorem traces_append (b : Bytes) :
    Traces root maxUploadSize u pid (Collecting u session l p e o fetched b) (storage (.append o b))
      fun _ => Collecting u session l p e o fetched [] := by
  refine tells_perform fun x t b' hx hJ _ hexec => ?_
  obtain ⟨rfl,rfl⟩ := Prod.mk.inj (Option.some.inj hexec)
  refine ⟨trivial,⟨hx.payloads.note rfl rfl (by simp) (by simp),hx.reports.note (by simp) (by simp),
    hx.directed.note (by simp) (by simp) (by simp) (by simp) rfl
      fun _ g hg => hJ.present g (mem_notesOf.mpr hg),
    hx.copied.note (by simp) (by simp) (by simp) (by simp),
    hx.outputs.copy (mem_notesOf.mp hJ.created),
    hx.deliveries.note (fun _ => not_done hJ.finalizes.silent) (by simp)⟩,hJ.copy⟩

theorem traces_withdraw :
    Traces root maxUploadSize u pid (Collecting u session l p e o fetched [])
      (storage (.remove p)) fun _ ns => Refused session ns ∧ .listed session l ∈ ns ∧ .withdrawn p ∈ ns := by
  refine tells_perform fun x t b hx hJ _ hexec => ?_
  obtain ⟨rfl,rfl⟩ := Prod.mk.inj (Option.some.inj hexec)
  refine ⟨trivial,⟨hx.payloads.note rfl rfl (by simp) (by simp),hx.reports.note (by simp) (by simp),
    hx.directed.note (by simp) (by simp) (by simp) (by simp) rfl
      fun _ g hg => hJ.present g (mem_notesOf.mpr hg),
    hx.copied.note (by simp) (by simp) (by simp) (by simp),
    hx.outputs.withdraw (mem_notesOf.mp hJ.created) fun p' hp => hJ.kept p' (mem_notesOf.mpr hp),
    hx.deliveries.note (fun _ => not_done hJ.finalizes.silent) (by simp)⟩,hJ.refused.withdrawn,
    List.mem_cons_of_mem _ hJ.listed,List.mem_cons_self⟩

theorem traces_discard (err : Option AppError) :
    Traces root maxUploadSize u pid (Collecting u session l p e o fetched []) (discard p err)
      fun r ns => r = some err ∧ Refused session ns :=
  tells_bind traces_withdraw fun _ => tells_ret fun _ h => ⟨rfl,h.1⟩

theorem traces_assemble {rest : List ChunkFile} (hl : l = fetched ++ rest) :
    Traces root maxUploadSize u pid (Collecting u session l p e o fetched [])
      (assemble o p session (rest.map ChunkFile.name)) fun r ns => match r with
        | some _ => Refused session ns
        | none => Collecting u session l p e o l [] ns := by
  have hrefused {err : Option AppError} {fetched : List ChunkFile} :
      Traces root maxUploadSize u pid (Collecting u session l p e o fetched []) (discard p err)
        fun r ns => match r with
          | some _ => Refused session ns
          | none => Collecting u session l p e o l [] ns := by
    refine tells_mono (fun _ h => h) ?_ (traces_discard err)
    rintro r ns ⟨rfl,h⟩
    exact h
  induction rest generalizing fetched with
  | nil =>
    rw [List.append_nil] at hl
    subst hl
    exact tells_ret fun _ h => h
  | cons f rest ih =>
    refine tells_bind (traces_quiet trivial) fun ended => ?_
    cases ended with
    | true => exact hrefused
    | false =>
      refine tells_bind (traces_openRead session f.name hl rfl) fun r => ?_
      cases r with
      | none => exact tells_mono (fun _ h => h.1) (fun _ _ h => h) hrefused
      | some i =>
        refine tells_mono (fun ns h => ⟨h.1,h.2 i rfl⟩) (fun _ _ h => h) (tells_given fun hi => ?_)
        refine tells_bind (traces_read hi (by simp [hl])) fun r => ?_
        cases r with
        | none => exact hrefused
        | some b => exact tells_bind (traces_append b) fun _ => ih (by simp [hl])

theorem traces_clear (hwhy : ∀ x f, Coherent root u x → J (notesOf pid x.log) → f ∈ x.state.area.files →
      f.session = session → f.session = u → Removed x.log pid f ∧ ∃ p, Opened x.log f p ∧ Done x.log p)
    (hstuck : ∀ ns, J ns → J (.stuck session :: ns)) (hswept : ∀ ns, J ns → J (.swept session :: ns))
    (hunlinked : ∀ x f, Coherent root u x → J (notesOf pid x.log) → f ∈ x.state.area.files →
      f.session = session → J (.unlinked f :: notesOf pid x.log)) :
    Traces root maxUploadSize u pid J (removeSession session) fun _ => J := by
  refine traces_removeSession (fun name => ?_) hswept
  refine traces_unlink (fun _ _ h => hstuck _ h) (fun _ _ h _ => h) ?_
  intro x f hx hJ hf hsession _
  refine ⟨fun hu => ?_,hunlinked x f hx hJ hf hsession⟩
  obtain ⟨hr,ho⟩ := hwhy x f hx hJ hf hsession hu
  exact ⟨hr,.inr ho⟩

theorem Coherent.listed_done {x : Traced Uploads ChunkNote} {f : ChunkFile} (hx : Coherent root u x)
    (hl : (pid,.listed session l) ∈ x.log) (hsilent : ∀ n ∈ notesOf pid x.log, n.isReply = false)
    (hf : f ∈ x.state.area.files) (hsession : f.session = session) (hu : f.session = u) :
    f ∈ l ∧ ∃ p, Opened x.log f p ∧ Done x.log p := by
  obtain rfl : session = u := hsession.symm.trans hu
  obtain ⟨hall,-,hwindow⟩ := hx.directed.collected hl
  have hmem := hwindow (not_done hsilent) f hf hu
  obtain ⟨-,p,hopened,hsaved⟩ := hall f hmem
  exact ⟨hmem,p,hopened,hsaved.done⟩

theorem no_reply {log : ChunkLog} {r : ChunkRequest} {a : ChunkAnswer}
    (h : ∀ n ∈ notesOf pid log, n.isReply = false) : (pid,.replied r a) ∉ log :=
  fun hm => nomatch h _ (mem_notesOf.mpr hm)

theorem traces_collected :
    Traces root maxUploadSize u pid
      (fun ns => Delivered u session l p e o ns ∧ .listed session l ∈ ns) (removeSession session)
      fun _ ns => Delivered u session l p e o ns ∧ .listed session l ∈ ns := by
  have hnote {n : ChunkNote} {ns : List ChunkNote} (hn : n.finalizes session = true)
      (hg : n.gathers = false) (hu : ∀ f, n = .unlinked f → f.session = u → f.session = session ∧ f ∈ l)
      (h : Delivered u session l p e o ns ∧ .listed session l ∈ ns) :
      Delivered u session l p e o (n :: ns) ∧ .listed session l ∈ n :: ns := by
    refine ⟨⟨h.1.finalizes.cons hn,fun he => (h.1.assembled he).note hg,fun f hf hfu => ?_⟩,
      List.mem_cons_of_mem _ h.2⟩
    rcases List.mem_cons.mp hf with he | hf
    · exact hu f he.symm hfu
    · exact h.1.unlinked f hf hfu
  refine traces_clear ?_ (fun ns => hnote rfl rfl (by simp)) (fun ns => hnote rfl rfl (by simp)) ?_
  · rintro x f hx ⟨hJ,hl⟩ hf hsession hu
    obtain ⟨hmem,hdone⟩ := hx.listed_done (mem_notesOf.mp hl) hJ.finalizes.silent hf hsession hu
    refine ⟨.delivered l p e o ?_ hmem fun r a hr => absurd hr (no_reply hJ.finalizes.silent),hdone⟩
    rw [hsession]
    exact hJ.assembled (hsession.symm.trans hu)
  · rintro x f hx hJ hf hsession
    refine hnote rfl rfl (fun g hg hgu => ?_) hJ
    obtain rfl := ChunkNote.unlinked.inj hg
    exact ⟨hsession,(hx.listed_done (mem_notesOf.mp hJ.2) hJ.1.finalizes.silent hf hsession hgu).1⟩

theorem traces_rejected :
    Traces root maxUploadSize u pid (Rejected u session l p) (removeSession session)
      fun _ => Rejected u session l p := by
  have hnote {n : ChunkNote} {ns : List ChunkNote} (hn : n.finalizes session = true)
      (hu : ∀ f, n = .unlinked f → f.session = u → f.session = session ∧ f ∈ l)
      (h : Rejected u session l p ns) : Rejected u session l p (n :: ns) := by
    refine ⟨h.finalizes.cons hn,List.mem_cons_of_mem _ h.listed,List.mem_cons_of_mem _ h.withdrawn,
      fun f hf hfu => ?_⟩
    rcases List.mem_cons.mp hf with he | hf
    · exact hu f he.symm hfu
    · exact h.unlinked f hf hfu
  refine traces_clear ?_ (fun ns => hnote rfl (by simp)) (fun ns => hnote rfl (by simp)) ?_
  · rintro x f hx hJ hf hsession hu
    have hlisted : (pid,.listed session l) ∈ x.log := mem_notesOf.mp hJ.listed
    obtain ⟨hmem,hdone⟩ := hx.listed_done hlisted hJ.finalizes.silent hf hsession hu
    exact ⟨.rejected l p (hsession ▸ hlisted) hmem (mem_notesOf.mp hJ.withdrawn)
      fun r a hr => absurd hr (no_reply hJ.finalizes.silent),hdone⟩
  · rintro x f hx hJ hf hsession
    refine hnote rfl (fun g hg hgu => ?_) hJ
    obtain rfl := ChunkNote.unlinked.inj hg
    exact ⟨hsession,(hx.listed_done (mem_notesOf.mp hJ.listed) hJ.finalizes.silent hf hsession hgu).1⟩

theorem traces_gather {uploadID : Name} {absDir : Text} {filename : Name} {names : List Name}
    (hnames : names = l.map ChunkFile.name) :
    Traces root maxUploadSize u pid (· = [.listed uploadID l])
      (gather root maxUploadSize uploadID (joinPath absDir filename) names)
      (Closed root u uploadID filename) := by
  have hidle {err : Option AppError} : Traces root maxUploadSize u pid (· = [.listed uploadID l])
      (.ret (.error err)) (Closed root u uploadID filename) :=
    tells_ret fun ns h => .inl (by subst h; exact ⟨by simp [Finalizes,ChunkNote.finalizes],by simp⟩)
  refine tells_bind (traces_totalSize uploadID names 0) fun total => ?_
  split
  · exact hidle
  · refine tells_bind (traces_createExcl _) fun r => ?_
    cases r with
    | error err => cases err <;> exact hidle
    | ok o =>
      refine tells_exists fun e => ?_
      subst hnames
      refine tells_bind (tells_mono (fun ns h => ?_) (fun _ _ h => h)
        (traces_assemble (e := e) (List.nil_append l).symm)) fun r => ?_
      · subst h
        exact ⟨by simp [Finalizes,ChunkNote.finalizes],by simp,by simp,fun _ => rfl,rfl,by simp,by simp⟩
      · cases r with
        | some err => exact tells_ret fun ns h => .inl h
        | none =>
          refine tells_bind (traces_quiet trivial) fun info => ?_
          dsimp only
          split
          · refine tells_bind (tells_mono (fun ns h => ⟨h.delivered,h.listed⟩) (fun _ _ h => h)
              traces_collected) fun _ => ?_
            exact tells_ret fun ns h => ⟨l,_,e,o,absDir,h.1,rfl,rfl⟩
          · refine tells_bind traces_withdraw fun _ => ?_
            refine tells_bind (tells_mono (fun ns h => ?_) (fun _ _ h => h)
              (traces_rejected (l := l) (p := joinPath absDir filename))) fun _ => ?_
            · exact ⟨h.1.finalizes,h.2.1,h.2.2,fun f hf => absurd hf (h.1.present f)⟩
            · exact tells_ret fun ns h => .inr ⟨rfl,l,_,h⟩

theorem traces_finalizeChunk (uploadID : Name) (destDir : Text) (filename : Name) :
    Traces root maxUploadSize u pid (· = [])
      (finalizeChunk root maxUploadSize uploadID destDir filename) (Closed root u uploadID filename) := by
  have hidle {err : Option AppError} : Traces root maxUploadSize u pid (· = []) (.ret (.error err))
      (Closed root u uploadID filename) :=
    tells_ret fun ns h => .inl (by subst h; exact ⟨nofun,nofun⟩)
  unfold finalizeChunk
  split
  · exact hidle
  · split
    · exact hidle
    · split
      · exact hidle
      · split
        · exact hidle
        · refine tells_bind (traces_quiet trivial) fun r => ?_
          cases r with
          | error err => exact hidle
          | ok absDir =>
            refine tells_bind (traces_quiet trivial) fun r => ?_
            cases r with
            | ok info => exact hidle
            | error err =>
              refine tells_bind (traces_readDir uploadID) fun r => ?_
              cases r with
              | none => exact hidle
              | some names =>
                exact tells_exists fun l => tells_given fun hnames => traces_gather hnames

end Steps

section Replies

variable {root : Text} {maxUploadSize : Int} {u : Name} {pid : Nat} {f : ChunkFile}
  {r : ChunkRequest} {a : ChunkAnswer}

def Told (root : Text) (u : Name) : ChunkRequest → ChunkAnswer → List ChunkNote → Prop
  | .saveChunk uploadID k src, .saved res, ns => Kept u uploadID k src res ns
  | .finalizeChunk uploadID _ filename, .finalized res, ns => Closed root u uploadID filename res ns
  | _, _, _ => False

theorem Kept.saves {uploadID : Name} {k : Int} {src : Source} {res : Except AppError Unit}
    {ns : List ChunkNote} (h : Kept u uploadID k src res ns) : ∀ n ∈ ns, n.saves = true := by
  cases res with
  | error e => exact Abandoned.saves h
  | ok _ =>
    obtain ⟨g,-,-,-,-,hw⟩ := h
    exact hw.saves

theorem Closed.finalizes {uploadID filename : Name} {res : Except (Option AppError) Text}
    {ns : List ChunkNote} (h : Closed root u uploadID filename res ns) : Finalizes uploadID ns := by
  cases res with
  | ok t =>
    obtain ⟨l,p,e,o,absDir,hd,-⟩ := h
    exact hd.finalizes
  | error err => exact h.elim (fun h => h.finalizes) fun ⟨_,_,_,h⟩ => h.finalizes

theorem Told.silent {ns : List ChunkNote} (h : Told root u r a ns) : ∀ n ∈ ns, n.isReply = false := by
  cases r with
  | saveChunk uploadID k src =>
    cases a with
    | finalized res => exact h.elim
    | saved res => exact fun n hn => ChunkNote.saves_silent (Kept.saves h n hn)
  | finalizeChunk uploadID destDir filename =>
    cases a with
    | saved res => exact h.elim
    | finalized res => exact (Closed.finalizes h).silent

theorem Coherent.reason {x : Traced Uploads ChunkNote} (hx : Coherent root u x)
    (h : Told root u r a (notesOf pid x.log)) (hf : (pid,.unlinked f) ∈ x.log) (hu : f.session = u) :
    Removed ((pid,.replied r a) :: x.log) pid f := by
  have hnote : .unlinked f ∈ notesOf pid x.log := mem_notesOf.mpr hf
  cases r with
  | saveChunk uploadID k src =>
    cases a with
    | finalized res => exact h.elim
    | saved res =>
      have hsaves := Kept.saves h
      cases (hx.directed.removed hf hu).1 with
      | own opened failed =>
        refine .own opened.mono fun hs => ?_
        rcases saved_cons.mp hs with ⟨-,hs⟩ | hs
        · cases res with
          | error e => cases hs
          | ok _ =>
            obtain ⟨g,-,-,-,-,hw⟩ := h
            obtain rfl := hx.payloads.once opened (mem_notesOf.mp hw.opened)
            exact hw.present hu hnote
        · exact failed hs
      | reaped stale => exact .reaped (List.mem_cons_of_mem _ stale)
      | rejected l p listed mem withdrawn replies => cases hsaves _ (mem_notesOf.mpr withdrawn)
      | delivered l p e o assembled mem replies => cases hsaves _ assembled.created
  | finalizeChunk uploadID destDir filename =>
    cases a with
    | saved res => exact h.elim
    | finalized res =>
      have hsilent : ∀ r a, (pid,.replied r a) ∉ x.log := fun r a => no_reply (Told.silent h)
      cases res with
      | ok t =>
        obtain ⟨l,p,e,o,absDir,hd,-⟩ := h
        obtain ⟨hsession,hmem⟩ := hd.unlinked f hnote hu
        refine .delivered l p e o ?_ hmem fun r a hr => ?_
        · rw [notesOf_self,hsession]
          exact (hd.assembled (hsession.symm.trans hu)).note rfl
        · rcases List.mem_cons.mp hr with he | hr
          · obtain ⟨-,rfl⟩ := ChunkNote.replied.inj (Prod.mk.inj he).2
            exact ⟨t,rfl⟩
          · exact absurd hr (hsilent _ _)
      | error err =>
        rcases h with h | ⟨rfl,l,p,h⟩
        · exact absurd hnote (h.present f)
        · obtain ⟨hsession,hmem⟩ := h.unlinked f hnote hu
          refine .rejected l p ?_ hmem (List.mem_cons_of_mem _ (mem_notesOf.mp h.withdrawn))
            fun r a hr => ?_
          · rw [hsession]
            exact List.mem_cons_of_mem _ (mem_notesOf.mp h.listed)
          · rcases List.mem_cons.mp hr with he | hr
            · exact (ChunkNote.replied.inj (Prod.mk.inj he).2).2
            · exact absurd hr (hsilent _ _)

theorem Coherent.reply {x : Traced Uploads ChunkNote} (hx : Coherent root u x)
    (h : Told root u r a (notesOf pid x.log)) : Coherent root u ⟨x.state,(pid,.replied r a) :: x.log⟩ := by
  refine ⟨hx.payloads.note rfl rfl (by simp) (by simp),hx.reports.note (by simp) fun r' hr => ?_,
    hx.directed.reply fun f hf hu => hx.reason h hf hu,
    hx.copied.note (by simp) (by simp) (by simp) (by simp),hx.outputs.note (by simp) (by simp),
    hx.deliveries.note (by simp [ChunkNote.gathers]) fun destDir filename t hr => ?_⟩
  · obtain ⟨rfl,rfl⟩ := ChunkNote.replied.inj hr
    cases r with
    | finalizeChunk uploadID destDir filename => exact h.elim
    | saveChunk uploadID k src =>
      obtain ⟨g,rfl,hname,hindex,hcut,hw⟩ := h
      exact ⟨g,k,src,rfl,hindex,hname,mem_notesOf.mp hw.opened,hw.amount,hcut⟩
  · obtain ⟨rfl,rfl⟩ := ChunkNote.replied.inj hr
    obtain ⟨l,p,e,o,absDir,hd,ht,hp⟩ := h
    exact ⟨l,p,e,o,absDir,hd.assembled rfl,ht,hp⟩

theorem traces_reply :
    Traces root maxUploadSize u pid (Told root u r a) (chunk (.reply r a)) fun _ ns =>
      ∃ ms, ns = .replied r a :: ms ∧ Told root u r a ms := by
  refine tells_perform fun x t b hx hJ _ hexec => ?_
  obtain ⟨rfl,-⟩ := Prod.mk.inj (Option.some.inj hexec)
  exact ⟨trivial,hx.reply hJ,_,rfl,hJ⟩

theorem traces_handleChunk (hmax : Go.int64 (maxUploadSize + 1) = maxUploadSize + 1) (r : ChunkRequest) :
    Traces root maxUploadSize u pid (· = []) (handleChunk root maxUploadSize r) fun a ns =>
      ∃ ms, ns = .replied r a :: ms ∧ Told root u r a ms := by
  have hanswer : Traces root maxUploadSize u pid (· = []) (answerChunk root maxUploadSize r)
      (Told root u r) := by
    cases r with
    | saveChunk uploadID k src =>
      refine tells_bind (tells_mono (J := Sweeping) ?_ (fun _ _ h => h)
        (traces_saveChunk hmax uploadID k src)) fun res => tells_ret fun ns h => h
      rintro ns rfl
      exact nofun
    | finalizeChunk uploadID destDir filename =>
      exact tells_bind (traces_finalizeChunk uploadID destDir filename) fun res => tells_ret fun ns h => h
  exact tells_bind hanswer fun a => tells_bind traces_reply fun _ => tells_ret fun ns h => h

end Replies

end Transfer
