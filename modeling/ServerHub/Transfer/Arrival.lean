import ServerHub.Transfer.Solitary
import ServerHub.Transfer.Wholeness

namespace Transfer

open Posix Posix.FileTree Interleave Interleave.Prog Interleave.Ledger

section Undisturbed

-- until now nobody has listed the directory of the upload and no sweep has found it stale, and the chunks
-- of its failed SaveChunk calls could be removed
def Arriving (u : Name) (_ : Nat) (x : Traced Uploads ChunkNote) : {β : Type} → ChunkOp β → Prop
  | _, .inr (.readDir session) => session ≠ u
  | _, .inr (.isStale session cutoff) => session = u → x.state.stale session cutoff = false
  | _, .inr (.unlink session _) => session = u → x.state.faulty = false
  | _, _ => True

def ChunkNote.disturbs (u : Name) : ChunkNote → Bool
  | .listed s _ => s = u
  | .stale s => s = u
  | .stuck s => s = u
  | _ => false

variable {root : Text} {maxUploadSize : Int} {u : Name} {pid : Nat} {β : Type}

theorem noteStorage_calm {d : Disk} {c : Syscall β} {b : β} {n : ChunkNote}
    (h : noteStorage d c b = some n) : n.disturbs u = false := by
  cases c with
  | createExcl p =>
    cases b with
    | error e => cases h
    | ok i =>
      obtain ⟨e,-,rfl⟩ := Option.map_eq_some_iff.mp h
      rfl
  | append i b =>
    obtain rfl := Option.some.inj h
    rfl
  | remove p =>
    obtain rfl := Option.some.inj h
    rfl
  | _ => cases h

theorem noteChunk_calm {c : ChunkCall β} {x : Traced Uploads ChunkNote} {t : Uploads} {b : β}
    {n : ChunkNote} (hi : Arriving u pid x (.inr c)) (hexec : execChunk root pid c x.state = some (t,b))
    (h : noteChunk c x.state b = some n) : n.disturbs u = false := by
  cases c with
  | isStale session cutoff =>
    cases b with
    | false => cases h
    | true =>
      obtain rfl := Option.some.inj h
      have hstale : x.state.stale session cutoff = true := (Prod.mk.inj (Option.some.inj hexec)).2
      exact decide_eq_false fun hu => by simp [hi hu] at hstale
  | unlink session name =>
    simp only [noteChunk] at h
    split at h
    · rename_i hfault
      obtain rfl := Option.some.inj h
      exact decide_eq_false fun hu => by simp [hi hu] at hfault
    · obtain ⟨f,-,rfl⟩ := Option.map_eq_some_iff.mp h
      rfl
  | readDir session =>
    cases b with
    | none => cases h
    | some names =>
      obtain rfl := Option.some.inj h
      exact decide_eq_false hi
  | openExcl session name | openRead session name | read i =>
    cases b with
    | _ => first | cases h; done | (obtain rfl := Option.some.inj h; rfl)
  | write i b' =>
    cases b with
    | false => cases h
    | true =>
      obtain rfl := Option.some.inj h
      rfl
  | rmdir session | reply r a =>
    obtain rfl := Option.some.inj h
    rfl
  | _ => cases h

theorem arriving_note {i : ChunkOp β} {x : Traced Uploads ChunkNote} {t : Uploads} {b : β}
    {n : ChunkNote} (hi : Arriving u pid x i) (hexec : exec root pid i x.state = some (t,b))
    (h : chunkNote β i x.state b = some n) : n.disturbs u = false := by
  cases i with
  | inl c => exact noteStorage_calm h
  | inr c => exact noteChunk_calm hi hexec h

theorem hasSession_touch {a : ChunkArea} {session : Name} {n : Int} (h : a.hasSession u = true) :
    ({ a with sessions := a.touch session n } : ChunkArea).hasSession u = true := by
  obtain ⟨c,hc,hu⟩ := List.any_eq_true.mp h
  refine List.any_eq_true.mpr ⟨_,List.mem_map_of_mem hc,?_⟩
  split
  · exact hu
  · exact hu

def Housed (u : Name) (a : ChunkArea) : Prop := ∀ f ∈ a.files, f.session = u → a.hasSession u = true

theorem housed_exec {c : ChunkCall β} {s t : Uploads} {b : β} (h : Housed u s.area)
    (hexec : execChunk root pid c s = some (t,b)) : Housed u t.area := by
  cases c with
  | mkdirAll session =>
    simp only [execChunk] at hexec
    split at hexec
    · obtain ⟨rfl,-⟩ := Prod.mk.inj (Option.some.inj hexec)
      exact h
    · split at hexec
      · obtain ⟨rfl,-⟩ := Prod.mk.inj (Option.some.inj hexec)
        exact h
      · obtain ⟨rfl,-⟩ := Prod.mk.inj (Option.some.inj hexec)
        intro f hf hu
        have hold := h f hf hu
        simp only [ChunkArea.hasSession] at hold ⊢
        simp [hold]
  | openExcl session name =>
    simp only [execChunk] at hexec
    cases hopen : s.opening session name with
    | error e =>
      simp only [hopen] at hexec
      obtain ⟨rfl,-⟩ := Prod.mk.inj (Option.some.inj hexec)
      exact h
    | ok a =>
      simp only [hopen] at hexec
      obtain ⟨rfl,-⟩ := Prod.mk.inj (Option.some.inj hexec)
      unfold Uploads.opening at hopen
      split at hopen
      · cases hopen
      · split at hopen
        · cases hopen
        · split at hopen
          · cases hopen
          · rename_i hsession _
            obtain rfl := Except.ok.inj hopen
            intro f hf hu
            have hhere : s.area.hasSession u = true := by
              rcases List.mem_cons.mp hf with rfl | hf
              · simpa [← hu] using hsession
              · exact h f hf hu
            exact hasSession_touch hhere
  | unlink session name =>
    simp only [execChunk] at hexec
    split at hexec
    · obtain ⟨rfl,-⟩ := Prod.mk.inj (Option.some.inj hexec)
      exact h
    · obtain ⟨rfl,-⟩ := Prod.mk.inj (Option.some.inj hexec)
      exact fun f hf hu => hasSession_touch (h f (List.mem_of_mem_filter hf) hu)
  | rmdir session =>
    obtain ⟨rfl,-⟩ := Prod.mk.inj (Option.some.inj hexec)
    intro f hf hu
    have hfiles : (s.rmdir session).files = s.area.files := by
      unfold Uploads.rmdir
      split <;> rfl
    have hf' : f ∈ s.area.files := hfiles ▸ hf
    show (s.rmdir session).hasSession u = true
    unfold Uploads.rmdir
    split
    · exact h f hf' hu
    · rename_i hempty
      obtain ⟨c,hc,hcu⟩ := List.any_eq_true.mp (h f hf' hu)
      refine List.any_eq_true.mpr ⟨c,List.mem_filter.mpr ⟨hc,?_⟩,hcu⟩
      refine decide_eq_true fun hs => hempty ?_
      have hin : (s.area.files.any fun f => decide (f.session = session)) = true :=
        List.any_eq_true.mpr ⟨f,hf',decide_eq_true (hu.trans ((of_decide_eq_true hcu).symm.trans hs))⟩
      simp [hin]
  | write i b' =>
    simp only [execChunk] at hexec
    split at hexec <;>
    · obtain ⟨rfl,-⟩ := Prod.mk.inj (Option.some.inj hexec)
      exact h
  | _ =>
    obtain ⟨rfl,-⟩ := Prod.mk.inj (Option.some.inj hexec)
    exact h

structure Calm (u : Name) (x : Traced Uploads ChunkNote) : Prop where
  log : ∀ c ∈ x.log, c.2.disturbs u = false
  housed : Housed u x.state.area

variable {w v : World (tracedUploads root maxUploadSize)} {e : Event (tracedUploads root maxUploadSize)}

theorem Calm.step (h : Calm u w.state) (hc : Landing (Arriving u) w e) (hs : w.step e = some v) :
    Calm u v.state := by
  cases e with
  | start pid r => exact (step_start hs).2.1 ▸ h
  | env e =>
    obtain ⟨hact,hlog⟩ := env_observe (step_env hs).1
    refine ⟨hlog ▸ h.log,?_⟩
    rw [(act_same hact).1]
    exact h.housed
  | act pid =>
    obtain ⟨β,i,k,b,hp,hx,-⟩ := step_act hs
    have hallow := hc β i k hp v.state b hx
    obtain ⟨hexec,hlog⟩ := exec_observe hx
    refine ⟨?_,?_⟩
    · rw [hlog]
      intro c hmem
      cases hn : chunkNote β i w.state.state b with
      | none =>
        rw [hn] at hmem
        exact h.log c hmem
      | some n =>
        rw [hn] at hmem
        rcases List.mem_cons.mp hmem with rfl | hmem
        · exact arriving_note hallow hexec hn
        · exact h.log c hmem
    · cases i with
      | inl c =>
        obtain ⟨ht,-⟩ := Prod.mk.inj (Option.some.inj hexec)
        exact ht ▸ h.housed
      | inr c => exact housed_exec h.housed hexec

theorem Calm.undisturbed (h : Calm u w.state) (hc : Landing (Arriving u) w e) :
    Landing (Undisturbed u) w e := by
  have hnot {n : ChunkNote} (hn : n.disturbs u = true) (q : Nat) : (q,n) ∉ w.state.log :=
    fun hm => by simp [h.log _ hm] at hn
  cases e with
  | start pid r => trivial
  | env e => trivial
  | act pid =>
    intro β i k hp t b hx
    have hallow := hc β i k hp t b hx
    cases i with
    | inl c => trivial
    | inr c =>
      cases c with
      | readDir session => exact fun hu => absurd hu hallow
      | isStale session cutoff => exact fun hu hstale => by simp [hallow hu] at hstale
      | openExcl session name =>
        rintro - - ⟨⟨q,n⟩,hm,⟨hl,-⟩ | hr⟩
        · cases n with
          | listed s l => exact hnot (n := .listed s l) hl q hm
          | _ => cases hl
        · exact hnot (n := .stale u) (decide_eq_true rfl) q (mem_notesOf.mp (reaping_stale hr))
      | _ => trivial

end Undisturbed

section Quiescent

variable {root : Text} {maxUploadSize : Int} {u : Name} {s : Uploads}
  {before : List (Event (tracedUploads root maxUploadSize))} {w : World (tracedUploads root maxUploadSize)}

-- b is the payload of a SaveChunk for the index k that has reported success
def Received (u : Name) (before : List (Event (tracedUploads root maxUploadSize)))
    (w : World (tracedUploads root maxUploadSize)) (k : Int) (b : Bytes) : Prop :=
  ∃ q src, .start q (.saveChunk u k src) ∈ before ∧ w.answer q = some (.saved (.ok ())) ∧ src.payload = b

structure Resting (root : Text) (u : Name) (before : List (Event (tracedUploads root maxUploadSize)))
    (w : World (tracedUploads root maxUploadSize)) : Prop where
  coherent : Coherent root u w.state
  calm : Calm u w.state
  told : ∀ q n, (q,n) ∈ w.state.log → ∃ r a ms, .start q r ∈ before ∧ w.answer q = some a ∧
    notesOf q w.state.log = .replied r a :: ms ∧ Told root u r a ms
  started : ∀ q r, .start q r ∈ before → ∃ a ms, w.answer q = some a ∧
    notesOf q w.state.log = .replied r a :: ms

theorem resting (hmax : Go.int64 (maxUploadSize + 1) = maxUploadSize + 1)
    (h : ∀ f ∈ s.area.files, f.session ≠ u) (hc : Along (Landing (Arriving u)) (begun s) before)
    (hw : (begun s).run before = some w)
    (hdone : ∀ q r, .start q r ∈ before → w.returned q = true) : Resting root u before w := by
  have hcalm : Calm u (begun s : World (tracedUploads root maxUploadSize)).state :=
    ⟨nofun,fun f hf hu => absurd hu (h f hf)⟩
  have hquiet : Along (Landing (Undisturbed u)) (begun s) before :=
    along_mono (I := fun w => Calm u w.state) (fun _ _ _ hi hc hs => hi.step hc hs)
      (fun _ _ hi hc => hi.undisturbed hc) hcalm hc
  obtain ⟨hcoherent,htold⟩ := coherent_run hmax h hquiet hw
  refine ⟨hcoherent,along_invariant (I := fun w => Calm u w.state)
    (fun _ _ _ hi hc hs => hi.step hc hs) hcalm hc hw,?_,?_⟩
  · intro q n hm
    obtain ⟨r,hr⟩ := caller_started hw hm
    obtain ⟨a,ha⟩ := World.returned_iff.mp (hdone q r hr)
    obtain ⟨ms,hms,hr'⟩ := htold q r a hr ha
    exact ⟨r,a,ms,hr,World.answer_eq.mpr ha,hms,hr'⟩
  · intro q r hr
    obtain ⟨a,ha⟩ := World.returned_iff.mp (hdone q r hr)
    obtain ⟨ms,hms,-⟩ := htold q r a hr ha
    exact ⟨a,ms,World.answer_eq.mpr ha,hms⟩

variable (h : Resting root u before w)
include h

theorem Resting.undisturbed {q : Nat} {n : ChunkNote} (hn : n.disturbs u = true) :
    (q,n) ∉ w.state.log :=
  fun hm => by simp [h.calm.log _ hm] at hn

theorem Resting.file_saved {f : ChunkFile} (hf : f ∈ w.state.state.area.files) (hu : f.session = u) :
    ∃ k, (0 ≤ k ∧ k ≤ 99999) ∧ f.name = chunkName k.toNat ∧
      SavedAs u w.state.log k (w.state.state.area.bytes f.inode) := by
  obtain ⟨q,ho⟩ := h.coherent.directed.origin f hf hu
  obtain ⟨r,a,ms,hr,ha,hnotes,htold⟩ := h.told q _ ho
  have hopened : .opened f.session f.name f.inode ∈ ms := by
    have hmem := mem_notesOf.mpr ho
    rw [hnotes] at hmem
    exact (List.mem_cons.mp hmem).resolve_left nofun
  have hlog {n : ChunkNote} (hn : n ∈ ms) : (q,n) ∈ w.state.log :=
    mem_notesOf.mp (hnotes ▸ List.mem_cons_of_mem _ hn)
  cases r with
  | finalizeChunk uploadID destDir filename =>
    cases a with
    | saved res => exact htold.elim
    | finalized res => cases Closed.finalizes htold _ hopened
  | saveChunk uploadID k src =>
    cases a with
    | finalized res => exact htold.elim
    | saved res =>
      cases res with
      | ok _ =>
        have hreply : (q,.replied (.saveChunk uploadID k src) (.saved (.ok ()))) ∈ w.state.log :=
          mem_notesOf.mp (hnotes ▸ List.mem_cons_self)
        exact h.coherent.saved_file ho (saved_iff.mpr ⟨_,hreply⟩) hu
      | error err =>
        rcases Abandoned.unlinked htold f hopened hu with hgone | hstuck
        · exact absurd hf (h.coherent.directed.gone (hlog hgone) hu)
        · exact absurd (hlog hstuck) (h.undisturbed (decide_eq_true rfl))

theorem Resting.saved_file {k : Int} {b : Bytes} (hs : SavedAs u w.state.log k b) :
    ∃ f ∈ w.state.state.area.files, f.session = u ∧ (0 ≤ k ∧ k ≤ 99999) ∧ f.name = chunkName k.toNat ∧
      w.state.state.area.bytes f.inode = b := by
  obtain ⟨q,src,hr,-,rfl⟩ := hs
  obtain ⟨f,hu,hindex,hname,ho,hsaved,hbytes⟩ := h.coherent.file_saved hr
  refine ⟨f,?_,hu,hindex,hname,hbytes⟩
  refine (h.coherent.directed.placed ho hu).resolve_right ?_
  rintro ⟨p,hp⟩
  cases (h.coherent.directed.removed hp hu).1 with
  | own opened failed =>
    obtain ⟨rfl,-⟩ := h.coherent.payloads.single opened ho rfl
    exact failed hsaved
  | reaped stale => exact h.undisturbed (n := .stale f.session) (decide_eq_true hu) stale
  | rejected l p' listed mem withdrawn replies =>
    exact h.undisturbed (n := .listed f.session l) (decide_eq_true hu) listed
  | delivered l p' e o assembled mem replies =>
    exact h.undisturbed (n := .listed f.session l) (decide_eq_true hu) (mem_notesOf.mp assembled.listed)

theorem Resting.received {k : Int} {b : Bytes} : SavedAs u w.state.log k b ↔ Received u before w k b := by
  constructor
  · rintro ⟨q,src,hr,-,rfl⟩
    obtain ⟨r,a,ms,hstart,ha,hnotes,htold⟩ := h.told q _ hr
    have hmem := mem_notesOf.mpr hr
    rw [hnotes] at hmem
    rcases List.mem_cons.mp hmem with he | hmem
    · obtain ⟨rfl,rfl⟩ := ChunkNote.replied.inj he
      exact ⟨q,src,hstart,ha,rfl⟩
    · cases Told.silent htold _ hmem
  · rintro ⟨q,src,hstart,ha,rfl⟩
    obtain ⟨a,ms,ha',hnotes⟩ := h.started q _ hstart
    obtain rfl : a = .saved (.ok ()) := Option.some.inj (ha'.symm.trans ha)
    have hr : (q,.replied (.saveChunk u k src) (.saved (.ok ()))) ∈ w.state.log :=
      mem_notesOf.mp (hnotes ▸ List.mem_cons_self)
    obtain ⟨f,k',src',he,hstored⟩ := h.coherent.reports q _ hr
    obtain ⟨-,-,rfl⟩ := ChunkRequest.saveChunk.inj he
    exact ⟨q,src,hr,hstored.complete,rfl⟩

theorem Resting.find_listed {f : ChunkFile} (hf : f ∈ w.state.state.area.listing u) :
    w.state.state.area.find u f.name = some f := by
  obtain ⟨hmem,hu⟩ := ChunkArea.mem_listing.mp hf
  cases hfind : w.state.state.area.find u f.name with
  | none =>
    have hmiss := List.find?_eq_none.mp hfind f hmem
    simp [hu] at hmiss
  | some g =>
    obtain ⟨hg,hgu,hname⟩ := find_mem hfind
    rw [h.coherent.directed.distinct g hg f hmem hgu hu hname]

theorem Resting.hasSession {f : ChunkFile} (hf : f ∈ w.state.state.area.listing u) :
    w.state.state.area.hasSession u = true := by
  obtain ⟨hmem,hu⟩ := ChunkArea.mem_listing.mp hf
  exact h.calm.housed f hmem hu

theorem Resting.parts : ∃ parts : List (Int × Bytes), (parts.map Prod.fst).Pairwise (· < ·) ∧
    (∀ k b, (k,b) ∈ parts ↔ Received u before w k b) ∧
    parts.map Prod.snd =
      (w.state.state.area.listing u).map fun f => w.state.state.area.bytes f.inode := by
  have hfiles : ∀ f ∈ w.state.state.area.listing u, ∃ k, (0 ≤ k ∧ k ≤ 99999) ∧ f.name = chunkName k.toNat ∧
      SavedAs u w.state.log k (w.state.state.area.bytes f.inode) := by
    intro f hf
    obtain ⟨hmem,hu⟩ := ChunkArea.mem_listing.mp hf
    exact h.file_saved hmem hu
  obtain ⟨parts,hordered,hbytes,hparts,hall⟩ := parts_of h.coherent.listing hfiles
  refine ⟨parts,hordered,fun k b => ?_,hbytes⟩
  rw [← h.received]
  constructor
  · exact fun hmem => (hparts (k,b) hmem).2.1
  · intro hs
    obtain ⟨f,hmem,hu,hrange,hname,rfl⟩ := h.saved_file hs
    exact hall f (ChunkArea.mem_listing.mpr ⟨hmem,hu⟩) k hrange hname

end Quiescent

section Following

variable {root : Text} {maxUploadSize : Int} {u : Name}

theorem Concluded.mono {d d' : Disk} {destDir : Text} {filename : Name} {b : Bytes} {calm calm' : Prop}
    {r : Except (Option AppError) Text} (hcalm : calm' → calm)
    (h : Concluded root maxUploadSize d u destDir filename b calm r d') :
    Concluded root maxUploadSize d u destDir filename b calm' r d' := by
  unfold Concluded at h ⊢
  split
  · rename_i hnone
    rwa [hnone] at h
  · rename_i p hp
    rw [hp] at h
    exact { h with large := fun hc => h.large (hcalm hc) }

theorem beside_env {e : ChunkEnv} {calm : Prop} {x y : Traced Uploads ChunkNote}
    (hcalm : calm → e ≠ .fault true) (h : (tracedUploads root maxUploadSize).env e x = some y) :
    Beside calm x y := by
  obtain ⟨hact,-⟩ := env_observe h
  obtain ⟨harea,hdisk,hfaulty⟩ := act_same hact
  refine ⟨harea,hdisk,fun hc hx => ?_⟩
  by_cases hon : ∃ on, e = .fault on
  · obtain ⟨on,rfl⟩ := hon
    cases on with
    | true => exact absurd rfl (hcalm hc)
    | false => exact congrArg Uploads.faulty (Option.some.inj hact).symm
  · exact (hfaulty fun on he => hon ⟨on,he⟩).trans hx

-- no call on the chunk area fails while these events happen
def Healthy (w : World (tracedUploads root maxUploadSize))
    (after : List (Event (tracedUploads root maxUploadSize))) : Prop :=
  w.state.state.faulty = false ∧ .env (.fault true) ∉ after

theorem chunks_assembled {s : Uploads} {before after : List (Event (tracedUploads root maxUploadSize))}
    {w v : World (tracedUploads root maxUploadSize)} {q : Nat} {destDir : Text} {filename : Name}
    {c : ChunkAnswer} (hmax : Go.int64 (maxUploadSize + 1) = maxUploadSize + 1)
    (hroot : isAbs root = true) (h : ∀ f ∈ s.area.files, f.session ≠ u)
    (hc : Along (Landing (Arriving u)) (begun s) before) (hw : (begun s).run before = some w)
    (hdone : ∀ p r, .start p r ∈ before → w.returned p = true) (hafter : ∀ e ∈ after, e.By q)
    (hv : w.run (.start q (.finalizeChunk u destDir filename) :: after) = some v)
    (ha : v.answer q = some c) :
    ∃ parts : List (Int × Bytes), (parts.map Prod.fst).Pairwise (· < ·) ∧
      (∀ k b, (k,b) ∈ parts ↔ Received u before w k b) ∧
      ∃ r, c = .finalized r ∧
        Concluded root maxUploadSize w.state.state.disk u destDir filename
          (parts.map Prod.snd).flatten (Healthy w after ∧ parts ≠ []) r v.state.state.disk := by
  have hresting := resting hmax h hc hw hdone
  obtain ⟨parts,hordered,hparts,hbytes⟩ := hresting.parts
  refine ⟨parts,hordered,hparts,?_⟩
  obtain ⟨w',hstart,hrest⟩ := Option.bind_eq_some_iff.mp hv
  obtain ⟨-,hstate,hpool⟩ := step_start hstart
  have hleaves : Alone root maxUploadSize q (Healthy w after)
      (Finds w.state.state.area w.state.state.disk (Healthy w after))
      (handleChunk root maxUploadSize (.finalizeChunk u destDir filename)) _ :=
    alone_handleChunk hroot fun f hf => hresting.find_listed hf
  have hhandle : w'.pool q = some (handleChunk root maxUploadSize (.finalizeChunk u destDir filename)) := by
    rw [hpool,Function.update_self]
    rfl
  obtain ⟨x,⟨r,rfl,hr⟩,hx⟩ := solo_run (E := Beside (Healthy w after))
    (fun _ => ⟨rfl,rfl,fun _ hf => hf⟩)
    (fun _ _ _ h₁ h₂ => ⟨h₂.1.trans h₁.1,h₂.2.1.trans h₁.2.1,fun hc hf => h₂.2.2 hc (h₁.2.2 hc hf)⟩)
    hafter (fun e he _ _ henv => beside_env (fun hc => by rintro rfl; exact hc.2 he) henv)
    hhandle (hleaves w.state ⟨rfl,rfl,fun hc => hc.1⟩)
    (hstate ▸ ⟨rfl,rfl,fun _ hf => hf⟩) hrest (World.answer_eq.mp ha)
  refine ⟨r,rfl,?_⟩
  rw [hbytes,hx.2.1]
  refine Concluded.mono (fun hc => ⟨hc.1,?_⟩) hr
  obtain ⟨f,hf⟩ := List.exists_mem_of_ne_nil (w.state.state.area.listing u) (by
    rintro hnil
    rw [hnil] at hbytes
    exact hc.2 (List.map_eq_nil_iff.mp hbytes))
  exact hresting.hasSession hf

instance arrivingDecidable (u : Name) (pid : Nat) (x : Traced Uploads ChunkNote) (β : Type) :
    (i : ChunkOp β) → Decidable (Arriving u pid x i)
  | .inr (.readDir session) => inferInstanceAs (Decidable (session ≠ u))
  | .inr (.isStale session cutoff) => inferInstanceAs (Decidable (session = u →
      x.state.stale session cutoff = false))
  | .inr (.unlink session _) => inferInstanceAs (Decidable (session = u → x.state.faulty = false))
  | .inl _ => isTrue trivial
  | .inr .sessionDirs | .inr .now | .inr (.mkdirAll _) | .inr (.openExcl _ _) | .inr (.write _ _)
  | .inr (.close _) | .inr (.size _ _) | .inr (.openRead _ _) | .inr (.read _) | .inr (.leftovers _)
  | .inr (.rmdir _) | .inr (.resolve _) | .inr .cancelled | .inr (.reply _ _) => isTrue trivial

instance (w : World sampleUploads) (e : Event sampleUploads) :
    Decidable (Landing (Arriving ['u']) w e) :=
  landingDecidable (S := sampleUploads) (Arriving ['u']) (h := arrivingDecidable ['u']) w e

def twoChunks : List (Event sampleUploads) := saved 0 1 [8] 7 ++ saved 2 0 [7] 8

def finalized (destDir : Text) (filename : Name) (steps : Nat) : List (Event sampleUploads) :=
  .start 1 (.finalizeChunk ['u'] destDir filename) :: List.replicate steps (.act 1)

instance : DecidableEq (tracedUploads root maxUploadSize).Answer := inferInstanceAs (DecidableEq ChunkAnswer)

theorem two_chunks_assembled : ∃ w v, (begun emptyUploads).run twoChunks = some w ∧
    w.run (finalized ['/'] ['a'] 20) = some v ∧ v.answer 1 = some (.finalized (.ok ['/','a'])) ∧
    ∃ parts : List (Int × Bytes), (parts.map Prod.fst).Pairwise (· < ·) ∧
      (∀ k b, (k,b) ∈ parts ↔ Received ['u'] twoChunks w k b) ∧
      ∃ r, ChunkAnswer.finalized (.ok ['/','a']) = .finalized r ∧
        Concluded ['/','r'] 100 w.state.state.disk ['u'] ['/'] ['a'] (parts.map Prod.snd).flatten
          (Healthy w (List.replicate 20 (.act 1)) ∧ parts ≠ []) r v.state.state.disk := by
  have hrun : ((begun emptyUploads).run twoChunks).bind (fun w =>
      (w.run (finalized ['/'] ['a'] 20)).map fun v => (w.returned 0 && w.returned 2,v.answer 1)) =
      some (true,some (.finalized (.ok ['/','a']))) := by
    decide +kernel
  obtain ⟨w,hw,hrest⟩ := Option.bind_eq_some_iff.mp hrun
  obtain ⟨v,hv,hst⟩ := Option.map_eq_some_iff.mp hrest
  obtain ⟨hdone,ha⟩ := Prod.mk.inj hst
  obtain ⟨hzero,htwo⟩ := Bool.and_eq_true_iff.mp hdone
  refine ⟨w,v,hw,hv,ha,chunks_assembled (by decide) (by decide) (by simp [emptyUploads])
    (by decide +kernel) hw ?_ ?_ hv ha⟩
  · intro p r hr
    simp only [twoChunks,saved,List.mem_append,List.mem_cons,List.mem_replicate] at hr
    rcases hr with (he | ⟨-,he⟩) | he | ⟨-,he⟩
    · obtain ⟨rfl,-⟩ := Event.start.inj he
      exact hzero
    · cases he
    · obtain ⟨rfl,-⟩ := Event.start.inj he
      exact htwo
    · cases he
  · intro e he
    obtain rfl := (List.mem_replicate.mp he).2
    rfl

def lateChunk : List (Event sampleUploads) :=
  saved 0 0 [7] 7 ++ .env (.tick (25 * Go.hour)) :: saved 2 1 [8] 11

def largeChunks : List (Event sampleUploads) :=
  saved 0 0 (List.replicate 60 7) 7 ++ saved 2 1 (List.replicate 60 8) 8

theorem late_chunk_swept :
    (∃ w v, (begun emptyUploads).run lateChunk = some w ∧ Received ['u'] lateChunk w 0 [7] ∧
      Received ['u'] lateChunk w 1 [8] ∧ w.run (finalized ['/'] ['a'] 14) = some v ∧
      v.answer 1 = some (.finalized (.ok ['/','a'])) ∧
      v.state.state.disk.tree.nodes = [([['r'],['a']],.file 0),([['r']],.dir)] ∧
      v.state.state.disk.bytes 0 = [8]) ∧
    ∃ w v, (begun emptyUploads).run largeChunks = some w ∧
      Received ['u'] largeChunks w 0 (List.replicate 60 7) ∧
      Received ['u'] largeChunks w 1 (List.replicate 60 8) ∧ (w.state.state.disk.stat ['/','r','/','.','t','r','a','s','h']).isOk = false ∧
      w.run (finalized ['/'] trashDirName 1) = some v ∧
      v.answer 1 = some (.finalized (.error (some ⟨.invalidFileName,"name is reserved"⟩))) := by
  constructor
  · have hrun : ((begun emptyUploads).run lateChunk).bind (fun w =>
        (w.run (finalized ['/'] ['a'] 14)).map fun v => ((w.answer 0,w.answer 2),v.answer 1)) =
        some ((some (.saved (.ok ())),some (.saved (.ok ()))),some (.finalized (.ok ['/','a']))) := by
      decide +kernel
    have hdisk : ((begun emptyUploads).run lateChunk).bind (fun w =>
        (w.run (finalized ['/'] ['a'] 14)).map fun v =>
          (v.state.state.disk.tree.nodes,v.state.state.disk.bytes 0)) =
        some ([([['r'],['a']],.file 0),([['r']],.dir)],[8]) := by
      decide +kernel
    obtain ⟨w,hw,hrest⟩ := Option.bind_eq_some_iff.mp hrun
    obtain ⟨v,hv,hst⟩ := Option.map_eq_some_iff.mp hrest
    rw [hw,Option.bind_some,hv] at hdisk
    obtain ⟨hnodes,hbytes⟩ := Prod.mk.inj (Option.some.inj hdisk)
    obtain ⟨hsaved,ha⟩ := Prod.mk.inj hst
    obtain ⟨hzero,htwo⟩ := Prod.mk.inj hsaved
    exact ⟨w,v,hw,⟨0,_,List.mem_append_left _ List.mem_cons_self,hzero,by decide⟩,
      ⟨2,_,List.mem_append_right _ (List.mem_cons_of_mem _ List.mem_cons_self),htwo,by decide⟩,hv,ha,hnodes,
      hbytes⟩
  · have hrun : ((begun emptyUploads).run largeChunks).bind (fun w =>
        (w.run (finalized ['/'] trashDirName 1)).map fun v =>
          ((w.answer 0,w.answer 2),(w.state.state.disk.stat ['/','r','/','.','t','r','a','s','h']).isOk,
            v.answer 1)) =
        some ((some (.saved (.ok ())),some (.saved (.ok ()))),false,
          some (.finalized (.error (some ⟨.invalidFileName,"name is reserved"⟩)))) := by
      decide +kernel
    obtain ⟨w,hw,hrest⟩ := Option.bind_eq_some_iff.mp hrun
    obtain ⟨v,hv,hst⟩ := Option.map_eq_some_iff.mp hrest
    obtain ⟨hsaved,hst⟩ := Prod.mk.inj hst
    obtain ⟨hfree,ha⟩ := Prod.mk.inj hst
    obtain ⟨hzero,htwo⟩ := Prod.mk.inj hsaved
    exact ⟨w,v,hw,⟨0,_,List.mem_append_left _ List.mem_cons_self,hzero,by decide⟩,
      ⟨2,_,List.mem_append_right _ List.mem_cons_self,htwo,by decide⟩,hfree,hv,ha⟩

end Following

end Transfer
