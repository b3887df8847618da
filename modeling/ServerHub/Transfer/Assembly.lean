import ServerHub.Transfer.Chunks

namespace Transfer

open Posix Posix.FileTree Interleave Interleave.Prog Interleave.Ledger

abbrev ChunkLog := List (Nat × ChunkNote)

section Histories

def ChunkNote.isReply : ChunkNote → Bool
  | .replied _ _ => true
  | _ => false

def ChunkNote.isSaved : ChunkNote → Bool
  | .replied _ (.saved (.ok _)) => true
  | _ => false

def ChunkNote.lists (session : Name) : ChunkNote → Bool
  | .listed s _ => s = session
  | _ => false

-- what a FinalizeChunk does to its output
def ChunkNote.gathers : ChunkNote → Bool
  | .read _ _ => true
  | .copied _ _ => true
  | .withdrawn _ => true
  | _ => false

def Done (log : ChunkLog) (q : Nat) : Prop := ∃ e ∈ log, e.1 = q ∧ e.2.isReply = true

def Saved (log : ChunkLog) (q : Nat) : Prop := ∃ e ∈ log, e.1 = q ∧ e.2.isSaved = true

def Opened (log : ChunkLog) (f : ChunkFile) (q : Nat) : Prop :=
  (q,.opened f.session f.name f.inode) ∈ log

def received : List ChunkNote → Bytes
  | [] => []
  | .wrote _ b :: ns => received ns ++ b
  | _ :: ns => received ns

def gathered : List ChunkNote → List (Nat × Bytes)
  | [] => []
  | .read i b :: ns => gathered ns ++ [(i,b)]
  | _ :: ns => gathered ns

def output : List ChunkNote → Bytes
  | [] => []
  | .copied _ b :: ns => output ns ++ b
  | _ :: ns => output ns

-- a sweep has found the directory stale and is still removing it
def reaping (session : Name) : List ChunkNote → Bool
  | [] => false
  | .stale s :: ns => s = session || reaping session ns
  | .swept s :: ns => s ≠ session && reaping session ns
  | _ :: ns => reaping session ns

instance (log : ChunkLog) (q : Nat) : Decidable (Done log q) :=
  inferInstanceAs (Decidable (∃ e ∈ log, e.1 = q ∧ e.2.isReply = true))

instance (log : ChunkLog) (q : Nat) : Decidable (Saved log q) :=
  inferInstanceAs (Decidable (∃ e ∈ log, e.1 = q ∧ e.2.isSaved = true))

instance (log : ChunkLog) (f : ChunkFile) (q : Nat) : Decidable (Opened log f q) :=
  inferInstanceAs (Decidable (_ ∈ log))

variable {log : ChunkLog} {q q' : Nat} {n : ChunkNote} {f : ChunkFile}

theorem done_cons : Done ((q',n) :: log) q ↔ q' = q ∧ n.isReply = true ∨ Done log q := by
  simp [Done]

theorem saved_cons : Saved ((q',n) :: log) q ↔ q' = q ∧ n.isSaved = true ∨ Saved log q := by
  simp [Saved]

theorem Saved.done (h : Saved log q) : Done log q := by
  obtain ⟨e,he,hq,hs⟩ := h
  refine ⟨e,he,hq,?_⟩
  generalize e.2 = n at hs
  cases n <;> simp_all [ChunkNote.isSaved,ChunkNote.isReply]

theorem saved_iff : Saved log q ↔ ∃ r, (q,.replied r (.saved (.ok ()))) ∈ log := by
  constructor
  · rintro ⟨⟨q,n⟩,he,rfl,hs⟩
    unfold ChunkNote.isSaved at hs
    split at hs
    · rename_i r u hn
      dsimp only at hn
      exact ⟨r,hn ▸ he⟩
    · cases hs
  · rintro ⟨r,hr⟩
    exact ⟨_,hr,rfl,rfl⟩

theorem done_iff : Done log q ↔ ∃ r a, (q,.replied r a) ∈ log := by
  constructor
  · rintro ⟨⟨q,n⟩,he,rfl,hs⟩
    unfold ChunkNote.isReply at hs
    split at hs
    · rename_i r a hn
      dsimp only at hn
      exact ⟨r,a,hn ▸ he⟩
    · cases hs
  · rintro ⟨r,a,hr⟩
    exact ⟨_,hr,rfl,rfl⟩

theorem Done.mono (h : Done log q) : Done ((q',n) :: log) q := done_cons.mpr (.inr h)

theorem Saved.mono (h : Saved log q) : Saved ((q',n) :: log) q := saved_cons.mpr (.inr h)

theorem Opened.mono (h : Opened log f q) : Opened ((q',n) :: log) f q := List.mem_cons_of_mem _ h

theorem opened_note (hn : ∀ s m i, n ≠ .opened s m i) (h : Opened ((q',n) :: log) f q) :
    Opened log f q := by
  rcases List.mem_cons.mp h with he | h
  · exact absurd (Prod.mk.inj he).2.symm (hn _ _ _)
  · exact h

theorem not_saved_note (hn : q' = q → n.isReply = false) (h : ¬Saved log q) :
    ¬Saved ((q',n) :: log) q := by
  rintro hs
  rcases saved_cons.mp hs with ⟨rfl,hs⟩ | hs
  · have hreply := hn rfl
    cases n <;> simp_all [ChunkNote.isSaved,ChunkNote.isReply]
  · exact h hs

theorem reaping_stale {session : Name} {ns : List ChunkNote} (h : reaping session ns = true) :
    .stale session ∈ ns := by
  induction ns with
  | nil => cases h
  | cons n ns ih =>
    cases n with
    | stale s =>
      rcases Bool.or_eq_true_iff.mp h with hs | h
      · rw [of_decide_eq_true hs]
        exact List.mem_cons_self
      · exact List.mem_cons_of_mem _ (ih h)
    | swept s => exact List.mem_cons_of_mem _ (ih (Bool.and_eq_true_iff.mp h).2)
    | _ => exact List.mem_cons_of_mem _ (ih h)

theorem reaping_note {session : Name} {ns : List ChunkNote} (hn : n ≠ .stale session)
    (h : reaping session (n :: ns) = true) : reaping session ns = true := by
  cases n with
  | stale s =>
    rcases Bool.or_eq_true_iff.mp h with hs | h
    · exact absurd (congrArg ChunkNote.stale (of_decide_eq_true hs)) hn
    · exact h
  | swept s => exact (Bool.and_eq_true_iff.mp h).2
  | _ => exact h

theorem notesOf_self : notesOf q ((q,n) :: log) = n :: notesOf q log := by simp [notesOf,Interleave.own]

theorem notesOf_apart (h : q' ≠ q) : notesOf q ((q',n) :: log) = notesOf q log := by
  simp [notesOf,Interleave.own,h]

theorem received_other (h : ∀ i b, n ≠ .wrote i b) (ns : List ChunkNote) :
    received (n :: ns) = received ns := by
  cases n <;> first | rfl | exact absurd rfl (h _ _)

theorem gathered_other (h : ∀ i b, n ≠ .read i b) (ns : List ChunkNote) :
    gathered (n :: ns) = gathered ns := by
  cases n <;> first | rfl | exact absurd rfl (h _ _)

theorem gathered_mem {i : Nat} {b : Bytes} {ns : List ChunkNote} (h : (i,b) ∈ gathered ns) :
    .read i b ∈ ns := by
  induction ns with
  | nil => cases h
  | cons n ns ih =>
    cases n with
    | read i' b' =>
      rcases List.mem_append.mp h with h | h
      · exact List.mem_cons_of_mem _ (ih h)
      · obtain ⟨rfl,rfl⟩ := Prod.mk.inj (List.mem_singleton.mp h)
        exact List.mem_cons_self
    | _ => exact List.mem_cons_of_mem _ (ih h)

theorem output_other (h : ∀ i b, n ≠ .copied i b) (ns : List ChunkNote) :
    output (n :: ns) = output ns := by
  cases n <;> first | rfl | exact absurd rfl (h _ _)

theorem notesOf_kept {α : Type} {g : List ChunkNote → α} (h : q' = q → ∀ ns, g (n :: ns) = g ns) :
    g (notesOf q ((q',n) :: log)) = g (notesOf q log) := by
  by_cases hq : q' = q
  · subst hq
    rw [notesOf_self,h rfl]
  · rw [notesOf_apart hq]

end Histories

-- the bytes of a chunk are what its SaveChunk has written, and nothing else writes into it
structure Payloads (log : ChunkLog) (a : ChunkArea) : Prop where
  fresh : ∀ {f q}, Opened log f q → f.inode < a.next
  single : ∀ {f f' q q'}, Opened log f q → Opened log f' q' → f.inode = f'.inode → q = q' ∧ f = f'
  once : ∀ {f f' q}, Opened log f q → Opened log f' q → f = f'
  content : ∀ {f q}, Opened log f q → a.bytes f.inode = received (notesOf q log)

namespace Payloads

variable {log : ChunkLog} {a a' : ChunkArea} {q : Nat} {n : ChunkNote} {f : ChunkFile}

theorem note (h : Payloads log a) (hbytes : a'.bytes = a.bytes) (hnext : a'.next = a.next)
    (ho : ∀ s m i, n ≠ .opened s m i) (hw : ∀ i b, n ≠ .wrote i b) : Payloads ((q,n) :: log) a' := by
  have hold {f : ChunkFile} {p : Nat} (hf : Opened ((q,n) :: log) f p) : Opened log f p :=
    opened_note ho hf
  refine ⟨fun hf => hnext ▸ h.fresh (hold hf),fun hf hg => h.single (hold hf) (hold hg),
    fun hf hg => h.once (hold hf) (hold hg),fun hf => ?_⟩
  rw [hbytes,h.content (hold hf)]
  exact (notesOf_kept fun _ => received_other hw).symm

theorem write {i : Nat} {b : Bytes} (h : Payloads log a) (hf : Opened log f q) (hi : f.inode = i) :
    Payloads ((q,.wrote i b) :: log)
      { a with bytes := Function.update a.bytes i (a.bytes i ++ b) } := by
  subst hi
  have hold {g : ChunkFile} {p : Nat} (hg : Opened ((q,.wrote f.inode b) :: log) g p) :
      Opened log g p := opened_note (fun _ _ _ => by simp) hg
  refine ⟨fun hg => h.fresh (hold hg),fun hg hk => h.single (hold hg) (hold hk),
    fun hg hk => h.once (hold hg) (hold hk),fun {g p} hg => ?_⟩
  by_cases hp : q = p
  · subst hp
    obtain rfl := h.once hf (hold hg)
    rw [notesOf_self,received]
    show Function.update a.bytes f.inode _ f.inode = _
    rw [Function.update_self,h.content hf]
  · rw [notesOf_apart hp]
    show Function.update a.bytes f.inode _ g.inode = _
    rw [Function.update_of_ne fun he => hp (h.single hf (hold hg) he.symm).1]
    exact h.content (hold hg)

theorem openNew {s m : Name} (h : Payloads log a) (hfirst : ∀ f, ¬Opened log f q)
    (hnone : received (notesOf q log) = []) (hbytes : a'.bytes = Function.update a.bytes a.next [])
    (hnext : a'.next = a.next + 1) : Payloads ((q,.opened s m a.next) :: log) a' := by
  have hcases {g : ChunkFile} {p : Nat} (hg : Opened ((q,.opened s m a.next) :: log) g p) :
      p = q ∧ g = ⟨s,m,a.next⟩ ∨ Opened log g p := by
    rcases List.mem_cons.mp hg with he | hg
    · obtain ⟨rfl,hn⟩ := Prod.mk.inj he
      obtain ⟨hs,hm,hi⟩ := ChunkNote.opened.inj hn
      obtain ⟨s',m',i'⟩ := g
      dsimp only at hs hm hi
      subst hs hm hi
      exact .inl ⟨rfl,rfl⟩
    · exact .inr hg
  have hless {g : ChunkFile} {p : Nat} (hg : Opened log g p) : g.inode ≠ a.next :=
    (h.fresh hg).ne
  constructor
  · intro g p hg
    rw [hnext]
    rcases hcases hg with ⟨-,rfl⟩ | hg
    · exact Nat.lt_succ_self _
    · exact Nat.lt_succ_of_lt (h.fresh hg)
  · intro g g' p p' hg hg' he
    rcases hcases hg with ⟨rfl,rfl⟩ | hold <;> rcases hcases hg' with ⟨rfl,rfl⟩ | hold'
    · exact ⟨rfl,rfl⟩
    · exact absurd he.symm (hless hold')
    · exact absurd he (hless hold)
    · exact h.single hold hold' he
  · intro g g' p hg hg'
    rcases hcases hg with ⟨rfl,rfl⟩ | hold <;> rcases hcases hg' with ⟨hp,rfl⟩ | hold'
    · rfl
    · exact absurd hold' (hfirst _)
    · exact absurd (hp ▸ hold) (hfirst _)
    · exact h.once hold hold'
  · intro g p hg
    rw [hbytes]
    rcases hcases hg with ⟨rfl,rfl⟩ | hold
    · rw [Function.update_self,notesOf_self,received_other (by simp),hnone]
    · rw [Function.update_of_ne (hless hold),h.content hold]
      exact (notesOf_kept fun _ => received_other (by simp)).symm

end Payloads

-- all that was listed has been copied, in order, and stands in the new file
structure Assembled (ns : List ChunkNote) (session : Name) (l : List ChunkFile) (p : Text) (e : Entry)
    (o : Nat) : Prop where
  listed : .listed session l ∈ ns
  created : .created p e o ∈ ns
  whole : (gathered ns).map Prod.fst = l.map ChunkFile.inode
  copied : output ns = ((gathered ns).map Prod.snd).flatten
  kept : ∀ p', .withdrawn p' ∉ ns

theorem Assembled.note {ns : List ChunkNote} {session : Name} {l : List ChunkFile} {p : Text} {e : Entry}
    {o : Nat} {n : ChunkNote} (h : Assembled ns session l p e o) (hn : n.gathers = false) :
    Assembled (n :: ns) session l p e o := by
  have hg : gathered (n :: ns) = gathered ns := gathered_other (by rintro i b rfl; cases hn) ns
  have ho : output (n :: ns) = output ns := output_other (by rintro i b rfl; cases hn) ns
  refine ⟨List.mem_cons_of_mem _ h.listed,List.mem_cons_of_mem _ h.created,hg ▸ h.whole,?_,?_⟩
  · rw [ho,hg]
    exact h.copied
  · intro p' hp
    rcases List.mem_cons.mp hp with rfl | hp
    · cases hn
    · exact h.kept p' hp

-- why a chunk was removed
inductive Removed (log : ChunkLog) (q : Nat) (f : ChunkFile) : Prop where
  | own (opened : Opened log f q) (failed : ¬Saved log q)
  | reaped (stale : (q,.stale f.session) ∈ log)
  | rejected (l : List ChunkFile) (p : Text) (listed : (q,.listed f.session l) ∈ log) (mem : f ∈ l)
      (withdrawn : (q,.withdrawn p) ∈ log)
      (replies : ∀ r a, (q,.replied r a) ∈ log → a = .finalized (.error (some tooLarge)))
  | delivered (l : List ChunkFile) (p : Text) (e : Entry) (o : Nat)
      (assembled : Assembled (notesOf q log) f.session l p e o) (mem : f ∈ l)
      (replies : ∀ r a, (q,.replied r a) ∈ log → ∃ t, a = .finalized (.ok t))

theorem Removed.note {log : ChunkLog} {q q' : Nat} {f : ChunkFile} {n : ChunkNote}
    (h : Removed log q f) (hr : q' = q → n.isReply = false) (hg : q' = q → n.gathers = false) :
    Removed ((q',n) :: log) q f := by
  have hreplies {r : ChunkRequest} {a : ChunkAnswer} (hm : (q,.replied r a) ∈ (q',n) :: log) :
      (q,.replied r a) ∈ log := by
    rcases List.mem_cons.mp hm with he | hm
    · obtain ⟨rfl,rfl⟩ := Prod.mk.inj he
      cases hr rfl
    · exact hm
  cases h with
  | own opened failed => exact .own opened.mono (not_saved_note hr failed)
  | reaped stale => exact .reaped (List.mem_cons_of_mem _ stale)
  | rejected l p listed mem withdrawn replies =>
    exact .rejected l p (List.mem_cons_of_mem _ listed) mem (List.mem_cons_of_mem _ withdrawn)
      fun r a hm => replies r a (hreplies hm)
  | delivered l p e o assembled mem replies =>
    refine .delivered l p e o ?_ mem fun r a hm => replies r a (hreplies hm)
    by_cases hq : q' = q
    · subst hq
      rw [notesOf_self]
      exact assembled.note (hg rfl)
    · rw [notesOf_apart hq]
      exact assembled

def Before (a b : ChunkFile) : Prop := nameLe a.name b.name = true ∧ a.name ≠ b.name

-- the directory of one upload
structure Directed (u : Name) (log : ChunkLog) (files : List ChunkFile) : Prop where
  origin : ∀ f ∈ files, f.session = u → ∃ q, Opened log f q
  distinct : ∀ f ∈ files, ∀ g ∈ files, f.session = u → g.session = u → f.name = g.name → f = g
  nodup : (files.filter fun f => f.session = u).Nodup
  placed : ∀ {f q}, Opened log f q → f.session = u → f ∈ files ∨ ∃ p, (p,.unlinked f) ∈ log
  collected : ∀ {q l}, (q,.listed u l) ∈ log →
    (∀ f ∈ l, f.session = u ∧ ∃ p, Opened log f p ∧ Saved log p) ∧ l.Pairwise Before ∧
      (¬Done log q → ∀ f ∈ files, f.session = u → f ∈ l)
  reaped : ∀ {q}, reaping u (notesOf q log) = true →
    ∀ f ∈ files, f.session = u → ∃ p, Opened log f p ∧ Done log p
  removed : ∀ {q f}, (q,.unlinked f) ∈ log → f.session = u →
    Removed log q f ∧ (Opened log f q ∨ ∃ p, Opened log f p ∧ Done log p)
  gone : ∀ {q f}, (q,.unlinked f) ∈ log → f.session = u → f ∉ files

-- a FinalizeChunk of the upload has listed its directory and not answered, or a sweep is removing it
def Busy (u : Name) (log : ChunkLog) : Prop :=
  ∃ e ∈ log, e.2.lists u = true ∧ ¬Done log e.1 ∨ reaping u (notesOf e.1 log) = true

namespace Directed

variable {u : Name} {log : ChunkLog} {files : List ChunkFile} {q : Nat} {n : ChunkNote} {f : ChunkFile}

theorem answered_mono (h : ∃ p, Opened log f p ∧ Done log p) :
    ∃ p, Opened ((q,n) :: log) f p ∧ Done ((q,n) :: log) p := by
  obtain ⟨p,hopened,hdone⟩ := h
  exact ⟨p,hopened.mono,hdone.mono⟩

theorem grow (h : Directed u log files) (ho : ∀ s m i, n ≠ .opened s m i) (hu : ∀ f, n ≠ .unlinked f)
    (hl : ∀ l, n = .listed u l → (∀ f ∈ l, f.session = u ∧ ∃ p, Opened log f p ∧ Saved log p) ∧
      l.Pairwise Before ∧ ∀ f ∈ files, f.session = u → f ∈ l)
    (hs : n = .stale u → ∀ f ∈ files, f.session = u → ∃ p, Opened log f p ∧ Done log p)
    (hr : ∀ f, (q,.unlinked f) ∈ log → f.session = u → Removed ((q,n) :: log) q f) :
    Directed u ((q,n) :: log) files := by
  have hfinished {f : ChunkFile} (hf : ∃ p, Opened log f p ∧ Saved log p) :
      ∃ p, Opened ((q,n) :: log) f p ∧ Saved ((q,n) :: log) p := by
    obtain ⟨p,hopened,hsaved⟩ := hf
    exact ⟨p,hopened.mono,hsaved.mono⟩
  constructor
  · intro f hf hfu
    obtain ⟨p,hp⟩ := h.origin f hf hfu
    exact ⟨p,hp.mono⟩
  · exact h.distinct
  · exact h.nodup
  · intro f p hf hfu
    refine (h.placed (opened_note ho hf) hfu).imp_right ?_
    rintro ⟨p,hp⟩
    exact ⟨p,List.mem_cons_of_mem _ hp⟩
  · intro p l hm
    rcases List.mem_cons.mp hm with he | hm
    · obtain ⟨-,hn⟩ := Prod.mk.inj he
      obtain ⟨hall,hsorted,hmem⟩ := hl l hn.symm
      exact ⟨fun f hf => ⟨(hall f hf).1,hfinished (hall f hf).2⟩,hsorted,fun _ => hmem⟩
    · obtain ⟨hall,hsorted,hwindow⟩ := h.collected hm
      exact ⟨fun f hf => ⟨(hall f hf).1,hfinished (hall f hf).2⟩,hsorted,
        fun hd => hwindow fun hdone => hd hdone.mono⟩
  · intro p hp f hf hfu
    by_cases hstale : n = .stale u
    · exact answered_mono (hs hstale f hf hfu)
    · have hp' : reaping u (notesOf p log) = true := by
        by_cases hq : q = p
        · subst hq
          rw [notesOf_self] at hp
          exact reaping_note hstale hp
        · rwa [notesOf_apart hq] at hp
      exact answered_mono (h.reaped hp' f hf hfu)
  · intro p f hm hfu
    rcases List.mem_cons.mp hm with he | hm
    · exact absurd (Prod.mk.inj he).2.symm (hu f)
    · obtain ⟨hwhy,hopener⟩ := h.removed hm hfu
      refine ⟨?_,hopener.imp Opened.mono answered_mono⟩
      by_cases hq : q = p
      · subst hq
        exact hr f hm hfu
      · exact hwhy.note (fun he => absurd he hq) fun he => absurd he hq
  · intro p f hm hfu
    rcases List.mem_cons.mp hm with he | hm
    · exact absurd (Prod.mk.inj he).2.symm (hu f)
    · exact h.gone hm hfu

theorem note (h : Directed u log files) (ho : ∀ s m i, n ≠ .opened s m i)
    (hu : ∀ f, n ≠ .unlinked f) (hl : ∀ l, n ≠ .listed u l) (hs : n ≠ .stale u)
    (hr : n.isReply = false) (hg : n.gathers = true → ∀ f, (q,.unlinked f) ∉ log) :
    Directed u ((q,n) :: log) files := by
  refine h.grow ho hu (fun l he => absurd he (hl l)) (fun he => absurd he hs) fun f hf hfu => ?_
  refine (h.removed hf hfu).1.note (fun _ => hr) fun _ => ?_
  by_contra hgather
  exact hg (by simpa using hgather) f hf

theorem list {l : List ChunkFile} (h : Directed u log files)
    (hmem : ∀ f, f ∈ l ↔ f ∈ files ∧ f.session = u) (hsorted : l.Pairwise Before)
    (hsaved : ∀ f ∈ files, f.session = u → ∃ p, Opened log f p ∧ Saved log p) :
    Directed u ((q,.listed u l) :: log) files := by
  refine h.grow (by simp) (by simp) ?_ (by simp) fun f hf hfu =>
    (h.removed hf hfu).1.note (fun _ => rfl) fun _ => rfl
  intro l' he
  obtain ⟨-,rfl⟩ := ChunkNote.listed.inj he
  refine ⟨fun f hf => ?_,hsorted,fun f hf hfu => (hmem f).mpr ⟨hf,hfu⟩⟩
  obtain ⟨hin,hfu⟩ := (hmem f).mp hf
  exact ⟨hfu,hsaved f hin hfu⟩

theorem reap (h : Directed u log files)
    (hdone : ∀ f ∈ files, f.session = u → ∃ p, Opened log f p ∧ Done log p) :
    Directed u ((q,.stale u) :: log) files :=
  h.grow (by simp) (by simp) (by simp) (fun _ => hdone) fun _ hf hfu =>
    (h.removed hf hfu).1.note (fun _ => rfl) fun _ => rfl

theorem reply {r : ChunkRequest} {a : ChunkAnswer} (h : Directed u log files)
    (hwhy : ∀ f, (q,.unlinked f) ∈ log → f.session = u → Removed ((q,.replied r a) :: log) q f) :
    Directed u ((q,.replied r a) :: log) files :=
  h.grow (by simp) (by simp) (by simp) (by simp) hwhy

theorem openNew {s m : Name} {i : Nat} (h : Directed u log files)
    (hfree : s = u → (∀ g ∈ files, g.session = u → g.name ≠ m) ∧ ¬Busy u log)
    (hnew : s = u → ∀ p, (p,.unlinked ⟨s,m,i⟩) ∉ log) :
    Directed u ((q,.opened s m i) :: log) (⟨s,m,i⟩ :: files) := by
  have hold {p : Nat} {k : ChunkNote} (hm : (p,k) ∈ (q,.opened s m i) :: log)
      (hne : k ≠ .opened s m i) : (p,k) ∈ log := by
    rcases List.mem_cons.mp hm with he | hm
    · exact absurd (Prod.mk.inj he).2 hne
    · exact hm
  have hquiet {p : Nat} : reaping u (notesOf p ((q,.opened s m i) :: log)) =
      reaping u (notesOf p log) := notesOf_kept fun _ _ => rfl
  constructor
  · intro f hf hfu
    rcases List.mem_cons.mp hf with rfl | hf
    · exact ⟨q,List.mem_cons_self⟩
    · obtain ⟨p,hp⟩ := h.origin f hf hfu
      exact ⟨p,hp.mono⟩
  · intro f hf g hg hfu hgu hname
    rcases List.mem_cons.mp hf with rfl | hf <;> rcases List.mem_cons.mp hg with rfl | hg
    · rfl
    · exact absurd hname.symm ((hfree hfu).1 g hg hgu)
    · exact absurd hname ((hfree hgu).1 f hf hfu)
    · exact h.distinct f hf g hg hfu hgu hname
  · by_cases hs : s = u
    · rw [List.filter_cons_of_pos (by simpa using hs)]
      refine List.nodup_cons.mpr ⟨fun hm => ?_,h.nodup⟩
      exact (hfree hs).1 _ (List.mem_of_mem_filter hm) hs rfl
    · rw [List.filter_cons_of_neg (by simpa using hs)]
      exact h.nodup
  · intro f p hf hfu
    rcases List.mem_cons.mp hf with he | hf
    · obtain ⟨rfl,hn⟩ := Prod.mk.inj he
      obtain ⟨hs,hm,hi⟩ := ChunkNote.opened.inj hn
      obtain ⟨s',m',i'⟩ := f
      dsimp only at hs hm hi
      subst hs hm hi
      exact .inl List.mem_cons_self
    · refine (h.placed hf hfu).imp (List.mem_cons_of_mem _) ?_
      rintro ⟨p,hp⟩
      exact ⟨p,List.mem_cons_of_mem _ hp⟩
  · intro p l hm
    have hm' := hold hm (by simp)
    obtain ⟨hall,hsorted,hwindow⟩ := h.collected hm'
    refine ⟨fun f hf => ⟨(hall f hf).1,?_⟩,hsorted,fun hd f hf hfu => ?_⟩
    · obtain ⟨p,hopened,hsaved⟩ := (hall f hf).2
      exact ⟨p,hopened.mono,hsaved.mono⟩
    · have hnot : ¬Done log p := fun hdone => hd hdone.mono
      rcases List.mem_cons.mp hf with rfl | hf
      · exact absurd ⟨_,hm',.inl ⟨by simp [ChunkNote.lists],hnot⟩⟩ (hfree hfu).2
      · exact hwindow hnot f hf hfu
  · intro p hp f hf hfu
    rw [hquiet] at hp
    rcases List.mem_cons.mp hf with rfl | hf
    · exact absurd ⟨_,mem_notesOf.mp (reaping_stale hp),.inr hp⟩ (hfree hfu).2
    · exact answered_mono (h.reaped hp f hf hfu)
  · intro p f hm hfu
    obtain ⟨hwhy,hopener⟩ := h.removed (hold hm (by simp)) hfu
    exact ⟨hwhy.note (fun _ => rfl) fun _ => rfl,hopener.imp Opened.mono answered_mono⟩
  · intro p f hm hfu hf
    rcases List.mem_cons.mp hf with rfl | hf
    · exact hnew hfu p (hold hm (by simp))
    · exact h.gone (hold hm (by simp)) hfu hf

theorem unlink (h : Directed u log files) (hf : f ∈ files)
    (hwhy : f.session = u → Removed log q f ∧ (Opened log f q ∨ ∃ p, Opened log f p ∧ Done log p)) :
    Directed u ((q,.unlinked f) :: log)
      (files.filter fun g => ¬(g.session = f.session ∧ g.name = f.name)) := by
  have hold {p : Nat} {k : ChunkNote} (hm : (p,k) ∈ (q,.unlinked f) :: log) (hne : k ≠ .unlinked f) :
      (p,k) ∈ log := by
    rcases List.mem_cons.mp hm with he | hm
    · exact absurd (Prod.mk.inj he).2 hne
    · exact hm
  have hquiet {p : Nat} : reaping u (notesOf p ((q,.unlinked f) :: log)) =
      reaping u (notesOf p log) := notesOf_kept fun _ _ => rfl
  have hless {g : ChunkFile}
      (hg : g ∈ files.filter fun g => ¬(g.session = f.session ∧ g.name = f.name)) : g ∈ files :=
    List.mem_of_mem_filter hg
  constructor
  · intro g hg hgu
    obtain ⟨p,hp⟩ := h.origin g (hless hg) hgu
    exact ⟨p,hp.mono⟩
  · exact fun g hg k hk => h.distinct g (hless hg) k (hless hk)
  · exact h.nodup.sublist (List.filter_sublist.filter _)
  · intro g p hg hgu
    rcases h.placed (opened_note (by simp) hg) hgu with hin | ⟨p,hp⟩
    · by_cases hsame : g.session = f.session ∧ g.name = f.name
      · obtain rfl := h.distinct g hin f hf hgu (hsame.1 ▸ hgu) hsame.2
        exact .inr ⟨q,List.mem_cons_self⟩
      · exact .inl (List.mem_filter.mpr ⟨hin,decide_eq_true hsame⟩)
    · exact .inr ⟨p,List.mem_cons_of_mem _ hp⟩
  · intro p l hm
    obtain ⟨hall,hsorted,hwindow⟩ := h.collected (hold hm (by simp))
    refine ⟨fun g hg => ⟨(hall g hg).1,?_⟩,hsorted,fun hd g hg hgu => ?_⟩
    · obtain ⟨p,hopened,hsaved⟩ := (hall g hg).2
      exact ⟨p,hopened.mono,hsaved.mono⟩
    · exact hwindow (fun hdone => hd hdone.mono) g (hless hg) hgu
  · intro p hp g hg hgu
    rw [hquiet] at hp
    exact answered_mono (h.reaped hp g (hless hg) hgu)
  · intro p g hm hgu
    rcases List.mem_cons.mp hm with he | hm
    · obtain ⟨rfl,hn⟩ := Prod.mk.inj he
      obtain rfl := ChunkNote.unlinked.inj hn
      obtain ⟨hr,hopener⟩ := hwhy hgu
      exact ⟨hr.note (fun _ => rfl) fun _ => rfl,hopener.imp Opened.mono answered_mono⟩
    · obtain ⟨hr,hopener⟩ := h.removed hm hgu
      exact ⟨hr.note (fun _ => rfl) fun _ => rfl,hopener.imp Opened.mono answered_mono⟩
  · intro p g hm hgu hg
    rcases List.mem_cons.mp hm with he | hm
    · obtain ⟨-,hn⟩ := Prod.mk.inj he
      obtain rfl := ChunkNote.unlinked.inj hn
      simp at hg
    · exact h.gone hm hgu (hless hg)

end Directed

structure Stored (log : ChunkLog) (q : Nat) (f : ChunkFile) (k : Int) (src : Source) : Prop where
  index : 0 ≤ k ∧ k ≤ 99999
  name : f.name = chunkName k.toNat
  opened : Opened log f q
  payload : received (notesOf q log) = src.payload
  complete : src.cut = false

def Reports (log : ChunkLog) : Prop := ∀ q r, (q,.replied r (.saved (.ok ()))) ∈ log →
  ∃ f k src, r = .saveChunk f.session k src ∧ Stored log q f k src

theorem Reports.note {log : ChunkLog} {q : Nat} {n : ChunkNote} (h : Reports log)
    (hw : ∀ i b, n = .wrote i b → ¬Saved log q)
    (hr : ∀ r, n = .replied r (.saved (.ok ())) →
      ∃ f k src, r = .saveChunk f.session k src ∧ Stored log q f k src) : Reports ((q,n) :: log) := by
  have hkept {p : Nat} {f : ChunkFile} {k : Int} {src : Source}
      (hp : q = p → ∀ i b, n ≠ .wrote i b) (hs : Stored log p f k src) :
      Stored ((q,n) :: log) p f k src := by
    refine ⟨hs.index,hs.name,hs.opened.mono,?_,hs.complete⟩
    rw [← hs.payload]
    exact notesOf_kept fun he => received_other (hp he)
  intro p r hm
  rcases List.mem_cons.mp hm with he | hm
  · obtain ⟨rfl,rfl⟩ := Prod.mk.inj he
    obtain ⟨f,k,src,rfl,hs⟩ := hr r rfl
    exact ⟨f,k,src,rfl,hkept (fun _ => by simp) hs⟩
  · obtain ⟨f,k,src,rfl,hs⟩ := h p r hm
    refine ⟨f,k,src,rfl,hkept ?_ hs⟩
    rintro rfl i b hn
    exact hw i b hn (saved_iff.mpr ⟨_,hm⟩)

-- what a FinalizeChunk reads are the payloads of chunks that it has listed
structure Copied (u : Name) (log : ChunkLog) : Prop where
  found : ∀ {q l f}, (q,.listed u l) ∈ log → (q,.found f) ∈ log → f.session = u → f ∈ l
  read : ∀ {q l i b}, (q,.listed u l) ∈ log → (q,.read i b) ∈ log →
    ∃ f p, f.inode = i ∧ Opened log f p ∧ Saved log p ∧ b = received (notesOf p log)

theorem Copied.note {u : Name} {log : ChunkLog} {q : Nat} {n : ChunkNote} (h : Copied u log)
    (hl : ∀ l, n = .listed u l → (∀ f, (q,.found f) ∉ log) ∧ ∀ i b, (q,.read i b) ∉ log)
    (hf : ∀ f, n = .found f → ∀ l, (q,.listed u l) ∈ log → f.session = u → f ∈ l)
    (hread : ∀ i b, n = .read i b → ∀ l, (q,.listed u l) ∈ log →
      ∃ f p, f.inode = i ∧ Opened log f p ∧ Saved log p ∧ b = received (notesOf p log))
    (hw : ∀ i b, n = .wrote i b → ¬Saved log q) : Copied u ((q,n) :: log) := by
  have hgrown {i : Nat} {b : Bytes}
      (hr : ∃ f p, f.inode = i ∧ Opened log f p ∧ Saved log p ∧ b = received (notesOf p log)) :
      ∃ f p, f.inode = i ∧ Opened ((q,n) :: log) f p ∧ Saved ((q,n) :: log) p ∧
        b = received (notesOf p ((q,n) :: log)) := by
    obtain ⟨f,p,hi,hopened,hsaved,rfl⟩ := hr
    refine ⟨f,p,hi,hopened.mono,hsaved.mono,(notesOf_kept ?_).symm⟩
    rintro rfl
    exact received_other fun i b hn => hw i b hn hsaved
  constructor
  · intro p l f hm hfound hfu
    rcases List.mem_cons.mp hm with he | hlist <;> rcases List.mem_cons.mp hfound with hf' | hold
    · exact absurd ((Prod.mk.inj he).2.trans (Prod.mk.inj hf').2.symm) nofun
    · obtain ⟨rfl,hn⟩ := Prod.mk.inj he
      exact absurd hold ((hl l hn.symm).1 f)
    · obtain ⟨rfl,hn⟩ := Prod.mk.inj hf'
      exact hf f hn.symm l hlist hfu
    · exact h.found hlist hold hfu
  · intro p l i b hm hr
    rcases List.mem_cons.mp hm with he | hlist <;> rcases List.mem_cons.mp hr with hr' | hold
    · exact absurd ((Prod.mk.inj he).2.trans (Prod.mk.inj hr').2.symm) nofun
    · obtain ⟨rfl,hn⟩ := Prod.mk.inj he
      exact absurd hold ((hl l hn.symm).2 i b)
    · obtain ⟨rfl,hn⟩ := Prod.mk.inj hr'
      exact hgrown (hread i b hn.symm l hlist)
    · exact hgrown (h.read hlist hold)

def Deliveries (root : Text) (u : Name) (log : ChunkLog) : Prop := ∀ q destDir filename a,
  (q,.replied (.finalizeChunk u destDir filename) (.finalized (.ok a))) ∈ log →
    ∃ l p e o absDir, Assembled (notesOf q log) u l p e o ∧ a = toClientPath root p ∧
      p = joinPath absDir filename

theorem Deliveries.note {root : Text} {u : Name} {log : ChunkLog} {q : Nat} {n : ChunkNote}
    (h : Deliveries root u log) (hg : n.gathers = true → ¬Done log q)
    (hr : ∀ destDir filename a, n = .replied (.finalizeChunk u destDir filename) (.finalized (.ok a)) →
      ∃ l p e o absDir, Assembled (notesOf q log) u l p e o ∧ a = toClientPath root p ∧
        p = joinPath absDir filename) : Deliveries root u ((q,n) :: log) := by
  intro p destDir filename a hm
  rcases List.mem_cons.mp hm with he | hm
  · obtain ⟨rfl,rfl⟩ := Prod.mk.inj he
    obtain ⟨l,p,e,o,absDir,ha,ht,hp⟩ := hr destDir filename a rfl
    refine ⟨l,p,e,o,absDir,?_,ht,hp⟩
    rw [notesOf_self]
    exact ha.note rfl
  · obtain ⟨l,t,e,o,absDir,ha,ht,hp⟩ := h p destDir filename a hm
    refine ⟨l,t,e,o,absDir,?_,ht,hp⟩
    by_cases hq : q = p
    · subst hq
      rw [notesOf_self]
      refine ha.note ?_
      by_contra hgather
      exact hg (by simpa using hgather) (done_iff.mpr ⟨_,_,hm⟩)
    · rwa [notesOf_apart hq]

-- the new files are where they were made, with what has been copied into them
structure Outputs (log : ChunkLog) (d : Disk) : Prop where
  fresh : ∀ {q p e o}, (q,.created p e o) ∈ log → o < d.next
  single : ∀ {q q' p p' e e' o}, (q,.created p e o) ∈ log → (q',.created p' e' o) ∈ log →
    q = q' ∧ p = p' ∧ e = e'
  once : ∀ {q p p' e e' o o'}, (q,.created p e o) ∈ log → (q,.created p' e' o') ∈ log → o = o'
  kept : ∀ {q p e o}, (q,.created p e o) ∈ log → (∀ p', (q,.withdrawn p') ∉ log) →
    d.named p = .ok (e,.file o) ∧ d.bytes o = output (notesOf q log)

theorem named_routes {d d' : Disk} {p : Text} {e : Entry} {nd : Node Nat}
    (h : Routes d.tree d'.tree) (hn : d.named p = .ok (e,nd))
    (hparent : d'.tree.node e.parent = some .dir) (hnode : d'.tree.node e.place = some nd) :
    d'.named p = .ok (e,nd) := by
  obtain ⟨he,hdir,-⟩ := Disk.named_ok.mp hn
  exact Disk.named_ok.mpr ⟨entryAt_routes h he (dirAt_iff.mp hdir),dirAt_iff.mpr hparent,hnode⟩

namespace Outputs

variable {log : ChunkLog} {d d' : Disk} {q : Nat} {n : ChunkNote} {p : Text} {e : Entry} {o : Nat}

theorem created_note (hn : ∀ p e o, n ≠ .created p e o) {q' : Nat}
    (h : (q',.created p e o) ∈ (q,n) :: log) : (q',.created p e o) ∈ log := by
  rcases List.mem_cons.mp h with he | h
  · exact absurd (Prod.mk.inj he).2.symm (hn _ _ _)
  · exact h

theorem note (h : Outputs log d) (hc : ∀ p e o, n ≠ .created p e o)
    (ho : ∀ i b, n ≠ .copied i b) : Outputs ((q,n) :: log) d := by
  refine ⟨fun hm => h.fresh (created_note hc hm),
    fun hm hm' => h.single (created_note hc hm) (created_note hc hm'),
    fun hm hm' => h.once (created_note hc hm) (created_note hc hm'),fun hm hw => ?_⟩
  obtain ⟨hnamed,hbytes⟩ := h.kept (created_note hc hm) fun p' hp => hw p' (List.mem_cons_of_mem _ hp)
  exact ⟨hnamed,hbytes.trans (notesOf_kept fun _ => output_other ho).symm⟩

theorem copy {b : Bytes} (h : Outputs log d) (hm : (q,.created p e o) ∈ log) :
    Outputs ((q,.copied o b) :: log)
      { d with bytes := Function.update d.bytes o (d.bytes o ++ b) } := by
  have hold {q' : Nat} {p' : Text} {e' : Entry} {o' : Nat}
      (hc : (q',.created p' e' o') ∈ (q,.copied o b) :: log) : (q',.created p' e' o') ∈ log :=
    created_note (by simp) hc
  refine ⟨fun hc => h.fresh (hold hc),fun hc hc' => h.single (hold hc) (hold hc'),
    fun hc hc' => h.once (hold hc) (hold hc'),fun {q' p' e' o'} hc hw => ?_⟩
  obtain ⟨hnamed,hbytes⟩ := h.kept (hold hc) fun p' hp => hw p' (List.mem_cons_of_mem _ hp)
  refine ⟨hnamed,?_⟩
  show Function.update d.bytes o _ o' = _
  by_cases hq : q = q'
  · subst hq
    obtain rfl := h.once hm (hold hc)
    rw [Function.update_self,notesOf_self,hbytes]
    rfl
  · rw [Function.update_of_ne fun ho => hq (h.single hm (ho ▸ hold hc)).1,notesOf_apart hq,hbytes]

theorem create (h : Outputs log d) (hfirst : ∀ p e o, (q,.created p e o) ∉ log)
    (hnone : output (notesOf q log) = []) (hv : d.vacantEntry p = .ok e) :
    Outputs ((q,.created p e d.next) :: log) (d.allocate e) := by
  obtain ⟨hentry,hvacant⟩ := Disk.vacantEntry_ok.mp hv
  obtain ⟨hdir,hfree⟩ := Disk.vacant_iff.mp hvacant
  have hext : Extends d.tree (d.allocate e).tree := extends_put hfree
  have hcases {q' : Nat} {p' : Text} {e' : Entry} {o' : Nat}
      (hc : (q',.created p' e' o') ∈ (q,.created p e d.next) :: log) :
      (q' = q ∧ p' = p ∧ e' = e ∧ o' = d.next) ∨ (q',.created p' e' o') ∈ log := by
    simpa using hc
  have hless {q' : Nat} {p' : Text} {e' : Entry} {o' : Nat} (hc : (q',.created p' e' o') ∈ log) :
      o' ≠ d.next := (h.fresh hc).ne
  constructor
  · intro q' p' e' o' hc
    rcases hcases hc with ⟨rfl,rfl,rfl,rfl⟩ | hold
    · exact Nat.lt_succ_self _
    · exact Nat.lt_succ_of_lt (h.fresh hold)
  · intro q' q'' p' p'' e' e'' o' hc hc'
    rcases hcases hc with ⟨rfl,rfl,rfl,rfl⟩ | hold <;>
      rcases hcases hc' with ⟨rfl,rfl,rfl,hnext⟩ | hold'
    · exact ⟨rfl,rfl,rfl⟩
    · exact absurd rfl (hless hold')
    · exact absurd hnext (hless hold)
    · exact h.single hold hold'
  · intro q' p' p'' e' e'' o' o'' hc hc'
    rcases hcases hc with ⟨rfl,rfl,rfl,rfl⟩ | hold <;>
      rcases hcases hc' with ⟨hq,rfl,rfl,rfl⟩ | hold'
    · rfl
    · exact absurd hold' (hfirst _ _ _)
    · exact absurd (hq ▸ hold) (hfirst _ _ _)
    · exact h.once hold hold'
  · intro q' p' e' o' hc hw
    rcases hcases hc with ⟨rfl,rfl,rfl,rfl⟩ | hold
    · have hnode : (d.allocate e').tree.node e'.place = some (.file d.next) :=
        node_put_self (by simp [Entry.place]) (by rwa [Entry.place,List.dropLast_concat])
      refine ⟨Disk.named_ok.mpr ⟨entryAt_routes hext.routes hentry hdir,?_,hnode⟩,?_⟩
      · exact dirAt_iff.mpr (hext _ _ hdir)
      · rw [notesOf_self,output_other (by simp),hnone]
        exact Function.update_self _ _ _
    · obtain ⟨hnamed,hbytes⟩ := h.kept hold fun p' hp => hw p' (List.mem_cons_of_mem _ hp)
      obtain ⟨-,hparent,hnode⟩ := Disk.named_ok.mp hnamed
      refine ⟨named_routes hext.routes hnamed (hext _ _ (dirAt_iff.mp hparent)) (hext _ _ hnode),?_⟩
      have hupdate : (d.allocate e).bytes o' = d.bytes o' := Function.update_of_ne (hless hold) _ _
      rw [hupdate,hbytes]
      exact (notesOf_kept fun _ => output_other (by simp)).symm

theorem withdraw (h : Outputs log d) (hm : (q,.created p e o) ∈ log)
    (hkept : ∀ p', (q,.withdrawn p') ∉ log) :
    Outputs ((q,.withdrawn p) :: log) (d.run (.remove p)).disk := by
  obtain ⟨hnamed,-⟩ := h.kept hm hkept
  obtain ⟨hentry,-,hfile⟩ := Disk.named_ok.mp hnamed
  have hnote : Outputs ((q,.withdrawn p) :: log) d := h.note (by simp) (by simp)
  cases hr : d.tree.removedEntry p with
  | none => rwa [Disk.remove_none hr]
  | some x =>
    obtain rfl := Option.some.inj (hentry.symm.trans (removedEntry_some hr).1)
    rw [Disk.remove_some hr]
    refine ⟨hnote.fresh,hnote.single,hnote.once,fun {q' p' e' o'} hc hw => ?_⟩
    obtain ⟨hother,hbytes⟩ := hnote.kept hc hw
    refine ⟨?_,hbytes⟩
    have hold : (q',.created p' e' o') ∈ log := created_note (by simp) hc
    have hne : q' ≠ q := by
      rintro rfl
      exact hw p List.mem_cons_self
    obtain ⟨he',hdir',hnode'⟩ := Disk.named_ok.mp hother
    obtain ⟨rest,-,-,-,hwalk⟩ := entryAt_some he'
    have habove : ¬e.place <+: e'.parent := by
      intro hpre
      have hdir := walk_directory directory_nil hwalk (dirAt_iff.mp hdir') e.place hpre
      rw [hfile] at hdir
      cases hdir
    have hapart : ¬e.place <+: e'.place := by
      intro hpre
      rcases List.prefix_concat_iff.mp hpre with heq | hpre
      · rw [show e.place = e'.place from heq,hnode'] at hfile
        obtain rfl := Node.file.inj (Option.some.inj hfile)
        exact hne (h.single hold hm).1
      · exact habove hpre
    refine named_routes (routes_prune hfile) hother ?_ ?_
    · rw [node_prune_other habove]
      exact dirAt_iff.mp hdir'
    · rw [node_prune_other hapart]
      exact hnode'

end Outputs

end Transfer
