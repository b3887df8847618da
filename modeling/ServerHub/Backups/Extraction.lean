import ServerHub.Backups.TarGz
import ServerHub.Posix.Inward

namespace Backups

open Posix Posix.FileTree Interleave Interleave.Prog

-- what the call does stays in the directory D: the names it makes and removes, the file it truncates
def InDest (D : Place) : Effect → Prop
  | .create e => D <+: e.parent
  | .remove e => D <+: e.parent
  | .rename x y => D <+: x.parent ∧ D <+: y.parent
  | .write q => D <+: q

instance (D : Place) : DecidablePred (InDest D)
  | .create e => inferInstanceAs (Decidable (D <+: e.parent))
  | .remove e => inferInstanceAs (Decidable (D <+: e.parent))
  | .rename x y => inferInstanceAs (Decidable (D <+: x.parent ∧ D <+: y.parent))
  | .write q => inferInstanceAs (Decidable (D <+: q))

def linkKept (e : TarEntry) : Bool := !escapes (clean e.header.linkname) && e.header.linkname ≠ []

-- the path q leads to the directory D whatever D holds, and no link in D with a name of M leads out
structure Held (M : Name → Prop) (q D : Place) (d : Disk) : Prop where
  valid : ValidPlace q
  way : (d.tree.hollow D).walk osLinkLimit [] q = .ok D
  folder : d.tree.node D = some .dir
  tame : Tame M D d.tree

-- a path to the destination, or from there on by names of M
def Onward (M : Name → Prop) (q x : Place) : Prop := x <+: q ∨ ∃ r, x = q ++ r ∧ ∀ c ∈ r, M c

def Bounded (M : Name → Prop) (q : Place) : {β : Type} → Syscall β → Prop
  | _, .stat _ => True
  | _, .lstat _ => True
  | _, .append _ _ => True
  | _, .mkdir p => ∃ x, p = absText x ∧ ValidPlace x ∧ Onward M q x
  | _, .create p => ∃ r, p = absText (q ++ r) ∧ ValidPlace r ∧ ∀ c ∈ r, M c
  | _, .remove p => ∃ r c, p = absText (q ++ (r ++ [c])) ∧ ValidPlace (r ++ [c]) ∧ ∀ b ∈ r ++ [c], M b
  | _, .symlink target p => (∃ r c, p = absText (q ++ (r ++ [c])) ∧ ValidPlace (r ++ [c]) ∧
      ∀ b ∈ r ++ [c], M b) ∧ (target ≠ [] → TameLink M 0 target)
  | _, _ => False

section Calls

variable {M : Name → Prop} {q D r : Place} {c : Name} {d d' : Disk} {e : Entry} {nd : Node Nat}

theorem place_outside (he : D <+: e.parent) {x : Place} (hx : D <+: x → x = D) : ¬e.place <+: x := by
  intro h
  have hlen := h.length_le
  have hpar := he.length_le
  have hD : x = D := hx ((he.trans (List.prefix_append e.parent [e.name])).trans h)
  rw [hD,Entry.place,List.length_append,List.length_singleton] at hlen
  omega

theorem Held.change (h : Held M q D d)
    (hout : ∀ x nd, (D <+: x → x = D) → d.tree.node x = some nd → d'.tree.node x = some nd)
    (htame : Tame M D d'.tree) : Held M q D d' where
  valid := h.valid
  way := walk_extends (hollow_mono hout) h.way
  folder := hout D .dir (fun _ => rfl) h.folder
  tame := htame

theorem Held.of_tree (h : Held M q D d) (ht : d'.tree = d.tree) : Held M q D d' :=
  h.change (fun _ _ _ hn => ht ▸ hn) (ht ▸ h.tame)

theorem Held.enter (h : Held M q D d) (he : D <+: e.parent) (hdir : d.tree.node e.parent = some .dir)
    (hfree : d.tree.node e.place = none)
    (hlink : ∀ target, nd = .link target → TameLink M 0 target)
    (ht : d'.tree = d.tree.put e.place nd) : Held M q D d' := by
  refine h.change ?_ ?_
  · intro x nd' hx hn
    rw [ht,node_put_other hfree (fun heq => place_outside he hx (heq ▸ List.prefix_refl _)),hn]
  · intro s b target hn hb
    rw [ht] at hn
    by_cases heq : D ++ s ++ [b] = e.place
    · have hself : (d.tree.put e.place nd).node e.place = some nd :=
        node_put_self (by simp [Entry.place]) (by rwa [Entry.place,List.dropLast_concat])
      rw [heq,hself,Option.some.injEq] at hn
      obtain ⟨hrel,hin⟩ := hlink target hn
      exact ⟨hrel,hin.mono (Nat.zero_le _)⟩
    · rw [node_put_other hfree heq] at hn
      exact h.tame s b target hn hb

theorem Held.prune (h : Held M q D d) (he : D <+: e.parent)
    (ht : d'.tree = d.tree.prune e.place) : Held M q D d' := by
  refine h.change ?_ ?_
  · intro x nd hx hn
    rw [ht,node_prune_other (place_outside he hx),hn]
  · intro s b target hn hb
    rw [ht] at hn
    exact h.tame s b target (extends_prune _ _ hn) hb

theorem Held.walk (h : Held M q D d) : d.tree.walk osLinkLimit [] q = .ok D :=
  walk_extends hollow_extends h.way

theorem Held.leads (h : Held M q D d) (hr : ValidPlace r) (hM : ∀ b ∈ r, M b) {x : Place}
    (hw : d.tree.walk osLinkLimit [] (q ++ r) = .ok x) : D <+: x := by
  obtain ⟨m,-,hm⟩ := walk_append_ok r h.folder h.walk
  rw [hm,← List.append_nil D] at hw
  exact walk_inside h.tame (inward_names hr hM) hw

theorem Held.lands (h : Held M q D d) (hr : ValidPlace r) (hM : ∀ b ∈ r, M b)
    (hl : d.tree.landing (absText (q ++ r)) = some e) : D <+: e.parent := by
  have hvalid : ValidPlace (q ++ r) := ValidPlace.append.mpr ⟨h.valid,hr⟩
  rcases List.eq_nil_or_concat' (q ++ r) with hnil | ⟨x,b,hx⟩
  · obtain ⟨f,hf⟩ := land_eq_landNew d.tree osLinkLimit
    have hroot : segments (absText []) = [[],[]] := by decide
    rw [hnil,landing,hroot,hf,landNew_skip (.inl rfl),landNew_skip (.inl rfl)] at hl
    cases hl
  · obtain ⟨m,-,hm⟩ := land_append r h.folder h.walk
    rw [hx,Disk.landing_absText (hx ▸ hvalid),← hx,hm,← List.append_nil D] at hl
    exact land_inside h.tame (inward_names hr hM) hl

theorem Held.entry (h : Held M q D d) (hr : ValidPlace (r ++ [c])) (hM : ∀ b ∈ r ++ [c], M b)
    (he : d.tree.entryAt (absText (q ++ (r ++ [c]))) = some e) : D <+: e.parent := by
  have hvalid : ValidPlace (q ++ r ++ [c]) := by
    rw [List.append_assoc]
    exact ValidPlace.append.mpr ⟨h.valid,hr⟩
  rw [← List.append_assoc] at he
  obtain ⟨hw,-⟩ := (Disk.entryAt_some_iff hvalid).mp he
  exact h.leads (ValidPlace.append.mp hr).1 (fun b hb => hM b (List.mem_append_left _ hb)) hw

theorem Held.vacant (h : Held M q D d) {x : Place} (hx : ValidPlace x) (ha : Onward M q x)
    (hv : d.vacantEntry (absText x) = .ok e) : D <+: e.parent := by
  have hfolder : Folder d (absText q) := folder_of_walk h.valid h.walk h.folder
  have hprefix : ¬x <+: q := fun hp => vacant_not_folder hx hv (found_above h.valid hfolder hp)
  obtain ⟨r,rfl,hM⟩ := ha.resolve_left hprefix
  rcases List.eq_nil_or_concat' r with rfl | ⟨r,c,rfl⟩
  · exact absurd (by simp) hprefix
  · exact h.entry (ValidPlace.append.mp hx).2 hM (Disk.vacantEntry_ok.mp hv).1

theorem enterAt_held (h : Held M q D d) {x : Place} (hx : ValidPlace x) (ha : Onward M q x)
    (hlink : ∀ target, nd = .link target → TameLink M 0 target) :
    (∀ e ∈ (d.enterAt (absText x) nd).effects, InDest D e) ∧
      Held M q D (d.enterAt (absText x) nd).disk := by
  refine ⟨Disk.all_enterAt.mpr fun e hv => h.vacant hx ha hv,?_⟩
  unfold Disk.enterAt
  cases hv : d.vacantEntry (absText x) with
  | error err => exact h
  | ok e =>
    obtain ⟨hdir,hfree⟩ := Disk.vacant_iff.mp (Disk.vacantEntry_ok.mp hv).2
    exact h.enter (h.vacant hx ha hv) hdir hfree hlink rfl

theorem create_held (h : Held M q D d) (hr : ValidPlace r) (hM : ∀ b ∈ r, M b) :
    (∀ e ∈ (d.create (absText (q ++ r))).effects, InDest D e) ∧
      Held M q D (d.create (absText (q ++ r))).disk := by
  have hvalid : ValidPlace (q ++ r) := ValidPlace.append.mpr ⟨h.valid,hr⟩
  constructor
  · refine Disk.all_create.mpr ⟨fun x i hf => ?_,fun _ e hl => h.lands hr hM hl⟩
    exact h.leads hr hM (walk_of_found hvalid hf)
  · unfold Disk.create
    split
    · exact h.of_tree rfl
    · exact h
    · split
      · exact h
      · rename_i e hl
        obtain ⟨hdir,hfree⟩ := landing_free hl
        refine h.enter (h.lands hr hM hl) (hdir _ (List.prefix_refl _)) hfree ?_ rfl
        exact fun target ht => by cases ht

theorem remove_held (h : Held M q D d) (hr : ValidPlace (r ++ [c])) (hM : ∀ b ∈ r ++ [c], M b) :
    d.All (InDest D) (.remove (absText (q ++ (r ++ [c])))) ∧
      Held M q D (d.run (.remove (absText (q ++ (r ++ [c]))))).disk := by
  have hin : ∀ e, d.tree.removedEntry (absText (q ++ (r ++ [c]))) = some e → D <+: e.parent :=
    fun e he => h.entry hr hM (removedEntry_some he).1
  refine ⟨Disk.all_remove.mpr hin,?_⟩
  cases hrem : d.tree.removedEntry (absText (q ++ (r ++ [c]))) with
  | none =>
    rw [Disk.remove_none hrem]
    exact h
  | some e =>
    rw [Disk.remove_some hrem]
    exact h.prune (hin e hrem) rfl

theorem bounded_step {β : Type} {s : Syscall β} (h : Held M q D d) (hs : Bounded M q s) :
    d.All (InDest D) s ∧ Held M q D (d.run s).disk := by
  cases s with
  | stat p => exact ⟨Disk.all_of_quiet rfl,h⟩
  | lstat p => exact ⟨Disk.all_of_quiet rfl,h⟩
  | append i data => exact ⟨Disk.all_of_quiet rfl,h.of_tree rfl⟩
  | mkdir p =>
    obtain ⟨x,rfl,hx,ha⟩ := hs
    exact enterAt_held h hx ha fun target ht => by cases ht
  | create p =>
    obtain ⟨r,rfl,hr,hM⟩ := hs
    exact create_held h hr hM
  | remove p =>
    obtain ⟨r,c,rfl,hr,hM⟩ := hs
    exact remove_held h hr hM
  | symlink target p =>
    obtain ⟨⟨r,c,rfl,hr,hM⟩,htarget⟩ := hs
    by_cases hnil : target = []
    · have hrun : d.run (.symlink target (absText (q ++ (r ++ [c])))) = d.failed .notExist := by
        simp [Disk.run,hnil]
      exact ⟨Disk.all_of_quiet (by rw [hrun]; rfl),by rw [hrun]; exact h⟩
    · have hrun : d.run (.symlink target (absText (q ++ (r ++ [c])))) =
          d.enterAt (absText (q ++ (r ++ [c]))) (.link target) := by
        simp [Disk.run,hnil]
      unfold Disk.All
      rw [hrun]
      refine enterAt_held h (ValidPlace.append.mpr ⟨h.valid,hr⟩) (.inr ⟨_,rfl,hM⟩) ?_
      intro t ht
      obtain rfl := Node.link.inj ht
      exact htarget hnil
  | _ => exact hs.elim

theorem bounded_run {α : Type} {p : Calls α} (h : Held M q D d) (hp : p.Uses (Bounded M q)) :
    Keeps (InDest D) p d ∧ Held M q D (p.eval Disk.act d).1 := by
  induction p generalizing d with
  | ret a => exact ⟨trivial,h⟩
  | step s k ih =>
    obtain ⟨hall,hheld⟩ := bounded_step h hp.1
    obtain ⟨hkeeps,hend⟩ := ih (d.run s).answer hheld (hp.2 _)
    exact ⟨⟨hall,hkeeps⟩,hend⟩

end Calls

def readable : Nat → TarStream → List TarEntry
  | _, [] => []
  | _, none :: _ => []
  | 0, some _ :: _ => []
  | n + 1, some e :: rest => e :: readable n rest

-- an entry that the check on its name lets pass names nothing but M, and its link, if it makes one, does not
-- replace the destination and leads down from where it stands
structure Harmless (M : Name → Prop) (e : TarEntry) : Prop where
  names : ∀ c ∈ components e.header.name, M c
  below : e.header.typeflag = .symlink ∨ e.header.typeflag = .link → components e.header.name ≠ []
  link : e.header.typeflag = .symlink ∨ e.header.typeflag = .link → linkKept e = true →
    TameLink M 0 e.header.linkname

section Programs

variable {M : Name → Prop} {q D x : Place} {d : Disk} {lim : Limits} {files total : Nat} {e : TarEntry}

theorem onward_up {y : Place} (h : Onward M q x) (hy : y <+: x) : Onward M q y := by
  rcases h with hp | ⟨r,rfl,hM⟩
  · exact .inl (hy.trans hp)
  · rcases List.prefix_or_prefix_of_prefix hy (List.prefix_append q r) with hp | ⟨s,rfl⟩
    · exact .inl hp
    · refine .inr ⟨s,rfl,fun c hc => hM c ?_⟩
      have hs : s <+: r := (List.prefix_append_right_inj q).mp hy
      exact hs.subset hc

theorem mkdirLast_bounded (hx : ValidPlace x) (ha : Onward M q x) :
    (Os.mkdirLast (absText x)).Uses (Bounded M q) := by
  refine ⟨⟨x,rfl,hx,ha⟩,fun made => ?_⟩
  cases made with
  | ok u => trivial
  | error err =>
    refine ⟨trivial,fun st => ?_⟩
    cases st with
    | error _ => trivial
    | ok st =>
      obtain ⟨kind,size,ident⟩ := st
      cases kind <;> trivial

theorem mkdirAllFrom_bounded {names : List Name} (hx : ValidPlace names.reverse)
    (ha : Onward M q names.reverse) : (Os.mkdirAllFrom names).Uses (Bounded M q) := by
  induction names with
  | nil =>
    refine ⟨trivial,fun st => ?_⟩
    cases st with
    | error _ => trivial
    | ok st =>
      obtain ⟨kind,size,ident⟩ := st
      cases kind <;> trivial
  | cons c rest ih =>
    have hpre : rest.reverse <+: (c :: rest).reverse := by simp
    have hup : ValidPlace rest.reverse := fun b hb => hx b (hpre.subset hb)
    refine ⟨trivial,fun st => ?_⟩
    cases st with
    | ok st =>
      obtain ⟨kind,size,ident⟩ := st
      cases kind <;> trivial
    | error _ =>
      refine uses_bind (p := Os.mkdirAllFrom rest) (ih hup (onward_up ha hpre)) fun made => ?_
      cases made with
      | error err => trivial
      | ok u => exact mkdirLast_bounded hx ha

theorem mkdirAll_bounded (hx : ValidPlace x) (ha : Onward M q x) :
    (Os.mkdirAll (absText x)).Uses (Bounded M q) := by
  unfold Os.mkdirAll
  rw [components_absText hx]
  exact mkdirAllFrom_bounded (by rwa [List.reverse_reverse]) (by rwa [List.reverse_reverse])

theorem extractReg_bounded {r : Place} (hq : ValidPlace q) (hr : ValidPlace r) (hM : ∀ c ∈ r, M c) :
    (extractReg lim total e (absText (q ++ r))).Uses (Bounded M q) := by
  have hx : ValidPlace (q ++ r) := ValidPlace.append.mpr ⟨hq,hr⟩
  have ha : Onward M q (q ++ r) := .inr ⟨r,rfl,hM⟩
  unfold extractReg
  refine uses_ite trivial ?_
  rw [dir,components_absText hx]
  refine uses_bind (mkdirAll_bounded hx.dropLast (onward_up ha (List.dropLast_prefix _)))
    fun made => ?_
  cases made with
  | error err => trivial
  | ok u =>
    refine ⟨⟨r,rfl,hr,hM⟩,fun opened => ?_⟩
    cases opened with
    | error err => trivial
    | ok i => exact ⟨trivial,fun _ => uses_ite trivial (uses_ite trivial trivial)⟩

theorem extractLink_bounded {r : Place} {c : Name} (hr : ValidPlace (r ++ [c]))
    (hM : ∀ b ∈ r ++ [c], M b) (hlink : linkKept e = true → TameLink M 0 e.header.linkname) :
    (extractLink e (absText (q ++ (r ++ [c])))).Uses (Bounded M q) := by
  refine ⟨⟨r,c,rfl,hr,hM⟩,fun _ => ?_⟩
  cases hlinkname : escapes (clean e.header.linkname) with
  | true => trivial
  | false =>
    refine ⟨⟨⟨r,c,rfl,hr,hM⟩,fun hne => hlink ?_⟩,fun _ => trivial⟩
    simp [linkKept,hlinkname,hne]

theorem extractEntry_bounded (hq : ValidPlace q)
    (he : escapes (clean e.header.name) = false → Harmless M e) :
    (extractEntry lim (absText q) total e).Uses (Bounded M q) := by
  unfold extractEntry
  cases hesc : escapes (clean e.header.name) with
  | true =>
    rw [if_pos hesc]
    trivial
  | false =>
    rw [if_neg (by simp [hesc])]
    have hharm := he hesc
    obtain ⟨habs,hup⟩ := Bool.or_eq_false_iff.mp hesc
    rw [isAbs_clean] at habs
    have hr := components_descend habs hup
    have hx : ValidPlace (q ++ components e.header.name) := ValidPlace.append.mpr ⟨hq,hr⟩
    have ha : Onward M q (q ++ components e.header.name) := .inr ⟨_,rfl,hharm.names⟩
    rw [joinPath_descend habs hup hq]
    have hlink : (e.header.typeflag = .symlink ∨ e.header.typeflag = .link) →
        (extractLink e (absText (q ++ components e.header.name))).Uses (Bounded M q) := by
      intro hflag
      obtain ⟨r,c,hrc⟩ : ∃ r c, components e.header.name = r ++ [c] :=
        (List.eq_nil_or_concat' _).resolve_left (hharm.below hflag)
      have hnames : ∀ b ∈ r ++ [c], M b := hrc ▸ hharm.names
      rw [hrc] at hr ⊢
      exact extractLink_bounded hr hnames (hharm.link hflag)
    cases hflag : e.header.typeflag with
    | dir =>
      refine uses_bind (mkdirAll_bounded hx ha) fun made => ?_
      cases made <;> trivial
    | reg => exact extractReg_bounded hq hr hharm.names
    | regA => exact extractReg_bounded hq hr hharm.names
    | symlink => exact uses_bind (hlink (.inl hflag)) fun _ => trivial
    | link => exact uses_bind (hlink (.inr hflag)) fun _ => trivial
    | other => trivial

theorem extractFrom_bounded (hq : ValidPlace q) {stream : TarStream}
    (he : ∀ e ∈ readable (lim.maxExtractFiles - files) stream,
      escapes (clean e.header.name) = false → Harmless M e) :
    (extractFrom lim (absText q) files total stream).Uses (Bounded M q) := by
  induction stream generalizing files total with
  | nil => trivial
  | cons o rest ih =>
    cases o with
    | none => trivial
    | some e =>
      unfold extractFrom
      by_cases hfiles : files + 1 > lim.maxExtractFiles
      · rw [if_pos hfiles]
        trivial
      · obtain ⟨n,hn⟩ : ∃ n, lim.maxExtractFiles - files = n + 1 :=
          ⟨lim.maxExtractFiles - (files + 1),by omega⟩
        have hrest : lim.maxExtractFiles - (files + 1) = n := by omega
        rw [if_neg hfiles]
        rw [hn,readable] at he
        refine uses_bind (extractEntry_bounded hq (he e List.mem_cons_self)) fun made => ?_
        cases made with
        | error err => trivial
        | ok total' => exact ih fun b hb => he b (List.mem_cons_of_mem e (hrest ▸ hb))

end Programs

theorem readable_mem {n : Nat} {stream : TarStream} {e : TarEntry} (h : e ∈ readable n stream) :
    some e ∈ stream := by
  induction stream generalizing n with
  | nil => cases n <;> cases h
  | cons o rest ih =>
    cases o with
    | none => cases n <;> cases h
    | some b =>
      cases n with
      | zero => cases h
      | succ n =>
        rcases List.mem_cons.mp h with rfl | h
        · exact List.mem_cons_self
        · exact List.mem_cons_of_mem _ (ih h)

def emptyDest : Disk where
  tree := { nodes := [([['d']],.dir)], rooted := by decide }
  bytes := fun _ => []
  next := 0
  hardLinks := true

def liveDest : Disk where
  tree :=
    { nodes := [([['d']],.dir),([['d'],['r']],.dir),([['d'],['r'],['u']],.link ['.','.','/','r'])]
      rooted := by decide }
  bytes := fun _ => []
  next := 0
  hardLinks := true

def fileEntry (name : Text) (data : Bytes) : TarEntry := ⟨⟨name,.reg,[],data.length⟩,data,false⟩

def linkEntry (name target : Text) : TarEntry := ⟨⟨name,.symlink,target,0⟩,[],false⟩

def anyName (_ : Name) : Prop := True

theorem liveDest_tame : Tame anyName [['d']] liveDest.tree := by
  intro s c target hn _
  have hmem := ((node_mem hn).resolve_left fun h => by simp at h).2
  have hlink : s = [['r']] ∧ target = ['.','.','/','r'] := by
    simp only [liveDest,List.mem_cons,Prod.mk.injEq,reduceCtorEq,and_false,Node.link.injEq,
      List.not_mem_nil,or_false,false_or] at hmem
    obtain ⟨hplace,rfl⟩ := hmem
    have htail : s ++ [c] = [['r']] ++ [['u']] := (List.cons.inj hplace).2
    exact ⟨(List.append_inj' htail rfl).1,rfl⟩
  obtain ⟨rfl,rfl⟩ := hlink
  refine ⟨rfl,inward_up.mpr ⟨by decide,?_⟩⟩
  exact (inward_plain ⟨by decide,by decide⟩).mpr ⟨trivial,trivial⟩

-- s leads to the destination, l by way of s to a name beside it, and l is then written
def chain : TarStream :=
  [some (linkEntry ['s'] dot),some (linkEntry ['l'] ['s','/','.','.','/','x']),
    some (fileEntry ['l'] [])]

end Backups
