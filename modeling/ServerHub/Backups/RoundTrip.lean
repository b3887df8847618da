import ServerHub.Backups.TarGz
import ServerHub.Posix.Walk

namespace Backups

open Posix Posix.FileTree Interleave Interleave.Prog

def entryOf (r : Place) : Node Bytes → TarEntry
  | .dir => ⟨⟨relText r,.dir,[],0⟩,[],false⟩
  | .file data => ⟨⟨relText r,.reg,[],data.length⟩,data,false⟩
  | .link target => ⟨⟨relText r,.symlink,target,0⟩,[],false⟩

def entriesOf (d : Disk) (S r : Place) : List TarEntry :=
  if r = [] then [] else ((d.view (S ++ r)).map (entryOf r)).toList

section Writer

variable {d : Disk} {s S r : Place} {c : Name} {nd : Node Nat} {seen : List TarEntry}

theorem absText_below (h : Below d.tree s S) (hn : d.tree.node (S ++ r) = some nd) (hr : r ≠ []) :
    absText (s ++ r) ≠ absText s := by
  intro he
  have hs := absText_injective (h.valid hn) h.path he
  exact hr (List.append_right_eq_self.mp hs)

theorem writeData_eval {path rel : Text} {info : Stat} {i : Nat} (h : d.openRead path = .ok (some i))
    (hk : info.kind = .file) (hsize : info.size = (d.bytes i).length) :
    (writeData seen path rel info).eval Disk.act d =
      (d,(seen ++ [⟨⟨rel,.reg,[],(d.bytes i).length⟩,d.bytes i,false⟩],none)) := by
  have hdata : (readAll path).eval Disk.act d = (d,d.bytes i) := by
    unfold readAll
    rw [act_call]
    simp only [Disk.run,h]
    rfl
  unfold writeData
  rw [act_after hdata,hsize,if_pos rfl,fileHeader,hk]
  simp [hsize]

theorem writeEntry_eval (h : Below d.tree s S) (hn : d.tree.node (S ++ r) = some nd) :
    (writeEntry (absText s) seen (absText (s ++ r)) (kindOf nd)).eval Disk.act d =
      (d,(seen ++ entriesOf d S r,none)) := by
  unfold writeEntry
  rcases List.eq_nil_or_concat' r with rfl | ⟨x,c,rfl⟩
  · rw [List.append_nil,if_pos rfl]
    simp [entriesOf]
  rw [if_neg (absText_below h hn (by simp)),relPath_below (h.valid hn) (by simp)]
  rw [← List.append_assoc] at hn
  have hnamed := below_named h hn
  rw [List.append_assoc] at hnamed hn
  have hinfo : d.lstat (absText (s ++ (x ++ [c]))) = .ok (d.info (S ++ (x ++ [c])) nd) := by
    rw [Disk.lstat_named hnamed]
    simp [Entry.place]
  have hview : entriesOf d S (x ++ [c]) = [entryOf (x ++ [c]) (nd.map d.bytes)] := by
    simp [entriesOf,Disk.view,hn]
  rw [act_lstat,hinfo,hview]
  cases nd with
  | dir => rfl
  | link target =>
    have hread : d.readLink (absText (s ++ (x ++ [c]))) = .ok target := by
      rw [Disk.readLink,hnamed]
    show ((call (.readLink _) >>= _).eval Disk.act d) = _
    rw [act_call]
    simp only [Disk.run,hread]
    rfl
  | file i =>
    have hvalid : ValidPlace (s ++ x ++ [c]) := by
      rw [List.append_assoc]
      exact h.valid hn
    have hopen : d.openRead (absText (s ++ (x ++ [c]))) = .ok (some i) := by
      rw [Disk.openRead,← List.append_assoc,Disk.found_named hvalid (List.append_assoc s x [c] ▸ hnamed)
        fun _ => by simp]
    exact writeData_eval hopen rfl rfl

-- the archive of the directory S: with enough depth no entry is left out
def archived (d : Disk) (S : Place) (n : Nat) : List TarEntry :=
  (d.tree.listing n S).flatMap (entriesOf d S)

theorem writeTarGz_eval (h : Below d.tree s S) {st : Stat} (hroot : d.lstat (absText s) = .ok st)
    (hk : st.kind = .dir) {n : Nat} (hdepth : ∀ r, d.tree.node (S ++ r) ≠ none → r.length < n) :
    (writeTarGz (absText s) n).eval Disk.act d =
      (d,.ok (archived d S n,((archived d S n).map fun e => e.data.length).sum)) := by
  have hwalk := walkFrom_eval (n := n) (fun _ => none) (entriesOf d S) h
    (fun seen r nd hn => writeEntry_eval h hn) [] [] .dir (by simpa using h.top) (by simpa using hdepth)
  rw [List.append_nil,List.append_nil] at hwalk
  have hall : (Os.walkDir (writeEntry (absText s)) (fun _ => none) n [] (absText s)).eval Disk.act d =
      (d,(archived d S n,none)) := by
    unfold Os.walkDir
    rw [act_lstat,hroot]
    simp only [hk]
    rw [kindOf] at hwalk
    rw [act_after hwalk]
    rfl
  unfold writeTarGz
  rw [act_after hall]
  rfl

end Writer

-- the reader restores the entry of r: its first name does not start with two dots, nor does the
-- cleaned target of a link
def Kept (r : Place) (nd : Node Nat) : Prop :=
  (∀ c, r.head? = some c → hasPrefix c dotdot = false) ∧
    ∀ target, nd = .link target → target ≠ [] ∧ escapes (clean target) = false

structure Restored (d₀ : Disk) (S : Place) (d : Disk) (dd D : Place) (done : Place → Prop) : Prop where
  below : Below d.tree dd D
  fresh : ∀ r i, d.tree.node (D ++ r) = some (.file i) → i < d.next
  copied : ∀ r nd, r ≠ [] → d₀.tree.node (S ++ r) = some nd → done r → Kept r nd →
    d.view (D ++ r) = d₀.view (S ++ r)
  absent : ∀ r, r ≠ [] → (∀ nd, d₀.tree.node (S ++ r) = some nd → done r → ¬Kept r nd) →
    d.tree.node (D ++ r) = none

section Reader

variable {d₀ d d' : Disk} {S dd D r : Place} {c : Name} {nd : Node Nat} {done : Place → Prop}

theorem restored_parent (h : Restored d₀ S d dd D done) {s : Place} (hsrc : Below d₀.tree s S)
    (hn : d₀.tree.node (S ++ r ++ [c]) = some nd) (hseen : done r ∨ r = [])
    (hhead : ∀ b, (r ++ [c]).head? = some b → hasPrefix b dotdot = false) :
    d.tree.node (D ++ r) = some .dir := by
  by_cases hr : r = []
  · rw [hr,List.append_nil]
    exact h.below.top
  · have hdir := hsrc.parent hn
    have hkept : Kept r .dir := by
      refine ⟨fun b hb => hhead b ?_,fun target ht => by cases ht⟩
      rw [List.head?_append_of_ne_nil _ hr]
      exact hb
    refine view_dir.mp ((h.copied r .dir hr hdir (hseen.resolve_right hr) hkept).trans ?_)
    exact view_dir.mpr hdir

theorem restored_skip (h : Restored d₀ S d dd D done) (hn : d₀.tree.node (S ++ r) = some nd)
    (hno : ¬Kept r nd) : Restored d₀ S d dd D fun x => done x ∨ x = r := by
  refine ⟨h.below,h.fresh,?_,?_⟩
  · rintro x y hx hy (hdone | rfl) hk
    · exact h.copied x y hx hy hdone hk
    · rw [hn,Option.some.injEq] at hy
      exact absurd (hy ▸ hk) hno
  · exact fun x hx hall => h.absent x hx fun y hy hdone => hall y hy (.inl hdone)

theorem restored_put (nd' : Node Nat) (h : Restored d₀ S d dd D done)
    (hn : d₀.tree.node (S ++ r ++ [c]) = some nd) (hk : Kept (r ++ [c]) nd) (hc : ValidName c)
    (hnew : ¬done (r ++ [c])) (hdir : d.tree.node (D ++ r) = some .dir)
    (htree : d'.tree = d.tree.put (D ++ r ++ [c]) nd') (hnext : d.next ≤ d'.next)
    (hbytes : ∀ i, i < d.next → d'.bytes i = d.bytes i) (hfile : ∀ i, nd' = .file i → i < d'.next)
    (hview : nd'.map d'.bytes = nd.map d₀.bytes) :
    Restored d₀ S d' dd D fun x => done x ∨ x = r ++ [c] := by
  have hplace : D ++ r ++ [c] = D ++ (r ++ [c]) := List.append_assoc D r [c]
  have hfree : d.tree.node (D ++ r ++ [c]) = none := by
    rw [hplace]
    exact h.absent (r ++ [c]) (by simp) fun y _ hdone => absurd hdone hnew
  have hself : d'.tree.node (D ++ (r ++ [c])) = some nd' := by
    rw [htree,← hplace]
    exact node_put_self (by simp) (by simpa [hplace,List.dropLast_append] using hdir)
  have hother {x : Place} (hx : x ≠ r ++ [c]) : d'.tree.node (D ++ x) = d.tree.node (D ++ x) := by
    rw [htree]
    exact node_put_other hfree fun he => hx (List.append_cancel_left (he.trans hplace))
  refine ⟨htree ▸ h.below.put hdir hfree hc,?_,?_,?_⟩
  · intro x i hx
    by_cases he : x = r ++ [c]
    · subst he
      rw [hself,Option.some.injEq] at hx
      exact hfile i hx
    · rw [hother he] at hx
      exact (h.fresh x i hx).trans_le hnext
  · rintro x y hx hy hdone hky
    by_cases he : x = r ++ [c]
    · subst he
      rw [Disk.view,Disk.view,hself,← List.append_assoc,hn,Option.map_some,Option.map_some,hview]
    · have hview' : d'.view (D ++ x) = d.view (D ++ x) := by
        unfold Disk.view
        rw [hother he]
        cases hnode : d.tree.node (D ++ x) with
        | none => rfl
        | some y' =>
          cases y' with
          | file i => simp [Node.map,hbytes i (h.fresh x i hnode)]
          | _ => rfl
      rw [hview']
      exact h.copied x y hx hy (hdone.resolve_right he) hky
  · intro x hx hall
    by_cases he : x = r ++ [c]
    · subst he
      exact absurd hk (hall nd (List.append_assoc S r [c] ▸ hn) (.inr rfl))
    · rw [hother he]
      exact h.absent x hx fun y hy hdone => hall y hy (.inl hdone)

end Reader

section Made

variable {d : Disk} {dd D r : Place} {c : Name} {lim : Limits} {total : Nat} {rel : Text}
  (h : Below d.tree dd D) (hdir : d.tree.node (D ++ r) = some .dir)
  (hfree : d.tree.node (D ++ r ++ [c]) = none) (hc : ValidName c)

include h hdir hfree hc

theorem create_made : d.run (.create (absText (dd ++ r ++ [c]))) =
    ⟨d.allocate ⟨D ++ r,c⟩,.ok d.next,[.create ⟨D ++ r,c⟩]⟩ := by
  have hq := valid_below h hdir hc
  have hnot := Disk.found_vacant hq (below_entry h hdir hc) (Disk.vacant_iff.mpr ⟨hdir,hfree⟩)
  have hland : d.tree.landing (absText (dd ++ r ++ [c])) = some ⟨D ++ r,c⟩ := by
    rw [Disk.landing_absText hq,land_here (ValidName.plain hc) hdir (h.walk hdir) hfree]
  show d.create (absText (dd ++ r ++ [c])) = _
  unfold Disk.create
  rw [hnot,hland]

theorem reg_made {data : Bytes} (hsize : data.length ≤ lim.maxSingleFile)
    (htotal : total + data.length ≤ lim.maxExtractBytes) :
    (extractReg lim total ⟨⟨rel,.reg,[],data.length⟩,data,false⟩ (absText (dd ++ r ++ [c]))).eval Disk.act d =
      (((d.allocate ⟨D ++ r,c⟩).run (.append d.next data)).disk,.ok (total + data.length)) := by
  have hcopied : data.take (lim.maxSingleFile + 1) = data := List.take_of_length_le (by omega)
  have hdirname : dir (absText (dd ++ r ++ [c])) = absText (dd ++ r) := by
    rw [dir,components_absText (valid_below h hdir hc),List.dropLast_concat]
  unfold extractReg
  rw [if_neg (by simpa using hsize),hdirname,act_after (mkdirAll_there h hdir)]
  unfold extractData
  rw [act_call,create_made h hdir hfree hc]
  simp only [hcopied]
  rw [act_call,if_neg (by simp),if_neg (by omega)]
  rfl

theorem link_made {target : Text} :
    (extractLink ⟨⟨rel,.symlink,target,0⟩,[],false⟩ (absText (dd ++ r ++ [c]))).eval Disk.act d =
      (if target ≠ [] ∧ escapes (clean target) = false then d.enter ⟨D ++ r,c⟩ (.link target) else d,()) := by
  have hremoved : d.tree.removedEntry (absText (dd ++ r ++ [c])) = none := by
    by_contra hne
    obtain ⟨e,he⟩ := Option.ne_none_iff_exists'.mp hne
    obtain ⟨hentry,-,nd,hn⟩ := removedEntry_some he
    obtain rfl := Option.some.inj ((below_entry h hdir hc).symm.trans hentry)
    rw [Entry.place,hfree] at hn
    cases hn
  unfold extractLink
  rw [act_call,Disk.remove_none hremoved]
  by_cases hkeep : target ≠ [] ∧ escapes (clean target) = false
  · have hrun : d.run (.symlink target (absText (dd ++ r ++ [c]))) =
        ⟨d.enter ⟨D ++ r,c⟩ (.link target),.ok (),[.create ⟨D ++ r,c⟩]⟩ := by
      show (if target = [] then _ else d.enterAt _ _) = _
      rw [if_neg hkeep.1,Disk.enterAt,vacant_below h hdir hfree hc]
    rw [if_pos hkeep,if_neg (by simp [hkeep.2]),act_call,hrun]
    rfl
  · rw [if_neg hkeep]
    by_cases hesc : escapes (clean target) = true
    · rw [if_pos hesc]
      rfl
    · have ht : target = [] := by
        by_contra hne
        exact hkeep ⟨hne,by simpa using hesc⟩
      rw [if_neg hesc,act_call,ht]
      rfl

end Made

section Steps

variable {d₀ d : Disk} {s S dd D r : Place} {nd : Node Nat} {done : Place → Prop} {lim : Limits}
  {total : Nat}

theorem clean_entry (hr : ValidPlace r) (hne : r ≠ []) (nd : Node Bytes) :
    clean (entryOf r nd).header.name = relText r := by
  cases nd <;> exact clean_relText hr hne

theorem escapes_entry (hr : ValidPlace r) (hne : r ≠ []) :
    escapes (relText r) = true ↔ ∃ c, r.head? = some c ∧ hasPrefix c dotdot = true := by
  rw [escapes,isAbs_relText hr hne,Bool.false_or,hasPrefix_relText hr hne]
  cases r.head? <;> simp

theorem entry_restored (hsrc : Below d₀.tree s S) (hn : d₀.tree.node (S ++ r) = some nd) (hne : r ≠ [])
    (hseen : done r.dropLast ∨ r.dropLast = []) (hnew : ¬done r) (h : Restored d₀ S d dd D done)
    (hsize : (entryOf r (nd.map d₀.bytes)).header.size ≤ lim.maxSingleFile)
    (htotal : total + (entryOf r (nd.map d₀.bytes)).data.length ≤ lim.maxExtractBytes) :
    ∃ d' total', (extractEntry lim (absText dd) total (entryOf r (nd.map d₀.bytes))).eval Disk.act d =
        (d',.ok total') ∧ total' ≤ total + (entryOf r (nd.map d₀.bytes)).data.length ∧
      Restored d₀ S d' dd D fun x => done x ∨ x = r := by
  have hr := hsrc.names r (by rw [hn]; nofun)
  unfold extractEntry
  rw [clean_entry hr hne]
  by_cases hesc : escapes (relText r) = true
  · obtain ⟨b,hb,hdots⟩ := (escapes_entry hr hne).mp hesc
    rw [if_pos hesc]
    refine ⟨d,total,rfl,Nat.le_add_right _ _,restored_skip h hn fun hk => ?_⟩
    rw [hk.1 b hb] at hdots
    cases hdots
  rw [if_neg hesc,joinPath_relText hr hne h.below.path]
  have hhead : ∀ b, r.head? = some b → hasPrefix b dotdot = false := by
    intro b hb
    by_contra hdots
    exact hesc ((escapes_entry hr hne).mpr ⟨b,hb,by simpa using hdots⟩)
  obtain ⟨x,c,rfl⟩ := (List.eq_nil_or_concat' r).resolve_left hne
  rw [List.dropLast_concat] at hseen
  have hc := (ValidPlace.cons.mp (ValidPlace.append.mp hr).2).1
  have hplace : D ++ x ++ [c] = D ++ (x ++ [c]) := List.append_assoc D x [c]
  have hfree : d.tree.node (D ++ x ++ [c]) = none := by
    rw [hplace]
    exact h.absent _ hne fun y _ hdone => absurd hdone hnew
  rw [← List.append_assoc] at hn
  have hdir := restored_parent h hsrc hn hseen hhead
  rw [← List.append_assoc]
  cases nd with
  | dir =>
    have hkept : Kept (x ++ [c]) .dir := ⟨hhead,fun target ht => by cases ht⟩
    refine ⟨d.enter ⟨D ++ x,c⟩ .dir,total,?_,Nat.le_add_right _ _,?_⟩
    · show ((Os.mkdirAll _ >>= _).eval Disk.act d) = _
      rw [act_after (mkdirAll_made h.below hdir hfree hc)]
      rfl
    · exact restored_put _ h hn hkept hc hnew hdir rfl le_rfl (fun _ _ => rfl) (fun i hi => by cases hi) rfl
  | file i =>
    have hkept : Kept (x ++ [c]) (.file i) := ⟨hhead,fun target ht => by cases ht⟩
    refine ⟨_,_,reg_made h.below hdir hfree hc hsize htotal,le_rfl,?_⟩
    refine restored_put (.file d.next) h hn hkept hc hnew hdir rfl (Nat.le_succ _) ?_ ?_ ?_
    · intro j hj
      simp [Disk.run,Disk.allocate,Function.update_of_ne (Nat.ne_of_lt hj),Disk.enter]
    · rintro j hj
      obtain rfl := Node.file.inj hj
      exact Nat.lt_succ_self _
    · simp [Node.map,Disk.run,Disk.allocate]
  | link target =>
    refine ⟨if target ≠ [] ∧ escapes (clean target) = false then d.enter ⟨D ++ x,c⟩ (.link target)
      else d,total,?_,Nat.le_add_right _ _,?_⟩
    · have hlink : (extractLink (entryOf (x ++ [c]) (.link target)) (absText (dd ++ x ++ [c]))).eval
          Disk.act d = (if target ≠ [] ∧ escapes (clean target) = false then
            d.enter ⟨D ++ x,c⟩ (.link target) else d,()) := link_made h.below hdir hfree hc
      show ((extractLink (entryOf (x ++ [c]) (.link target)) _ >>= _).eval Disk.act d) = _
      rw [act_after hlink]
      rfl
    · split
      · rename_i hkeep
        have hkept : Kept (x ++ [c]) (.link target) := by
          refine ⟨hhead,fun target' ht => ?_⟩
          obtain rfl := Node.link.inj ht
          exact hkeep
        exact restored_put _ h hn hkept hc hnew hdir rfl le_rfl (fun _ _ => rfl) (fun i hi => by cases hi) rfl
      · rename_i hdrop
        rw [List.append_assoc] at hn
        exact restored_skip h hn fun hk => hdrop (hk.2 target rfl)

def Fits (lim : Limits) (entries : List TarEntry) : Prop :=
  entries.length ≤ lim.maxExtractFiles ∧ (∀ e ∈ entries, e.header.size ≤ lim.maxSingleFile) ∧
    (entries.map fun e => e.data.length).sum ≤ lim.maxExtractBytes

theorem run_restored (hsrc : Below d₀.tree s S) {rs : List Place} {files : Nat}
    (hrs : ∀ r ∈ rs, r ≠ [] ∧ d₀.tree.node (S ++ r) ≠ none ∧ ¬done r) (hnodup : rs.Nodup)
    (hdown : Downward (fun x => done x ∨ x = []) rs) (h : Restored d₀ S d dd D done)
    (hfiles : files + (rs.flatMap (entriesOf d₀ S)).length ≤ lim.maxExtractFiles)
    (hsize : ∀ e ∈ rs.flatMap (entriesOf d₀ S), e.header.size ≤ lim.maxSingleFile)
    (htotal : total + ((rs.flatMap (entriesOf d₀ S)).map fun e => e.data.length).sum ≤ lim.maxExtractBytes) :
    ∃ d', (extractFrom lim (absText dd) files total ((rs.flatMap (entriesOf d₀ S)).map some)).eval
        Disk.act d = (d',.ok ()) ∧ Restored d₀ S d' dd D fun x => done x ∨ x ∈ rs := by
  induction rs generalizing d done files total with
  | nil => exact ⟨d,rfl,by simpa using h⟩
  | cons r rs ih =>
    obtain ⟨hne,hex,hnew⟩ := hrs r List.mem_cons_self
    obtain ⟨nd,hn⟩ := Option.ne_none_iff_exists'.mp hex
    obtain ⟨hfresh,hnodup⟩ := List.nodup_cons.mp hnodup
    have hentry : entriesOf d₀ S r = [entryOf r (nd.map d₀.bytes)] := by
      simp [entriesOf,hne,Disk.view,hn]
    simp only [List.flatMap_cons,hentry,List.singleton_append,List.map_cons,List.sum_cons,
      List.length_cons,List.mem_cons,forall_eq_or_imp] at hfiles hsize htotal ⊢
    have htotal₀ : total + (entryOf r (nd.map d₀.bytes)).data.length ≤ lim.maxExtractBytes := by omega
    obtain ⟨d₁,total₁,hrun,hle,hrest⟩ := entry_restored hsrc hn hne hdown.1 hnew h hsize.1 htotal₀
    have hlater : ∀ x ∈ rs, x ≠ [] ∧ d₀.tree.node (S ++ x) ≠ none ∧ ¬(done x ∨ x = r) := by
      intro x hx
      obtain ⟨hxne,hxex,hxnew⟩ := hrs x (List.mem_cons_of_mem r hx)
      exact ⟨hxne,hxex,not_or.mpr ⟨hxnew,fun he => hfresh (he ▸ hx)⟩⟩
    have hdown' : Downward (fun x => (done x ∨ x = r) ∨ x = []) rs :=
      downward_mono (fun x hx => by tauto) hdown.2
    have hfiles₁ : files + 1 + (rs.flatMap (entriesOf d₀ S)).length ≤ lim.maxExtractFiles := by omega
    have htotal₁ : total₁ + ((rs.flatMap (entriesOf d₀ S)).map fun e => e.data.length).sum ≤
        lim.maxExtractBytes := by omega
    obtain ⟨d₂,hrun₂,hend⟩ := ih hlater hnodup hdown' hrest hfiles₁ hsize.2 htotal₁
    refine ⟨d₂,?_,?_⟩
    · rw [extractFrom,if_neg (by omega),act_after hrun]
      exact hrun₂
    · simpa only [or_assoc] using hend

theorem all_restored (h : Restored d₀ S d dd D fun x => x ≠ [] ∧ d₀.tree.node (S ++ x) ≠ none) :
    (∀ r, r ≠ [] → d.view (D ++ r) = d₀.view (S ++ r)) ↔
      ∀ r nd, r ≠ [] → d₀.tree.node (S ++ r) = some nd → Kept r nd := by
  constructor
  · intro hall r nd hne hn
    by_contra hno
    have hgone := h.absent r hne fun y hy _ => by
      rw [hn,Option.some.injEq] at hy
      exact hy ▸ hno
    have hview := hall r hne
    rw [Disk.view,Disk.view,hgone,hn] at hview
    cases hview
  · intro hall r hne
    cases hn : d₀.tree.node (S ++ r) with
    | none =>
      have hgone := h.absent r hne fun y hy _ => by
        rw [hn] at hy
        cases hy
      rw [Disk.view,Disk.view,hgone,hn]
      rfl
    | some nd => exact h.copied r nd hne hn ⟨hne,by rw [hn]; nofun⟩ (hall r nd hne hn)

end Steps

structure EmptyDir (d : Disk) (destDir : Text) (D : Place) : Prop where
  abs : isAbs destDir = true
  cleaned : clean destDir = destDir
  found : d.found destDir = .ok (D,.dir)
  empty : ∀ r, r ≠ [] → d.tree.node (D ++ r) = none

-- a directory S that the path srcDir leads to and names: below it names are names, and only
-- directories hold entries
structure ReadableDir (d : Disk) (srcDir : Text) (S : Place) : Prop where
  abs : isAbs srcDir = true
  cleaned : clean srcDir = srcDir
  found : d.found srcDir = .ok (S,.dir)
  nolink : ∃ st, d.lstat srcDir = .ok st ∧ st.kind = .dir
  proper : ∀ r c, d.tree.node (S ++ r ++ [c]) ≠ none → d.tree.node (S ++ r) = some .dir
  names : ∀ r, d.tree.node (S ++ r) ≠ none → ValidPlace r

theorem ReadableDir.below {d : Disk} {srcDir : Text} {S : Place} (h : ReadableDir d srcDir S) :
    Below d.tree (components srcDir) S := by
  have hpath : absText (components srcDir) = srcDir := by rw [← clean_abs h.abs,h.cleaned]
  have hfound := h.found
  rw [← hpath] at hfound
  exact ⟨components_valid h.abs,walk_of_found (components_valid h.abs) hfound,
    (Disk.found_ok.mp hfound).2,h.proper,h.names⟩

theorem EmptyDir.below {d : Disk} {destDir : Text} {D : Place} (h : EmptyDir d destDir D) :
    Below d.tree (components destDir) D := by
  have hpath : absText (components destDir) = destDir := by rw [← clean_abs h.abs,h.cleaned]
  have hfound := h.found
  rw [← hpath] at hfound
  have htop := (Disk.found_ok.mp hfound).2
  refine ⟨components_valid h.abs,walk_of_found (components_valid h.abs) hfound,htop,?_,?_⟩
  · intro r c hn
    exact absurd (List.append_assoc D r [c] ▸ h.empty (r ++ [c]) (by simp)) hn
  · intro r hn
    by_cases hr : r = []
    · exact hr ▸ validPlace_nil
    · exact absurd (h.empty r hr) hn

theorem EmptyDir.restored {d₀ d : Disk} {S : Place} {destDir : Text} {D : Place}
    (h : EmptyDir d destDir D) : Restored d₀ S d (components destDir) D fun _ => False := by
  refine ⟨h.below,?_,fun _ _ _ _ hdone => hdone.elim,fun r hr _ => h.empty r hr⟩
  intro r i hn
  by_cases hr : r = []
  · rw [hr,List.append_nil,h.below.top] at hn
    cases hn
  · rw [h.empty r hr] at hn
    cases hn

theorem snapshot_restored {d₀ d : Disk} {srcDir destDir : Text} {S D : Place} {n : Nat}
    (hsrc : ReadableDir d₀ srcDir S) (hdest : EmptyDir d destDir D)
    (hdepth : ∀ r, d₀.tree.node (S ++ r) ≠ none → r.length < n) :
    ∃ entries total, (writeTarGz srcDir n).eval Disk.act d₀ = (d₀,.ok (entries,total)) ∧
      (Fits limits entries →
        ∃ d', (extractTarGz limits destDir (.ok (entries.map some))).eval Disk.act d = (d',.ok ()) ∧
          ((∀ r, r ≠ [] → d'.view (D ++ r) = d₀.view (S ++ r)) ↔
            ∀ r nd, r ≠ [] → d₀.tree.node (S ++ r) = some nd → Kept r nd)) := by
  have hpath : absText (components srcDir) = srcDir := by rw [← clean_abs hsrc.abs,hsrc.cleaned]
  have hdestPath : absText (components destDir) = destDir := by
    rw [← clean_abs hdest.abs,hdest.cleaned]
  obtain ⟨st,hroot,hk⟩ := hsrc.nolink
  have hwrite := writeTarGz_eval hsrc.below (hpath.symm ▸ hroot) hk hdepth
  rw [hpath] at hwrite
  refine ⟨_,_,hwrite,?_⟩
  rintro ⟨hfiles,hsize,htotal⟩
  have hlisted : ∀ r, r ∈ d₀.tree.listing n S ↔ r ≠ [] ∧ d₀.tree.node (S ++ r) ≠ none := by
    intro r
    rw [mem_listing]
    exact and_congr_right fun _ => and_iff_right_of_imp fun hn => (hdepth r hn).le
  obtain ⟨d',hrun,hend⟩ := run_restored hsrc.below
    (fun r hr => ⟨((hlisted r).mp hr).1,((hlisted r).mp hr).2,id⟩) nodup_listing
    (downward_listing (.inr rfl)) hdest.restored ((Nat.zero_add _).trans_le hfiles)
    hsize ((Nat.zero_add _).trans_le htotal)
  simp only [false_or,hlisted] at hend
  refine ⟨d',?_,all_restored hend⟩
  have hne : destDir ≠ [] := by
    rintro rfl
    exact absurd hdest.abs (by decide)
  have hmk : (Os.mkdirAll destDir).eval Disk.act d = (d,.ok ()) := by
    have hthere := mkdirAll_there hdest.below (r := []) (by simpa using hdest.below.top)
    rwa [List.append_nil,hdestPath] at hthere
  unfold extractTarGz
  rw [if_neg hne,act_after hmk,← hdestPath]
  exact hrun

theorem node_place {d : Disk} {P : Place → Prop} (h : ∀ e ∈ d.tree.nodes, P e.1) {q : Place}
    (hn : d.tree.node q ≠ none) : q = [] ∨ P q := by
  obtain ⟨nd,hn⟩ := Option.ne_none_iff_exists'.mp hn
  rcases node_mem hn with ⟨hq,-⟩ | ⟨-,hm⟩
  · exact .inl hq
  · exact .inr (h _ hm)

def oneFile : Disk where
  tree := { nodes := [([['s']],.dir),([['s'],['f']],.file 0)], rooted := by decide }
  bytes := fun _ => [7]
  next := 1
  hardLinks := true

theorem oneFolder_rooted : ∀ e ∈ [(([['d']],.dir) : Place × Node Nat)], e.1 ≠ [] ∧
    (e.1.dropLast = [] ∨ (e.1.dropLast,.dir) ∈ [(([['d']],.dir) : Place × Node Nat)]) := by
  decide

def emptyTarget : Disk where
  tree := { nodes := [([['d']],.dir)], rooted := oneFolder_rooted }
  bytes := fun _ => []
  next := 0
  hardLinks := true

theorem oneFile_readable : ReadableDir oneFile ['/','s'] [['s']] := by
  have hplaces : ∀ r, oneFile.tree.node ([['s']] ++ r) ≠ none → r = [] ∨ r = [['f']] := by
    intro r hn
    have hmem := node_place (P := fun q => q = [['s']] ∨ q = [['s'],['f']]) (by decide) hn
    simpa using hmem
  refine ⟨rfl,rfl,rfl,⟨_,rfl,rfl⟩,?_,?_⟩
  · intro r c hn
    rw [List.append_assoc] at hn
    rcases hplaces _ hn with h | h
    · simp at h
    · obtain ⟨rfl,-⟩ := List.append_inj' (h.trans (List.nil_append _).symm) rfl
      rfl
  · intro r hn
    rcases hplaces r hn with rfl | rfl
    · exact validPlace_nil
    · simp [ValidPlace,ValidName,dot,dotdot]

theorem emptyTarget_empty : EmptyDir emptyTarget ['/','d'] [['d']] := by
  refine ⟨rfl,rfl,rfl,fun r hr => ?_⟩
  by_contra hn
  have hmem := node_place (P := fun q => q = [['d']]) (by decide) hn
  simp [hr] at hmem

theorem one_file_restored : ∃ entries total,
    (writeTarGz ['/','s'] 2).eval Disk.act oneFile = (oneFile,.ok (entries,total)) ∧
      (Fits limits entries →
        ∃ d', (extractTarGz limits ['/','d'] (.ok (entries.map some))).eval Disk.act emptyTarget =
            (d',.ok ()) ∧
          ((∀ r, r ≠ [] → d'.view ([['d']] ++ r) = oneFile.view ([['s']] ++ r)) ↔
            ∀ r nd, r ≠ [] → oneFile.tree.node ([['s']] ++ r) = some nd → Kept r nd)) := by
  refine snapshot_restored oneFile_readable emptyTarget_empty fun r hn => ?_
  have hmem : r.length + 1 < 3 := by
    simpa using node_place (P := fun q => q.length < 3) (by decide) hn
  omega

-- /s/a/l leads to the file /s/f by way of ..
def upwardLink : Disk where
  tree := { nodes := [([['s']],.dir),([['s'],['a']],.dir),([['s'],['a'],['l']],.link ['.','.','/','f']),
    ([['s'],['f']],.file 0)], rooted := by decide }
  bytes := fun _ => [7]
  next := 1
  hardLinks := true

def upwardArchive : List TarEntry :=
  [⟨⟨['a'],.dir,[],0⟩,[],false⟩,⟨⟨['a','/','l'],.symlink,['.','.','/','f'],0⟩,[],false⟩,
    ⟨⟨['f'],.reg,[],1⟩,[7],false⟩]

theorem upward_link_lost :
    upwardLink.found ['/','s','/','a','/','l'] = .ok ([['s'],['f']],.file 0) ∧
      ((writeTarGz ['/','s'] 3).eval Disk.act upwardLink).2 = .ok (upwardArchive,1) ∧
      Fits limits upwardArchive ∧
      ((extractTarGz limits ['/','d'] (.ok (upwardArchive.map some))).eval Disk.act emptyTarget).2 =
        .ok () ∧
      ((extractTarGz limits ['/','d'] (.ok (upwardArchive.map some))).eval Disk.act emptyTarget).1.view
        [['d'],['a'],['l']] = none ∧
      upwardLink.view [['s'],['a'],['l']] = some (.link ['.','.','/','f']) := by
  refine ⟨rfl,rfl,⟨by decide,by decide,by decide⟩,rfl,rfl,rfl⟩

end Backups
