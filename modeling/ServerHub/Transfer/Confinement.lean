import ServerHub.Transfer.Service

namespace Transfer

open Posix Posix.FileTree Interleave Interleave.Prog

def step (root : Text) : {β : Type} → Op β → Disk → Disk × β
  | _, .inl s, d => ((d.run s).disk,(d.run s).answer)
  | _, .inr (.resolve p), d => (d,resolveSafePath d.tree root p)
  | _, .inr .lock, d => (d,())
  | _, .inr .unlock, d => (d,())

-- an entry made, removed or renamed is in the directory real, and is not real itself
def Inside (real : Place) (x : Effect) : Prop :=
  ∀ e ∈ x.entries, real <+: e.parent ∧ e.place ≠ real

def InsideRoot (real : Place) (d : Disk) {β : Type} : Op β → Prop
  | .inl s => d.All (Inside real) s
  | .inr _ => True

abbrev Confined (root : Text) (real : Place) {α : Type} (p : Service α) (d : Disk) : Prop :=
  p.Meets (step root) (InsideRoot real) d

section Steps

variable {root : Text} {real : Place} {d d' : Disk} {x y : Entry} {α β : Type} {p a b : Text}

theorem below_self (h : real <+: x.parent) : x.place ≠ real := by
  rintro rfl
  have hlength := h.length_le
  simp only [Entry.place,List.length_append,List.length_singleton] at hlength
  omega

@[simp] theorem inside_create : Inside real (.create x) ↔ real <+: x.parent := by
  simpa [Inside,Effect.entries] using below_self

@[simp] theorem inside_remove : Inside real (.remove x) ↔ real <+: x.parent := by
  simpa [Inside,Effect.entries] using below_self

@[simp] theorem inside_rename :
    Inside real (.rename x y) ↔ real <+: x.parent ∧ real <+: y.parent := by
  constructor
  · intro h
    exact ⟨(h x (by simp [Effect.entries])).1,(h y (by simp [Effect.entries])).1⟩
  · rintro ⟨hx,hy⟩ e he
    rcases List.mem_cons.mp he with rfl | he
    · exact ⟨hx,below_self hx⟩
    · rw [List.mem_singleton.mp he]
      exact ⟨hy,below_self hy⟩

@[simp] theorem inside_write (q : Place) : Inside real (.write q) ↔ True := by
  simp [Inside,Effect.entries]

theorem confined_sys {s : Syscall β} {k : β → Service α} :
    Confined root real (sys s >>= k) d ↔
      d.All (Inside real) s ∧ Confined root real (k (d.run s).answer) (d.run s).disk := Iff.rfl

theorem confined_bind {p : Service β} {k : β → Service α} :
    Confined root real (p >>= k) d ↔ Confined root real p d ∧
      Confined root real (k (p.eval (step root) d).2) (p.eval (step root) d).1 := meets_bind

theorem eval_os (p : Calls α) : (os p).eval (step root) d = p.eval Disk.act d :=
  eval_lift (fun _ _ => rfl) p d

theorem confined_os {p : Calls α} : Confined root real (os p) d ↔ Keeps (Inside real) p d :=
  meets_lift (fun _ _ => rfl) (fun _ _ => Iff.rfl) p d

theorem confined_os_bind {p : Calls β} {k : β → Service α} :
    Confined root real (os p >>= k) d ↔ Keeps (Inside real) p d ∧
      Confined root real (k (p.eval Disk.act d).2) (p.eval Disk.act d).1 := by
  rw [confined_bind,confined_os,eval_os]

@[simp] theorem confined_ret (a : α) : Confined root real (.ret a) d ↔ True := Iff.rfl

@[simp] theorem confined_stat {k : Except SysErr Stat → Service α} :
    Confined root real (sys (.stat p) >>= k) d ↔ Confined root real (k (d.stat p)) d :=
  confined_sys.trans (and_iff_right (Disk.all_of_quiet rfl))

@[simp] theorem confined_resolve {k : Except AppError Text → Service α} :
    Confined root real (resolve p >>= k) d ↔
      Confined root real (k (resolveSafePath d.tree root p)) d := and_iff_right trivial

@[simp] theorem confined_lock {k : Unit → Service α} :
    Confined root real (lock >>= k) d ↔ Confined root real (k ()) d := and_iff_right trivial

@[simp] theorem confined_unlock {k : Unit → Service α} :
    Confined root real (unlock >>= k) d ↔ Confined root real (k ()) d := and_iff_right trivial

theorem inside_removeAll : d.All (Inside real) (.removeAll p) ↔
    ∀ e nd, d.named p = .ok (e,nd) → real <+: e.parent := by
  rw [Disk.all_removeAll]
  refine forall_congr' fun e => forall_congr' fun nd => forall_congr' fun hn => ?_
  constructor
  · intro h
    exact inside_remove.mp (h e (Disk.self_below (Disk.named_ok.mp hn).2.2))
  · intro h x hx
    exact inside_remove.mpr (h.trans (Disk.mem_below hx))

theorem delete_confined {clientPath : Text} {recursive : Bool} :
    Confined root real (delete root clientPath recursive) d ↔
      (rejectTrash clientPath = .ok () → ∀ abs, resolveSafePath d.tree root clientPath = .ok abs →
        abs ≠ clean root → ∀ info, d.stat abs = .ok info →
          (info.kind = .dir → recursive = true) →
            ∀ e nd, d.named abs = .ok (e,nd) → real <+: e.parent) := by
  unfold delete
  cases ht : rejectTrash clientPath with
  | error e => simp
  | ok u =>
    simp only [confined_resolve,forall_const]
    cases hr : resolveSafePath d.tree root clientPath with
    | error e => simp
    | ok abs =>
      simp only [Except.ok.injEq,forall_eq']
      by_cases habs : abs = clean root
      · simp [habs]
      · rw [if_neg habs,confined_stat]
        simp only [ne_eq,habs,not_false_eq_true,forall_const]
        cases hs : d.stat abs with
        | error e => cases e <;> simp
        | ok info =>
          simp only [Except.ok.injEq,forall_eq']
          by_cases hdir : info.kind = .dir ∧ recursive = false
          · simp [hdir]
          · have hgo : info.kind = .dir → recursive = true := by simpa using hdir
            rw [if_neg hdir,confined_sys,inside_removeAll,imp_iff_right hgo]
            refine and_iff_left ?_
            cases (d.run (.removeAll abs)).answer <;> trivial

end Steps

section Renaming

variable {root : Text} {real r q : Place} {c : Name} {d : Disk} {x y : Entry} {a b : Text}

-- the entry x that a names becomes the entry y that b names
def Replaces (d : Disk) (a b : Text) (x y : Entry) : Prop :=
  Folder d a ∧ d.Renames a b x y ∨
    ¬Folder d a ∧ (∃ nd, d.named a = .ok (x,nd)) ∧ d.vacantEntry b = .ok y

theorem renameFallback_confined : Confined root real (renameFallback a b) d ↔
    Keeps (Inside real) (Os.rename a b) d := by
  unfold renameFallback
  rw [confined_os_bind]
  refine and_iff_left ?_
  cases ((Os.rename a b).eval Disk.act d).2 with
  | ok u => trivial
  | error e => cases e <;> trivial

theorem renameNoReplace_folder (h : Folder d a) :
    Confined root real (renameNoReplace a b) d ↔ Keeps (Inside real) (Os.rename a b) d := by
  obtain ⟨⟨kind,size,ident⟩,hs,rfl⟩ := h
  unfold renameNoReplace
  rw [confined_stat,hs]
  exact renameFallback_confined

-- the rename of what is no folder: a link, and the old name removed
def linkedRename (src dst : Text) : Service Result := do
  match ← sys (.link src dst) with
  | .ok _ =>
      match ← sys (.remove src) with
      | .ok _ => return .ok ()
      | .error _ => return .error none
  | .error .exist => return .error (some alreadyExists)
  | .error _ => renameFallback src dst

theorem renameNoReplace_other (h : ¬Folder d a) :
    Confined root real (renameNoReplace a b) d ↔
      d.All (Inside real) (.link a b) ∧
        match (d.run (.link a b)).answer with
        | .ok _ => (d.run (.link a b)).disk.All (Inside real) (.remove a)
        | .error .exist => True
        | .error _ => Keeps (Inside real) (Os.rename a b) (d.run (.link a b)).disk := by
  have hlink : Confined root real (renameNoReplace a b) d ↔ Confined root real (linkedRename a b) d := by
    unfold renameNoReplace
    rw [confined_stat]
    cases hs : d.stat a with
    | error e => rfl
    | ok st =>
      obtain ⟨kind,size,ident⟩ := st
      cases kind with
      | dir => exact absurd ⟨_,hs,rfl⟩ h
      | file => rfl
      | link => rfl
  rw [hlink,linkedRename,confined_sys]
  refine and_congr_right fun _ => ?_
  cases (d.run (.link a b)).answer with
  | ok u =>
    refine confined_sys.trans (and_iff_left ?_)
    cases ((d.run (.link a b)).disk.run (.remove a)).answer <;> trivial
  | error e =>
    cases e with
    | exist => exact Iff.rfl
    | notExist => exact renameFallback_confined
    | other => exact renameFallback_confined

theorem replaces_iff {nd : Node Nat} {x' y' : Entry} (h : ¬Folder d a) (hx : d.named a = .ok (x,nd))
    (hy : d.vacantEntry b = .ok y) : Replaces d a b x' y' ↔ x' = x ∧ y' = y := by
  constructor
  · rintro (⟨hcase,-⟩ | ⟨-,⟨nd',hx'⟩,hy'⟩)
    · exact absurd hcase h
    · exact ⟨(Prod.mk.inj (Except.ok.inj (hx'.symm.trans hx))).1,Except.ok.inj (hy'.symm.trans hy)⟩
  · rintro ⟨rfl,rfl⟩
    exact .inr ⟨h,⟨nd,hx⟩,hy⟩

theorem renameNoReplace_confined (ha : ValidPlace q) (hb : ValidPlace (r ++ [c]))
    (hfree : ∀ st, d.stat (absText (r ++ [c])) ≠ .ok st) :
    Confined root real (renameNoReplace (absText q) (absText (r ++ [c]))) d ↔
      ∀ x y, Replaces d (absText q) (absText (r ++ [c])) x y →
        real <+: x.parent ∧ real <+: y.parent := by
  have hmoves : Keeps (Inside real) (Os.rename (absText q) (absText (r ++ [c]))) d ↔
      ∀ x y, d.Renames (absText q) (absText (r ++ [c])) x y → real <+: x.parent ∧ real <+: y.parent := by
    simp only [rename_keeps hb,moves_iff hb hfree,inside_rename]
  by_cases hfolder : Folder d (absText q)
  · simp only [renameNoReplace_folder hfolder,hmoves,Replaces,hfolder,true_and,not_true,
      false_and,or_false]
  · have hdir : ∀ st, d.stat (absText q) = .ok st → st.kind ≠ .dir :=
      fun st hs hk => hfolder ⟨st,hs,hk⟩
    have honly : ∀ {x nd y}, d.named (absText q) = .ok (x,nd) →
        d.vacantEntry (absText (r ++ [c])) = .ok y →
        ((∀ x' y', Replaces d (absText q) (absText (r ++ [c])) x' y' →
          real <+: x'.parent ∧ real <+: y'.parent) ↔ real <+: x.parent ∧ real <+: y.parent) := by
      intro x nd y hx hy
      simp only [replaces_iff hfolder hx hy]
      refine ⟨fun h => h x y ⟨rfl,rfl⟩,?_⟩
      rintro h x' y' ⟨rfl,rfl⟩
      exact h
    rw [renameNoReplace_other hfolder]
    cases Disk.link_cases (b := absText (r ++ [c])) ha hdir with
    | made x nd y hx hnd hy hl hrun =>
      have hlink : d.All (Inside real) (.link (absText q) (absText (r ++ [c]))) ↔ real <+: y.parent := by
        simp [Disk.All,hrun]
      have hremove : (d.enter y nd).All (Inside real) (.remove (absText q)) ↔ real <+: x.parent := by
        rw [Disk.all_remove,Disk.removed_after_link ha hx hnd hy]
        simp
      rw [hlink,hrun,honly hx hy]
      simp only [hremove]
      exact and_comm
    | refused x nd y hx hnd hy hrun =>
      have hquiet : d.All (Inside real) (.link (absText q) (absText (r ++ [c]))) :=
        Disk.all_of_quiet (by rw [hrun]; rfl)
      have hmove := Disk.renames_vacant hx hnd hy
      rw [and_iff_right hquiet,hrun,honly hx hy]
      refine hmoves.trans ⟨fun h => h x y hmove,?_⟩
      rintro h x' y' hmove'
      obtain ⟨rfl,rfl⟩ := hmove.unique hmove'
      exact h
    | failed e hrun hnone hno =>
      have hquiet : d.All (Inside real) (.link (absText q) (absText (r ++ [c]))) :=
        Disk.all_of_quiet (by rw [hrun]; rfl)
      have hright : ∀ x y, ¬Replaces d (absText q) (absText (r ++ [c])) x y := by
        rintro x y (⟨hcase,-⟩ | ⟨-,⟨nd,hx⟩,hy⟩)
        · exact absurd hcase hfolder
        · exact hnone.elim (fun hv => hv y hy) (fun hv => hv x nd hx)
      refine iff_of_true ⟨hquiet,?_⟩ fun x y h => absurd h (hright x y)
      rw [hrun]
      cases e with
      | exist => trivial
      | _ => exact hmoves.mpr fun x y h => absurd h (hno (by simp) x y)

theorem renameNoReplace_to (ha : ValidPlace q) (hb : ValidPlace r)
    (hfree : ∀ st, d.stat (absText r) ≠ .ok st) :
    Confined root real (renameNoReplace (absText q) (absText r)) d ↔
      ∀ x y, Replaces d (absText q) (absText r) x y → real <+: x.parent ∧ real <+: y.parent := by
  rcases List.eq_nil_or_concat' r with rfl | ⟨r,c,rfl⟩
  · exact absurd stat_root (hfree _)
  · exact renameNoReplace_confined ha hb hfree

theorem replaces_named (h : Replaces d a b x y) :
    (∃ nd, d.named a = .ok (x,nd)) ∧ d.tree.entryAt b = some y := by
  rcases h with ⟨-,nd,hx,hy,-⟩ | ⟨-,hx,hy⟩
  · exact ⟨⟨nd,hx⟩,hy⟩
  · exact ⟨hx,(Disk.vacantEntry_ok.mp hy).1⟩

theorem finalize_confined {text : String} : Confined root real (finalize a b text) d ↔
    ((∀ st, d.stat b ≠ .ok st) → Confined root real (renameNoReplace a b) d) := by
  unfold finalize
  rw [confined_lock,confined_stat]
  cases hs : d.stat b with
  | ok st => simp
  | error e =>
    simp only [ne_eq,reduceCtorEq,not_false_eq_true,implies_true,forall_const]
    exact meets_bind.trans (and_iff_left (confined_unlock.mpr trivial))

theorem replaces_beside {n : Name} (hq : ValidPlace q) (hn : ValidName n)
    (h : Replaces d (absText q) (joinPath (dir (absText q)) n) x y) : y.parent = x.parent := by
  obtain ⟨⟨nd,hx⟩,hy⟩ := replaces_named h
  rcases List.eq_nil_or_concat' q with rfl | ⟨r,c,rfl⟩
  · have hentry := (Disk.named_ok.mp hx).1
    simp [entryAt_root] at hentry
  · have hr := (ValidPlace.append.mp hq).1
    rw [dir,components_absText hq,List.dropLast_concat,joinPath_name hr hn] at hy
    have hnew := ValidPlace.append.mpr ⟨hr,ValidPlace.cons.mpr ⟨hn,validPlace_nil⟩⟩
    obtain ⟨hwx,-⟩ := (Disk.entryAt_some_iff hq).mp (Disk.named_ok.mp hx).1
    obtain ⟨hwy,-⟩ := (Disk.entryAt_some_iff hnew).mp hy
    exact Except.ok.inj (hwy.symm.trans hwx)

theorem rename_confined (hroot : isAbs root = true) {clientPath : Text} {newName : Name} :
    Confined root real (rename clientPath newName) d ↔
      (validateFileName newName = .ok () → newName ≠ trashDirName → rejectTrash clientPath = .ok () →
        ∀ abs, resolveSafePath d.tree root clientPath = .ok abs → ∀ info, d.stat abs = .ok info →
          (∀ st, d.stat (joinPath (dir abs) newName) ≠ .ok st) →
            ∀ x y, Replaces d abs (joinPath (dir abs) newName) x y → real <+: x.parent) := by
  unfold rename
  cases hv : validateFileName newName with
  | error e => simp
  | ok u =>
    by_cases hname : newName = trashDirName
    · simp [hname]
    · cases ht : rejectTrash clientPath with
      | error e => simp [hname]
      | ok v =>
        simp only [forall_const,hname,if_false,not_false_eq_true,ne_eq,confined_resolve]
        cases hr : resolveSafePath d.tree root clientPath with
        | error e => simp
        | ok abs =>
          simp only [Except.ok.injEq,forall_eq',confined_stat]
          cases hs : d.stat abs with
          | error e => simp
          | ok info =>
            simp only [Except.ok.injEq,forall_eq',finalize_confined]
            obtain ⟨c,hc,rfl,-⟩ := resolveSafePath_ok hroot hr
            have hq := ValidPlace.append.mpr ⟨components_valid hroot,hc⟩
            have hn := valid_newName hv
            have hnew := ValidPlace.append.mpr ⟨hq.dropLast,ValidPlace.cons.mpr ⟨hn,validPlace_nil⟩⟩
            have hjoin : joinPath (dir (absText (components root ++ c))) newName =
                absText ((components root ++ c).dropLast ++ [newName]) := by
              rw [dir,components_absText hq,joinPath_name hq.dropLast hn]
            refine forall_congr' fun hfree => ?_
            rw [hjoin] at hfree
            rw [hjoin,renameNoReplace_confined hq hnew hfree,← hjoin]
            refine forall_congr' fun x => forall_congr' fun y => forall_congr' fun h => ?_
            rw [replaces_beside hq hn h]
            exact and_self_iff

theorem exists_of_walk {t : FileTree Nat} (hq : ValidPlace q) {D : Place}
    (h : t.walk osLinkLimit [] q = .ok D) : Exists t q := by
  rcases List.eq_nil_or_concat' q with rfl | ⟨r,c,rfl⟩
  · exact ⟨.dir,rfl⟩
  · have hc := (ValidPlace.cons.mp (ValidPlace.append.mp hq).2).1
    obtain ⟨E,hE,hdir⟩ := walk_before (by simp) directory_nil h
    cases hn : t.node (E ++ [c]) with
    | none =>
      rw [(walk_last (ValidName.plain hc) hE (hdir _ (List.prefix_refl _))).1 hn] at h
      cases h
    | some nd => exact ⟨nd,by simp [FileTree.lstat,hE,hn]⟩

theorem not_exists_vacant {t : FileTree Nat} {P : Place} (hw : t.walk osLinkLimit [] q = .ok P)
    (hdir : t.node P = some .dir) (hn : t.node (P ++ [c]) = none) : ¬Exists t (q ++ [c]) := by
  rintro ⟨nd,h⟩
  simp [FileTree.lstat,hw,hn,hdir] at h

theorem vacant_inside (hroot : isAbs root = true) (hreal : d.tree.resolve (clean root) = .ok real)
    {p : Text} (h : resolveSafePath d.tree root p = .ok b) (hy : d.tree.entryAt b = some y)
    (hv : d.tree.vacant y = true) : real <+: y.parent := by
  obtain ⟨c,hc,rfl,hassert⟩ := resolveSafePath_ok hroot h
  have hq := ValidPlace.append.mpr ⟨components_valid hroot,hc⟩
  generalize components root ++ c = q at hq hassert hy
  obtain ⟨found,suffix,D,real',hnear,hD,hreal',hpre⟩ := asserted hq hassert
  obtain rfl := Except.ok.inj (hreal'.symm.trans hreal)
  obtain ⟨hdir,hn⟩ := Disk.vacant_iff.mp hv
  rcases List.eq_nil_or_concat' q with rfl | ⟨r,n,rfl⟩
  · simp [entryAt_root] at hy
  · obtain ⟨hw,rfl⟩ := (Disk.entryAt_some_iff hq).mp hy
    have hhere : Nearest d.tree (r ++ [y.name]) r [y.name] := by
      refine ⟨rfl,exists_of_walk (ValidPlace.append.mp hq).1 hw,?_⟩
      intro pre hp hne
      rcases List.prefix_concat_iff.mp (List.nil_append [y.name] ▸ hp) with rfl | hp
      · exact not_exists_vacant hw hdir hn
      · exact absurd (List.prefix_nil.mp hp) hne
    obtain ⟨rfl,rfl⟩ := hnear.unique hhere
    have hsame := walk_ok_mono (by decide : osLinkLimit ≤ evalLinkLimit) hw
    obtain rfl := Except.ok.inj (hD.symm.trans hsame)
    rcases List.prefix_concat_iff.mp hpre with heq | hpre
    · -- the root is there, the missing name is not
      obtain ⟨nd,hnd⟩ := walk_node directory_nil hreal
      rw [heq] at hnd
      cases hn.symm.trans hnd
    · exact hpre

theorem move_confined (hroot : isAbs root = true) (hreal : d.tree.resolve (clean root) = .ok real)
    {srcPath dstPath : Text} :
    Confined root real (move srcPath dstPath) d ↔
      (rejectTrash srcPath = .ok () → rejectTrash dstPath = .ok () →
        ∀ src, resolveSafePath d.tree root srcPath = .ok src →
          ∀ dst, resolveSafePath d.tree root dstPath = .ok dst → ∀ info, d.stat src = .ok info →
            (∀ st, d.stat dst ≠ .ok st) → hasPrefix (dst ++ ['/']) (src ++ ['/']) = false →
              ∀ x y, Replaces d src dst x y →
                real <+: x.parent ∧ (d.tree.vacant y = true ∨ real <+: y.parent)) := by
  unfold move
  cases hts : rejectTrash srcPath with
  | error e => simp
  | ok u =>
    cases htd : rejectTrash dstPath with
    | error e => simp
    | ok v =>
      simp only [forall_const,confined_resolve]
      cases hrs : resolveSafePath d.tree root srcPath with
      | error e => simp
      | ok src =>
        simp only [Except.ok.injEq,forall_eq',confined_resolve]
        cases hrd : resolveSafePath d.tree root dstPath with
        | error e => simp
        | ok dst =>
          simp only [Except.ok.injEq,forall_eq',confined_stat]
          cases hs : d.stat src with
          | error e => simp
          | ok info =>
            simp only [Except.ok.injEq,forall_eq',confined_stat]
            cases hd : d.stat dst with
            | ok st => simp
            | error e =>
              have hfree : ∀ st, d.stat dst ≠ .ok st := by simp [hd]
              have hfree' : ∀ st : Stat, (Except.error e : Except SysErr Stat) ≠ .ok st := by simp
              cases hinto : hasPrefix (dst ++ ['/']) (src ++ ['/']) with
              | true => simp
              | false =>
                rw [if_neg (by simp),finalize_confined,imp_iff_right hfree,imp_iff_right hfree',
                  imp_iff_right rfl]
                obtain ⟨cs,hcs,rfl,-⟩ := resolveSafePath_ok hroot hrs
                obtain ⟨cd,hcd,rfl,-⟩ := resolveSafePath_ok hroot hrd
                have hsrc := ValidPlace.append.mpr ⟨components_valid hroot,hcs⟩
                have hdst := ValidPlace.append.mpr ⟨components_valid hroot,hcd⟩
                have hin {y : Entry} (hy : d.tree.entryAt (absText (components root ++ cd)) = some y)
                    (hv : d.tree.vacant y = true) : real <+: y.parent :=
                  vacant_inside hroot hreal hrd hy hv
                rw [renameNoReplace_to hsrc hdst hfree]
                refine forall_congr' fun x => forall_congr' fun y => forall_congr' fun h => ?_
                refine and_congr_right fun _ => ⟨.inr,?_⟩
                rintro (hv | hpre)
                · exact hin (replaces_named h).2 hv
                · exact hpre

end Renaming

section Trashing

variable {root : Text} {real r q Tr : Place} {c : Name} {d d' : Disk} {e x y : Entry} {p abs : Text}

-- with the trash directory at Tr: the metadata file is made inside the root, Tr is inside unless
-- nothing is renamed, and the payload is taken from a directory inside
def TrashedInside (real : Place) (trash : Text) (Tr : Place) (abs : Text) (id : TrashId) (d : Disk) : Prop :=
  ∀ d', Opens d (joinPath trash id.meta) d' →
    ((∀ z, d.found (joinPath trash id.meta) ≠ .ok z) →
      ∀ e, d.tree.landing (joinPath trash id.meta) = some e → real <+: e.parent) ∧
    (Stays d' abs (joinPath trash id.digits) ∨ real <+: Tr) ∧
    ∀ x y, Moves d' abs (joinPath trash id.digits) x y → real <+: x.parent

theorem valid_digits (id : TrashId) : ValidName id.digits := by
  have hne : id.digits ≠ [] := by
    intro h
    have hlength := id.short.1
    simp [h] at hlength
  have hchar {c : Char} (hc : ¬(c = '-' ∨ '0' ≤ c ∧ c ≤ '9')) : c ∉ id.digits := fun hm => hc (id.decimal c hm)
  have hdot : '.' ∉ id.digits := hchar (by decide)
  refine ⟨hne,?_,?_,hchar (by decide)⟩
  · intro h
    simp [h,dot] at hdot
  · intro h
    simp [h,dotdot] at hdot

theorem valid_meta (id : TrashId) : ValidName id.meta := by
  have hd := valid_digits id
  refine ⟨by simp [TrashId.meta],?_,?_,?_⟩
  · intro h
    simpa [TrashId.meta,dot] using congrArg List.length h
  · intro h
    simpa [TrashId.meta,dotdot] using congrArg List.length h
  · simp [TrashId.meta,hd.2.2.2]

theorem renamed_or_undone {α : Type} {done undone : α} {m : Name} (hb : ValidPlace (q ++ [c]))
    (hremoved : d.tree.removedEntry p = some ⟨Tr,m⟩)
    (hparent : ∀ {y}, d.tree.entryAt (absText (q ++ [c])) = some y → y.parent = Tr) :
    Confined root real (do
      match ← os (Os.rename abs (absText (q ++ [c]))) with
      | .ok _ => return done
      | .error _ =>
          let _ ← sys (.remove p)
          return undone) d ↔
      (Stays d abs (absText (q ++ [c])) ∨ real <+: Tr) ∧
        ∀ x y, Moves d abs (absText (q ++ [c])) x y → real <+: x.parent := by
  rw [confined_os_bind]
  cases rename_cases hb (Inside real) d abs with
  | moved x y d' h result keeps =>
    have hTr := hparent (moves_entry h)
    rw [result,keeps,inside_rename,hTr]
    simp only [moves_not_stays h,false_or,pure_eq,confined_ret,and_true]
    constructor
    · rintro ⟨hx,hin⟩
      refine ⟨hin,fun x' y' h' => ?_⟩
      obtain ⟨rfl,-⟩ := h.1.unique h'.1
      exact hx
    · rintro ⟨hin,hx⟩
      exact ⟨hx x y h,hin⟩
  | stayed h result keeps =>
    rw [result]
    exact iff_of_true ⟨keeps,trivial⟩ ⟨.inl h,fun x y hm => absurd h (moves_not_stays hm)⟩
  | failed e hno hnomove result keeps =>
    rw [result]
    have hundo : d.All (Inside real) (.remove p) ↔ real <+: Tr := by
      rw [Disk.all_remove,hremoved]
      simp
    simp only [keeps,true_and,hno,false_or,confined_sys,hundo,hnomove,pure_eq,confined_ret,
      and_true,IsEmpty.forall_iff,implies_true]

theorem trashInto_confined (hq : ValidPlace q) {id : TrashId} {metaBytes : Bytes}
    (hTr : d.found (absText q) = .ok (Tr,.dir)) :
    Confined root real (trashInto (absText q) abs id metaBytes) d ↔
      TrashedInside real (absText q) Tr abs id d := by
  have hmeta := ValidPlace.append.mpr ⟨hq,ValidPlace.cons.mpr ⟨valid_meta id,validPlace_nil⟩⟩
  have hdst := ValidPlace.append.mpr ⟨hq,ValidPlace.cons.mpr ⟨valid_digits id,validPlace_nil⟩⟩
  have hwalk := walk_of_found hq hTr
  have hTrdir := (Disk.found_ok.mp hTr).2
  have hentry : d.tree.entryAt (absText (q ++ [id.meta])) = some ⟨Tr,id.meta⟩ :=
    (Disk.entryAt_some_iff hmeta).mpr ⟨hwalk,rfl⟩
  unfold trashInto TrashedInside
  rw [joinPath_name hq (valid_meta id),joinPath_name hq (valid_digits id)]
  rw [confined_os_bind]
  rcases writeFile_cases (Inside real) d (absText (q ++ [id.meta])) metaBytes with
    ⟨i,d1,hopens,heval,hwrite⟩ | ⟨hno,hwrite,err,heval⟩
  · have hone : ∀ d', Opens d (absText (q ++ [id.meta])) d' → d' = d1 := by
      rintro d' ⟨j,-,rfl⟩
      obtain ⟨k,-,rfl⟩ := hopens
      rfl
    have hiff {P : Disk → Prop} : (∀ d', Opens d (absText (q ++ [id.meta])) d' → P d') ↔ P d1 :=
      ⟨fun h => h d1 hopens,fun h d' hd' => hone d' hd' ▸ h⟩
    rw [hiff,hwrite,heval,Disk.all_create]
    simp only [inside_write,inside_create,implies_true,true_and]
    refine and_congr_right fun _ => ?_
    have hremoved : d1.tree.removedEntry (absText (q ++ [id.meta])) = some ⟨Tr,id.meta⟩ := by
      obtain ⟨j,hj,rfl⟩ := hopens
      exact Disk.removed_after_create hmeta hj hentry hTrdir
    have hparent {y : Entry} (hy : d1.tree.entryAt (absText (q ++ [id.digits])) = some y) :
        y.parent = Tr := by
      obtain ⟨j,hj,rfl⟩ := hopens
      obtain ⟨hw,-⟩ := (Disk.entryAt_some_iff hdst).mp hy
      exact Except.ok.inj (hw.symm.trans (walk_extends Disk.create_extends hwalk))
    -- the bytes written to the file change no name
    generalize hd2 : ({ d1 with bytes := Function.update d1.bytes i (d1.bytes i ++ metaBytes) } : Disk) = d2
    have htree : d2.tree = d1.tree := by rw [← hd2]
    have hstays : Stays d1 abs (absText (q ++ [id.digits])) ↔ Stays d2 abs (absText (q ++ [id.digits])) := by
      rw [← hd2]
      rfl
    have hmoves {x y : Entry} : Moves d1 abs (absText (q ++ [id.digits])) x y ↔
        Moves d2 abs (absText (q ++ [id.digits])) x y := by
      rw [← hd2]
      rfl
    simp only [hstays,hmoves]
    exact renamed_or_undone hdst (htree ▸ hremoved) (htree ▸ hparent)
  · refine iff_of_true ⟨hwrite,?_⟩ fun d' h => absurd h (hno d')
    rw [heval]
    trivial

theorem trashMove_confined (hroot : isAbs root = true) (hreal : d.tree.resolve (clean root) = .ok real)
    {marshal : TrashItem → Bytes} {clientPath : Text} {id : TrashId} {now : Int} :
    Confined root real (trashMove marshal root clientPath id now) d ↔
      (rejectTrash clientPath = .ok () → ∀ abs, resolveSafePath d.tree root clientPath = .ok abs →
        abs ≠ clean root → ∀ info, d.stat abs = .ok info →
          ∀ d' Tr, Ready d (trashDir root) d' → d'.found (trashDir root) = .ok (Tr,.dir) →
            TrashedInside real (trashDir root) Tr abs id d') := by
  unfold trashMove
  cases ht : rejectTrash clientPath with
  | error e => simp
  | ok u =>
    simp only [confined_resolve,forall_const]
    cases hr : resolveSafePath d.tree root clientPath with
    | error e => simp
    | ok abs =>
      simp only [Except.ok.injEq,forall_eq']
      by_cases habs : abs = clean root
      · simp [habs]
      · rw [if_neg habs,confined_stat,imp_iff_right habs]
        cases hs : d.stat abs with
        | error e => cases e <;> simp
        | ok info =>
          simp only [Except.ok.injEq,forall_eq']
          obtain ⟨c,hc,rfl,-⟩ := resolveSafePath_ok hroot hr
          have hbase := components_valid hroot
          have htrash : trashDir root = absText (components root ++ [trashDirName]) :=
            joinPath_abs hroot valid_trashDirName
          have hne : c ≠ [] := by
            rintro rfl
            rw [List.append_nil,clean_abs hroot] at habs
            exact habs rfl
          have hfolder := folder_above (ValidPlace.append.mpr ⟨hbase,hc⟩) hne hs
          have hq := ValidPlace.append.mpr
            ⟨hbase,ValidPlace.cons.mpr ⟨valid_trashDirName,validPlace_nil⟩⟩
          have hmkdir : Os.mkdirAll (trashDir root) =
              Os.mkdirAllFrom (trashDirName :: (components root).reverse) := by
            rw [Os.mkdirAll,htrash,components_absText hq,List.reverse_append]
            rfl
          rw [hmkdir,htrash,confined_os_bind]
          rcases mkdirAllFrom_below (P := Inside real) hq hfolder with
            ⟨d1,hready,heval,hkeeps⟩ | ⟨hnone,hkeeps,e,heval⟩
          · -- the trash directory is made in the root, which is where its path leads
            have hmade : ∀ e, d.vacantEntry (absText (components root ++ [trashDirName])) = .ok e →
                Inside real (.create e) := by
              intro e hv
              rw [inside_create]
              obtain ⟨hw,-⟩ := (Disk.entryAt_some_iff hq).mp (Disk.vacantEntry_ok.mp hv).1
              have hsame := walk_ok_mono (by decide : osLinkLimit ≤ evalLinkLimit) hw
              rw [clean_abs hroot,resolve_absText hbase,hsame] at hreal
              rw [Except.ok.inj hreal]
            obtain ⟨Tr,hTr⟩ := ready_found hq hready
            rw [hkeeps,and_iff_right hmade,heval]
            refine (trashInto_confined hq hTr).trans ?_
            constructor
            · intro h d' Tr' hready' hTr'
              obtain rfl := ready_unique hq hready hready'
              obtain ⟨rfl,-⟩ := Prod.mk.inj (Except.ok.inj (hTr.symm.trans hTr'))
              exact h
            · intro h
              exact h d1 Tr hready hTr
          · rw [heval]
            exact iff_of_true ⟨hkeeps,trivial⟩ fun d' Tr hready => absurd hready (hnone d')

end Trashing

inductive Mutation where
  | delete (clientPath : Text) (recursive : Bool)
  | trashMove (clientPath : Text) (id : TrashId) (now : Int)
  | rename (clientPath : Text) (newName : Name)
  | move (srcPath dstPath : Text)

def Mutation.run (marshal : TrashItem → Bytes) (root : Text) : Mutation → Service (Except AppError Unit)
  | .delete clientPath recursive => Transfer.delete root clientPath recursive
  | .trashMove clientPath id now => Transfer.trashMove marshal root clientPath id now
  | .rename clientPath newName => Transfer.rename clientPath newName
  | .move srcPath dstPath => Transfer.move srcPath dstPath

-- where the operation comes as far as its change, the entry its source path names lies inside real
def Mutation.Inside (root : Text) (real : Place) (d : Disk) : Mutation → Prop
  | .delete clientPath recursive =>
      rejectTrash clientPath = .ok () → ∀ abs, resolveSafePath d.tree root clientPath = .ok abs →
        abs ≠ clean root → ∀ info, d.stat abs = .ok info → (info.kind = .dir → recursive = true) →
          ∀ e nd, d.named abs = .ok (e,nd) → real <+: e.parent
  | .trashMove clientPath id _ =>
      rejectTrash clientPath = .ok () → ∀ abs, resolveSafePath d.tree root clientPath = .ok abs →
        abs ≠ clean root → ∀ info, d.stat abs = .ok info →
          ∀ d' Tr, Ready d (trashDir root) d' → d'.found (trashDir root) = .ok (Tr,.dir) →
            TrashedInside real (trashDir root) Tr abs id d'
  | .rename clientPath newName =>
      validateFileName newName = .ok () → newName ≠ trashDirName → rejectTrash clientPath = .ok () →
        ∀ abs, resolveSafePath d.tree root clientPath = .ok abs → ∀ info, d.stat abs = .ok info →
          (∀ st, d.stat (joinPath (dir abs) newName) ≠ .ok st) →
            ∀ x y, Replaces d abs (joinPath (dir abs) newName) x y → real <+: x.parent
  | .move srcPath dstPath =>
      rejectTrash srcPath = .ok () → rejectTrash dstPath = .ok () →
        ∀ src, resolveSafePath d.tree root srcPath = .ok src →
          ∀ dst, resolveSafePath d.tree root dstPath = .ok dst → ∀ info, d.stat src = .ok info →
            (∀ st, d.stat dst ≠ .ok st) → hasPrefix (dst ++ ['/']) (src ++ ['/']) = false →
              ∀ x y, Replaces d src dst x y →
                real <+: x.parent ∧ (d.tree.vacant y = true ∨ real <+: y.parent)

theorem mutations_confined (marshal : TrashItem → Bytes) {root : Text} {real : Place} {d : Disk}
    (hroot : isAbs root = true) (hreal : d.tree.resolve (clean root) = .ok real) (m : Mutation) :
    Confined root real (m.run marshal root) d ↔ m.Inside root real d := by
  cases m with
  | delete clientPath recursive => exact delete_confined
  | trashMove clientPath id now => exact trashMove_confined hroot hreal
  | rename clientPath newName => exact rename_confined hroot
  | move srcPath dstPath => exact move_confined hroot hreal

instance {real : Place} {d : Disk} {β : Type} : (o : Op β) → Decidable (InsideRoot real d o)
  | .inl s => inferInstanceAs (Decidable (∀ x ∈ (d.run s).effects, ∀ e ∈ x.entries,
      real <+: e.parent ∧ e.place ≠ real))
  | .inr _ => isTrue trivial

def smallDisk : Disk where
  tree := { nodes := [([['r']],.dir),([['r'],['a']],.file 0)], rooted := by decide }
  bytes := fun _ => []
  next := 1
  hardLinks := true

theorem file_renamed_inside : Confined ['/','r'] [['r']] (rename ['/','a'] ['b']) smallDisk := by
  refine (mutations_confined (fun _ => []) rfl (by decide) (.rename ['/','a'] ['b'])).mpr ?_
  intro _ _ _ abs habs info _ _ x y h
  have habs' : resolveSafePath smallDisk.tree ['/','r'] ['/','a'] = .ok ['/','r','/','a'] := by decide
  obtain rfl := Except.ok.inj (habs.symm.trans habs')
  obtain ⟨⟨nd,hx⟩,-⟩ := replaces_named h
  have hnamed : smallDisk.named ['/','r','/','a'] = .ok (⟨[['r']],['a']⟩,.file 0) := rfl
  obtain ⟨rfl,-⟩ := Prod.mk.inj (Except.ok.inj (hx.symm.trans hnamed))
  exact List.prefix_refl _

-- the root is the source of the rename: its entry is in a directory outside
theorem root_renamed : smallDisk.tree.resolve (clean ['/','r']) = .ok [['r']] ∧
    ¬Confined ['/','r'] [['r']] (rename ['/'] ['s']) smallDisk := by decide

end Transfer
