import ServerHub.Posix.Walk

namespace Posix

open FileTree Interleave Interleave.Prog

namespace FileTree

variable {δ : Type} {t u v : FileTree δ} {D P q r : Place} {xs : List Name}

-- entries are added, none of them a link
structure Grown (t u : FileTree δ) : Prop where
  extends_ : Extends t u
  links : ∀ q target, u.node q = some (.link target) → t.node q = some (.link target)

theorem grown_refl (t : FileTree δ) : Grown t t := ⟨fun _ _ h => h,fun _ _ h => h⟩

theorem Grown.trans (h : Grown t u) (k : Grown u v) : Grown t v :=
  ⟨fun q nd hn => k.extends_ q nd (h.extends_ q nd hn),
    fun q target hn => h.links q target (k.links q target hn)⟩

theorem Grown.directory (h : Grown t u) (hq : Directory t q) : Directory u q :=
  fun r hr => h.extends_ r .dir (hq r hr)

theorem grown_put {nd : Node δ} (hne : q ≠ []) (hdir : t.node q.dropLast = some .dir)
    (hfree : t.node q = none) (hnd : ∀ target, nd ≠ .link target) : Grown t (t.put q nd) := by
  refine ⟨extends_put hfree,fun r target hr => ?_⟩
  by_cases he : r = q
  · subst he
    rw [node_put_self hne hdir] at hr
    exact absurd (Option.some.inj hr) (hnd target)
  · rwa [node_put_other hfree he] at hr

def Unlinked (t : FileTree δ) (D : Place) : Prop := ∀ r target, t.node (D ++ r) ≠ some (.link target)

theorem Unlinked.step {c : Name} (h : Unlinked t D) : Unlinked t (D ++ [c]) := by
  intro r target
  rw [List.append_assoc]
  exact h _ target

theorem Grown.unlinked (h : Grown t u) (hD : Unlinked t D) : Unlinked u D :=
  fun r target hr => hD r target (h.links _ target hr)

theorem follow_unlinked {f : Place → List Name → Except Errno Place} (h : Unlinked t D)
    (hx : ValidPlace xs) (hw : t.follow f D xs = .ok P) : P = D ++ xs := by
  induction xs generalizing D with
  | nil => simpa using (Except.ok.inj hw).symm
  | cons c xs ih =>
    obtain ⟨hc,hxs⟩ := ValidPlace.cons.mp hx
    cases hn : t.node (D ++ [c]) with
    | none => simp [follow_none (ValidName.plain hc) hn] at hw
    | some nd =>
      cases nd with
      | dir =>
        rw [follow_dir (ValidName.plain hc) hn] at hw
        have hP := ih h.step hxs hw
        simpa using hP
      | file x =>
        rw [follow_file (ValidName.plain hc) hn] at hw
        split at hw
        · rename_i hnil
          rw [hnil]
          exact (Except.ok.inj hw).symm
        · cases hw
      | link target => exact absurd hn (h [c] target)

theorem walk_unlinked {n : Nat} (h : Unlinked t D) (hx : ValidPlace xs)
    (hw : t.walk n D xs = .ok P) : P = D ++ xs := by
  obtain ⟨f,hf⟩ := walk_eq_follow t n
  rw [hf] at hw
  exact follow_unlinked h hx hw

theorem follow_down {f : Place → List Name → Except Errno Place} (hx : ValidPlace xs)
    (h : Directory t (D ++ xs)) : t.follow f D xs = .ok (D ++ xs) := by
  induction xs generalizing D with
  | nil => simp [follow]
  | cons c xs ih =>
    obtain ⟨hc,hxs⟩ := ValidPlace.cons.mp hx
    have hsplit : D ++ c :: xs = D ++ [c] ++ xs := by simp
    rw [hsplit] at h ⊢
    rw [follow_dir (ValidName.plain hc) (h _ (List.prefix_append _ _))]
    exact ih hxs h

theorem walk_down {n : Nat} (hx : ValidPlace xs) (h : Directory t (D ++ xs)) :
    t.walk n D xs = .ok (D ++ xs) := by
  obtain ⟨f,hf⟩ := walk_eq_follow t n
  rw [hf]
  exact follow_down hx h

theorem walk_through {s : Place} {n : Nat} (hs : t.walk n [] s = .ok D) (hx : ValidPlace xs)
    (h : Directory t (D ++ xs)) : t.walk n [] (s ++ xs) = .ok (D ++ xs) := by
  obtain ⟨m,-,hm⟩ := walk_append_ok xs (h D (List.prefix_append _ _)) hs
  rw [hm,walk_down hx h]

end FileTree

section Founding

variable {d d' : Disk} {D q r : Place} {c : Name}

structure Founded (d d' : Disk) (D : Place) : Prop where
  tree : ∀ q, d'.tree.node q = d.tree.node q ∨
    d.tree.node q = none ∧ q <+: D ∧ d'.tree.node q = some .dir
  bytes : d'.bytes = d.bytes
  next : d'.next = d.next

theorem Founded.grown (h : Founded d d' D) : Grown d.tree d'.tree := by
  refine ⟨fun q nd hn => ?_,fun q target hn => ?_⟩
  · rcases h.tree q with hq | ⟨hq,-,-⟩
    · rw [hq,hn]
    · rw [hn] at hq
      cases hq
  · rcases h.tree q with hq | ⟨-,-,hq⟩
    · rw [← hq,hn]
    · rw [hn] at hq
      cases hq

theorem founded_refl (d : Disk) (D : Place) : Founded d d D := ⟨fun _ => .inl rfl,rfl,rfl⟩

theorem Founded.enter {P : Place} (h : Founded d d' P) (hdir : d'.tree.node P = some .dir)
    (hfree : d'.tree.node (P ++ [c]) = none) : Founded d (d'.enter ⟨P,c⟩ .dir) (P ++ [c]) := by
  refine ⟨fun q => ?_,h.bytes,h.next⟩
  by_cases hq : q = P ++ [c]
  · subst hq
    have hself : (d'.enter ⟨P,c⟩ .dir).tree.node (P ++ [c]) = some .dir :=
      node_put_self (q := P ++ [c]) (by simp) (by rwa [List.dropLast_concat])
    refine .inr ⟨?_,List.prefix_refl _,hself⟩
    rcases h.tree (P ++ [c]) with hq | ⟨hq,-,-⟩
    · rw [← hq,hfree]
    · exact hq
  · have hsame : (d'.enter ⟨P,c⟩ .dir).tree.node q = d'.tree.node q := node_put_other hfree hq
    rw [hsame]
    exact (h.tree q).imp_right fun ⟨hn,hp,hd⟩ => ⟨hn,hp.trans (List.prefix_append _ _),hd⟩

theorem mkdirLast_founded (hq : ValidPlace (r ++ [c])) {d₀ : Disk} {P : Place}
    (hr : d.found (absText r) = .ok (P,.dir)) (h : Founded d₀ d P)
    (he : (Os.mkdirLast (absText (r ++ [c]))).eval Disk.act d = (d',.ok ())) :
    d'.found (absText (r ++ [c])) = .ok (P ++ [c],.dir) ∧ Founded d₀ d' (P ++ [c]) := by
  have hwalk := walk_of_found (ValidPlace.append.mp hq).1 hr
  have hdir := (Disk.found_ok.mp hr).2
  have hentry : d.tree.entryAt (absText (r ++ [c])) = some ⟨P,c⟩ :=
    (Disk.entryAt_some_iff hq).mpr ⟨hwalk,rfl⟩
  cases hv : d.vacantEntry (absText (r ++ [c])) with
  | ok x =>
    obtain rfl := Option.some.inj (hentry.symm.trans (Disk.vacantEntry_ok.mp hv).1)
    have hfree := (Disk.vacant_iff.mp (Disk.vacantEntry_ok.mp hv).2).2
    rw [(mkdirLast_made (P := fun _ => True) hv).1] at he
    obtain ⟨rfl,-⟩ := Prod.mk.inj he
    exact ⟨enter_found hq hv,h.enter hdir hfree⟩
  | error err =>
    by_cases hl : ∃ st, d.lstat (absText (r ++ [c])) = .ok st ∧ st.kind = .dir
    · -- the directory stood there already
      obtain ⟨st,hl,hk⟩ := hl
      obtain ⟨x,nd,hnamed,rfl⟩ := Disk.named_of_lstat hq hl
      obtain ⟨hx,-,hn⟩ := Disk.named_ok.mp hnamed
      obtain rfl := Option.some.inj (hentry.symm.trans hx)
      have hfound : d.found (absText (r ++ [c])) = .ok (P ++ [c],.dir) := by
        cases nd with
        | dir => exact Disk.found_named hq hnamed fun _ => by simp
        | _ => cases hk
      have hrun : d.run (.mkdir (absText (r ++ [c]))) = d.failed err := by
        simp [Disk.run,Disk.enterAt,hv]
      have heval : (Os.mkdirLast (absText (r ++ [c]))).eval Disk.act d = (d,.ok ()) := by
        unfold Os.mkdirLast
        rw [act_call,hrun]
        refine act_lstat.trans ?_
        dsimp only [Disk.failed]
        rw [hl]
        cases nd with
        | dir => rfl
        | _ => cases hk
      rw [heval] at he
      obtain ⟨rfl,-⟩ := Prod.mk.inj he
      refine ⟨hfound,fun q => ?_,h.bytes,h.next⟩
      refine (h.tree q).imp_right ?_
      rintro ⟨hn,hp,hd⟩
      exact ⟨hn,hp.trans (List.prefix_append _ _),hd⟩
    · have hnot : ∀ st, d.lstat (absText (r ++ [c])) = .ok st → st.kind ≠ .dir :=
        fun st hst hk => hl ⟨st,hst,hk⟩
      rw [(mkdirLast_failed (P := fun _ => True) hv hnot).1] at he
      cases he

theorem mkdirAll_founded (hq : ValidPlace q)
    (h : (Os.mkdirAllFrom q.reverse).eval Disk.act d = (d',.ok ())) :
    ∃ D, d'.found (absText q) = .ok (D,.dir) ∧ Founded d d' D := by
  induction q using List.reverseRecOn generalizing d' with
  | nil =>
    have hroot : Folder d (absText []) := ⟨_,stat_root,rfl⟩
    rw [List.reverse_nil,(mkdirAllFrom_folder (P := fun _ => True) [] hroot).1] at h
    obtain ⟨rfl,-⟩ := Prod.mk.inj h
    obtain ⟨D,hD⟩ := folder_iff.mp hroot
    exact ⟨D,hD,founded_refl d D⟩
  | append_singleton r c ih =>
    have hnames : (r ++ [c]).reverse = c :: r.reverse := by simp
    rw [hnames] at h
    cases hs : d.stat (absText (r ++ [c])) with
    | ok st =>
      by_cases hk : st.kind = .dir
      · have hfolder : Folder d (absText (r ++ [c])) := ⟨st,hs,hk⟩
        have heval := (mkdirAllFrom_folder (P := fun _ => True) (c :: r.reverse)
          (by simpa using hfolder)).1
        rw [heval] at h
        obtain ⟨rfl,-⟩ := Prod.mk.inj h
        obtain ⟨D,hD⟩ := folder_iff.mp hfolder
        exact ⟨D,hD,founded_refl d D⟩
      · have heval := (mkdirAllFrom_blocked (P := fun _ => True) (c :: r.reverse)
          (by simpa using hs) hk).1
        rw [heval] at h
        cases h
    | error err =>
      cases hr : (Os.mkdirAllFrom r.reverse).eval Disk.act d with
      | mk d₁ res =>
        cases res with
        | error e =>
          rw [(mkdirAllFrom_stop (P := fun _ => True) hs hr).1] at h
          cases h
        | ok u =>
          obtain ⟨P,hP,hfounded⟩ := ih (ValidPlace.append.mp hq).1 hr
          rw [(mkdirAllFrom_up (P := fun _ => True) hs hr).1] at h
          exact ⟨_,mkdirLast_founded hq hP hfounded h⟩

end Founding

section Landing

variable {d : Disk} {t D E : Place}

def Lands (d : Disk) (t D : Place) : Prop :=
  ∃ pre x post, t = pre ++ post ∧ d.vacantEntry (absText pre) = .ok x ∧ D = x.place ++ post

theorem Lands.unique (ht : ValidPlace t) (h : Lands d t D) (k : Lands d t E) : D = E := by
  obtain ⟨pre,x,post,rfl,hv,rfl⟩ := h
  obtain ⟨pre',x',post',hsplit,hv',rfl⟩ := k
  obtain rfl := vacant_prefix ht (List.prefix_append pre post) ⟨post',hsplit.symm⟩ hv hv'
  obtain rfl := Except.ok.inj (hv.symm.trans hv')
  rw [List.append_cancel_left hsplit]

theorem Lands.valid (ht : ValidPlace t) (h : Lands d t D) : ValidPlace D := by
  obtain ⟨pre,x,post,rfl,hv,rfl⟩ := h
  obtain ⟨hpre,hpost⟩ := ValidPlace.append.mp ht
  obtain ⟨he,-⟩ := Disk.vacantEntry_ok.mp hv
  rcases List.eq_nil_or_concat' pre with rfl | ⟨a,c,rfl⟩
  · simp [entryAt_root] at he
  · obtain ⟨hwalk,rfl⟩ := (Disk.entryAt_some_iff hpre).mp he
    obtain ⟨ha,hname⟩ := ValidPlace.append.mp hpre
    have hparent := walk_valid validPlace_nil (fun c hc => (ha c hc).2.2.2) hwalk
    exact ValidPlace.append.mpr ⟨ValidPlace.append.mpr ⟨hparent,hname⟩,hpost⟩

theorem Lands.free (h : Lands d t D) (r : Place) : d.tree.node (D ++ r) = none := by
  obtain ⟨pre,x,post,rfl,hv,rfl⟩ := h
  have hfree := (Disk.vacant_iff.mp (Disk.vacantEntry_ok.mp hv).2).2
  cases hn : d.tree.node (x.place ++ post ++ r) with
  | none => rfl
  | some nd =>
    rw [List.append_assoc] at hn
    exact absurd hfree (node_above hn (List.prefix_append _ _))

theorem Lands.not_folder (ht : ValidPlace t) (h : Lands d t D) : ¬Folder d (absText t) := by
  intro hf
  obtain ⟨pre,x,post,rfl,hv,-⟩ := h
  exact vacant_not_folder (ValidPlace.append.mp ht).1 hv (found_above ht hf (List.prefix_append _ _))

theorem mkdirAll_lands (ht : ValidPlace t) (h : Lands d t D) : ∃ d',
    (Os.mkdirAll (absText t)).eval Disk.act d = (d',.ok ()) ∧ d'.found (absText t) = .ok (D,.dir) ∧
      (∀ n, d'.tree.node (D ++ [n]) = none) ∧ Founded d d' D := by
  rw [Os.mkdirAll,components_absText ht]
  cases mkdirAll_cases (P := fun _ => True) (fun _ _ _ _ => trivial) ht d with
  | there hf _ _ => exact absurd hf (h.not_folder ht)
  | failed err _ hnone _ _ =>
    obtain ⟨pre,x,post,rfl,hv,-⟩ := h
    exact absurd hv (hnone pre (List.prefix_append _ _) x)
  | made pre x post d' split vacant grown found empty result _ =>
    obtain rfl := h.unique ht ⟨pre,x,post,split,vacant,rfl⟩
    obtain ⟨P,hP,hfounded⟩ := mkdirAll_founded ht result
    obtain ⟨rfl,-⟩ := Prod.mk.inj (Except.ok.inj (hP.symm.trans found))
    exact ⟨d',result,found,empty,hfounded⟩

theorem mkdirAll_nowhere (ht : ValidPlace t) (hno : ¬Folder d (absText t)) (h : ∀ D, ¬Lands d t D) :
    ∃ err, (Os.mkdirAll (absText t)).eval Disk.act d = (d,.error err) := by
  rw [Os.mkdirAll,components_absText ht]
  cases mkdirAll_cases (P := fun _ => True) (fun _ _ _ _ => trivial) ht d with
  | there hf _ _ => exact absurd hf hno
  | failed err _ _ result _ => exact ⟨err,result⟩
  | made pre x post d' split vacant _ _ _ _ _ => exact absurd ⟨pre,x,post,split,vacant,rfl⟩ (h _)

end Landing

end Posix
