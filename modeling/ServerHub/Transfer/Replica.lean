import ServerHub.Transfer.Copy

namespace Transfer

open Posix Posix.FileTree Interleave Interleave.Prog

-- entries lie in directories, names are names, and the inodes in use were given out
structure Sound (d : Disk) : Prop where
  proper : ∀ q c, d.tree.node (q ++ [c]) ≠ none → d.tree.node q = some .dir
  names : ∀ q, d.tree.node q ≠ none → ValidPlace q
  inodes : ∀ q i, d.tree.node q = some (.file i) → i < d.next

theorem Sound.below {d : Disk} {s S : Place} (h : Sound d) (hs : ValidPlace s)
    (hwalk : d.tree.walk osLinkLimit [] s = .ok S) (hdir : d.tree.node S = some .dir) :
    Below d.tree s S :=
  ⟨hs,hwalk,hdir,fun _ _ => h.proper _ _,fun _ hr => (ValidPlace.append.mp (h.names _ hr)).2⟩

theorem sound_of_nodes {d : Disk} (h : ∀ e ∈ d.tree.nodes, ValidPlace e.1 ∧
    d.tree.node e.1.dropLast = some .dir ∧ ∀ i, e.2 = .file i → i < d.next) : Sound d := by
  have hnode {q : Place} (hn : d.tree.node q ≠ none) : q = [] ∨ ∃ nd, (q,nd) ∈ d.tree.nodes := by
    obtain ⟨nd,hn⟩ := Option.ne_none_iff_exists'.mp hn
    exact (node_mem hn).imp And.left fun hq => ⟨nd,hq.2⟩
  refine ⟨fun q c hn => ?_,fun q hn => ?_,fun q i hn => ?_⟩
  · rcases hnode hn with hnil | ⟨nd,hm⟩
    · simp at hnil
    · have hparent := (h _ hm).2.1
      rwa [List.dropLast_concat] at hparent
  · rcases hnode hn with rfl | ⟨nd,hm⟩
    · exact validPlace_nil
    · exact (h _ hm).1
  · rcases node_mem hn with ⟨-,hdir⟩ | ⟨-,hm⟩
    · cases hdir
    · exact (h _ hm).2.2 i rfl

def withoutLinks {δ : Type} : Option (Node δ) → Option (Node δ)
  | some (.link _) => none
  | nd => nd

-- D holds what S held, as far as it is done, and S is as it was
structure Replicating (d₀ : Disk) (s S t D : Place) (d : Disk) (done : Place → Prop) : Prop where
  leads : d.tree.walk osLinkLimit [] s = .ok S
  source : ∀ r, d.tree.node (S ++ r) = d₀.tree.node (S ++ r)
  bytes : ∀ i, i < d₀.next → d.bytes i = d₀.bytes i
  next : d₀.next ≤ d.next
  target : Below d.tree t D
  fresh : ∀ r i, d.tree.node (D ++ r) = some (.file i) → i < d.next
  copied : ∀ r, done r → d.view (D ++ r) = withoutLinks (d₀.view (S ++ r))
  absent : ∀ r, r ≠ [] → ¬done r → d.tree.node (D ++ r) = none

section Steps

variable {d₀ d d' : Disk} {s S t D r : Place} {c : Name} {nd : Node Nat} {done done' : Place → Prop}

theorem Replicating.below (h : Replicating d₀ s S t D d done) (hsrc : Below d₀.tree s S) :
    Below d.tree s S := by
  refine ⟨hsrc.path,h.leads,?_,fun r c hn => ?_,fun r hn => ?_⟩
  · have htop := h.source []
    rw [List.append_nil] at htop
    exact htop.trans hsrc.top
  · rw [h.source r]
    rw [List.append_assoc,h.source,← List.append_assoc] at hn
    exact hsrc.proper r c hn
  · rw [h.source] at hn
    exact hsrc.names r hn

theorem Replicating.widen (h : Replicating d₀ s S t D d done) (hsrc : Below d₀.tree s S)
    (hmore : ∀ y, done y → done' y) (hnone : ∀ y, done' y → done y ∨ d₀.tree.node (S ++ y) = none) :
    Replicating d₀ s S t D d done' := by
  refine ⟨h.leads,h.source,h.bytes,h.next,h.target,h.fresh,fun y hy => ?_,fun y hne hy => ?_⟩
  · by_cases hdone : done y
    · exact h.copied y hdone
    · have hn := (hnone y hy).resolve_left hdone
      have hne : y ≠ [] := by
        rintro rfl
        rw [List.append_nil,hsrc.top] at hn
        cases hn
      rw [Disk.view,Disk.view,h.absent y hne hdone,hn]
      rfl
  · exact h.absent y hne fun hdone => hy (hmore y hdone)

theorem Replicating.parent (h : Replicating d₀ s S t D d done) (hsrc : Below d₀.tree s S)
    (hn : d₀.tree.node (S ++ r ++ [c]) = some nd) (hr : done r) : d.tree.node (D ++ r) = some .dir := by
  have hview := h.copied r hr
  rw [view_dir.mpr (hsrc.parent hn)] at hview
  exact view_dir.mp hview

def Apart (S D : Place) : Prop := ¬S <+: D ∧ ¬D <+: S

theorem Apart.ne (h : Apart S D) (x y : Place) : S ++ x ≠ D ++ y := by
  intro he
  rcases List.prefix_or_prefix_of_prefix (List.prefix_append S x) (he ▸ List.prefix_append D y) with hp | hp
  · exact h.1 hp
  · exact h.2 hp

theorem replicating_put (nd' : Node Nat) (hapart : Apart S D) (h : Replicating d₀ s S t D d done)
    (hsrc : Below d₀.tree s S) (hn : d₀.tree.node (S ++ r ++ [c]) = some nd) (hr : done r)
    (hnew : ¬done (r ++ [c])) (htree : d'.tree = d.tree.put (D ++ r ++ [c]) nd')
    (hnext : d.next ≤ d'.next) (hbytes : ∀ i, i < d.next → d'.bytes i = d.bytes i)
    (hfile : ∀ i, nd' = .file i → i < d'.next)
    (hview : some (nd'.map d'.bytes) = withoutLinks (some (nd.map d₀.bytes))) :
    Replicating d₀ s S t D d' fun y => done y ∨ y = r ++ [c] := by
  have hplace : D ++ r ++ [c] = D ++ (r ++ [c]) := List.append_assoc D r [c]
  have hdir := h.parent hsrc hn hr
  have hfree : d.tree.node (D ++ r ++ [c]) = none := by
    rw [hplace]
    exact h.absent (r ++ [c]) (by simp) hnew
  have hself : d'.tree.node (D ++ (r ++ [c])) = some nd' := by
    rw [htree,← hplace]
    exact node_put_self (by simp) (by rwa [List.dropLast_concat])
  have hother {x : Place} (hx : x ≠ r ++ [c]) : d'.tree.node (D ++ x) = d.tree.node (D ++ x) := by
    rw [htree]
    exact node_put_other hfree fun he => hx (List.append_cancel_left (he.trans hplace))
  refine ⟨?_,fun x => ?_,fun i hi => ?_,h.next.trans hnext,?_,fun x i hx => ?_,?_,?_⟩
  · rw [htree]
    exact walk_extends (extends_put hfree) h.leads
  · rw [htree,← h.source x]
    exact node_put_other hfree fun he => hapart.ne x (r ++ [c]) (he.trans hplace)
  · rw [hbytes i (hi.trans_le h.next),h.bytes i hi]
  · rw [htree]
    exact h.target.put hdir hfree (hsrc.name hn)
  · by_cases he : x = r ++ [c]
    · subst he
      rw [hself,Option.some.injEq] at hx
      exact hfile i hx
    · rw [hother he] at hx
      exact (h.fresh x i hx).trans_le hnext
  · intro x hx
    by_cases he : x = r ++ [c]
    · subst he
      rw [Disk.view,Disk.view,hself,← List.append_assoc,hn]
      exact hview
    · -- an earlier copy keeps its node, and its bytes
      rw [← h.copied x (hx.resolve_right he),Disk.view,Disk.view,hother he]
      cases hx : d.tree.node (D ++ x) with
      | none => rfl
      | some nd =>
        cases nd with
        | file i => simp [Node.map,hbytes i (h.fresh x i hx)]
        | _ => rfl
  · intro x hne hx
    obtain ⟨hdone,he⟩ := not_or.mp hx
    rw [hother he]
    exact h.absent x hne hdone

end Steps

section Visits

variable {d₀ d d' : Disk} {s S t D r : Place} {c : Name} {nd : Node Nat} {done : Place → Prop} {n : Nat}
  {ended : Text → Bool}

theorem duplicate_bytes {x : Entry} {i j : Nat} (hj : j ≠ d.next) :
    (duplicate d x i).bytes j = d.bytes j := by
  simp [duplicate,Disk.run,Disk.allocate,Disk.enter,Function.update_of_ne hj]

theorem duplicate_data {x : Entry} {i : Nat} (hi : i ≠ d.next) :
    (duplicate d x i).bytes d.next = d.bytes i := by
  simp [duplicate,Disk.run,Disk.allocate,Disk.enter,Function.update_of_ne hi]

variable (hsrc : Below d₀.tree s S)

include hsrc

omit hsrc in
theorem eachName_replicates (names : List (Name × Kind)) (hsrc : Below d₀.tree s S) (h : Replicating d₀ s S t D d done) (hr : done r)
    (hnames : ∀ x ∈ names, ∃ nd, d₀.tree.node (S ++ r ++ [x.1]) = some nd ∧ x.2 = kindOf nd)
    (hnodup : (names.map Prod.fst).Nodup) (hnew : ∀ x ∈ names, ∀ y, ¬done (r ++ [x.1] ++ y))
    (hchild : ∀ {c nd done d}, Replicating d₀ s S t D d done → d₀.tree.node (S ++ r ++ [c]) = some nd →
      done r → (∀ y, ¬done (r ++ [c] ++ y)) →
      ∃ d', (copyWalk ended (absText s) (absText t) n () (absText (s ++ (r ++ [c]))) (kindOf nd)).eval
        Disk.act d = (d',(),none) ∧ Replicating d₀ s S t D d' fun y => done y ∨ r ++ [c] <+: y) :
    ∃ d', (eachName (fun u x => copyWalk ended (absText s) (absText t) n u
          (joinPath (absText (s ++ r)) x.1) x.2) () names).eval Disk.act d = (d',(),none) ∧
      Replicating d₀ s S t D d' fun y => done y ∨ ∃ x ∈ names, r ++ [x.1] <+: y := by
  induction names generalizing d done with
  | nil => exact ⟨d,rfl,by simpa using h⟩
  | cons x xs ih =>
    obtain ⟨nd,hn,hk⟩ := hnames x List.mem_cons_self
    obtain ⟨hfresh,hnodup⟩ := List.nodup_cons.mp hnodup
    obtain ⟨d₁,heval,h₁⟩ := hchild h hn hr (hnew x List.mem_cons_self)
    have hpath : joinPath (absText (s ++ r)) x.1 = absText (s ++ (r ++ [x.1])) := by
      have hvalid : ValidPlace (s ++ r) := ValidPlace.append.mpr
        ⟨hsrc.path,hsrc.names r (by rw [hsrc.parent hn]; nofun)⟩
      rw [joinPath_name hvalid (hsrc.name hn),List.append_assoc]
    have hlater : ∀ z ∈ xs, ∀ y, ¬(done (r ++ [z.1] ++ y) ∨ r ++ [x.1] <+: r ++ [z.1] ++ y) := by
      rintro z hz y (hy | hy)
      · exact hnew z (List.mem_cons_of_mem x hz) y hy
      · rw [List.append_assoc,List.prefix_append_right_inj] at hy
        have hsame : x.1 = z.1 := (List.cons_prefix_cons.mp hy).1
        exact hfresh (hsame ▸ List.mem_map_of_mem hz)
    obtain ⟨d₂,heval₂,h₂⟩ := ih h₁ (.inl hr) (fun z hz => hnames z (List.mem_cons_of_mem x hz)) hnodup hlater
    refine ⟨d₂,?_,?_⟩
    · rw [eachName_on (by rw [hpath,hk]; exact heval)]
      exact heval₂
    · simpa only [List.mem_cons,exists_eq_or_imp,or_assoc] using h₂

theorem directory_replicates (h : Replicating d₀ s S t D d done) (hr : done r)
    (hdir : d₀.tree.node (S ++ r) = some .dir) (hnew : ∀ c y, ¬done (r ++ c :: y))
    (hchild : ∀ {c nd done d}, Replicating d₀ s S t D d done → d₀.tree.node (S ++ r ++ [c]) = some nd →
      done r → (∀ y, ¬done (r ++ [c] ++ y)) →
      ∃ d', (copyWalk ended (absText s) (absText t) n () (absText (s ++ (r ++ [c]))) (kindOf nd)).eval
        Disk.act d = (d',(),none) ∧ Replicating d₀ s S t D d' fun y => done y ∨ r ++ [c] <+: y) :
    ∃ names, d.readDir (absText (s ++ r)) = .ok names ∧
      ∃ d', (eachName (fun u x => copyWalk ended (absText s) (absText t) n u
          (joinPath (absText (s ++ r)) x.1) x.2) () names).eval Disk.act d = (d',(),none) ∧
        Replicating d₀ s S t D d' fun y => done y ∨ r <+: y := by
  have hbelow := h.below hsrc
  have hdir' : d.tree.node (S ++ r) = some .dir := (h.source r).trans hdir
  have hread : d.readDir (absText (s ++ r)) = .ok ((d.tree.children (S ++ r)).filterMap fun c =>
      (d.tree.node (S ++ r ++ [c])).map fun nd => (c,kindOf nd)) := by
    rw [Disk.readDir,below_folder hbelow hdir']
  have hsame (c : Name) : d.tree.node (S ++ r ++ [c]) = d₀.tree.node (S ++ r ++ [c]) := by
    rw [List.append_assoc]
    exact h.source _
  refine ⟨_,hread,?_⟩
  obtain ⟨d',heval,h'⟩ := eachName_replicates
    ((d.tree.children (S ++ r)).filterMap fun c =>
      (d.tree.node (S ++ r ++ [c])).map fun nd => (c,kindOf nd)) hsrc h hr
    (by
      intro x hx
      obtain ⟨c,-,he⟩ := List.mem_filterMap.mp hx
      obtain ⟨nd,hnd,rfl⟩ := Option.map_eq_some_iff.mp he
      exact ⟨nd,(hsame c).symm.trans hnd,rfl⟩)
    (by rw [listed_names]; exact nodup_children)
    (fun x _ y hy => hnew x.1 y (by simpa using hy)) hchild
  refine ⟨d',heval,h'.widen hsrc ?_ ?_⟩
  · rintro y (hy | ⟨x,-,hy⟩)
    · exact .inl hy
    · exact .inr ((List.prefix_append r [x.1]).trans hy)
  · rintro y (hy | ⟨z,rfl⟩)
    · exact .inl (.inl hy)
    · cases z with
      | nil => exact .inl (.inl (by rwa [List.append_nil]))
      | cons c z =>
        have hsplit : r ++ c :: z = r ++ [c] ++ z := by simp
        cases hn : d₀.tree.node (S ++ (r ++ c :: z)) with
        | none => exact .inr rfl
        | some nd =>
          rw [hsplit,← List.append_assoc,← List.append_assoc] at hn
          have habove := node_above hn (List.prefix_append _ _)
          have hmem : c ∈ d.tree.children (S ++ r) := mem_children.mpr (by rwa [hsame c])
          rw [← listed_names] at hmem
          obtain ⟨x,hx,rfl⟩ := List.mem_map.mp hmem
          exact .inl (.inr ⟨x,hx,hsplit ▸ List.prefix_append _ _⟩)

variable (hactive : ∀ p, ended p = false) (ht : ValidPlace t) (hsound : Sound d₀) (hapart : Apart S D)

include hactive ht hsound hapart

theorem copyEntry_replicates (h : Replicating d₀ s S t D d done)
    (hn : d₀.tree.node (S ++ r ++ [c]) = some nd) (hr : done r) (hnew : ¬done (r ++ [c])) :
    ∃ d', (copyEntry ended (absText s) (absText t) () (absText (s ++ (r ++ [c]))) (kindOf nd)).eval
        Disk.act d = (d',(),none) ∧ Replicating d₀ s S t D d' fun y => done y ∨ y = r ++ [c] := by
  have hbelow := h.below hsrc
  have hnode : d.tree.node (S ++ r ++ [c]) = some nd := by
    rw [List.append_assoc,h.source,← List.append_assoc,hn]
  have hc := hsrc.name hn
  have hname : ValidPlace (r ++ [c]) := hsrc.names (r ++ [c]) (by rw [← List.append_assoc,hn]; nofun)
  have htarget := joinPath_relPath hsrc.path ht hname
  have hdir := h.parent hsrc hn hr
  have hfree : d.tree.node (D ++ r ++ [c]) = none := by
    rw [List.append_assoc]
    exact h.absent (r ++ [c]) (by simp) hnew
  cases nd with
  | link target =>
    refine ⟨d,copyEntry_link (hactive _),?_⟩
    refine ⟨h.leads,h.source,h.bytes,h.next,h.target,h.fresh,fun y hy => ?_,fun y hne hy => ?_⟩
    · rcases hy with hy | rfl
      · exact h.copied y hy
      · rw [Disk.view,Disk.view,← List.append_assoc,← List.append_assoc,hfree,hn]
        rfl
    · exact h.absent y hne fun hdone => hy (.inl hdone)
  | dir =>
    have hmk := mkdirAll_made h.target hdir hfree hc
    rw [List.append_assoc t] at hmk
    refine ⟨_,copyEntry_dir (hactive _) htarget hmk,?_⟩
    exact replicating_put .dir hapart h hsrc hn hr hnew rfl le_rfl (fun _ _ => rfl) nofun rfl
  | file i =>
    have hvalid : ValidPlace (s ++ r ++ [c]) := by
      rw [List.append_assoc]
      exact ValidPlace.append.mpr ⟨hsrc.path,hname⟩
    have hopen : d.openRead (absText (s ++ (r ++ [c]))) = .ok (some i) := by
      rw [Disk.openRead,← List.append_assoc,Disk.found_named hvalid (below_named hbelow hnode) nofun]
    have hv := vacant_below h.target hdir hfree hc
    rw [List.append_assoc t] at hv
    refine ⟨_,copyEntry_file (hactive _) htarget (copyFile_made hopen hv (hactive _)),?_⟩
    have hi : i < d₀.next := hsound.inodes _ i hn
    refine replicating_put (.file d.next) hapart h hsrc hn hr hnew rfl (Nat.le_succ _)
      (fun j hj => duplicate_bytes hj.ne) ?_ ?_
    · intro j hj
      obtain rfl := Node.file.inj hj
      exact Nat.lt_succ_self _
    · have hlt := hi.trans_le h.next
      simp [Node.map,withoutLinks,duplicate_data hlt.ne,h.bytes i hi]

theorem copyWalk_replicates (h : Replicating d₀ s S t D d done)
    (hn : d₀.tree.node (S ++ r ++ [c]) = some nd) (hr : done r) (hnew : ∀ y, ¬done (r ++ [c] ++ y))
    (hdepth : ∀ y, d₀.tree.node (S ++ (r ++ [c]) ++ y) ≠ none → y.length < n) :
    ∃ d', (copyWalk ended (absText s) (absText t) n () (absText (s ++ (r ++ [c]))) (kindOf nd)).eval
        Disk.act d = (d',(),none) ∧ Replicating d₀ s S t D d' fun y => done y ∨ r ++ [c] <+: y := by
  induction n generalizing r c nd done d with
  | zero =>
    have hlt := hdepth [] (by rw [List.append_nil,← List.append_assoc,hn]; nofun)
    omega
  | succ n ih =>
    have hnew₀ : ¬done (r ++ [c]) := by simpa using hnew []
    obtain ⟨d₁,hvisit,h₁⟩ := copyEntry_replicates hsrc hactive ht hsound hapart h hn hr hnew₀
    have hplace : S ++ (r ++ [c]) = S ++ r ++ [c] := (List.append_assoc S r [c]).symm
    by_cases hk : nd = .dir
    · subst hk
      have hbelow : ∀ e y, ¬(done (r ++ [c] ++ e :: y) ∨ r ++ [c] ++ e :: y = r ++ [c]) := by
        rintro e y (hy | hy)
        · exact hnew (e :: y) hy
        · simp at hy
      obtain ⟨names,hread,d₂,heval,h₂⟩ := directory_replicates (n := n) hsrc h₁
        (.inr rfl) (hplace ▸ hn) hbelow (by
          intro e nd done d hd hnd hdone hfresh
          refine ih hd hnd hdone hfresh fun y hy => ?_
          have hlt := hdepth (e :: y) (by simpa using hy)
          simpa using hlt)
      refine ⟨d₂,(copyWalk_names hvisit hread).trans heval,h₂.widen hsrc ?_ ?_⟩
      · rintro y ((hy | rfl) | hy)
        · exact .inl hy
        · exact .inr (List.prefix_refl _)
        · exact .inr hy
      · rintro y (hy | hy)
        · exact .inl (.inl (.inl hy))
        · exact .inl (.inr hy)
    · have hkind : kindOf nd ≠ .dir := by
        cases nd with
        | dir => exact absurd rfl hk
        | _ => nofun
      refine ⟨d₁,copyWalk_leaf hvisit hkind,h₁.widen hsrc ?_ ?_⟩
      · rintro y (hy | rfl)
        · exact .inl hy
        · exact .inr (List.prefix_refl _)
      · rintro y (hy | ⟨z,rfl⟩)
        · exact .inl (.inl hy)
        · cases z with
          | nil => exact .inl (.inr (List.append_nil _))
          | cons e z =>
            -- below what is no directory there is nothing
            cases hn' : d₀.tree.node (S ++ (r ++ [c] ++ e :: z)) with
            | none => exact .inr rfl
            | some x =>
              have hsplit : S ++ (r ++ [c] ++ e :: z) = S ++ (r ++ [c]) ++ [e] ++ z := by simp
              rw [hsplit] at hn'
              have hdir := hsrc.proper _ _ (node_above hn' (List.prefix_append _ _))
              rw [hplace,hn] at hdir
              exact absurd (Option.some.inj hdir) hk

end Visits

-- the destination holds what the source held, without its links
def Copies (d d' : Disk) (src dst : Text) : Prop :=
  ∃ S nd D nd', d.found src = .ok (S,nd) ∧ d'.found dst = .ok (D,nd') ∧
    ∀ r, d'.view (D ++ r) = withoutLinks (d.view (S ++ r))

-- the copy ends without an error, and is exact
def Exact (root : Text) (d : Disk) (srcPath dstPath src dst : Text) : Prop :=
  ∃ n d', (copy background n srcPath dstPath).eval (step root) d = (d',none) ∧ Copies d d' src dst

-- a directory that its path names, and whose copy will not lie in it
def Sane (d : Disk) (src dst : Text) : Prop :=
  (∃ st, d.lstat src = .ok st ∧ st.kind = .dir) ∧
    ∀ S nd D, d.found src = .ok (S,nd) → Lands d (components dst) D → ¬S <+: D

section Whole

variable {d d' : Disk} {s S t D : Place} {root srcPath dstPath src dst : Text} {info : Stat}

theorem lengths_bounded (xs : List (Place × Node Nat)) : ∃ n, ∀ e ∈ xs, e.1.length < n := by
  induction xs with
  | nil => exact ⟨0,by simp⟩
  | cons e xs ih =>
    obtain ⟨n,hn⟩ := ih
    refine ⟨max (e.1.length + 1) n,fun x hx => ?_⟩
    rcases List.mem_cons.mp hx with rfl | hx
    · exact Nat.lt_of_lt_of_le (Nat.lt_succ_self _) (Nat.le_max_left _ _)
    · exact (hn x hx).trans_le (Nat.le_max_right _ _)

theorem depth_exists (t : FileTree Nat) : ∃ n, ∀ q, t.node q ≠ none → q.length ≤ n := by
  obtain ⟨n,hn⟩ := lengths_bounded t.nodes
  refine ⟨n,fun q hq => ?_⟩
  obtain ⟨nd,hnode⟩ := Option.ne_none_iff_exists'.mp hq
  rcases node_mem hnode with ⟨rfl,-⟩ | ⟨-,hm⟩
  · exact Nat.zero_le _
  · exact (hn _ hm).le

theorem Founded.replicating (h : Founded d d' D) (hsrc : Below d.tree s S)
    (ht : ValidPlace t) (hapart : Apart S D) (hfound : d'.found (absText t) = .ok (D,.dir))
    (hempty : ∀ c, d'.tree.node (D ++ [c]) = none) :
    Replicating d s S t D d' fun y => y = [] := by
  have hdir := (Disk.found_ok.mp hfound).2
  have hbelow : ∀ y, y ≠ [] → d'.tree.node (D ++ y) = none := by
    intro y hne
    obtain ⟨c,z,rfl⟩ := List.exists_cons_of_ne_nil hne
    have hsplit : D ++ c :: z = D ++ [c] ++ z := by simp
    rw [hsplit]
    cases hn : d'.tree.node (D ++ [c] ++ z) with
    | none => rfl
    | some nd => exact absurd (hempty c) (node_above hn (List.prefix_append _ _))
  refine ⟨walk_extends h.grown.extends_ hsrc.leads,fun r => ?_,fun i _ => by rw [h.bytes],h.next.ge,
    ⟨ht,walk_of_found ht hfound,hdir,fun r c hn => ?_,fun r hn => ?_⟩,fun r i hr => ?_,?_,?_⟩
  · rcases h.tree (S ++ r) with hr | ⟨-,hp,-⟩
    · exact hr
    · exact absurd ((List.prefix_append S r).trans hp) hapart.1
  · rw [List.append_assoc] at hn
    exact absurd (hbelow (r ++ [c]) (by simp)) hn
  · by_cases hne : r = []
    · exact hne ▸ validPlace_nil
    · exact absurd (hbelow r hne) hn
  · by_cases hne : r = []
    · rw [hne,List.append_nil,hdir] at hr
      cases hr
    · rw [hbelow r hne] at hr
      cases hr
  · rintro r rfl
    rw [List.append_nil,List.append_nil,view_dir.mpr hdir,view_dir.mpr hsrc.top]
    rfl
  · exact fun r hne _ => hbelow r hne

theorem copyDir_exact (hsound : Sound d) (hs : ValidPlace s) (ht : ValidPlace t)
    (hfound : d.found (absText s) = .ok (S,.dir)) {st : Stat} (hl : d.lstat (absText s) = .ok st)
    (hk : st.kind = .dir) (hlands : Lands d t D) (hout : ¬S <+: D) :
    ∃ n d', (copyDir background n (absText s) (absText t)).eval Disk.act d = (d',none) ∧
      Copies d d' (absText s) (absText t) := by
  have hdir := (Disk.found_ok.mp hfound).2
  have hsrc := hsound.below hs (walk_of_found hs hfound) hdir
  have hapart : Apart S D := by
    refine ⟨hout,?_⟩
    rintro ⟨z,rfl⟩
    rw [hlands.free z] at hdir
    cases hdir
  obtain ⟨d₁,hmk,hmade,hempty,hfounded⟩ := mkdirAll_lands ht hlands
  obtain ⟨n,hn⟩ := depth_exists d.tree
  have hbegun := Founded.replicating hfounded hsrc ht hapart hmade hempty
  have htarget := joinPath_relPath hs ht validPlace_nil
  rw [List.append_nil,List.append_nil] at htarget
  have hvisit := copyEntry_dir (background_on _) htarget hmk
  obtain ⟨names,hread,d₂,heval,h₂⟩ := directory_replicates (r := []) (n := n) hsrc hbegun rfl
    (by rwa [List.append_nil]) (by simp) (by
      intro c nd done d hd hnd hdone hfresh
      refine copyWalk_replicates hsrc (fun _ => rfl) ht hsound hapart hd hnd hdone hfresh fun y hy => ?_
      have hlt := hn _ hy
      simp only [List.length_append,List.length_singleton] at hlt
      omega)
  rw [List.append_nil] at hread heval
  have hwalk := (copyWalk_names hvisit hread).trans heval
  refine ⟨n + 1,d₂,?_,S,.dir,D,.dir,hfound,?_,fun r => h₂.copied r (.inr List.nil_prefix)⟩
  · exact copyDir_eval hl (hk ▸ hwalk) (copyWalk_goes (isAbs_absText t) hwalk)
  · have hroot := below_folder h₂.target (r := []) (by simpa using h₂.target.top)
    simpa using hroot

theorem lstat_folder (hs : ValidPlace s) (hfound : d.found (absText s) = .ok (S,.dir)) {st : Stat}
    (hl : d.lstat (absText s) = .ok st) : st.kind = .dir ∨ st.kind = .link := by
  rcases List.eq_nil_or_concat' s with rfl | ⟨r,c,rfl⟩
  · rw [Disk.lstat,entryAt_root,stat_root] at hl
    exact .inl (Except.ok.inj hl ▸ rfl)
  · obtain ⟨x,nd,hnamed,rfl⟩ := Disk.named_of_lstat hs hl
    cases nd with
    | dir => exact .inl rfl
    | link target => exact .inr rfl
    | file i =>
      rw [Disk.found_named hs hnamed (by simp)] at hfound
      cases hfound

theorem copyDir_link {n : Nat} {st : Stat} {r : Halt} (hl : d.lstat (absText s) = .ok st)
    (hk : st.kind = .link)
    (h : (copyDir background n (absText s) dst).eval Disk.act d = (d',r)) :
    r = some .deep ∨ d' = d := by
  cases n with
  | zero =>
    rw [copyDir_eval hl rfl (.inl (.inl rfl))] at h
    exact .inl (Prod.mk.inj h).2.symm
  | succ n =>
    have hvisit : (copyEntry background (absText s) dst () (absText s) .link).eval Disk.act d =
        (d,(),none) := copyEntry_link rfl
    have hwalk := copyWalk_leaf (n := n) hvisit (by decide)
    rw [copyDir_eval hl (hk ▸ hwalk) (.inr ⟨rfl,grown_refl _⟩)] at h
    exact .inr (Prod.mk.inj h).1.symm

theorem copyDir_sane (hs : ValidPlace s) (ht : ValidPlace t) (hfound : d.found (absText s) = .ok (S,.dir))
    (hfree : ∀ st, d.stat (absText t) ≠ .ok st) {n : Nat}
    (heval : (copyDir background n (absText s) (absText t)).eval Disk.act d = (d',none))
    (hcopies : Copies d d' (absText s) (absText t)) : Sane d (absText s) (absText t) := by
  cases hl : d.lstat (absText s) with
  | error err =>
    have hfailed : (copyDir background n (absText s) (absText t)).eval Disk.act d =
        (d,some (.failed none)) := by
      have hwalk : (Os.walkDir (copyEntry background (absText s) (absText t))
          (fun _ => some (.failed none)) n () (absText s)).eval Disk.act d =
            (d,(),some (.failed none)) := by
        unfold Os.walkDir
        rw [act_lstat,hl]
        rfl
      unfold copyDir
      rw [act_after hwalk]
      rfl
    rw [hfailed] at heval
    cases heval
  | ok st =>
    rcases lstat_folder hs hfound hl with hk | hk
    · refine ⟨⟨st,hl,hk⟩,?_⟩
      rintro S' nd D hfound' hlands ⟨w,rfl⟩
      obtain ⟨rfl,-⟩ := Prod.mk.inj (Except.ok.inj (hfound'.symm.trans hfound))
      rw [components_absText ht] at hlands
      have hstops := copyDir_stops hs ht (walk_of_found hs hfound) (Disk.found_ok.mp hfound).2 hl hk
        hlands heval
      rcases hstops with hdeep | ⟨e,he⟩
      · cases hdeep
      · cases he
    · rcases copyDir_link hl hk heval with hdeep | rfl
      · cases hdeep
      · obtain ⟨-,-,D,nd,-,hD,-⟩ := hcopies
        exact absurd (by rw [Disk.stat,hD]; rfl) (hfree (d'.info D nd))

theorem sane_exact (hsound : Sound d) (hs : ValidPlace s) (ht : ValidPlace t)
    (hfound : d.found (absText s) = .ok (S,.dir)) (hfree : ∀ st, d.stat (absText t) ≠ .ok st)
    (hio : ∀ n e, ((copyDir background n (absText s) (absText t)).eval Disk.act d).2 ≠
      some (.failed e)) (h : Sane d (absText s) (absText t)) :
    ∃ n d', (copyDir background n (absText s) (absText t)).eval Disk.act d = (d',none) ∧
      Copies d d' (absText s) (absText t) := by
  obtain ⟨⟨st,hl,hk⟩,hout⟩ := h
  rw [components_absText ht] at hout
  by_cases hlands : ∃ D, Lands d t D
  · obtain ⟨D,hlands⟩ := hlands
    exact copyDir_exact hsound hs ht hfound hl hk hlands (hout S .dir D hfound hlands)
  · have hno : ¬Folder d (absText t) := fun ⟨st,hst,_⟩ => hfree st hst
    obtain ⟨err,hmk⟩ := mkdirAll_nowhere ht hno (not_exists.mp hlands)
    have htarget := joinPath_relPath hs ht validPlace_nil
    rw [List.append_nil,List.append_nil] at htarget
    have hvisit := copyEntry_blocked (background_on _) htarget hmk
    have hwalk := copyWalk_stop (n := 0) hvisit (.inr ⟨none,rfl⟩)
    have heval := copyDir_eval hl (hk ▸ hwalk) (.inl (.inr ⟨none,rfl⟩))
    exact absurd (by rw [heval]) (hio 1 none)

theorem copyFile_copies (hsound : Sound d) (ht : ValidPlace t)
    (h : (copyFile background src (absText t)).eval Disk.act d = (d',.ok ())) :
    Copies d d' src (absText t) := by
  obtain ⟨i,x,hopen,hv,rfl⟩ := copyFile_ok h
  obtain ⟨S,hS⟩ : ∃ S, d.found src = .ok (S,.file i) := by
    unfold Disk.openRead at hopen
    split at hopen
    · cases hopen
    · rename_i S j hS
      obtain rfl := Option.some.inj (Except.ok.inj hopen)
      exact ⟨S,hS⟩
    · cases hopen
  have hnode := (Disk.found_ok.mp hS).2
  have hi := hsound.inodes S i hnode
  obtain ⟨hentry,hvac⟩ := Disk.vacantEntry_ok.mp hv
  obtain ⟨hdir,hfree⟩ := Disk.vacant_iff.mp hvac
  have hself : (duplicate d x i).tree.node x.place = some (.file d.next) :=
    node_put_self (by simp [Entry.place]) (by rwa [Entry.place,List.dropLast_concat])
  have hext : Extends d.tree (duplicate d x i).tree := extends_put hfree
  refine ⟨S,_,x.place,.file d.next,hS,?_,fun r => ?_⟩
  · rcases List.eq_nil_or_concat' t with rfl | ⟨r,c,rfl⟩
    · simp [entryAt_root] at hentry
    · obtain ⟨hw,hname⟩ := (Disk.entryAt_some_iff ht).mp hentry
      have hentry' := (Disk.entryAt_some_iff ht).mpr ⟨walk_extends hext hw,hname⟩
      exact Disk.found_named ht (Disk.named_ok.mpr ⟨hentry',dirAt_iff.mpr (hext _ _ hdir),hself⟩) (by simp)
  · cases r with
    | nil =>
      rw [List.append_nil,List.append_nil,Disk.view,Disk.view,hself,hnode]
      simp [Node.map,withoutLinks,duplicate_data hi.ne]
    | cons c r =>
      -- below a file there is nothing, neither before nor after
      have hleft : (duplicate d x i).tree.node (x.place ++ c :: r) = none := by
        refine (node_put_other hfree (by simp)).trans ?_
        cases hn : d.tree.node (x.place ++ c :: r) with
        | none => rfl
        | some nd => exact absurd hfree (node_above hn (List.prefix_append _ _))
      have hright : d.tree.node (S ++ c :: r) = none := by
        cases hn : d.tree.node (S ++ c :: r) with
        | none => rfl
        | some nd =>
          have hsplit : S ++ c :: r = S ++ [c] ++ r := by simp
          rw [hsplit] at hn
          have htop := hsound.proper S c (node_above hn (List.prefix_append _ _))
          rw [hnode] at htop
          cases htop
      rw [Disk.view,Disk.view,hleft,hright]
      rfl

theorem copy_exact_iff (hroot : isAbs root = true) (hsound : Sound d)
    (h : Admitted root d srcPath dstPath src dst info)
    (hio : ∀ n e, ((copy background n srcPath dstPath).eval (step root) d).2 ≠ some (.failed e)) :
    Exact root d srcPath dstPath src dst ↔ (info.kind = .dir → Sane d src dst) := by
  obtain ⟨cs,hcs,rfl,-⟩ := resolveSafePath_ok hroot h.srcAbs
  obtain ⟨ct,hct,rfl,-⟩ := resolveSafePath_ok hroot h.dstAbs
  have hs := ValidPlace.append.mpr ⟨components_valid hroot,hcs⟩
  have ht := ValidPlace.append.mpr ⟨components_valid hroot,hct⟩
  simp only [copy_admitted _ _ h] at hio
  unfold Exact
  simp only [copy_admitted _ _ h]
  by_cases hk : info.kind = .dir
  · obtain ⟨S,hfound⟩ := folder_iff.mp ⟨info,h.found,hk⟩
    simp only [copyInto,if_pos hk] at hio ⊢
    rw [imp_iff_right hk]
    constructor
    · rintro ⟨n,d',heval,hcopies⟩
      exact copyDir_sane hs ht hfound h.free heval hcopies
    · exact sane_exact hsound hs ht hfound h.free hio
  · simp only [copyInto,if_neg hk] at hio ⊢
    refine iff_of_true ?_ (fun hdir => absurd hdir hk)
    rcases hcopy : (copyFile background (absText (components root ++ cs))
      (absText (components root ++ ct))).eval Disk.act d with ⟨d',e | u⟩
    · exact absurd (by rw [act_after hcopy]; rfl) (hio 0 e)
    · refine ⟨0,d',?_,copyFile_copies hsound ht hcopy⟩
      rw [act_after hcopy]
      rfl

end Whole

section Endless

variable {d : Disk} {s S : Place} {b : Name} {n j : Nat}

theorem readDir_only {r : Place} (h : Below d.tree s S) (hb : d.tree.node (S ++ r ++ [b]) = some .dir)
    (hone : ∀ c, c ≠ b → d.tree.node (S ++ r ++ [c]) = none) :
    d.readDir (absText (s ++ r)) = .ok [(b,.dir)] := by
  have hmem : ∀ c, c ∈ d.tree.children (S ++ r) ↔ c ∈ [b] := by
    intro c
    rw [mem_children,List.mem_singleton]
    constructor
    · intro hn
      by_contra hc
      exact hn (hone c hc)
    · rintro rfl
      rw [hb]
      nofun
  have hperm := (List.perm_ext_iff_of_nodup nodup_children (List.nodup_singleton b)).mpr hmem
  rw [Disk.readDir,below_folder h (h.parent hb)]
  show Except.ok ((d.tree.children (S ++ r)).filterMap _) = _
  rw [List.perm_singleton.mp hperm,List.filterMap_cons,hb]
  rfl

theorem nest_deep (h : Below d.tree s S) (hb : ValidName b)
    (hdir : d.tree.node (S ++ List.replicate j b) = some .dir)
    (hempty : ∀ c, d.tree.node (S ++ List.replicate j b ++ [c]) = none) :
    ∃ d', (copyWalk background (absText s) (absText (s ++ [b])) n ()
      (absText (s ++ List.replicate j b)) .dir).eval Disk.act d = (d',(),some .deep) := by
  induction n generalizing d j with
  | zero => exact ⟨d,rfl⟩
  | succ n ih =>
    have hnext (x : Place) : x ++ List.replicate j b ++ [b] = x ++ List.replicate (j + 1) b := by
      rw [List.append_assoc,List.replicate_succ']
    have htarget : joinPath (absText (s ++ [b])) (relPath (absText s) (absText (s ++ List.replicate j b))) =
        absText (s ++ List.replicate j b ++ [b]) := by
      have hsb : ValidPlace (s ++ [b]) :=
        ValidPlace.append.mpr ⟨h.path,ValidPlace.cons.mpr ⟨hb,validPlace_nil⟩⟩
      rw [joinPath_relPath h.path hsb (h.names _ (by rw [hdir]; nofun)),hnext,List.append_assoc,
        List.singleton_append,List.replicate_succ]
    have hvisit := copyEntry_dir (background_on _) htarget (mkdirAll_made h hdir (hempty b) hb)
    have hbelow : Below (d.tree.put (S ++ List.replicate j b ++ [b]) .dir) s S := h.put hdir (hempty b) hb
    have hself : (d.tree.put (S ++ List.replicate j b ++ [b]) .dir).node (S ++ List.replicate j b ++ [b]) =
        some .dir := node_put_self (by simp) (by rwa [List.dropLast_concat])
    have hone : ∀ c, c ≠ b →
        (d.tree.put (S ++ List.replicate j b ++ [b]) .dir).node (S ++ List.replicate j b ++ [c]) = none := by
      intro c hc
      rw [node_put_other (hempty b) (by simpa using hc)]
      exact hempty c
    obtain ⟨d',hdown⟩ := ih (d := d.enter ⟨S ++ List.replicate j b,b⟩ .dir) (j := j + 1) hbelow
      (hnext S ▸ hself) (hnext S ▸ enter_empty (x := ⟨S ++ List.replicate j b,b⟩) (hempty b))
    refine ⟨d',(copyWalk_names hvisit (readDir_only hbelow hself hone)).trans (eachName_stop ?_ (.inl rfl))⟩
    rw [joinPath_name (h.valid hdir) hb,hnext]
    exact hdown

end Endless

-- a file, a link and a directory in /r/a, and the empty directory /r/e
def pairDisk : Disk where
  tree := { nodes := [([['r']],.dir),([['r'],['a']],.dir),([['r'],['a'],['f']],.file 0),
    ([['r'],['a'],['l']],.link ['/','r']),([['r'],['e']],.dir)], rooted := by decide }
  bytes := fun _ => [7]
  next := 1
  hardLinks := true

theorem pairDisk_sound : Sound pairDisk := by
  refine sound_of_nodes fun e he => ?_
  simp only [pairDisk,List.mem_cons,List.not_mem_nil,or_false] at he
  rcases he with rfl | rfl | rfl | rfl | rfl <;>
    exact ⟨by simp [ValidPlace,ValidName,dot,dotdot],rfl,by simp [pairDisk]⟩

theorem pair_admitted : Admitted ['/','r'] pairDisk ['/','a'] ['/','b'] ['/','r','/','a'] ['/','r','/','b']
    ⟨.dir,0,.inl [['r'],['a']]⟩ := by
  have hmissing : pairDisk.stat ['/','r','/','b'] = .error .notExist := rfl
  exact ⟨rfl,rfl,by decide,by decide,rfl,fun st => by rw [hmissing]; nofun⟩

-- the copy /b of /a holds the file and not the link
theorem pair_copied : Exact ['/','r'] pairDisk ['/','a'] ['/','b'] ['/','r','/','a'] ['/','r','/','b'] := by
  refine (copy_exact_iff rfl pairDisk_sound pair_admitted ?_).mpr fun _ => ?_
  · intro n e
    match n with
    | 0 => nofun
    | 1 => nofun
    | n + 2 => nofun
  · refine ⟨⟨_,rfl,rfl⟩,?_⟩
    intro S nd D hS hD
    have hfound : pairDisk.found ['/','r','/','a'] = .ok ([['r'],['a']],.dir) := rfl
    obtain ⟨rfl,-⟩ := Prod.mk.inj (Except.ok.inj (hS.symm.trans hfound))
    have hvalid : ValidPlace [['r'],['b']] := by simp [ValidPlace,ValidName,dot,dotdot]
    obtain rfl := hD.unique hvalid ⟨[['r'],['b']],⟨[['r']],['b']⟩,[],rfl,rfl,rfl⟩
    decide

-- the empty directory /e is copied to /e/b: /e/b is made, then /e/b/b in it, and so on;
-- of /a/l, which leads to a directory, nothing is copied, and no error is given
theorem copied_into_itself : Sound pairDisk ∧
    Admitted ['/','r'] pairDisk ['/','e'] ['/','e','/','b'] ['/','r','/','e'] ['/','r','/','e','/','b']
      ⟨.dir,0,.inl [['r'],['e']]⟩ ∧
    (∀ n, ((copy background n ['/','e'] ['/','e','/','b']).eval (step ['/','r']) pairDisk).2 =
      some .deep) ∧
    ¬Exact ['/','r'] pairDisk ['/','e'] ['/','e','/','b'] ['/','r','/','e'] ['/','r','/','e','/','b'] ∧
    Admitted ['/','r'] pairDisk ['/','a','/','l'] ['/','x'] ['/','r','/','a','/','l'] ['/','r','/','x']
      ⟨.dir,0,.inl [['r']]⟩ ∧
    (∀ n, (copy background (n + 1) ['/','a','/','l'] ['/','x']).eval (step ['/','r']) pairDisk =
      (pairDisk,none)) ∧
    ¬Exact ['/','r'] pairDisk ['/','a','/','l'] ['/','x'] ['/','r','/','a','/','l'] ['/','r','/','x'] := by
  have hadmitted : Admitted ['/','r'] pairDisk ['/','e'] ['/','e','/','b'] ['/','r','/','e']
      ['/','r','/','e','/','b'] ⟨.dir,0,.inl [['r'],['e']]⟩ := by
    have hmissing : pairDisk.stat ['/','r','/','e','/','b'] = .error .notExist := rfl
    exact ⟨rfl,rfl,by decide,by decide,rfl,fun st => by rw [hmissing]; nofun⟩
  have hdeep : ∀ n, ((copy background n ['/','e'] ['/','e','/','b']).eval (step ['/','r'])
      pairDisk).2 = some .deep := by
    intro n
    have hbelow : Below pairDisk.tree [['r'],['e']] [['r'],['e']] :=
      pairDisk_sound.below (by simp [ValidPlace,ValidName,dot,dotdot]) rfl rfl
    have hempty : ∀ c, pairDisk.tree.node ([['r'],['e']] ++ List.replicate 0 ['b'] ++ [c]) = none := by
      intro c
      by_contra hn
      obtain ⟨nd,hn⟩ := Option.ne_none_iff_exists'.mp hn
      rcases node_mem hn with ⟨hnil,-⟩ | ⟨-,hm⟩
      · simp at hnil
      · simp [pairDisk] at hm
    obtain ⟨d',hwalk⟩ := nest_deep (n := n) (j := 0) (b := ['b']) hbelow
      (by simp [ValidName,dot,dotdot]) rfl hempty
    have hl : pairDisk.lstat ['/','r','/','e'] = .ok ⟨.dir,0,.inl [['r'],['e']]⟩ := rfl
    have heval := copyDir_eval hl hwalk (.inl (.inl rfl))
    rw [copy_admitted _ _ hadmitted,copyInto,if_pos rfl]
    exact congrArg Prod.snd heval
  have hlinked : Admitted ['/','r'] pairDisk ['/','a','/','l'] ['/','x'] ['/','r','/','a','/','l']
      ['/','r','/','x'] ⟨.dir,0,.inl [['r']]⟩ := by
    refine ⟨rfl,rfl,by decide,by decide,rfl,fun st h => ?_⟩
    have hmissing : pairDisk.stat ['/','r','/','x'] = .error .notExist := rfl
    rw [hmissing] at h
    cases h
  have hl : pairDisk.lstat ['/','r','/','a','/','l'] = .ok ⟨.link,2,.inl [['r'],['a'],['l']]⟩ := rfl
  refine ⟨pairDisk_sound,hadmitted,hdeep,?_,hlinked,fun n => rfl,?_⟩
  · rintro ⟨n,d',heval,-⟩
    have hn := hdeep n
    rw [heval] at hn
    cases hn
  · rintro ⟨n,d',heval,-,-,D,nd,-,hD,-⟩
    rw [copy_admitted _ _ hlinked,copyInto,if_pos rfl] at heval
    rcases copyDir_link (s := [['r'],['a'],['l']]) hl rfl heval with hdeep | rfl
    · cases hdeep
    · have hmissing : pairDisk.found ['/','r','/','x'] = .error .notExist := rfl
      rw [hmissing] at hD
      cases hD

end Transfer
