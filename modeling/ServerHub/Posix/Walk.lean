import ServerHub.Posix.Os

namespace Posix

open FileTree Interleave Interleave.Prog

variable {δ : Type}

def Node.map {ε : Type} (f : δ → ε) : Node δ → Node ε
  | .dir => .dir
  | .file data => .file (f data)
  | .link target => .link target

-- what is seen at a place: a regular file's bytes, not its inode
def Disk.view (d : Disk) (q : Place) : Option (Node Bytes) := (d.tree.node q).map (Node.map d.bytes)

namespace FileTree

def listing (t : FileTree δ) : Nat → Place → List Place
  | 0, _ => []
  | n + 1, q => (t.children q).flatMap fun c => [c] :: (t.listing n (q ++ [c])).map fun r => c :: r

variable {t : FileTree δ} {q r : Place} {c : Name}

theorem node_of_mem {nd : Node δ} (h : (q,nd) ∈ t.nodes) : t.node q ≠ none := by
  unfold node
  split
  · simp
  · intro hn
    have hfind := List.find?_eq_none.mp (Option.map_eq_none_iff.mp hn) _ h
    simp at hfind

theorem mem_children : c ∈ t.children q ↔ t.node (q ++ [c]) ≠ none := by
  unfold children
  rw [List.mem_insertionSort,List.mem_dedup,List.mem_filterMap]
  constructor
  · rintro ⟨⟨p,nd⟩,hm,hc⟩
    obtain ⟨rfl,hlast⟩ := Option.ite_none_right_eq_some.mp hc
    have hp : p = p.dropLast ++ [c] := (List.dropLast_append_getLast? c hlast).symm
    rw [← hp]
    exact node_of_mem hm
  · intro h
    obtain ⟨nd,hn⟩ := Option.ne_none_iff_exists'.mp h
    rcases node_mem hn with ⟨hnil,-⟩ | ⟨-,hm⟩
    · simp at hnil
    · exact ⟨_,hm,by simp [childOf]⟩

theorem nodup_children : (t.children q).Nodup :=
  ((List.perm_insertionSort _ _).nodup_iff).mpr (List.nodup_dedup _)

theorem listing_succ {n : Nat} : r ∈ t.listing (n + 1) q ↔
    ∃ c, t.node (q ++ [c]) ≠ none ∧ (r = [c] ∨ ∃ x ∈ t.listing n (q ++ [c]), r = c :: x) := by
  simp only [listing,List.mem_flatMap,List.mem_cons,List.mem_map,mem_children]
  refine exists_congr fun c => and_congr_right fun _ => or_congr_right ?_
  exact exists_congr fun x => and_congr_right fun _ => eq_comm

theorem mem_listing {n : Nat} :
    r ∈ t.listing n q ↔ r ≠ [] ∧ r.length ≤ n ∧ t.node (q ++ r) ≠ none := by
  induction n generalizing q r with
  | zero =>
    refine iff_of_false (List.not_mem_nil) ?_
    rintro ⟨hne,hlen,-⟩
    exact hne (List.eq_nil_of_length_eq_zero (by omega))
  | succ n ih =>
    rw [listing_succ]
    constructor
    · rintro ⟨c,hc,rfl | ⟨x,hx,rfl⟩⟩
      · exact ⟨by simp,by simp,hc⟩
      · obtain ⟨-,hlen,hn⟩ := ih.mp hx
        exact ⟨by simp,by simpa using hlen,by simpa using hn⟩
    · rintro ⟨hne,hlen,hn⟩
      obtain ⟨c,x,rfl⟩ := List.exists_cons_of_ne_nil hne
      obtain ⟨nd,hnd⟩ := Option.ne_none_iff_exists'.mp hn
      have hsplit : q ++ c :: x = q ++ [c] ++ x := by simp
      refine ⟨c,node_above hnd (hsplit ▸ List.prefix_append _ _),?_⟩
      by_cases hx : x = []
      · exact .inl (by rw [hx])
      · exact .inr ⟨x,ih.mpr ⟨hx,by simpa using hlen,hsplit ▸ hn⟩,rfl⟩

theorem nodup_listing {n : Nat} : (t.listing n q).Nodup := by
  induction n generalizing q with
  | zero => exact List.nodup_nil
  | succ n ih =>
    refine List.nodup_flatMap.mpr ⟨fun c _ => ?_,nodup_children.imp fun {a b} hab => ?_⟩
    · refine List.nodup_cons.mpr ⟨?_,ih.map fun _ _ h => (List.cons.inj h).2⟩
      intro hm
      obtain ⟨x,hx,he⟩ := List.mem_map.mp hm
      exact (mem_listing.mp hx).1 (List.cons.inj he).2
    · have head {e : Name} {x : Place}
          (hx : x ∈ [e] :: (t.listing n (q ++ [e])).map fun r => e :: r) : x.head? = some e := by
        rcases List.mem_cons.mp hx with rfl | hx
        · rfl
        · obtain ⟨y,-,rfl⟩ := List.mem_map.mp hx
          rfl
      intro x hx hx'
      exact hab (Option.some.inj ((head hx).symm.trans (head hx')))

def Downward (seen : Place → Prop) : List Place → Prop
  | [] => True
  | r :: rs => seen r.dropLast ∧ Downward (fun x => seen x ∨ x = r) rs

theorem downward_mono {seen seen' : Place → Prop} (h : ∀ x, seen x → seen' x) {rs : List Place}
    (hd : Downward seen rs) : Downward seen' rs := by
  induction rs generalizing seen seen' with
  | nil => trivial
  | cons r rs ih => exact ⟨h _ hd.1,ih (fun x hx => hx.imp_left (h x)) hd.2⟩

theorem downward_append {seen : Place → Prop} {xs ys : List Place} (hx : Downward seen xs)
    (hy : Downward seen ys) : Downward seen (xs ++ ys) := by
  induction xs generalizing seen with
  | nil => exact hy
  | cons r xs ih => exact ⟨hx.1,ih hx.2 (downward_mono (fun _ => .inl) hy)⟩

theorem downward_map (seen : Place → Prop) {seen' : Place → Prop} (h : ∀ x, seen x → seen' (c :: x)) {rs : List Place}
    (hne : ∀ r ∈ rs, r ≠ []) (hd : Downward seen rs) :
    Downward seen' (rs.map fun r => c :: r) := by
  induction rs generalizing seen seen' with
  | nil => trivial
  | cons r rs ih =>
    refine ⟨?_,ih _ ?_ (fun x hx => hne x (List.mem_cons_of_mem r hx)) hd.2⟩
    · rw [List.dropLast_cons_of_ne_nil (hne r List.mem_cons_self)]
      exact h _ hd.1
    · exact fun x hx => hx.imp (h x) (congrArg fun y => c :: y)

theorem downward_listing {n : Nat} {seen : Place → Prop} (h : seen []) :
    Downward seen (t.listing n q) := by
  induction n generalizing q seen with
  | zero => trivial
  | succ n ih =>
    rw [listing]
    generalize t.children q = cs
    induction cs with
    | nil => trivial
    | cons c cs hcs =>
      rw [List.flatMap_cons]
      refine downward_append ⟨h,?_⟩ hcs
      refine downward_map (fun x => x = []) ?_ (fun r hr => (mem_listing.mp hr).1) (ih rfl)
      rintro x rfl
      exact .inr rfl

-- a directory S with the path s, below which names are names and only directories hold entries
structure Below (t : FileTree δ) (s S : Place) : Prop where
  path : ValidPlace s
  leads : t.walk osLinkLimit [] s = .ok S
  top : t.node S = some .dir
  proper : ∀ r c, t.node (S ++ r ++ [c]) ≠ none → t.node (S ++ r) = some .dir
  names : ∀ r, t.node (S ++ r) ≠ none → ValidPlace r

namespace Below

variable {s S : Place} {nd : Node δ} (h : Below t s S)

include h

theorem valid (hn : t.node (S ++ r) = some nd) : ValidPlace (s ++ r) :=
  ValidPlace.append.mpr ⟨h.path,h.names r (by simp [hn])⟩

theorem name (hn : t.node (S ++ r ++ [c]) = some nd) : ValidName c := by
  have hp := h.names (r ++ [c]) (by rw [← List.append_assoc,hn]; simp)
  exact hp c (by simp)

theorem parent (hn : t.node (S ++ r ++ [c]) = some nd) : t.node (S ++ r) = some .dir :=
  h.proper r c (by rw [hn]; nofun)

theorem put {nd' : Node δ} (hdir : t.node (S ++ r) = some .dir) (hfree : t.node (S ++ r ++ [c]) = none)
    (hc : ValidName c) : Below (t.put (S ++ r ++ [c]) nd') s S := by
  have hext : Extends t (t.put (S ++ r ++ [c]) nd') := extends_put hfree
  have hold {x : Place} (hx : x ≠ r ++ [c]) : (t.put (S ++ r ++ [c]) nd').node (S ++ x) = t.node (S ++ x) :=
    node_put_other hfree fun he => hx (List.append_cancel_left (he.trans (List.append_assoc S r [c])))
  refine ⟨h.path,walk_extends hext h.leads,hext _ _ h.top,?_,?_⟩
  · intro x e hn
    by_cases hx : x ++ [e] = r ++ [c]
    · obtain ⟨rfl,-⟩ := List.append_inj' hx rfl
      exact hext _ _ hdir
    · have hkept := hold hx
      rw [← List.append_assoc] at hkept
      exact hext _ _ (h.proper x e (hkept ▸ hn))
  · intro x hn
    by_cases hx : x = r ++ [c]
    · rw [hx]
      exact ValidPlace.append.mpr ⟨h.names r (by rw [hdir]; nofun),ValidPlace.cons.mpr ⟨hc,validPlace_nil⟩⟩
    · rw [hold hx] at hn
      exact h.names x hn

theorem walk (hr : t.node (S ++ r) = some .dir) : t.walk osLinkLimit [] (s ++ r) = .ok (S ++ r) := by
  induction r using List.reverseRecOn with
  | nil => simpa using h.leads
  | append_singleton r c ih =>
    rw [← List.append_assoc,← List.append_assoc] at *
    have hdir := h.parent hr
    exact (walk_last (ValidName.plain (h.name hr)) (ih hdir) hdir).2 .dir hr fun _ => by simp

end Below

end FileTree

open FileTree

section Found

variable {d : Disk} {s S r : Place} {c : Name} {nd : Node Nat}

theorem view_dir {q : Place} : d.view q = some .dir ↔ d.tree.node q = some .dir := by
  unfold Disk.view
  cases d.tree.node q with
  | none => simp
  | some nd => cases nd <;> simp [Node.map]

theorem below_folder (h : Below d.tree s S) (hr : d.tree.node (S ++ r) = some .dir) :
    d.found (absText (s ++ r)) = .ok (S ++ r,.dir) :=
  Disk.found_ok.mpr ⟨by rw [Disk.resolved_absText (h.valid hr),h.walk hr]; rfl,hr⟩

theorem below_entry (h : Below d.tree s S) (hr : d.tree.node (S ++ r) = some .dir) (hc : ValidName c) :
    d.tree.entryAt (absText (s ++ r ++ [c])) = some ⟨S ++ r,c⟩ := by
  have hq : ValidPlace (s ++ r ++ [c]) :=
    ValidPlace.append.mpr ⟨h.valid hr,ValidPlace.cons.mpr ⟨hc,validPlace_nil⟩⟩
  exact (Disk.entryAt_some_iff hq).mpr ⟨h.walk hr,rfl⟩

theorem below_named (h : Below d.tree s S) (hn : d.tree.node (S ++ r ++ [c]) = some nd) :
    d.named (absText (s ++ r ++ [c])) = .ok (⟨S ++ r,c⟩,nd) := by
  have hdir := h.parent hn
  exact Disk.named_ok.mpr ⟨below_entry h hdir (h.name hn),dirAt_iff.mpr hdir,hn⟩

end Found

section Walked

variable {ε α σ : Type} {d : Disk}

theorem eachName_eval {f : List α → Name × Kind → Calls (List α × Option (Flow ε))}
    {g : Name × Kind → List α} {names : List (Name × Kind)}
    (h : ∀ s, ∀ x ∈ names, (f s x).eval Disk.act d = (d,(s ++ g x,none))) (s : List α) :
    (eachName f s names).eval Disk.act d = (d,(s ++ names.flatMap g,none)) := by
  induction names generalizing s with
  | nil => simp [eachName]
  | cons x xs ih =>
    unfold eachName
    rw [act_after (h s x List.mem_cons_self)]
    show ((eachName f (s ++ g x) xs).eval Disk.act d) = _
    rw [ih (fun s y hy => h s y (List.mem_cons_of_mem x hy)),List.flatMap_cons,List.append_assoc]

theorem listed_names (q : Place) :
    ((d.tree.children q).filterMap fun c => (d.tree.node (q ++ [c])).map fun nd => (c,kindOf nd)).map
      Prod.fst = d.tree.children q := by
  rw [List.map_filterMap]
  refine (List.filterMap_congr fun c hc => ?_).trans List.filterMap_some
  obtain ⟨nd,hn⟩ := Option.ne_none_iff_exists'.mp (mem_children.mp hc)
  simp [hn]

variable {visit : List α → Text → Kind → Calls (List α × Option (Flow ε))}
  (unread : SysErr → Option (Flow ε)) (entry : Place → List α) {s S : Place}

theorem walkFrom_folder {n : Nat} {p : Text} {names : List (Name × Kind)} {here : List α}
    {below : List α × Option (Flow ε)} {seen : List α}
    (hhere : (visit seen p .dir).eval Disk.act d = (d,(here,none))) (hnames : d.readDir p = .ok names)
    (hbelow : (eachName (fun s x => Os.walkFrom visit unread n s (joinPath p x.1) x.2) here names).eval
      Disk.act d = (d,below)) :
    (Os.walkFrom visit unread (n + 1) seen p .dir).eval Disk.act d = (d,below) := by
  unfold Os.walkFrom
  rw [act_after hhere]
  show ((call (.readDir p) >>= _).eval Disk.act d) = _
  rw [act_call]
  simp only [Disk.run,hnames]
  exact hbelow

theorem walkFrom_eval (h : Below d.tree s S)
    (hvisit : ∀ seen r nd, d.tree.node (S ++ r) = some nd →
      (visit seen (absText (s ++ r)) (kindOf nd)).eval Disk.act d = (d,(seen ++ entry r,none)))
    {n : Nat} (seen : List α) (r : Place) (nd : Node Nat) (hn : d.tree.node (S ++ r) = some nd)
    (hdepth : ∀ x, d.tree.node (S ++ r ++ x) ≠ none → x.length < n) :
    (Os.walkFrom visit unread n seen (absText (s ++ r)) (kindOf nd)).eval Disk.act d =
      (d,(seen ++ (entry r ++ (d.tree.listing n (S ++ r)).flatMap fun x => entry (r ++ x)),none)) := by
  induction n generalizing r nd seen with
  | zero =>
    have hlt := hdepth [] (by simp [hn])
    omega
  | succ n ih =>
    have hchild : ∀ c ∈ d.tree.children (S ++ r), nd = .dir := by
      intro c hc
      have hdir := h.proper r c (mem_children.mp hc)
      exact Option.some.inj (hn.symm.trans hdir)
    by_cases hk : nd = .dir
    · subst hk
      have hread : d.readDir (absText (s ++ r)) = .ok ((d.tree.children (S ++ r)).filterMap fun c =>
          (d.tree.node (S ++ r ++ [c])).map fun nd => (c,kindOf nd)) := by
        rw [Disk.readDir,below_folder h hn]
      have hbelow : ∀ seen, ∀ x ∈ (d.tree.children (S ++ r)).filterMap fun c =>
            (d.tree.node (S ++ r ++ [c])).map fun nd => (c,kindOf nd),
          (Os.walkFrom visit unread n seen (joinPath (absText (s ++ r)) x.1) x.2).eval Disk.act d =
            (d,(seen ++ (entry (r ++ [x.1]) ++ (d.tree.listing n (S ++ r ++ [x.1])).flatMap fun y =>
              entry (r ++ [x.1] ++ y)),none)) := by
        intro seen x hx
        obtain ⟨c,hc,he⟩ := List.mem_filterMap.mp hx
        obtain ⟨nd,hnd,rfl⟩ := Option.map_eq_some_iff.mp he
        have hplace : S ++ r ++ [c] = S ++ (r ++ [c]) := List.append_assoc S r [c]
        rw [joinPath_name (h.valid hn) (h.name hnd),List.append_assoc s r [c],hplace]
        refine ih seen (r ++ [c]) nd (hplace ▸ hnd) fun y hy => ?_
        have hlt := hdepth (c :: y) (by simpa using hy)
        simpa using hlt
      rw [kindOf,walkFrom_folder unread (hvisit seen r .dir hn) hread (eachName_eval hbelow (seen ++ entry r))]
      rw [← List.flatMap_map Prod.fst fun c => entry (r ++ [c]) ++
        (d.tree.listing n (S ++ r ++ [c])).flatMap fun y => entry (r ++ [c] ++ y)]
      rw [listed_names,listing,List.flatMap_assoc]
      simp [List.flatMap_map]
    · have hnone : d.tree.children (S ++ r) = [] :=
        List.eq_nil_iff_forall_not_mem.mpr fun c hc => hk (hchild c hc)
      have hkind : kindOf nd ≠ .dir := by cases nd <;> simp_all [kindOf]
      unfold Os.walkFrom
      rw [act_after (hvisit seen r nd hn)]
      simp [hkind,listing,hnone]

end Walked

section Made

variable {d : Disk} {dd D r : Place} {c : Name} (h : Below d.tree dd D)
  (hdir : d.tree.node (D ++ r) = some .dir) (hfree : d.tree.node (D ++ r ++ [c]) = none)
  (hc : ValidName c)

include h hdir

theorem mkdirAll_there : (Os.mkdirAll (absText (dd ++ r))).eval Disk.act d = (d,.ok ()) := by
  have hfolder : Folder d (absText (dd ++ r)) := folder_iff.mpr ⟨D ++ r,below_folder h hdir⟩
  rw [Os.mkdirAll,components_absText (h.valid hdir)]
  exact (mkdirAllFrom_folder (P := fun _ => True) _ (by rwa [List.reverse_reverse])).1

include hc in
theorem valid_below : ValidPlace (dd ++ r ++ [c]) :=
  ValidPlace.append.mpr ⟨h.valid hdir,ValidPlace.cons.mpr ⟨hc,validPlace_nil⟩⟩

include hfree hc

theorem vacant_below : d.vacantEntry (absText (dd ++ r ++ [c])) = .ok ⟨D ++ r,c⟩ :=
  Disk.vacantEntry_ok.mpr ⟨below_entry h hdir hc,Disk.vacant_iff.mpr ⟨hdir,hfree⟩⟩

theorem mkdirAll_made : (Os.mkdirAll (absText (dd ++ r ++ [c]))).eval Disk.act d =
    (d.enter ⟨D ++ r,c⟩ .dir,.ok ()) := by
  have hq := valid_below h hdir hc
  have hvacant := vacant_below h hdir hfree hc
  have hfolder : Folder d (absText (dd ++ r)) := folder_iff.mpr ⟨D ++ r,below_folder h hdir⟩
  rw [Os.mkdirAll,components_absText hq,List.reverse_append]
  rcases mkdirAllFrom_below (P := fun _ => True) hq hfolder with ⟨d',hready,heval,-⟩ | ⟨hno,-⟩
  · cases hready with
    | found hf => exact absurd hf (vacant_not_folder hq hvacant)
    | made e hv =>
      obtain rfl := Except.ok.inj (hvacant.symm.trans hv)
      exact heval
  · exact absurd (.made _ hvacant) (hno _)

end Made

end Posix
