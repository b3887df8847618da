import ServerHub.Backups.RoundTrip

namespace Backups.Snapshot

open Posix Posix.FileTree

-- how os.Open and reading a regular file to its end go
inductive Access where
  | whole
  | sealed
  | broken (n : Nat)
deriving DecidableEq

inductive Content where
  | dir
  | file (data : Bytes) (access : Access)
  | link (target : Option Text)
  | special
deriving DecidableEq

-- a tree as a walk that changes nothing meets it: whether d.Info answers for an entry, and whether
-- os.ReadDir also reports an error with the entries of a directory it returns
mutual
inductive Node where
  | leaf (info : Bool) (content : Content)
  | dir (info : Bool) (readErr : Bool) (children : Forest)
inductive Forest where
  | nil
  | cons (name : Name) (node : Node) (rest : Forest)
end

-- the entries newest first, and how many bytes the newest one still lacks
structure TarWriter where
  entries : List TarEntry
  pending : Nat

namespace TarWriter

def writeHeader (tw : TarWriter) (hdr : Header) : Except Failure TarWriter :=
  if 0 < tw.pending then .error .stream else .ok ⟨⟨hdr,[],false⟩ :: tw.entries,hdr.size⟩

def write (tw : TarWriter) (data : Bytes) : Except Failure TarWriter :=
  match tw.entries with
  | [] => .error .stream
  | e :: older =>
      if tw.pending < data.length then .error .stream
      else .ok ⟨{ e with data := e.data ++ data } :: older,tw.pending - data.length⟩

def close (tw : TarWriter) : Except Failure (List TarEntry) :=
  if 0 < tw.pending then .error .stream else .ok tw.entries.reverse

end TarWriter

structure Item where
  rel : Place
  info : Bool
  content : Content
deriving DecidableEq

def fileHeader (rel : Place) : Content → Text → Header
  | .dir, _ => ⟨relText rel,.dir,[],0⟩
  | .file data _, _ => ⟨relText rel,.reg,[],data.length⟩
  | .link _, target => ⟨relText rel,.symlink,target,0⟩
  | .special, _ => ⟨relText rel,.other,[],0⟩

def copyFile (tw : TarWriter) (data : Bytes) : Access → Except Failure TarWriter
  | .sealed => .ok tw
  | .whole => tw.write data
  | .broken n => do
      let _ ← tw.write (data.take n)
      .error .stream

def visit (err : Bool) (tw : TarWriter) (x : Item) : Except Failure TarWriter :=
  if err then .ok tw
  else if x.rel = [] then .ok tw
  else if !x.info then .ok tw
  else match x.content with
  | .special => .ok tw
  | .link none => .ok tw
  | .link (some target) => tw.writeHeader (fileHeader x.rel x.content target)
  | .dir => tw.writeHeader (fileHeader x.rel x.content [])
  | .file data access => do
      let tw ← tw.writeHeader (fileHeader x.rel x.content [])
      copyFile tw data access

mutual
def walkNode (rel : Place) (tw : TarWriter) : Node → Except Failure TarWriter
  | .leaf info content => visit false tw ⟨rel,info,content⟩
  | .dir info readErr children => do
      let tw ← visit false tw ⟨rel,info,.dir⟩
      let tw ← if readErr then visit true tw ⟨rel,info,.dir⟩ else .ok tw
      walkForest rel tw children
def walkForest (rel : Place) (tw : TarWriter) : Forest → Except Failure TarWriter
  | .nil => .ok tw
  | .cons name node rest => do
      let tw ← walkNode (rel ++ [name]) tw node
      walkForest rel tw rest
end

-- none: os.Lstat fails for the source directory
def walkDir (root : Option Node) (tw : TarWriter) : Except Failure TarWriter :=
  match root with
  | none => visit true tw ⟨[],false,.special⟩
  | some node => walkNode [] tw node

def writeTarGz (root : Option Node) : Except Failure (List TarEntry × Nat) := do
  let tw ← walkDir root ⟨[],0⟩
  let entries ← tw.close
  return (entries,(entries.map fun e => e.data.length).sum)

section Listing

mutual
def itemsOf (rel : Place) : Node → List Item
  | .leaf info content => [⟨rel,info,content⟩]
  | .dir info _ children => ⟨rel,info,.dir⟩ :: itemsBelow rel children
def itemsBelow (rel : Place) : Forest → List Item
  | .nil => []
  | .cons name node rest => itemsOf (rel ++ [name]) node ++ itemsBelow rel rest
end

def listing (root : Option Node) : List Item := (root.map (itemsOf [])).getD []

mutual
theorem walkNode_eq (rel : Place) (tw : TarWriter) : (nd : Node) →
    walkNode rel tw nd = (itemsOf rel nd).foldlM (visit false) tw
  | .leaf info content => by
    rw [walkNode,itemsOf,List.foldlM_cons]
    exact (bind_pure _).symm
  | .dir info readErr children => by
    rw [walkNode,itemsOf,List.foldlM_cons]
    congr 1
    funext tw
    rw [← walkForest_eq rel tw children]
    cases readErr <;> rfl
theorem walkForest_eq (rel : Place) (tw : TarWriter) : (f : Forest) →
    walkForest rel tw f = (itemsBelow rel f).foldlM (visit false) tw
  | .nil => rfl
  | .cons name node rest => by
    rw [walkForest,itemsBelow,List.foldlM_append,walkNode_eq (rel ++ [name]) tw node]
    congr 1
    funext tw
    exact walkForest_eq rel tw rest
end

theorem walkDir_eq (root : Option Node) (tw : TarWriter) :
    walkDir root tw = (listing root).foldlM (visit false) tw := by
  cases root with
  | none => rfl
  | some node => exact walkNode_eq [] tw node

end Listing

section Writing

variable {x : Item} {xs : List Item} {tw : TarWriter} {es : List TarEntry}

def Item.entries (x : Item) : List TarEntry :=
  if x.rel = [] ∨ x.info = false then []
  else match x.content with
  | .special | .link none => []
  | .dir => [entryOf x.rel .dir]
  | .file data _ => [entryOf x.rel (.file data)]
  | .link (some target) => [entryOf x.rel (.link target)]

def Item.Readable (x : Item) : Prop :=
  x.rel ≠ [] ∧ x.info = true ∧ match x.content with
  | .special => False
  | .dir => True
  | .file _ access => access = .whole
  | .link target => target ≠ none

-- a regular file that d.Info answers for can be read to its end, or it is empty and cannot be opened
def Item.Spared (x : Item) : Prop :=
  x.rel ≠ [] → x.info = true → ∀ data access, x.content = .file data access →
    access = .whole ∨ access = .sealed ∧ data = []

theorem visit_spared (h : x.Spared) :
    visit false ⟨es,0⟩ x = .ok ⟨x.entries.reverse ++ es,0⟩ := by
  obtain ⟨rel,info,content⟩ := x
  unfold visit Item.entries
  by_cases hrel : rel = []
  · simp [hrel]
  cases info with
  | false => simp [hrel]
  | true =>
    cases content with
    | file data access =>
      rcases h hrel rfl data access rfl with rfl | ⟨rfl,rfl⟩
      · simp [hrel,TarWriter.writeHeader,copyFile,TarWriter.write,fileHeader,entryOf,bind,Except.bind]
      · simp [hrel,TarWriter.writeHeader,copyFile,fileHeader,entryOf,bind,Except.bind]
    | link target => cases target <;> simp [hrel,TarWriter.writeHeader,fileHeader,entryOf]
    | _ => simp [hrel,TarWriter.writeHeader,fileHeader,entryOf]

theorem visit_spoiled (h : ¬x.Spared) :
    visit false ⟨es,0⟩ x = .error .stream ∨
      ∃ tw, visit false ⟨es,0⟩ x = .ok tw ∧ 0 < tw.pending := by
  obtain ⟨rel,info,content⟩ := x
  unfold Item.Spared at h
  simp only [Classical.not_imp,not_forall,not_or,not_and] at h
  obtain ⟨hrel,rfl,data,access,rfl,hwhole,hsealed⟩ := h
  cases access with
  | whole => exact absurd rfl hwhole
  | sealed =>
    refine .inr ⟨⟨⟨⟨relText rel,.reg,[],data.length⟩,[],false⟩ :: es,data.length⟩,?_,?_⟩
    · simp [visit,show rel ≠ [] from hrel,TarWriter.writeHeader,copyFile,fileHeader,bind,Except.bind]
    · exact List.length_pos_iff.mpr (hsealed rfl)
  | broken n =>
    refine .inl ?_
    simp [visit,show rel ≠ [] from hrel,TarWriter.writeHeader,copyFile,TarWriter.write,fileHeader,
      bind,Except.bind]

theorem visit_pending (h : 0 < tw.pending) (x : Item) :
    visit false tw x = .ok tw ∨ visit false tw x = .error .stream := by
  obtain ⟨rel,info,content⟩ := x
  unfold visit
  by_cases hrel : rel = []
  · simp [hrel]
  cases info with
  | false => simp [hrel]
  | true =>
    cases content with
    | link target => cases target <;> simp [hrel,TarWriter.writeHeader,h]
    | _ => simp [hrel,TarWriter.writeHeader,h,bind,Except.bind]

theorem pending_fails (h : 0 < tw.pending) :
    (xs.foldlM (visit false) tw >>= TarWriter.close) = .error .stream := by
  induction xs with
  | nil =>
    show tw.close = _
    rw [TarWriter.close,if_pos h]
  | cons x xs ih =>
    rw [List.foldlM_cons]
    rcases visit_pending h x with hv | hv
    · rw [hv]
      exact ih
    · rw [hv]
      rfl

theorem walk_spared (h : ∀ x ∈ xs, x.Spared) : xs.foldlM (visit false) ⟨es,0⟩ =
    .ok ⟨(xs.flatMap Item.entries).reverse ++ es,0⟩ := by
  induction xs generalizing es with
  | nil => rfl
  | cons x xs ih =>
    rw [List.foldlM_cons,visit_spared (h x List.mem_cons_self)]
    show xs.foldlM (visit false) _ = _
    rw [ih fun y hy => h y (List.mem_cons_of_mem x hy),List.flatMap_cons,List.reverse_append,
      List.append_assoc]

theorem walk_spoiled (h : ¬∀ x ∈ xs, x.Spared) :
    (xs.foldlM (visit false) ⟨es,0⟩ >>= TarWriter.close) = .error .stream := by
  induction xs generalizing es with
  | nil => exact absurd (fun x hx => nomatch hx) h
  | cons x xs ih =>
    rw [List.foldlM_cons]
    by_cases hx : x.Spared
    · rw [visit_spared hx]
      exact ih fun hall => h (List.forall_mem_cons.mpr ⟨hx,hall⟩)
    · rcases visit_spoiled hx with hv | ⟨tw,hv,hpending⟩
      · rw [hv]
        rfl
      · rw [hv]
        exact pending_fails hpending

end Writing

section Claim

variable {root : Option Node}

theorem writeTarGz_spared (h : ∀ x ∈ listing root, x.Spared) : writeTarGz root =
    .ok ((listing root).flatMap Item.entries,
      (((listing root).flatMap Item.entries).map fun e => e.data.length).sum) := by
  rw [writeTarGz,walkDir_eq,walk_spared h]
  have hclose : (TarWriter.mk (((listing root).flatMap Item.entries).reverse ++ []) 0).close =
      .ok ((listing root).flatMap Item.entries) := by
    simp [TarWriter.close]
  simp only [Bind.bind,Except.bind]
  rw [hclose]
  rfl

theorem writeTarGz_spoiled (h : ¬∀ x ∈ listing root, x.Spared) :
    writeTarGz root = .error .stream := by
  rw [writeTarGz,walkDir_eq,← bind_assoc,walk_spoiled h]
  rfl

theorem entries_readable {x : Item} (h : x.Spared) {e : TarEntry} (he : e ∈ x.entries)
    (hdata : e.data ≠ []) : x.Readable := by
  obtain ⟨rel,info,content⟩ := x
  unfold Item.entries at he
  split at he
  · cases he
  rename_i hseen
  rw [not_or,Bool.not_eq_false] at hseen
  refine ⟨hseen.1,hseen.2,?_⟩
  cases content with
  | special => cases he
  | dir => trivial
  | file data access =>
    obtain rfl := List.mem_singleton.mp he
    exact (h hseen.1 hseen.2 data access rfl).resolve_right fun hs => hdata hs.2
  | link target =>
    cases target with
    | none => cases he
    | some t => exact fun hn => nomatch hn

theorem readable_entry {x : Item} (h : x.Readable) : ∃ e, x.entries = [e] := by
  obtain ⟨rel,info,content⟩ := x
  obtain ⟨hrel,hinfo,hcontent⟩ := h
  unfold Item.entries
  rw [if_neg (not_or.mpr ⟨hrel,by rw [hinfo]; exact Bool.noConfusion⟩)]
  cases content with
  | special => exact hcontent.elim
  | link target =>
    cases target with
    | none => exact absurd rfl hcontent
    | some t => exact ⟨_,rfl⟩
  | _ => exact ⟨_,rfl⟩

-- no error, every entry that can be read is in the archive with its data, and no other data are
def Complete (root : Option Node) : Prop :=
  ∃ entries total, writeTarGz root = .ok (entries,total) ∧
    (∀ x ∈ listing root, x.Readable → ∃ e, x.entries = [e] ∧ e ∈ entries) ∧
      ∀ e ∈ entries, e.data ≠ [] → ∃ x ∈ listing root, x.Readable ∧ e ∈ x.entries

theorem writeTarGz_complete_iff (root : Option Node) :
    Complete root ↔ ∀ x ∈ listing root, x.Spared := by
  constructor
  · rintro ⟨entries,total,hok,-⟩
    by_contra h
    rw [writeTarGz_spoiled h] at hok
    cases hok
  · intro h
    refine ⟨_,_,writeTarGz_spared h,fun x hx hread => ?_,fun e he hdata => ?_⟩
    · obtain ⟨e,he⟩ := readable_entry hread
      exact ⟨e,he,List.mem_flatMap.mpr ⟨x,hx,he ▸ List.mem_singleton_self e⟩⟩
    · obtain ⟨x,hx,hex⟩ := List.mem_flatMap.mp he
      exact ⟨x,hx,entries_readable (h x hx) hex hdata,hex⟩

def sealedTree : Node :=
  .dir true false (.cons ['a'] (.leaf true (.file [1,2,3] .sealed))
    (.cons ['b'] (.leaf true (.file [4] .whole)) .nil))

theorem sealed_file_spoils : writeTarGz (some sealedTree) = .error .stream ∧
    ¬Complete (some sealedTree) := by
  refine ⟨rfl,fun h => ?_⟩
  obtain ⟨entries,total,hok,-⟩ := h
  cases hok

end Claim

section Disk

variable {d : Disk} {s S r : Place}

def itemOf (d : Disk) (rel q : Place) : Item :=
  match d.view q with
  | none => ⟨rel,false,.special⟩
  | some .dir => ⟨rel,true,.dir⟩
  | some (.file data) => ⟨rel,true,.file data .whole⟩
  | some (.link target) => ⟨rel,true,.link (some target)⟩

def nodeOf (d : Disk) : Nat → Place → Node
  | 0, q => .leaf (itemOf d [] q).info (itemOf d [] q).content
  | n + 1, q =>
      if d.view q = some .dir then
        .dir true false ((d.tree.children q).foldr (fun c f => .cons c (nodeOf d n (q ++ [c])) f) .nil)
      else .leaf (itemOf d [] q).info (itemOf d [] q).content

theorem itemOf_rel (rel q : Place) :
    Item.mk rel (itemOf d [] q).info (itemOf d [] q).content = itemOf d rel q := by
  unfold itemOf
  split <;> rfl

theorem itemsBelow_foldr (rel : Place) (f : Name → Node) (cs : List Name) :
    itemsBelow rel (cs.foldr (fun c g => .cons c (f c) g) .nil) =
      cs.flatMap fun c => itemsOf (rel ++ [c]) (f c) := by
  induction cs with
  | nil => rfl
  | cons c cs ih =>
    rw [List.foldr_cons,itemsBelow,ih,List.flatMap_cons]

theorem items_nodeOf (h : Below d.tree s S) (n : Nat) (rel : Place) :
    itemsOf rel (nodeOf d n (S ++ r)) = itemOf d rel (S ++ r) ::
      (d.tree.listing n (S ++ r)).map fun x => itemOf d (rel ++ x) (S ++ r ++ x) := by
  induction n generalizing r rel with
  | zero =>
    rw [nodeOf,itemsOf,itemOf_rel]
    rfl
  | succ n ih =>
    rw [nodeOf]
    split
    · rename_i hdir
      rw [itemsOf,itemsBelow_foldr,FileTree.listing,List.map_flatMap]
      have hself : itemOf d rel (S ++ r) = ⟨rel,true,.dir⟩ := by rw [itemOf,hdir]
      rw [hself]
      congr 1
      refine List.flatMap_congr fun c _ => ?_
      rw [List.append_assoc,ih,List.map_cons,List.map_map]
      simp only [Function.comp_def,List.append_assoc,List.singleton_append]
    · rename_i hdir
      have hnone : d.tree.listing (n + 1) (S ++ r) = [] := by
        refine List.eq_nil_iff_forall_not_mem.mpr fun x hx => ?_
        obtain ⟨c,hc,-⟩ := FileTree.listing_succ.mp hx
        exact hdir (view_dir.mpr (h.proper r c hc))
      rw [hnone,itemsOf,itemOf_rel]
      rfl

theorem entries_itemOf {x : Place} : (itemOf d x (S ++ x)).entries = entriesOf d S x := by
  unfold itemOf Item.entries entriesOf
  by_cases hx : x = []
  · simp only [hx]
    split <;> simp
  · cases hv : d.view (S ++ x) with
    | none => simp [hx]
    | some nd => cases nd <;> simp [hx]

theorem spared_itemOf {rel q : Place} : (itemOf d rel q).Spared := by
  intro _ _ data access hc
  unfold itemOf at hc
  split at hc <;> cases hc
  exact .inl rfl

theorem writeTarGz_nodeOf (h : Below d.tree s S) (n : Nat) : writeTarGz (some (nodeOf d n S)) =
    .ok (archived d S n,((archived d S n).map fun e => e.data.length).sum) := by
  have hitems := items_nodeOf (r := []) h n []
  rw [List.append_nil] at hitems
  have hlisting : listing (some (nodeOf d n S)) = itemOf d [] S ::
      (d.tree.listing n S).map fun x => itemOf d x (S ++ x) := hitems
  have hspared : ∀ x ∈ listing (some (nodeOf d n S)), x.Spared := by
    rw [hlisting]
    refine List.forall_mem_cons.mpr ⟨spared_itemOf,fun x hx => ?_⟩
    obtain ⟨r,-,rfl⟩ := List.mem_map.mp hx
    exact spared_itemOf
  have hentries : (listing (some (nodeOf d n S))).flatMap Item.entries = archived d S n := by
    have hroot : (itemOf d [] S).entries = [] := by
      unfold itemOf Item.entries
      split <;> simp
    rw [hlisting,List.flatMap_cons,hroot,List.nil_append,List.flatMap_map,archived]
    exact List.flatMap_congr fun x _ => entries_itemOf
  rw [writeTarGz_spared hspared,hentries]

end Disk

end Backups.Snapshot
