import ServerHub.Posix.Growth
import ServerHub.Transfer.Confinement

namespace Transfer

open Posix Posix.FileTree Interleave Interleave.Prog

-- none is nil; deep says that the walk was cut off at the bound on its depth
abbrev Halt := Option (Flow (Option AppError))

def Result.halt : Result → Halt
  | .ok _ => none
  | .error e => some (.failed e)

section Copying

-- whether the context has ended when the copy comes to a path
variable (ended : Text → Bool)

-- the copy of a directory fails at its first read
def copyFile (src dst : Text) : Calls Result := do
  match ← call (.openRead src) with
  | .error _ => return .error none
  | .ok opened =>
  match ← call (.createExcl dst) with
  | .error .exist => return .error (some alreadyExists)
  | .error _ => return .error none
  | .ok out =>
  match opened, ended dst with
  | some i, false =>
      let data ← call (.read i)
      call (.append out data)
      return .ok ()
  | _, _ =>
      let _ ← call (.remove dst)
      return .error none

-- the type of a link's directory entry is not that of a directory
def copyEntry (src dst : Text) (_ : Unit) (path : Text) (kind : Kind) : Calls (Unit × Halt) := do
  if ended path then return ((),some (.failed none))
  else
  match kind with
  | .link => return ((),none)
  | .dir =>
      match ← Os.mkdirAll (joinPath dst (relPath src path)) with
      | .error _ => return ((),some (.failed none))
      | .ok _ => return ((),none)
  | .file =>
      let r ← copyFile ended path (joinPath dst (relPath src path))
      return ((),r.halt)

def copyDir (depth : Nat) (src dst : Text) : Calls Halt := do
  let r ← Os.walkDir (copyEntry ended src dst) (fun _ => some (.failed none)) depth () src
  return r.2

def copyInto (depth : Nat) (kind : Kind) (src dst : Text) : Calls Halt := do
  if kind = .dir then copyDir ended depth src dst
  else
    let r ← copyFile ended src dst
    return r.halt

def copy (depth : Nat) (srcPath dstPath : Text) : Service Halt := do
  match rejectTrash srcPath with
  | .error e => return some (.failed (some e))
  | .ok _ =>
  match rejectTrash dstPath with
  | .error e => return some (.failed (some e))
  | .ok _ =>
  match ← resolve srcPath with
  | .error e => return some (.failed (some e))
  | .ok srcAbs =>
  match ← resolve dstPath with
  | .error e => return some (.failed (some e))
  | .ok dstAbs =>
  match ← sys (.stat srcAbs) with
  | .error _ => return some (.failed (some ⟨.fileNotFound,"source not found"⟩))
  | .ok info =>
  match ← sys (.stat dstAbs) with
  | .ok _ => return some (.failed (some alreadyExists))
  | .error _ => os (copyInto ended depth info.kind srcAbs dstAbs)

end Copying

def background (_ : Text) : Bool := false

theorem background_on (p : Text) : background p = false := rfl

structure Admitted (root : Text) (d : Disk) (srcPath dstPath src dst : Text) (info : Stat) : Prop where
  source : rejectTrash srcPath = .ok ()
  destination : rejectTrash dstPath = .ok ()
  srcAbs : resolveSafePath d.tree root srcPath = .ok src
  dstAbs : resolveSafePath d.tree root dstPath = .ok dst
  found : d.stat src = .ok info
  free : ∀ st, d.stat dst ≠ .ok st

theorem copy_admitted {root : Text} {d : Disk} {srcPath dstPath src dst : Text} {info : Stat}
    (ended : Text → Bool) (depth : Nat) (h : Admitted root d srcPath dstPath src dst info) :
    (copy ended depth srcPath dstPath).eval (step root) d =
      (copyInto ended depth info.kind src dst).eval Disk.act d := by
  unfold copy
  rw [h.source,h.destination]
  show (match resolveSafePath d.tree root srcPath with
    | .error e => (return some (.failed (some e)) : Service Halt)
    | .ok srcAbs => resolve dstPath >>= _).eval (step root) d = _
  rw [h.srcAbs]
  show (match resolveSafePath d.tree root dstPath with
    | .error e => (return some (.failed (some e)) : Service Halt)
    | .ok dstAbs => sys (.stat src) >>= _).eval (step root) d = _
  rw [h.dstAbs]
  show (match d.stat src with
    | .error _ => (return some (.failed (some ⟨.fileNotFound,"source not found"⟩)) : Service Halt)
    | .ok info => sys (.stat dst) >>= _).eval (step root) d = _
  rw [h.found]
  show (match d.stat dst with
    | .ok _ => (return some (.failed (some alreadyExists)) : Service Halt)
    | .error _ => os (copyInto ended depth info.kind src dst)).eval (step root) d = _
  cases hd : d.stat dst with
  | ok st => exact absurd hd (h.free st)
  | error e => exact eval_os _

section Files

variable {d d' : Disk} {src dst : Text} {x : Entry} {i : Nat} {ended : Text → Bool}

def duplicate (d : Disk) (x : Entry) (i : Nat) : Disk :=
  ((d.allocate x).run (.append d.next ((d.allocate x).bytes i))).disk

theorem copyFile_made (hopen : d.openRead src = .ok (some i)) (hv : d.vacantEntry dst = .ok x)
    (hended : ended dst = false) :
    (copyFile ended src dst).eval Disk.act d = (duplicate d x i,.ok ()) := by
  have hrun : d.run (.createExcl dst) = ⟨d.allocate x,.ok d.next,[.create x]⟩ := by
    simp [Disk.run,Disk.createExcl,hv]
  unfold copyFile
  rw [act_call]
  simp only [Disk.run,hopen]
  rw [act_call,hrun]
  simp only [hended]
  rfl

theorem copyFile_ok (h : (copyFile ended src dst).eval Disk.act d = (d',.ok ())) :
    ∃ i x, d.openRead src = .ok (some i) ∧ d.vacantEntry dst = .ok x ∧ d' = duplicate d x i := by
  unfold copyFile at h
  rw [act_call] at h
  cases hopen : d.openRead src with
  | error e =>
    simp only [Disk.run,hopen] at h
    cases h
  | ok opened =>
    simp only [Disk.run,hopen] at h
    rw [act_call] at h
    cases hv : d.vacantEntry dst with
    | error e =>
      have hrun : d.run (.createExcl dst) = d.failed e := by simp [Disk.run,Disk.createExcl,hv]
      rw [hrun] at h
      cases e <;> cases h
    | ok x =>
      have hrun : d.run (.createExcl dst) = ⟨d.allocate x,.ok d.next,[.create x]⟩ := by
        simp [Disk.run,Disk.createExcl,hv]
      rw [hrun] at h
      cases opened with
      | none => cases h
      | some i =>
        cases hended : ended dst with
        | true =>
          simp only [hended] at h
          cases h
        | false =>
          simp only [hended] at h
          exact ⟨i,x,rfl,rfl,(Prod.mk.inj h).1.symm⟩

section Entries

variable {path target : Text} {d₁ : Disk}

theorem copyEntry_ended {kind : Kind} (h : ended path = true) :
    (copyEntry ended src dst () path kind).eval Disk.act d = (d,(),some (.failed none)) := by
  unfold copyEntry
  rw [if_pos h]
  rfl

variable (h : ended path = false)

include h

theorem copyEntry_link : (copyEntry ended src dst () path .link).eval Disk.act d = (d,(),none) := by
  unfold copyEntry
  rw [if_neg (by simp [h])]
  rfl

variable (htarget : joinPath dst (relPath src path) = target)

include htarget

theorem copyEntry_dir (hmk : (Os.mkdirAll target).eval Disk.act d = (d₁,.ok ())) :
    (copyEntry ended src dst () path .dir).eval Disk.act d = (d₁,(),none) := by
  subst htarget
  unfold copyEntry
  rw [if_neg (by simp [h])]
  exact act_after hmk

theorem copyEntry_blocked {err : SysErr} (hmk : (Os.mkdirAll target).eval Disk.act d = (d₁,.error err)) :
    (copyEntry ended src dst () path .dir).eval Disk.act d = (d₁,(),some (.failed none)) := by
  subst htarget
  unfold copyEntry
  rw [if_neg (by simp [h])]
  exact act_after hmk

theorem copyEntry_file {res : Result} (hcopy : (copyFile ended path target).eval Disk.act d = (d₁,res)) :
    (copyEntry ended src dst () path .file).eval Disk.act d = (d₁,(),res.halt) := by
  subst htarget
  unfold copyEntry
  rw [if_neg (by simp [h])]
  exact act_after hcopy

end Entries

end Files

section Spiral

variable {d d' : Disk} {src dst path : Text} {n : Nat} {ended : Text → Bool}

-- the walk ends here: it was cut off, or an error came up
def Stops (r : Halt) : Prop := r = some .deep ∨ ∃ e, r = some (.failed e)

-- either that, or the walk goes on, and no link was made
def Goes (d d' : Disk) (r : Halt) : Prop := Stops r ∨ r = none ∧ Grown d.tree d'.tree

theorem copyFile_goes {r : Result}
    (h : (copyFile ended src dst).eval Disk.act d = (d',r)) : Goes d d' r.halt := by
  cases r with
  | error e => exact .inl (.inr ⟨e,rfl⟩)
  | ok u =>
    obtain ⟨i,x,-,hv,rfl⟩ := copyFile_ok h
    obtain ⟨hdir,hfree⟩ := Disk.vacant_iff.mp (Disk.vacantEntry_ok.mp hv).2
    refine .inr ⟨rfl,?_⟩
    exact grown_put (by simp [Entry.place]) (by rwa [Entry.place,List.dropLast_concat]) hfree nofun

theorem copyEntry_goes {kind : Kind} {r : Halt} (hdst : isAbs dst = true)
    (h : (copyEntry ended src dst () path kind).eval Disk.act d = (d',(),r)) : Goes d d' r := by
  have hfailed {e : Option AppError} : Goes d d' (some (.failed e)) := .inl (.inr ⟨e,rfl⟩)
  cases hended : ended path with
  | true =>
    rw [copyEntry_ended hended] at h
    obtain ⟨-,hr⟩ := Prod.mk.inj h
    exact (Prod.mk.inj hr).2 ▸ hfailed
  | false =>
    cases kind with
    | link =>
      rw [copyEntry_link hended] at h
      obtain ⟨rfl,hr⟩ := Prod.mk.inj h
      exact .inr ⟨(Prod.mk.inj hr).2.symm,grown_refl _⟩
    | dir =>
      obtain ⟨q,hq,htarget⟩ := joinPath_valid (b := relPath src path) hdst
      rcases hmk : (Os.mkdirAll (absText q)).eval Disk.act d with ⟨d₁,err | u⟩
      · rw [copyEntry_blocked hended htarget hmk] at h
        obtain ⟨-,hr⟩ := Prod.mk.inj h
        exact (Prod.mk.inj hr).2 ▸ hfailed
      · rw [copyEntry_dir hended htarget hmk] at h
        obtain ⟨rfl,hr⟩ := Prod.mk.inj h
        rw [Os.mkdirAll,components_absText hq] at hmk
        obtain ⟨D,-,hfounded⟩ := mkdirAll_founded hq hmk
        exact .inr ⟨(Prod.mk.inj hr).2.symm,hfounded.grown⟩
    | file =>
      rcases hcopy : (copyFile ended path (joinPath dst (relPath src path))).eval Disk.act d with ⟨d₁,res⟩
      rw [copyEntry_file hended rfl hcopy] at h
      obtain ⟨rfl,hr⟩ := Prod.mk.inj h
      exact (Prod.mk.inj hr).2 ▸ copyFile_goes hcopy

theorem Goes.trans {d₁ : Disk} {r : Halt} (h : Grown d.tree d₁.tree) (k : Goes d₁ d' r) :
    Goes d d' r := k.imp_right fun ⟨hr,hg⟩ => ⟨hr,h.trans hg⟩

section Names

variable {f : Unit → Name × Kind → Calls (Unit × Halt)} {x : Name × Kind} {names : List (Name × Kind)}
  {d₁ : Disk} {r : Halt}

theorem eachName_on (h : (f () x).eval Disk.act d = (d₁,(),none)) :
    (eachName f () (x :: names)).eval Disk.act d = (eachName f () names).eval Disk.act d₁ := by
  rw [eachName,act_after h]

theorem eachName_stop (h : (f () x).eval Disk.act d = (d₁,(),r)) (hr : Stops r) :
    (eachName f () (x :: names)).eval Disk.act d = (d₁,(),r) := by
  unfold eachName
  rw [act_after h]
  rcases hr with rfl | ⟨e,rfl⟩ <;> rfl

variable (hf : ∀ x d d' r, (f () x).eval Disk.act d = (d',(),r) → Goes d d' r)

include hf

theorem eachName_goes (h : (eachName f () names).eval Disk.act d = (d',(),r)) : Goes d d' r := by
  induction names generalizing d with
  | nil =>
    obtain ⟨rfl,hr⟩ := Prod.mk.inj h
    exact .inr ⟨(Prod.mk.inj hr).2.symm,grown_refl _⟩
  | cons x xs ih =>
    rcases hx : (f () x).eval Disk.act d with ⟨d₁,⟨⟩,r₁⟩
    rcases hf x d d₁ r₁ hx with hstop | ⟨rfl,hgrown⟩
    · rw [eachName_stop hx hstop] at h
      obtain ⟨-,hr⟩ := Prod.mk.inj h
      exact .inl ((Prod.mk.inj hr).2 ▸ hstop)
    · rw [eachName_on hx] at h
      exact (ih h).trans hgrown

theorem eachName_stops (hx : x ∈ names)
    (hstop : ∀ d₁ d₂ r, Grown d.tree d₁.tree → (f () x).eval Disk.act d₁ = (d₂,(),r) → Stops r)
    (h : (eachName f () names).eval Disk.act d = (d',(),r)) : Stops r := by
  induction names generalizing d with
  | nil => cases hx
  | cons y ys ih =>
    rcases hy : (f () y).eval Disk.act d with ⟨d₁,⟨⟩,r₁⟩
    have hend : Stops r₁ → Stops r := by
      intro hr₁
      rw [eachName_stop hy hr₁] at h
      obtain ⟨-,hr⟩ := Prod.mk.inj h
      exact (Prod.mk.inj hr).2 ▸ hr₁
    rcases List.mem_cons.mp hx with rfl | hx
    · exact hend (hstop d d₁ r₁ (grown_refl _) hy)
    · rcases hf y d d₁ r₁ hy with hr₁ | ⟨rfl,hgrown⟩
      · exact hend hr₁
      · rw [eachName_on hy] at h
        exact ih hx (fun d₂ d₃ r₂ hg => hstop d₂ d₃ r₂ (hgrown.trans hg)) h

end Names

def copyWalk (ended : Text → Bool) (src dst : Text) : Nat → Unit → Text → Kind → Calls (Unit × Halt) :=
  Os.walkFrom (copyEntry ended src dst) fun _ => some (.failed none)

section Walked

variable {d₁ : Disk} {r : Halt} {names : List (Name × Kind)} {kind : Kind}

theorem copyWalk_stop (hvisit : (copyEntry ended src dst () path kind).eval Disk.act d = (d₁,(),r))
    (hr : Stops r) : (copyWalk ended src dst (n + 1) () path kind).eval Disk.act d = (d₁,(),r) := by
  unfold copyWalk Os.walkFrom
  rw [act_after hvisit]
  rcases hr with rfl | ⟨e,rfl⟩ <;> rfl

theorem copyWalk_leaf (hvisit : (copyEntry ended src dst () path kind).eval Disk.act d = (d₁,(),none))
    (hk : kind ≠ .dir) : (copyWalk ended src dst (n + 1) () path kind).eval Disk.act d = (d₁,(),none) := by
  unfold copyWalk Os.walkFrom
  rw [act_after hvisit]
  show (if kind ≠ .dir then (return ((),none) : Calls (Unit × Halt)) else _).eval Disk.act d₁ = _
  rw [if_pos hk]
  rfl

theorem copyWalk_names (hvisit : (copyEntry ended src dst () path .dir).eval Disk.act d = (d₁,(),none))
    (hnames : d₁.readDir path = .ok names) :
    (copyWalk ended src dst (n + 1) () path .dir).eval Disk.act d =
      (eachName (fun s x => copyWalk ended src dst n s (joinPath path x.1) x.2) () names).eval
        Disk.act d₁ := by
  unfold copyWalk
  rw [Os.walkFrom,act_after hvisit]
  show ((call (.readDir path) >>= _).eval Disk.act d₁) = _
  rw [act_call]
  simp only [Disk.run,hnames]

theorem copyWalk_unread {err : SysErr}
    (hvisit : (copyEntry ended src dst () path .dir).eval Disk.act d = (d₁,(),none))
    (hnames : d₁.readDir path = .error err) :
    (copyWalk ended src dst (n + 1) () path .dir).eval Disk.act d = (d₁,(),some (.failed none)) := by
  unfold copyWalk
  rw [Os.walkFrom,act_after hvisit]
  show ((call (.readDir path) >>= _).eval Disk.act d₁) = _
  rw [act_call]
  simp only [Disk.run,hnames]
  rfl

theorem copyWalk_goes (hdst : isAbs dst = true)
    (h : (copyWalk ended src dst n () path kind).eval Disk.act d = (d',(),r)) : Goes d d' r := by
  induction n generalizing path kind d d' r with
  | zero =>
    obtain ⟨-,hr⟩ := Prod.mk.inj h
    exact .inl (.inl (Prod.mk.inj hr).2.symm)
  | succ n ih =>
    rcases hvisit : (copyEntry ended src dst () path kind).eval Disk.act d with ⟨d₁,⟨⟩,r₁⟩
    rcases copyEntry_goes hdst hvisit with hstop | ⟨rfl,hgrown⟩
    · rw [copyWalk_stop hvisit hstop] at h
      obtain ⟨-,hr⟩ := Prod.mk.inj h
      exact .inl ((Prod.mk.inj hr).2 ▸ hstop)
    · by_cases hk : kind = .dir
      · subst hk
        cases hnames : d₁.readDir path with
        | error err =>
          rw [copyWalk_unread hvisit hnames] at h
          obtain ⟨-,hr⟩ := Prod.mk.inj h
          exact .inl (.inr ⟨none,(Prod.mk.inj hr).2.symm⟩)
        | ok names =>
          rw [copyWalk_names hvisit hnames] at h
          exact (eachName_goes (fun x d d' r hx => ih hx) h).trans hgrown
      · rw [copyWalk_leaf hvisit hk] at h
        obtain ⟨rfl,hr⟩ := Prod.mk.inj h
        exact .inr ⟨(Prod.mk.inj hr).2.symm,hgrown⟩

end Walked

section Winding

variable {s S t w : Place} {j k : Nat}

-- the names that lead from a directory to its copy below it, over and over
def spiral (w : Place) (j : Nat) : Place := (List.range j).map fun i => w.getD (i % w.length) []

theorem spiral_succ : spiral w (j + 1) = spiral w j ++ [w.getD (j % w.length) []] := by
  simp [spiral,List.range_succ]

theorem spiral_once : spiral w w.length = w := by
  refine List.ext_getElem (by simp [spiral]) fun i hi hw => ?_
  simp [spiral,Nat.mod_eq_of_lt hw,List.getElem?_eq_getElem hw]

theorem spiral_add : spiral w (w.length + j) = w ++ spiral w j := by
  have honce := spiral_once (w := w)
  unfold spiral at honce ⊢
  rw [List.range_add,List.map_append,honce,List.map_map]
  simp [Function.comp_def]

theorem spiral_isPrefix (h : j ≤ k) : spiral w j <+: spiral w k := by
  induction h with
  | refl => exact List.prefix_refl _
  | step h ih =>
    rw [spiral_succ]
    exact ih.trans (List.prefix_append _ _)

theorem spiral_name (hw : ValidPlace w) (hne : w ≠ []) : ValidName (w.getD (j % w.length) []) := by
  have hlt := Nat.mod_lt j (List.length_pos_iff.mpr hne)
  rw [List.getD_eq_getElem?_getD,List.getElem?_eq_getElem hlt]
  exact hw _ (List.getElem_mem hlt)

theorem spiral_valid (hw : ValidPlace w) (hne : w ≠ []) : ValidPlace (spiral w j) := by
  induction j with
  | zero => exact validPlace_nil
  | succ j ih =>
    rw [spiral_succ]
    exact ValidPlace.append.mpr ⟨ih,ValidPlace.cons.mpr ⟨spiral_name hw hne,validPlace_nil⟩⟩

-- t leads into the directory S that s leads to, and the copy has come j names deep
structure Wound (d : Disk) (s S t w : Place) (j : Nat) : Prop where
  source : d.tree.walk osLinkLimit [] s = .ok S
  target : d.tree.walk osLinkLimit [] t = .ok (S ++ w)
  unlinked : Unlinked d.tree (S ++ w)
  base : d.tree.node (S ++ w) = some .dir
  there : Directory d.tree (S ++ spiral w j)

theorem Wound.grown (h : Wound d s S t w j) (hg : Grown d.tree d'.tree) : Wound d' s S t w j :=
  ⟨walk_extends hg.extends_ h.source,walk_extends hg.extends_ h.target,hg.unlinked h.unlinked,
    hg.extends_ _ _ h.base,hg.directory h.there⟩

variable (hs : ValidPlace s) (ht : ValidPlace t) (hw : ValidPlace w) (hne : w ≠ [])

include hw hne

theorem Wound.deeper (h : Wound d s S t w j) {P : Place}
    (hP : d'.found (absText (t ++ spiral w j)) = .ok (P,.dir)) (ht : ValidPlace t)
    (hg : Grown d.tree d'.tree) : Wound d' s S t w (j + 1) := by
  have h' := h.grown hg
  have hvalid := spiral_valid (j := j) hw hne
  have hwalk := walk_of_found (ValidPlace.append.mpr ⟨ht,hvalid⟩) hP
  obtain ⟨m,-,hm⟩ := walk_append_ok (spiral w j) h'.base h'.target
  have hdown : P = S ++ w ++ spiral w j := walk_unlinked h'.unlinked hvalid (hm.symm.trans hwalk)
  have hdir : Directory d'.tree (S ++ w ++ spiral w j) :=
    hdown ▸ walk_directory directory_nil hwalk (Disk.found_ok.mp hP).2
  refine ⟨h'.source,h'.target,h'.unlinked,h'.base,fun r hr => hdir r (hr.trans ?_)⟩
  rw [List.append_assoc,← spiral_add]
  have hpos := List.length_pos_iff.mpr hne
  exact (List.prefix_append_right_inj S).mpr (spiral_isPrefix (by omega))

omit hw in
theorem wound_begun (ht : ValidPlace t) (hsource : d.tree.walk osLinkLimit [] s = .ok S)
    (hfound : d'.found (absText t) = .ok (S ++ w,.dir))
    (hempty : ∀ c, d'.tree.node (S ++ w ++ [c]) = none) (hg : Grown d.tree d'.tree) :
    Wound d' s S t w 1 := by
  have hwalk := walk_of_found ht hfound
  have hdir := (Disk.found_ok.mp hfound).2
  have hpos := List.length_pos_iff.mpr hne
  refine ⟨walk_extends hg.extends_ hsource,hwalk,?_,hdir,fun r hr => ?_⟩
  · intro r target hn
    cases r with
    | nil =>
      rw [List.append_nil,hdir] at hn
      cases hn
    | cons c r =>
      have hsplit : S ++ w ++ c :: r = S ++ w ++ [c] ++ r := by simp
      rw [hsplit] at hn
      exact node_above hn (List.prefix_append _ _) (hempty c)
  · refine walk_directory directory_nil hwalk hdir r (hr.trans ?_)
    have hone : spiral w 1 <+: spiral w w.length := spiral_isPrefix hpos
    rw [spiral_once] at hone
    exact (List.prefix_append_right_inj S).mpr hone

include hs

include ht in
theorem copyEntry_deeper (h : Wound d s S t w j) {r : Halt}
    (he : (copyEntry ended (absText s) (absText t) () (absText (s ++ spiral w j)) .dir).eval
      Disk.act d = (d',(),r)) : Stops r ∨ r = none ∧ Wound d' s S t w (j + 1) := by
  have hvalid := spiral_valid (j := j) hw hne
  have htarget := joinPath_relPath hs ht hvalid
  cases hended : ended (absText (s ++ spiral w j)) with
  | true =>
    rw [copyEntry_ended hended] at he
    obtain ⟨-,hr⟩ := Prod.mk.inj he
    exact .inl (.inr ⟨none,(Prod.mk.inj hr).2.symm⟩)
  | false =>
    rcases hmk : (Os.mkdirAll (absText (t ++ spiral w j))).eval Disk.act d with ⟨d₁,err | u⟩
    · rw [copyEntry_blocked hended htarget hmk] at he
      obtain ⟨-,hr⟩ := Prod.mk.inj he
      exact .inl (.inr ⟨none,(Prod.mk.inj hr).2.symm⟩)
    · rw [copyEntry_dir hended htarget hmk] at he
      obtain ⟨rfl,hr⟩ := Prod.mk.inj he
      have hq := ValidPlace.append.mpr ⟨ht,hvalid⟩
      rw [Os.mkdirAll,components_absText hq] at hmk
      obtain ⟨P,hP,hfounded⟩ := mkdirAll_founded hq hmk
      exact .inr ⟨(Prod.mk.inj hr).2.symm,h.deeper hw hne hP ht hfounded.grown⟩

theorem wound_listed (h : Wound d s S t w (j + 1)) : ∃ names,
    d.readDir (absText (s ++ spiral w j)) = .ok names ∧ (w.getD (j % w.length) [],.dir) ∈ names := by
  have hvalid := spiral_valid (j := j) hw hne
  have hdir := h.there
  rw [spiral_succ,← List.append_assoc] at hdir
  obtain ⟨habove,hchild⟩ := directory_snoc.mp hdir
  have hfound : d.found (absText (s ++ spiral w j)) = .ok (S ++ spiral w j,.dir) := by
    refine Disk.found_ok.mpr ⟨?_,habove _ (List.prefix_refl _)⟩
    rw [Disk.resolved_absText (ValidPlace.append.mpr ⟨hs,hvalid⟩),
      walk_through h.source hvalid habove]
    rfl
  refine ⟨_,by rw [Disk.readDir,hfound],List.mem_filterMap.mpr
    ⟨w.getD (j % w.length) [],mem_children.mpr ?_,?_⟩⟩
  · rw [hchild]
    exact Option.some_ne_none _
  · rw [hchild]
    rfl

theorem wound_names (hdown : ∀ d d' r, Wound d s S t w (j + 1) →
      (copyWalk ended (absText s) (absText t) n () (absText (s ++ spiral w (j + 1))) .dir).eval
        Disk.act d = (d',(),r) → Stops r)
    {d₁ : Disk} (h : Wound d₁ s S t w (j + 1)) {r : Halt}
    (hvisit : (copyEntry ended (absText s) (absText t) () (absText (s ++ spiral w j)) .dir).eval
      Disk.act d = (d₁,(),none))
    (he : (copyWalk ended (absText s) (absText t) (n + 1) () (absText (s ++ spiral w j)) .dir).eval
      Disk.act d = (d',(),r)) : Stops r := by
  obtain ⟨names,hnames,hmem⟩ := wound_listed hs hw hne h
  have hpath : joinPath (absText (s ++ spiral w j)) (w.getD (j % w.length) []) =
      absText (s ++ spiral w (j + 1)) := by
    rw [joinPath_name (ValidPlace.append.mpr ⟨hs,spiral_valid hw hne⟩) (spiral_name hw hne),
      spiral_succ,List.append_assoc]
  rw [copyWalk_names hvisit hnames] at he
  refine eachName_stops (fun x d d' r hx => copyWalk_goes (isAbs_absText t) hx) hmem ?_ he
  intro d₂ d₃ r₂ hg hx
  rw [hpath] at hx
  exact hdown d₂ d₃ r₂ (h.grown hg) hx

include ht in
theorem wound_stops {r : Halt} (h : Wound d s S t w j)
    (he : (copyWalk ended (absText s) (absText t) n () (absText (s ++ spiral w j)) .dir).eval
      Disk.act d = (d',(),r)) : Stops r := by
  induction n generalizing j d d' r with
  | zero =>
    obtain ⟨-,hr⟩ := Prod.mk.inj he
    exact .inl (Prod.mk.inj hr).2.symm
  | succ n ih =>
    rcases hvisit : (copyEntry ended (absText s) (absText t) () (absText (s ++ spiral w j)) .dir).eval
      Disk.act d with ⟨d₁,⟨⟩,r₁⟩
    rcases copyEntry_deeper hs ht hw hne h hvisit with hstop | ⟨rfl,h₁⟩
    · rw [copyWalk_stop hvisit hstop] at he
      obtain ⟨-,hr⟩ := Prod.mk.inj he
      exact (Prod.mk.inj hr).2 ▸ hstop
    · exact wound_names hs hw hne (fun d d' r hd hx => ih hd hx) h₁ hvisit he

end Winding

section Landing

variable {s S t D w : Place} {r : Halt}

theorem copyDir_eval {st : Stat} (hl : d.lstat src = .ok st)
    (h : (copyWalk ended src dst n () src st.kind).eval Disk.act d = (d',(),r)) (hr : Goes d d' r) :
    (copyDir ended n src dst).eval Disk.act d = (d',r) := by
  have hwalk : (Os.walkDir (copyEntry ended src dst) (fun _ => some (.failed none)) n () src).eval
      Disk.act d = (d',(),r) := by
    unfold Os.walkDir
    rw [act_lstat,hl]
    show ((copyWalk ended src dst n () src st.kind >>= _).eval Disk.act d) = _
    rw [act_after h]
    rcases hr with (rfl | ⟨e,rfl⟩) | ⟨rfl,-⟩ <;> rfl
  unfold copyDir
  rw [act_after hwalk]
  rfl

theorem copyDir_stops {st : Stat} (hs : ValidPlace s) (ht : ValidPlace t)
    (hsource : d.tree.walk osLinkLimit [] s = .ok S) (hdir : d.tree.node S = some .dir)
    (hl : d.lstat (absText s) = .ok st) (hk : st.kind = .dir) (hlands : Lands d t (S ++ w))
    (h : (copyDir ended n (absText s) (absText t)).eval Disk.act d = (d',r)) : Stops r := by
  have hne : w ≠ [] := by
    rintro rfl
    have hfree := hlands.free []
    rw [List.append_nil,List.append_nil,hdir] at hfree
    cases hfree
  have hw := (ValidPlace.append.mp (hlands.valid ht)).2
  rcases hwalk : (copyWalk ended (absText s) (absText t) n () (absText s) st.kind).eval Disk.act d with
    ⟨d₂,⟨⟩,r₂⟩
  have hgoes := copyWalk_goes (isAbs_absText t) hwalk
  rw [copyDir_eval hl hwalk hgoes] at h
  obtain ⟨rfl,rfl⟩ := Prod.mk.inj h
  rw [hk] at hwalk
  cases n with
  | zero =>
    obtain ⟨-,hr⟩ := Prod.mk.inj hwalk
    exact .inl (Prod.mk.inj hr).2.symm
  | succ n =>
    obtain ⟨d₁,hmk,hfound,hempty,hfounded⟩ := mkdirAll_lands ht hlands
    have hroot : absText (s ++ spiral w 0) = absText s := by simp [spiral]
    have htarget := joinPath_relPath hs ht validPlace_nil
    rw [List.append_nil,List.append_nil] at htarget
    cases hended : ended (absText s) with
    | true =>
      rw [copyWalk_stop (copyEntry_ended hended) (.inr ⟨none,rfl⟩)] at hwalk
      obtain ⟨-,hr⟩ := Prod.mk.inj hwalk
      exact .inr ⟨none,(Prod.mk.inj hr).2.symm⟩
    | false =>
      have hvisit : (copyEntry ended (absText s) (absText t) () (absText (s ++ spiral w 0)) .dir).eval
          Disk.act d = (d₁,(),none) := by
        rw [hroot]
        exact copyEntry_dir hended htarget hmk
      have hdown : (copyWalk ended (absText s) (absText t) (n + 1) () (absText (s ++ spiral w 0)) .dir).eval
          Disk.act d = (d₂,(),r₂) := by
        rw [hroot]
        exact hwalk
      have hbegun : Wound d₁ s S t w 1 := wound_begun hne ht hsource hfound hempty hfounded.grown
      exact wound_names hs hw hne (fun d d' r hd hx => wound_stops hs ht hw hne hd hx) hbegun hvisit hdown

end Landing

end Spiral

end Transfer
