import ServerHub.Posix.FileTree

namespace Transfer

open Posix

inductive ErrorCode where
  | invalidPath
  | pathTraversal
  | fileNotFound
  | dirNotFound
  | fileExists
  | dirExists
  | permissionDenied
  | invalidFileName
  | fileTooLarge
  | invalidRequest
  | internal
deriving DecidableEq

structure AppError where
  code : ErrorCode
  message : String
deriving DecidableEq

variable {δ : Type}

-- the names of a clean absolute path, last first
def nearestExisting (t : FileTree δ) : List Name → List Name → Except AppError (Place × List Name)
  | [], suffix => .ok ([],suffix)
  | c :: rest, suffix =>
      match t.lstat (c :: rest).reverse with
      | .ok _ => .ok ((c :: rest).reverse,suffix)
      | .error .notExist => nearestExisting t rest (c :: suffix)
      | .error _ => .error ⟨.invalidPath,"cannot resolve path"⟩

def assertResolvedWithinRoot (t : FileTree δ) (rootClean abs : Text) : Except AppError Unit :=
  match nearestExisting t (components abs).reverse [] with
  | .error e => .error e
  | .ok (cur,suffix) =>
      match t.evalSymlinks (absText cur) with
      | .error _ => .error ⟨.invalidPath,"cannot resolve path"⟩
      | .ok resolved =>
          match t.evalSymlinks rootClean with
          | .error _ => .error ⟨.invalidPath,"cannot resolve path"⟩
          | .ok rootReal =>
              if within rootReal (suffix.foldl joinPath resolved) then .ok ()
              else if suffix = [] then .error ⟨.pathTraversal,"symlink escapes storage root"⟩
              else .error ⟨.pathTraversal,"path escapes storage root"⟩

def resolveSafePath (t : FileTree δ) (root requestedPath : Text) : Except AppError Text :=
  let rootClean := clean root
  if dotdot ∈ segments requestedPath then .error ⟨.pathTraversal,"path escapes storage root"⟩
  else
    let abs := joinPath rootClean (clean ('/' :: requestedPath))
    if !within rootClean abs then .error ⟨.pathTraversal,"path escapes storage root"⟩
    else
      match assertResolvedWithinRoot t rootClean abs with
      | .error e => .error e
      | .ok _ => .ok abs

def Exists (t : FileTree δ) (q : Place) : Prop := ∃ nd, t.lstat q = .ok nd

-- found is the nearest existing ancestor of p, or p itself
structure Nearest (t : FileTree δ) (p found suffix : Place) : Prop where
  split : p = found ++ suffix
  present : Exists t found
  missing : ∀ pre, pre <+: suffix → pre ≠ [] → ¬Exists t (found ++ pre)

def Reaches (t : FileTree δ) (p : Text) (q : Place) : Prop :=
  ∃ found suffix d, Nearest t (components p) found suffix ∧
    t.walk FileTree.osLinkLimit [] found = .ok d ∧ q = d ++ suffix

variable {t : FileTree δ} {root requestedPath p : Text} {q found suffix : Place}

theorem Nearest.unique {r found' suffix' : Place} (h : Nearest t r found suffix)
    (k : Nearest t r found' suffix') : found = found' ∧ suffix = suffix' := by
  have hlength : ∀ {f s f' s' : Place}, Nearest t r f s → Nearest t r f' s' →
      f'.length ≤ f.length := by
    intro f s f' s' hn hn'
    by_contra hlt
    have hshort : f <+: r := ⟨s,hn.split.symm⟩
    have hlong : f' <+: r := ⟨s',hn'.split.symm⟩
    obtain ⟨pre,hpre⟩ := List.prefix_of_prefix_length_le hshort hlong (by omega)
    have hsame : f ++ (pre ++ s') = f ++ s := by
      rw [← List.append_assoc,hpre,← hn'.split,hn.split]
    have hsuffix : pre <+: s := ⟨s',List.append_cancel_left hsame⟩
    have hne : pre ≠ [] := by
      rintro rfl
      rw [List.append_nil] at hpre
      subst hpre
      omega
    exact hn.missing pre hsuffix hne (hpre ▸ hn'.present)
  have hlen : found.length = found'.length := le_antisymm (hlength k h) (hlength h k)
  exact List.append_inj (h.split.symm.trans k.split) hlen

theorem nearestExisting_ok {rev : List Name} {acc cur suffix : Place}
    (h : nearestExisting t rev acc = .ok (cur,suffix)) :
    ∃ mid, suffix = mid ++ acc ∧ Nearest t rev.reverse cur mid := by
  induction rev generalizing acc with
  | nil =>
    obtain ⟨rfl,rfl⟩ := Prod.mk.inj (Except.ok.inj h)
    refine ⟨[],rfl,rfl,⟨.dir,rfl⟩,?_⟩
    intro pre hpre hne
    exact absurd (List.prefix_nil.mp hpre) hne
  | cons c rest ih =>
    rw [nearestExisting] at h
    cases hstat : t.lstat (c :: rest).reverse with
    | ok nd =>
      simp only [hstat] at h
      obtain ⟨rfl,rfl⟩ := Prod.mk.inj (Except.ok.inj h)
      refine ⟨[],rfl,by simp,⟨nd,hstat⟩,?_⟩
      intro pre hpre hne
      exact absurd (List.prefix_nil.mp hpre) hne
    | error e =>
      simp only [hstat] at h
      cases e with
      | notExist =>
        obtain ⟨mid,hmid,hnear⟩ := ih h
        refine ⟨mid ++ [c],by rw [hmid]; simp,?_,hnear.present,?_⟩
        · rw [List.reverse_cons,hnear.split,List.append_assoc]
        · intro pre hpre hne
          rcases List.prefix_concat_iff.mp hpre with rfl | hpre
          · rintro ⟨nd,hnd⟩
            rw [← List.append_assoc,← hnear.split,← List.reverse_cons,hstat] at hnd
            cases hnd
          · exact hnear.missing pre hpre hne
      | notDir => simp at h
      | loop => simp at h

theorem resolveSafePath_iff (hroot : isAbs root = true) : resolveSafePath t root requestedPath = .ok p ↔
    dotdot ∉ segments requestedPath ∧ p = absText (components root ++ components ('/' :: requestedPath)) ∧
      within (clean root) p = true ∧ assertResolvedWithinRoot t (clean root) p = .ok () := by
  have hslash : isAbs ('/' :: requestedPath) = true := rfl
  have hjoin : joinPath (clean root) (clean ('/' :: requestedPath)) =
      absText (components root ++ components ('/' :: requestedPath)) := by
    rw [clean_abs hroot,clean_abs hslash]
    exact joinPath_absText (components_valid hroot) (components_valid hslash)
  unfold resolveSafePath
  dsimp only
  rw [hjoin]
  constructor
  · intro h
    split at h
    · cases h
    · rename_i hplain
      split at h
      · cases h
      · rename_i hwithin
        split at h
        · cases h
        · rename_i hassert
          obtain rfl := Except.ok.inj h
          exact ⟨hplain,rfl,by simpa using hwithin,hassert⟩
  · rintro ⟨hplain,rfl,hwithin,hassert⟩
    simp [hplain,hwithin,hassert]

theorem resolveSafePath_ok (hroot : isAbs root = true)
    (h : resolveSafePath t root requestedPath = .ok p) :
    ∃ c, ValidPlace c ∧ p = absText (components root ++ c) ∧
      assertResolvedWithinRoot t (clean root) p = .ok () := by
  obtain ⟨-,hp,-,hassert⟩ := (resolveSafePath_iff hroot).mp h
  exact ⟨_,components_valid rfl,hp,hassert⟩

theorem asserted {r : Place} (hr : ValidPlace r) {rootClean : Text}
    (h : assertResolvedWithinRoot t rootClean (absText r) = .ok ()) :
    ∃ found suffix d real, Nearest t r found suffix ∧
      t.walk FileTree.evalLinkLimit [] found = .ok d ∧ t.resolve rootClean = .ok real ∧
      real <+: d ++ suffix := by
  unfold assertResolvedWithinRoot at h
  rw [components_absText hr] at h
  cases hnear : nearestExisting t r.reverse [] with
  | error e => simp [hnear] at h
  | ok x =>
    obtain ⟨found,suffix⟩ := x
    obtain ⟨mid,hmid,hn⟩ := nearestExisting_ok hnear
    rw [List.append_nil] at hmid
    subst hmid
    rw [List.reverse_reverse] at hn
    have hparts := ValidPlace.append.mp (hn.split ▸ hr)
    simp only [hnear,FileTree.evalSymlinks] at h
    cases hd : t.resolve (absText found) with
    | error e => simp [hd,Except.map] at h
    | ok d =>
      cases hreal : t.resolve rootClean with
      | error e => simp [hd,hreal,Except.map] at h
      | ok real =>
        have hdv := FileTree.resolve_valid hd
        simp only [hd,hreal,Except.map,foldl_joinPath hdv hparts.2] at h
        refine ⟨found,suffix,d,real,hn,?_,rfl,?_⟩
        · rw [← FileTree.resolve_absText hparts.1,hd]
        · split at h
          · rename_i hw
            have hin := (within_absText (FileTree.resolve_valid hreal)
              (ValidPlace.append.mpr ⟨hdv,hparts.2⟩)).mp hw
            rcases hin with he | ⟨-,hpre⟩
            · rw [he]
            · exact hpre
          · split at h <;> cases h

theorem reached_within (hroot : isAbs root = true)
    (h : resolveSafePath t root requestedPath = .ok p) (hq : Reaches t p q) :
    ∃ real, t.resolve (clean root) = .ok real ∧ real <+: q := by
  obtain ⟨c,hc,rfl,hassert⟩ := resolveSafePath_ok hroot h
  have hvalid := ValidPlace.append.mpr ⟨components_valid hroot,hc⟩
  obtain ⟨found,suffix,d,real,hnear,hd,hreal,hpre⟩ := asserted hvalid hassert
  obtain ⟨found',suffix',d',hnear',hd',rfl⟩ := hq
  rw [components_absText hvalid] at hnear'
  obtain ⟨rfl,rfl⟩ := hnear.unique hnear'
  have hsame := FileTree.walk_ok_mono (by decide : FileTree.osLinkLimit ≤ FileTree.evalLinkLimit) hd'
  rw [hd] at hsame
  obtain rfl := Except.ok.inj hsame
  exact ⟨real,hreal,hpre⟩

def aliasTree : FileTree Text where
  nodes := [([['r']],.dir),([['r'],['b']],.dir),([['r'],['a']],.link ['/','r','/','b'])]
  rooted := by decide

theorem alias_within : ∃ real, aliasTree.resolve (clean ['/','r']) = .ok real ∧
    real <+: [['r'],['b'],['n']] := by
  have hnear : Nearest aliasTree (components ['/','r','/','a','/','n']) [['r'],['a']] [['n']] := by
    refine ⟨by decide,⟨_,rfl⟩,?_⟩
    rintro pre hpre hne ⟨nd,hnd⟩
    rcases List.prefix_cons_iff.mp hpre with rfl | ⟨rest,rfl,hrest⟩
    · exact hne rfl
    · rw [List.prefix_nil.mp hrest] at hnd
      have hmissing : aliasTree.lstat [['r'],['a'],['n']] = .error .notExist := rfl
      cases hmissing.symm.trans hnd
  have hok : resolveSafePath aliasTree ['/','r'] ['a','/','n'] = .ok ['/','r','/','a','/','n'] := by
    decide
  exact reached_within rfl hok ⟨_,_,[['r'],['b']],hnear,by decide,rfl⟩

end Transfer
