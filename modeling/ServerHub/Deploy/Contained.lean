import ServerHub.Deploy.Checked
import ServerHub.Posix.Resolution

namespace Deploy

open Posix Posix.FileTree

variable {h : Host} {roots : List Text} {path p : Text} {q : Place}

def InsideRoots (roots : List Text) (q : Place) : Prop :=
  ∃ r ∈ roots, isAbs r = true ∧ components r <+: q

-- the names above p that lie inside the roots and lead somewhere lead inside the roots
def AncestorsInside (h : Host) (roots : List Text) (p : Text) : Prop :=
  ∀ a q, a <+: components p → InsideRoots roots a → h.tree.resolve (absText a) = .ok q →
    InsideRoots roots q

def ExecContained (h : Host) (roots : List Text) (path : Text) : Prop :=
  ∀ p, h.resolvedDir path roots = .ok p →
    match h.tree.resolve p with
    | .ok q => p = absText q ∧ Real h.tree q ∧ InsideRoots roots q
    | .error _ => InsideRoots roots (components p) ∧ AncestorsInside h roots p

-- a missing path keeps its cleaned form, whatever the links above it do
def ExecRooted (h : Host) (roots : List Text) (path : Text) : Prop :=
  ∀ p, h.resolvedDir path roots = .ok p →
    match h.tree.resolve p with
    | .ok q => p = absText q ∧ Real h.tree q ∧ InsideRoots roots q
    | .error _ => InsideRoots roots (components p)

theorem insideRoots_of_within (hq : ValidPlace q) (hw : withinRoots (absText q) roots = true) :
    InsideRoots roots q := by
  obtain ⟨r,hr,hin⟩ := List.any_eq_true.mp hw
  obtain ⟨habs,hin⟩ := Bool.and_eq_true_iff.mp hin
  rw [isAbs_clean] at habs
  rw [clean_abs habs] at hin
  refine ⟨r,hr,habs,?_⟩
  rcases (within_absText (components_valid habs) hq).mp hin with rfl | ⟨-,hpre⟩
  · exact List.prefix_refl _
  · exact hpre

theorem isAbs_of_within (hw : withinRoots (clean path) roots = true) : isAbs path = true := by
  obtain ⟨r,-,hin⟩ := List.any_eq_true.mp hw
  obtain ⟨habs,hin⟩ := Bool.and_eq_true_iff.mp hin
  rw [← isAbs_clean path]
  exact within_isAbs habs hin

theorem trim_abs (hp : isAbs path = true) : Go.trim path ≠ [] := by
  cases path with
  | nil => cases hp
  | cons c cs =>
    obtain rfl : c = '/' := by simpa [isAbs] using hp
    have hfront : (('/' :: cs).dropWhile Go.isSpace) = '/' :: cs :=
      List.dropWhile_cons_of_neg (by decide)
    intro hempty
    rw [Go.trim,hfront,List.reverse_eq_nil_iff,List.dropWhile_eq_nil_iff] at hempty
    exact absurd (hempty '/' (by simp)) (by decide)

theorem validateWrite_ok {cleaned : Text} (hne : cleaned ≠ []) (hroots : roots ≠ []) :
    validateWrite path roots = .ok cleaned ↔
      cleaned = clean path ∧ withinRoots (clean path) roots = true := by
  unfold validateWrite
  constructor
  · intro hv
    split at hv
    · exact absurd (Except.ok.inj hv).symm hne
    · split at hv
      · cases hv
      · split at hv
        · cases hv
        · rename_i hin
          refine ⟨(Except.ok.inj hv).symm,?_⟩
          simpa [hroots] using hin
  · rintro ⟨rfl,hin⟩
    have habs := isAbs_of_within hin
    rw [if_neg (trim_abs habs),isAbs_clean,habs]
    simp [hin]

theorem resolvedDir_ok (hroots : roots ≠ []) : h.resolvedDir path roots = .ok p ↔
    withinRoots (clean path) roots = true ∧
      ((∃ q, h.tree.resolve (clean path) = .ok q ∧ withinRoots (absText q) roots = true ∧
          p = absText q) ∨
        h.tree.resolve (clean path) = .error .notExist ∧ p = clean path) := by
  unfold Host.resolvedDir
  by_cases hin : withinRoots (clean path) roots = true
  · have hne := clean_ne_nil path
    rw [(validateWrite_ok hne hroots).mpr ⟨rfl,hin⟩]
    simp only [if_neg hne,Host.evalSymlinks,FileTree.evalSymlinks]
    cases hr : h.tree.resolve (clean path) with
    | error e =>
      have hnone : ¬∃ q, Except.error e = Except.ok q ∧ withinRoots (absText q) roots = true ∧
          p = absText q := fun ⟨q,hq,_⟩ => nomatch hq
      rw [or_iff_right hnone]
      simp only [Except.map,hin,true_and]
      cases e with
      | notExist => exact ⟨fun hp => ⟨rfl,(Except.ok.inj hp).symm⟩,fun hp => hp.2 ▸ rfl⟩
      | notDir => exact ⟨fun hp => (nomatch hp),fun hp => (nomatch hp.1)⟩
      | loop => exact ⟨fun hp => (nomatch hp),fun hp => (nomatch hp.1)⟩
    | ok q =>
      have hq := resolve_valid hr
      simp only [Except.map,clean_absText hq]
      constructor
      · intro hp
        split at hp
        · cases hp
        · rename_i hout
          have hinside : withinRoots (absText q) roots = true := by simpa [hroots] using hout
          exact ⟨hin,.inl ⟨q,rfl,hinside,(Except.ok.inj hp).symm⟩⟩
      · rintro ⟨-,⟨q',hq',hinside,rfl⟩ | ⟨hmissing,-⟩⟩
        · obtain rfl := Except.ok.inj hq'
          rw [if_neg (fun hout => Bool.noConfusion (hout.2.symm.trans hinside))]
        · cases hmissing
  · refine ⟨fun hp => ?_,fun hp => absurd hp.1 hin⟩
    cases hv : validateWrite path roots with
    | error e => simp [hv] at hp
    | ok cleaned =>
      simp only [hv] at hp
      split at hp
      · cases hp
      · rename_i hne
        exact absurd ((validateWrite_ok hne hroots).mp hv).2 hin

theorem exec_rooted (hroots : roots ≠ []) : ExecRooted h roots path := by
  intro p hp
  obtain ⟨hin,⟨q,hq,hout,rfl⟩ | ⟨hmissing,rfl⟩⟩ := (resolvedDir_ok hroots).mp hp
  · have hvalid := resolve_valid hq
    have hreal : Real h.tree q := walk_real directory_nil hq
    rw [resolve_absText hvalid,hreal.walk hvalid]
    exact ⟨rfl,hreal,insideRoots_of_within hvalid hout⟩
  · have habs := isAbs_of_within hin
    rw [hmissing]
    have hvalid := components_valid habs
    rw [clean_abs habs] at hin ⊢
    rw [components_absText hvalid]
    exact insideRoots_of_within hvalid hin

theorem twoFiles_rooted : ExecRooted twoFiles ["/srv".toList] "/srv/web".toList :=
  exec_rooted (List.cons_ne_nil _ _)

def linkedHost : Host :=
  { twoFiles with
    tree :=
      { nodes := [([['s']],.dir),([['s'],['o']],.link ['/','e']),([['e']],.dir)]
        rooted := by decide } }

theorem missing_below_link : ¬∀ (h : Host) (roots : List Text) (path : Text), roots ≠ [] →
    ExecContained h roots path := by
  intro hall
  have hdir : linkedHost.resolvedDir ['/','s','/','o','/','n'] [['/','s']] =
      .ok ['/','s','/','o','/','n'] := rfl
  have hmissing : linkedHost.tree.resolve ['/','s','/','o','/','n'] = .error .notExist := rfl
  have hlink : linkedHost.tree.resolve (absText [['s'],['o']]) = .ok [['e']] := rfl
  have hp := hall linkedHost [['/','s']] ['/','s','/','o','/','n'] (List.cons_ne_nil _ _) _ hdir
  rw [hmissing] at hp
  obtain ⟨r,hr,-,hpre⟩ := hp.2 [['s'],['o']] [['e']] (by decide)
    ⟨['/','s'],List.mem_singleton.mpr rfl,by decide⟩ hlink
  obtain rfl := List.mem_singleton.mp hr
  exact absurd hpre (by decide)

end Deploy
