import ServerHub.VgBackup.StorageFiles

namespace VgBackup

open Posix

variable {δ : Type}

def Inside (t : FileTree δ) (root : Text) (e : FileTree.Entry) : Prop :=
  ∃ r, t.resolve root = .ok r ∧ r <+: e.parent ∧ e.place ≠ r ∧ t.entryAt (clean root) ≠ some e

def InView (t : FileTree δ) (p : Text) (e : FileTree.Entry) : Prop :=
  t.resolve (dir (clean p)) = .ok e.parent ∧
  ((∀ l, t.node e.place ≠ some (.link l)) ∨ t.resolve (clean p) = .error .notExist)

def SpeltOut (t : FileTree δ) (root : Text) : Prop := t.resolve root = t.resolve (clean root)

def NotRoot (t : FileTree δ) (root : Text) (e : FileTree.Entry) : Prop :=
  t.resolve (clean root) ≠ .ok e.place

theorem vgIsWithinBase_absText {q r : Place} (hq : ValidPlace q) (hr : ValidPlace r) :
    vgIsWithinBase (absText q) (absText r) = true ↔ q <+: r := by
  have hdir : dir (absText q) = absText q.dropLast := by rw [dir,components_absText hq]
  have hw := within_absText hq hr
  simp only [vgIsWithinBase,clean_absText hq,clean_absText hr,Bool.or_eq_true,Bool.and_eq_true,
    beq_iff_eq]
  constructor
  · rintro (((h | h) | h) | h)
    · rcases hw.mp h with rfl | ⟨-,hpre⟩
      · exact List.prefix_rfl
      · exact hpre
    · have hnil : q = [] := absText_injective hq validPlace_nil h.1
      exact hnil ▸ List.nil_prefix
    · rcases hw.mp h with rfl | ⟨-,hpre⟩
      · exact List.prefix_rfl
      · exact hpre
    · have hdrop : q.dropLast = q := absText_injective hq.dropLast hq (hdir ▸ h.1.2)
      have hlen : q.dropLast.length = q.length := congrArg List.length hdrop
      rw [List.length_dropLast] at hlen
      have hnil : q = [] := List.length_eq_zero_iff.mp (by omega)
      exact hnil ▸ List.nil_prefix
  · intro hpre
    by_cases e : q = []
    · exact .inr ⟨⟨isAbs_absText q,by rw [hdir,e]; rfl⟩,isAbs_absText r⟩
    · exact .inl (.inl (.inl (hw.mpr (.inr ⟨e,hpre⟩))))

theorem vgIsWithinBase_relative {base child : Text} (hbase : isAbs base = true) (hchild : isAbs child = false) :
    vgIsWithinBase base child = false := by
  have hb : isAbs (clean base) = true := (isAbs_clean base).trans hbase
  have hc : isAbs (clean child) = false := (isAbs_clean child).trans hchild
  have hout : within (clean base) (clean child) = false := by
    cases hw : within (clean base) (clean child) with
    | false => rfl
    | true => exact absurd ((within_isAbs hb hw).symm.trans hc) Bool.noConfusion
  have hslash : hasPrefix child ['/'] = false := by
    cases hp : hasPrefix child ['/'] with
    | false => rfl
    | true => exact absurd ((hasPrefix_isAbs rfl hp).symm.trans hchild) Bool.noConfusion
  simp [vgIsWithinBase,hout,hslash,hc]

theorem hasPrefix_slash {p : Text} (h : isAbs p = true) : hasPrefix p ['/'] = true := by
  cases p with
  | nil => cases h
  | cons x p =>
    obtain rfl : x = '/' := by simpa [isAbs] using h
    rfl

theorem within_base_iff {base child : Text} (hbase : isAbs base = true) :
    vgIsWithinBase base child = true ↔
      isAbs child = true ∧ components (clean base) <+: components (clean child) := by
  cases hchild : isAbs child with
  | false =>
    rw [vgIsWithinBase_relative hbase hchild]
    exact iff_of_false Bool.noConfusion fun h => Bool.noConfusion h.1
  | true =>
    have hb := components_valid hbase
    have hc := components_valid hchild
    have hsame : vgIsWithinBase base child =
        vgIsWithinBase (absText (components base)) (absText (components child)) := by
      unfold vgIsWithinBase
      rw [clean_absText hb,clean_absText hc,clean_abs hbase,clean_abs hchild,hasPrefix_slash hchild,
        hasPrefix_slash (isAbs_absText _)]
    rw [hsame,vgIsWithinBase_absText hb hc,clean_abs hbase,clean_abs hchild,components_absText hb,
      components_absText hc]
    exact (and_iff_right rfl).symm

theorem sibling_outside_base :
    vgIsWithinBase ['/','b'] ['/','b','2'] = true ↔
      isAbs ['/','b','2'] = true ∧ components (clean ['/','b']) <+: components (clean ['/','b','2']) :=
  within_base_iff rfl

theorem validated_spec {t : FileTree δ} {root p : Text} (h : validateSafeStoragePath t root p = .ok ()) :
    isAbs p = true ∧ ∃ r, t.resolve (clean root) = .ok r ∧
      (∀ q, t.resolve (clean p) = .ok q → within (absText r) (absText q) = true) ∧
      (t.resolve (clean p) = .error .notExist → ∀ d, t.resolve (dir (clean p)) = .ok d →
        within (absText r) (absText d) = true) := by
  unfold validateSafeStoragePath at h
  split at h
  · simp at h
  · rename_i habs
    refine ⟨by simpa using habs,?_⟩
    dsimp only at h
    split at h
    · simp at h
    · simp only [FileTree.evalSymlinks] at h
      cases hr : t.resolve (clean root) with
      | error e => simp [hr,Except.map] at h
      | ok r =>
        refine ⟨r,rfl,?_,?_⟩
        · intro q hq
          rw [hr,hq] at h
          simp only [Except.map] at h
          split at h
          · rename_i hw
            exact hw
          · simp at h
        · intro hne d hd
          rw [hr,hne,hd] at h
          simp only [Except.map] at h
          split at h
          · rename_i hw
            exact hw
          · simp at h

theorem removed_components {t : FileTree δ} {p : Text} {e : FileTree.Entry} (hp : isAbs p = true)
    (h : t.entryAt p = some e) :
    ValidPlace ((components p).dropLast ++ [e.name]) ∧
    clean p = absText ((components p).dropLast ++ [e.name]) := by
  obtain ⟨rest,hseg,h1,h2,-⟩ := FileTree.entryAt_some h
  obtain ⟨q,hq⟩ := components_last hseg h1 h2
  have hv := components_valid hp
  rw [clean_abs hp,hq,List.dropLast_concat]
  exact ⟨hq ▸ hv,rfl⟩

theorem walk_ok_not_missing {t : FileTree δ} {n m : Nat} {cur d : Place} {cs : List Name}
    (h : t.walk n cur cs = .ok d) (k : t.walk m cur cs = .error .notExist) : False := by
  rcases Nat.le_total n m with hnm | hmn
  · have hm := FileTree.walk_ok_mono hnm h
    rw [hm] at k
    simp at k
  · have hn := FileTree.walk_mono (t := t) hmn cur cs (by simp [k])
    rw [h,k] at hn
    simp at hn

theorem walk_entry {t : FileTree δ} {p : Text} {e : FileTree.Entry} (hp : isAbs p = true)
    (h : t.entryAt p = some e) (hdir : t.node e.parent = some .dir) {n : Nat}
    (hn : n ≤ FileTree.evalLinkLimit) (hw : t.walk n [] (components p).dropLast = .ok e.parent) :
    ∃ m, t.resolve (clean p) = t.walk m e.parent [e.name] := by
  obtain ⟨hv,hc⟩ := removed_components hp h
  obtain ⟨m,-,hm⟩ := FileTree.walk_append_ok [e.name] hdir (FileTree.walk_ok_mono hn hw)
  exact ⟨m,by rw [hc,FileTree.resolve_absText hv,hm]⟩

theorem resolve_inView {t : FileTree δ} {p : Text} {e : FileTree.Entry} (hp : isAbs p = true)
    (h : t.removedEntry p = some e) (hs : t.resolve (dir (clean p)) = .ok e.parent) :
    ∃ m, t.resolve (clean p) = t.walk m e.parent [e.name] := by
  obtain ⟨he,hdir,-⟩ := FileTree.removedEntry_some h
  have hv := (components_valid hp).dropLast
  rw [dir_clean hp,FileTree.resolve_absText hv] at hs
  exact walk_entry hp he hdir (Nat.le_refl _) hs

theorem entry_plain {t : FileTree δ} {p : Text} {e : FileTree.Entry} (hp : isAbs p = true)
    (h : t.entryAt p = some e) : FileTree.Plain e.name := by
  obtain ⟨hv,-⟩ := removed_components hp h
  exact FileTree.ValidName.plain ((ValidPlace.append.mp hv).2 e.name (by simp))

theorem walk_plain_entry {t : FileTree δ} {p : Text} {e : FileTree.Entry} (hp : isAbs p = true)
    (h : t.removedEntry p = some e) (hl : ∀ l, t.node e.place ≠ some (.link l)) (m : Nat) :
    t.walk m e.parent [e.name] = .ok e.place := by
  obtain ⟨he,-,nd,hnd⟩ := FileTree.removedEntry_some h
  exact FileTree.walk_single (entry_plain hp he) hnd fun l hnl => hl l (by rw [hnd,hnl])

theorem inside_of_within {r : Place} {e : FileTree.Entry} (hr : ValidPlace r) (he : ValidPlace e.place)
    (h : within (absText r) (absText e.place) = true) : e.place = r ∨ r <+: e.parent := by
  rcases (within_absText hr he).mp h with heq | ⟨-,hpre⟩
  · exact .inl heq
  · rcases List.prefix_concat_iff.mp hpre with heq | hpar
    · exact .inl heq.symm
    · exact .inr hpar

theorem validated_removal {t : FileTree δ} {root p : Text} {e : FileTree.Entry}
    (hval : validateSafeStoragePath t root p = .ok ()) (h : t.removedEntry p = some e)
    (hv : InView t p e) :
    ∃ r, t.resolve (clean root) = .ok r ∧ (e.place = r ∨ r <+: e.parent) := by
  obtain ⟨hp,r,hr,hfound,hmissing⟩ := validated_spec hval
  have hrv := FileTree.resolve_valid hr
  obtain ⟨m,hm⟩ := resolve_inView hp h hv.1
  refine ⟨r,hr,?_⟩
  rcases hv.2 with hl | hgone
  · rw [walk_plain_entry hp h hl m] at hm
    exact inside_of_within hrv (FileTree.resolve_valid hm) (hfound e.place hm)
  · have hpv := FileTree.resolve_valid hv.1
    rcases (within_absText hrv hpv).mp (hmissing hgone e.parent hv.1) with heq | ⟨-,hpre⟩
    · exact .inr (heq ▸ List.prefix_refl _)
    · exact .inr hpre

theorem walk_cleanEntry {t : FileTree δ} {root : Text} {e : FileTree.Entry} (hroot : isAbs root = true)
    (he : t.entryAt (clean root) = some e) :
    t.walk FileTree.osLinkLimit [] (components (clean root)).dropLast = .ok e.parent := by
  obtain ⟨rest,hseg,-,-,hw⟩ := FileTree.entryAt_some he
  have hv := components_valid hroot
  rw [clean_abs hroot] at hseg
  by_cases hq : components root = []
  · rw [hq] at hseg
    have hnil : (segments (absText [])).filter (· ≠ []) = [] := by decide
    rw [hnil] at hseg
    simp at hseg
  · have hkeep : (components root).filter (· ≠ []) = components root :=
      List.filter_eq_self.mpr fun c hc => by simpa using (hv c hc).1
    rw [segments_absText hv hq,List.filter_cons_of_neg (by simp),hkeep] at hseg
    rw [clean_abs hroot,components_absText hv,hseg,List.dropLast_concat]
    exact hw

theorem root_entry {t : FileTree δ} {root p : Text} {e : FileTree.Entry} {r : Place}
    (hroot : isAbs root = true) (hr : t.resolve (clean root) = .ok r) (hp : isAbs p = true)
    (h : t.removedEntry p = some e) (hv : InView t p e) (he : t.entryAt (clean root) = some e) :
    e.place = r := by
  obtain ⟨-,hdir,-⟩ := FileTree.removedEntry_some h
  have habs : isAbs (clean root) = true := by
    rw [clean_abs hroot]
    exact isAbs_absText _
  have hlimit : FileTree.osLinkLimit ≤ FileTree.evalLinkLimit := by decide
  obtain ⟨m,hm⟩ := walk_entry habs he hdir hlimit (walk_cleanEntry hroot he)
  rw [clean_clean hroot,hr] at hm
  rcases hv.2 with hl | hgone
  · rw [walk_plain_entry hp h hl m] at hm
    exact (Except.ok.inj hm).symm
  · obtain ⟨n,hn⟩ := resolve_inView hp h hv.1
    rw [hgone] at hn
    exact absurd hn.symm (fun hx => walk_ok_not_missing hm.symm hx)

theorem inside_iff {t : FileTree δ} {root p : Text} {e : FileTree.Entry} (hroot : isAbs root = true)
    (hval : validateSafeStoragePath t (clean root) p = .ok ()) (h : t.removedEntry p = some e)
    (hv : InView t p e) (hspelt : SpeltOut t root) : Inside t root e ↔ NotRoot t root e := by
  obtain ⟨hp,-⟩ := validated_spec hval
  obtain ⟨r,hr,hin⟩ := validated_removal hval h hv
  rw [clean_clean hroot] at hr
  constructor
  · rintro ⟨r',hr',-,hne,-⟩ heq
    rw [hspelt,heq] at hr'
    exact hne (Except.ok.inj hr')
  · intro hne
    have hplace : e.place ≠ r := fun heq => hne (by rw [hr,heq])
    refine ⟨r,hspelt.trans hr,hin.resolve_left hplace,hplace,?_⟩
    intro he
    exact hplace (root_entry hroot hr hp h hv he)

-- the two checks of deleteRunFiles, in the tree that the path meets
structure Permitted (t : FileTree δ) (cleanRoot deleteRoot p : Text) : Prop where
  named : p ≠ []
  target : validateSafeStoragePath t cleanRoot p = .ok ()
  enabled : deleteRoot ≠ []
  delete : validateSafeStoragePath t deleteRoot p = .ok ()

section Pass

variable {t : FileTree δ} {cleanRoot deleteRoot p : Text} {ps seen : List Text} {e : FileTree.Entry}

theorem removePass_congr {seen' : List Text} (h : ∀ q, q ≠ [] → (q ∈ seen ↔ q ∈ seen')) :
    removePass cleanRoot deleteRoot t seen ps = removePass cleanRoot deleteRoot t seen' ps := by
  induction ps generalizing t seen seen' with
  | nil => rfl
  | cons p ps ih =>
    have hskip : (p = [] ∨ p ∈ seen) ↔ (p = [] ∨ p ∈ seen') := by
      by_cases hp : p = []
      · simp [hp]
      · simp [hp,h p hp]
    have hcons : ∀ q, q ≠ [] → (q ∈ p :: seen ↔ q ∈ p :: seen') := by
      intro q hq
      rw [List.mem_cons,List.mem_cons,h q hq]
    simp only [removePass,hskip,ih h,ih hcons]

theorem removePass_skip
    (h : p ∉ seen → Permitted t cleanRoot deleteRoot p → t.removedEntry p = none) :
    removePass cleanRoot deleteRoot t seen (p :: ps) =
      removePass cleanRoot deleteRoot t (p :: seen) ps := by
  conv_lhs => unfold removePass
  split
  · rename_i hskip
    refine removePass_congr fun q hq => ?_
    rw [List.mem_cons]
    refine ⟨.inr,fun hmem => ?_⟩
    rcases hmem with rfl | hmem
    · exact hskip.resolve_left hq
    · exact hmem
  rename_i hnew
  obtain ⟨hnil,hseen⟩ := not_or.mp hnew
  split
  · rfl
  rename_i htarget
  split
  · rfl
  rename_i henabled
  split
  · rfl
  rename_i hdelete
  split
  · rfl
  rename_i e t' hrem
  simp only [FileTree.remove,h hseen ⟨hnil,htarget,henabled,hdelete⟩,Option.map_none] at hrem
  cases hrem

theorem removePass_hit (hseen : p ∉ seen) (h : Permitted t cleanRoot deleteRoot p)
    (he : t.removedEntry p = some e) :
    removePass cleanRoot deleteRoot t seen (p :: ps) =
      (⟨t,p,e⟩ :: (removePass cleanRoot deleteRoot (t.prune e.place) (p :: seen) ps).1,
        (removePass cleanRoot deleteRoot (t.prune e.place) (p :: seen) ps).2) := by
  have hrem : t.remove p = some (e,t.prune e.place) := by rw [FileTree.remove,he,Option.map_some]
  conv_lhs => unfold removePass
  simp only [h.named,hseen,h.target,h.enabled,h.delete,hrem,or_self,if_false]

theorem removePass_cons (t : FileTree δ) (cleanRoot deleteRoot : Text) (seen : List Text) (p : Text) :
    ∃ (rs : List (Removal δ)) (t' : FileTree δ),
      (∀ ps, removePass cleanRoot deleteRoot t seen (p :: ps) =
        (rs ++ (removePass cleanRoot deleteRoot t' (p :: seen) ps).1,
          (removePass cleanRoot deleteRoot t' (p :: seen) ps).2)) ∧
      ∀ r, r ∈ rs ↔ r.path = p ∧ r.tree = t ∧ p ∉ seen ∧ Permitted t cleanRoot deleteRoot p ∧
        t.removedEntry p = some r.entry := by
  by_cases h : p ∉ seen ∧ Permitted t cleanRoot deleteRoot p ∧ ∃ e, t.removedEntry p = some e
  · obtain ⟨hseen,hper,e,he⟩ := h
    refine ⟨[⟨t,p,e⟩],t.prune e.place,fun ps => removePass_hit hseen hper he,fun r => ?_⟩
    rw [List.mem_singleton]
    constructor
    · rintro rfl
      exact ⟨rfl,rfl,hseen,hper,he⟩
    · obtain ⟨u,q,e'⟩ := r
      rintro ⟨rfl,rfl,-,-,he'⟩
      rw [he,Option.some.injEq] at he'
      rw [he']
  · refine ⟨[],t,fun ps => removePass_skip fun hseen hper => ?_,fun r => ?_⟩
    · exact Option.eq_none_iff_forall_ne_some.mpr fun e he => h ⟨hseen,hper,e,he⟩
    · refine iff_of_false List.not_mem_nil ?_
      rintro ⟨-,-,hseen,hper,he⟩
      exact h ⟨hseen,hper,_,he⟩

theorem mem_removePass {r : Removal δ} : r ∈ (removePass cleanRoot deleteRoot t seen ps).1 ↔
    ∃ xs ys, ps = xs ++ r.path :: ys ∧ r.path ∉ xs ∧ r.path ∉ seen ∧
      r.tree = (removePass cleanRoot deleteRoot t seen xs).2 ∧
      Permitted r.tree cleanRoot deleteRoot r.path ∧ r.tree.removedEntry r.path = some r.entry := by
  induction ps generalizing t seen with
  | nil => simp [removePass]
  | cons p ps ih =>
    obtain ⟨rs,t',hcons,hrs⟩ := removePass_cons t cleanRoot deleteRoot seen p
    rw [hcons,List.mem_append,hrs,ih]
    constructor
    · rintro (⟨rfl,rfl,hseen,hper,he⟩ | ⟨xs,ys,rfl,hxs,hseen,htree,hper,he⟩)
      · exact ⟨[],ps,rfl,List.not_mem_nil,hseen,rfl,hper,he⟩
      · obtain ⟨hp,hseen⟩ := List.ne_and_not_mem_of_not_mem_cons hseen
        refine ⟨p :: xs,ys,rfl,List.not_mem_cons_of_ne_of_not_mem hp hxs,hseen,?_,hper,he⟩
        rw [hcons]
        exact htree
    · rintro ⟨xs,ys,hps,hxs,hseen,htree,hper,he⟩
      cases xs with
      | nil =>
        obtain ⟨rfl,-⟩ := List.cons.inj hps
        have ht : r.tree = t := htree
        rw [ht] at hper he
        exact .inl ⟨rfl,ht,hseen,hper,he⟩
      | cons x xs =>
        obtain ⟨rfl,htail⟩ := List.cons.inj hps
        obtain ⟨hp,hxs⟩ := List.ne_and_not_mem_of_not_mem_cons hxs
        rw [hcons] at htree
        exact .inr ⟨xs,ys,htail,hxs,List.not_mem_cons_of_ne_of_not_mem hp hseen,htree,hper,he⟩

end Pass

-- a stored path has its turn and passes both checks in the tree that the paths before it have left
structure Turn (t : FileTree δ) (targetPath deleteRoot : Text) (paths : List Text)
    (u : FileTree δ) (p : Text) : Prop where
  rooted : isAbs targetPath = true ∧ isAbs deleteRoot = true
  due : ∃ xs ys, paths = xs ++ p :: ys ∧ p ∉ xs ∧ u = (deleteFiles t targetPath deleteRoot xs).2
  permitted : Permitted u (clean targetPath) (clean deleteRoot) p

theorem mem_deleteFiles {t : FileTree δ} {targetPath deleteRoot : Text} {paths : List Text}
    {r : Removal δ} : r ∈ (deleteFiles t targetPath deleteRoot paths).1 ↔
      Turn t targetPath deleteRoot paths r.tree r.path ∧
        r.tree.removedEntry r.path = some r.entry := by
  by_cases ht : isAbs targetPath = true
  · have hskip : ¬(targetPath = [] ∨ isAbs targetPath = false) := by
      rintro (rfl | hrel)
      · cases ht
      · exact Bool.noConfusion (ht.symm.trans hrel)
    have hrun : ∀ ps, deleteFiles t targetPath deleteRoot ps = removePass (clean targetPath)
        (if isAbs deleteRoot then clean deleteRoot else []) t [] ps := fun _ => if_neg hskip
    rw [hrun,mem_removePass]
    constructor
    · rintro ⟨xs,ys,hps,hxs,-,htree,hper,he⟩
      have hd : isAbs deleteRoot = true := by
        by_contra hd
        exact hper.enabled (if_neg hd)
      rw [if_pos hd] at hper
      exact ⟨⟨⟨ht,hd⟩,⟨xs,ys,hps,hxs,by rw [hrun]; exact htree⟩,hper⟩,he⟩
    · rintro ⟨⟨⟨-,hd⟩,⟨xs,ys,hps,hxs,htree⟩,hper⟩,he⟩
      rw [hrun] at htree
      rw [if_pos hd] at htree ⊢
      exact ⟨xs,ys,hps,hxs,List.not_mem_nil,htree,hper,he⟩
  · have hskip : targetPath = [] ∨ isAbs targetPath = false := .inr (by simpa using ht)
    rw [deleteFiles,if_pos hskip]
    exact iff_of_false List.not_mem_nil fun h => ht h.1.rooted.1

def Confined (targetPath deleteRoot : Text) (r : Removal δ) : Prop :=
  Inside r.tree targetPath r.entry ∧ Inside r.tree deleteRoot r.entry

-- what the checks look at is what os.Remove meets
structure Sighted (t : FileTree δ) (targetPath deleteRoot p : Text) : Prop where
  view : ∀ e, t.removedEntry p = some e → InView t p e
  target : SpeltOut t targetPath
  delete : SpeltOut t deleteRoot

def SparesRoots (t : FileTree δ) (targetPath deleteRoot p : Text) : Prop :=
  ∀ e, t.removedEntry p = some e → NotRoot t targetPath e ∧ NotRoot t deleteRoot e

theorem retention_confined_iff (t : FileTree δ) (targetPath deleteRoot : Text) (paths : List Text)
    (hs : ∀ u p, Turn t targetPath deleteRoot paths u p → Sighted u targetPath deleteRoot p) :
    (∀ r ∈ (deleteFiles t targetPath deleteRoot paths).1, Confined targetPath deleteRoot r) ↔
      ∀ u p, Turn t targetPath deleteRoot paths u p → SparesRoots u targetPath deleteRoot p := by
  have hiff : ∀ r, Turn t targetPath deleteRoot paths r.tree r.path →
      r.tree.removedEntry r.path = some r.entry → (Confined targetPath deleteRoot r ↔
        NotRoot r.tree targetPath r.entry ∧ NotRoot r.tree deleteRoot r.entry) := by
    intro r hturn he
    have hsight := hs r.tree r.path hturn
    have hview := hsight.view r.entry he
    exact and_congr
      (inside_iff hturn.rooted.1 hturn.permitted.target he hview hsight.target)
      (inside_iff hturn.rooted.2 hturn.permitted.delete he hview hsight.delete)
  constructor
  · intro h u p hturn e he
    exact (hiff ⟨u,p,e⟩ hturn he).mp (h ⟨u,p,e⟩ (mem_deleteFiles.mpr ⟨hturn,he⟩))
  · intro h r hr
    obtain ⟨hturn,he⟩ := mem_deleteFiles.mp hr
    exact (hiff r hturn he).mpr (h r.tree r.path hturn r.entry he)

def linkedTree : FileTree Text where
  nodes := [([['b']],.dir),([['b'],['f']],.file []),([['s']],.link ['/','b'])]
  rooted := by decide

def linkedPath : Text := ['/','s','/','f']

theorem linked_removed :
    (deleteFiles linkedTree ['/','s'] ['/','s'] [linkedPath]).1 =
      [⟨linkedTree,linkedPath,⟨[['b']],['f']⟩⟩] ∧
    ∀ r ∈ (deleteFiles linkedTree ['/','s'] ['/','s'] [linkedPath]).1,
      Confined ['/','s'] ['/','s'] r := by
  have hturn : ∀ u p, Turn linkedTree ['/','s'] ['/','s'] [linkedPath] u p →
      u = linkedTree ∧ p = linkedPath := by
    rintro u p ⟨-,⟨xs,ys,hps,-,hu⟩,-⟩
    cases xs with
    | nil =>
      obtain ⟨rfl,-⟩ := List.cons.inj hps
      exact ⟨hu,rfl⟩
    | cons x xs => simp at hps
  have hentry : ∀ e, linkedTree.removedEntry linkedPath = some e → e = ⟨[['b']],['f']⟩ := by
    intro e he
    have hrun : linkedTree.removedEntry linkedPath = some ⟨[['b']],['f']⟩ := rfl
    exact Option.some.inj (he.symm.trans hrun)
  refine ⟨rfl,(retention_confined_iff linkedTree ['/','s'] ['/','s'] [linkedPath] ?_).mpr ?_⟩
  · intro u p h
    obtain ⟨rfl,rfl⟩ := hturn u p h
    refine ⟨fun e he => ?_,rfl,rfl⟩
    obtain rfl := hentry e he
    refine ⟨rfl,.inl fun l hl => ?_⟩
    have hfile : linkedTree.node [['b'],['f']] = some (.file []) := rfl
    exact absurd (hfile.symm.trans hl) (by simp)
  · intro u p h e he
    obtain ⟨rfl,rfl⟩ := hturn u p h
    obtain rfl := hentry e he
    have hroot : NotRoot linkedTree ['/','s'] ⟨[['b']],['f']⟩ := by
      intro hres
      have hb : linkedTree.resolve (clean ['/','s']) = .ok [['b']] := rfl
      exact absurd (Except.ok.inj (hb.symm.trans hres)) (by decide)
    exact ⟨hroot,hroot⟩

def outsideTree : FileTree Text where
  nodes := [([['b']],.dir),([['b'],['o']],.link ['/','e','/','x']),([['b'],['q']],.link ['/','e']),
    ([['e']],.dir),([['e'],['x']],.dir),([['e'],['f']],.file []),([['e'],['l']],.link ['/','b'])]
  rooted := by decide

def emptyRoot : FileTree Text where
  nodes := [([['b']],.dir)]
  rooted := by decide

def rootText : Text := ['/','b']

def dotdotPath : Text := ['/','b','/','o','/','.','.','/','f']

def linkPath : Text := ['/','b','/','q','/','l']

theorem not_confined {t : FileTree Text} {p : Text} {e : FileTree.Entry} {paths : List Text}
    (h : (deleteFiles t rootText rootText paths).1 = [⟨t,p,e⟩])
    (hr : t.resolve rootText = .ok [['b']]) (he : e.parent.head? ≠ some ['b']) :
    ¬ ∀ r ∈ (deleteFiles t rootText rootText paths).1, Confined rootText rootText r := by
  intro hall
  obtain ⟨⟨r,hres,hpre,-⟩,-⟩ := hall ⟨t,p,e⟩ (by rw [h]; exact List.mem_cons_self)
  have hroot : r = [['b']] := Except.ok.inj (hres.symm.trans hr)
  subst hroot
  obtain ⟨s,hs⟩ := hpre
  exact he (by rw [show e.parent = _ from hs.symm]; rfl)

theorem retention_removes_outside :
    (¬ ∀ r ∈ (deleteFiles outsideTree rootText rootText [dotdotPath]).1,
      Confined rootText rootText r) ∧
    (¬ ∀ r ∈ (deleteFiles outsideTree rootText rootText [linkPath]).1,
      Confined rootText rootText r) ∧
    ¬ ∀ r ∈ (deleteFiles emptyRoot rootText rootText [rootText]).1,
      Confined rootText rootText r := by
  refine ⟨?_,?_,?_⟩
  · have hrun : (deleteFiles outsideTree rootText rootText [dotdotPath]).1 =
        [⟨outsideTree,dotdotPath,⟨[['e']],['f']⟩⟩] := rfl
    exact not_confined hrun rfl (by decide)
  · have hrun : (deleteFiles outsideTree rootText rootText [linkPath]).1 =
        [⟨outsideTree,linkPath,⟨[['e']],['l']⟩⟩] := rfl
    exact not_confined hrun rfl (by decide)
  · have hrun : (deleteFiles emptyRoot rootText rootText [rootText]).1 =
        [⟨emptyRoot,rootText,⟨[],['b']⟩⟩] := rfl
    exact not_confined hrun rfl (by decide)

end VgBackup
