import ServerHub.Transfer.Service

namespace Transfer

open Posix

variable {δ : Type} {t : FileTree δ} {root p a : Text} {q r : Place}

theorem slash_relText (hr : ValidPlace r) (hne : r ≠ []) : '/' :: relText r = absText r := by
  obtain ⟨c,rest,rfl⟩ := List.exists_cons_of_ne_nil hne
  rw [absText,if_neg hne]
  clear hne hr
  induction rest generalizing c with
  | nil => simp [relText,join]
  | cons d rest ih =>
    rw [join_cons,← ih d]
    simp [relText,List.intercalate_cons_cons]

theorem toClientPath_below (h : ValidPlace (q ++ r)) : toClientPath (absText q) (absText (q ++ r)) = absText r := by
  obtain ⟨hq,hr⟩ := ValidPlace.append.mp h
  unfold toClientPath
  dsimp only
  by_cases hne : r = []
  · subst hne
    rw [List.append_nil,relPath_self hq,if_pos rfl]
    rfl
  · rw [relPath_below h hne,if_neg ?_,slash_relText hr hne]
    obtain ⟨c,rest,rfl⟩ := List.exists_cons_of_ne_nil hne
    intro hdot
    have hnames := segments_relText hr hne
    rw [hdot] at hnames
    have hc : c = dot := (List.cons.inj (hnames.symm.trans (by decide : segments dot = [dot]))).1
    exact (ValidPlace.cons.mp hr).1.2.1 hc

theorem components_doubled (p : Text) : components ('/' :: '/' :: p) = components ('/' :: p) := by
  have hsplit (s : Text) : segments ('/' :: s) = [] :: segments s := segments_slash [] s
  rw [components,components,hsplit,hsplit]
  simp [isAbs,pushSegment]

theorem components_prefixed (p : Text) :
    components (if hasPrefix p ['/'] then p else '/' :: p) = components ('/' :: p) := by
  split
  · rename_i hp
    obtain ⟨tail,rfl⟩ := List.isPrefixOf_iff_prefix.mp hp
    exact (components_doubled tail).symm
  · rfl

theorem isTrashPath_iff : isTrashPath p = true ↔ [trashDirName] <+: components ('/' :: p) := by
  have habs : isAbs ('/' :: p) = true := rfl
  have hclean : clean (if hasPrefix p ['/'] then p else '/' :: p) = absText (components ('/' :: p)) := by
    rw [clean_abs,components_prefixed]
    split
    · rename_i hp
      exact hasPrefix_isAbs rfl hp
    · rfl
  have htrash : ValidPlace [trashDirName] := ValidPlace.cons.mpr ⟨valid_trashDirName,validPlace_nil⟩
  have hwithin : isTrashPath p = within (absText [trashDirName]) (absText (components ('/' :: p))) := by
    unfold isTrashPath
    dsimp only
    rw [hclean]
    rfl
  rw [hwithin,within_absText htrash (components_valid habs)]
  exact ⟨fun h => h.elim (fun he => he ▸ List.prefix_rfl) And.right,fun h => .inr ⟨by simp,h⟩⟩

theorem absText_head (q : Place) : ∃ w, absText q = '/' :: w := by
  have habs := isAbs_absText q
  cases hq : absText q with
  | nil => exact absurd hq (absText_ne_nil q)
  | cons x w =>
    rw [hq] at habs
    obtain rfl : x = '/' := by simpa [isAbs] using habs
    exact ⟨w,rfl⟩

theorem no_dotdot (hr : ValidPlace r) : dotdot ∉ segments (absText r) := by
  intro hmem
  by_cases hne : r = []
  · subst hne
    revert hmem
    decide
  · rw [segments_absText hr hne] at hmem
    rcases List.mem_cons.mp hmem with he | hmem
    · cases he
    · exact (hr _ hmem).2.2.1 rfl

theorem client_paths_round_trip (hroot : isAbs root = true) (h : resolveSafePath t root p = .ok a) :
    toClientPath root a = clean ('/' :: p) ∧ resolveSafePath t root (toClientPath root a) = .ok a ∧
      (isTrashPath p = true ↔ within (trashDir root) a = true) := by
  obtain ⟨-,rfl,hwithin,hassert⟩ := (resolveSafePath_iff hroot).mp h
  have habs : isAbs ('/' :: p) = true := rfl
  have hr := components_valid habs
  have hq := components_valid hroot
  have hvalid := ValidPlace.append.mpr ⟨hq,hr⟩
  have hclient : toClientPath root (absText (components root ++ components ('/' :: p))) =
      clean ('/' :: p) := by
    have hbase : toClientPath root = toClientPath (absText (components root)) := by
      funext b
      unfold toClientPath relPath
      rw [components_absText hq]
    rw [hbase,toClientPath_below hvalid,clean_abs habs]
  refine ⟨hclient,?_,?_⟩
  · have hagain : components ('/' :: clean ('/' :: p)) = components ('/' :: p) := by
      obtain ⟨w,hw⟩ : ∃ w, clean ('/' :: p) = '/' :: w := by
        rw [clean_abs habs]
        exact absText_head _
      rw [hw,components_doubled,← hw,clean_abs habs,components_absText hr]
    rw [hclient]
    refine (resolveSafePath_iff hroot).mpr ⟨?_,by rw [hagain],hwithin,hassert⟩
    rw [clean_abs habs]
    exact no_dotdot hr
  · have htrash : trashDir root = absText (components root ++ [trashDirName]) :=
      joinPath_abs hroot valid_trashDirName
    have hplace : ValidPlace (components root ++ [trashDirName]) :=
      ValidPlace.append.mpr ⟨hq,ValidPlace.cons.mpr ⟨valid_trashDirName,validPlace_nil⟩⟩
    rw [isTrashPath_iff,htrash,within_absText hplace hvalid]
    constructor
    · exact fun hpre => .inr ⟨by simp,(List.prefix_append_right_inj _).mpr hpre⟩
    · rintro (he | ⟨-,hpre⟩)
      · rw [← List.append_cancel_left he]
      · exact (List.prefix_append_right_inj _).mp hpre

theorem alias_round_trip : toClientPath ['/','r'] ['/','r','/','a','/','n'] = clean ['/','a','/','n'] ∧
    resolveSafePath aliasTree ['/','r'] (toClientPath ['/','r'] ['/','r','/','a','/','n']) =
      .ok ['/','r','/','a','/','n'] ∧
    (isTrashPath ['a','/','n'] = true ↔ within (trashDir ['/','r']) ['/','r','/','a','/','n'] = true) :=
  client_paths_round_trip (by decide) (by decide)

end Transfer
