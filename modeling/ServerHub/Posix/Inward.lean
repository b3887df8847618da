import ServerHub.Posix.Resolution

namespace Posix

variable {δ : Type}

namespace FileTree

-- from a directory that is k deep the names go up at most k times, and then down by names of M only
def Inward (M : Name → Prop) : Nat → List Name → Prop
  | _, [] => True
  | k, c :: cs =>
      if c = [] ∨ c = dot then Inward M k cs
      else if c = dotdot then 0 < k ∧ Inward M (k - 1) cs
      else M c ∧ Inward M 0 cs

def TameLink (M : Name → Prop) (k : Nat) (target : Text) : Prop :=
  isAbs target = false ∧ Inward M k (segments target)

-- no link below D that has a name of M leads out of D
def Tame (M : Name → Prop) (D : Place) (t : FileTree δ) : Prop :=
  ∀ s c target, t.node (D ++ s ++ [c]) = some (.link target) → M c → TameLink M s.length target

-- what is left without the contents of D
def hollow (t : FileTree δ) (D : Place) : FileTree δ where
  nodes := t.nodes.filter fun e => decide (D <+: e.1 → e.1 = D)
  rooted := by
    intro e he
    obtain ⟨hm,hp⟩ := List.mem_filter.mp he
    obtain ⟨hne,hd⟩ := t.rooted e hm
    refine ⟨hne,hd.imp_right fun h => List.mem_filter.mpr ⟨h,decide_eq_true fun hpre => ?_⟩⟩
    have hself : e.1 = D := of_decide_eq_true hp (hpre.trans (List.dropLast_prefix e.1))
    exact absurd (hself ▸ hpre) (not_prefix_dropLast hne)

section Names

variable {M : Name → Prop} {k m : Nat} {c : Name} {cs xs ys : List Name}

theorem inward_skip (h : c = [] ∨ c = dot) : Inward M k (c :: cs) ↔ Inward M k cs := by
  rw [Inward,if_pos h]

theorem inward_up : Inward M k (dotdot :: cs) ↔ 0 < k ∧ Inward M (k - 1) cs := by
  rw [Inward,if_neg (by decide),if_pos rfl]

theorem inward_plain (h : Plain c) : Inward M k (c :: cs) ↔ M c ∧ Inward M 0 cs := by
  rw [Inward,if_neg h.1,if_neg h.2]

theorem Inward.mono (h : Inward M k cs) (hk : k ≤ m) : Inward M m cs := by
  induction cs generalizing k m with
  | nil => trivial
  | cons c cs ih =>
    rcases segment_cases c with hc | rfl | hc
    · exact (inward_skip hc).mpr (ih ((inward_skip hc).mp h) hk)
    · obtain ⟨hpos,h⟩ := inward_up.mp h
      exact inward_up.mpr ⟨by omega,ih h (by omega)⟩
    · exact (inward_plain hc).mpr ((inward_plain hc).mp h)

theorem Inward.append (hx : Inward M k xs) (hy : Inward M 0 ys) : Inward M k (xs ++ ys) := by
  induction xs generalizing k with
  | nil => exact hy.mono (Nat.zero_le k)
  | cons c xs ih =>
    rw [List.cons_append]
    rcases segment_cases c with hc | rfl | hc
    · exact (inward_skip hc).mpr (ih ((inward_skip hc).mp hx))
    · obtain ⟨hpos,hx⟩ := inward_up.mp hx
      exact inward_up.mpr ⟨hpos,ih hx⟩
    · obtain ⟨hM,hx⟩ := (inward_plain hc).mp hx
      exact (inward_plain hc).mpr ⟨hM,ih hx⟩

theorem inward_names (hv : ValidPlace cs) (hM : ∀ c ∈ cs, M c) : Inward M k cs := by
  induction cs generalizing k with
  | nil => trivial
  | cons c cs ih =>
    obtain ⟨hc,hcs⟩ := ValidPlace.cons.mp hv
    exact (inward_plain (ValidName.plain hc)).mpr ⟨hM c List.mem_cons_self,
      ih hcs fun d hd => hM d (List.mem_cons_of_mem c hd)⟩

end Names

section Walks

variable {t : FileTree δ} {M : Name → Prop} {D s q : Place} {c : Name} {cs : List Name}

theorem up_inside (hs : 0 < s.length) : (D ++ s).dropLast = D ++ s.dropLast :=
  List.dropLast_append_of_ne_nil (List.length_pos_iff.mp hs)

theorem tame_link (h : Tame M D t) {target : Text} (hn : t.node (D ++ s ++ [c]) = some (.link target))
    (hM : M c) (hcs : Inward M 0 cs) :
    isAbs target = false ∧ Inward M s.length (segments target ++ cs) := by
  obtain ⟨hrel,hin⟩ := h s c target hn hM
  exact ⟨hrel,hin.append hcs⟩

theorem follow_inside {f : Place → List Name → Except Errno Place} (h : Tame M D t)
    (hf : ∀ s ds, Inward M s.length ds → f (D ++ s) ds = .ok q → D <+: q)
    (hcs : Inward M s.length cs) (hw : t.follow f (D ++ s) cs = .ok q) : D <+: q := by
  induction cs generalizing s with
  | nil =>
    obtain rfl : D ++ s = q := Except.ok.inj hw
    exact List.prefix_append D s
  | cons c cs ih =>
    rcases segment_cases c with hc | rfl | hc
    · rw [follow_skip hc] at hw
      exact ih ((inward_skip hc).mp hcs) hw
    · obtain ⟨hpos,hcs⟩ := inward_up.mp hcs
      rw [follow_up,up_inside hpos] at hw
      exact ih (by rwa [List.length_dropLast]) hw
    · obtain ⟨hM,hcs⟩ := (inward_plain hc).mp hcs
      cases hn : t.node (D ++ s ++ [c]) with
      | none => simp [follow_none hc hn] at hw
      | some nd =>
        cases nd with
        | dir =>
          rw [follow_dir hc hn,List.append_assoc] at hw
          exact ih (hcs.mono (Nat.zero_le _)) hw
        | file x =>
          rw [follow_file hc hn] at hw
          split at hw
          · obtain rfl : D ++ s ++ [c] = q := Except.ok.inj hw
            rw [List.append_assoc]
            exact List.prefix_append D _
          · cases hw
        | link target =>
          obtain ⟨hrel,hin⟩ := tame_link h hn hM hcs
          rw [follow_link hc hn,hrel] at hw
          exact hf s _ hin hw

theorem walk_inside {n : Nat} (h : Tame M D t) (hcs : Inward M s.length cs)
    (hw : t.walk n (D ++ s) cs = .ok q) : D <+: q := by
  induction n generalizing s cs with
  | zero => exact follow_inside h (fun _ _ _ hq => by cases hq) hcs hw
  | succ n ih => exact follow_inside h (fun _ _ hin hq => ih hin hq) hcs hw

theorem landNew_inside {f : Place → List Name → Option Entry} {e : Entry} (h : Tame M D t)
    (hf : ∀ s ds, Inward M s.length ds → f (D ++ s) ds = some e → D <+: e.parent)
    (hcs : Inward M s.length cs) (hw : t.landNew f (D ++ s) cs = some e) : D <+: e.parent := by
  induction cs generalizing s with
  | nil => cases hw
  | cons c cs ih =>
    rcases segment_cases c with hc | rfl | hc
    · rw [landNew_skip hc] at hw
      exact ih ((inward_skip hc).mp hcs) hw
    · obtain ⟨hpos,hcs⟩ := inward_up.mp hcs
      rw [landNew_up,up_inside hpos] at hw
      exact ih (by rwa [List.length_dropLast]) hw
    · obtain ⟨hM,hcs⟩ := (inward_plain hc).mp hcs
      cases hn : t.node (D ++ s ++ [c]) with
      | none =>
        rw [landNew_none hc hn] at hw
        obtain ⟨-,he⟩ := Option.ite_none_right_eq_some.mp hw
        obtain rfl := Option.some.inj he
        exact List.prefix_append D s
      | some nd =>
        cases nd with
        | dir =>
          rw [landNew_dir hc hn,List.append_assoc] at hw
          exact ih (hcs.mono (Nat.zero_le _)) hw
        | file x => simp [landNew_file hc hn] at hw
        | link target =>
          obtain ⟨hrel,hin⟩ := tame_link h hn hM hcs
          rw [landNew_link hc hn,hrel] at hw
          exact hf s _ hin hw

theorem land_inside {n : Nat} {e : Entry} (h : Tame M D t) (hcs : Inward M s.length cs)
    (hw : t.land n (D ++ s) cs = some e) : D <+: e.parent := by
  induction n generalizing s cs with
  | zero => exact landNew_inside h (fun _ _ _ hq => by cases hq) hcs hw
  | succ n ih => exact landNew_inside h (fun _ _ hin hq => ih hin hq) hcs hw

theorem node_hollow {r : Place} (hr : r ≠ []) :
    (t.hollow D).node r = if D <+: r → r = D then t.node r else none := by
  rw [node_eq_look hr,node_eq_look hr]
  refine (look_filter (fun p => decide (D <+: p → p = D)) t.nodes r).trans ?_
  simp only [decide_eq_true_eq]

theorem hollow_mono {u : FileTree δ}
    (h : ∀ r nd, (D <+: r → r = D) → t.node r = some nd → u.node r = some nd) :
    Extends (t.hollow D) (u.hollow D) := by
  intro r nd hr
  by_cases hnil : r = []
  · subst hnil
    exact hr
  · rw [node_hollow hnil] at hr ⊢
    obtain ⟨hout,hn⟩ := Option.ite_none_right_eq_some.mp hr
    rw [if_pos hout]
    exact h r nd hout hn

theorem hollow_extends : Extends (t.hollow D) t := by
  intro r nd h
  by_cases hnil : r = []
  · subst hnil
    exact h
  · rw [node_hollow hnil] at h
    exact (Option.ite_none_right_eq_some.mp h).2

end Walks

end FileTree

theorem foldl_relative {cs : List Name} {n : Nat} {r : Place} (hcs : ∀ c ∈ cs, '/' ∉ c)
    (hr : ValidPlace r) : ∃ m v, ValidPlace v ∧
      cs.foldl (pushSegment false) (List.replicate n dotdot ++ r) = List.replicate m dotdot ++ v := by
  induction cs generalizing n r with
  | nil => exact ⟨n,r,hr,rfl⟩
  | cons c cs ih =>
    have hrest : ∀ d ∈ cs, '/' ∉ d := fun d hd => hcs d (List.mem_cons_of_mem c hd)
    rw [List.foldl_cons]
    by_cases hskip : c = [] ∨ c = dot
    · rw [pushSegment,if_pos hskip]
      exact ih hrest hr
    by_cases hup : c = dotdot
    · rw [pushSegment,if_neg hskip,if_pos hup]
      rcases List.eq_nil_or_concat' r with rfl | ⟨r,b,rfl⟩
      · have hmore : ∀ k, List.replicate k dotdot ++ [dotdot] = List.replicate (k + 1) dotdot ++ [] :=
          fun k => by rw [List.append_nil,List.replicate_succ']
        cases n with
        | zero =>
          rw [if_pos (by simp),if_neg Bool.noConfusion]
          exact ih (n := 1) hrest validPlace_nil
        | succ n =>
          rw [if_neg (by simp [List.replicate_succ]),if_pos (by simp [List.replicate_succ']),
            List.append_nil,hmore]
          exact ih hrest validPlace_nil
      · have hb : b ≠ dotdot := (hr b (by simp)).2.2.1
        rw [if_neg (by simp),if_neg (by simpa using hb),← List.append_assoc,List.dropLast_concat]
        exact ih hrest (ValidPlace.append.mp hr).1
    · rw [pushSegment,if_neg hskip,if_neg hup,List.append_assoc]
      have hc : ValidName c := ⟨fun h => hskip (.inl h),fun h => hskip (.inr h),hup,
        hcs c List.mem_cons_self⟩
      exact ih hrest (ValidPlace.append.mpr ⟨hr,ValidPlace.cons.mpr ⟨hc,validPlace_nil⟩⟩)

theorem components_descend {p : Text} (habs : isAbs p = false) (hup : hasPrefix (clean p) dotdot = false) :
    ValidPlace (components p) := by
  have hplain : ∀ c ∈ segments p, '/' ∉ c := fun c hc => segment_no_slash hc
  obtain ⟨m,v,hv,he⟩ := foldl_relative (n := 0) hplain validPlace_nil
  have hcomp : components p = List.replicate m dotdot ++ v := by
    rw [components,habs]
    exact he
  cases m with
  | zero => exact hcomp ▸ hv
  | succ m =>
    rw [clean,habs,hcomp] at hup
    simp only [List.replicate_succ,List.cons_append,reduceCtorEq,Bool.false_eq_true,if_false] at hup
    cases hrest : List.replicate m dotdot ++ v with
    | nil =>
      rw [hrest] at hup
      exact absurd hup (by decide)
    | cons b rest =>
      rw [hrest] at hup
      simp [hasPrefix,List.intercalate_cons_cons,dotdot] at hup

theorem joinPath_descend {p : Text} {q : Place} (habs : isAbs p = false)
    (hup : hasPrefix (clean p) dotdot = false) (hq : ValidPlace q) :
    joinPath (absText q) (clean p) = absText (q ++ components p) := by
  have hv := components_descend habs hup
  by_cases hnil : components p = []
  · rw [clean,habs,hnil,List.append_nil]
    exact joinPath_dot hq
  · have hclean : clean p = relText (components p) := by
      rw [clean,habs,if_neg Bool.noConfusion,if_neg hnil]
      rfl
    rw [hclean,joinPath_relText hv hnil hq]

end Posix
