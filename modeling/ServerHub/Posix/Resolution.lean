import ServerHub.Posix.Disk

namespace Posix

variable {δ : Type}

namespace FileTree

variable {t u : FileTree δ} {q cur d : Place} {c : Name} {cs xs ys : List Name} {nd : Node δ}

def Extends (t u : FileTree δ) : Prop := ∀ q nd, t.node q = some nd → u.node q = some nd

theorem follow_extends (h : Extends t u) {f g : Place → List Name → Except Errno Place}
    (hfg : ∀ q ds, f q ds = .ok d → g q ds = .ok d) (hw : t.follow f cur cs = .ok d) :
    u.follow g cur cs = .ok d := by
  induction cs generalizing cur with
  | nil => exact hw
  | cons c cs ih =>
    rcases segment_cases c with hc | rfl | hc
    · rw [follow_skip hc] at hw ⊢
      exact ih hw
    · rw [follow_up] at hw ⊢
      exact ih hw
    · cases hn : t.node (cur ++ [c]) with
      | none => simp [follow_none hc hn] at hw
      | some nd =>
        have hu := h _ _ hn
        cases nd with
        | dir =>
          rw [follow_dir hc hn] at hw
          rw [follow_dir hc hu]
          exact ih hw
        | file x =>
          rw [follow_file hc hn] at hw
          rw [follow_file hc hu]
          exact hw
        | link target =>
          rw [follow_link hc hn] at hw
          rw [follow_link hc hu]
          exact hfg _ _ hw

theorem walk_extends (h : Extends t u) {n : Nat} (hw : t.walk n cur cs = .ok d) :
    u.walk n cur cs = .ok d := by
  induction n generalizing cur cs with
  | zero => exact follow_extends h (fun _ _ hq => by simp at hq) hw
  | succ n ih => exact follow_extends h (fun _ _ hq => ih hq) hw

theorem extends_put (hfree : t.node q = none) : Extends t (t.put q nd) := by
  intro r x hr
  have hne : r ≠ q := by
    rintro rfl
    simp [hfree] at hr
  rw [node_put_other hfree hne,hr]

def Directory (t : FileTree δ) (q : Place) : Prop := ∀ r, r <+: q → t.node r = some .dir

theorem directory_nil : Directory t [] := by
  intro r hr
  rw [List.prefix_nil.mp hr]
  rfl

theorem directory_up (h : Directory t q) : Directory t q.dropLast :=
  fun r hr => h r (hr.trans (List.dropLast_prefix q))

theorem directory_snoc : Directory t (q ++ [c]) ↔ Directory t q ∧ t.node (q ++ [c]) = some .dir := by
  constructor
  · intro h
    exact ⟨fun r hr => h r (hr.trans (List.prefix_append q [c])),h _ (List.prefix_refl _)⟩
  · rintro ⟨h,hn⟩ r hr
    rcases List.prefix_concat_iff.mp hr with rfl | hr
    · exact hn
    · exact h r hr

theorem directory_link {target : Text} (h : Directory t q) :
    Directory t (if isAbs target then [] else q) := by
  split
  · exact directory_nil
  · exact h

-- what of t can be walked to and is missing from u is regular files
def Routes (t u : FileTree δ) : Prop := ∀ q c nd, Directory t q → t.node (q ++ [c]) = some nd →
  (∀ x, nd ≠ .file x) → u.node (q ++ [c]) = some nd

theorem follow_routes (h : Routes t u) (hd : t.node d = some .dir) (hcur : Directory t cur)
    {f g : Place → List Name → Except Errno Place}
    (hfg : ∀ q ds, Directory t q → f q ds = .ok d → g q ds = .ok d) (hw : t.follow f cur cs = .ok d) :
    u.follow g cur cs = .ok d := by
  induction cs generalizing cur with
  | nil => exact hw
  | cons c cs ih =>
    rcases segment_cases c with hc | rfl | hc
    · rw [follow_skip hc] at hw ⊢
      exact ih hcur hw
    · rw [follow_up] at hw ⊢
      exact ih (directory_up hcur) hw
    · cases hn : t.node (cur ++ [c]) with
      | none => simp [follow_none hc hn] at hw
      | some nd =>
        cases nd with
        | dir =>
          rw [follow_dir hc hn] at hw
          rw [follow_dir hc (h _ _ _ hcur hn nofun)]
          exact ih (directory_snoc.mpr ⟨hcur,hn⟩) hw
        | file x =>
          rw [follow_file hc hn] at hw
          split at hw
          · obtain rfl := Except.ok.inj hw
            rw [hd] at hn
            cases hn
          · cases hw
        | link target =>
          rw [follow_link hc hn] at hw
          rw [follow_link hc (h _ _ _ hcur hn nofun)]
          exact hfg _ _ (directory_link hcur) hw

theorem walk_routes (h : Routes t u) (hd : t.node d = some .dir) {n : Nat} (hcur : Directory t cur)
    (hw : t.walk n cur cs = .ok d) : u.walk n cur cs = .ok d := by
  induction n generalizing cur cs with
  | zero => exact follow_routes h hd hcur (fun _ _ _ hq => by simp at hq) hw
  | succ n ih => exact follow_routes h hd hcur (fun _ _ hq hw => ih hq hw) hw

theorem entryAt_routes (h : Routes t u) {p : Text} {e : Entry} (he : t.entryAt p = some e)
    (hd : t.node e.parent = some .dir) : u.entryAt p = some e := by
  unfold entryAt at he ⊢
  generalize ((segments p).filter (· ≠ [])).reverse = names at he ⊢
  cases names with
  | nil => cases he
  | cons c rest =>
    dsimp only at he ⊢
    split at he
    · cases he
    · rename_i hc
      rw [if_neg hc]
      split at he
      · cases he
      · rename_i d hw
        obtain rfl := Option.some.inj he
        rw [walk_routes h hd directory_nil hw]

theorem Extends.routes (h : Extends t u) : Routes t u := fun _ _ _ _ hq _ => h _ _ hq

theorem routes_prune {x : δ} (hx : t.node q = some (.file x)) : Routes t (t.prune q) := by
  intro r c nd hr hn hnd
  rw [node_prune_other,hn]
  intro hpre
  rcases List.prefix_concat_iff.mp hpre with rfl | hpre
  · rw [hx] at hn
    exact hnd x (Option.some.inj hn).symm
  · rw [hr q hpre] at hx
    cases hx

theorem extends_prune : Extends (t.prune q) t := by
  intro r nd hn
  by_cases hpre : q <+: r
  · rcases node_mem hn with ⟨rfl,rfl⟩ | ⟨-,hm⟩
    · rfl
    · exact absurd hpre (mem_prune.mp hm).2
  · rwa [node_prune_other hpre] at hn

theorem follow_node {f : Place → List Name → Except Errno Place} (hcur : Directory t cur)
    (hf : ∀ q ds, Directory t q → f q ds = .ok d → ∃ nd, t.node d = some nd)
    (h : t.follow f cur cs = .ok d) : ∃ nd, t.node d = some nd := by
  induction cs generalizing cur with
  | nil =>
    obtain rfl : cur = d := Except.ok.inj h
    exact ⟨_,hcur _ (List.prefix_refl _)⟩
  | cons c cs ih =>
    rcases segment_cases c with hc | rfl | hc
    · rw [follow_skip hc] at h
      exact ih hcur h
    · rw [follow_up] at h
      exact ih (directory_up hcur) h
    · cases hn : t.node (cur ++ [c]) with
      | none => simp [follow_none hc hn] at h
      | some nd =>
        cases nd with
        | dir =>
          rw [follow_dir hc hn] at h
          exact ih (directory_snoc.mpr ⟨hcur,hn⟩) h
        | file x =>
          rw [follow_file hc hn] at h
          split at h
          · exact ⟨_,Except.ok.inj h ▸ hn⟩
          · cases h
        | link target =>
          rw [follow_link hc hn] at h
          exact hf _ _ (directory_link hcur) h

theorem walk_node {n : Nat} (hcur : Directory t cur) (h : t.walk n cur cs = .ok d) :
    ∃ nd, t.node d = some nd := by
  induction n generalizing cur cs with
  | zero => exact follow_node hcur (fun _ _ _ hq => by simp at hq) h
  | succ n ih => exact follow_node hcur (fun _ _ hq hd => ih hq hd) h

theorem follow_before {f : Place → List Name → Except Errno Place} (hys : ys ≠ [])
    (hcur : Directory t cur)
    (hf : ∀ q ds, Directory t q → f q (ds ++ ys) = .ok d → ∃ e, f q ds = .ok e ∧ Directory t e)
    (h : t.follow f cur (xs ++ ys) = .ok d) : ∃ e, t.follow f cur xs = .ok e ∧ Directory t e := by
  induction xs generalizing cur with
  | nil => exact ⟨cur,rfl,hcur⟩
  | cons c xs ih =>
    rw [List.cons_append] at h
    rcases segment_cases c with hc | rfl | hc
    · rw [follow_skip hc] at h ⊢
      exact ih hcur h
    · rw [follow_up] at h ⊢
      exact ih (directory_up hcur) h
    · cases hn : t.node (cur ++ [c]) with
      | none => simp [follow_none hc hn] at h
      | some nd =>
        cases nd with
        | dir =>
          rw [follow_dir hc hn] at h ⊢
          exact ih (directory_snoc.mpr ⟨hcur,hn⟩) h
        | file x => simp [follow_file hc hn,hys] at h
        | link target =>
          rw [follow_link hc hn,← List.append_assoc] at h
          rw [follow_link hc hn]
          exact hf _ _ (directory_link hcur) h

theorem walk_before {n : Nat} (hys : ys ≠ []) (hcur : Directory t cur)
    (h : t.walk n cur (xs ++ ys) = .ok d) : ∃ e, t.walk n cur xs = .ok e ∧ Directory t e := by
  induction n generalizing cur xs with
  | zero => exact follow_before hys hcur (fun _ _ _ hq => by simp at hq) h
  | succ n ih => exact follow_before hys hcur (fun _ _ hq hd => ih hq hd) h

theorem walk_directory {n : Nat} (hcur : Directory t cur) (hw : t.walk n cur cs = .ok d)
    (hd : t.node d = some .dir) : Directory t d := by
  obtain ⟨m,-,hm⟩ := walk_append_ok [dot] hd hw
  have hdot : t.walk n cur (cs ++ [dot]) = .ok d := by
    obtain ⟨f,hf⟩ := walk_eq_follow t m
    rw [hm,hf,follow_skip (.inr rfl)]
    rfl
  obtain ⟨e,he,hdir⟩ := walk_before (by simp) hcur hdot
  obtain rfl := Except.ok.inj (hw.symm.trans he)
  exact hdir

-- q is its own real path: directories above it, and no link at it
structure Real (t : FileTree δ) (q : Place) : Prop where
  above : Directory t q.dropLast
  there : ∃ nd, t.node q = some nd ∧ ∀ target, nd ≠ .link target

theorem Directory.real (h : Directory t q) : Real t q :=
  ⟨directory_up h,_,h q (List.prefix_refl q),fun _ => nofun⟩

theorem Real.unlinked (h : Real t q) {r : Place} (hr : r <+: q) (target : Text) :
    t.node r ≠ some (.link target) := by
  intro hlink
  obtain ⟨nd,hnd,hplain⟩ := h.there
  rcases q.eq_nil_or_concat with rfl | ⟨init,c,rfl⟩
  · rw [List.prefix_nil.mp hr] at hlink
    cases hlink
  · rw [List.concat_eq_append] at hr hnd
    rcases List.prefix_concat_iff.mp hr with rfl | hr
    · rw [hnd] at hlink
      exact hplain target (Option.some.inj hlink)
    · have hdir := h.above r (by simpa using hr)
      rw [hdir] at hlink
      cases hlink

theorem follow_real {f : Place → List Name → Except Errno Place} (hcur : Directory t cur)
    (hf : ∀ q ds, Directory t q → f q ds = .ok d → Real t d) (h : t.follow f cur cs = .ok d) :
    Real t d := by
  induction cs generalizing cur with
  | nil => exact Except.ok.inj h ▸ hcur.real
  | cons c cs ih =>
    rcases segment_cases c with hc | rfl | hc
    · rw [follow_skip hc] at h
      exact ih hcur h
    · rw [follow_up] at h
      exact ih (directory_up hcur) h
    · cases hn : t.node (cur ++ [c]) with
      | none => simp [follow_none hc hn] at h
      | some nd =>
        cases nd with
        | dir =>
          rw [follow_dir hc hn] at h
          exact ih (directory_snoc.mpr ⟨hcur,hn⟩) h
        | file x =>
          rw [follow_file hc hn] at h
          split at h
          · refine Except.ok.inj h ▸ ⟨?_,_,hn,fun _ => nofun⟩
            rwa [List.dropLast_concat]
          · cases h
        | link target =>
          rw [follow_link hc hn] at h
          exact hf _ _ (directory_link hcur) h

theorem walk_real {n : Nat} (hcur : Directory t cur) (h : t.walk n cur cs = .ok d) : Real t d := by
  induction n generalizing cur cs with
  | zero => exact follow_real hcur (fun _ _ _ hq => by simp at hq) h
  | succ n ih => exact follow_real hcur (fun _ _ hq hd => ih hq hd) h

theorem walk_last {n : Nat} (hc : Plain c) (hw : t.walk n cur xs = .ok d) (hd : t.node d = some .dir) :
    (t.node (d ++ [c]) = none → t.walk n cur (xs ++ [c]) = .error .notExist) ∧
      ∀ nd, t.node (d ++ [c]) = some nd → (∀ target, nd ≠ .link target) →
        t.walk n cur (xs ++ [c]) = .ok (d ++ [c]) := by
  obtain ⟨m,-,hm⟩ := walk_append_ok [c] hd hw
  refine ⟨?_,?_⟩
  · intro hn
    obtain ⟨f,hf⟩ := walk_eq_follow t m
    rw [hm,hf,follow_none hc hn]
  · intro nd hn hl
    rw [hm,walk_single hc hn hl]

theorem walk_directories {n : Nat} (hq : ValidPlace q) (h : Directory t q) :
    t.walk n [] q = .ok q := by
  induction q using List.reverseRecOn with
  | nil =>
    obtain ⟨f,hf⟩ := walk_eq_follow t n
    rw [hf]
    rfl
  | append_singleton q c ih =>
    obtain ⟨hqs,hc⟩ := ValidPlace.append.mp hq
    have hname := (ValidPlace.cons.mp hc).1
    obtain ⟨habove,hn⟩ := directory_snoc.mp h
    have hplain : Plain c := ⟨fun he => he.elim hname.1 hname.2.1,hname.2.2.1⟩
    exact (walk_last hplain (ih hqs habove) (habove q (List.prefix_refl q))).2 _ hn fun _ => nofun

theorem Real.walk {n : Nat} (hq : ValidPlace q) (h : Real t q) : t.walk n [] q = .ok q := by
  obtain ⟨nd,hn,hl⟩ := h.there
  rcases q.eq_nil_or_concat with rfl | ⟨q,c,rfl⟩
  · exact walk_directories hq directory_nil
  · rw [List.concat_eq_append] at hq hn h ⊢
    obtain ⟨hqs,hc⟩ := ValidPlace.append.mp hq
    have hname := (ValidPlace.cons.mp hc).1
    have hplain : Plain c := ⟨fun he => he.elim hname.1 hname.2.1,hname.2.2.1⟩
    have habove : Directory t q := by simpa using h.above
    exact (walk_last hplain (walk_directories hqs habove) (habove q (List.prefix_refl q))).2 nd hn hl

section Landing

variable {onLink : Place → List Name → Option Entry} {e : Entry}

theorem landNew_skip (h : c = [] ∨ c = dot) :
    t.landNew onLink cur (c :: cs) = t.landNew onLink cur cs := by
  simp [landNew,h]

theorem landNew_up : t.landNew onLink cur (dotdot :: cs) = t.landNew onLink cur.dropLast cs := by
  simp [landNew,dotdot,dot]

theorem landNew_none (hc : Plain c) (hn : t.node (cur ++ [c]) = none) :
    t.landNew onLink cur (c :: cs) = if cs = [] then some ⟨cur,c⟩ else none := by
  rw [landNew,if_neg hc.1,if_neg hc.2,hn]

theorem landNew_dir (hc : Plain c) (hn : t.node (cur ++ [c]) = some .dir) :
    t.landNew onLink cur (c :: cs) = t.landNew onLink (cur ++ [c]) cs := by
  rw [landNew,if_neg hc.1,if_neg hc.2,hn]

theorem landNew_file {x : δ} (hc : Plain c) (hn : t.node (cur ++ [c]) = some (.file x)) :
    t.landNew onLink cur (c :: cs) = none := by
  rw [landNew,if_neg hc.1,if_neg hc.2,hn]

theorem landNew_link {target : Text} (hc : Plain c)
    (hn : t.node (cur ++ [c]) = some (.link target)) :
    t.landNew onLink cur (c :: cs) =
      onLink (if isAbs target then [] else cur) (segments target ++ cs) := by
  rw [landNew,if_neg hc.1,if_neg hc.2,hn]

def Free (t : FileTree δ) (e : Entry) : Prop := Directory t e.parent ∧ t.node e.place = none

theorem landNew_free (hcur : Directory t cur)
    (hf : ∀ q ds, Directory t q → onLink q ds = some e → Free t e)
    (h : t.landNew onLink cur cs = some e) : Free t e := by
  induction cs generalizing cur with
  | nil => cases h
  | cons c cs ih =>
    rcases segment_cases c with hc | rfl | hc
    · rw [landNew_skip hc] at h
      exact ih hcur h
    · rw [landNew_up] at h
      exact ih (directory_up hcur) h
    · cases hn : t.node (cur ++ [c]) with
      | none =>
        rw [landNew_none hc hn] at h
        obtain ⟨-,he⟩ := Option.ite_none_right_eq_some.mp h
        obtain rfl := Option.some.inj he
        exact ⟨hcur,hn⟩
      | some nd =>
        cases nd with
        | dir =>
          rw [landNew_dir hc hn] at h
          exact ih (directory_snoc.mpr ⟨hcur,hn⟩) h
        | file x => simp [landNew_file hc hn] at h
        | link target =>
          rw [landNew_link hc hn] at h
          exact hf _ _ (directory_link hcur) h

theorem land_free {n : Nat} (hcur : Directory t cur) (h : t.land n cur cs = some e) : Free t e := by
  induction n generalizing cur cs with
  | zero => exact landNew_free hcur (fun _ _ _ hq => by cases hq) h
  | succ n ih => exact landNew_free hcur (fun _ _ hq hd => ih hq hd) h

theorem landing_free {p : Text} (h : t.landing p = some e) : Free t e := land_free directory_nil h

theorem landNew_append {f : Place → List Name → Except Errno Place}
    {Q : Option Entry → Prop} (hd : t.node d = some .dir)
    (h0 : Q (t.landNew onLink d ys)) (hl : ∀ q ds, f q ds = .ok d → Q (onLink q (ds ++ ys)))
    (h : t.follow f cur xs = .ok d) : Q (t.landNew onLink cur (xs ++ ys)) := by
  induction xs generalizing cur with
  | nil =>
    obtain rfl : cur = d := Except.ok.inj h
    exact h0
  | cons c xs ih =>
    rw [List.cons_append]
    rcases segment_cases c with hc | rfl | hc
    · rw [follow_skip hc] at h
      rw [landNew_skip hc]
      exact ih h
    · rw [follow_up] at h
      rw [landNew_up]
      exact ih h
    · cases hn : t.node (cur ++ [c]) with
      | none => simp [follow_none hc hn] at h
      | some nd =>
        cases nd with
        | dir =>
          rw [follow_dir hc hn] at h
          rw [landNew_dir hc hn]
          exact ih h
        | file x =>
          rw [follow_file hc hn] at h
          split at h
          · obtain rfl : cur ++ [c] = d := Except.ok.inj h
            simp [hn] at hd
          · simp at h
        | link target =>
          rw [follow_link hc hn] at h
          rw [landNew_link hc hn,← List.append_assoc]
          exact hl _ _ h

theorem land_append {n : Nat} (ys : List Name) (hd : t.node d = some .dir)
    (h : t.walk n cur xs = .ok d) : ∃ m ≤ n, t.land n cur (xs ++ ys) = t.land m d ys := by
  induction n generalizing cur xs with
  | zero =>
    exact landNew_append (Q := fun r => ∃ m ≤ 0, r = t.land m d ys) hd ⟨0,le_rfl,rfl⟩
      (fun _ _ hq => by simp at hq) h
  | succ n ih =>
    refine landNew_append (Q := fun r => ∃ m ≤ n + 1, r = t.land m d ys) hd ⟨n + 1,le_rfl,rfl⟩ ?_ h
    intro q ds hq
    obtain ⟨m,hm,he⟩ := ih hq
    exact ⟨m,by omega,he⟩

theorem land_eq_landNew (t : FileTree δ) (n : Nat) : ∃ f, t.land n = t.landNew f := by
  cases n with
  | zero => exact ⟨_,rfl⟩
  | succ n => exact ⟨_,rfl⟩

theorem land_here {n : Nat} (hc : Plain c) (hd : t.node d = some .dir)
    (h : t.walk n cur xs = .ok d) (hn : t.node (d ++ [c]) = none) :
    t.land n cur (xs ++ [c]) = some ⟨d,c⟩ := by
  obtain ⟨m,-,hm⟩ := land_append [c] hd h
  obtain ⟨f,hf⟩ := land_eq_landNew t m
  rw [hm,hf,landNew_none hc hn,if_pos rfl]

end Landing

theorem filter_valid (hq : ValidPlace q) : q.filter (· ≠ []) = q :=
  List.filter_eq_self.mpr fun c hc => by simpa using (hq c hc).1

theorem names_absText (hq : ValidPlace q) : (segments (absText q)).filter (· ≠ []) = q := by
  by_cases e : q = []
  · subst e
    decide
  · rw [segments_absText hq e,List.filter_cons_of_neg (by simp),filter_valid hq]

theorem entryAt_root : t.entryAt (absText []) = none := by
  have hnames : (segments (absText [])).filter (· ≠ []) = [] := by decide
  unfold entryAt
  rw [hnames]
  rfl

theorem entryAt_absText (hq : ValidPlace (q ++ [c])) :
    t.entryAt (absText (q ++ [c])) = (t.walk osLinkLimit [] q).toOption.map fun d => ⟨d,c⟩ := by
  have hc := (ValidPlace.cons.mp (ValidPlace.append.mp hq).2).1
  have hnames : ((segments (absText (q ++ [c]))).filter (· ≠ [])).reverse = c :: q.reverse := by
    rw [names_absText hq,List.reverse_append]
    rfl
  unfold entryAt
  rw [hnames]
  simp only [List.reverse_reverse]
  rw [if_neg (by simp [hc.2.1,hc.2.2.1])]
  cases t.walk osLinkLimit [] q <;> rfl

end FileTree

open FileTree

namespace Disk

variable {d : Disk} {q : Place} {c : Name} {e x y : Entry} {nd : Node Nat} {p a b : Text}

theorem resolved_absText (hq : ValidPlace q) :
    d.resolved (absText q) = (d.tree.walk osLinkLimit [] q).mapError .ofErrno := by
  rw [resolved,walk_segments_absText hq]
  cases d.tree.walk osLinkLimit [] q <;> rfl

theorem named_ok : d.named p = .ok (e,nd) ↔
    d.tree.entryAt p = some e ∧ d.tree.dirAt e.parent = true ∧ d.tree.node e.place = some nd := by
  constructor
  · intro h
    unfold named at h
    split at h
    · cases hr : d.resolved p <;> simp [hr,Except.bind] at h
    · rename_i x hx
      split at h
      · cases h
      · rename_i hdir
        split at h
        · cases h
        · rename_i y hy
          obtain ⟨rfl,rfl⟩ := Prod.mk.inj (Except.ok.inj h)
          exact ⟨hx,by simpa using hdir,hy⟩
  · rintro ⟨he,hdir,hn⟩
    simp [named,he,hdir,hn]

theorem vacantEntry_ok : d.vacantEntry p = .ok e ↔
    d.tree.entryAt p = some e ∧ d.tree.vacant e = true := by
  constructor
  · intro h
    unfold vacantEntry at h
    split at h
    · cases h
    · rename_i x hx
      split at h
      · rename_i hv
        obtain rfl := Except.ok.inj h
        exact ⟨hx,hv⟩
      · split at h <;> cases h
  · rintro ⟨he,hv⟩
    simp [vacantEntry,he,hv]

theorem vacant_iff {t : FileTree Nat} :
    t.vacant e = true ↔ t.node e.parent = some .dir ∧ t.node e.place = none := by
  simp [vacant,dirAt_iff]

theorem found_ok {r : Place} : d.found p = .ok (r,nd) ↔
    d.resolved p = .ok r ∧ d.tree.node r = some nd := by
  constructor
  · intro h
    unfold found at h
    split at h
    · cases h
    · rename_i s hs
      split at h
      · cases h
      · rename_i y hy
        obtain ⟨rfl,rfl⟩ := Prod.mk.inj (Except.ok.inj h)
        exact ⟨hs,hy⟩
  · rintro ⟨hr,hn⟩
    simp [found,hr,hn]

section Clean

variable (hq : ValidPlace (q ++ [c]))
include hq

theorem entryAt_some_iff : d.tree.entryAt (absText (q ++ [c])) = some e ↔
    d.tree.walk osLinkLimit [] q = .ok e.parent ∧ e.name = c := by
  rw [entryAt_absText hq]
  cases d.tree.walk osLinkLimit [] q with
  | error x => simp [Except.toOption]
  | ok r =>
    obtain ⟨parent,name⟩ := e
    simp [Except.toOption,eq_comm]

theorem found_vacant (he : d.tree.entryAt (absText (q ++ [c])) = some e)
    (hv : d.tree.vacant e = true) : d.found (absText (q ++ [c])) = .error .notExist := by
  obtain ⟨hw,rfl⟩ := (entryAt_some_iff hq).mp he
  obtain ⟨hdir,hn⟩ := vacant_iff.mp hv
  have hc := (ValidPlace.cons.mp (ValidPlace.append.mp hq).2).1
  have hmissing := (walk_last (ValidName.plain hc) hw hdir).1 hn
  rw [found,resolved_absText hq,hmissing]
  rfl

theorem found_named (he : d.named (absText (q ++ [c])) = .ok (e,nd))
    (hl : ∀ target, nd ≠ .link target) : d.found (absText (q ++ [c])) = .ok (e.place,nd) := by
  obtain ⟨hentry,hdir,hn⟩ := named_ok.mp he
  obtain ⟨hw,rfl⟩ := (entryAt_some_iff hq).mp hentry
  have hc := (ValidPlace.cons.mp (ValidPlace.append.mp hq).2).1
  have hwalk := (walk_last (ValidName.plain hc) hw (dirAt_iff.mp hdir)).2 nd hn hl
  refine found_ok.mpr ⟨?_,hn⟩
  rw [resolved_absText hq,hwalk]
  rfl

end Clean

def All (P : Effect → Prop) (d : Disk) {β : Type} (s : Syscall β) : Prop :=
  ∀ x ∈ (d.run s).effects, P x

section Effects

variable {P : Effect → Prop}

theorem all_of_quiet {β : Type} {s : Syscall β} (h : (d.run s).effects = []) : d.All P s := by
  simp [All,h]

theorem all_enterAt : (∀ x ∈ (d.enterAt p nd).effects, P x) ↔
    ∀ e, d.vacantEntry p = .ok e → P (.create e) := by
  unfold enterAt
  cases d.vacantEntry p <;> simp [failed]

theorem all_mkdir : d.All P (.mkdir p) ↔ ∀ e, d.vacantEntry p = .ok e → P (.create e) := all_enterAt

theorem all_remove : d.All P (.remove p) ↔ ∀ e, d.tree.removedEntry p = some e → P (.remove e) := by
  unfold All run removing FileTree.remove
  cases hr : d.tree.removedEntry p with
  | none => cases hn : d.named p <;> simp [hr,hn,failed]
  | some e => simp [hr]

theorem remove_none (h : d.tree.removedEntry p = none) : (d.run (.remove p)).disk = d := by
  cases hn : d.named p <;> simp [run,removing,FileTree.remove,h,hn,failed]

theorem remove_some (h : d.tree.removedEntry p = some e) :
    d.run (.remove p) = ⟨{ d with tree := d.tree.prune e.place },.ok (),[.remove e]⟩ := by
  simp [run,removing,FileTree.remove,h]

theorem all_create : d.All P (.create p) ↔
    (∀ r i, d.found p = .ok (r,.file i) → P (.write r)) ∧
      ((∀ y, d.found p ≠ .ok y) → ∀ e, d.tree.landing p = some e → P (.create e)) := by
  unfold All run create
  cases hf : d.found p with
  | error e => cases hl : d.tree.landing p <;> simp [hf,hl,failed]
  | ok y =>
    obtain ⟨q,nd⟩ := y
    cases nd <;> simp [hf,failed]

def Renames (d : Disk) (a b : Text) (x y : Entry) : Prop :=
  ∃ nd, d.named a = .ok (x,nd) ∧ d.tree.entryAt b = some y ∧ d.same x y nd = false ∧
    d.tree.renamable x y nd = .ok ()

theorem moving_cases (d : Disk) (a b : Text) :
    (∃ x y d', d.Renames a b x y ∧ d.run (.rename a b) = ⟨d',.ok (),[.rename x y]⟩) ∨
      (∃ x nd y, d.named a = .ok (x,nd) ∧ d.tree.entryAt b = some y ∧ d.same x y nd = true ∧
        d.run (.rename a b) = ⟨d,.ok (),[]⟩) ∨
      (∀ x y nd, d.named a = .ok (x,nd) → d.tree.entryAt b = some y → d.same x y nd = false) ∧
        (∀ x y, ¬d.Renames a b x y) ∧ ∃ e, d.run (.rename a b) = d.failed e := by
  unfold run moving Renames
  cases hn : d.named a with
  | error e => exact .inr (.inr ⟨by simp,by simp,e,by simp [hn]⟩)
  | ok z =>
    obtain ⟨x,nd⟩ := z
    cases hb : d.tree.entryAt b with
    | none => exact .inr (.inr ⟨by simp,by simp,.other,by simp [hn,hb]⟩)
    | some y =>
      cases hs : d.same x y nd with
      | true => exact .inr (.inl ⟨x,nd,y,rfl,rfl,hs,by simp [hn,hb,hs]⟩)
      | false =>
        cases hr : d.tree.renamable x y nd with
        | error e => exact .inr (.inr ⟨by simp_all,by simp_all,e,by simp [hn,hb,hs,hr]⟩)
        | ok u =>
        refine .inl ⟨x,y,{ d with tree := d.tree.move x.place y.place },⟨nd,rfl,rfl,hs,hr⟩,?_⟩
        simp [hn,hb,hs,hr]

theorem Renames.unique {x' y' : Entry} (h : d.Renames a b x y) (k : d.Renames a b x' y') :
    x = x' ∧ y = y' := by
  obtain ⟨nd,hx,hy,-⟩ := h
  obtain ⟨nd',hx',hy',-⟩ := k
  rw [hx] at hx'
  rw [hy] at hy'
  exact ⟨(Prod.mk.inj (Except.ok.inj hx')).1,Option.some.inj hy'⟩

theorem all_rename : d.All P (.rename a b) ↔ ∀ x y, d.Renames a b x y → P (.rename x y) := by
  rcases moving_cases d a b with ⟨x,y,d',hr,hrun⟩ | ⟨x,nd,y,hx,hy,hs,hrun⟩ | ⟨-,hr,e,hrun⟩
  · unfold All
    rw [hrun]
    constructor
    · intro h x' y' hr'
      obtain ⟨rfl,rfl⟩ := hr.unique hr'
      exact h _ (by simp)
    · intro h z hz
      rw [List.mem_singleton.mp hz]
      exact h x y hr
  · refine iff_of_true (all_of_quiet (by rw [hrun])) ?_
    rintro x' y' ⟨nd',hx',hy',hs',-⟩
    obtain ⟨rfl,rfl⟩ := Prod.mk.inj (Except.ok.inj (hx.symm.trans hx'))
    obtain rfl := Option.some.inj (hy.symm.trans hy')
    rw [hs] at hs'
    cases hs'
  · exact iff_of_true (all_of_quiet (by rw [hrun]; rfl)) fun x y h => absurd h (hr x y)

theorem mem_below {t : FileTree Nat} (hx : x ∈ t.below e) :
    e.parent <+: x.parent := by
  obtain ⟨y,hy,rfl⟩ := List.mem_map.mp hx
  obtain ⟨-,hpre⟩ := List.mem_filter.mp hy
  obtain ⟨s,hs⟩ := List.isPrefixOf_iff_prefix.mp hpre
  rw [← hs,Entry.place,List.append_assoc,List.dropLast_append_of_ne_nil (by simp)]
  exact List.prefix_append _ _

theorem self_below {t : FileTree Nat} (h : t.node e.place = some nd) : e ∈ t.below e := by
  rcases node_mem h with ⟨hnil,-⟩ | ⟨-,hm⟩
  · simp [Entry.place] at hnil
  · refine List.mem_map.mpr ⟨_,List.mem_filter.mpr ⟨hm,by simp⟩,?_⟩
    simp [Entry.place]

theorem all_removeAll : d.All P (.removeAll p) ↔
    ∀ e nd, d.named p = .ok (e,nd) → ∀ x ∈ d.tree.below e, P (.remove x) := by
  unfold All run removingAll
  cases hn : d.named p with
  | error e => cases e <;> simp [hn,failed]
  | ok z =>
    obtain ⟨e,nd⟩ := z
    simp only [hn,List.mem_map,forall_exists_index,and_imp,forall_apply_eq_imp_iff₂]
    constructor
    · rintro h e' nd' heq
      obtain ⟨rfl,rfl⟩ := Prod.mk.inj (Except.ok.inj heq)
      exact h
    · intro h
      exact h e nd rfl

end Effects

theorem stat_of_lstat_dir (hq : ValidPlace q) {st : Stat} (h : d.lstat (absText q) = .ok st)
    (hk : st.kind = .dir) : d.stat (absText q) = .ok st := by
  rcases List.eq_nil_or_concat' q with rfl | ⟨r,c,rfl⟩
  · rwa [lstat,entryAt_root] at h
  · unfold lstat at h
    split at h
    · exact h
    · cases hn : d.named (absText (r ++ [c])) with
      | error e => simp [hn,Except.map] at h
      | ok z =>
        obtain ⟨e,nd⟩ := z
        simp only [hn,Except.map,Except.ok.injEq] at h
        subst h
        cases nd with
        | dir =>
          rw [stat,found_named hq hn (fun _ => by simp)]
          rfl
        | file i => cases hk
        | link target => cases hk

-- what the link of a name that leads to no directory comes to; where it fails without EEXIST, rename
-- has nothing to do either, unless the filesystem has no hard links
inductive Linked (a b : Text) (d : Disk) : Prop where
  | made (x : Entry) (nd : Node Nat) (y : Entry) (named : d.named a = .ok (x,nd)) (file : nd ≠ .dir)
      (vacant : d.vacantEntry b = .ok y) (links : d.hardLinks = true)
      (result : d.run (.link a b) = ⟨d.enter y nd,.ok (),[.create y]⟩)
  | refused (x : Entry) (nd : Node Nat) (y : Entry) (named : d.named a = .ok (x,nd)) (file : nd ≠ .dir)
      (vacant : d.vacantEntry b = .ok y) (result : d.run (.link a b) = d.failed .other)
  | failed (e : SysErr) (result : d.run (.link a b) = d.failed e)
      (nothing : (∀ y, d.vacantEntry b ≠ .ok y) ∨ ∀ x nd, d.named a ≠ .ok (x,nd))
      (norename : e ≠ .exist → ∀ x y, ¬d.Renames a b x y)

theorem link_cases (hq : ValidPlace q) (hdir : ∀ st, d.stat (absText q) = .ok st → st.kind ≠ .dir) :
    Linked (absText q) b d := by
  cases hn : d.named (absText q) with
  | error e =>
    refine .failed e (by simp [run,linking,hn]) (.inr fun x nd hx => ?_) ?_
    · simp [hn] at hx
    · rintro - x y ⟨nd,hx,-⟩
      simp [hn] at hx
  | ok z =>
    obtain ⟨x,nd⟩ := z
    have hnd : nd ≠ .dir := by
      rintro rfl
      rcases List.eq_nil_or_concat' q with rfl | ⟨r,c,rfl⟩
      · obtain ⟨hentry,-⟩ := named_ok.mp hn
        simp [entryAt_root] at hentry
      · have hfound := found_named hq hn (fun _ => by simp)
        exact hdir (d.info x.place .dir) (by rw [stat,hfound]; rfl) rfl
    cases hv : d.vacantEntry b with
    | ok y =>
      by_cases hl : d.hardLinks = true
      · exact .made x nd y hn hnd hv hl (by simp [run,linking,hn,hv,hnd,hl])
      · exact .refused x nd y hn hnd hv (by simp [run,linking,hn,hv,hl])
    | error e =>
      refine .failed e (by simp [run,linking,hn,hv]) (.inl fun y hy => ?_) ?_
      · simp [hv] at hy
      rintro he w y ⟨nd',-,hy,-,hok⟩
      unfold vacantEntry at hv
      rw [hy] at hv
      unfold renamable at hok
      cases hvac : d.tree.vacant y <;> cases hpar : d.tree.dirAt y.parent <;> simp_all

theorem renames_vacant {a : Text} (hn : d.named a = .ok (x,nd)) (hnd : nd ≠ .dir)
    (hv : d.vacantEntry b = .ok y) : d.Renames a b x y := by
  obtain ⟨hy,hvac⟩ := vacantEntry_ok.mp hv
  obtain ⟨hpar,hnone⟩ := vacant_iff.mp hvac
  refine ⟨nd,hn,hy,?_,?_⟩
  · simp [same,hnone]
  · unfold renamable
    simp [dirAt_iff.mpr hpar,hnd,hnone]

theorem last_absText (hq : ValidPlace (q ++ [c])) : (absText (q ++ [c])).getLast? ≠ some '/' := by
  have hc := (ValidPlace.cons.mp (ValidPlace.append.mp hq).2).1
  have htext : absText (q ++ [c]) = join q ++ ['/'] ++ c := by simp [absText,join]
  rw [htext,List.getLast?_append_of_ne_nil _ hc.1]
  exact fun h => hc.2.2.2 (List.mem_of_getLast? h)

theorem removed_after_link (hq : ValidPlace q) (hn : d.named (absText q) = .ok (x,nd))
    (hnd : nd ≠ .dir) (hv : d.vacantEntry b = .ok y) :
    (d.enter y nd).tree.removedEntry (absText q) = some x := by
  obtain ⟨hentry,hdir,hnode⟩ := named_ok.mp hn
  rcases List.eq_nil_or_concat' q with rfl | ⟨r,c,rfl⟩
  · simp [entryAt_root] at hentry
  · have hfree := (vacant_iff.mp (vacantEntry_ok.mp hv).2).2
    have hext : Extends d.tree (d.enter y nd).tree := extends_put hfree
    obtain ⟨hw,hname⟩ := (entryAt_some_iff hq).mp hentry
    have hentry' : (d.enter y nd).tree.entryAt (absText (r ++ [c])) = some x :=
      (entryAt_some_iff hq).mpr ⟨walk_extends hext hw,hname⟩
    have hremovable : (d.enter y nd).tree.removable (absText (r ++ [c])) x = true := by
      unfold removable
      rw [hext _ _ (dirAt_iff.mp hdir),hext _ _ hnode]
      cases nd with
      | dir => exact absurd rfl hnd
      | _ => simpa using last_absText hq
    exact Option.filter_eq_some_iff.mpr ⟨hentry',hremovable⟩

theorem create_ok {i : Nat} (h : (d.create p).answer = .ok i) :
    (∃ r, d.found p = .ok (r,.file i) ∧ (d.create p).disk.tree = d.tree) ∨
      (∀ z, d.found p ≠ .ok z) ∧ ∃ x, d.tree.landing p = some x ∧ (d.create p).disk = d.allocate x := by
  unfold create at h ⊢
  cases hf : d.found p with
  | ok z =>
    obtain ⟨r,nd⟩ := z
    cases nd with
    | file j =>
      rw [hf] at h
      obtain rfl := Except.ok.inj h
      exact .inl ⟨r,rfl,rfl⟩
    | _ => simp [hf,failed] at h
  | error err =>
    cases hl : d.tree.landing p with
    | none => simp [hf,hl,failed] at h
    | some x => exact .inr ⟨by simp,x,rfl,rfl⟩

theorem create_error {err : SysErr} (h : (d.create p).answer = .error err) :
    d.create p = d.failed err := by
  unfold create at h ⊢
  cases hf : d.found p with
  | ok z =>
    obtain ⟨r,nd⟩ := z
    cases nd <;> simp_all [failed]
  | error err' => cases hl : d.tree.landing p <;> simp_all [failed]

theorem create_extends : Extends d.tree (d.create p).disk.tree := by
  cases h : (d.create p).answer with
  | error err =>
    rw [create_error h]
    exact fun _ _ hn => hn
  | ok i =>
    rcases create_ok h with ⟨-,-,htree⟩ | ⟨-,x,hland,hdisk⟩
    · rw [htree]
      exact fun _ _ hn => hn
    · rw [hdisk]
      exact extends_put (landing_free hland).2

theorem landing_absText (hq : ValidPlace (q ++ [c])) :
    d.tree.landing (absText (q ++ [c])) = d.tree.land osLinkLimit [] (q ++ [c]) := by
  obtain ⟨f,hf⟩ := land_eq_landNew d.tree osLinkLimit
  rw [landing,segments_absText hq (by simp),hf,landNew_skip (.inl rfl)]

theorem removable_of (hq : ValidPlace (q ++ [c])) {t : FileTree Nat} (hdir : t.node e.parent = some .dir)
    (hn : t.node e.place = some nd) (hnd : nd ≠ .dir) : t.removable (absText (q ++ [c])) e = true := by
  unfold removable
  rw [hdir,hn]
  cases nd with
  | dir => exact absurd rfl hnd
  | _ => simpa using last_absText hq

theorem removed_after_create (hq : ValidPlace (q ++ [c])) {i : Nat}
    (h : (d.create (absText (q ++ [c]))).answer = .ok i)
    (he : d.tree.entryAt (absText (q ++ [c])) = some e) (hdir : d.tree.node e.parent = some .dir) :
    (d.create (absText (q ++ [c]))).disk.tree.removedEntry (absText (q ++ [c])) = some e := by
  have hc := (ValidPlace.cons.mp (ValidPlace.append.mp hq).2).1
  obtain ⟨hw,hname⟩ := (entryAt_some_iff hq).mp he
  have hlast := walk_last (ValidName.plain hc) hw hdir
  have hplace : e.parent ++ [c] = e.place := by rw [← hname]; rfl
  have hnamed {nd : Node Nat} (hn : d.tree.node e.place = some nd) : d.named (absText (q ++ [c])) = .ok (e,nd) :=
    named_ok.mpr ⟨he,dirAt_iff.mpr hdir,hn⟩
  rcases create_ok h with ⟨r,hfound,htree⟩ | ⟨hnot,x,hland,hdisk⟩
  · -- the name leads to a file that is already there
    rw [htree]
    refine Option.filter_eq_some_iff.mpr ⟨he,?_⟩
    cases hn : d.tree.node e.place with
    | none =>
      have hresolved := (found_ok.mp hfound).1
      rw [resolved_absText hq,hlast.1 (hplace ▸ hn)] at hresolved
      cases hresolved
    | some nd =>
      refine removable_of hq hdir hn ?_
      rintro rfl
      rw [found_named hq (hnamed hn) (fun _ => by simp)] at hfound
      cases hfound
  · -- the file is made where the name leads
    have hfree := landing_free hland
    have hext : Extends d.tree (d.allocate x).tree := extends_put hfree.2
    have he' : (d.allocate x).tree.entryAt (absText (q ++ [c])) = some e :=
      (entryAt_some_iff hq).mpr ⟨walk_extends hext hw,hname⟩
    rw [hdisk]
    refine Option.filter_eq_some_iff.mpr ⟨he',?_⟩
    cases hn : d.tree.node e.place with
    | none =>
      have hhere := land_here (ValidName.plain hc) hdir hw (hplace ▸ hn)
      rw [landing_absText hq,hhere] at hland
      have hx : x = e := by rw [← Option.some.inj hland,← hname]
      subst hx
      have hparent : d.tree.node x.place.dropLast = some .dir := by
        rwa [Entry.place,List.dropLast_concat]
      have hself : (d.allocate x).tree.node x.place = some (.file d.next) :=
        node_put_self (by simp [Entry.place]) hparent
      exact removable_of hq (hext _ _ hdir) hself (by simp)
    | some nd =>
      refine removable_of hq (hext _ _ hdir) (hext _ _ hn) ?_
      rintro rfl
      exact hnot _ (found_named hq (hnamed hn) (fun _ => by simp))

theorem lstat_named (h : d.named p = .ok (e,nd)) : d.lstat p = .ok (d.info e.place nd) := by
  rw [lstat,(named_ok.mp h).1,h]
  rfl

theorem named_of_found (hq : ValidPlace (q ++ [c])) {r : Place}
    (h : d.found (absText (q ++ [c])) = .ok (r,nd)) :
    ∃ x md, d.named (absText (q ++ [c])) = .ok (x,md) := by
  have hc := (ValidPlace.cons.mp (ValidPlace.append.mp hq).2).1
  have hwalk : d.tree.walk osLinkLimit [] (q ++ [c]) = .ok r := by
    have hresolved := (found_ok.mp h).1
    rw [resolved_absText hq] at hresolved
    cases hw : d.tree.walk osLinkLimit [] (q ++ [c]) <;> simp_all [Except.mapError]
  obtain ⟨D,hD,hdir⟩ := walk_before (by simp) directory_nil hwalk
  have hparent := hdir _ (List.prefix_refl _)
  have hentry : d.tree.entryAt (absText (q ++ [c])) = some ⟨D,c⟩ := (entryAt_some_iff hq).mpr ⟨hD,rfl⟩
  cases hn : d.tree.node (D ++ [c]) with
  | none =>
    rw [(walk_last (ValidName.plain hc) hD hparent).1 hn] at hwalk
    cases hwalk
  | some md => exact ⟨_,md,named_ok.mpr ⟨hentry,dirAt_iff.mpr hparent,hn⟩⟩

theorem named_of_lstat (hq : ValidPlace (q ++ [c])) {st : Stat}
    (h : d.lstat (absText (q ++ [c])) = .ok st) :
    ∃ x md, d.named (absText (q ++ [c])) = .ok (x,md) ∧ st = d.info x.place md := by
  cases hn : d.named (absText (q ++ [c])) with
  | ok z => exact ⟨z.1,z.2,rfl,(Except.ok.inj (h.symm.trans (lstat_named hn)))⟩
  | error err =>
    unfold lstat at h
    split at h
    · cases hf : d.found (absText (q ++ [c])) with
      | error e => simp [stat,hf,Except.map] at h
      | ok z =>
        obtain ⟨x,md,hx⟩ := named_of_found hq hf
        rw [hn] at hx
        cases hx
    · simp [hn,Except.map] at h

end Disk

end Posix
