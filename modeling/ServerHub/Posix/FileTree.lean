import ServerHub.Posix.Path

namespace Posix

inductive Node (δ : Type) where
  | dir
  | file (data : δ)
  | link (target : Text)
deriving DecidableEq

inductive Errno where
  | notExist
  | notDir
  | loop
deriving DecidableEq, Repr

structure FileTree (δ : Type) where
  nodes : List (Place × Node δ)
  rooted : ∀ e ∈ nodes, e.1 ≠ [] ∧ (e.1.dropLast = [] ∨ (e.1.dropLast,Node.dir) ∈ nodes)

variable {δ : Type}

namespace FileTree

def node (t : FileTree δ) (q : Place) : Option (Node δ) :=
  if q = [] then some .dir else (t.nodes.find? fun e => e.1 = q).map Prod.snd

def leaf (t : FileTree δ) (q : Place) : Bool := t.nodes.all fun e => e.1 = q || !q.isPrefixOf e.1

def prune (t : FileTree δ) (q : Place) : FileTree δ where
  nodes := t.nodes.filter fun e => !q.isPrefixOf e.1
  rooted := by
    intro e he
    obtain ⟨hm,hp⟩ := List.mem_filter.mp he
    obtain ⟨hne,hd⟩ := t.rooted e hm
    refine ⟨hne,hd.imp_right fun h => List.mem_filter.mpr ⟨h,?_⟩⟩
    simp only [Bool.not_eq_true',← Bool.not_eq_true,List.isPrefixOf_iff_prefix] at hp ⊢
    exact fun hq => hp (hq.trans (List.dropLast_prefix e.1))

section Walk

variable (t : FileTree δ)

def follow (onLink : Place → List Name → Except Errno Place) : Place → List Name → Except Errno Place
  | cur, [] => .ok cur
  | cur, c :: cs =>
      if c = [] ∨ c = dot then follow onLink cur cs
      else if c = dotdot then follow onLink cur.dropLast cs
      else match t.node (cur ++ [c]) with
        | none => .error .notExist
        | some .dir => follow onLink (cur ++ [c]) cs
        | some (.file _) => if cs = [] then .ok (cur ++ [c]) else .error .notDir
        | some (.link target) =>
            onLink (if isAbs target then [] else cur) (segments target ++ cs)

def walk : Nat → Place → List Name → Except Errno Place
  | 0 => t.follow fun _ _ => .error .loop
  | n + 1 => t.follow (walk n)

end Walk

def osLinkLimit : Nat := 40

def evalLinkLimit : Nat := 255

def resolve (t : FileTree δ) (p : Text) : Except Errno Place := t.walk evalLinkLimit [] (segments p)

def evalSymlinks (t : FileTree δ) (p : Text) : Except Errno Text := (t.resolve p).map absText

-- the node itself, a link not followed
def lstat (t : FileTree δ) (q : Place) : Except Errno (Node δ) :=
  match q.getLast? with
  | none => .ok .dir
  | some c =>
      match t.walk osLinkLimit [] q.dropLast with
      | .error e => .error e
      | .ok d =>
          match t.node (d ++ [c]), t.node d with
          | some nd, _ => .ok nd
          | none, some .dir => .error .notExist
          | none, _ => .error .notDir

structure Entry where
  parent : Place
  name : Name
deriving DecidableEq

def Entry.place (e : Entry) : Place := e.parent ++ [e.name]

def removable (t : FileTree δ) (p : Text) (e : Entry) : Bool :=
  match t.node e.parent, t.node e.place with
  | some .dir, some .dir => t.leaf e.place
  | some .dir, some _ => p.getLast? != some '/'
  | _, _ => false

def entryAt (t : FileTree δ) (p : Text) : Option Entry :=
  match ((segments p).filter (· ≠ [])).reverse with
  | [] => none
  | c :: rest =>
      if c = dot ∨ c = dotdot then none
      else match t.walk osLinkLimit [] rest.reverse with
        | .error _ => none
        | .ok d => some ⟨d,c⟩

def removedEntry (t : FileTree δ) (p : Text) : Option Entry := (t.entryAt p).filter (t.removable p)

def remove (t : FileTree δ) (p : Text) : Option (Entry × FileTree δ) :=
  (t.removedEntry p).map fun e => (e,t.prune e.place)

def read (t : FileTree δ) (p : Text) : Option δ :=
  match t.walk osLinkLimit [] (segments p) with
  | .error _ => none
  | .ok q => match t.node q with
    | some (.file data) => some data
    | _ => none

section Steps

variable {t : FileTree δ} {onLink : Place → List Name → Except Errno Place} {cur : Place} {c : Name}
  {cs : List Name}

theorem follow_skip (h : c = [] ∨ c = dot) :
    t.follow onLink cur (c :: cs) = t.follow onLink cur cs := by
  simp [follow,h]

theorem follow_up : t.follow onLink cur (dotdot :: cs) = t.follow onLink cur.dropLast cs := by
  simp [follow,dotdot,dot]

def Plain (c : Name) : Prop := ¬(c = [] ∨ c = dot) ∧ c ≠ dotdot

theorem follow_none (hc : Plain c) (hn : t.node (cur ++ [c]) = none) :
    t.follow onLink cur (c :: cs) = .error .notExist := by
  rw [follow,if_neg hc.1,if_neg hc.2,hn]

theorem follow_dir (hc : Plain c) (hn : t.node (cur ++ [c]) = some .dir) :
    t.follow onLink cur (c :: cs) = t.follow onLink (cur ++ [c]) cs := by
  rw [follow,if_neg hc.1,if_neg hc.2,hn]

theorem follow_file {x : δ} (hc : Plain c) (hn : t.node (cur ++ [c]) = some (.file x)) :
    t.follow onLink cur (c :: cs) = if cs = [] then .ok (cur ++ [c]) else .error .notDir := by
  rw [follow,if_neg hc.1,if_neg hc.2,hn]

theorem follow_link {target : Text} (hc : Plain c)
    (hn : t.node (cur ++ [c]) = some (.link target)) :
    t.follow onLink cur (c :: cs) =
      onLink (if isAbs target then [] else cur) (segments target ++ cs) := by
  rw [follow,if_neg hc.1,if_neg hc.2,hn]

end Steps

theorem segment_cases (c : Name) : (c = [] ∨ c = dot) ∨ c = dotdot ∨ Plain c := by
  by_cases h1 : c = [] ∨ c = dot
  · exact .inl h1
  · by_cases h2 : c = dotdot
    · exact .inr (.inl h2)
    · exact .inr (.inr ⟨h1,h2⟩)

theorem follow_mono {t : FileTree δ} {f g : Place → List Name → Except Errno Place}
    (hfg : ∀ q cs, f q cs ≠ .error .loop → g q cs = f q cs) (cur : Place) (cs : List Name)
    (h : t.follow f cur cs ≠ .error .loop) : t.follow g cur cs = t.follow f cur cs := by
  induction cs generalizing cur with
  | nil => rfl
  | cons c cs ih =>
    rcases segment_cases c with hc | rfl | hc
    · rw [follow_skip hc] at h ⊢
      rw [follow_skip hc]
      exact ih cur h
    · rw [follow_up] at h ⊢
      rw [follow_up]
      exact ih _ h
    · cases hn : t.node (cur ++ [c]) with
      | none => rw [follow_none hc hn,follow_none hc hn]
      | some nd =>
        cases nd with
        | dir =>
          rw [follow_dir hc hn] at h ⊢
          rw [follow_dir hc hn]
          exact ih _ h
        | file x => rw [follow_file hc hn,follow_file hc hn]
        | link target =>
          rw [follow_link hc hn] at h ⊢
          rw [follow_link hc hn]
          exact hfg _ _ h

theorem walk_mono {t : FileTree δ} {n m : Nat} (hnm : n ≤ m) (cur : Place) (cs : List Name)
    (h : t.walk n cur cs ≠ .error .loop) : t.walk m cur cs = t.walk n cur cs := by
  induction n generalizing m cur cs with
  | zero =>
    cases m with
    | zero => rfl
    | succ m => exact follow_mono (fun _ _ hq => absurd rfl hq) cur cs h
  | succ n ih =>
    obtain ⟨m,rfl⟩ : ∃ k, m = k + 1 := ⟨m - 1,by omega⟩
    exact follow_mono (fun q ds hq => ih (by omega) q ds hq) cur cs h

theorem walk_ok_mono {t : FileTree δ} {n m : Nat} (hnm : n ≤ m) {cur d : Place} {cs : List Name}
    (h : t.walk n cur cs = .ok d) : t.walk m cur cs = .ok d := by
  rw [walk_mono hnm cur cs (by simp [h]),h]

theorem follow_append_ok {t : FileTree δ} {f : Place → List Name → Except Errno Place} {d : Place}
    (hd : t.node d = some .dir) {ys : List Name} {Q : Except Errno Place → Prop}
    (h0 : Q (t.follow f d ys)) (hl : ∀ q cs, f q cs = .ok d → Q (f q (cs ++ ys)))
    (cur : Place) (xs : List Name) (h : t.follow f cur xs = .ok d) :
    Q (t.follow f cur (xs ++ ys)) := by
  induction xs generalizing cur with
  | nil =>
    obtain rfl : cur = d := Except.ok.inj h
    exact h0
  | cons c xs ih =>
    rw [List.cons_append]
    rcases segment_cases c with hc | rfl | hc
    · rw [follow_skip hc] at h ⊢
      exact ih cur h
    · rw [follow_up] at h ⊢
      exact ih _ h
    · cases hn : t.node (cur ++ [c]) with
      | none => simp [follow_none hc hn] at h
      | some nd =>
        cases nd with
        | dir =>
          rw [follow_dir hc hn] at h ⊢
          exact ih _ h
        | file x =>
          -- a walk that ends on a regular file has not ended on the directory d
          rw [follow_file hc hn] at h
          split at h
          · obtain rfl : cur ++ [c] = d := Except.ok.inj h
            simp [hn] at hd
          · simp at h
        | link target =>
          rw [follow_link hc hn] at h ⊢
          rw [← List.append_assoc]
          exact hl _ _ h

theorem walk_append_ok {t : FileTree δ} {n : Nat} {cur d : Place} {xs : List Name} (ys : List Name)
    (hd : t.node d = some .dir) (h : t.walk n cur xs = .ok d) :
    ∃ m ≤ n, t.walk n cur (xs ++ ys) = t.walk m d ys := by
  induction n generalizing cur xs with
  | zero =>
    exact follow_append_ok (Q := fun r => ∃ m ≤ 0, r = t.walk m d ys) hd ⟨0,le_rfl,rfl⟩
      (fun _ _ hq => by simp at hq) cur xs h
  | succ n ih =>
    refine follow_append_ok (Q := fun r => ∃ m ≤ n + 1, r = t.walk m d ys) hd
      ⟨n + 1,le_rfl,rfl⟩ ?_ cur xs h
    intro q cs hq
    obtain ⟨m,hm,he⟩ := ih hq
    exact ⟨m,by omega,he⟩

theorem walk_eq_follow (t : FileTree δ) (n : Nat) : ∃ f, t.walk n = t.follow f := by
  cases n with
  | zero => exact ⟨_,rfl⟩
  | succ n => exact ⟨_,rfl⟩

theorem walk_skip {t : FileTree δ} {n : Nat} {cur : Place} {c : Name} {cs : List Name}
    (h : c = [] ∨ c = dot) : t.walk n cur (c :: cs) = t.walk n cur cs := by
  obtain ⟨f,hf⟩ := walk_eq_follow t n
  rw [hf,follow_skip h]

theorem ValidName.plain {c : Name} (h : ValidName c) : Plain c :=
  ⟨by simp [h.1,h.2.1],h.2.2.1⟩

theorem walk_single {t : FileTree δ} {n : Nat} {cur : Place} {c : Name} {nd : Node δ}
    (hc : Plain c) (hn : t.node (cur ++ [c]) = some nd) (hl : ∀ target, nd ≠ .link target) :
    t.walk n cur [c] = .ok (cur ++ [c]) := by
  obtain ⟨f,hf⟩ := walk_eq_follow t n
  rw [hf]
  cases nd with
  | dir => rw [follow_dir hc hn,follow]
  | file x => rw [follow_file hc hn,if_pos rfl]
  | link target => exact absurd rfl (hl target)

theorem follow_valid {t : FileTree δ} {f : Place → List Name → Except Errno Place} {d : Place}
    (hf : ∀ q ds, ValidPlace q → (∀ c ∈ ds, '/' ∉ c) → f q ds = .ok d → ValidPlace d)
    {cur : Place} {cs : List Name} (hcur : ValidPlace cur) (hcs : ∀ c ∈ cs, '/' ∉ c)
    (h : t.follow f cur cs = .ok d) : ValidPlace d := by
  induction cs generalizing cur with
  | nil =>
    obtain rfl : cur = d := Except.ok.inj h
    exact hcur
  | cons c cs ih =>
    simp only [List.mem_cons,forall_eq_or_imp] at hcs
    rcases segment_cases c with hc | rfl | hc
    · rw [follow_skip hc] at h
      exact ih hcur hcs.2 h
    · rw [follow_up] at h
      exact ih hcur.dropLast hcs.2 h
    · have hv : ValidPlace (cur ++ [c]) := by
        have hp := hc
        simp only [Plain,not_or] at hp
        exact ValidPlace.append.mpr
          ⟨hcur,ValidPlace.cons.mpr ⟨⟨hp.1.1,hp.1.2,hp.2,hcs.1⟩,validPlace_nil⟩⟩
      cases hn : t.node (cur ++ [c]) with
      | none => simp [follow_none hc hn] at h
      | some nd =>
        cases nd with
        | dir =>
          rw [follow_dir hc hn] at h
          exact ih hv hcs.2 h
        | file x =>
          rw [follow_file hc hn] at h
          split at h
          · exact Except.ok.inj h ▸ hv
          · simp at h
        | link target =>
          rw [follow_link hc hn] at h
          refine hf _ _ ?_ ?_ h
          · split
            · exact validPlace_nil
            · exact hcur
          · intro e he
            rcases List.mem_append.mp he with he | he
            · exact segment_no_slash he
            · exact hcs.2 e he

theorem walk_valid {t : FileTree δ} {n : Nat} {cur d : Place} {cs : List Name}
    (hcur : ValidPlace cur) (hcs : ∀ c ∈ cs, '/' ∉ c) (h : t.walk n cur cs = .ok d) :
    ValidPlace d := by
  induction n generalizing cur cs with
  | zero => exact follow_valid (fun _ _ _ _ hq => by simp at hq) hcur hcs h
  | succ n ih => exact follow_valid (fun _ _ hq hds he => ih hq hds he) hcur hcs h

theorem resolve_valid {t : FileTree δ} {p : Text} {d : Place} (h : t.resolve p = .ok d) :
    ValidPlace d :=
  walk_valid validPlace_nil (fun _ hc => segment_no_slash hc) h

theorem walk_segments_absText {t : FileTree δ} {n : Nat} {q : Place} (hq : ValidPlace q) :
    t.walk n [] (segments (absText q)) = t.walk n [] q := by
  by_cases e : q = []
  · subst e
    have : segments (absText []) = [[],[]] := by decide
    rw [this,walk_skip (.inl rfl),walk_skip (.inl rfl)]
  · rw [segments_absText hq e,walk_skip (.inl rfl)]

theorem entryAt_some {t : FileTree δ} {p : Text} {e : Entry} (h : t.entryAt p = some e) :
    ∃ rest, (segments p).filter (· ≠ []) = rest ++ [e.name] ∧ e.name ≠ dot ∧ e.name ≠ dotdot ∧
      t.walk osLinkLimit [] rest = .ok e.parent := by
  unfold entryAt at h
  split at h
  · simp at h
  · rename_i c rest hrev
    split at h
    · simp at h
    · rename_i hc
      simp only [not_or] at hc
      split at h
      · simp at h
      · rename_i d hw
        obtain rfl := Option.some.inj h
        refine ⟨rest.reverse,?_,hc.1,hc.2,hw⟩
        rw [← List.reverse_reverse ((segments p).filter (· ≠ [])),hrev,List.reverse_cons]

theorem removedEntry_some {t : FileTree δ} {p : Text} {e : Entry} (h : t.removedEntry p = some e) :
    t.entryAt p = some e ∧ t.node e.parent = some .dir ∧ ∃ nd, t.node e.place = some nd := by
  obtain ⟨he,hr⟩ := Option.filter_eq_some_iff.mp h
  unfold removable at hr
  refine ⟨he,?_⟩
  split at hr
  · rename_i h1 h2
    exact ⟨h1,_,h2⟩
  · rename_i nd _ h1 h2
    exact ⟨h1,nd,h2⟩
  · simp at hr

theorem resolve_absText {t : FileTree δ} {q : Place} (hq : ValidPlace q) :
    t.resolve (absText q) = t.walk evalLinkLimit [] q := walk_segments_absText hq

end FileTree

end Posix
