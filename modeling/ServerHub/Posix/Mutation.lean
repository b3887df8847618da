import ServerHub.Posix.FileTree
import Mathlib.Data.List.Sort
import Mathlib.Data.List.Dedup

namespace Posix

variable {δ : Type}

namespace FileTree

theorem node_mem {t : FileTree δ} {q : Place} {nd : Node δ} (h : t.node q = some nd) :
    q = [] ∧ nd = .dir ∨ q ≠ [] ∧ (q,nd) ∈ t.nodes := by
  unfold node at h
  split at h
  · rename_i hq
    exact .inl ⟨hq,(Option.some.inj h).symm⟩
  · rename_i hq
    obtain ⟨e,he,rfl⟩ := Option.map_eq_some_iff.mp h
    have hplace : e.1 = q := by simpa using List.find?_some he
    exact .inr ⟨hq,hplace ▸ List.mem_of_find?_eq_some he⟩

def dirAt (t : FileTree δ) (q : Place) : Bool :=
  match t.node q with
  | some .dir => true
  | _ => false

theorem dirAt_iff {t : FileTree δ} {q : Place} : t.dirAt q = true ↔ t.node q = some .dir := by
  unfold dirAt
  split <;> simp_all

def look (nodes : List (Place × Node δ)) (q : Place) : Option (Node δ) :=
  (nodes.find? fun e => e.1 = q).map Prod.snd

theorem node_eq_look {t : FileTree δ} {q : Place} (h : q ≠ []) : t.node q = look t.nodes q := by
  rw [node,if_neg h,look]

theorem look_cons (e : Place × Node δ) (nodes : List (Place × Node δ)) (q : Place) :
    look (e :: nodes) q = if e.1 = q then some e.2 else look nodes q := by
  by_cases h : e.1 = q <;> simp [look,h]

theorem not_prefix_dropLast {q : Place} (h : q ≠ []) : ¬q <+: q.dropLast := by
  intro hp
  have hlength := hp.length_le
  have hpos := List.length_pos_iff.mpr h
  rw [List.length_dropLast] at hlength
  omega

theorem mem_prune {t : FileTree δ} {q : Place} {e : Place × Node δ} :
    e ∈ (t.prune q).nodes ↔ e ∈ t.nodes ∧ ¬q <+: e.1 := by
  simp [prune,List.mem_filter,← Bool.not_eq_true]

def put (t : FileTree δ) (q : Place) (nd : Node δ) : FileTree δ :=
  if h : q ≠ [] ∧ t.dirAt q.dropLast then
    { nodes := (q,nd) :: (t.prune q).nodes
      rooted := by
        intro e he
        rcases List.mem_cons.mp he with rfl | he
        · refine ⟨h.1,?_⟩
          rcases node_mem (dirAt_iff.mp h.2) with ⟨hroot,-⟩ | ⟨-,hm⟩
          · exact .inl hroot
          · exact .inr (List.mem_cons_of_mem _ (mem_prune.mpr ⟨hm,not_prefix_dropLast h.1⟩))
        · obtain ⟨hne,hparent⟩ := (t.prune q).rooted e he
          exact ⟨hne,hparent.imp_right (List.mem_cons_of_mem _)⟩ }
  else t

def shifted (a b : Place) (e : Place × Node δ) : Option (Place × Node δ) :=
  if a.isPrefixOf e.1 then some (b ++ e.1.drop a.length,e.2) else none

def move (t : FileTree δ) (a b : Place) : FileTree δ :=
  if h : a ≠ [] ∧ b ≠ [] ∧ ((t.prune a).prune b).dirAt b.dropLast then
    { nodes := t.nodes.filterMap (shifted a b) ++ ((t.prune a).prune b).nodes
      rooted := by
        intro e he
        rcases List.mem_append.mp he with he | he
        · obtain ⟨x,hx,hshift⟩ := List.mem_filterMap.mp he
          obtain ⟨hpre,heq⟩ := Option.ite_none_right_eq_some.mp hshift
          obtain ⟨s,hs⟩ := List.isPrefixOf_iff_prefix.mp hpre
          obtain rfl := Option.some.inj heq
          refine ⟨by simp [h.2.1],?_⟩
          rw [← hs,List.drop_left]
          by_cases hnil : s = []
          · subst hnil
            rw [List.append_nil]
            rcases node_mem (dirAt_iff.mp h.2.2) with ⟨hroot,-⟩ | ⟨-,hm⟩
            · exact .inl hroot
            · exact .inr (List.mem_append_right _ hm)
          · -- the parent of a node under a moves along with it
            right
            have hparent := (t.rooted x hx).2
            rw [← hs,List.dropLast_append_of_ne_nil hnil] at hparent
            rcases hparent with hroot | hm
            · exact absurd (List.append_eq_nil_iff.mp hroot).1 h.1
            · refine List.mem_append_left _ (List.mem_filterMap.mpr ⟨_,hm,?_⟩)
              rw [List.dropLast_append_of_ne_nil hnil]
              simp [shifted]
        · obtain ⟨hne,hparent⟩ := ((t.prune a).prune b).rooted e he
          exact ⟨hne,hparent.imp_right (List.mem_append_right _)⟩ }
  else t

def nameLe : Name → Name → Bool
  | [], _ => true
  | _ :: _, [] => false
  | a :: as, b :: bs => if a = b then nameLe as bs else a < b

theorem nameLe_total (a b : Name) : nameLe a b = true ∨ nameLe b a = true := by
  induction a generalizing b with
  | nil => exact .inl rfl
  | cons x xs ih =>
    cases b with
    | nil => exact .inr rfl
    | cons y ys =>
      by_cases h : x = y
      · subst h
        simpa [nameLe] using ih ys
      · have hlt : x < y ∨ y < x := by
          by_contra hn
          rw [not_or,Char.not_lt,Char.not_lt] at hn
          exact h (Char.le_antisymm hn.2 hn.1)
        exact hlt.imp (fun hlt => by simp [nameLe,h,hlt]) fun hlt => by simp [nameLe,Ne.symm h,hlt]

theorem nameLe_trans {a b c : Name} (hab : nameLe a b = true) (hbc : nameLe b c = true) :
    nameLe a c = true := by
  induction a generalizing b c with
  | nil => rfl
  | cons x xs ih =>
    cases b with
    | nil => cases hab
    | cons y ys =>
      cases c with
      | nil => cases hbc
      | cons z zs =>
        by_cases hxy : x = y
        · subst hxy
          by_cases hxz : x = z
          · subst hxz
            simp only [nameLe,if_true] at hab hbc ⊢
            exact ih hab hbc
          · simpa [nameLe,hxz] using hbc
        · have hlt : x < y := by simpa [nameLe,hxy] using hab
          have hle : y < z ∨ y = z := by
            by_cases hyz : y = z
            · exact .inr hyz
            · exact .inl (by simpa [nameLe,hyz] using hbc)
          have hxz : x < z := hle.elim (fun h => Char.lt_trans hlt h) fun h => h ▸ hlt
          have hne : x ≠ z := fun h => Char.lt_irrefl z (h ▸ hxz)
          simp [nameLe,hne,hxz]

def childOf (q : Place) (e : Place × Node δ) : Option Name :=
  if e.1.dropLast = q then e.1.getLast? else none

def children (t : FileTree δ) (q : Place) : List Name :=
  (t.nodes.filterMap (childOf q)).dedup.insertionSort fun a b => nameLe a b

section Landing

variable (t : FileTree δ)

-- the entry an open with O_CREATE makes, following a link that leads nowhere
def landNew (onLink : Place → List Name → Option Entry) : Place → List Name → Option Entry
  | _, [] => none
  | cur, c :: cs =>
      if c = [] ∨ c = dot then landNew onLink cur cs
      else if c = dotdot then landNew onLink cur.dropLast cs
      else match t.node (cur ++ [c]) with
        | none => if cs = [] then some ⟨cur,c⟩ else none
        | some .dir => landNew onLink (cur ++ [c]) cs
        | some (.file _) => none
        | some (.link target) =>
            onLink (if isAbs target then [] else cur) (segments target ++ cs)

def land : Nat → Place → List Name → Option Entry
  | 0 => landNew t fun _ _ => none
  | n + 1 => landNew t (land n)

def landing (p : Text) : Option Entry := t.land osLinkLimit [] (segments p)

end Landing

theorem look_filter (P : Place → Bool) (nodes : List (Place × Node δ)) (r : Place) :
    look (nodes.filter fun e => P e.1) r = if P r then look nodes r else none := by
  induction nodes with
  | nil => simp [look]
  | cons e nodes ih =>
    rw [List.filter_cons]
    by_cases hP : P e.1 = true
    · rw [if_pos hP,look_cons,look_cons,ih]
      by_cases he : e.1 = r
      · rw [if_pos he,if_pos he,if_pos (he ▸ hP)]
      · rw [if_neg he,if_neg he]
    · rw [if_neg hP,ih,look_cons]
      by_cases he : e.1 = r
      · rw [if_neg (he ▸ hP),if_neg (he ▸ hP)]
      · rw [if_neg he]

theorem node_prune (t : FileTree δ) (q r : Place) (hr : r ≠ []) :
    (t.prune q).node r = if q <+: r then none else t.node r := by
  rw [node_eq_look hr,node_eq_look hr]
  refine (look_filter (fun p => !q.isPrefixOf p) t.nodes r).trans ?_
  by_cases hq : q <+: r
  · rw [if_neg (by simp [hq]),if_pos hq]
  · rw [if_pos (by simpa [← Bool.not_eq_true] using hq),if_neg hq]

theorem node_prune_other {t : FileTree δ} {q r : Place} (h : ¬q <+: r) :
    (t.prune q).node r = t.node r := by
  by_cases hr : r = []
  · subst hr
    rfl
  · rw [node_prune t q r hr,if_neg h]

theorem node_above {t : FileTree δ} {q r : Place} {nd : Node δ} (h : t.node r = some nd)
    (hq : q <+: r) : t.node q ≠ none := by
  obtain ⟨s,rfl⟩ := hq
  induction s using List.reverseRecOn generalizing nd with
  | nil => simp_all
  | append_singleton s c ih =>
    rcases node_mem h with ⟨hnil,-⟩ | ⟨hne,hm⟩
    · simp at hnil
    · have hparent := (t.rooted _ hm).2
      rw [← List.append_assoc,List.dropLast_concat] at hparent
      rcases hparent with hnil | hdir
      · obtain ⟨rfl,rfl⟩ := List.append_eq_nil_iff.mp hnil
        simp [node]
      · have hsome : t.node (q ++ s) ≠ none := by
          unfold node
          split
          · simp
          · intro hn
            have hfind := List.find?_eq_none.mp (Option.map_eq_none_iff.mp hn) _ hdir
            simp at hfind
        obtain ⟨x,hx⟩ := Option.ne_none_iff_exists'.mp hsome
        exact ih hx

theorem put_nodes {t : FileTree δ} {q : Place} {nd : Node δ} (hq : q ≠ [])
    (hparent : t.node q.dropLast = some .dir) : (t.put q nd).nodes = (q,nd) :: (t.prune q).nodes := by
  rw [put,dif_pos ⟨hq,dirAt_iff.mpr hparent⟩]

theorem node_put_self {t : FileTree δ} {q : Place} {nd : Node δ} (hq : q ≠ [])
    (hparent : t.node q.dropLast = some .dir) : (t.put q nd).node q = some nd := by
  rw [node_eq_look hq,put_nodes hq hparent,look_cons,if_pos rfl]

theorem node_put_other {t : FileTree δ} {q r : Place} {nd : Node δ} (hfree : t.node q = none)
    (hne : r ≠ q) : (t.put q nd).node r = t.node r := by
  by_cases hr : r = []
  · subst hr
    rfl
  · by_cases hput : q ≠ [] ∧ t.dirAt q.dropLast
    · rw [node_eq_look hr,put_nodes hput.1 (dirAt_iff.mp hput.2),look_cons,
        if_neg (Ne.symm hne),← node_eq_look hr,node_prune t q r hr]
      split
      · rename_i hpre
        cases hn : t.node r with
        | none => rfl
        | some x => exact absurd hfree (node_above hn hpre)
      · rfl
    · rw [put,dif_neg hput]

end FileTree

end Posix
