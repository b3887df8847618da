import Mathlib.Data.List.Nodup
import Mathlib.Data.List.Count
import Mathlib.Data.List.Sort

namespace Relational

class Keyed (α : Type) where
  key : α → Nat

export Keyed (key)

def nullsLast {α τ : Type} [LE τ] [DecidableLE τ] (f : α → Option τ) (a b : α) : Bool :=
  match f a, f b with
  | _, none => true
  | none, some _ => false
  | some x, some y => decide (x ≤ y)

def orderBy {α : Type} (le : α → α → Bool) (rows : List α) : List α :=
  rows.insertionSort fun a b => le a b = true

theorem mem_orderBy {α : Type} {le : α → α → Bool} {rows : List α} {a : α} :
    a ∈ orderBy le rows ↔ a ∈ rows := List.mem_insertionSort _

def page {α : Type} (size n : Nat) (rows : List α) : List α := (rows.drop (n * size)).take size

theorem mem_some_page {α : Type} {size : Nat} (h : 0 < size) {rows : List α} {a : α} :
    (∃ n, a ∈ page size n rows) ↔ a ∈ rows := by
  constructor
  · rintro ⟨n,ha⟩
    exact List.mem_of_mem_drop (List.mem_of_mem_take ha)
  · intro ha
    obtain ⟨i,hi,rfl⟩ := List.mem_iff_getElem.mp ha
    have hsplit : i / size * size + i % size = i := Nat.div_add_mod' i size
    have hlt : i % size < size := Nat.mod_lt i h
    refine ⟨i / size,List.mem_iff_getElem.mpr ⟨i % size,?_,?_⟩⟩
    · simp only [page,List.length_take,List.length_drop]
      omega
    · simp only [page,List.getElem_take,List.getElem_drop,hsplit]

structure Table (α : Type) [Keyed α] where
  rows : List α
  nodup : (rows.map key).Nodup

variable {α : Type} [Keyed α]

theorem key_ne_of_nodup {a b : α} {rows : List α} (h : ((a :: rows).map key).Nodup) (hb : b ∈ rows) :
    key b ≠ key a := by
  rw [List.map_cons,List.nodup_cons] at h
  exact fun he => h.1 (he ▸ List.mem_map_of_mem hb)

theorem filter_rest {a : α} {rows : List α} (h : ((a :: rows).map key).Nodup) :
    (a :: rows).filter (fun b => key b != key a) = rows := by
  rw [List.filter_cons_of_neg (by simp)]
  refine List.filter_eq_self.mpr fun b hb => ?_
  simpa using key_ne_of_nodup h hb

namespace Table

def empty : Table α := ⟨[],by simp⟩

def find (t : Table α) (k : Nat) : Option α := t.rows.find? fun r => key r = k

def select (t : Table α) (p : α → Bool) : List α := t.rows.filter p

def count (t : Table α) (p : α → Bool) : Nat := t.rows.countP p

def modify (t : Table α) (p : α → Bool) (f : α → α) (hf : ∀ r, key (f r) = key r) : Table α where
  rows := t.rows.map fun r => if p r then f r else r
  nodup := by
    have h : (fun r => key (if p r then f r else r)) = (key : α → Nat) := by
      funext r
      split
      · exact hf r
      · rfl
    simpa only [List.map_map,Function.comp_def,h] using t.nodup

def insert (t : Table α) (r : α) : Table α :=
  if h : key r ∈ t.rows.map key then t else
    ⟨t.rows ++ [r],by
      rw [List.map_append,List.map_singleton]
      refine List.nodup_append.mpr ⟨t.nodup,by simp,?_⟩
      intro a ha b hb e
      obtain rfl := List.mem_singleton.mp hb
      exact h (e ▸ ha)⟩

def remove (t : Table α) (p : α → Bool) : Table α where
  rows := t.rows.filter fun r => !p r
  nodup := t.nodup.sublist (List.filter_sublist.map key)

theorem mem_remove {t : Table α} {p : α → Bool} {r : α} :
    r ∈ (t.remove p).rows ↔ r ∈ t.rows ∧ p r = false := by
  simp [remove]

theorem remove_none (t : Table α) : t.remove (fun _ => false) = t := by
  cases t
  simp [remove]

theorem remove_remove (t : Table α) (p q : α → Bool) :
    (t.remove p).remove q = t.remove fun r => p r || q r := by
  simp only [remove,List.filter_filter,Table.mk.injEq]
  exact List.filter_congr fun r _ => by cases p r <;> simp

theorem count_remove {t : Table α} {p q : α → Bool} (h : ∀ r ∈ t.rows, q r = true → p r = true) :
    (t.remove q).count p + t.count q = t.count p := by
  show (t.rows.filter fun r => !q r).countP p + t.rows.countP q = t.rows.countP p
  generalize t.rows = rows at h ⊢
  induction rows with
  | nil => rfl
  | cons r rows ih =>
    have hrest := ih fun x hx => h x (List.mem_cons_of_mem r hx)
    cases hq : q r with
    | true =>
      have hp := h r List.mem_cons_self hq
      simp only [List.filter_cons,hq,List.countP_cons,hp]
      simp only [Bool.not_true,Bool.false_eq_true,if_false,if_true]
      omega
    | false =>
      simp only [List.filter_cons,hq,List.countP_cons]
      simp only [Bool.not_false,if_true,Bool.false_eq_true,if_false,List.countP_cons]
      omega

theorem count_remove_other {t : Table α} {p q : α → Bool} (h : ∀ r ∈ t.rows, q r = true → p r = false) :
    (t.remove q).count p = t.count p := by
  show (t.rows.filter fun r => !q r).countP p = t.rows.countP p
  rw [List.countP_filter]
  refine List.countP_congr fun r hr => ?_
  cases hq : q r with
  | true => simp [h r hr hq]
  | false => simp

theorem eq_of_rows {t u : Table α} (h : t.rows = u.rows) : t = u := by
  cases t
  cases u
  simp only at h
  subst h
  rfl

theorem find_some {t : Table α} {k : Nat} {r : α} (h : t.find k = some r) :
    r ∈ t.rows ∧ key r = k := by
  have hp : key r = k := by simpa using List.find?_some h
  exact ⟨List.mem_of_find?_eq_some h,hp⟩

theorem find_of_mem {t : Table α} {r : α} (h : r ∈ t.rows) : t.find (key r) = some r := by
  obtain ⟨rows,nodup⟩ := t
  simp only [find]
  simp only at h
  induction rows with
  | nil => simp at h
  | cons a rows ih =>
    simp only [List.map_cons,List.nodup_cons] at nodup
    rcases List.mem_cons.mp h with rfl | h
    · simp
    · have hne : key a ≠ key r := fun e => nodup.1 (e ▸ List.mem_map_of_mem h)
      rw [List.find?_cons_of_neg (by simpa using hne)]
      exact ih nodup.2 h

theorem eq_of_key {t : Table α} {a b : α} (ha : a ∈ t.rows) (hb : b ∈ t.rows) (h : key a = key b) :
    a = b := by
  have hfind := find_of_mem ha
  rw [h,find_of_mem hb] at hfind
  exact (Option.some.inj hfind).symm

theorem nodup_ordered (t : Table α) (le : α → α → Bool) (p : α → Bool) :
    ((orderBy le (t.select p)).map key).Nodup := by
  have hselect : ((t.select p).map key).Nodup := t.nodup.sublist (List.filter_sublist.map key)
  exact ((List.perm_insertionSort _ _).map key).nodup_iff.mpr hselect

theorem nodup_select (t : Table α) (le : α → α → Bool) (p : α → Bool) (n : Nat) :
    (((orderBy le (t.select p)).take n).map key).Nodup :=
  (t.nodup_ordered le p).sublist ((List.take_sublist _ _).map key)

theorem find_modify (t : Table α) (p : α → Bool) (f : α → α) (hf : ∀ r, key (f r) = key r)
    (k : Nat) : (t.modify p f hf).find k = (t.find k).map fun r => if p r then f r else r := by
  simp only [find,modify,List.find?_map]
  congr 2
  funext r
  simp only [Function.comp_apply]
  split
  · rw [hf]
  · rfl

theorem mem_modify {t : Table α} {p : α → Bool} {f : α → α} (hf : ∀ r, key (f r) = key r)
    {r : α} : r ∈ (t.modify p f hf).rows ↔ ∃ a ∈ t.rows, (if p a then f a else a) = r := by
  simp [modify]

theorem count_modify_le {t : Table α} {p q : α → Bool} {f : α → α}
    (hf : ∀ r, key (f r) = key r) (h : ∀ r ∈ t.rows, p r = true → q (f r) = true → q r = true) :
    (t.modify p f hf).count q ≤ t.count q := by
  simp only [count,modify,List.countP_map]
  apply List.countP_mono_left
  intro r hr hq
  simp only [Function.comp_apply] at hq
  split at hq
  · rename_i hp
    exact h r hr hp hq
  · exact hq

theorem insert_rows {t : Table α} {r : α} (h : t.find (key r) = none) :
    (t.insert r).rows = t.rows ++ [r] := by
  have hk : key r ∉ t.rows.map key := by
    intro hm
    obtain ⟨a,ha,e⟩ := List.mem_map.mp hm
    rw [← e,find_of_mem ha] at h
    simp at h
  simp [insert,hk]

theorem mem_insert {t : Table α} {r a : α} (h : a ∈ (t.insert r).rows) : a ∈ t.rows ∨ a = r := by
  unfold insert at h
  split at h
  · exact .inl h
  · simpa using h

theorem find_insert_of_some {t : Table α} {r a : α} {k : Nat} (h : t.find k = some a) :
    (t.insert r).find k = some a := by
  unfold insert
  split
  · exact h
  · simp only [find] at h ⊢
    rw [List.find?_append,h]
    rfl

theorem count_insert {t : Table α} {r : α} (h : t.find (key r) = none) (q : α → Bool) :
    (t.insert r).count q = t.count q + if q r then 1 else 0 := by
  simp only [count,insert_rows h,List.countP_append,List.countP_singleton]

theorem count_insert_le (t : Table α) (r : α) (q : α → Bool) :
    (t.insert r).count q ≤ t.count q + if q r then 1 else 0 := by
  cases h : t.find (key r) with
  | none => exact Nat.le_of_eq (count_insert h q)
  | some a =>
    have hm : key r ∈ t.rows.map key := by
      obtain ⟨h1,h2⟩ := find_some h
      exact h2 ▸ List.mem_map_of_mem h1
    simp [insert,hm]

theorem subset_insert (t : Table α) (r : α) : t.rows ⊆ (t.insert r).rows := by
  unfold insert
  split
  · exact List.Subset.refl _
  · exact List.subset_append_left _ _

theorem mem_insert_self {t : Table α} {r : α} (h : t.find (key r) = none) :
    r ∈ (t.insert r).rows := by
  rw [insert_rows h]
  exact List.mem_append_right _ (List.mem_singleton.mpr rfl)

section Index

variable {κ : Type} {index : α → Option κ} {t : Table α} {k : κ}

def Unique (index : α → Option κ) (t : Table α) : Prop :=
  ∀ a ∈ t.rows, ∀ b ∈ t.rows, ∀ k, index a = some k → index b = some k → a = b

theorem Unique.insert {r : α} (h : t.Unique index) (hk : index r = some k)
    (hfree : ∀ a ∈ t.rows, index a ≠ some k) : (t.insert r).Unique index := by
  intro a ha b hb j hja hjb
  rcases mem_insert ha with hold | rfl
  · rcases mem_insert hb with hold' | rfl
    · exact h a hold b hold' j hja hjb
    · exact (hfree a hold (hja.trans (hjb.symm.trans hk))).elim
  · rcases mem_insert hb with hold' | rfl
    · exact (hfree b hold' (hjb.trans (hja.symm.trans hk))).elim
    · rfl

theorem Unique.select_eq [DecidableEq κ] {r : α} (h : t.Unique index) (hr : r ∈ t.rows)
    (hk : index r = some k) : (t.select fun a => decide (index a = some k)) = [r] := by
  have hrows : t.rows.Nodup := List.Nodup.of_map key t.nodup
  refine List.perm_singleton.mp ?_
  refine (List.perm_ext_iff_of_nodup (hrows.filter _) (List.nodup_singleton r)).mpr ?_
  intro a
  simp only [List.mem_filter,decide_eq_true_eq,List.mem_singleton]
  constructor
  · exact fun ha => h a ha.1 r hr k ha.2 hk
  · rintro rfl
    exact ⟨hr,hk⟩

end Index

end Table

end Relational
