import Mathlib.Data.List.Basic
import Mathlib.Logic.Function.Basic

namespace Go

structure Slice where
  array : Nat
  length : Nat
deriving DecidableEq

def Slice.nil : Slice := ⟨0,0⟩

structure Heap (α : Type) where
  arrays : Nat → List α
  next : Nat

namespace Heap

variable {α : Type}

def empty : Heap α := ⟨fun _ => [],1⟩

def read (h : Heap α) (s : Slice) : List α := (h.arrays s.array).take s.length

def write (h : Heap α) (array : Nat) (cells : List α) : Heap α :=
  { h with arrays := Function.update h.arrays array cells }

def append (spare : Nat → List α) (h : Heap α) (s : Slice) (a : α) : Heap α × Slice :=
  if s.length < (h.arrays s.array).length then
    (h.write s.array ((h.arrays s.array).set s.length a),⟨s.array,s.length + 1⟩)
  else
    ({ h.write h.next (h.read s ++ a :: spare s.length) with next := h.next + 1 },
      ⟨h.next,s.length + 1⟩)

def keepAt (spare : Nat → List α) (p : α → Bool) (hits : Slice) (x : Heap α × Slice) (i : Nat) :
    Heap α × Slice :=
  match (x.1.arrays hits.array)[i]? with
  | none => x
  | some a => if p a then x.1.append spare x.2 a else x

def compact (spare : Nat → List α) (p : α → Bool) (h : Heap α) (hits : Slice) : Heap α × Slice :=
  (List.range hits.length).foldl (keepAt spare p hits) (h,{ hits with length := 0 })

structure Holds (h : Heap α) (s : Slice) : Prop where
  fits : s.length ≤ (h.arrays s.array).length
  allocated : s.array < h.next

variable {h : Heap α} {s t : Slice} {spare : Nat → List α} {a : α} {p : α → Bool} {n : Nat}

@[simp] theorem write_next (array : Nat) (cells : List α) : (h.write array cells).next = h.next := rfl

@[simp] theorem write_self (array : Nat) (cells : List α) :
    (h.write array cells).arrays array = cells := Function.update_self ..

theorem write_other {array : Nat} {cells : List α} (hn : n ≠ array) :
    (h.write array cells).arrays n = h.arrays n := Function.update_of_ne hn ..

theorem write_same (array : Nat) : h.write array (h.arrays array) = h := by
  rw [write,Function.update_eq_self]

theorem write_write (array : Nat) (cells cells' : List α) :
    (h.write array cells).write array cells' = h.write array cells' := by
  simp only [write,Function.update_idem]

theorem append_room (hs : s.length < (h.arrays s.array).length) :
    h.append spare s a =
      (h.write s.array ((h.arrays s.array).set s.length a),⟨s.array,s.length + 1⟩) := if_pos hs

structure Appended (h : Heap α) (s : Slice) (a : α) (x : Heap α × Slice) : Prop where
  read : x.1.read x.2 = h.read s ++ [a]
  holds : x.1.Holds x.2
  grows : h.next ≤ x.1.next
  array : x.2.array = h.next ∨ x.2.array = s.array ∧ s.length < (h.arrays s.array).length
  others : ∀ n, n ≠ x.2.array → x.1.arrays n = h.arrays n

theorem append_spec (spare : Nat → List α) (hs : h.Holds s) (a : α) :
    Appended h s a (h.append spare s a) := by
  have hfits := hs.fits
  have hin := hs.allocated
  have hlength : (h.read s).length = s.length := by rw [Heap.read,List.length_take]; omega
  by_cases hroom : s.length < (h.arrays s.array).length
  · rw [append_room hroom]
    refine ⟨?_,⟨?_,hin⟩,Nat.le_refl _,.inr ⟨rfl,hroom⟩,fun n hn => write_other hn⟩
    · simp only [Heap.read,write_self]
      rw [List.take_set,List.set_eq_take_append_cons_drop,if_pos (by simp; omega),List.take_take,
        Nat.min_eq_left (Nat.le_succ _)]
      simp
    · simp only [write_self,List.length_set]
      omega
  · rw [append,if_neg hroom]
    refine ⟨?_,⟨?_,Nat.lt_succ_self _⟩,Nat.le_succ _,.inl rfl,fun n hn => write_other hn⟩
    · have hsplit : h.read s ++ a :: spare s.length = (h.read s ++ [a]) ++ spare s.length := by simp
      simp only [Heap.read] at hsplit hlength ⊢
      rw [write_self,hsplit,List.take_left' (by simp [hlength])]
    · simp only [write_self,List.length_append,List.length_cons,hlength]
      omega

def kept (p : α → Bool) (h : Heap α) (s : Slice) : List α := (h.read s).filter p

theorem kept_length_le (p : α → Bool) (h : Heap α) (s : Slice) : (kept p h s).length ≤ s.length := by
  have hle : (kept p h s).length ≤ (h.read s).length := List.length_filter_le p (h.read s)
  rw [Heap.read,List.length_take] at hle
  omega

theorem compact_prefix (spare : Nat → List α) (p : α → Bool) (hs : h.Holds s) (hn : n ≤ s.length) :
    (List.range n).foldl (keepAt spare p s) (h,{ s with length := 0 }) =
      (h.write s.array (((h.arrays s.array).take n).filter p ++
        (h.arrays s.array).drop (((h.arrays s.array).take n).filter p).length),
        ⟨s.array,(((h.arrays s.array).take n).filter p).length⟩) := by
  induction n with
  | zero => simp [write_same]
  | succ n ih =>
    have hfits := hs.fits
    have hlt : n < (h.arrays s.array).length := by omega
    rw [List.range_succ,List.foldl_append,ih (by omega),List.foldl_cons,List.foldl_nil]
    generalize hk : ((h.arrays s.array).take n).filter p = ks
    have hks : ks.length ≤ n := by
      rw [← hk]
      exact Nat.le_trans (List.length_filter_le _ _) (List.length_take_le _ _)
    have htake : (h.arrays s.array).take (n+1) = (h.arrays s.array).take n ++ [(h.arrays s.array)[n]] :=
      List.take_succ_eq_append_getElem hlt
    have hcell : (ks ++ (h.arrays s.array).drop ks.length)[n]? = some (h.arrays s.array)[n] := by
      rw [List.getElem?_append_right hks,List.getElem?_drop]
      have hidx : ks.length + (n - ks.length) = n := by omega
      rw [hidx,List.getElem?_eq_getElem hlt]
    rw [htake,List.filter_append,hk]
    simp only [keepAt,write_self,hcell]
    cases hp : p (h.arrays s.array)[n] with
    | false => simp [hp]
    | true =>
      have hroom : ks.length < (ks ++ (h.arrays s.array).drop ks.length).length := by simp; omega
      have hset : (ks ++ (h.arrays s.array).drop ks.length).set ks.length (h.arrays s.array)[n] =
          (ks ++ [(h.arrays s.array)[n]]) ++ (h.arrays s.array).drop (ks.length + 1) := by
        have hlast : ks.length < (h.arrays s.array).length := by omega
        rw [List.set_append_right _ _ (Nat.le_refl _),Nat.sub_self,List.drop_eq_getElem_cons hlast,
          List.set_cons_zero,List.append_assoc,List.singleton_append]
      rw [if_pos rfl,append_room (by simpa using hroom)]
      simp only [write_self,write_write,hset]
      simp [hp]

theorem compact_spec (spare : Nat → List α) (p : α → Bool) (hs : h.Holds s) :
    h.compact spare p s =
      (h.write s.array (kept p h s ++ (h.arrays s.array).drop (kept p h s).length),
        ⟨s.array,(kept p h s).length⟩) :=
  compact_prefix spare p hs (Nat.le_refl _)

theorem read_compact (spare : Nat → List α) (p : α → Bool) (hs : h.Holds s) :
    (h.compact spare p s).1.read (h.compact spare p s).2 = kept p h s := by
  rw [compact_spec spare p hs]
  simp [Heap.read]

theorem reread_compact (spare : Nat → List α) (p : α → Bool) (hs : h.Holds s) :
    (h.compact spare p s).1.read s = kept p h s ++ (h.read s).drop (kept p h s).length := by
  have hle := kept_length_le p h s
  rw [compact_spec spare p hs]
  simp only [Heap.read,write_self,List.take_append,List.drop_take]
  rw [List.take_of_length_le hle]

theorem compact_others (spare : Nat → List α) (p : α → Bool) (hs : h.Holds s) (hn : n ≠ s.array) :
    (h.compact spare p s).1.arrays n = h.arrays n := by
  rw [compact_spec spare p hs]
  exact write_other hn

theorem compact_holds (spare : Nat → List α) (p : α → Bool) (hs : h.Holds s) :
    (h.compact spare p s).1.Holds (h.compact spare p s).2 ∧
      (h.compact spare p s).1.Holds s := by
  have hle := kept_length_le p h s
  have hfits := hs.fits
  rw [compact_spec spare p hs]
  refine ⟨⟨?_,hs.allocated⟩,⟨?_,hs.allocated⟩⟩
  · simp
  · simp only [write_self,List.length_append,List.length_drop]
    omega

end Heap

end Go
