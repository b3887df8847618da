import Mathlib.Data.List.Basic

namespace Relational

variable {α : Type}

def Sweeps (p : α → Bool) (rows out : List α) (n : Nat) : Prop :=
  ∃ q : α → Bool, (∀ r ∈ rows, q r = true → p r = true) ∧
    out = rows.filter (fun r => !q r) ∧ n = rows.countP q

section Sweeps

variable {p : α → Bool} {rows mid out : List α} {n m : Nat}

theorem sweeps_refl : Sweeps p rows rows 0 :=
  ⟨fun _ => false,fun _ _ => nofun,by simp,by simp⟩

theorem countP_rest (q q' : α → Bool) (rows : List α) :
    (rows.filter fun r => !q r).countP q' + rows.countP (fun r => q r && q' r) = rows.countP q' := by
  rw [List.countP_filter]
  induction rows with
  | nil => rfl
  | cons r rows ih =>
    simp only [List.countP_cons]
    cases q r <;> cases q' r <;> simp <;> omega

theorem length_rest (q : α → Bool) (rows : List α) :
    (rows.filter fun r => !q r).length + rows.countP q = rows.length := by
  simpa using countP_rest q (fun _ => true) rows

theorem Sweeps.trans (h : Sweeps p rows mid n) (k : Sweeps p mid out m) :
    Sweeps p rows out (n + m) := by
  obtain ⟨q,hq,rfl,rfl⟩ := h
  obtain ⟨q',hq',rfl,rfl⟩ := k
  have hout : ((rows.filter fun r => !q r).filter fun r => !q' r) = rows.filter fun r => !(q r || q' r) := by
    rw [List.filter_filter]
    refine List.filter_congr fun r _ => ?_
    rw [Bool.not_or,Bool.and_comm]
  refine ⟨fun r => q r || q' r,fun r hr hor => ?_,hout,?_⟩
  · cases hfirst : q r with
    | true => exact hq r hr hfirst
    | false =>
      refine hq' r (List.mem_filter.mpr ⟨hr,by simp [hfirst]⟩) ?_
      simpa [hfirst] using hor
  · have hfirst := length_rest q rows
    have hsecond := length_rest q' (rows.filter fun r => !q r)
    have hboth := length_rest (fun r => q r || q' r) rows
    rw [hout] at hsecond
    omega

theorem Sweeps.count (h : Sweeps p rows out n) :
    out.countP p + n = rows.countP p := by
  obtain ⟨q,hq,rfl,rfl⟩ := h
  have hsplit := countP_rest q p rows
  have hall : rows.countP (fun r => q r && p r) = rows.countP q := by
    refine List.countP_congr fun r hr => ?_
    rw [Bool.and_eq_true]
    exact ⟨fun h => h.1,fun h => ⟨h,hq r hr h⟩⟩
  omega

theorem Sweeps.length (h : Sweeps p rows out n) : n + out.length = rows.length := by
  obtain ⟨q,-,rfl,rfl⟩ := h
  have hsplit := length_rest q rows
  omega

theorem Sweeps.kept (h : Sweeps p rows out n) {r : α} (hr : r ∈ rows) (hp : p r = false) : r ∈ out := by
  obtain ⟨q,hq,rfl,-⟩ := h
  refine List.mem_filter.mpr ⟨hr,?_⟩
  cases hdoomed : q r with
  | false => rfl
  | true => cases hp.symm.trans (hq r hr hdoomed)

theorem Sweeps.sublist (h : Sweeps p rows out n) : out.Sublist rows := by
  obtain ⟨q,-,rfl,-⟩ := h
  exact List.filter_sublist

end Sweeps

end Relational
