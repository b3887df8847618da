import ServerHub.Relational.Serial

namespace Relational

section Kept

variable {α : Type} {rows : List α} {p q : α → Bool}

theorem filter_kept (h : ∀ r ∈ rows, q r = true → p r = false) :
    (rows.filter fun r => !p r).filter q = rows.filter q := by
  rw [List.filter_filter]
  refine List.filter_congr fun r hr => ?_
  cases hq : q r with
  | false => rfl
  | true =>
    rw [h r hr hq]
    rfl

theorem map_kept {f : α → α} (h : ∀ r, p (f r) = p r) :
    (rows.map f).filter (fun r => !p r) = (rows.filter fun r => !p r).map f := by
  rw [List.filter_map]
  congr 1
  refine List.filter_congr fun r _ => ?_
  simp only [Function.comp_apply,h]

end Kept

namespace Serial

variable {α : Type} [Keyed α]

-- t is s without the rows of the lost keys, and each of these was fit to go
structure Trims (lost : Nat → Bool) (Fit : α → Prop) (s t : Serial α) : Prop where
  rows : t.rows = s.rows.filter fun r => !lost (key r)
  next : t.next = s.next
  fit : ∀ r ∈ s.rows, lost (key r) = true → Fit r
  old : ∀ k, lost k = true → k < s.next

namespace Trims

variable {lost : Nat → Bool} {Fit : α → Prop} {s t : Serial α}
  {p q : α → Bool} {f : α → α} {hf : ∀ r, key (f r) = key r}

theorem start (s : Serial α) : Trims (fun _ => false) Fit s s where
  rows := (List.filter_eq_self.mpr fun _ _ => rfl).symm
  next := rfl
  fit _ _ h := nomatch h
  old _ h := nomatch h

theorem mono {Fit' : α → Prop} (h : Trims lost Fit s t) (hfit : ∀ r, Fit r → Fit' r) :
    Trims lost Fit' s t := { h with fit := fun r hr hl => hfit r (h.fit r hr hl) }

theorem insert (h : Trims lost Fit s t) (mk : Nat → α) (hk : ∀ n, key (mk n) = n) :
    Trims lost Fit (s.insert mk hk) (t.insert mk hk) := by
  have hnew : lost (key (mk s.next)) = false := by
    rw [hk]
    by_contra hl
    exact Nat.lt_irrefl _ (h.old _ (by simpa using hl))
  refine ⟨?_,congrArg (· + 1) h.next,?_,fun k hl => Nat.lt_succ_of_lt (h.old k hl)⟩
  · have hlast : [mk s.next].filter (fun r => !lost (key r)) = [mk s.next] := by
      rw [List.filter_cons_of_pos (by rw [hnew]; rfl),List.filter_nil]
    show t.rows ++ [mk t.next] = (s.rows ++ [mk s.next]).filter _
    rw [List.filter_append,hlast,h.rows,h.next]
  · intro r hr hl
    rcases mem_insert.mp hr with hr | rfl
    · exact h.fit r hr hl
    · exact nomatch hnew.symm.trans hl

theorem modify (h : Trims lost Fit s t) (hp : ∀ r ∈ s.rows, p r = true → lost (key r) = false) :
    Trims lost Fit (s.modify p f hf) (t.modify p f hf) := by
  refine ⟨?_,h.next,?_,h.old⟩
  · show t.rows.map _ = (s.rows.map _).filter _
    have hkey : ∀ r, lost (key (if p r then f r else r)) = lost (key r) := by
      intro r
      split
      · rw [hf]
      · rfl
    rw [h.rows,map_kept hkey]
  · intro r hr hl
    obtain ⟨a,ha,rfl⟩ := mem_modify.mp hr
    split at hl
    · rename_i hpa
      rw [hf,hp a ha hpa] at hl
      exact nomatch hl
    · rename_i hpa
      rw [if_neg hpa]
      exact h.fit a ha hl

theorem kept (h : Trims lost Fit s t) (hq : ∀ r, Fit r → q r = false) :
    ∀ r ∈ s.rows, q r = true → lost (key r) = false := by
  intro r hr hqr
  by_contra hl
  exact nomatch hqr.symm.trans (hq r (h.fit r hr (by simpa using hl)))

theorem select (h : Trims lost Fit s t) (hq : ∀ r, Fit r → q r = false) : t.select q = s.select q := by
  unfold Table.select
  rw [h.rows]
  exact filter_kept (h.kept hq)

theorem count (h : Trims lost Fit s t) (hq : ∀ r, Fit r → q r = false) : t.count q = s.count q := by
  unfold Table.count
  rw [List.countP_eq_length_filter,List.countP_eq_length_filter]
  exact congrArg List.length (h.select hq)

theorem find (h : Trims lost Fit s t) (hq : ∀ r, Fit r → q r = false) :
    t.rows.find? q = s.rows.find? q := by
  rw [← List.head?_filter,← List.head?_filter]
  exact congrArg List.head? (h.select hq)

theorem remove (h : Trims lost Fit s t) (hp : ∀ r ∈ t.rows, p r = true → Fit r) :
    ∃ lost', Trims lost' Fit s (t.remove p) := by
  have hsub : ∀ r ∈ t.rows, r ∈ s.rows := by
    intro r hr
    rw [h.rows] at hr
    exact (List.mem_filter.mp hr).1
  have hsame : ∀ r ∈ s.rows, ∀ a ∈ t.rows, key a = key r → a = r :=
    fun r hr a ha => Table.eq_of_key (hsub a ha) hr
  refine ⟨fun k => lost k || t.rows.any fun r => key r == k && p r,?_,h.next,?_,?_⟩
  · show t.rows.filter (fun r => !p r) = _
    rw [h.rows,List.filter_filter]
    refine List.filter_congr fun r hr => ?_
    cases hl : lost (key r) with
    | true => simp
    | false =>
      have hmem : r ∈ t.rows := by
        rw [h.rows]
        exact List.mem_filter.mpr ⟨hr,by rw [hl]; rfl⟩
      have hany : (t.rows.any fun a => key a == key r && p a) = p r := by
        rw [Bool.eq_iff_iff,List.any_eq_true]
        constructor
        · rintro ⟨a,ha,hpa⟩
          obtain ⟨hkey,hpa⟩ := Bool.and_eq_true_iff.mp hpa
          rw [hsame r hr a ha (beq_iff_eq.mp hkey)] at hpa
          exact hpa
        · intro hpr
          exact ⟨r,hmem,by simp [hpr]⟩
      rw [← h.rows,hany]
      simp
  · intro r hr hl
    rcases Bool.or_eq_true_iff.mp hl with hl | hl
    · exact h.fit r hr hl
    · obtain ⟨a,ha,hboth⟩ := List.any_eq_true.mp hl
      obtain ⟨hkey,hpa⟩ := Bool.and_eq_true_iff.mp hboth
      rw [← hsame r hr a ha (beq_iff_eq.mp hkey)]
      exact hp a ha hpa
  · intro k hl
    rcases Bool.or_eq_true_iff.mp hl with hl | hl
    · exact h.old k hl
    · obtain ⟨a,ha,hpa⟩ := List.any_eq_true.mp hl
      obtain ⟨hkey,-⟩ := Bool.and_eq_true_iff.mp hpa
      rw [← beq_iff_eq.mp hkey,← h.next]
      exact t.fresh a ha

end Trims

end Serial

end Relational
