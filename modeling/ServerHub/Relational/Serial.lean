import ServerHub.Relational.Table

namespace Relational

variable {α : Type} [Keyed α]

structure Serial (α : Type) [Keyed α] extends Table α where
  next : Nat
  fresh : ∀ r ∈ rows, key r < next

namespace Serial

def empty : Serial α := ⟨Table.empty,0,by simp [Table.empty]⟩

def insert (t : Serial α) (mk : Nat → α) (hk : ∀ n, key (mk n) = n) : Serial α where
  rows := t.rows ++ [mk t.next]
  nodup := by
    rw [List.map_append,List.map_singleton,hk]
    refine List.nodup_append.mpr ⟨t.nodup,by simp,?_⟩
    intro a ha b hb e
    obtain ⟨r,hr,rfl⟩ := List.mem_map.mp ha
    obtain rfl := List.mem_singleton.mp hb
    exact Nat.ne_of_lt (t.fresh r hr) e
  next := t.next + 1
  fresh := by
    intro r hr
    rcases List.mem_append.mp hr with hr | hr
    · exact Nat.lt_succ_of_lt (t.fresh r hr)
    · rw [List.mem_singleton.mp hr,hk]
      exact Nat.lt_succ_self t.next

def modify (t : Serial α) (p : α → Bool) (f : α → α) (hf : ∀ r, key (f r) = key r) : Serial α where
  toTable := t.toTable.modify p f hf
  next := t.next
  fresh := by
    intro r hr
    obtain ⟨a,ha,rfl⟩ := (Table.mem_modify hf).mp hr
    split
    · rw [hf]
      exact t.fresh a ha
    · exact t.fresh a ha

def remove (t : Serial α) (p : α → Bool) : Serial α where
  toTable := t.toTable.remove p
  next := t.next
  fresh r hr := t.fresh r (Table.mem_remove.mp hr).1

variable {t : Serial α} {mk : Nat → α} {hk : ∀ n, key (mk n) = n} {p : α → Bool} {f : α → α}
  {hf : ∀ r, key (f r) = key r} {k : Nat} {r : α}

@[simp] theorem next_insert : (t.insert mk hk).next = t.next + 1 := rfl

@[simp] theorem next_modify : (t.modify p f hf).next = t.next := rfl

theorem mem_insert : r ∈ (t.insert mk hk).rows ↔ r ∈ t.rows ∨ r = mk t.next := by
  simp [insert]

theorem mem_modify : r ∈ (t.modify p f hf).rows ↔ ∃ a ∈ t.rows, (if p a then f a else a) = r :=
  Table.mem_modify hf

theorem mem_remove : r ∈ (t.remove p).rows ↔ r ∈ t.rows ∧ p r = false := Table.mem_remove

theorem find_lt (h : t.find k = some r) : k < t.next := by
  obtain ⟨hr,rfl⟩ := Table.find_some h
  exact t.fresh r hr

theorem find_next : t.find t.next = none := by
  cases h : t.find t.next with
  | none => rfl
  | some r => exact absurd (find_lt h) (Nat.lt_irrefl _)

theorem find_insert_self (t : Serial α) (mk : Nat → α) (hk : ∀ n, key (mk n) = n) :
    (t.insert mk hk).find t.next = some (mk t.next) := by
  have hm : mk t.next ∈ (t.insert mk hk).rows := mem_insert.mpr (.inr rfl)
  have h := Table.find_of_mem hm
  rwa [hk] at h

theorem find_insert_ne (mk : Nat → α) (hk : ∀ n, key (mk n) = n) (h : k ≠ t.next) :
    (t.insert mk hk).find k = t.find k := by
  have hne : (decide (key (mk t.next) = k)) = false := by
    rw [hk]
    exact decide_eq_false fun e => h e.symm
  have hnil : [mk t.next].find? (fun r => decide (key r = k)) = none := by
    simp only [List.find?_cons,hne,List.find?_nil]
  show (t.rows ++ [mk t.next]).find? (fun r => decide (key r = k)) = _
  rw [List.find?_append,hnil,Option.or_none]
  rfl

theorem find_modify : (t.modify p f hf).find k = (t.find k).map fun r => if p r then f r else r :=
  Table.find_modify t.toTable p f hf k

theorem count_insert (t : Serial α) (mk : Nat → α) (hk : ∀ n, key (mk n) = n) (q : α → Bool) :
    (t.insert mk hk).count q = t.count q + if q (mk t.next) then 1 else 0 := by
  simp [Table.count,insert,List.countP_append,List.countP_singleton]

theorem count_key_le (k : Nat) : t.rows.countP (fun r => decide (key r = k)) ≤ 1 := by
  have h : t.rows.countP (fun r => decide (key r = k)) = (t.rows.map key).count k := by
    rw [List.count,List.countP_map]
    rfl
  rw [h]
  exact List.nodup_iff_count_le_one.mp t.nodup k

theorem count_modify_one (q : α → Bool) (hp : ∀ r, p r = true → key r = k) :
    (t.modify p f hf).count q ≤ t.count q + 1 := by
  have hsplit : (t.modify p f hf).count q ≤
      t.rows.countP q + t.rows.countP (fun r => decide (key r = k)) := by
    show (t.rows.map fun r => if p r then f r else r).countP q ≤ _
    rw [List.countP_map]
    generalize t.rows = rows
    induction rows with
    | nil => simp
    | cons r rows ih =>
      simp only [List.countP_cons,Function.comp_apply]
      by_cases hr : p r = true
      · simp only [hr,hp r hr,if_true,decide_true]
        split <;> split <;> omega
      · simp only [hr,Bool.false_eq_true,if_false]
        split <;> split <;> omega
  exact Nat.le_trans hsplit (Nat.add_le_add_left (count_key_le k) _)

theorem count_modify_drop {q : α → Bool} {rows : List α} (hrows : ∀ r ∈ rows, r ∈ t.rows)
    (hp : ∀ r ∈ rows, p r = true) (hq : ∀ r ∈ rows, q r = true)
    (hnodup : (rows.map key).Nodup) (hf' : ∀ r, p r = true → q (f r) = false) :
    (t.modify p f hf).count q + rows.length ≤ t.count q := by
  have hsub : rows ⊆ t.rows.filter fun r => q r && p r := by
    intro r hr
    exact List.mem_filter.mpr ⟨hrows r hr,by rw [hq r hr,hp r hr]; rfl⟩
  have hlen : rows.length ≤ t.rows.countP fun r => q r && p r := by
    rw [List.countP_eq_length_filter]
    exact (List.subperm_of_subset (List.Nodup.of_map key hnodup) hsub).length_le
  have hkept : (t.modify p f hf).count q = t.rows.countP fun r => q r && !p r := by
    show (t.rows.map fun r => if p r then f r else r).countP q = _
    rw [List.countP_map]
    refine List.countP_congr fun r _ => ?_
    by_cases hr : p r = true
    · simp [hr,hf' r hr]
    · simp [hr]
  have hsplit : t.count q = (t.rows.countP fun r => q r && p r) +
      t.rows.countP fun r => q r && !p r := by
    show t.rows.countP q = _
    generalize t.rows = l
    induction l with
    | nil => rfl
    | cons r l ih =>
      simp only [List.countP_cons,ih]
      cases q r <;> cases p r <;> simp <;> omega
  omega

end Serial

end Relational
