import Mathlib.Data.List.Count

namespace Tickets

inductive Move (κ α : Type) where
  | issue (k : κ) (a : α)
  | redeem (k : κ) (a : α)

variable {κ α : Type}

def Move.key : Move κ α → κ
  | .issue k _ => k
  | .redeem k _ => k

def Move.issues (p : α → Bool) : Move κ α → Bool
  | .issue _ a => p a
  | .redeem _ _ => false

def Move.redeems (p : α → Bool) : Move κ α → Bool
  | .issue _ _ => false
  | .redeem _ a => p a

section Count

variable {k : κ} {a : α} {ms : List (Move κ α)} {p : α → Bool}

theorem redeems_issue : (Move.issue k a :: ms).countP (Move.redeems p) = ms.countP (Move.redeems p) :=
  List.countP_cons_of_neg (by simp [Move.redeems])

theorem issues_redeem : (Move.redeem k a :: ms).countP (Move.issues p) = ms.countP (Move.issues p) :=
  List.countP_cons_of_neg (by simp [Move.issues])

theorem issues_issue : (Move.issue k a :: ms).countP (Move.issues p) =
    ms.countP (Move.issues p) + (p a).toNat := by
  cases ha : p a <;> simp [Move.issues,ha]

theorem redeems_redeem : (Move.redeem k a :: ms).countP (Move.redeems p) =
    ms.countP (Move.redeems p) + (p a).toNat := by
  cases ha : p a <;> simp [Move.redeems,ha]

end Count

section Held

variable [DecidableEq κ]

-- what is issued and not yet redeemed, the newest move first
def held : List (Move κ α) → List (κ × α)
  | [] => []
  | .issue k a :: ms => (k,a) :: (held ms).filter fun e => e.1 ≠ k
  | .redeem k _ :: ms => (held ms).filter fun e => e.1 ≠ k

def Honest : List (Move κ α) → Prop
  | [] => True
  | .issue _ _ :: ms => Honest ms
  | .redeem k a :: ms => (k,a) ∈ held ms ∧ Honest ms

variable {k j : κ} {a b : α} {ms : List (Move κ α)}

theorem mem_held_issue :
    (j,b) ∈ held (.issue k a :: ms) ↔ j = k ∧ b = a ∨ j ≠ k ∧ (j,b) ∈ held ms := by
  simp [held,and_comm]

theorem mem_held_redeem : (j,b) ∈ held (.redeem k a :: ms) ↔ j ≠ k ∧ (j,b) ∈ held ms := by
  simp [held,and_comm]

theorem held_iff : (k,a) ∈ held ms ↔
    ∃ later earlier, ms = later ++ .issue k a :: earlier ∧ ∀ m ∈ later, m.key ≠ k := by
  induction ms with
  | nil => simp [held]
  | cons m ms ih =>
    constructor
    · intro h
      have older : m.key ≠ k → (k,a) ∈ held ms → ∃ later earlier,
          m :: ms = later ++ .issue k a :: earlier ∧ ∀ n ∈ later, n.key ≠ k := by
        intro hm hk
        obtain ⟨later,earlier,rfl,hlater⟩ := ih.mp hk
        exact ⟨m :: later,earlier,rfl,List.forall_mem_cons.mpr ⟨hm,hlater⟩⟩
      cases m with
      | issue j c =>
        rcases mem_held_issue.mp h with ⟨rfl,rfl⟩ | ⟨hne,hk⟩
        · exact ⟨[],ms,rfl,by simp⟩
        · exact older hne.symm hk
      | redeem j c =>
        obtain ⟨hne,hk⟩ := mem_held_redeem.mp h
        exact older hne.symm hk
    · rintro ⟨later,earlier,hms,hlater⟩
      cases later with
      | nil =>
        obtain ⟨rfl,rfl⟩ := List.cons.inj hms
        exact mem_held_issue.mpr (.inl ⟨rfl,rfl⟩)
      | cons n later =>
        obtain ⟨rfl,rfl⟩ := List.cons.inj hms
        obtain ⟨hm,hlater⟩ := List.forall_mem_cons.mp hlater
        have hk : (k,a) ∈ held (later ++ .issue k a :: earlier) :=
          ih.mpr ⟨later,earlier,rfl,hlater⟩
        cases m with
        | issue j c => exact mem_held_issue.mpr (.inr ⟨fun e => hm e.symm,hk⟩)
        | redeem j c => exact mem_held_redeem.mpr ⟨fun e => hm e.symm,hk⟩

theorem held_keyed : (k,a) ∈ held ms ↔ (k,a) ∈ held (ms.filter fun m => m.key = k) := by
  induction ms with
  | nil => rfl
  | cons m ms ih =>
    by_cases hm : m.key = k
    · rw [List.filter_cons_of_pos (by simpa using hm)]
      cases m with
      | issue j c => rw [mem_held_issue,mem_held_issue,ih]
      | redeem j c => rw [mem_held_redeem,mem_held_redeem,ih]
    · rw [List.filter_cons_of_neg (by simpa using hm),← ih]
      cases m with
      | issue j c =>
        rw [mem_held_issue]
        exact ⟨fun h => h.elim (fun h => absurd h.1.symm hm) And.right,
          fun h => .inr ⟨fun e => hm e.symm,h⟩⟩
      | redeem j c =>
        rw [mem_held_redeem]
        exact ⟨And.right,fun h => ⟨fun e => hm e.symm,h⟩⟩

variable {p : α → Bool}

theorem countP_without (l : List (κ × α)) (k : κ) :
    (l.filter fun e => e.1 ≠ k).countP (fun e => p e.2) ≤ l.countP fun e => p e.2 :=
  List.Sublist.countP_le List.filter_sublist

theorem countP_without_lt {l : List (κ × α)} (h : (k,a) ∈ l) (ha : p a = true) :
    (l.filter fun e => e.1 ≠ k).countP (fun e => p e.2) < l.countP fun e => p e.2 := by
  rw [List.countP_eq_countP_filter_add l (fun e => p e.2) fun e => decide (e.1 ≠ k)]
  refine Nat.lt_add_of_pos_right (List.countP_pos_iff.mpr ⟨(k,a),?_,ha⟩)
  exact List.mem_filter.mpr ⟨h,by simp⟩

theorem held_issue : (held (.issue k a :: ms)).countP (fun e => p e.2) ≤
    (held ms).countP (fun e => p e.2) + (p a).toNat := by
  have hkept := countP_without (p := p) (held ms) k
  cases ha : p a <;> simpa [held,ha] using hkept

theorem held_redeem (h : (k,a) ∈ held ms) : (held (.redeem k a :: ms)).countP (fun e => p e.2) +
    (p a).toNat ≤ (held ms).countP fun e => p e.2 := by
  cases ha : p a with
  | true => exact countP_without_lt h ha
  | false => exact countP_without (held ms) k

theorem redeemed_le (h : Honest ms) :
    ms.countP (Move.redeems p) + (held ms).countP (fun e => p e.2) ≤ ms.countP (Move.issues p) := by
  induction ms with
  | nil => exact Nat.le_refl 0
  | cons m ms ih =>
    cases m with
    | issue k a =>
      have hrest := ih h
      have hheld : (held (.issue k a :: ms)).countP (fun e => p e.2) ≤
        (held ms).countP (fun e => p e.2) + (p a).toNat := held_issue
      rw [redeems_issue,issues_issue]
      omega
    | redeem k a =>
      have hrest := ih h.2
      have hheld : (held (.redeem k a :: ms)).countP (fun e => p e.2) + (p a).toNat ≤
        (held ms).countP fun e => p e.2 := held_redeem h.1
      rw [redeems_redeem,issues_redeem]
      omega

end Held

end Tickets
