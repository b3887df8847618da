import ServerHub.Interleave.Chronicle

namespace Interleave

inductive Turn where
  | taken
  | left
deriving DecidableEq

section Turns

variable {N : Type} (turn : N → Option Turn)

-- who has taken the turn and not left it, the newest entry first
def holder : List (Nat × N) → Option Nat
  | [] => none
  | (pid,n) :: log =>
      match turn n with
      | some .taken => some pid
      | some .left => none
      | none => holder log

def holding : List N → Bool
  | [] => false
  | n :: ns =>
      match turn n with
      | some .taken => true
      | some .left => false
      | none => holding ns

-- the turn is taken when nobody has it and left by who has it
def Turned (older : List (Nat × N)) (e : Nat × N) : Prop :=
  match turn e.2 with
  | some .taken => holder turn older = none
  | some .left => holder turn older = some e.1
  | none => True

variable {turn} {log older mid : List (Nat × N)} {pid q : Nat} {n : N}

theorem holder_taken (h : turn n = some .taken) : holder turn ((pid,n) :: log) = some pid := by
  simp only [holder,h]

theorem holder_left (h : turn n = some .left) : holder turn ((pid,n) :: log) = none := by
  simp only [holder,h]

theorem holder_other (h : turn n = none) : holder turn ((pid,n) :: log) = holder turn log := by
  simp only [holder,h]

theorem turned_taken (h : Turned turn log (pid,n)) (ht : turn n = some .taken) :
    holder turn log = none := by simpa only [Turned,ht] using h

theorem turned_left (h : Turned turn log (pid,n)) (ht : turn n = some .left) :
    holder turn log = some pid := by simpa only [Turned,ht] using h

theorem notesOf_cons_self (pid : Nat) (n : N) (log : List (Nat × N)) :
    notesOf pid ((pid,n) :: log) = n :: notesOf pid log := notesOf_record pid log (some n)

theorem notesOf_cons_other (log : List (Nat × N)) (n : N) (h : q ≠ pid) :
    notesOf q ((pid,n) :: log) = notesOf q log := notesOf_other log (some n) h

theorem notesOf_append (pid : Nat) (mid older : List (Nat × N)) :
    notesOf pid (mid ++ older) = notesOf pid mid ++ notesOf pid older := by
  simp only [notesOf,own,List.filter_append,List.map_append]

theorem holder_iff (h : Chronicle (Turned turn) log) :
    holder turn log = some pid ↔ holding turn (notesOf pid log) = true := by
  induction log with
  | nil => simp [holder,notesOf,own,holding]
  | cons e log ih =>
    obtain ⟨q,n⟩ := e
    have ih := ih h.2
    have hturned := h.1
    by_cases hq : pid = q
    · subst hq
      rw [notesOf_cons_self]
      cases ht : turn n with
      | none =>
        rw [holder_other ht,ih]
        simp only [holding,ht]
      | some t =>
        cases t with
        | taken => simp only [holder,holding,ht]
        | left => simp only [holder,holding,ht,reduceCtorEq,Bool.false_eq_true]
    · rw [notesOf_cons_other _ _ hq,← ih]
      cases ht : turn n with
      | none => rw [holder_other ht]
      | some t =>
        cases t with
        | taken =>
          have hnone : holder turn log = none := turned_taken hturned ht
          rw [holder_taken ht,hnone]
          exact ⟨fun he => absurd (Option.some.inj he).symm hq,
            fun he => absurd he.symm (Option.some_ne_none pid)⟩
        | left =>
          have hheld : holder turn log = some q := turned_left hturned ht
          rw [holder_left ht,hheld]
          exact ⟨fun he => absurd he.symm (Option.some_ne_none pid),
            fun he => absurd (Option.some.inj he).symm hq⟩

theorem holder_kept (hlog : Chronicle (Turned turn) (mid ++ older)) (h : holder turn older = some pid)
    (hmid : ∀ n, turn n = some .left → (pid,n) ∉ mid) : holder turn (mid ++ older) = some pid := by
  induction mid with
  | nil => exact h
  | cons e mid ih =>
    obtain ⟨q,n⟩ := e
    have hheld := ih hlog.2 fun m hm hin => hmid m hm (List.mem_cons_of_mem _ hin)
    have hturned := hlog.1
    show holder turn ((q,n) :: (mid ++ older)) = some pid
    cases ht : turn n with
    | none => rw [holder_other ht,hheld]
    | some t =>
      cases t with
      | taken =>
        have hnone : holder turn (mid ++ older) = none := turned_taken hturned ht
        cases hnone.symm.trans hheld
      | left =>
        have hq : holder turn (mid ++ older) = some q := turned_left hturned ht
        obtain rfl := Option.some.inj (hheld.symm.trans hq)
        exact absurd List.mem_cons_self (hmid n ht)

end Turns

end Interleave
