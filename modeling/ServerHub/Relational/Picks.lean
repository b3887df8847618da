import ServerHub.Relational.Serial

namespace Relational

-- a transaction picks the rows of an owner at one statement and erases them at its commit
inductive Mark (ω : Type) where
  | made (id : Nat) (owner : ω)
  | picked (owner : ω) (ids : List Nat)
  | erased (ids : List Nat)
deriving DecidableEq

variable {α ω : Type} [Keyed α] {owner : α → ω}

structure Tracked (owner : α → ω) (t : Serial α) (log : List (Mark ω)) : Prop where
  picked : ∀ newer o ids older, log = newer ++ .picked o ids :: older → (∀ i ∈ ids, i < t.next) ∧
    ∀ r ∈ t.rows, owner r = o → key r ∈ ids ∨ .made (key r) o ∈ newer
  erased : ∀ ids, .erased ids ∈ log → ∀ i ∈ ids, i < t.next ∧ ∀ r ∈ t.rows, key r ≠ i

namespace Tracked

variable {t u : Serial α} {log newer older : List (Mark ω)} {o : ω} {ids : List Nat}

theorem begun : Tracked owner t [] where
  picked newer o ids older h := by
    have hlength := congrArg List.length h
    simp at hlength
  erased ids h := by cases h

theorem less (h : Tracked owner t log) (hnext : t.next ≤ u.next)
    (hrows : ∀ r ∈ u.rows, ∃ a ∈ t.rows, key a = key r ∧ owner a = owner r) : Tracked owner u log where
  picked newer o ids older hlog := by
    obtain ⟨hlt,hpicked⟩ := h.picked newer o ids older hlog
    refine ⟨fun i hi => lt_of_lt_of_le (hlt i hi) hnext,fun r hr ho => ?_⟩
    obtain ⟨a,ha,hkey,howner⟩ := hrows r hr
    exact hkey ▸ hpicked a ha (howner.trans ho)
  erased ids hids i hi := by
    obtain ⟨hlt,hgone⟩ := h.erased ids hids i hi
    refine ⟨lt_of_lt_of_le hlt hnext,fun r hr => ?_⟩
    obtain ⟨a,ha,hkey,-⟩ := hrows r hr
    exact hkey ▸ hgone a ha

theorem modify {p : α → Bool} {f : α → α} {hf : ∀ r, key (f r) = key r} (h : Tracked owner t log)
    (ho : ∀ r, owner (f r) = owner r) : Tracked owner (t.modify p f hf) log := by
  refine h.less le_rfl fun r hr => ?_
  obtain ⟨a,ha,rfl⟩ := Serial.mem_modify.mp hr
  refine ⟨a,ha,?_⟩
  split
  · exact ⟨(hf a).symm,(ho a).symm⟩
  · exact ⟨rfl,rfl⟩

theorem remove {p : α → Bool} (h : Tracked owner t log) : Tracked owner (t.remove p) log :=
  h.less le_rfl fun r hr => ⟨r,(Serial.mem_remove.mp hr).1,rfl,rfl⟩

theorem insert (h : Tracked owner t log) (mk : Nat → α) (hk : ∀ n, key (mk n) = n) :
    Tracked owner (t.insert mk hk) (.made t.next (owner (mk t.next)) :: log) where
  picked newer o ids older hlog := by
    cases newer with
    | nil => cases hlog
    | cons n newer =>
      obtain ⟨rfl,rfl⟩ := List.cons.inj hlog
      obtain ⟨hlt,hpicked⟩ := h.picked newer o ids older rfl
      refine ⟨fun i hi => Nat.lt_succ_of_lt (hlt i hi),fun r hr ho => ?_⟩
      rcases Serial.mem_insert.mp hr with hr | rfl
      · exact (hpicked r hr ho).imp_right (List.mem_cons_of_mem _)
      · rw [hk,ho]
        exact .inr List.mem_cons_self
  erased ids hids i hi := by
    have hin := (List.mem_cons.mp hids).resolve_left fun he => by cases he
    obtain ⟨hlt,hgone⟩ := h.erased ids hin i hi
    refine ⟨Nat.lt_succ_of_lt hlt,fun r hr => ?_⟩
    rcases Serial.mem_insert.mp hr with hr | rfl
    · exact hgone r hr
    · rw [hk]
      exact (Nat.ne_of_lt hlt).symm

theorem pick [DecidableEq ω] (h : Tracked owner t log) (o : ω) :
    Tracked owner t (.picked o ((t.select fun r => owner r = o).map key) :: log) where
  picked newer o' ids older hlog := by
    cases newer with
    | nil =>
      obtain ⟨he,rfl⟩ := List.cons.inj hlog
      obtain ⟨rfl,rfl⟩ := Mark.picked.inj he
      refine ⟨fun i hi => ?_,fun r hr ho => ?_⟩
      · obtain ⟨r,hr,rfl⟩ := List.mem_map.mp hi
        exact t.fresh r (List.mem_filter.mp hr).1
      · exact .inl (List.mem_map.mpr ⟨r,List.mem_filter.mpr ⟨hr,decide_eq_true ho⟩,rfl⟩)
    | cons n newer =>
      obtain ⟨rfl,rfl⟩ := List.cons.inj hlog
      obtain ⟨hlt,hpicked⟩ := h.picked newer o' ids older rfl
      exact ⟨hlt,fun r hr ho => (hpicked r hr ho).imp_right (List.mem_cons_of_mem _)⟩
  erased ids hids := h.erased ids ((List.mem_cons.mp hids).resolve_left fun he => by cases he)

theorem erase (h : Tracked owner t log) (hids : .picked o ids ∈ log) :
    Tracked owner (t.remove fun r => key r ∈ ids) (.erased ids :: log) where
  picked newer o' ids' older hlog := by
    cases newer with
    | nil => cases hlog
    | cons n newer =>
      obtain ⟨rfl,rfl⟩ := List.cons.inj hlog
      obtain ⟨hlt,hpicked⟩ := h.picked newer o' ids' older rfl
      exact ⟨hlt,fun r hr ho =>
        (hpicked r (Serial.mem_remove.mp hr).1 ho).imp_right (List.mem_cons_of_mem _)⟩
  erased ids' hids' i hi := by
    rcases List.mem_cons.mp hids' with he | hin
    · obtain rfl := Mark.erased.inj he
      obtain ⟨newer,older,rfl⟩ := List.append_of_mem hids
      refine ⟨(h.picked newer o ids' older rfl).1 i hi,fun r hr hkey => ?_⟩
      exact of_decide_eq_false (Serial.mem_remove.mp hr).2 (hkey ▸ hi)
    · obtain ⟨hlt,hgone⟩ := h.erased ids' hin i hi
      exact ⟨hlt,fun r hr => hgone r (Serial.mem_remove.mp hr).1⟩

theorem since (h : Tracked owner t (newer ++ .picked o ids :: older)) (he : .erased ids ∈ newer) {r : α}
    (hr : r ∈ t.rows) (ho : owner r = o) : .made (key r) o ∈ newer := by
  refine ((h.picked newer o ids older rfl).2 r hr ho).resolve_left fun hin => ?_
  exact (h.erased ids (List.mem_append_left _ he) (key r) hin).2 r hr rfl

end Tracked

end Relational
