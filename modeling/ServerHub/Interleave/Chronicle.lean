import ServerHub.Interleave.Transcript

namespace Interleave

variable {ε β : Type}

-- every entry of a log, the newest first, is justified by the older ones
def Chronicle (J : List ε → ε → Prop) : List ε → Prop
  | [] => True
  | e :: older => J older e ∧ Chronicle J older

variable {J : List ε → ε → Prop}

theorem Chronicle.at {newer older : List ε} {e : ε} (h : Chronicle J (newer ++ e :: older)) :
    J older e ∧ Chronicle J older := by
  induction newer with
  | nil => exact h
  | cons n newer ih => exact ih h.2

theorem Chronicle.imp {K : List ε → ε → Prop} (hJK : ∀ older e, J older e → K older e) {l : List ε}
    (h : Chronicle J l) : Chronicle K l := by
  induction l with
  | nil => trivial
  | cons e l ih => exact ⟨hJK l e h.1,ih h.2⟩

-- it stood at the start or an entry made it, and none since has ended it
def Standing (start : Prop) (makes ends : ε → Prop) (l : List ε) : Prop :=
  (start ∧ ∀ e ∈ l, ¬ ends e) ∨
    ∃ newer e older, l = newer ++ e :: older ∧ makes e ∧ ∀ n ∈ newer, ¬ ends n

section Standing

variable {start : Prop} {makes ends : ε → Prop} {l newer older : List ε} {e : ε}

theorem Standing.made (l : List ε) (h : makes e) : Standing start makes ends (e :: l) :=
  .inr ⟨[],e,l,rfl,h,fun _ hn => nomatch hn⟩

theorem Standing.keep (h : Standing start makes ends l) (he : ¬ ends e) :
    Standing start makes ends (e :: l) := by
  rcases h with ⟨hstart,hall⟩ | ⟨newer,m,older,rfl,hm,hall⟩
  · exact .inl ⟨hstart,List.forall_mem_cons.mpr ⟨he,hall⟩⟩
  · exact .inr ⟨e :: newer,m,older,rfl,hm,List.forall_mem_cons.mpr ⟨he,hall⟩⟩

theorem Standing.last (h : Standing start makes ends (e :: l)) :
    makes e ∨ Standing start makes ends l ∧ ¬ ends e := by
  rcases h with ⟨hstart,hall⟩ | ⟨newer,m,older,hl,hm,hall⟩
  · obtain ⟨he,hrest⟩ := List.forall_mem_cons.mp hall
    exact .inr ⟨.inl ⟨hstart,hrest⟩,he⟩
  · cases newer with
    | nil =>
      obtain ⟨rfl,-⟩ := List.cons.inj hl
      exact .inl hm
    | cons n newer =>
      obtain ⟨rfl,rfl⟩ := List.cons.inj hl
      obtain ⟨he,hrest⟩ := List.forall_mem_cons.mp hall
      exact .inr ⟨.inr ⟨newer,m,older,rfl,hm,hrest⟩,he⟩

theorem Standing.since (h : Standing start makes ends (newer ++ e :: older)) (he : ends e) (hm : ¬ makes e) :
    ∃ n ∈ newer, makes n := by
  rcases h with ⟨-,hall⟩ | ⟨later,m,earlier,hsplit,hmakes,hall⟩
  · exact absurd he (hall e (List.mem_append_right _ List.mem_cons_self))
  · rcases List.append_eq_append_iff.mp hsplit with ⟨between,rfl,hrest⟩ | ⟨between,rfl,hrest⟩
    · cases between with
      | nil =>
        obtain ⟨rfl,-⟩ := List.cons.inj hrest
        exact absurd hmakes hm
      | cons b between =>
        obtain ⟨rfl,-⟩ := List.cons.inj hrest
        exact absurd he (hall e (List.mem_append_right _ List.mem_cons_self))
    · cases between with
      | nil =>
        obtain ⟨rfl,-⟩ := List.cons.inj hrest
        exact absurd hmakes hm
      | cons b between =>
        obtain ⟨rfl,-⟩ := List.cons.inj hrest
        exact ⟨m,List.mem_append_right _ List.mem_cons_self,hmakes⟩

end Standing

theorem split_moved {f : ε → Option β} {l : List ε} {later earlier : List β} {m : β}
    (h : l.filterMap f = later ++ m :: earlier) : ∃ newer e older, l = newer ++ e :: older ∧
      newer.filterMap f = later ∧ f e = some m := by
  obtain ⟨newer,rest,rfl,hnewer,hrest⟩ := List.filterMap_eq_append_iff.mp h
  obtain ⟨quiet,e,older,rfl,hquiet,he,-⟩ := List.filterMap_eq_cons_iff.mp hrest
  refine ⟨newer ++ quiet,e,older,by simp,?_,he⟩
  rw [List.filterMap_append,hnewer,List.filterMap_eq_nil_iff.mpr hquiet,List.append_nil]

theorem notesOf_split {pid : Nat} {log : List (Nat × β)} (later : List β) {earlier : List β} {n : β}
    (h : notesOf pid log = later ++ n :: earlier) : ∃ newer older, log = newer ++ (pid,n) :: older ∧
      notesOf pid newer = later := by
  obtain ⟨hlater,hrest,hown,rfl,hmap⟩ := List.map_eq_append_iff.mp h
  obtain ⟨⟨q,m⟩,hearlier,rfl,rfl,-⟩ := List.map_eq_cons_iff.mp hmap
  obtain ⟨newer,rest,rfl,rfl,hfilter⟩ := List.filter_eq_append_iff.mp hown
  obtain ⟨quiet,older,rfl,hquiet,hpid,-⟩ := List.filter_eq_cons_iff.mp hfilter
  obtain rfl : q = pid := beq_iff_eq.mp hpid
  refine ⟨newer ++ quiet,older,by simp,?_⟩
  rw [notesOf,own,List.filter_append,List.filter_eq_nil_iff.mpr hquiet,List.append_nil]

end Interleave
