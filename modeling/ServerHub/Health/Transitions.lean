import ServerHub.Health.Checker
import ServerHub.Interleave.Chronicle
import ServerHub.Interleave.Solo

namespace Health

open Go Relational Interleave Interleave.Prog

def lastOf (resource : Resource) (id : Nat) (log : List Transition) : Option Transition :=
  log.find? fun t => decide (t.resource = resource ∧ t.id = id)

-- what was announced last is stored, unless the status has been unknown since
def Told (log : List Transition) (resource : Resource) (id : Nat) (stored : String) : Prop :=
  ∀ t, lastOf resource id log = some t → t.after = toUpper stored ∨ t.after = "UNKNOWN"

structure Joins (older : List Transition) (t : Transition) : Prop where
  changes : t.before ≠ t.after
  known : t.before ≠ "" ∧ t.before ≠ "UNKNOWN"
  named : t.after ≠ ""
  service : t.resource = .service → t.after ≠ "UNKNOWN"
  linked : ∀ u, lastOf t.resource t.id older = some u → u.after = t.before ∨ u.after = "UNKNOWN"

def State.Holds (s : State) : Resource → Nat → String → Prop
  | .service, id, stored => ∃ r ∈ s.services.rows, r.id = id ∧ r.lastHealth = stored
  | .project, id, stored => ∃ r ∈ s.projects.rows, r.id = id ∧ r.status = stored

def State.next (s : State) : Resource → Nat
  | .service => s.services.next
  | .project => s.projects.next

structure Edits (s t : State) : Prop where
  announced : t.announced = s.announced
  comparing : t.comparing = s.comparing
  next : ∀ resource, s.next resource ≤ t.next resource
  holds : ∀ resource id stored, t.Holds resource id stored →
    s.Holds resource id stored ∨ s.next resource ≤ id ∧ (resource = .project → stored ≠ "")
  urls : s.comparing = true → ∀ r ∈ t.projects.rows, s.projects.next ≤ r.id ∨
    ∃ a ∈ s.projects.rows, a.id = r.id ∧ a.status = r.status ∧ (a.healthURL = "" ↔ r.healthURL = "")

structure Owed where
  id : Nat
  before : String
  after : String

-- some rows of a resource have been written and not been compared yet
structure Owing (resource : Resource) (os : List Owed) (s : State) : Prop where
  chain : Chronicle Joins s.announced
  bounded : ∀ t ∈ s.announced, t.id < s.next t.resource
  named : ∀ id stored, s.Holds .project id stored → stored ≠ ""
  told : ∀ other id stored, s.Holds other id stored → ¬ (other = resource ∧ id ∈ os.map Owed.id) →
    Told s.announced other id stored
  distinct : (os.map Owed.id).Nodup
  before : ∀ o ∈ os, Told s.announced resource o.id o.before ∧ o.id < s.next resource
  after : ∀ o ∈ os, ∀ stored, s.Holds resource o.id stored → stored = o.after
  states : ∀ o ∈ os, toUpper o.after ≠ "" ∧ (resource = .service → toUpper o.after ≠ "UNKNOWN")

def Ahead (resource : Resource) (items : List Item) (s : State) : Prop :=
  (items.map Item.id).Nodup ∧
    ∀ i ∈ items, Told s.announced resource i.id i.before ∧ i.id < s.next resource

section Facts

variable {s t : State} {resource : Resource} {os : List Owed} {items : List Item} {id : Nat}
  {log : List Transition}

theorem edits_refl (s : State) : Edits s s :=
  ⟨rfl,rfl,fun _ => le_rfl,fun _ _ _ h => .inl h,fun _ r hr => .inr ⟨r,hr,rfl,rfl,Iff.rfl⟩⟩

theorem edits_trans (s t u : State) (h : Edits s t) (k : Edits t u) : Edits s u where
  announced := k.announced.trans h.announced
  comparing := k.comparing.trans h.comparing
  next resource := (h.next resource).trans (k.next resource)
  holds resource id stored hu := by
    rcases k.holds resource id stored hu with ht | ⟨hid,hne⟩
    · exact h.holds resource id stored ht
    · exact .inr ⟨(h.next resource).trans hid,hne⟩
  urls hcomparing r hr := by
    rcases k.urls (h.comparing.trans hcomparing) r hr with hid | ⟨a,ha,hid,hstatus,hurl⟩
    · exact .inl ((h.next .project).trans hid)
    · rcases h.urls hcomparing a ha with hlt | ⟨b,hb,hbid,hbstatus,hburl⟩
      · exact .inl (hid ▸ hlt)
      · exact .inr ⟨b,hb,hbid.trans hid,hbstatus.trans hstatus,hburl.trans hurl⟩

theorem lastOf_some {u : Transition} (h : lastOf resource id log = some u) :
    u ∈ log ∧ u.resource = resource ∧ u.id = id :=
  ⟨List.mem_of_find?_eq_some h,by simpa using List.find?_some h⟩

theorem told_fresh {stored : String} (hbounded : ∀ t ∈ s.announced, t.id < s.next t.resource)
    (hid : s.next resource ≤ id) : Told s.announced resource id stored := by
  intro u hu
  obtain ⟨hin,rfl,rfl⟩ := lastOf_some hu
  exact absurd (hbounded u hin) (Nat.not_lt.mpr hid)

theorem Owing.edit (h : Owing resource os s) (he : Edits s t) : Owing resource os t where
  chain := he.announced ▸ h.chain
  bounded u hu := lt_of_lt_of_le (h.bounded u (he.announced ▸ hu)) (he.next _)
  named id stored hs := by
    rcases he.holds .project id stored hs with hs | ⟨-,hne⟩
    · exact h.named id stored hs
    · exact hne rfl
  told other id stored hs hnot := by
    rw [he.announced]
    rcases he.holds other id stored hs with hs | ⟨hnew,-⟩
    · exact h.told other id stored hs hnot
    · exact told_fresh h.bounded hnew
  distinct := h.distinct
  before o ho := ⟨he.announced ▸ (h.before o ho).1,lt_of_lt_of_le (h.before o ho).2 (he.next _)⟩
  after o ho stored hs := by
    rcases he.holds resource o.id stored hs with hs | ⟨hnew,-⟩
    · exact h.after o ho stored hs
    · exact absurd (h.before o ho).2 (Nat.not_lt.mpr hnew)
  states := h.states

theorem Ahead.edit (h : Ahead resource items s) (he : Edits s t) : Ahead resource items t :=
  ⟨h.1,fun i hi => ⟨he.announced ▸ (h.2 i hi).1,lt_of_lt_of_le (h.2 i hi).2 (he.next _)⟩⟩

theorem Ahead.tail {i : Item} (h : Ahead resource (i :: items) s) : Ahead resource items s :=
  ⟨(List.nodup_cons.mp h.1).2,fun j hj => h.2 j (List.mem_cons_of_mem _ hj)⟩

theorem told_cons {u : Transition} {other : Resource} {stored : String}
    (hne : u.resource ≠ other ∨ u.id ≠ id) (h : Told log other id stored) :
    Told (u :: log) other id stored := by
  intro v hv
  have hnot : decide (u.resource = other ∧ u.id = id) = false := by
    refine decide_eq_false fun hboth => ?_
    rcases hne with hne | hne
    · exact hne hboth.1
    · exact hne hboth.2
  rw [lastOf,List.find?_cons,hnot] at hv
  exact h v hv

theorem told_self (u : Transition) {stored : String} (h : u.after = toUpper stored) :
    Told (u :: log) u.resource u.id stored := by
  intro v hv
  rw [lastOf,List.find?_cons,decide_eq_true ⟨rfl,rfl⟩] at hv
  obtain rfl := Option.some.inj hv
  exact .inl h

theorem joined_named {u : Transition} (h : Chronicle Joins log) (hu : u ∈ log) : u.after ≠ "" := by
  obtain ⟨newer,older,rfl⟩ := List.append_of_mem hu
  exact h.at.1.named

theorem Owing.settled {other : Resource} (h : Owing resource [] s) : Owing other [] s where
  chain := h.chain
  bounded := h.bounded
  named := h.named
  told kind id stored hs _ := h.told kind id stored hs (by simp)
  distinct := List.nodup_nil
  before _ ho := by cases ho
  after _ ho := by cases ho
  states _ ho := by cases ho

theorem Owing.pass {o : Owed} (h : Owing resource (o :: os) s)
    (hsame : toUpper o.before = toUpper o.after ∨ toUpper o.before = "" ∨ toUpper o.before = "UNKNOWN") :
    Owing resource os s where
  chain := h.chain
  bounded := h.bounded
  named := h.named
  told other id stored hs hnot := by
    by_cases hid : other = resource ∧ id = o.id
    · obtain ⟨rfl,rfl⟩ := hid
      obtain rfl := h.after o List.mem_cons_self stored hs
      intro u hu
      rcases (h.before o List.mem_cons_self).1 u hu with hafter | hunknown
      · rcases hsame with hsame | hempty | hunknown
        · exact .inl (hafter.trans hsame)
        · exact absurd (hafter.trans hempty) (joined_named h.chain (lastOf_some hu).1)
        · exact .inr (hafter.trans hunknown)
      · exact .inr hunknown
    · refine h.told other id stored hs fun hin => ?_
      rcases List.mem_cons.mp hin.2 with he | hin'
      · exact hid ⟨hin.1,he⟩
      · exact hnot ⟨hin.1,hin'⟩
  distinct := (List.nodup_cons.mp h.distinct).2
  before p hp := h.before p (List.mem_cons_of_mem _ hp)
  after p hp := h.after p (List.mem_cons_of_mem _ hp)
  states p hp := h.states p (List.mem_cons_of_mem _ hp)

theorem Owing.announce {o : Owed} {name : String} (h : Owing resource (o :: os) s)
    (hchanged : ¬ (toUpper o.before = toUpper o.after ∨ toUpper o.before = "" ∨
      toUpper o.before = "UNKNOWN")) : Owing resource os
      { s with announced := ⟨resource,o.id,name,toUpper o.before,toUpper o.after⟩ :: s.announced } := by
  obtain ⟨hne,hknown⟩ := not_or.mp hchanged
  obtain ⟨hbefore,hlt⟩ := h.before o List.mem_cons_self
  obtain ⟨hnamed,hservice⟩ := h.states o List.mem_cons_self
  obtain ⟨hnotin,hdistinct⟩ := List.nodup_cons.mp h.distinct
  refine ⟨⟨⟨hne,not_or.mp hknown,hnamed,hservice,hbefore⟩,h.chain⟩,?_,h.named,?_,hdistinct,?_,
    fun p hp => h.after p (List.mem_cons_of_mem _ hp),fun p hp => h.states p (List.mem_cons_of_mem _ hp)⟩
  · intro u hu
    rcases List.mem_cons.mp hu with rfl | hu
    · exact hlt
    · exact h.bounded u hu
  · intro other id stored hs hnot
    by_cases hid : other = resource ∧ id = o.id
    · obtain ⟨rfl,rfl⟩ := hid
      obtain rfl := h.after o List.mem_cons_self stored hs
      exact told_self _ rfl
    · refine told_cons ?_ (h.told other id stored hs fun hin => ?_)
      · by_contra hboth
        rw [not_or,not_not,not_not] at hboth
        exact hid ⟨hboth.1.symm,hboth.2.symm⟩
      · rcases List.mem_cons.mp hin.2 with he | hin'
        · exact hid ⟨hin.1,he⟩
        · exact hnot ⟨hin.1,hin'⟩
  · intro p hp
    obtain ⟨htold,hplt⟩ := h.before p (List.mem_cons_of_mem _ hp)
    refine ⟨told_cons (.inr fun he => hnotin ?_) htold,hplt⟩
    exact List.mem_map.mpr ⟨p,hp,he.symm⟩

theorem Ahead.announce {u : Transition} (h : Ahead resource items s) (hne : ∀ i ∈ items, u.id ≠ i.id) :
    Ahead resource items { s with announced := u :: s.announced } :=
  ⟨h.1,fun i hi => ⟨told_cons (.inr (hne i hi)) (h.2 i hi).1,(h.2 i hi).2⟩⟩

theorem Owing.write {i : Item} {state : String} (h : Owing resource [] s)
    (hahead : Ahead resource (i :: items) s) (hannounced : t.announced = s.announced)
    (hnext : ∀ other, t.next other = s.next other)
    (hwrite : ∀ other id stored, t.Holds other id stored → s.Holds other id stored ∧
      ¬ (other = resource ∧ id = i.id) ∨ other = resource ∧ id = i.id ∧ stored = state)
    (hstate : toUpper state ≠ "" ∧ (resource = .service → toUpper state ≠ "UNKNOWN")) (hne : state ≠ "") :
    Owing resource [⟨i.id,i.before,state⟩] t ∧ Ahead resource items t ∧ ∀ j ∈ items, i.id ≠ j.id := by
  obtain ⟨htold,hlt⟩ := hahead.2 i List.mem_cons_self
  obtain ⟨hnotin,-⟩ := List.nodup_cons.mp hahead.1
  refine ⟨⟨hannounced ▸ h.chain,fun u hu => ?_,fun id stored hs => ?_,fun other id stored hs hnot => ?_,
    List.nodup_singleton _,fun o ho => ?_,fun o ho stored hs => ?_,fun o ho => ?_⟩,?_,fun j hj he => ?_⟩
  · rw [hnext]
    exact h.bounded u (hannounced ▸ hu)
  · rcases hwrite .project id stored hs with ⟨hs,-⟩ | ⟨-,-,rfl⟩
    · exact h.named id stored hs
    · exact hne
  · rw [hannounced]
    rcases hwrite other id stored hs with ⟨hs,-⟩ | ⟨hother,hid,-⟩
    · exact h.told other id stored hs (by simp)
    · exact absurd ⟨hother,List.mem_singleton.mpr hid⟩ hnot
  · obtain rfl := List.mem_singleton.mp ho
    rw [hannounced,hnext]
    exact ⟨htold,hlt⟩
  · obtain rfl := List.mem_singleton.mp ho
    rcases hwrite resource i.id stored hs with ⟨-,hnot⟩ | ⟨-,-,hstored⟩
    · exact absurd ⟨rfl,rfl⟩ hnot
    · exact hstored
  · obtain rfl := List.mem_singleton.mp ho
    exact hstate
  · refine ⟨hahead.tail.1,fun j hj => ?_⟩
    rw [hannounced,hnext]
    exact hahead.tail.2 j hj
  · exact hnotin (List.mem_map.mpr ⟨j,hj,he.symm⟩)

end Facts

end Health
