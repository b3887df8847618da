import ServerHub.Health.Transitions

namespace Health

open Go Relational Interleave Interleave.Prog

variable {web : Nat → String → Option Int × Int}

abbrev Keeps (web : Nat → String → Option Int × Int) {α : Type} (P : State → Prop) (p : Prog Instr α)
    (Q : α → State → Prop) : Prop :=
  Solo (fun i s => some (exec web i s)) Edits P p Q

section Steps

variable {resource : Resource} {items : List Item} {os : List Owed} {s : State}

theorem keeps_transition (items : List Item) (o : Owed) (name : String) :
    Keeps web (fun s => Owing resource (o :: os) s ∧ Ahead resource items s ∧ ∀ i ∈ items, o.id ≠ i.id)
      (transition resource o.id name o.before o.after)
      fun _ s => Owing resource os s ∧ Ahead resource items s := by
  unfold transition
  by_cases hsame : toUpper o.before = toUpper o.after ∨ toUpper o.before = "" ∨ toUpper o.before = "UNKNOWN"
  · rw [if_pos hsame]
    exact solo_ret fun s hs => ⟨hs.1.pass hsame,hs.2.1⟩
  · rw [if_neg hsame]
    refine solo_perform (fun s t hs he => ⟨hs.1.edit he,hs.2.1.edit he,hs.2.2⟩) fun s t b hs hexec => ?_
    obtain ⟨rfl,-⟩ := Prod.mk.inj (Option.some.inj hexec)
    exact ⟨hs.1.announce hsame,hs.2.1.announce hs.2.2⟩

theorem stateOf_named (resp : Option Int) : stateOf resp ≠ "" ∧ toUpper (stateOf resp) ≠ "" ∧
    toUpper (stateOf resp) ≠ "UNKNOWN" := by
  unfold stateOf
  split
  · decide
  · split
    · decide
    · split <;> decide

theorem keeps_probe (url : String) : Keeps web (fun s => Owing resource [] s ∧ Ahead resource items s)
    (probe url) fun r s => (Owing resource [] s ∧ Ahead resource items s) ∧ ∃ resp, r.1 = stateOf resp := by
  refine solo_bind (Q := fun _ s => Owing resource [] s ∧ Ahead resource items s)
    (solo_perform (fun s t hs he => ⟨hs.1.edit he,hs.2.edit he⟩) fun s t b hs hexec => ?_)
    fun r => solo_ret fun s hs => ⟨hs,r.1,rfl⟩
  obtain ⟨rfl,-⟩ := Prod.mk.inj (Option.some.inj hexec)
  exact ⟨⟨hs.1.chain,hs.1.bounded,hs.1.named,hs.1.told,hs.1.distinct,hs.1.before,hs.1.after,hs.1.states⟩,hs.2⟩

theorem keeps_checked {p : Item → Prog Instr Unit} (write : String → Int → Nat → Instr Unit)
    (hp : ∀ i, p i = (do
      let (state,rt) ← probe i.url
      perform (write state rt i.id)
      transition resource i.id i.name i.before state))
    (hwrite : ∀ state rt id (s : State), (exec web (write state rt id) s).1.announced = s.announced ∧
      (∀ other, (exec web (write state rt id) s).1.next other = s.next other) ∧
      ∀ other k stored, (exec web (write state rt id) s).1.Holds other k stored →
        s.Holds other k stored ∧ ¬ (other = resource ∧ k = id) ∨
          other = resource ∧ k = id ∧ stored = state) (i : Item) :
    Keeps web (fun s => Owing resource [] s ∧ Ahead resource (i :: items) s) (p i)
      fun _ s => Owing resource [] s ∧ Ahead resource items s := by
  rw [hp]
  refine solo_bind (keeps_probe i.url) fun r => ?_
  obtain ⟨state,rt⟩ := r
  refine solo_bind (solo_perform (fun s t hs he => ⟨⟨hs.1.1.edit he,hs.1.2.edit he⟩,hs.2⟩)
    fun s t b hs hexec => ?_) fun _ => keeps_transition items ⟨i.id,i.before,state⟩ i.name
  obtain ⟨rfl,-⟩ := Prod.mk.inj (Option.some.inj hexec)
  obtain ⟨⟨howing,hahead⟩,resp,hresp⟩ := hs
  obtain rfl : state = stateOf resp := hresp
  obtain ⟨hannounced,hnext,hholds⟩ := hwrite (stateOf resp) rt i.id s
  obtain ⟨hne,hupper,hknown⟩ := stateOf_named resp
  exact howing.write hahead hannounced hnext hholds ⟨hupper,fun _ => hknown⟩ hne

theorem keeps_checkService (i : Item) :
    Keeps web (fun s => Owing .service [] s ∧ Ahead .service (i :: items) s) (checkService i)
      fun _ s => Owing .service [] s ∧ Ahead .service items s := by
  refine keeps_checked (fun state rt id => .updateService state rt id) (fun _ => rfl)
    (fun state rt id s => ⟨rfl,fun other => by cases other <;> rfl,fun other k stored hs => ?_⟩) i
  cases other with
  | project => exact .inl ⟨hs,by simp⟩
  | service =>
    obtain ⟨r,hr,rfl,rfl⟩ := hs
    obtain ⟨a,ha,rfl⟩ := Serial.mem_modify.mp hr
    by_cases hid : a.id = id
    · rw [if_pos (decide_eq_true hid)]
      exact .inr ⟨rfl,hid,rfl⟩
    · rw [if_neg (by simpa using hid)]
      exact .inl ⟨⟨a,ha,rfl,rfl⟩,fun h => hid h.2⟩

theorem keeps_checkProject (i : Item) :
    Keeps web (fun s => Owing .project [] s ∧ Ahead .project (i :: items) s) (checkProject i)
      fun _ s => Owing .project [] s ∧ Ahead .project items s := by
  refine keeps_checked (fun state _ id => .updateProject state id) (fun _ => rfl)
    (fun state rt id s => ⟨rfl,fun other => by cases other <;> rfl,fun other k stored hs => ?_⟩) i
  cases other with
  | service => exact .inl ⟨hs,by simp⟩
  | project =>
    obtain ⟨r,hr,rfl,rfl⟩ := hs
    obtain ⟨a,ha,rfl⟩ := Serial.mem_modify.mp hr
    by_cases hid : a.id = id
    · rw [if_pos (decide_eq_true hid)]
      exact .inr ⟨rfl,hid,rfl⟩
    · rw [if_neg (by simpa using hid)]
      exact .inl ⟨⟨a,ha,rfl,rfl⟩,fun h => hid h.2⟩

end Steps

section Round

variable {before : List (Nat × String)} {s t : State}

theorem keys_select {α : Type} [Keyed α] (t : Table α) (p : α → Bool) : ((t.select p).map key).Nodup :=
  t.nodup.sublist (List.filter_sublist.map key)

theorem keeps_selectServices : Keeps web (fun s => Owing .service [] s) (perform .selectServices)
    fun items s => Owing .service [] s ∧ Ahead .service items s := by
  refine solo_perform (fun s t hs he => hs.edit he) fun s t items hs hexec => ?_
  obtain ⟨rfl,rfl⟩ := Prod.mk.inj (Option.some.inj hexec)
  refine ⟨hs,?_,fun i hi => ?_⟩
  · rw [List.map_map]
    exact keys_select _ _
  · obtain ⟨r,hr,rfl⟩ := List.mem_map.mp hi
    have hin : r ∈ s.services.rows := (List.mem_filter.mp hr).1
    exact ⟨hs.told .service r.id r.lastHealth ⟨r,hin,rfl,rfl⟩ (by simp),s.services.fresh r hin⟩

theorem keeps_selectProjects : Keeps web (fun s => Owing .project [] s) (perform .selectProjects)
    fun items s => Owing .project [] s ∧ Ahead .project items s := by
  refine solo_perform (fun s t hs he => hs.edit he) fun s t items hs hexec => ?_
  obtain ⟨rfl,rfl⟩ := Prod.mk.inj (Option.some.inj hexec)
  refine ⟨hs,?_,fun i hi => ?_⟩
  · rw [List.map_map]
    exact keys_select _ _
  · obtain ⟨r,hr,rfl⟩ := List.mem_map.mp hi
    have hin : r ∈ s.projects.rows := (List.mem_filter.mp hr).1
    exact ⟨hs.told .project r.id r.status ⟨r,hin,rfl,rfl⟩ (by simp),s.projects.fresh r hin⟩

structure Comparing (before : List (Nat × String)) (s : State) : Prop where
  chain : Chronicle Joins s.announced
  bounded : ∀ t ∈ s.announced, t.id < s.next t.resource
  named : ∀ id stored, s.Holds .project id stored → stored ≠ ""
  comparing : s.comparing = true
  services : ∀ id stored, s.Holds .service id stored → Told s.announced .service id stored
  direct : ∀ r ∈ s.projects.rows, r.healthURL ≠ "" → Told s.announced .project r.id r.status
  snapped : ∀ r ∈ s.projects.rows, r.healthURL = "" →
    Told s.announced .project r.id ((before.lookup r.id).getD "")

theorem Comparing.edit (h : Comparing before s) (he : Edits s t) : Comparing before t where
  chain := he.announced ▸ h.chain
  bounded u hu := lt_of_lt_of_le (h.bounded u (he.announced ▸ hu)) (he.next _)
  named id stored hs := by
    rcases he.holds .project id stored hs with hs | ⟨-,hne⟩
    · exact h.named id stored hs
    · exact hne rfl
  comparing := he.comparing.trans h.comparing
  services id stored hs := by
    rw [he.announced]
    rcases he.holds .service id stored hs with hs | ⟨hnew,-⟩
    · exact h.services id stored hs
    · exact told_fresh h.bounded hnew
  direct r hr hurl := by
    rw [he.announced]
    rcases he.urls h.comparing r hr with hnew | ⟨a,ha,hid,hstatus,hsame⟩
    · exact told_fresh h.bounded hnew
    · exact hid ▸ hstatus ▸ h.direct a ha (mt hsame.mp hurl)
  snapped r hr hurl := by
    rw [he.announced]
    rcases he.urls h.comparing r hr with hnew | ⟨a,ha,hid,-,hsame⟩
    · exact told_fresh h.bounded hnew
    · exact hid ▸ h.snapped a ha (hsame.mpr hurl)

theorem lookup_listed {α β : Type} [Keyed α] (f : α → β) {rows : List α} (h : (rows.map key).Nodup) {r : α}
    (hr : r ∈ rows) : (rows.map fun a => (key a,f a)).lookup (key r) = some (f r) := by
  induction rows with
  | nil => cases hr
  | cons a rows ih =>
    rcases List.mem_cons.mp hr with rfl | hin
    · exact List.lookup_cons_self
    · rw [List.map_cons,List.lookup_cons,beq_eq_false_iff_ne.mpr (key_ne_of_nodup h hin)]
      exact ih (List.nodup_cons.mp h).2 hin

theorem keeps_snapshot : Keeps web (fun s => Owing .project [] s) (perform .snapshot)
    fun before s => Comparing before s := by
  refine solo_perform (fun s t hs he => hs.edit he) fun s t before hs hexec => ?_
  obtain ⟨rfl,rfl⟩ := Prod.mk.inj (Option.some.inj hexec)
  refine ⟨hs.chain,hs.bounded,hs.named,rfl,fun id stored hk => hs.told .service id stored hk (by simp),
    fun r hr _ => hs.told .project r.id r.status ⟨r,hr,rfl,rfl⟩ (by simp),fun r hr hurl => ?_⟩
  have hin : r ∈ s.projects.select fun r => r.healthURL = "" :=
    List.mem_filter.mpr ⟨hr,decide_eq_true hurl⟩
  have hlookup : ((s.projects.select fun r => r.healthURL = "").map fun r => (r.id,r.status)).lookup r.id =
      some r.status := lookup_listed Project.status (keys_select _ _) hin
  rw [hlookup]
  exact hs.told .project r.id r.status ⟨r,hr,rfl,rfl⟩ (by simp)

theorem aggregateOf_named (services : List Service) : aggregateOf services ≠ "" := by
  unfold aggregateOf
  split
  · decide
  · split
    · decide
    · split
      · decide
      · split <;> decide

theorem keeps_aggregate : Keeps web (Comparing before) (perform .aggregate) fun _ => Comparing before := by
  refine solo_perform (fun s t hs he => hs.edit he) fun s t _ hs hexec => ?_
  obtain ⟨rfl,-⟩ := Prod.mk.inj (Option.some.inj hexec)
  have hrow : ∀ r ∈ s.setAggregate.rows, ∃ a ∈ s.projects.rows, a.id = r.id ∧
      a.healthURL = r.healthURL ∧ (r = a ∨ r.healthURL = "" ∧ r.status ≠ "") := by
    intro r hr
    obtain ⟨a,ha,rfl⟩ := Serial.mem_modify.mp hr
    by_cases hurl : a.healthURL = ""
    · rw [if_pos (decide_eq_true hurl)]
      exact ⟨a,ha,rfl,rfl,.inr ⟨hurl,aggregateOf_named _⟩⟩
    · rw [if_neg (by simpa using hurl)]
      exact ⟨a,ha,rfl,rfl,.inl rfl⟩
  refine ⟨hs.chain,fun u hu => ?_,fun id stored hk => ?_,hs.comparing,hs.services,fun r hr hurl => ?_,
    fun r hr hurl => ?_⟩
  · have hnext := hs.bounded u hu
    cases hres : u.resource with
    | service => exact (hres ▸ hnext : u.id < s.next .service)
    | project => exact (hres ▸ hnext : u.id < s.next .project)
  · obtain ⟨r,hr,rfl,rfl⟩ := hk
    obtain ⟨a,ha,-,-,rfl | ⟨-,hne⟩⟩ := hrow r hr
    · exact hs.named r.id r.status ⟨r,ha,rfl,rfl⟩
    · exact hne
  · obtain ⟨a,ha,-,-,rfl | ⟨hempty,-⟩⟩ := hrow r hr
    · exact hs.direct r ha hurl
    · exact absurd hempty hurl
  · obtain ⟨a,ha,hid,hsame,-⟩ := hrow r hr
    exact hid ▸ hs.snapped a ha (hsame.trans hurl)

def owed (before : List (Nat × String)) (a : Aggregated) : Owed := ⟨a.id,(before.lookup a.id).getD "",a.after⟩

theorem toUpper_named {x : String} (h : x ≠ "") : toUpper x ≠ "" := by
  intro he
  have hlist := congrArg String.toList he
  rw [toUpper,String.toList_ofList] at hlist
  exact h (String.toList_eq_nil_iff.mp (List.map_eq_nil_iff.mp hlist))

theorem keeps_reread : Keeps web (Comparing before) (perform .reread)
    fun after s => Owing .project (after.map (owed before)) s := by
  refine solo_perform (fun s t hs he => hs.edit he) fun s t after hs hexec => ?_
  obtain ⟨rfl,rfl⟩ := Prod.mk.inj (Option.some.inj hexec)
  have hrow : ∀ o ∈ ((s.projects.select fun r => r.healthURL = "").map
      fun r => (⟨r.id,r.name,r.status⟩ : Aggregated)).map (owed before), ∃ r ∈ s.projects.rows,
      r.healthURL = "" ∧ o = ⟨r.id,(before.lookup r.id).getD "",r.status⟩ := by
    intro o ho
    obtain ⟨a,ha,rfl⟩ := List.mem_map.mp ho
    obtain ⟨r,hr,rfl⟩ := List.mem_map.mp ha
    obtain ⟨hin,hurl⟩ := List.mem_filter.mp hr
    exact ⟨r,hin,of_decide_eq_true hurl,rfl⟩
  refine ⟨hs.chain,hs.bounded,hs.named,fun other id stored hk hnot => ?_,?_,fun o ho => ?_,
    fun o ho stored hk => ?_,fun o ho => ?_⟩
  · cases other with
    | service => exact hs.services id stored hk
    | project =>
      obtain ⟨r,hr,rfl,rfl⟩ := hk
      refine hs.direct r hr fun hurl => hnot ⟨rfl,?_⟩
      rw [List.map_map,List.map_map]
      exact List.mem_map.mpr ⟨r,List.mem_filter.mpr ⟨hr,decide_eq_true hurl⟩,rfl⟩
  · rw [List.map_map,List.map_map]
    exact keys_select _ _
  · obtain ⟨r,hr,hurl,rfl⟩ := hrow o ho
    exact ⟨hs.snapped r hr hurl,s.projects.fresh r hr⟩
  · obtain ⟨r,hr,-,rfl⟩ := hrow o ho
    obtain ⟨a,ha,hid,rfl⟩ := hk
    obtain rfl := Table.eq_of_key ha hr hid
    rfl
  · obtain ⟨r,hr,-,rfl⟩ := hrow o ho
    exact ⟨toUpper_named (hs.named r.id r.status ⟨r,hr,rfl,rfl⟩),fun h => by cases h⟩

theorem keeps_compare (a : Aggregated) (rest : List Aggregated) :
    Keeps web (fun s => Owing .project ((a :: rest).map (owed before)) s) (compare before a)
      fun _ s => Owing .project (rest.map (owed before)) s := by
  refine solo_mono (fun s hs => ⟨hs,⟨List.nodup_nil,fun i hi => by cases hi⟩,fun i hi => by cases hi⟩)
    (fun _ s hs => hs.1) (keeps_transition [] (owed before a) a.name)

theorem keeps_check : Keeps web (fun s => Owing .service [] s) check fun _ s => Owing .service [] s := by
  refine solo_bind keeps_selectServices fun svcs => ?_
  refine solo_bind (solo_list (K := fun items s => Owing .service [] s ∧ Ahead .service items s)
    (fun i _ => keeps_checkService i) svcs) fun _ => ?_
  refine solo_bind (solo_mono (fun s hs => hs.1.settled) (fun _ _ hs => hs) keeps_selectProjects)
    fun projs => ?_
  refine solo_bind (solo_list (K := fun items s => Owing .project [] s ∧ Ahead .project items s)
    (fun i _ => keeps_checkProject i) projs) fun _ => ?_
  refine solo_bind (solo_mono (fun s hs => hs.1) (fun _ _ hs => hs) keeps_snapshot) fun before => ?_
  refine solo_bind keeps_aggregate fun _ => ?_
  refine solo_bind keeps_reread fun after => ?_
  exact solo_mono (fun _ hs => hs) (fun _ s hs => hs.settled)
    (solo_list (K := fun rest s => Owing .project (rest.map (owed before)) s) keeps_compare after)

end Round

section Runs

-- no edit gives a project a health URL of its own, or takes it away, while statuses are compared
def Steady (s : State) : Edit → Prop
  | .updateProject id _ healthURL =>
      s.comparing = true → ∀ r ∈ s.projects.rows, r.id = id → (r.healthURL = "" ↔ healthURL = "")
  | _ => True

def Undisturbed (w : World (monitor web)) : Event (monitor web) → Prop
  | .env e => Steady w.state e
  | _ => True

instance steadyDecidable : (s : State) → (e : Edit) → Decidable (Steady s e)
  | s, .updateProject id _ healthURL => inferInstanceAs <| Decidable <|
      s.comparing = true → ∀ r ∈ s.projects.rows, r.id = id → (r.healthURL = "" ↔ healthURL = "")
  | _, .createService _ _ _ => isTrue trivial
  | _, .updateService _ _ _ => isTrue trivial
  | _, .deleteService _ => isTrue trivial
  | _, .createProject _ _ => isTrue trivial
  | _, .deleteProject _ => isTrue trivial

instance undisturbedDecidable (w : World (monitor web)) :
    (e : Event (monitor web)) → Decidable (Undisturbed w e)
  | .env e => steadyDecidable w.state e
  | .start _ _ => isTrue trivial
  | .act _ => isTrue trivial

variable {s : State} {e : Edit}

theorem edits_apply (h : Steady s e) : Edits s (e.apply s) := by
  cases e with
  | createService projectID name healthURL =>
    refine ⟨rfl,rfl,fun resource => ?_,fun resource id stored hs => ?_,fun _ r hr => .inr ⟨r,hr,rfl,rfl,Iff.rfl⟩⟩
    · cases resource
      · exact Nat.le_succ _
      · exact le_rfl
    · cases resource with
      | project => exact .inl hs
      | service =>
        obtain ⟨r,hr,rfl,rfl⟩ := hs
        rcases Serial.mem_insert.mp hr with hr | rfl
        · exact .inl ⟨r,hr,rfl,rfl⟩
        · exact .inr ⟨le_rfl,fun hkind => by cases hkind⟩
  | updateService id name healthURL =>
    refine ⟨rfl,rfl,fun resource => ?_,fun resource k stored hs => ?_,fun _ r hr => .inr ⟨r,hr,rfl,rfl,Iff.rfl⟩⟩
    · cases resource <;> exact le_rfl
    · cases resource with
      | project => exact .inl hs
      | service =>
        obtain ⟨r,hr,rfl,rfl⟩ := hs
        obtain ⟨a,ha,rfl⟩ := Serial.mem_modify.mp hr
        exact .inl ⟨a,ha,by split <;> rfl,by split <;> rfl⟩
  | deleteService id =>
    refine ⟨rfl,rfl,fun resource => ?_,fun resource k stored hs => ?_,fun _ r hr => .inr ⟨r,hr,rfl,rfl,Iff.rfl⟩⟩
    · cases resource <;> exact le_rfl
    · cases resource with
      | project => exact .inl hs
      | service =>
        obtain ⟨r,hr,rfl,rfl⟩ := hs
        exact .inl ⟨r,(Serial.mem_remove.mp hr).1,rfl,rfl⟩
  | createProject name healthURL =>
    refine ⟨rfl,rfl,fun resource => ?_,fun resource id stored hs => ?_,fun _ r hr => ?_⟩
    · cases resource
      · exact le_rfl
      · exact Nat.le_succ _
    · cases resource with
      | service => exact .inl hs
      | project =>
        obtain ⟨r,hr,rfl,rfl⟩ := hs
        rcases Serial.mem_insert.mp hr with hr | rfl
        · exact .inl ⟨r,hr,rfl,rfl⟩
        · exact .inr ⟨le_rfl,fun _ => show "unknown" ≠ "" by decide⟩
    · rcases Serial.mem_insert.mp hr with hr | rfl
      · exact .inr ⟨r,hr,rfl,rfl,Iff.rfl⟩
      · exact .inl le_rfl
  | updateProject id name healthURL =>
    refine ⟨rfl,rfl,fun resource => ?_,fun resource k stored hs => ?_,fun hcomparing r hr => ?_⟩
    · cases resource <;> exact le_rfl
    · cases resource with
      | service => exact .inl hs
      | project =>
        obtain ⟨r,hr,rfl,rfl⟩ := hs
        obtain ⟨a,ha,rfl⟩ := Serial.mem_modify.mp hr
        exact .inl ⟨a,ha,by split <;> rfl,by split <;> rfl⟩
    · obtain ⟨a,ha,rfl⟩ := Serial.mem_modify.mp hr
      by_cases hid : a.id = id
      · rw [if_pos (decide_eq_true hid)]
        exact .inr ⟨a,ha,rfl,rfl,h hcomparing a ha hid⟩
      · rw [if_neg (by simpa using hid)]
        exact .inr ⟨a,ha,rfl,rfl,Iff.rfl⟩
  | deleteProject id =>
    refine ⟨rfl,rfl,fun resource => ?_,fun resource k stored hs => ?_,fun _ r hr => ?_⟩
    · cases resource <;> exact le_rfl
    · cases resource with
      | service => exact .inl hs
      | project =>
        obtain ⟨r,hr,rfl,rfl⟩ := hs
        exact .inl ⟨r,(Serial.mem_remove.mp hr).1,rfl,rfl⟩
    · exact .inr ⟨r,(Serial.mem_remove.mp hr).1,rfl,rfl,Iff.rfl⟩

theorem owing_begun (hquiet : s.announced = []) (hnamed : ∀ r ∈ s.projects.rows, r.status ≠ "") :
    Owing .service [] s where
  chain := by
    rw [hquiet]
    trivial
  bounded t ht := by
    rw [hquiet] at ht
    cases ht
  named id stored hs := by
    obtain ⟨r,hr,rfl,rfl⟩ := hs
    exact hnamed r hr
  told other id stored _ _ t ht := by
    rw [hquiet] at ht
    cases ht
  distinct := List.nodup_nil
  before _ ho := by cases ho
  after _ ho := by cases ho
  states _ ho := by cases ho

theorem exec_back {β : Type} (i : Instr β) (s : State) : ∃ t b, some (exec web i s) = some (t,b) ∧
    (Chronicle Joins t.announced → Chronicle Joins s.announced) := by
  refine ⟨_,_,rfl,fun h => ?_⟩
  cases i with
  | announce t => exact h.2
  | _ => exact h

theorem transitions_chained {s₀ : State} {pid rounds : Nat} {es : List (Event (monitor web))}
    {v : World (monitor web)} (hquiet : s₀.announced = []) (hnamed : ∀ r ∈ s₀.projects.rows, r.status ≠ "")
    (hes : ∀ e ∈ es, e.By pid) (hedits : Along Undisturbed (World.idle s₀) (.start pid rounds :: es))
    (hv : (World.idle s₀ : World (monitor web)).run (.start pid rounds :: es) = some v) :
    Chronicle Joins v.state.announced ∧ (v.answer pid = some () → ∀ resource id stored,
      v.state.Holds resource id stored → Told v.state.announced resource id stored) := by
  obtain ⟨w,hw,hrest⟩ := Option.bind_eq_some_iff.mp hv
  obtain ⟨-,hstate,hpool⟩ := step_start hw
  have hp : w.pool pid = some (each (fun _ => check) (List.replicate rounds ())) := by
    rw [hpool,Function.update_self]
    rfl
  have hround : Keeps web (fun s => Owing .service [] s) check fun _ s => Owing .service [] s := keeps_check
  have hleaves := solo_each (fun _ => hround) (List.replicate rounds ()) s₀ (owing_begun hquiet hnamed)
  have hmeets : Along (Meets Edits) w es := by
    refine along_imp (fun w e he => ?_) (hedits.2 w hw)
    cases e with
    | env e =>
      intro t ht
      have happly : (if e.refused w.state then none else some (e.apply w.state)) = some t := ht
      split at happly
      · cases happly
      · obtain rfl := Option.some.inj happly
        exact edits_apply he
    | _ => trivial
  obtain ⟨q,t,hq,hleft,hlast⟩ := leaves_along edits_refl edits_trans hes hmeets hp hleaves
    (hstate ▸ edits_refl s₀) hrest
  have hchain := leaves_now (J := fun s => Chronicle Joins s.announced) edits_refl
    (fun _ s hs => hs.chain) (fun i s => exec_back i s) hleft
  refine ⟨hlast.announced ▸ hchain,fun ha resource id stored hholds => ?_⟩
  rw [World.answer_eq.mp ha,Option.some.injEq] at hq
  obtain rfl := hq
  exact (hleft.edit hlast).told resource id stored hholds (by simp)

end Runs

section Instances

def answers (n : Nat) (_ : String) : Option Int × Int := (([200,503,200,404] : List Int)[n]?,12)

def oneShop : State where
  services := Serial.empty.insert (fun id => ⟨id,0,"web","http://shop/health","unknown","UNKNOWN",none⟩) fun _ => rfl
  projects := Serial.empty.insert (fun id => ⟨id,"shop","","unknown"⟩) fun _ => rfl
  probed := 0
  announced := []
  comparing := false

-- the project gets a health URL of its own between the second round and the third
def threeRounds : List (Event (monitor answers)) :=
  List.replicate 9 (.act 0) ++ .env (.createService 0 "cache" "") ::
    List.replicate 7 (.act 0) ++ .env (.updateProject 0 "shop" "http://shop") ::
      List.replicate 11 (.act 0)

theorem three_rounds_chained : ∃ v : World (monitor answers),
    (World.idle oneShop).run (.start 0 (3 : Nat) :: threeRounds) = some v ∧
      v.state.announced.map (fun t => (t.resource,t.before,t.after)) =
        [(.project,"DOWN","DEGRADED"),(.service,"DOWN","HEALTHY"),
          (.project,"HEALTHY","DOWN"),(.service,"HEALTHY","DOWN")] ∧
      Chronicle Joins v.state.announced ∧ ∀ resource id stored,
        v.state.Holds resource id stored → Told v.state.announced resource id stored := by
  have hrun : ((World.idle oneShop).run (.start 0 (3 : Nat) :: threeRounds)).map
      (fun v : World (monitor answers) => ((v.returned 0,
        v.state.announced.map fun t => (t.resource,t.before,t.after)) :
          Bool × List (Resource × String × String))) =
      some (true,[(.project,"DOWN","DEGRADED"),(.service,"DOWN","HEALTHY"),
        (.project,"HEALTHY","DOWN"),(.service,"HEALTHY","DOWN")]) := by
    decide +kernel
  obtain ⟨v,hv,hseen⟩ := Option.map_eq_some_iff.mp hrun
  obtain ⟨hreturned,hannounced⟩ := Prod.mk.inj hseen
  obtain ⟨_,hanswer⟩ := Option.isSome_iff_exists.mp hreturned
  have hquiet : oneShop.announced = [] := rfl
  have hnamed : ∀ r ∈ oneShop.projects.rows, r.status ≠ "" := by decide
  have hes : ∀ e ∈ threeRounds, e.By 0 := by simp [threeRounds,Event.By]
  have hedits : Along Undisturbed (World.idle oneShop) (.start 0 (3 : Nat) :: threeRounds) := by
    decide +kernel
  obtain ⟨hchain,htold⟩ := transitions_chained hquiet hnamed hes hedits hv
  exact ⟨v,hv,hannounced,hchain,htold hanswer⟩

end Instances

end Health
