import ServerHub.Auth.Requests
import ServerHub.Interleave.Transcript

namespace Auth

open Relational Interleave Interleave.Prog

inductive Tally where
  | counted (n : Nat)
  | removed
deriving DecidableEq

namespace Tally

def isCount : Tally → Bool
  | .counted _ => true
  | .removed => false

def isRemoval : Tally → Bool
  | .counted _ => false
  | .removed => true

end Tally

def Store.isAdmin (s : Store) (username : String) : Bool :=
  s.users.rows.any fun u => u.username == username && u.role == .admin

namespace Query

def removesAdmin (d : Database) : {β : Type} → Query β → Bool
  | _, .setRole role username => role != .admin && d.now.fault.isNone && d.store.isAdmin username
  | _, .deleteUser username => d.now.fault.isNone && d.store.isAdmin username
  | _, _ => false

def counted : {β : Type} → Query β → β → Option Tally
  | _, .adminCount, .ok n => some (.counted n)
  | _, _, _ => none

def tally (β : Type) (q : Query β) (d : Database) (b : β) : Option Tally :=
  if q.removesAdmin d then some .removed else q.counted b

def Spared {β : Type} (q : Query β) : Prop := ∀ d, q.removesAdmin d = false

end Query

abbrev supervised (env : Env) : System := (accounts env).observe Query.tally

def Counted (pid : Nat) (x : Traced Database Tally) {β : Type} (q : Query β) : Prop :=
  q.removesAdmin x.state = true → (standing Tally.isCount Tally.isRemoval pid x.log).isSome = true

section Counts

theorem countP_le_add {α : Type} {p q r : α → Bool} {f : α → α} {rows : List α}
    (h : ∀ a ∈ rows, p a = true → q (f a) = true ∨ r a = true) :
    rows.countP p ≤ (rows.map f).countP q + rows.countP r := by
  induction rows with
  | nil => simp
  | cons a rows ih =>
    have hrest := ih fun b hb => h b (List.mem_cons_of_mem a hb)
    simp only [List.map_cons,List.countP_cons]
    rcases Bool.eq_false_or_eq_true (p a) with hp | hp
    · rcases h a List.mem_cons_self hp with hq | hr
      · simp only [hp,hq,if_true]
        omega
      · simp only [hp,hr,if_true]
        omega
    · simp only [hp,Bool.false_eq_true,if_false]
      omega

theorem countP_le_filter {α : Type} (p r : α → Bool) (rows : List α) :
    rows.countP p ≤ (rows.filter fun a => !r a).countP p + rows.countP r := by
  induction rows with
  | nil => simp
  | cons a rows ih =>
    rw [List.filter_cons]
    cases hr : r a with
    | true =>
      simp only [List.countP_cons,hr,Bool.not_true,Bool.false_eq_true,if_false,if_true]
      split <;> omega
    | false =>
      simp only [List.countP_cons,hr,Bool.not_false,Bool.false_eq_true,if_false,if_true]
      omega

variable {s : Store} {username : String}

theorem named_le_one (s : Store) (username : String) :
    s.users.rows.countP (fun u => u.username == username) ≤ 1 := by
  have h : s.users.rows.countP (fun u => u.username == username) =
      (s.users.rows.map User.username).count username := by
    rw [List.count,List.countP_map]
    rfl
  rw [h]
  exact List.nodup_iff_count_le_one.mp s.names username

theorem not_admin_of (h : s.isAdmin username = false) {u : User} (hu : u ∈ s.users.rows)
    (hname : u.username = username) : (u.role == .admin) = false := by
  have hnone := List.any_eq_false.mp h u hu
  simpa [hname] using hnone

theorem adminCount_modify {p : User → Bool} {f : User → User} (hid : ∀ u, (f u).id = u.id)
    (hname : ∀ u, (f u).username = u.username)
    (h : ∀ u ∈ s.users.rows, p u = true → (u.role == .admin) = true → ((f u).role == .admin) = true) :
    s.adminCount ≤ (s.modifyUsers p f hid hname).adminCount := by
  show s.users.rows.countP _ ≤ (s.users.rows.map fun u => if p u then f u else u).countP _
  rw [List.countP_map]
  refine List.countP_mono_left fun u hu hadmin => ?_
  simp only [Function.comp_apply]
  split
  · rename_i hp
    exact h u hu hp hadmin
  · exact hadmin

theorem adminCount_insertUser (s : Store) (username hash : String) (role : Role) :
    s.adminCount ≤ (s.insertUser username hash role).1.adminCount := by
  unfold Store.insertUser
  split
  · exact Nat.le_refl _
  · simp only [Store.adminCount,Serial.count_insert]
    exact Nat.le_add_right _ _

theorem adminCount_storeRefresh (s : Store) (tokenHash username : String) (expiresAt now : Int) :
    (s.storeRefresh tokenHash username expiresAt now).1.adminCount = s.adminCount := by
  unfold Store.storeRefresh
  split <;> rfl

theorem adminCount_setRole (s : Store) (role : Role) (username : String) :
    s.adminCount ≤ (s.setRole username role).adminCount + 1 := by
  refine Nat.le_trans (countP_le_add (r := fun u => u.username == username) fun u _ hu => ?_)
    (Nat.add_le_add_left (named_le_one s username) _)
  split
  · rename_i hname
    exact .inr hname
  · exact .inl hu

theorem adminCount_deleteUser (s : Store) (username : String) :
    s.adminCount ≤ (s.deleteUser username).adminCount + 1 :=
  Nat.le_trans (countP_le_filter _ (fun u => u.username == username) _)
    (Nat.add_le_add_left (named_le_one s username) _)

theorem adminCount_kept {β : Type} {q : Query β} {d : Database} (h : q.removesAdmin d = false) :
    d.store.adminCount ≤ (q.exec d).1.store.adminCount := by
  unfold Query.exec
  cases hf : d.now.fault with
  | some e => exact Nat.le_refl _
  | none =>
    cases q with
    | setRole role username =>
      show _ ≤ (d.store.setRole username role).adminCount
      unfold Store.setRole
      refine adminCount_modify _ _ fun u hu hname hadmin => ?_
      have hcase : (role != .admin) = false ∨ d.store.isAdmin username = false := by
        simpa [Query.removesAdmin,hf,imp_iff_not_or] using h
      rcases hcase with hrole | hno
      · simpa using hrole
      · rw [not_admin_of hno hu (beq_iff_eq.mp hname)] at hadmin
        exact nomatch hadmin
    | deleteUser username =>
      have hno : d.store.isAdmin username = false := by
        simpa [Query.removesAdmin,hf] using h
      show d.store.users.rows.countP _ ≤ (d.store.users.rows.filter _).countP _
      rw [List.countP_filter]
      refine List.countP_mono_left fun u hu hadmin => ?_
      rw [hadmin,Bool.true_and,Bool.not_eq_true']
      by_contra hname
      rw [not_admin_of hno hu (beq_iff_eq.mp (Bool.eq_true_of_not_eq_false hname))] at hadmin
      exact nomatch hadmin
    | insertUser username hash role => exact adminCount_insertUser d.store username hash role
    | setPassword hash username =>
      show _ ≤ (d.store.setPassword username hash).adminCount
      unfold Store.setPassword
      exact adminCount_modify _ _ fun _ _ _ hadmin => hadmin
    | storeRefresh tokenHash username expiresAt =>
      exact Nat.le_of_eq (adminCount_storeRefresh _ _ _ _ _).symm
    | _ => exact Nat.le_refl _

theorem adminCount_drops {β : Type} (q : Query β) (d : Database) :
    d.store.adminCount ≤ (q.exec d).1.store.adminCount + 1 := by
  cases h : q.removesAdmin d with
  | false => exact Nat.le_succ_of_le (adminCount_kept h)
  | true =>
    unfold Query.exec
    cases hf : d.now.fault with
    | some e => exact Nat.le_succ _
    | none =>
      cases q with
      | setRole role username => exact adminCount_setRole d.store role username
      | deleteUser username => exact adminCount_deleteUser d.store username
      | _ => exact nomatch h

end Counts

structure Staffed (x : Traced Database Tally) : Prop where
  staffed : 0 < x.state.store.adminCount
  counts : ∀ pid n, standing Tally.isCount Tally.isRemoval pid x.log = some (.counted n) →
    n ≤ x.state.store.adminCount

def Cleared (pid : Nat) (log : List (Nat × Tally)) : Prop :=
  ∀ e ∈ own pid log, ∃ n, 1 < n ∧ e.2 = .counted n

section Steps

variable {env : Env} {pid : Nat} {x y : Traced Database Tally} {β : Type} {q : Query β} {b : β}

theorem exec_supervised (h : (supervised env).exec pid q x = some (y,b)) :
    y.state = (q.exec x.state).1 ∧ b = (q.exec x.state).2 ∧
      y.log = record pid x.log (q.tally β x.state b) := by
  obtain ⟨hexec,hlog⟩ := exec_observe h
  obtain ⟨hstate,hanswer⟩ := Prod.mk.inj (Option.some.inj hexec)
  exact ⟨hstate.symm,hanswer.symm,hlog⟩

theorem cleared_standing (hx : Cleared pid x.log)
    (h : (standing Tally.isCount Tally.isRemoval pid x.log).isSome = true) :
    ∃ n, 1 < n ∧ standing Tally.isCount Tally.isRemoval pid x.log = some (.counted n) := by
  obtain ⟨t,ht⟩ := Option.isSome_iff_exists.mp h
  obtain ⟨n,hn,he⟩ := hx _ (standing_mem ht).1
  exact ⟨n,hn,ht.trans (congrArg some he)⟩

theorem counted_answer {d : Database} {t : Tally} (h : q.counted b = some t)
    (hb : b = (q.exec d).2) : t = .counted d.store.adminCount := by
  cases q with
  | adminCount =>
    unfold Query.exec at hb
    cases hf : d.now.fault with
    | some e =>
      rw [hf] at hb
      subst hb
      exact nomatch h
    | none =>
      rw [hf] at hb
      subst hb
      exact (Option.some.inj h).symm
  | _ => exact nomatch h

theorem Staffed.exec (hx : Staffed x)
    (hcleared : q.removesAdmin x.state = true →
      ∃ n, 1 < n ∧ standing Tally.isCount Tally.isRemoval pid x.log = some (.counted n))
    (h : (supervised env).exec pid q x = some (y,b)) : Staffed y := by
  obtain ⟨hstate,hb,hlog⟩ := exec_supervised h
  cases hr : q.removesAdmin x.state with
  | true =>
    have hnote : y.log = (pid,.removed) :: x.log := by
      rw [hlog,Query.tally,if_pos hr]
      rfl
    obtain ⟨n,hn,hcount⟩ := hcleared hr
    have hle := hx.counts pid n hcount
    have hdrop := adminCount_drops q x.state
    rw [← hstate] at hdrop
    refine ⟨by omega,fun p m hp => ?_⟩
    rw [hnote,standing_theirs rfl rfl] at hp
    exact nomatch hp
  | false =>
    have hkept := adminCount_kept hr
    rw [← hstate] at hkept
    refine ⟨Nat.lt_of_lt_of_le hx.staffed hkept,fun p m hp => ?_⟩
    rw [hlog,Query.tally,if_neg (by simp [hr])] at hp
    cases hc : q.counted b with
    | none =>
      rw [hc] at hp
      exact Nat.le_trans (hx.counts p m hp) hkept
    | some t =>
      obtain rfl := counted_answer hc hb
      rw [hc] at hp
      by_cases hpid : pid = p
      · subst hpid
        rw [record,standing_mine rfl] at hp
        obtain rfl := Tally.counted.inj (Option.some.inj hp)
        exact hkept
      · rw [record,standing_other (.inl hpid) rfl] at hp
        exact Nat.le_trans (hx.counts p m hp) hkept

end Steps

def supervision (env : Env) : Discipline (supervised env) where
  Inv := Staffed
  Rely pid x y := own pid y.log = own pid x.log
  Allow := Counted
  Duty _ _ _ _ := True
  rely_refl _ _ := rfl
  rely_trans _ _ _ _ h k := k.trans h

section Guards

variable {env : Env} {pid : Nat} {x : Traced Database Tally} {α β : Type} {q : Query β}

def Supervised (env : Env) (pid : Nat) {α : Type} (p : Prog Query α) (x : Traced Database Tally) :
    Prop := (supervision env).Safe pid (fun _ _ => True) p x

theorem Cleared.of_own {log log' : List (Nat × Tally)} (h : Cleared pid log)
    (ho : own pid log' = own pid log) : Cleared pid log' := by
  unfold Cleared
  rw [ho]
  exact h

theorem supervised_perform {f : β → Prog Query α} (hx : Cleared pid x.log ∨ q.Spared)
    (h : ∀ (t : Traced Database Tally) b (y : Traced Database Tally), own pid t.log = own pid x.log → b = (q.exec t.state).2 →
      y.log = record pid t.log (q.tally β t.state b) → Supervised env pid (f b) y) :
    Supervised env pid (perform q >>= f) x := by
  intro t hrely ht hallow y b hexec
  obtain ⟨-,hb,hlog⟩ := exec_supervised hexec
  refine ⟨trivial,⟨ht.exec ?_ hexec,?_⟩,h t b y hrely hb hlog⟩
  · intro hr
    rcases hx with hx | hspared
    · exact cleared_standing (hx.of_own hrely) (hallow hr)
    · exact absurd hr (by simp [hspared t.state])
  · intro p hp
    show own p y.log = own p t.log
    rw [hlog,own_record pid _ _ hp]

theorem supervised_spared {p : Prog Query α} (hp : p.Uses Query.Spared)
    (x : Traced Database Tally) : Supervised env pid p x := by
  induction p generalizing x with
  | ret a => trivial
  | step q f ih => exact supervised_perform (.inr hp.1) fun _ b y _ _ _ => ih b (hp.2 b) y

theorem supervised_write {f : β → Prog Query α} (hx : Cleared pid x.log)
    (hf : ∀ b, (f b).Uses Query.Spared) : Supervised env pid (perform q >>= f) x :=
  supervised_perform (.inl hx) fun _ b y _ _ _ => supervised_spared (hf b) y

theorem supervised_read {f : β → Prog Query α} (hx : Cleared pid x.log)
    (hq : ∀ d b, q.tally β d b = none) (h : ∀ b (y : Traced Database Tally), Cleared pid y.log → Supervised env pid (f b) y) :
    Supervised env pid (perform q >>= f) x := by
  refine supervised_perform (.inl hx) fun t b y ht _ hlog => h b y (hx.of_own ?_)
  rw [hlog,hq t.state b]
  exact ht

theorem supervised_adminCount {f : Nat → Handler α} (hx : Cleared pid x.log)
    (h : ∀ n (y : Traced Database Tally), (1 < n → Cleared pid y.log) → Supervised env pid (f n) y) :
    Supervised env pid (adminCount >>= f) x := by
  refine supervised_perform (q := Query.adminCount) (.inl hx) fun t b y ht _ hlog => ?_
  cases b with
  | error e => exact h 0 y fun h0 => absurd h0 (by decide)
  | ok n =>
    refine h n y fun hn e he => ?_
    rw [hlog] at he
    obtain ⟨hmem,hid⟩ := List.mem_filter.mp he
    rcases List.mem_cons.mp hmem with rfl | hold
    · exact ⟨n,hn,rfl⟩
    · exact hx e (ht ▸ List.mem_filter.mpr ⟨hold,hid⟩)

theorem supervised_writeRole (hx : Cleared pid x.log) (target : String) (current role : Role) :
    Supervised env pid (writeRole target current role) x := by
  refine supervised_write hx fun written => ?_
  cases written with
  | error e => trivial
  | ok _ => exact uses_ite ⟨fun _ => rfl,fun _ => trivial⟩ trivial

theorem supervised_removeUser (hx : Cleared pid x.log) (target : String) :
    Supervised env pid (removeUser target) x := by
  refine supervised_write hx fun removed => ?_
  rcases removed with e | _ | n
  · trivial
  · trivial
  · exact ⟨fun _ => rfl,fun _ => trivial⟩

theorem supervised_setRole (hx : Cleared pid x.log) (self target : String) (body : Option Role) :
    Supervised env pid (setRole self target body) x := by
  unfold setRole
  cases body with
  | none => trivial
  | some role =>
    dsimp only
    split
    · trivial
    refine supervised_read hx (fun _ _ => rfl) fun current y hy => ?_
    cases current with
    | error e => trivial
    | ok current =>
      dsimp only
      split
      · trivial
      split
      · refine supervised_adminCount hy fun n z hz => ?_
        split
        · trivial
        · rename_i hn
          exact supervised_writeRole (hz (Nat.lt_of_not_le hn)) target current role
      · exact supervised_writeRole hy target current role

theorem supervised_deleteUser (hx : Cleared pid x.log) (self target : String) :
    Supervised env pid (deleteUser self target) x := by
  unfold deleteUser
  refine supervised_read hx (fun _ _ => rfl) fun current y hy => ?_
  cases current with
  | error e => trivial
  | ok current =>
    dsimp only
    split
    · trivial
    split
    · refine supervised_adminCount hy fun n z hz => ?_
      split
      · trivial
      · rename_i hn
        exact supervised_removeUser (hz (Nat.lt_of_not_le hn)) target
    · exact supervised_removeUser hy target

theorem spared_of_runs {r : Request} (hset : ∀ self target body, r ≠ .setRole self target body)
    (hdelete : ∀ self target, r ≠ .delete self target) (h : r.runs q) : q.Spared := by
  intro d
  cases q with
  | setRole role username =>
    cases r with
    | setRole self target body => exact absurd rfl (hset self target body)
    | delete self target => exact absurd rfl (hdelete self target)
    | _ => exact h.elim
  | deleteUser username =>
    cases r with
    | setRole self target body => exact absurd rfl (hset self target body)
    | delete self target => exact absurd rfl (hdelete self target)
    | _ => exact h.elim
  | _ => rfl

theorem supervised_handle (r : Request) (hx : own pid x.log = []) :
    Supervised env pid (handle env r) x := by
  have hcleared : Cleared pid x.log := by
    intro e he
    rw [hx] at he
    exact nomatch he
  have hother : (∀ self target body, r ≠ .setRole self target body) →
      (∀ self target, r ≠ .delete self target) → Supervised env pid (handle env r) x :=
    fun hset hdelete => supervised_spared
      (uses_mono (fun _ h => spared_of_runs hset hdelete h) (uses_handle r)) x
  cases r with
  | setRole self target body => exact supervised_setRole hcleared self target body
  | delete self target => exact supervised_deleteUser hcleared self target
  | _ => exact hother (by simp) (by simp)

end Guards

theorem administrator_remains (env : Env) (d : Database) (es : List (Event (supervised env)))
    (v : World (supervised env)) (hadmin : ∃ u ∈ d.store.users.rows, u.role = .admin)
    (hcounted : Along (Landing Counted) (begun d) es) (hv : (begun d).run es = some v) :
    ∃ u ∈ v.state.state.store.users.rows, u.role = .admin := by
  have hinit : Staffed ⟨d,[]⟩ := by
    obtain ⟨u,hu,hrole⟩ := hadmin
    refine ⟨List.countP_pos_iff.mpr ⟨u,hu,by simp [hrole]⟩,?_⟩
    intro pid n h
    exact nomatch h
  have hend := (observed (D := supervision env) (Q := fun _ _ _ _ => True)
    (fun pid r x _ _ hx => supervised_handle r hx) (fun _ _ _ _ _ _ _ => trivial)
    (fun e => e.elim) hinit hcounted hv).1
  obtain ⟨u,hu,hrole⟩ := List.countP_pos_iff.mp hend.staffed
  exact ⟨u,hu,beq_iff_eq.mp hrole⟩

instance countedDecidable (pid : Nat) (x : Traced Database Tally) (β : Type) (q : Query β) :
    Decidable (Counted pid x q) :=
  inferInstanceAs (Decidable (q.removesAdmin x.state = true → _ = true))

instance countedLanding {env : Env} (w : World (supervised env)) (e : Event (supervised env)) :
    Decidable (Landing Counted w e) :=
  landingDecidable (S := supervised env) Counted (h := countedDecidable) w e

def Request.administrator : Request → Option String
  | .create self _ | .setRole self _ _ | .delete self _ => some self
  | _ => none

def Authorised {env : Env} (w : World (supervised env)) : Event (supervised env) → Prop
  | .start _ r => (r.administrator.any fun self => w.state.state.store.isAdmin self) = true
  | _ => True

instance authorisedDecidable {env : Env} (w : World (supervised env)) (e : Event (supervised env)) :
    Decidable (Authorised w e) := by
  cases e with
  | start pid r => exact inferInstanceAs (Decidable (_ = true))
  | act pid => exact isTrue trivial
  | env e => exact isTrue trivial

def twoAdministrators : Database :=
  ⟨((Store.empty.insertUser "alice" "" .admin).1.insertUser "bob" "" .admin).1,0,quiet⟩

def demotions : List (Event (supervised plain)) :=
  [.start 0 (.setRole "alice" "bob" (some .viewer)),.start 1 (.setRole "bob" "alice" (some .viewer))]

def demotionsInTurn : List (Event (supervised plain)) :=
  demotions ++ [.act 0,.act 0,.act 0,.act 0,.act 1,.act 1]

def replies {env : Env} (p q : Nat) (w : World (supervised env)) : Option Reply × Option Reply :=
  (w.answer p,w.answer q)

theorem last_demotion_refused :
    Along (Landing Counted) (begun twoAdministrators) demotionsInTurn ∧
    ∃ v : World (supervised plain), (begun twoAdministrators).run demotionsInTurn = some v ∧
      v.answer 0 = some ⟨200,.user "bob" .viewer,.unchanged⟩ ∧
      v.answer 1 = some (.failed 400 "cannot demote the last admin") ∧
      ∃ u ∈ v.state.state.store.users.rows, u.role = .admin := by
  have hcounted : Along (Landing Counted) (begun twoAdministrators) demotionsInTurn := by decide
  have hrun : ((begun twoAdministrators).run demotionsInTurn).map
      (replies 0 1) = some (some ⟨200,.user "bob" .viewer,.unchanged⟩,
        some (.failed 400 "cannot demote the last admin")) := by
    decide
  obtain ⟨v,hv,hanswers⟩ := Option.map_eq_some_iff.mp hrun
  obtain ⟨hfirst,hsecond⟩ := Prod.mk.inj hanswers
  exact ⟨hcounted,v,hv,hfirst,hsecond,
    administrator_remains plain twoAdministrators demotionsInTurn v (by decide) hcounted hv⟩

theorem crossing_demotions :
    ¬ ∀ (env : Env) (d : Database) (es : List (Event (supervised env)))
      (v : World (supervised env)), (∃ u ∈ d.store.users.rows, u.role = .admin) →
      Along Authorised (begun d) es → (begun d).run es = some v →
        ∃ u ∈ v.state.state.store.users.rows, u.role = .admin := by
  intro h
  have hrun : ((begun twoAdministrators).run (demotions ++
      [.act 0,.act 1,.act 0,.act 1,.act 0,.act 1])).map
        (fun v : World (supervised plain) => v.state.state.store.adminCount) = some 0 := by
    decide
  obtain ⟨v,hv,hcount⟩ := Option.map_eq_some_iff.mp hrun
  obtain ⟨u,hu,hrole⟩ := h plain twoAdministrators _ v (by decide) (by decide) hv
  have hpos : 0 < v.state.state.store.adminCount :=
    List.countP_pos_iff.mpr ⟨u,hu,by simp [hrole]⟩
  omega

end Auth
