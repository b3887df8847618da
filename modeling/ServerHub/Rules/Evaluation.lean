import ServerHub.Rules.Engine

namespace Rules

open Go Relational Interleave Interleave.Prog

def Stmt.Spares (id : Nat) (fp : String) {β : Type} : Stmt β → Prop
  | .claim r ev => r.id ≠ id ∨ ev.fingerprint ≠ fp
  | _ => True

def State.Sound (s : State) : Prop := ∀ n, (s.outside n).fault = none

theorem State.Sound.of_outside {s t : State} (h : s.Sound) (ho : t.outside = s.outside) : t.Sound := by
  intro n
  rw [ho]
  exact h n

namespace Store

variable {s : Store} {id : Nat} {fp : String} {r : RuleRow} {ev : Event} {now : Int}

@[simp] theorem put_rules (row : RuleState) : (s.put id fp row).rules = s.rules := rfl

theorem put_states (row : RuleState) (id' : Nat) (fp' : String) :
    (s.put id fp row).states id' fp' =
      if id' = id ∧ fp' = fp then some row else s.states id' fp' := by
  simp only [put,Function.update_apply]
  grind

theorem claim_put (s : Store) (r : RuleRow) (ev : Event) (now : Int) :
    ∃ row, (s.claim r ev now).1 = s.put r.id ev.fingerprint row := by
  unfold claim
  split
  · split <;> exact ⟨_,rfl⟩
  · split
    · rename_i hcool
      simp only [cooling,Bool.and_eq_true,Option.any_eq_true] at hcool
      obtain ⟨-,row,hrow,-⟩ := hcool
      simp only [touchEvent,hrow]
      exact ⟨_,rfl⟩
    · exact ⟨_,rfl⟩

theorem claim_firing (hev : ev.isRecovery = false) (hr : r.cooldownSeconds = 0) :
    s.claim r ev now = (s.upsertState r.id ev now .firing,none) := by
  simp [claim,hev,cooling,hr]

theorem claim_recovered (hev : ev.isRecovery = true) (hr : r.notifyOnRecovery = true)
    (hs : s.lastState r.id ev.fingerprint = .firing) :
    s.claim r ev now = (s.upsertState r.id ev now .resolved,none) := by
  simp [claim,hev,hr,hs]

theorem claim_without_firing (hev : ev.isRecovery = true)
    (hs : s.lastState r.id ev.fingerprint ≠ .firing) :
    s.claim r ev now = (s.upsertState r.id ev now .resolved,some .withoutFiring) := by
  simp [claim,hev,hs]

theorem claim_recovery (hev : ev.isRecovery = true) :
    (s.claim r ev now).1 = s.upsertState r.id ev now .resolved := by
  rw [claim,if_pos hev]
  split <;> rfl

theorem lastState_congr {t : Store} (h : t.states id = s.states id) :
    t.lastState id fp = s.lastState id fp := by
  rw [lastState,lastState,h]

theorem lastState_upsert (state : LastState) :
    (s.upsertState id ev now state).lastState id fp =
      if fp = ev.fingerprint then state else s.lastState id fp := by
  simp only [lastState,upsertState,put_states,true_and]
  split <;> rfl

end Store

theorem exec_fixed (s : State) {β : Type} (i : Stmt β) :
    (i.exec s).1.store.rules = s.store.rules ∧ (i.exec s).1.outside = s.outside := by
  refine ⟨?_,rfl⟩
  cases i with
  | clock => rfl
  | rules first second recoveryOnly =>
    simp only [Stmt.exec,Stmt.effect]
    split <;> rfl
  | hand h => rfl
  | claim r ev =>
    obtain ⟨row,hrow⟩ := s.store.claim_put r ev s.now.clock
    simp only [Stmt.exec,Stmt.effect]
    split
    · rfl
    · rw [hrow,Store.put_rules]

theorem eval_fixed {α : Type} (p : Job α) (s : State) :
    (p.eval Stmt.exec s).1.store.rules = s.store.rules ∧
      (p.eval Stmt.exec s).1.outside = s.outside := by
  induction p generalizing s with
  | ret a => exact ⟨rfl,rfl⟩
  | step i k ih =>
    obtain ⟨hrules,houtside⟩ := exec_fixed s i
    obtain ⟨hr,ho⟩ := ih (i.exec s).2 (i.exec s).1
    exact ⟨hr.trans hrules,ho.trans houtside⟩

theorem exec_spared {id : Nat} {fp : String} (s : State) {β : Type} (i : Stmt β)
    (h : i.Spares id fp) : (i.exec s).1.store.states id fp = s.store.states id fp := by
  cases i with
  | clock => rfl
  | rules first second recoveryOnly =>
    simp only [Stmt.exec,Stmt.effect]
    split <;> rfl
  | hand h => rfl
  | claim r ev =>
    obtain ⟨row,hrow⟩ := s.store.claim_put r ev s.now.clock
    simp only [Stmt.exec,Stmt.effect]
    split
    · rfl
    · rw [hrow,Store.put_states,if_neg]
      rintro ⟨rfl,rfl⟩
      exact h.elim (fun h => h rfl) fun h => h rfl

theorem eval_spared {id : Nat} {fp : String} {α : Type} {p : Job α}
    (hp : p.Uses (Stmt.Spares id fp)) (s : State) :
    (p.eval Stmt.exec s).1.store.states id fp = s.store.states id fp :=
  eval_keeps (I := fun t => t.store.states id fp = s.store.states id fp)
    (fun t _ i hi ht => (exec_spared t i hi).trans ht) hp rfl

section Frames

variable {env : Env} {eng : Engine} {r : RuleRow} {ev : Event} {id : Nat} {fp : String}

theorem spares_hands (hs : List Handoff) : (collect handOver hs).Uses (Stmt.Spares id fp) :=
  uses_collect fun _ _ => ⟨trivial,fun _ => trivial⟩

theorem spares_notify (h : r.id ≠ id ∨ ev.fingerprint ≠ fp) :
    (notify eng r ev).Uses (Stmt.Spares id fp) := by
  refine uses_bind (uses_perform h) fun answer => ?_
  split
  · trivial
  · trivial
  · exact uses_bind (spares_hands _) fun _ => trivial

theorem spares_evaluateRule (h : r.id ≠ id ∨ ev.fingerprint ≠ fp) :
    (evaluateRule env eng r ev).Uses (Stmt.Spares id fp) := by
  unfold evaluateRule
  split
  · trivial
  · trivial
  · exact uses_ite trivial (spares_notify h)

theorem spares_results {rows : List RuleRow} (h : ∀ r ∈ rows, r.id ≠ id ∨ ev.fingerprint ≠ fp) :
    (collect (ruleResult env eng ev) rows).Uses (Stmt.Spares id fp) :=
  uses_collect fun r hr => uses_bind (spares_evaluateRule (h r hr)) fun _ => trivial

end Frames

theorem hands_store (hs : List Handoff) (s : State) :
    ((collect handOver hs).eval Stmt.exec s).1.store = s.store ∧
      ((collect handOver hs).eval Stmt.exec s).1.outside = s.outside ∧
      ((collect handOver hs).eval Stmt.exec s).2.map Prod.fst = hs := by
  induction hs generalizing s with
  | nil => exact ⟨rfl,rfl,rfl⟩
  | cons h hs ih =>
    obtain ⟨hstore,houtside,hsent⟩ := ih ((handOver h).eval Stmt.exec s).1
    rw [eval_collect_cons]
    exact ⟨hstore,houtside,by rw [List.map_cons,hsent]; rfl⟩

theorem notify_spec (eng : Engine) (r : RuleRow) (ev : Event) {s : State} (hs : s.Sound) :
    ((notify eng r ev).eval Stmt.exec s).1.store = (s.store.claim r ev s.now.clock).1 ∧
      ((notify eng r ev).eval Stmt.exec s).1.outside = s.outside ∧
      match (s.store.claim r ev s.now.clock).2 with
      | some reason => ((notify eng r ev).eval Stmt.exec s).2 = .ok (.suppressed reason)
      | none => ∃ handed, ((notify eng r ev).eval Stmt.exec s).2 = .ok (.notified handed) ∧
          handed.map Prod.fst = handoffs eng r ev := by
  have hclaim : (Stmt.claim r ev).exec s =
      (⟨(s.store.claim r ev s.now.clock).1,s.tick + 1,s.outside⟩,
        .ok (s.store.claim r ev s.now.clock).2) := by
    simp only [Stmt.exec,Stmt.effect,show s.now.fault = none from hs s.tick]
  rw [notify,eval_perform_bind,hclaim]
  cases hc : (s.store.claim r ev s.now.clock).2 with
  | some reason => exact ⟨rfl,rfl,rfl⟩
  | none =>
    obtain ⟨hstore,houtside,hsent⟩ := hands_store (handoffs eng r ev)
      ⟨(s.store.claim r ev s.now.clock).1,s.tick + 1,s.outside⟩
    simp only [eval_bind]
    exact ⟨hstore,houtside,_,rfl,hsent⟩

def Event.readied (ev : Event) (ts : Int) : Event :=
  { ev with fingerprint := ev.identity, timestamp := ts }

def Store.rulesFor (s : Store) (t : EventType) : List StoredRule := s.offered t t.firing t.firing

def verdictOf (id : Nat) : Report → Option (Except String Verdict)
  | .error _ => none
  | .ok results => (results.find? fun x => x.1 == id).map Prod.snd

theorem stamp_spec (ev : Event) (s : State) :
    ∃ ts, ((stamp { ev with fingerprint := ev.identity }).eval Stmt.exec s).2 = ev.readied ts ∧
      ((stamp { ev with fingerprint := ev.identity }).eval Stmt.exec s).1.store = s.store ∧
      ((stamp { ev with fingerprint := ev.identity }).eval Stmt.exec s).1.outside = s.outside := by
  unfold stamp
  split
  · exact ⟨_,rfl,rfl,rfl⟩
  · exact ⟨_,rfl,rfl,rfl⟩

theorem loadRules_spec (t : EventType) {s : State} (hs : s.Sound) :
    (loadRules t).eval Stmt.exec s =
      (⟨s.store,s.tick + 1,s.outside⟩,.ok ((s.store.rulesFor t).map StoredRule.row)) := by
  simp only [loadRules,eval_perform_bind,Stmt.exec,Stmt.effect,show s.now.fault = none from hs s.tick]
  rfl

theorem evaluate_spec (env : Env) {eng : Engine} (hon : eng.on = true) (ev : Event) {s : State}
    (hs : s.Sound) :
    ∃ ts u, u.store = s.store ∧ u.outside = s.outside ∧ (evaluate env eng ev).eval Stmt.exec s =
      (((collect (ruleResult env eng (ev.readied ts))
          ((s.store.rulesFor ev.type).map StoredRule.row)).eval Stmt.exec u).1,
        .ok ((collect (ruleResult env eng (ev.readied ts))
          ((s.store.rulesFor ev.type).map StoredRule.row)).eval Stmt.exec u).2) := by
  obtain ⟨ts,hev,hstore,houtside⟩ := stamp_spec ev s
  have hs' := hs.of_outside houtside
  refine ⟨ts,((loadRules ev.type).eval Stmt.exec
    ((stamp { ev with fingerprint := ev.identity }).eval Stmt.exec s).1).1,?_,?_,?_⟩
  · rw [loadRules_spec ev.type hs',hstore]
  · rw [loadRules_spec ev.type hs',houtside]
  · rw [evaluate,if_pos hon,eval_bind,hev,eval_bind,← hstore]
    simp only [show (ev.readied ts).type = ev.type from rfl]
    rw [loadRules_spec ev.type hs',eval_bind]
    rfl

namespace Store

theorem mem_rulesFor {s : Store} {t : EventType} {r : StoredRule} :
    r ∈ s.rulesFor t ↔ r ∈ s.rules.rows ∧ r.enabled = true ∧
      (r.eventType = t ∨ r.eventType = t.firing) ∧
      (r.eventType ≠ t.firing ∨ r.notifyOnRecovery = true) := by
  rw [rulesFor,offered,mem_orderBy,Table.select,List.mem_filter]
  simp [and_assoc]

theorem rulesFor_nodup (s : Store) (t : EventType) : ((s.rulesFor t).map StoredRule.id).Nodup :=
  s.rules.nodup_ordered _ _

end Store

theorem evaluate_spared (env : Env) {eng : Engine} (hon : eng.on = true) {ev : Event} {s : State}
    (hs : s.Sound) {id : Nat} {fp : String}
    (h : ∀ r ∈ s.store.rulesFor ev.type, r.id ≠ id ∨ ev.identity ≠ fp) :
    ((evaluate env eng ev).eval Stmt.exec s).1.store.states id fp = s.store.states id fp := by
  obtain ⟨ts,u,hstore,-,heval⟩ := evaluate_spec env hon ev hs
  have hspares : ∀ r ∈ (s.store.rulesFor ev.type).map StoredRule.row,
      r.id ≠ id ∨ (ev.readied ts).fingerprint ≠ fp := by
    intro r hr
    obtain ⟨stored,hstored,rfl⟩ := List.mem_map.mp hr
    exact h stored hstored
  rw [heval,eval_spared (spares_results hspares) u,hstore]

theorem eval_ruleResult (env : Env) (eng : Engine) (ev : Event) (r : RuleRow) (s : State) :
    (ruleResult env eng ev r).eval Stmt.exec s =
      (((evaluateRule env eng r ev).eval Stmt.exec s).1,
        (r.id,((evaluateRule env eng r ev).eval Stmt.exec s).2)) := by
  rw [ruleResult,eval_bind]
  rfl

theorem results_ids (env : Env) (eng : Engine) (ev : Event) (rows : List RuleRow) (s : State) :
    ((collect (ruleResult env eng ev) rows).eval Stmt.exec s).2.map Prod.fst = rows.map RuleRow.id := by
  induction rows generalizing s with
  | nil => rfl
  | cons r rows ih =>
    rw [eval_collect_cons,List.map_cons,List.map_cons,ih,eval_ruleResult]

theorem unlisted {env : Env} {eng : Engine} {ev : Event} {rows : List RuleRow} {id : Nat}
    (h : ∀ r ∈ rows, r.id ≠ id) (s : State) :
    ((collect (ruleResult env eng ev) rows).eval Stmt.exec s).2.find? (fun x => x.1 == id) = none := by
  refine List.find?_eq_none.mpr ?_
  intro x hx hid
  have hmem : x.1 ∈ rows.map RuleRow.id :=
    results_ids env eng ev rows s ▸ List.mem_map_of_mem hx
  obtain ⟨r,hr,hx⟩ := List.mem_map.mp hmem
  exact h r hr (hx.trans (beq_iff_eq.mp hid))

theorem evaluate_offered (env : Env) {eng : Engine} (hon : eng.on = true) {ev : Event} {s : State}
    (hs : s.Sound) {r : StoredRule} (hr : r ∈ s.store.rulesFor ev.type) :
    ∃ ts u, u.Sound ∧ u.store.states r.id = s.store.states r.id ∧
      ((evaluate env eng ev).eval Stmt.exec s).1.store.states r.id =
        ((evaluateRule env eng r.row (ev.readied ts)).eval Stmt.exec u).1.store.states r.id ∧
      verdictOf r.id ((evaluate env eng ev).eval Stmt.exec s).2 =
        some ((evaluateRule env eng r.row (ev.readied ts)).eval Stmt.exec u).2 := by
  obtain ⟨ts,u,hstore,houtside,heval⟩ := evaluate_spec env hon ev hs
  obtain ⟨before,later,hsplit⟩ := List.append_of_mem hr
  have hnodup : ((r :: (before ++ later)).map key).Nodup := by
    have h := s.store.rulesFor_nodup ev.type
    rwa [hsplit,List.map_append,List.map_cons,List.nodup_middle,← List.map_append,← List.map_cons] at h
  have hothers : ∀ xs ⊆ before ++ later, ∀ x ∈ xs.map StoredRule.row, x.id ≠ r.id := by
    intro xs hxs x hx
    obtain ⟨a,ha,rfl⟩ := List.mem_map.mp hx
    exact key_ne_of_nodup hnodup (hxs ha)
  have hbefore := hothers before (List.subset_append_left before later)
  have hlater := hothers later (List.subset_append_right before later)
  refine ⟨ts,((collect (ruleResult env eng (ev.readied ts)) (before.map StoredRule.row)).eval
    Stmt.exec u).1,hs.of_outside ((eval_fixed _ u).2.trans houtside),?_,?_,?_⟩
  · funext fp
    rw [eval_spared (spares_results fun x hx => .inl (hbefore x hx)) u,hstore]
  · funext fp
    rw [heval,hsplit,List.map_append,List.map_cons,eval_collect_append,eval_collect_cons,
      eval_ruleResult]
    exact eval_spared (spares_results fun x hx => .inl (hlater x hx)) _
  · rw [heval,hsplit,List.map_append,List.map_cons,eval_collect_append,eval_collect_cons,
      eval_ruleResult]
    simp only [verdictOf]
    rw [List.find?_append,unlisted hbefore,Option.none_or,
      List.find?_cons_of_pos (by simp [StoredRule.row]),Option.map_some]

end Rules
