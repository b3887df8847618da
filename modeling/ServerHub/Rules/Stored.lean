import ServerHub.Rules.Handlers

namespace Rules

open Go Relational Interleave Interleave.Prog

section Keys

variable {k : String} {keys out : List String}

theorem key_clean (h : k ∈ groupByKeys) : ',' ∉ k.toList ∧ trimSpace k = k ∧ k ≠ "" := by
  simp only [groupByKeys,List.mem_cons,List.not_mem_nil,or_false] at h
  rcases h with rfl | rfl | rfl | rfl | rfl | rfl <;> decide

theorem splitCSV_join (h : ∀ k ∈ keys, k ∈ groupByKeys) : splitCSV (join keys ',') = keys := by
  cases keys with
  | nil => decide
  | cons k keys =>
    rw [splitCSV,split_join (List.cons_ne_nil k keys) fun k hk => (key_clean (h k hk)).1]
    have htrim : (k :: keys).map trimSpace = k :: keys :=
      (List.map_congr_left fun k hk => (key_clean (h k hk)).2.1).trans (List.map_id _)
    rw [htrim]
    exact List.filter_eq_self.mpr fun k hk => bne_iff_ne.mpr (key_clean (h k hk)).2.2

theorem addGroupKey_known (h : ∀ k ∈ out, k ∈ groupByKeys) (k : String) :
    ∀ a ∈ addGroupKey out k, a ∈ groupByKeys := by
  unfold addGroupKey
  split
  · rename_i hk
    simp only [Bool.and_eq_true,List.contains_iff_mem] at hk
    intro a ha
    rcases List.mem_append.mp ha with ha | ha
    · exact h a ha
    · rw [List.mem_singleton.mp ha]
      exact hk.1.1
  · exact h

theorem foldl_addGroupKey_known (h : ∀ k ∈ out, k ∈ groupByKeys) (keys : List String) :
    ∀ a ∈ keys.foldl addGroupKey out, a ∈ groupByKeys := by
  induction keys generalizing out with
  | nil => exact h
  | cons k keys ih => exact ih (addGroupKey_known h k)

theorem join_split_normalizeGroupBy (keys : List String) :
    join (splitGroupBy (normalizeGroupBy keys)) ',' = normalizeGroupBy keys := by
  rw [splitGroupBy,normalizeGroupBy,splitCSV_join (foldl_addGroupKey_known (by simp) _)]

end Keys

def Draft.stored (d : Draft) (id : Nat) : StoredRule :=
  d.params.stored d.notificationGroupID d.enabled d.notifyOnRecovery id

theorem Draft.row_eq_stored {d : Draft} (h : join d.params.groupBy ',' = d.groupBy) (id : Nat) :
    d.row id = d.stored id := by
  rw [stored,RuleParams.stored,row,h]

theorem fresh_stored (b : RuleBody) (name eventType : String) (group id : Nat) :
    (b.fresh name eventType group).row id = (b.fresh name eventType group).stored id := by
  refine Draft.row_eq_stored ?_ id
  simp only [RuleBody.fresh]
  exact join_split_normalizeGroupBy (b.groupBy.getD [])

theorem merged_stored (b : RuleBody) {cur : StoredRule}
    (h : join (splitCSV cur.groupBy) ',' = cur.groupBy) (id : Nat) :
    (b.merged cur).row id = (b.merged cur).stored id := by
  refine Draft.row_eq_stored ?_ id
  simp only [RuleBody.merged]
  cases b.groupBy with
  | none => exact h
  | some keys => exact join_split_normalizeGroupBy keys

theorem exec_cases (s : Database) {β : Type} (q : Query β) :
    ((q.exec s).1.records = s.records ∧ ∃ e, (q.exec s).2 = q.refuse e) ∨
      (q.exec s).1.records = (q.effect s.records).1 ∧ (q.exec s).2 = (q.effect s.records).2 := by
  unfold Query.exec
  split
  · exact .inl ⟨rfl,_,rfl⟩
  · exact .inr ⟨rfl,rfl⟩

theorem groupExists_spec (id : Nat) (s : Database) :
    ((groupExists id).eval Query.exec s).1.records = s.records ∧
      (((groupExists id).eval Query.exec s).2 = true → ∃ g ∈ s.records.groups.rows, g.id = id) := by
  rw [groupExists,eval_perform_bind]
  rcases exec_cases s (.groupCount id) with ⟨hrecords,e,he⟩ | ⟨hrecords,hanswer⟩
  · rw [he]
    exact ⟨hrecords,fun h => absurd h Bool.false_ne_true⟩
  · rw [hanswer]
    refine ⟨hrecords,fun h => ?_⟩
    obtain ⟨g,hg,hid⟩ := List.countP_pos_iff.mp (of_decide_eq_true h)
    exact ⟨g,hg,beq_iff_eq.mp hid⟩

structure Shrunk (r r' : Records) : Prop where
  rules : r'.store.rules.rows ⊆ r.store.rules.rows
  groups : ∀ row ∈ r'.store.rules.rows, ∀ g ∈ r.groups.rows, g.id = row.notificationGroupID →
    g ∈ r'.groups.rows

inductive Outcome (env : Env) (r : Records) (q : Request) : Records → Reply → Prop
  | refused (status : Nat) (error : String) : Outcome env r q r (.failed status error)
  | created (b : RuleBody) (name eventType : String) (group : Nat) (hq : q = .create (some b))
      (hname : b.name = some name) (htype : b.eventType = some eventType)
      (hgroup : b.notificationGroupID = some group)
      (hvalid : validateRuleFull env (b.fresh name eventType group).params = .ok ())
      (hexists : ∃ g ∈ r.groups.rows, g.id = group) :
      Outcome env r q
        { r with store.rules := r.store.rules.insert (b.fresh name eventType group).row fun _ => rfl }
        (.created r.store.rules.next (b.fresh name eventType group).params.name)
  | updated (id : Int) (b : RuleBody) (cur : StoredRule) (hq : q = .update (some id) (some b))
      (hcur : r.ruleAt id = some cur)
      (hvalid : validateRuleFull env (b.merged cur).params = .ok ())
      (hexists : ∃ g ∈ r.groups.rows, g.id = (b.merged cur).notificationGroupID)
      (rules : Serial StoredRule)
      (hrules : rules = r.store.rules.modify (fun other => other.id == cur.id)
        (fun other => (b.merged cur).row other.id) fun _ => rfl) :
      Outcome env r q { r with store.rules := rules } .done
  | deleted (r' : Records) (reply : Reply) (hcreate : ∀ body, q ≠ .create body)
      (hupdate : ∀ id body, q ≠ .update id body) (h : Shrunk r r') : Outcome env r q r' reply

section Outcomes

variable (env : Env) (s : Database)

theorem Reply.refused_failed (e : String) : ∃ status error, Reply.refused e = .failed status error := by
  unfold Reply.refused
  split <;> exact ⟨_,_,rfl⟩

variable {env s}

theorem Outcome.of_failed {r r' : Records} {q : Request} {reply : Reply} (hr : r' = r)
    (hreply : ∃ status error, reply = .failed status error) : Outcome env r q r' reply := by
  obtain ⟨status,error,rfl⟩ := hreply
  exact hr ▸ .refused status error

theorem Outcome.of_left {r r' left : Records} {q : Request} {reply : Reply} (hr : r' = left)
    (h : Outcome env r q left reply) : Outcome env r q r' reply := hr ▸ h

theorem create_outcome (body : Option RuleBody) :
    Outcome env s.records (.create body) ((createRule env body).eval Query.exec s).1.records
      ((createRule env body).eval Query.exec s).2 := by
  cases body with
  | none => exact .refused 400 _
  | some b =>
    simp only [createRule]
    split
    · rename_i name eventType group hname htype hgroup
      split
      · exact .refused 400 _
      · rename_i hvalid
        rw [eval_bind]
        obtain ⟨hrecords,hexists⟩ := groupExists_spec group s
        generalize (groupExists group).eval Query.exec s = found at hrecords hexists ⊢
        split
        · rename_i hfound
          rw [eval_perform_bind]
          rcases exec_cases found.1 (.insertRule (b.fresh name eventType group)) with
            ⟨hkept,e,he⟩ | ⟨hdone,hanswer⟩
          · rw [he]
            exact .of_failed (hkept.trans hrecords) (Reply.refused_failed e)
          · rw [hanswer]
            simp only [Query.effect,Records.insertRule,hrecords] at hdone ⊢
            split at hdone
            · rename_i hduplicate
              simp only [if_pos hduplicate]
              exact .of_failed hdone (Reply.refused_failed duplicateName)
            · rename_i hunique
              simp only [if_neg hunique]
              exact .of_left hdone
                (.created b name eventType group rfl hname htype hgroup hvalid (hexists hfound))
        · exact .of_failed hrecords ⟨400,_,rfl⟩
    · exact .refused 400 _

theorem update_outcome (id : Option Int) (body : Option RuleBody) :
    Outcome env s.records (.update id body) ((updateRule env id body).eval Query.exec s).1.records
      ((updateRule env id body).eval Query.exec s).2 := by
  cases id with
  | none => exact .refused 400 _
  | some id =>
    cases body with
    | none => exact .refused 400 _
    | some b =>
      simp only [updateRule]
      rw [eval_perform_bind]
      rcases exec_cases s (.loadRule id) with ⟨hrecords,e,he⟩ | ⟨hrecords,hanswer⟩
      · rw [he]
        exact .of_failed hrecords ⟨404,_,rfl⟩
      · rw [hanswer]
        generalize (Query.loadRule id).exec s = loaded at hrecords ⊢
        simp only [Query.effect] at hrecords ⊢
        cases hcur : s.records.ruleAt id with
        | none => exact .of_failed hrecords ⟨404,_,rfl⟩
        | some cur =>
          simp only
          split
          · exact .of_failed hrecords ⟨400,_,rfl⟩
          · rename_i hvalid
            rw [eval_bind]
            obtain ⟨hkept,hexists⟩ := groupExists_spec (b.merged cur).notificationGroupID loaded.1
            rw [hrecords] at hkept hexists
            generalize (groupExists (b.merged cur).notificationGroupID).eval Query.exec loaded.1 =
              found at hkept hexists ⊢
            split
            · rename_i hfound
              rw [eval_perform_bind]
              rcases exec_cases found.1 (.updateRule id (b.merged cur)) with
                ⟨hleft,e,he⟩ | ⟨hdone,hanswer⟩
              · rw [he]
                exact .of_failed (hleft.trans hkept) (Reply.refused_failed e)
              · rw [hanswer]
                simp only [Query.effect,Records.updateRule,hkept,hcur] at hdone ⊢
                split at hdone
                · rename_i hduplicate
                  simp only [if_pos hduplicate]
                  exact .of_failed hdone (Reply.refused_failed duplicateName)
                · rename_i hunique
                  simp only [if_neg hunique]
                  exact .of_left hdone (.updated id b cur rfl hcur hvalid (hexists hfound) _ rfl)
            · exact .of_failed hkept ⟨400,_,rfl⟩

theorem Shrunk.refl (r : Records) : Shrunk r r := ⟨List.Subset.refl _,fun _ _ _ hg _ => hg⟩

theorem Shrunk.of_same {r r' left : Records} (h : Shrunk r r') (hrules : left.store.rules = r'.store.rules)
    (hgroups : left.groups = r'.groups) : Shrunk r left :=
  ⟨hrules ▸ h.rules,hrules ▸ hgroups ▸ h.groups⟩

theorem exec_same {β : Type} {q : Query β}
    (hq : ∀ r, (q.effect r).1.store.rules = r.store.rules ∧ (q.effect r).1.groups = r.groups)
    (s : Database) : (q.exec s).1.records.store.rules = s.records.store.rules ∧
      (q.exec s).1.records.groups = s.records.groups := by
  rcases exec_cases s q with ⟨h,-⟩ | ⟨h,-⟩
  · rw [h]
    exact ⟨rfl,rfl⟩
  · rw [h]
    exact hq s.records

theorem exec_shrunk {β : Type} {q : Query β} (hq : Shrunk s.records (q.effect s.records).1) :
    Shrunk s.records (q.exec s).1.records := by
  rcases exec_cases s q with ⟨h,-⟩ | ⟨h,-⟩
  · rw [h]
    exact .refl _
  · rw [h]
    exact hq

theorem deleteRule_shrunk (id : Option Int) :
    Shrunk s.records ((deleteRule id).eval Query.exec s).1.records := by
  cases id with
  | none => exact .refl _
  | some id =>
    have hdeleted : Shrunk s.records ((Query.deleteRule id).exec s).1.records :=
      exec_shrunk ⟨fun row hrow => (Serial.mem_remove.mp hrow).1,fun _ _ _ hg _ => hg⟩
    rw [deleteRule,eval_perform_bind]
    generalize (Query.deleteRule id).exec s = found at hdeleted ⊢
    split
    · exact hdeleted
    · exact hdeleted
    · obtain ⟨hrules,hgroups⟩ := exec_same (q := .deleteStates id) (fun _ => ⟨rfl,rfl⟩) found.1
      exact hdeleted.of_same hrules hgroups

theorem unreferenced_shrunk {id : Int} {r : Records}
    (h : ¬ 0 < r.store.rules.count fun row => decide ((row.notificationGroupID : Int) = id)) :
    Shrunk r (r.deleteGroup id).1 := by
  refine ⟨List.Subset.refl _,fun row hrow g hg hid => Table.mem_remove.mpr ⟨hg,?_⟩⟩
  refine decide_eq_false fun he => h (List.countP_pos_iff.mpr ⟨row,hrow,decide_eq_true ?_⟩)
  rw [← hid]
  exact he

theorem deleteGroup_shrunk (id : Option Int) :
    Shrunk s.records ((deleteGroup id).eval Query.exec s).1.records := by
  cases id with
  | none => exact .refl _
  | some id =>
    rw [deleteGroup,eval_perform_bind]
    rcases exec_cases s (.countRefs id) with ⟨hrecords,e,he⟩ | ⟨hrecords,hanswer⟩
    · rw [he]
      exact Shrunk.of_same (.refl _) (by rw [← hrecords]; rfl) (by rw [← hrecords]; rfl)
    · rw [hanswer]
      generalize (Query.countRefs id).exec s = counted at hrecords ⊢
      simp only [Query.effect] at hrecords ⊢
      split
      · exact Shrunk.of_same (.refl _) (by rw [← hrecords]; rfl) (by rw [← hrecords]; rfl)
      · rename_i hrefs
        rw [eval_perform_bind]
        obtain ⟨hrules,hgroups⟩ := exec_same (q := .deleteMembers id) (fun _ => ⟨rfl,rfl⟩) counted.1
        rw [hrecords] at hrules hgroups
        generalize (Query.deleteMembers id).exec counted.1 = emptied at hrules hgroups ⊢
        have hleft : Shrunk emptied.1.records ((Query.deleteGroup id).exec emptied.1).1.records :=
          exec_shrunk (unreferenced_shrunk (hrules ▸ hrefs))
        have hdeleted : Shrunk s.records ((Query.deleteGroup id).exec emptied.1).1.records :=
          ⟨hrules ▸ hleft.rules,hgroups ▸ hleft.groups⟩
        rw [eval_perform_bind]
        generalize (Query.deleteGroup id).exec emptied.1 = found at hdeleted ⊢
        split
        · exact hdeleted
        · exact hdeleted
        · obtain ⟨hrules,hgroups⟩ := exec_same (q := .clearEmailGroup) (fun _ => ⟨rfl,rfl⟩) found.1
          exact hdeleted.of_same hrules hgroups

theorem handle_outcome (env : Env) (s : Database) (q : Request) :
    Outcome env s.records q ((handle env q).eval Query.exec s).1.records
      ((handle env q).eval Query.exec s).2 := by
  cases q with
  | create body => exact create_outcome body
  | update id body => exact update_outcome id body
  | delete id =>
    exact .deleted _ _ (by simp) (by simp) (deleteRule_shrunk id)
  | deleteGroup id =>
    exact .deleted _ _ (by simp) (by simp) (deleteGroup_shrunk id)

end Outcomes

structure Book where
  database : Database
  validated : Nat → Option RuleParams

def Request.params (r : Records) : Request → Option RuleParams
  | .create (some b) =>
      match b.name, b.eventType, b.notificationGroupID with
      | some name, some eventType, some group => some (b.fresh name eventType group).params
      | _, _, _ => none
  | .update (some id) (some b) => (r.ruleAt id).map fun cur => (b.merged cur).params
  | _ => none

def Book.enter (b : Book) (q : Request) (reply : Reply) : Nat → Option RuleParams :=
  match reply, q with
  | .created id _, .create _ => Function.update b.validated id (q.params b.database.records)
  | .done, .update (some id) _ =>
      Function.update b.validated id.toNat (q.params b.database.records)
  | _, _ => b.validated

def Book.serve (env : Env) (b : Book) (q : Request) : Book :=
  ⟨((handle env q).eval Query.exec b.database).1,
    b.enter q ((handle env q).eval Query.exec b.database).2⟩

def Book.after (env : Env) (b : Book) (qs : List Request) : Book := qs.foldl (Book.serve env) b

structure Kept (env : Env) (r : Records) (validated : Nat → Option RuleParams) (row : StoredRule) :
    Prop where
  valid : ∃ p, validated row.id = some p ∧ validateRuleFull env p = .ok () ∧
    row = p.stored row.notificationGroupID row.enabled row.notifyOnRecovery row.id
  grouped : ∃ g ∈ r.groups.rows, g.id = row.notificationGroupID

section Keeping

variable {env : Env} {r r' : Records} {validated : Nat → Option RuleParams} {row : StoredRule}

theorem Kept.round_trip (h : Kept env r validated row) :
    join (splitCSV row.groupBy) ',' = row.groupBy := by
  obtain ⟨p,-,hp,hrow⟩ := h.valid
  rw [hrow]
  simp only [RuleParams.stored]
  rw [splitCSV_join (validateRuleFull_ok.mp hp).groupBy]

theorem Kept.entered {p : RuleParams} {id : Nat} (hid : row.id ≠ id) (h : Kept env r validated row)
    (hgroups : r'.groups = r.groups) :
    Kept env r' (Function.update validated id (some p)) row := by
  refine ⟨?_,hgroups ▸ h.grouped⟩
  rw [Function.update_of_ne hid]
  exact h.valid

theorem kept_draft {d : Draft} {id : Nat} (hd : d.row id = d.stored id)
    (hvalid : validateRuleFull env d.params = .ok ())
    (hexists : ∃ g ∈ r.groups.rows, g.id = d.notificationGroupID) (hgroups : r'.groups = r.groups) :
    Kept env r' (Function.update validated id (some d.params)) (d.row id) := by
  refine ⟨⟨d.params,Function.update_self id _ _,hvalid,hd⟩,?_⟩
  exact hgroups ▸ hexists

theorem ruleAt_some {id : Int} {cur : StoredRule} (h : r.ruleAt id = some cur) :
    cur ∈ r.store.rules.rows ∧ (cur.id : Int) = id := by
  have hid := List.find?_some h
  exact ⟨List.mem_of_find?_eq_some h,of_decide_eq_true hid⟩

theorem serve_kept (env : Env) {b : Book}
    (h : ∀ row ∈ b.database.records.store.rules.rows, Kept env b.database.records b.validated row)
    (q : Request) : ∀ row ∈ (b.serve env q).database.records.store.rules.rows,
      Kept env (b.serve env q).database.records (b.serve env q).validated row := by
  have houtcome := handle_outcome env b.database q
  simp only [Book.serve]
  generalize ((handle env q).eval Query.exec b.database).1.records = r' at houtcome ⊢
  generalize ((handle env q).eval Query.exec b.database).2 = reply at houtcome ⊢
  cases houtcome with
  | refused status error => exact h
  | created body name eventType group hq hname htype hgroup hvalid hexists =>
    subst hq
    intro row hrow
    simp only [Book.enter,Request.params,hname,htype,hgroup]
    have hinserted : row ∈ (b.database.records.store.rules.insert
        (body.fresh name eventType group).row fun _ => rfl).rows := hrow
    rcases Serial.mem_insert.mp hinserted with hold | rfl
    · exact (h row hold).entered (Nat.ne_of_lt (b.database.records.store.rules.fresh row hold)) rfl
    · exact kept_draft (fresh_stored body name eventType group _) hvalid hexists rfl
  | updated id body cur hq hcur hvalid hexists rules hrules =>
    subst hq hrules
    obtain ⟨hmem,rfl⟩ := ruleAt_some hcur
    intro row hrow
    simp only [Book.enter,Request.params,hcur,Option.map_some,Int.toNat_natCast]
    obtain ⟨old,hold,rfl⟩ := Serial.mem_modify.mp hrow
    split
    · rename_i hsame
      rw [beq_iff_eq.mp hsame]
      exact kept_draft (merged_stored body (h cur hmem).round_trip _) hvalid hexists rfl
    · rename_i hother
      exact (h old hold).entered (fun he => hother (beq_iff_eq.mpr he)) rfl
  | deleted r' reply hcreate hupdate hs =>
    intro row hrow
    have hkept := h row (hs.rules hrow)
    have hbook : b.enter q reply = b.validated := by
      cases q with
      | create body => exact absurd rfl (hcreate body)
      | update id body => exact absurd rfl (hupdate id body)
      | delete id => cases reply <;> rfl
      | deleteGroup id => cases reply <;> rfl
    rw [hbook]
    obtain ⟨g,hg,hid⟩ := hkept.grouped
    exact ⟨hkept.valid,g,hs.groups row hrow g hg hid,hid⟩

theorem after_kept (env : Env) {b : Book}
    (h : ∀ row ∈ b.database.records.store.rules.rows, Kept env b.database.records b.validated row)
    (qs : List Request) : ∀ row ∈ (b.after env qs).database.records.store.rules.rows,
      Kept env (b.after env qs).database.records (b.after env qs).validated row := by
  induction qs generalizing b with
  | nil => exact h
  | cons q qs ih => exact ih (serve_kept env h q)

end Keeping

def StoredRule.params (r : StoredRule) : RuleParams where
  name := r.row.name
  description := r.description
  eventType := r.row.eventType
  severity := r.row.severity
  conditionJSON := r.row.conditionJSON
  channels := r.row.channels.map Channel.text
  cooldownSeconds := r.row.cooldownSeconds
  repeatIntervalSec := r.row.repeatIntervalSec
  maxRepeats := r.row.maxRepeats
  digestMode := r.row.digestMode
  digestIntervalMin := r.row.digestIntervalMin
  groupBy := r.row.groupBy

section ReadBack

variable {env : Env} {p : RuleParams} {group id : Nat} {enabled recovery : Bool}

theorem stored_channels : (p.stored group enabled recovery id).row.channels = keepChannels p.channels :=
  parse_normalizeChannels p.channels

theorem stored_groupBy (hp : p.Acceptable env) :
    (p.stored group enabled recovery id).row.groupBy = p.groupBy := splitCSV_join hp.groupBy

def RuleParams.normal (p : RuleParams) : RuleParams :=
  { p with channels := (keepChannels p.channels).map Channel.text }

theorem stored_params (hp : p.Acceptable env) :
    (p.stored group enabled recovery id).params = p.normal := by
  rw [StoredRule.params,stored_channels,stored_groupBy hp]
  rfl

theorem RuleParams.Acceptable.normal (hp : p.Acceptable env) : p.normal.Acceptable env :=
  { hp with
    channelled := by simpa [RuleParams.normal] using hp.has_channel
    channels := by
      intro c hc
      obtain ⟨ch,-,rfl⟩ := List.mem_map.mp hc
      rw [validChannel,Channel.ofText_text]
      rfl }

end ReadBack

def Database.holding (groups : Table NotificationGroup) (members : List GroupMember)
    (emailGroupID : Option String) (faults : Nat → Option String) : Database where
  records := ⟨⟨Serial.empty,fun _ _ => none⟩,groups,members,emailGroupID⟩
  tick := 0
  faults := faults

end Rules
