import Mathlib.Data.List.AList
import ServerHub.Go.Strings
import ServerHub.Interleave.Sequential
import ServerHub.Relational.Table

namespace Notify

open Go Relational Interleave Interleave.Prog

structure NotificationGroup where
  id : Nat
  name : String
deriving DecidableEq

structure NotificationGroupMember where
  id : Nat
  groupID : Nat
  email : String
deriving DecidableEq

structure NotificationRule where
  id : Nat
  notificationGroupID : Nat
deriving DecidableEq

instance : Keyed NotificationGroup := ⟨NotificationGroup.id⟩

instance : Keyed NotificationGroupMember := ⟨NotificationGroupMember.id⟩

instance : Keyed NotificationRule := ⟨NotificationRule.id⟩

def keyEmailGroupID : String := "notify_email_group_id"

def keySmtpTo : String := "notify_smtp_to"

def maxGroupMembers : Nat := 10

structure Store where
  groups : Table NotificationGroup
  members : Table NotificationGroupMember
  rules : Table NotificationRule
  settings : AList fun _ : String => String

def Store.setting (s : Store) (k : String) : String := (s.settings.lookup k).getD ""

section Recipients

-- mail.ParseAddress takes the address
variable (parses : String → Bool)

def normalizeMemberEmail (raw : String) : String :=
  let email := toLower (trimSpace raw)
  if email = "" then "" else if parses email then email else ""

def cleanEmailsFrom : List String → List String → List String
  | _, [] => []
  | seen, raw :: rest =>
      let e := normalizeMemberEmail parses raw
      if e = "" ∨ e ∈ seen then cleanEmailsFrom seen rest else e :: cleanEmailsFrom (e :: seen) rest

def cleanEmails (raw : List String) : List String := cleanEmailsFrom parses [] raw

def Store.emailGroup (s : Store) : Option Int :=
  (atoi (trimSpace (s.setting keyEmailGroupID))).filter fun gid => decide (0 < gid)

def Store.memberEmails (s : Store) (gid : Int) : List String :=
  ((orderBy (fun a b => decide (a.id ≤ b.id))
    (s.members.select fun m => (m.groupID : Int) = gid)).take maxGroupMembers).map
      NotificationGroupMember.email

def Store.legacyRecipients (s : Store) : List String :=
  cleanEmails parses [trimSpace (s.setting keySmtpTo)]

def Store.emailRecipients (s : Store) : List String :=
  match s.emailGroup with
  | some gid =>
      let out := cleanEmails parses (s.memberEmails gid)
      if out ≠ [] then out else s.legacyRecipients parses
  | none => s.legacyRecipients parses

end Recipients

inductive GroupCall : Type → Type where
  | countRules (id : Int) : GroupCall (Option Nat)
  | deleteMembers (id : Int) : GroupCall (Option Unit)
  | deleteGroup (id : Int) : GroupCall (Option Nat)
  | deleteSetting (key : String) : GroupCall (Option Unit)

structure Database where
  store : Store
  faulty : List Bool

def Store.withoutMembers (s : Store) (id : Int) : Store :=
  { s with members := s.members.remove fun m => (m.groupID : Int) = id }

def Store.withoutSetting (s : Store) (k : String) : Store :=
  { s with settings := s.settings.erase k }

-- a deleted group takes its members with it (OnDelete:CASCADE)
def Store.withoutGroup (s : Store) (id : Int) : Store :=
  if s.groups.count (fun g => (g.id : Int) = id) = 0 then s
  else { s.withoutMembers id with groups := s.groups.remove fun g => (g.id : Int) = id }

def Store.exec (s : Store) : {β : Type} → GroupCall β → Store × β
  | _, .countRules id => (s,some (s.rules.count fun r => (r.notificationGroupID : Int) = id))
  | _, .deleteMembers id => (s.withoutMembers id,some ())
  | _, .deleteGroup id => (s.withoutGroup id,some (s.groups.count fun g => (g.id : Int) = id))
  | _, .deleteSetting key => (s.withoutSetting key,some ())

def failed : {β : Type} → GroupCall β → β
  | _, .countRules _ => none
  | _, .deleteMembers _ => none
  | _, .deleteGroup _ => none
  | _, .deleteSetting _ => none

def Database.exec {β : Type} (i : GroupCall β) (d : Database) : Database × β :=
  match d.faulty with
  | true :: rest => (⟨d.store,rest⟩,failed i)
  | _ => (⟨(d.store.exec i).1,d.faulty.tail⟩,(d.store.exec i).2)

structure Reply where
  status : Nat
  error : String
deriving DecidableEq

def delete (param : String) : Prog GroupCall Reply := do
  match atoi param with
  | none => return ⟨400,"invalid id"⟩
  | some id =>
  match ← perform (.countRules id) with
  | none => return ⟨500,"database error"⟩
  | some refs =>
  if 0 < refs then return ⟨409,"group is referenced by notification rules"⟩
  else
  let _ ← perform (.deleteMembers id)
  match ← perform (.deleteGroup id) with
  | none => return ⟨500,"database error"⟩
  | some n =>
  if n = 0 then return ⟨404,"group not found"⟩
  else
  let _ ← perform (.deleteSetting keyEmailGroupID)
  return ⟨200,""⟩

def Database.afterDelete (d : Database) (param : String) : Store :=
  ((delete param).eval (fun i d => d.exec i) d).1.store

variable {parses : String → Bool} {s : Store} {d : Database} {param : String} {id gid : Int}

theorem emailGroup_congr {t : Store}
    (h : t.settings.lookup keyEmailGroupID = s.settings.lookup keyEmailGroupID) :
    t.emailGroup = s.emailGroup := by
  simp only [Store.emailGroup,Store.setting,h]

theorem recipients_congr {t : Store} (hsettings : t.settings = s.settings)
    (hmembers : ∀ gid, s.emailGroup = some gid → t.memberEmails gid = s.memberEmails gid) :
    t.emailRecipients parses = s.emailRecipients parses := by
  have hgroup : t.emailGroup = s.emailGroup := emailGroup_congr (by rw [hsettings])
  have hlegacy : t.legacyRecipients parses = s.legacyRecipients parses := by
    simp only [Store.legacyRecipients,Store.setting,hsettings]
  unfold Store.emailRecipients
  rw [hgroup,hlegacy]
  cases hg : s.emailGroup with
  | none => rfl
  | some gid => simp only [hmembers gid hg]

theorem memberEmails_without (h : gid ≠ id) : (s.withoutMembers id).memberEmails gid = s.memberEmails gid := by
  have hsame : (s.withoutMembers id).members.select (fun m => (m.groupID : Int) = gid) =
      s.members.select fun m => (m.groupID : Int) = gid := by
    simp only [Store.withoutMembers,Table.remove,Table.select,List.filter_filter]
    refine List.filter_congr fun m _ => ?_
    by_cases hm : (m.groupID : Int) = gid
    · simp [hm,h]
    · simp [hm]
  simp only [Store.memberEmails,hsame]

-- deleting members and the group keeps what every other group has
structure Store.KeepsOthers (s t : Store) (id : Int) : Prop where
  members : ∀ m : NotificationGroupMember, (m.groupID : Int) ≠ id →
    (m ∈ t.members.rows ↔ m ∈ s.members.rows)
  rules : t.rules = s.rules
  groups : ∀ g : NotificationGroup, (g.id : Int) ≠ id → (g ∈ t.groups.rows ↔ g ∈ s.groups.rows)

theorem keepsOthers_refl (s : Store) (id : Int) : s.KeepsOthers s id :=
  ⟨fun _ _ => Iff.rfl,rfl,fun _ _ => Iff.rfl⟩

theorem Store.KeepsOthers.trans {a b c : Store} (h : a.KeepsOthers b id) (k : b.KeepsOthers c id) :
    a.KeepsOthers c id :=
  ⟨fun m hm => (k.members m hm).trans (h.members m hm),k.rules.trans h.rules,
    fun g hg => (k.groups g hg).trans (h.groups g hg)⟩

theorem keepsOthers_members (s : Store) (id : Int) : s.KeepsOthers (s.withoutMembers id) id :=
  ⟨fun m hm => by simp [Store.withoutMembers,Table.mem_remove,hm],rfl,fun _ _ => Iff.rfl⟩

theorem keepsOthers_group (s : Store) (id : Int) : s.KeepsOthers (s.withoutGroup id) id := by
  unfold Store.withoutGroup
  split
  · exact keepsOthers_refl s id
  · have hmembers := keepsOthers_members s id
    exact ⟨hmembers.members,rfl,fun g hg => by simp [Table.mem_remove,hg]⟩

theorem keepsOthers_setting (s : Store) (k : String) (id : Int) :
    s.KeepsOthers (s.withoutSetting k) id := ⟨fun _ _ => Iff.rfl,rfl,fun _ _ => Iff.rfl⟩

theorem recipients_members (h : s.emailGroup ≠ some id) :
    (s.withoutMembers id).emailRecipients parses = s.emailRecipients parses :=
  recipients_congr rfl fun _ hgid => memberEmails_without fun he => h (he ▸ hgid)

theorem recipients_group (h : s.emailGroup ≠ some id) :
    (s.withoutGroup id).emailRecipients parses = s.emailRecipients parses := by
  unfold Store.withoutGroup
  split
  · rfl
  · exact recipients_congr rfl fun _ hgid => memberEmails_without fun he => h (he ▸ hgid)

theorem recipients_setting (s : Store) :
    (s.withoutSetting keyEmailGroupID).emailRecipients parses = s.legacyRecipients parses := by
  have hgone : (s.withoutSetting keyEmailGroupID).setting keyEmailGroupID = "" := by
    simp [Store.setting,Store.withoutSetting]
  have hgroup : (s.withoutSetting keyEmailGroupID).emailGroup = none := by
    rw [Store.emailGroup,hgone]
    decide
  have hother : (s.withoutSetting keyEmailGroupID).setting keySmtpTo = s.setting keySmtpTo := by
    simp only [Store.setting,Store.withoutSetting]
    rw [AList.lookup_erase_ne (by decide)]
  simp only [Store.emailRecipients,hgroup,Store.legacyRecipients,hother]

section Deletion

def Database.sound (d : Database) (n : Nat) : Prop := d.faulty[n]? ≠ some true

instance (d : Database) (n : Nat) : Decidable (d.sound n) :=
  inferInstanceAs (Decidable (d.faulty[n]? ≠ some true))

-- the request gets as far as the settings: an unreferenced group that exists is deleted
structure Database.Deletes (d : Database) (id : Int) : Prop where
  counted : d.sound 0
  unreferenced : d.store.rules.count (fun r => (r.notificationGroupID : Int) = id) = 0
  deleted : d.sound 2
  existed : d.store.groups.count (fun g => (g.id : Int) = id) ≠ 0
  cleaned : d.sound 3

theorem exec_sound {β : Type} (i : GroupCall β) (h : d.sound 0) :
    d.exec i = (⟨(d.store.exec i).1,d.faulty.tail⟩,(d.store.exec i).2) := by
  unfold Database.exec
  unfold Database.sound at h
  split
  · rename_i rest heq
    exact absurd (by rw [heq]; rfl) h
  · rfl

theorem exec_faulty {β : Type} (i : GroupCall β) (h : ¬d.sound 0) :
    d.exec i = (⟨d.store,d.faulty.tail⟩,failed i) := by
  unfold Database.exec
  unfold Database.sound at h
  split
  · rename_i rest heq
    rw [heq]
    rfl
  · rename_i hnone
    cases hf : d.faulty with
    | nil => simp [hf] at h
    | cons b rest =>
      obtain rfl : b = true := by simpa [hf] using h
      exact absurd hf (hnone rest)

theorem sound_tail (s : Store) (n : Nat) :
    (⟨s,d.faulty.tail⟩ : Database).sound n ↔ d.sound (n + 1) := by
  simp only [Database.sound,List.getElem?_tail]

-- up to the settings a deletion touches nothing of another group
structure Store.Contained (parses : String → Bool) (s t : Store) (id : Int) : Prop where
  others : s.KeepsOthers t id
  recipients : s.emailGroup ≠ some id → t.emailRecipients parses = s.emailRecipients parses
  legacy : t.legacyRecipients parses = s.legacyRecipients parses
  pointer : t.emailGroup = s.emailGroup

theorem contained_refl (parses : String → Bool) (s : Store) (id : Int) : s.Contained parses s id :=
  ⟨keepsOthers_refl s id,fun _ => rfl,rfl,rfl⟩

theorem Store.Contained.trans {a b c : Store} (h : a.Contained parses b id)
    (k : b.Contained parses c id) : a.Contained parses c id where
  others := h.others.trans k.others
  recipients := fun hne =>
    (k.recipients (by rwa [h.pointer])).trans (h.recipients hne)
  legacy := k.legacy.trans h.legacy
  pointer := k.pointer.trans h.pointer

theorem contained_members (parses : String → Bool) (s : Store) (id : Int) :
    s.Contained parses (s.withoutMembers id) id :=
  ⟨keepsOthers_members s id,recipients_members,rfl,rfl⟩

theorem contained_group (parses : String → Bool) (s : Store) (id : Int) :
    s.Contained parses (s.withoutGroup id) id := by
  have hsettings : (s.withoutGroup id).settings = s.settings := by
    unfold Store.withoutGroup
    split <;> rfl
  refine ⟨keepsOthers_group s id,recipients_group,?_,emailGroup_congr (by rw [hsettings])⟩
  simp only [Store.legacyRecipients,Store.setting,hsettings]

theorem withoutMembers_groups (s : Store) (id : Int) : (s.withoutMembers id).groups = s.groups := rfl

theorem afterDelete_cases (parses : String → Bool) (hid : atoi param = some id) :
    ∃ t, d.store.Contained parses t id ∧
      (d.Deletes id ∧ d.afterDelete param = t.withoutSetting keyEmailGroupID ∨
        ¬d.Deletes id ∧ d.afterDelete param = t) := by
  unfold Database.afterDelete delete
  rw [hid]
  simp only [eval_perform_bind]
  by_cases h0 : d.sound 0
  · rw [exec_sound _ h0]
    by_cases hrefs : d.store.rules.count (fun r => (r.notificationGroupID : Int) = id) = 0
    · simp only [Store.exec,hrefs,Nat.lt_irrefl,if_false,eval_perform_bind]
      -- the members go, or the statement fails and its error is ignored
      have hmembers : ∃ t r, d.store.Contained parses t id ∧ t.groups = d.store.groups ∧
          (⟨d.store,d.faulty.tail⟩ : Database).exec (.deleteMembers id) =
            (⟨t,d.faulty.tail.tail⟩,r) := by
        by_cases h1 : (⟨d.store,d.faulty.tail⟩ : Database).sound 0
        · exact ⟨_,_,contained_members parses d.store id,withoutMembers_groups d.store id,
            exec_sound (.deleteMembers id) h1⟩
        · exact ⟨_,_,contained_refl parses d.store id,rfl,exec_faulty (.deleteMembers id) h1⟩
      obtain ⟨t,r,ht,hgroups,hexec⟩ := hmembers
      rw [hexec]
      have h2 : (⟨t,d.faulty.tail.tail⟩ : Database).sound 0 ↔ d.sound 2 :=
        (sound_tail (d := ⟨d.store,d.faulty.tail⟩) t 0).trans (sound_tail d.store 1)
      by_cases hdel : d.sound 2
      · rw [exec_sound _ (h2.mpr hdel)]
        simp only [Store.exec]
        by_cases hnone : d.store.groups.count (fun g => (g.id : Int) = id) = 0
        · have hcount : t.groups.count (fun g => (g.id : Int) = id) = 0 := by rw [hgroups,hnone]
          rw [if_pos hcount]
          have hsame : t.withoutGroup id = t := if_pos hcount
          exact ⟨t,ht,.inr ⟨fun hd => hd.existed hnone,hsame⟩⟩
        · have hcount : t.groups.count (fun g => (g.id : Int) = id) ≠ 0 := by rwa [hgroups]
          rw [if_neg hcount]
          simp only [eval_perform_bind]
          have h3 : (⟨t.withoutGroup id,d.faulty.tail.tail.tail⟩ : Database).sound 0 ↔ d.sound 3 :=
            ((sound_tail (d := ⟨t,d.faulty.tail.tail⟩) _ 0).trans
              (sound_tail (d := ⟨d.store,d.faulty.tail⟩) t 1)).trans (sound_tail d.store 2)
          have hgone := ht.trans (contained_group parses t id)
          by_cases hset : d.sound 3
          · refine ⟨_,hgone,.inl ⟨⟨h0,hrefs,hdel,hnone,hset⟩,?_⟩⟩
            rw [exec_sound _ (h3.mpr hset)]
            rfl
          · refine ⟨_,hgone,.inr ⟨fun hd => hset hd.cleaned,?_⟩⟩
            rw [exec_faulty _ (fun hs => hset (h3.mp hs))]
            rfl
      · rw [exec_faulty _ (fun hs => hdel (h2.mp hs))]
        exact ⟨t,ht,.inr ⟨fun hd => hdel hd.deleted,rfl⟩⟩
    · simp only [Store.exec,if_pos (Nat.pos_of_ne_zero hrefs)]
      exact ⟨d.store,contained_refl parses d.store id,.inr ⟨fun hd => hrefs hd.unreferenced,rfl⟩⟩
  · rw [exec_faulty _ h0]
    exact ⟨d.store,contained_refl parses d.store id,.inr ⟨fun hd => h0 hd.counted,rfl⟩⟩

end Deletion

-- deleting a group that is not the default keeps the recipients, deleting the default the others
def OnlyThatGroup (parses : String → Bool) (d : Database) (param : String) : Prop :=
  ∀ id, atoi param = some id →
    (d.store.emailGroup ≠ some id →
      (d.afterDelete param).emailRecipients parses = d.store.emailRecipients parses) ∧
    (d.store.emailGroup = some id → d.store.KeepsOthers (d.afterDelete param) id)

def DefaultSpared (parses : String → Bool) (d : Database) (param : String) : Prop :=
  ∀ id gid, atoi param = some id → d.Deletes id → d.store.emailGroup = some gid → gid ≠ id →
    cleanEmails parses (d.store.memberEmails gid) = [] ∨
      cleanEmails parses (d.store.memberEmails gid) = d.store.legacyRecipients parses

theorem deletion_contained_iff (parses : String → Bool) (d : Database) (param : String) :
    OnlyThatGroup parses d param ↔ DefaultSpared parses d param := by
  constructor
  · intro honly id gid hid hdeletes hgid hne
    obtain ⟨t,ht,⟨-,hafter⟩ | ⟨hnot,-⟩⟩ := afterDelete_cases parses (d := d) hid
    · have hsame := (honly id hid).1 (by rw [hgid]; exact fun he => hne (Option.some.inj he))
      rw [hafter,recipients_setting,ht.legacy,Store.emailRecipients,hgid] at hsame
      dsimp only at hsame
      split at hsame
      · exact .inr hsame.symm
      · rename_i hempty
        exact .inl (not_not.mp hempty)
    · exact absurd hdeletes hnot
  · intro hspared id hid
    obtain ⟨t,ht,⟨hdeletes,hafter⟩ | ⟨-,hafter⟩⟩ := afterDelete_cases parses (d := d) hid
    · rw [hafter]
      refine ⟨fun hne => ?_,fun _ => ht.others.trans (keepsOthers_setting t _ id)⟩
      rw [recipients_setting,ht.legacy,Store.emailRecipients]
      cases hg : d.store.emailGroup with
      | none => rfl
      | some gid =>
        have hcase := hspared id gid hid hdeletes hg fun he => hne (he ▸ hg)
        dsimp only
        rcases hcase with hempty | hequal
        · rw [if_neg (not_not.mpr hempty)]
        · rw [hequal,ite_self]
    · rw [hafter]
      exact ⟨ht.recipients,fun _ => ht.others⟩

def twoGroups : Store where
  groups := ⟨[⟨1,"ops"⟩,⟨2,"dev"⟩],by decide⟩
  members := ⟨[⟨1,1,"a@x"⟩,⟨2,2,"b@x"⟩],by decide⟩
  rules := ⟨[],by decide⟩
  settings := (∅ : AList fun _ : String => String).insert keyEmailGroupID "1"

theorem other_group_stops_mail : ¬∀ (parses : String → Bool) (d : Database) (param : String),
    OnlyThatGroup parses d param := by
  intro h
  have hsame := (h (fun _ => true) ⟨twoGroups,[]⟩ "2" 2 (by decide)).1 (by decide)
  revert hsame
  decide

end Notify
