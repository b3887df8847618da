import ServerHub.VgBackup.Issued

namespace VgBackup

open Relational Interleave

abbrev UpdateRule := Store → RunWhere → RunPatch → Prop

def RunWrite.OnUpdate (P : RunWhere → RunPatch → Prop) : {β : Type} → RunWrite β → Prop
  | _, .update w p => P w p
  | _, _ => True

def Stmt.OnUpdate (P : RunWhere → RunPatch → Prop) {β : Type} : Stmt β → Prop
  | .run w => w.OnUpdate P
  | _ => True

instance writeOnUpdateDecidable (P : RunWhere → RunPatch → Prop) [h : ∀ w p, Decidable (P w p)] :
    {β : Type} → (w : RunWrite β) → Decidable (w.OnUpdate P)
  | _, .update w p => h w p
  | _, .insert _ _ | _, .delete _ | _, .lock _ | _, .insertCommit _ | _, .commit => isTrue trivial

instance onUpdateDecidable (P : RunWhere → RunPatch → Prop) [∀ w p, Decidable (P w p)]
    {β : Type} : (i : Stmt β) → Decidable (i.OnUpdate P)
  | .run w => writeOnUpdateDecidable P w
  | .select _ | .restore _ | .job _ | .side _ | .agent _ => isTrue trivial

def Updating (P : UpdateRule) {env : Env} (w : World (system env)) (e : Event (system env)) :
    Prop :=
  Issue (fun s _ i => i.OnUpdate (P s)) w e

instance updatingDecidable (P : UpdateRule) [h : ∀ s w p, Decidable (P s w p)] {env : Env}
    (w : World (system env)) (e : Event (system env)) : Decidable (Updating P w e) :=
  @landingDecidable (system env) (fun _ s _ i => Stmt.OnUpdate (P s) i)
    (fun _ s _ i => @onUpdateDecidable (P s) (h s) _ i) w e

inductive RunMove (P : UpdateRule) (s : Store) : Table VgBackupRun → Prop
  | quiet : RunMove P s s.runs
  | update (w : RunWhere) (p : RunPatch) (hb : RunBacked s w p) (hp : P s w p) :
      RunMove P s (s.updateRun w p).runs
  | create (n : NewRun) (hg : Grounded s n) : RunMove P s (s.addRun n).runs
  | delete (id : UUID) : RunMove P s (s.deleteRun id).runs

inductive RowMove (P : UpdateRule) (s : Store) (r : VgBackupRun) : VgBackupRun → Prop
  | same : RowMove P s r r
  | update (w : RunWhere) (p : RunPatch) (hb : RunBacked s w p) (hp : P s w p)
      (hm : w.matches r = true) : RowMove P s r (p.apply s.clock r)
  | delete : RowMove P s r (erased s.clock r)

variable {P : UpdateRule}

theorem runMove_insertRun {s : Store} {n : NewRun} (hg : Grounded s n) (b : Bool) :
    RunMove P s (s.insertRun n b).1.runs := by
  rcases insertRun_cases s n b with ⟨h,-⟩ | ⟨-,-,h⟩
  · rw [h]
    exact .quiet
  · rw [h]
    exact .create n hg

theorem runMove_write {s t : Store} {pid : Nat} {β : Type} {w : RunWrite β} {b : β}
    (hb : w.Backed s) (hp : w.OnUpdate (P s)) (hx : w.exec pid s = some (t,b)) :
    RunMove P s t.runs := by
  cases run_effect hx with
  | update w p => exact .update w p hb hp
  | insert n c => exact runMove_insertRun hb.1 c
  | delete id => exact .delete id
  | lock id l r => exact .quiet
  | insertCommit n => exact runMove_insertRun hb false
  | commit => exact .quiet

theorem runMove_exec {s t : Store} {pid : Nat} {β : Type} {i : Stmt β} {b : β}
    (hb : i.Backed s) (hp : i.OnUpdate (P s)) (hx : i.exec pid s = some (t,b)) :
    RunMove P s t.runs := by
  cases stmt_effect hx with
  | select q => exact .quiet
  | run he hw => exact runMove_write hb hp hw
  | restore w => exact runs_restore s w ▸ .quiet
  | job w => exact runs_job s w ▸ .quiet
  | side w => exact runs_side s w ▸ .quiet
  | agent hx => exact runs_agent hx ▸ .quiet

theorem find_addRun {s : Store} {n : NewRun} {id : UUID} {x : VgBackupRun}
    (h : (s.addRun n).runs.find id = some x) :
    s.runs.find id = some x ∨ (s.runs.find id = none ∧ x = n.row s.nextID s.clock) := by
  cases hk : s.runs.find id with
  | some r =>
    have he : (s.addRun n).runs.find id = some r := Table.find_insert_of_some hk
    rw [h,Option.some.injEq] at he
    exact .inl (by rw [he])
  | none =>
    obtain ⟨hm,hid⟩ := Table.find_some h
    rcases Table.mem_insert hm with hold | rfl
    · have hf : s.runs.find (key x) = some x := Table.find_of_mem hold
      rw [hid,hk] at hf
      simp at hf
    · exact .inr ⟨rfl,rfl⟩

theorem row_cases {s : Store} {t : Table VgBackupRun} (h : RunMove P s t) {id : UUID}
    {r' : VgBackupRun} (hf : t.find id = some r') :
    (∃ r, s.runs.find id = some r ∧ RowMove P s r r') ∨
    (s.runs.find id = none ∧ ∃ n, Grounded s n ∧ r' = n.row s.nextID s.clock) := by
  cases h with
  | quiet => exact .inl ⟨r',hf,.same⟩
  | update w p hb hp =>
    rw [find_updateRun,Option.map_eq_some_iff] at hf
    obtain ⟨r,hr,rfl⟩ := hf
    refine .inl ⟨r,hr,?_⟩
    split
    · rename_i hm
      exact .update w p hb hp hm
    · exact .same
  | create n hg =>
    rcases find_addRun hf with hold | ⟨hnone,rfl⟩
    · exact .inl ⟨r',hold,.same⟩
    · exact .inr ⟨hnone,n,hg,rfl⟩
  | delete id' =>
    simp only [Store.deleteRun,softDelete] at hf
    rw [Table.find_modify,Option.map_eq_some_iff] at hf
    obtain ⟨r,hr,rfl⟩ := hf
    refine .inl ⟨r,hr,?_⟩
    split
    · exact .delete
    · exact .same

theorem RowMove.origin {s : Store} {r r' : VgBackupRun} (h : RowMove P s r r') :
    r'.origin = r.origin := by
  cases h <;> rfl

def Moved (P : UpdateRule) (s t : Store) : Prop := s.Later t ∧ RunMove P s t.runs

theorem moved_row {s t : Store} (h : Moved P s t) {id : UUID} {r : VgBackupRun}
    (hf : s.runs.find id = some r) :
    ∃ r', t.runs.find id = some r' ∧ r.Later r' ∧ RowMove P s r r' := by
  obtain ⟨r',hr',hl⟩ := h.1.runs id r hf
  rcases row_cases h.2 hr' with ⟨a,ha,hm⟩ | ⟨hn,-⟩
  · rw [hf,Option.some.injEq] at ha
    exact ⟨r',hr',hl,ha ▸ hm⟩
  · rw [hf] at hn
    simp at hn

theorem changes_moved {env : Env} {w : World (system env)} {e : Event (system env)}
    (hb : Issue Stmt.Backed w e) (hp : Updating P w e) :
    Changes (S := system env) (Moved P) w e := by
  refine changes_of_landing (fun s => ⟨.refl s,.quiet⟩) ?_ ?_
  · intro now s t h
    have hr : t.runs = s.runs := by
      simp only [system,advance] at h
      split at h
      · exact (Option.some.inj h) ▸ rfl
      · simp at h
    exact ⟨later_advance h,hr ▸ .quiet⟩
  · intro pid he β i k t b hpool hx
    subst he
    have hbi : Stmt.Backed w.state i := hb β i k hpool t b hx
    have hpi : Stmt.OnUpdate (P w.state) i := hp β i k hpool t b hx
    exact ⟨hbi.later hx,runMove_exec hbi hpi hx⟩

theorem along_moved {env : Env} {s : Store} {es : List (Event (system env))}
    (hp : Along (Updating P) (World.idle s) es) :
    Along (Changes (S := system env) (Moved P)) (World.idle s) es := by
  have h := along_and (issued_backed env s es) hp
  exact along_imp (fun w e hc => changes_moved hc.1 hc.2) h

theorem updating_of_changes {env : Env} {Q : Store → Store → Prop} {P : UpdateRule}
    (h : ∀ s w p, Q s (s.updateRun w p) → P s w p) {w : World (system env)}
    {e : Event (system env)} (hc : Changes (S := system env) Q w e) : Updating P w e := by
  cases e with
  | start pid r => trivial
  | env now => trivial
  | act pid =>
    intro β i k hp u b hx
    have hq : Q w.state u := by
      refine hc ⟨u,Function.update w.pool pid (some (k b))⟩ ?_
      simp [World.step,hp,hx]
    cases i with
    | run rw =>
      cases rw with
      | update c p =>
        have hx' : (RunWrite.update c p).exec pid w.state = some (u,b) := hx
        obtain ⟨rfl,-,-⟩ := update_exec hx'
        exact h _ c p hq
      | _ => trivial
    | _ => trivial

end VgBackup
