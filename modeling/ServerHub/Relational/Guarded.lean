import Mathlib.Data.List.Infix
import Mathlib.Logic.Function.Basic

namespace Relational

-- the changes of a row that the triggers of its table refuse at a time
structure Guard (α : Type) where
  update : Int → α → Bool
  delete : Int → α → Bool

inductive Statement (α : Type) where
  | insert (rows : List α)
  | update (p : α → Bool) (f : α → α)
  | delete (p : α → Bool)

-- a statement that a trigger refuses for one row changes none
def Guard.execute {α : Type} (g : Guard α) (now : Int) (rows : List α) : Statement α → Option (List α)
  | .insert new => some (rows ++ new)
  | .update p f =>
      if rows.any fun r => p r && g.update now r then none
      else some (rows.map fun r => if p r then f r else r)
  | .delete p =>
      if rows.any fun r => p r && g.delete now r then none
      else some (rows.filter fun r => !p r)

structure Transaction (κ α : Type) where
  begun : Int
  statements : List (κ × Statement α)

section Execute

variable {α : Type} {g : Guard α} {now : Int} {rows new : List α} {stmt : Statement α}

theorem execute_update {p : α → Bool} {f : α → α} (h : g.execute now rows (.update p f) = some new) :
    (∀ r ∈ rows, p r = true → g.update now r = false) ∧ new = rows.map fun r => if p r then f r else r := by
  simp only [Guard.execute] at h
  split at h
  · cases h
  · rename_i hany
    refine ⟨fun r hr hp => ?_,(Option.some.inj h).symm⟩
    by_contra hg
    exact hany (List.any_eq_true.mpr ⟨r,hr,by simp [hp,hg]⟩)

theorem execute_delete {p : α → Bool} (h : g.execute now rows (.delete p) = some new) :
    (∀ r ∈ rows, p r = true → g.delete now r = false) ∧ new = rows.filter fun r => !p r := by
  simp only [Guard.execute] at h
  split at h
  · cases h
  · rename_i hany
    refine ⟨fun r hr hp => ?_,(Option.some.inj h).symm⟩
    by_contra hg
    exact hany (List.any_eq_true.mpr ⟨r,hr,by simp [hp,hg]⟩)

theorem execute_kept {r : α} (hupdate : g.update now r = true) (hdelete : g.delete now r = true)
    (hr : r ∈ rows) (h : g.execute now rows stmt = some new) : r ∈ new := by
  cases stmt with
  | insert added =>
    obtain rfl := Option.some.inj h
    exact List.mem_append_left _ hr
  | update p f =>
    obtain ⟨hp,rfl⟩ := execute_update h
    cases hpr : p r with
    | true => cases hupdate.symm.trans (hp r hr hpr)
    | false => exact List.mem_map.mpr ⟨r,hr,by simp [hpr]⟩
  | delete p =>
    obtain ⟨hp,rfl⟩ := execute_delete h
    cases hpr : p r with
    | true => cases hdelete.symm.trans (hp r hr hpr)
    | false => exact List.mem_filter.mpr ⟨hr,by simp [hpr]⟩

theorem execute_unwritten (hupdate : ∀ r, g.update now r = true) {r : α} (hr : r ∈ new)
    (h : g.execute now rows stmt = some new) : r ∈ rows ∨ ∃ added, stmt = .insert added ∧ r ∈ added := by
  cases stmt with
  | insert added =>
    obtain rfl := Option.some.inj h
    exact (List.mem_append.mp hr).imp_right fun hin => ⟨added,rfl,hin⟩
  | update p f =>
    obtain ⟨hp,rfl⟩ := execute_update h
    obtain ⟨a,ha,rfl⟩ := List.mem_map.mp hr
    cases hpa : p a with
    | true => cases (hupdate a).symm.trans (hp a ha hpa)
    | false => exact .inl (by simpa using ha)
  | delete p =>
    obtain ⟨-,rfl⟩ := execute_delete h
    exact .inl (List.mem_filter.mp hr).1

theorem execute_grows {κ : Type} {key : α → κ} (hdelete : ∀ r, g.delete now r = true)
    (hkey : ∀ p f, stmt = .update p f → ∀ r, g.update now r = false → key (f r) = key r)
    (h : g.execute now rows stmt = some new) : rows.map key <+: new.map key := by
  cases stmt with
  | insert added =>
    obtain rfl := Option.some.inj h
    rw [List.map_append]
    exact List.prefix_append _ _
  | update p f =>
    obtain ⟨hp,rfl⟩ := execute_update h
    have hsame : (rows.map fun r => if p r then f r else r).map key = rows.map key := by
      rw [List.map_map]
      refine List.map_congr_left fun r hr => ?_
      show key (if p r = true then f r else r) = key r
      split
      · exact hkey p f rfl r (hp r hr ‹_›)
      · rfl
    rw [hsame]
  | delete p =>
    obtain ⟨hp,rfl⟩ := execute_delete h
    have hall : rows.filter (fun r => !p r) = rows := by
      refine List.filter_eq_self.mpr fun r hr => ?_
      cases hpr : p r with
      | true => cases (hdelete r).symm.trans (hp r hr hpr)
      | false => rfl
    rw [hall]

end Execute

section Replay

variable {κ α : Type} [DecidableEq κ] (g : κ → Guard α)

def attempt (now : Int) : List (κ × Statement α) → (κ → List α) → Option (κ → List α)
  | [], db => some db
  | (k,stmt) :: rest, db =>
      ((g k).execute now (db k) stmt).bind fun rows => attempt now rest (Function.update db k rows)

-- a transaction takes effect as a whole or not at all
def Transaction.commit (t : Transaction κ α) (db : κ → List α) : κ → List α :=
  (attempt g t.begun t.statements db).getD db

def replay (ts : List (Transaction κ α)) (db : κ → List α) : κ → List α :=
  ts.foldl (fun db t => t.commit g db) db

variable {g} {k : κ} {P : List α → List α → Prop} (hrefl : ∀ rows, P rows rows)
  (htrans : ∀ rows mid new, P rows mid → P mid new → P rows new)

include hrefl htrans

theorem attempt_keeps {now : Int} {stmts : List (κ × Statement α)} {db db' : κ → List α}
    (hstep : ∀ stmt, (k,stmt) ∈ stmts → ∀ rows new, (g k).execute now rows stmt = some new → P rows new)
    (h : attempt g now stmts db = some db') : P (db k) (db' k) := by
  induction stmts generalizing db with
  | nil =>
    obtain rfl := Option.some.inj h
    exact hrefl _
  | cons first stmts ih =>
    obtain ⟨j,stmt⟩ := first
    obtain ⟨rows,hrows,hrest⟩ := Option.bind_eq_some_iff.mp h
    have hlater := ih (fun stmt hin => hstep stmt (List.mem_cons_of_mem _ hin)) hrest
    by_cases hk : k = j
    · subst hk
      rw [Function.update_self] at hlater
      exact htrans _ _ _ (hstep stmt List.mem_cons_self _ _ hrows) hlater
    · rwa [Function.update_of_ne hk] at hlater

theorem replay_keeps {ts : List (Transaction κ α)} (db : κ → List α)
    (hstep : ∀ t ∈ ts, ∀ stmt, (k,stmt) ∈ t.statements → ∀ rows new,
      (g k).execute t.begun rows stmt = some new → P rows new) :
    P (db k) (replay g ts db k) := by
  induction ts generalizing db with
  | nil => exact hrefl _
  | cons t ts ih =>
    have hlater := ih (t.commit g db) fun t ht => hstep t (List.mem_cons_of_mem _ ht)
    refine htrans _ _ _ ?_ hlater
    unfold Transaction.commit
    cases hattempt : attempt g t.begun t.statements db with
    | none => exact hrefl _
    | some db' => exact attempt_keeps hrefl htrans (hstep t List.mem_cons_self) hattempt

end Replay

end Relational
