import ServerHub.VgBackup.Backed

namespace VgBackup

open Relational Interleave

structure Orderly (env : Env) (pid : Nat) {α : Type} (p : Handler α) (x : Trace) : Prop where
  safe : (backing env).Safe pid (fun _ _ => True) p x

section Rules

variable {env : Env} {pid : Nat} {α β : Type} {x : Trace}

theorem orderly_ret (a : α) : Orderly env pid (.ret a) x := ⟨trivial⟩

theorem orderly_fail (code : Nat) (message : String) : Orderly env pid (fail code message) x :=
  ⟨trivial⟩

theorem orderly_perform {i : Stmt β} {f : β → Handler α}
    (hb : ∀ y, After x y → i.Backed y.state) (hs : ∀ y, Meanwhile pid x y → i.Seen pid y)
    (h : ∀ y z b, Meanwhile pid x y → i.exec pid y.state = some (z.state,b) → After x z →
      z.log = record pid y.log (i.note b) → Orderly env pid (f b) z) :
    Orderly env pid (Prog.perform i >>= f) x := by
  constructor
  intro y hr _ _ z b hx
  obtain ⟨hex,hlog⟩ := exec_history hx
  have hbi : Stmt.Backed y.state i := hb y hr.toAfter
  have hyz : After y z := ⟨hbi.later hex,hlog ▸ suffix_record pid y.log _⟩
  refine ⟨⟨hbi,hs y hr⟩,⟨trivial,?_⟩,(h y z b hr hex (hr.toAfter.trans hyz) hlog).safe⟩
  intro q hq
  exact ⟨hyz,by rw [hlog]; exact own_record pid y.log _ hq⟩

theorem orderly_query_noted {q : Select β} {f : β → Handler α}
    (h : ∀ y z, Meanwhile pid x y → z.state = y.state → After x z →
      z.log = record pid y.log (q.note (q.eval y.state)) →
      Orderly env pid (f (q.eval y.state)) z) : Orderly env pid (query q >>= f) x := by
  refine orderly_perform (fun _ _ => trivial) (fun _ _ => trivial) ?_
  intro y z b hy hx hz hlog
  simp only [Stmt.exec,Option.some.injEq,Prod.mk.injEq] at hx
  obtain ⟨hst,rfl⟩ := hx
  exact h y z hy hst.symm hz hlog

theorem orderly_query {q : Select β} {f : β → Handler α}
    (h : ∀ y, After x y → Orderly env pid (f (q.eval y.state)) y) :
    Orderly env pid (query q >>= f) x := by
  refine orderly_query_noted fun y z _ hst hz _ => ?_
  rw [← hst]
  exact h z hz

theorem orderly_quiet {i : Stmt β} {f : β → Handler α} (hn : ∀ b, i.note b = none)
    (hb : ∀ y, After x y → i.Backed y.state) (hs : ∀ y, Meanwhile pid x y → i.Seen pid y)
    (h : ∀ z b, Meanwhile pid x z → Orderly env pid (f b) z) :
    Orderly env pid (Prog.perform i >>= f) x := by
  refine orderly_perform hb hs ?_
  intro y z b hy _ hz hlog
  refine h z b ⟨hz,?_⟩
  rw [hlog,hn b]
  exact hy.own

theorem orderly_side {w : SideWrite β} {f : β → Handler α}
    (h : ∀ y b, After x y → Orderly env pid (f b) y) : Orderly env pid (writeSide w >>= f) x :=
  orderly_perform (fun _ _ => trivial) (fun _ _ => trivial) fun _ z b _ _ hz _ => h z b hz

theorem orderly_agent {w : AgentWrite β} {f : β → Handler α}
    (h : ∀ y b, After x y → Orderly env pid (f b) y) : Orderly env pid (writeAgent w >>= f) x :=
  orderly_perform (fun _ _ => trivial) (fun _ _ => trivial) fun _ z b _ _ hz _ => h z b hz

theorem orderly_job {w : JobWrite β} {f : β → Handler α}
    (hw : ∀ y, After x y → w.Backed y.state)
    (h : ∀ y b, After x y → Orderly env pid (f b) y) : Orderly env pid (writeJob w >>= f) x :=
  orderly_perform hw (fun _ _ => trivial) fun _ z b _ _ hz _ => h z b hz

theorem orderly_restore {w : RestoreWrite β} {f : β → Handler α} (hw : w.Backed)
    (hs : ∀ y, Meanwhile pid x y → w.Seen pid y)
    (h : ∀ y b, After x y → Orderly env pid (f b) y) :
    Orderly env pid (writeRestore w >>= f) x :=
  orderly_perform (fun _ _ => hw) hs fun _ z b _ _ hz _ => h z b hz

theorem orderly_run {w : RunWrite β} {f : β → Handler α}
    (hw : ∀ y, After x y → w.Backed y.state) (hs : ∀ y, Meanwhile pid x y → w.Seen pid y)
    (h : ∀ y b, After x y → Orderly env pid (f b) y) : Orderly env pid (writeRun w >>= f) x :=
  orderly_perform hw hs fun _ z b _ _ hz _ => h z b hz

theorem orderly_last {i : Stmt α} (hb : ∀ y, After x y → i.Backed y.state)
    (hs : ∀ y, Meanwhile pid x y → i.Seen pid y) : Orderly env pid (Prog.perform i) x := by
  have h : Orderly env pid (Prog.perform i >>= Prog.ret) x :=
    orderly_perform hb hs fun _ _ _ _ _ _ _ => orderly_ret _
  exact h

theorem safe_after {Q : α → Trace → Prop} {p : Handler α} (h : (backing env).Safe pid Q p x) :
    (backing env).Safe pid (fun a y => Q a y ∧ After x y) p x := by
  have hgen : ∀ (p : Handler α) (u : Trace), After x u → (backing env).Safe pid Q p u →
      (backing env).Safe pid (fun a y => Q a y ∧ After x y) p u := by
    intro p
    induction p with
    | ret a => exact fun u hu hq => ⟨hq,hu⟩
    | step i k ih =>
      intro u hu hs y hr hi ha z b hx
      obtain ⟨hd,hk,hn⟩ := hs y hr hi ha z b hx
      have hv : Meanwhile (pid+1) y z := hk.2 (pid+1) (by omega)
      exact ⟨hd,hk,ih b z (hu.trans (hr.toAfter.trans hv.toAfter)) hn⟩
  exact hgen p x (.refl x) h

theorem orderly_bind {p : Handler β} {f : β → Handler α} (hp : Orderly env pid p x)
    (hf : ∀ b y, After x y → Orderly env pid (f b) y) : Orderly env pid (p >>= f) x :=
  ⟨Discipline.Safe.bind (D := backing env) trivial (safe_after hp.safe)
    fun b y _ h => (hf b y h.2).safe⟩

theorem orderly_each {I : α → Trace → Prop} {f : α → Handler Unit} {as : List α}
    (hI : ∀ a y z, After y z → I a y → I a z) (hf : ∀ a y, I a y → Orderly env pid (f a) y)
    (hs : ∀ a ∈ as, I a x) : Orderly env pid (Prog.each f as) x := by
  induction as generalizing x with
  | nil => exact orderly_ret ()
  | cons a as ih =>
    refine orderly_bind (hf a x (hs a (by simp))) ?_
    intro _ y hy
    exact ih fun b hb => hI b x y hy (hs b (by simp [hb]))

structure Quiet (env : Env) (pid : Nat) {α : Type} (p : Handler α) (x : Trace) : Prop where
  safe : (backing env).Safe pid (fun _ y => Meanwhile pid x y) p x

theorem quiet_ret (a : α) : Quiet env pid (.ret a) x := ⟨.refl pid x⟩

theorem quiet_bind {p : Handler β} {f : β → Handler α} (hp : Quiet env pid p x)
    (hf : ∀ b y, Quiet env pid (f b) y) : Quiet env pid (p >>= f) x :=
  ⟨Discipline.Safe.bind (D := backing env) trivial hp.safe fun b y _ h =>
    Discipline.Safe.mono (fun _ _ _ k => h.trans k) trivial (hf b y).safe⟩

theorem quiet_perform {i : Stmt α} (hn : ∀ b, i.note b = none)
    (hb : ∀ y, After x y → i.Backed y.state) (hs : ∀ y, Meanwhile pid x y → i.Seen pid y) :
    Quiet env pid (Prog.perform i) x := by
  constructor
  intro y hr _ _ z b hx
  obtain ⟨hex,hlog⟩ := exec_history hx
  have hbi : Stmt.Backed y.state i := hb y hr.toAfter
  rw [hn b] at hlog
  have hyz : ∀ q, Meanwhile q y z := fun q =>
    ⟨⟨hbi.later hex,hlog ▸ List.suffix_rfl⟩,by rw [hlog]; rfl⟩
  exact ⟨⟨hbi,hs y hr⟩,⟨trivial,fun q _ => hyz q⟩,hr.trans (hyz pid)⟩

theorem quiet_query {q : Select α} (hn : ∀ b, q.note b = none) : Quiet env pid (query q) x :=
  quiet_perform hn (fun _ _ => trivial) fun _ _ => trivial

theorem quiet_side (w : SideWrite α) : Quiet env pid (writeSide w) x :=
  quiet_perform (fun _ => rfl) (fun _ _ => trivial) fun _ _ => trivial

theorem quiet_each {f : α → Handler Unit} (hf : ∀ a y, Quiet env pid (f a) y) (as : List α) :
    Quiet env pid (Prog.each f as) x := by
  induction as generalizing x with
  | nil => exact quiet_ret ()
  | cons a as ih => exact quiet_bind (hf a x) fun _ _ => ih

theorem orderly_bind_quiet {p : Handler β} {f : β → Handler α} (hp : Quiet env pid p x)
    (hf : ∀ b y, Meanwhile pid x y → Orderly env pid (f b) y) : Orderly env pid (p >>= f) x :=
  ⟨Discipline.Safe.bind (D := backing env) trivial hp.safe fun b y _ h => (hf b y h).safe⟩

theorem orderly_of_quiet {p : Handler α} (h : Quiet env pid p x) : Orderly env pid p x :=
  ⟨Discipline.Safe.mono (fun _ _ _ _ => trivial) trivial h.safe⟩

end Rules

def Known (j : VgBackupJob) (s : Store) : Prop :=
  ∃ j', s.jobs.find j.id = some j' ∧ j'.origin = j.origin

theorem known_later {j : VgBackupJob} {s t : Store} (h : s.Later t) (hk : Known j s) :
    Known j t := by
  obtain ⟨j',hf,ho⟩ := hk
  obtain ⟨j'',hf',hl⟩ := h.jobs _ _ hf
  exact ⟨j'',hf',hl.origin.trans ho⟩

theorem known_of_find {s : Store} {id : UUID} {j : VgBackupJob} (h : s.jobs.find id = some j) :
    Known j s := by
  have hid : j.id = id := (Table.find_some h).2
  exact ⟨j,by rw [hid]; exact h,rfl⟩

theorem known_first {s : Store} {id : UUID} {j : VgBackupJob} (h : first s.jobs id = some j) :
    Known j s := known_of_find (first_some h).1

theorem known_loaded {s : Store} {id : UUID} {job : LoadedJob} (h : s.loadJob id = some job) :
    Known job.row s := by
  simp only [Store.loadJob,Option.map_eq_some_iff] at h
  obtain ⟨j,hj,rfl⟩ := h
  exact known_first hj

theorem known_all {s : Store} {job : LoadedJob} (h : job ∈ Select.allJobs.eval s) :
    Known job.row s := by
  simp only [Select.eval,List.mem_map,allWhere,Table.select,List.mem_filter] at h
  obtain ⟨j,⟨hj,-⟩,rfl⟩ := h
  exact known_of_find (Table.find_of_mem hj)

theorem grounded_of_known {j : VgBackupJob} {s : Store} {n : NewRun} (h : Known j s)
    (hid : n.backupJobID = j.id) (ha : n.agentID = j.agentID)
    (ht : n.storageTargetID = j.storageTargetID) (hs : n.sourceType = j.sourceType) :
    Grounded s n := by
  obtain ⟨j',hf,ho⟩ := h
  simp only [VgBackupJob.origin,JobOrigin.mk.injEq] at ho
  obtain ⟨-,-,ho1,ho2,ho3⟩ := ho
  exact ⟨j',by rw [hid]; exact hf,by rw [ha,ho1],by rw [ht,ho2],by rw [hs,ho3]⟩

def Claimed (id : UUID) (s : Store) : Prop :=
  ∃ r, s.runs.find id = some r ∧ r.status ≠ .pending

theorem claimed_later {id : UUID} {s t : Store} (h : s.Later t) (hc : Claimed id s) :
    Claimed id t := by
  obtain ⟨r,hf,hs⟩ := hc
  obtain ⟨r',hf',hl⟩ := h.runs _ _ hf
  exact ⟨r',hf',hl.claimed hs⟩

theorem find_updateRun (s : Store) (w : RunWhere) (p : RunPatch) (id : UUID) :
    (s.updateRun w p).runs.find id =
      (s.runs.find id).map fun r => if w.matches r then p.apply s.clock r else r :=
  Table.find_modify s.runs w.matches (p.apply s.clock) (fun _ => rfl) id

theorem count_pos_find {s : Store} {w : RunWhere} (h : s.runs.count w.matches ≠ 0) :
    ∃ r, s.runs.find w.id = some r ∧ w.matches r = true := by
  have hp : 0 < s.runs.count w.matches := Nat.pos_of_ne_zero h
  obtain ⟨r,hr,hm⟩ := List.countP_pos_iff.mp hp
  have hid : r.id = w.id := (matches_run hm).2.1
  exact ⟨r,hid ▸ Table.find_of_mem hr,hm⟩

section Notes

variable {pid : Nat} {x y z : Trace}

theorem counted_meanwhile {job : UUID} (h : Meanwhile pid x y) (hc : Counted pid job x) :
    Counted pid job y := (lastOwn_congr h.own).trans hc

theorem unrestored_meanwhile {run : UUID} (h : Meanwhile pid x y) (hc : Unrestored pid run x) :
    Unrestored pid run y := (lastOwn_congr h.own).trans hc

theorem found_meanwhile {run : UUID} (h : Meanwhile pid x y) (hc : Found pid run x) :
    Found pid run y := (lastOwn_congr h.own).trans hc

theorem counted_noted {job : UUID} {log : List (Nat × Note)}
    (h : z.log = record pid log (some (.counted job 0))) : Counted pid job z := by
  simp [Counted,h,record,lastOwn,Note.countOf]

theorem unrestored_noted {run : UUID} {log : List (Nat × Note)}
    (h : z.log = record pid log (some (.restores run 0))) : Unrestored pid run z := by
  simp [Unrestored,h,record,lastOwn,Note.restoresOf]

theorem found_noted {run : UUID} {log : List (Nat × Note)}
    (h : z.log = record pid log (some (.found run true))) : Found pid run z := by
  simp [Found,h,record,lastOwn,Note.foundOf]

theorem mem_noted {n : Note} {log : List (Nat × Note)} (h : z.log = record pid log (some n)) :
    (pid,n) ∈ z.log := by
  simp [h,record]

theorem mem_after {e : Nat × Note} (h : After x y) (he : e ∈ x.log) : e ∈ y.log :=
  h.log.subset he

end Notes

end VgBackup
