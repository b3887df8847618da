import ServerHub.Interleave.Contract
import ServerHub.VgBackup.StatusMachine

namespace VgBackup

open Relational Interleave

section Noted

variable {N α β : Type} {env : Env} {note : (β : Type) → Stmt β → β → Option N}
  {R : Regime ((system env).watch note)} {I : {β : Type} → Stmt β → Prop} {pid : Nat}
  {Q : α → Traced Store N → Prop} {x y : Traced Store N}

theorem exec_noted {i : Stmt β} {b : β} (h : ((system env).watch note).exec pid i x = some (y,b)) :
    i.exec pid x.state = some (y.state,b) ∧ y.log = record pid x.log (note β i b) :=
  exec_watch (S := system env) h

theorem clock_noted {now : Time} (h : ((system env).watch note).env now x = some y) :
    y.state = { x.state with clock := now } ∧ y.log = x.log := by
  obtain ⟨ht,hlog⟩ := env_watch (S := system env) h
  exact ⟨(advance_eq ht).2,hlog⟩

theorem ensures_select (hR : R.Closed I) {q : Select β} {f : β → Handler α}
    (hi : I (.select q)) (hn : ∀ b, note β (.select q) b = none)
    (h : ∀ y, R.Kept x y → R.Ensures pid Q (f (q.eval y.state)) y) :
    R.Ensures pid Q (query q >>= f) x := by
  refine Regime.ensures_perform hR hi ?_
  intro y z b hy _ hx _
  obtain ⟨hex,hlog⟩ := exec_noted hx
  obtain ⟨hst,rfl⟩ := Prod.mk.inj (Option.some.inj hex)
  rw [hn] at hlog
  obtain ⟨s,log⟩ := z
  obtain ⟨s',log'⟩ := y
  obtain rfl : s' = s := hst
  obtain rfl : log = log' := hlog
  exact h _ hy

variable {P : Reply → Traced Store N → Prop}

theorem ensures_fail {code other : Nat} {message : String} (h : code ≠ other) :
    R.Ensures pid (fun r y => r.code = other → P r y) (fail code message) x :=
  fun e => absurd e h

theorem ensures_answered {p : Handler Reply} {code : Nat} (hx : R.Inv x)
    (h : R.Ensures pid (fun r y => r.code = code → P r y) p x) :
    R.Ensures pid (fun a y => ∀ body, a = some ⟨code,body⟩ → P ⟨code,body⟩ y) (answered p) x := by
  refine Regime.ensures_bind hx h ?_
  intro r y _ hr body he
  obtain rfl := Option.some.inj he
  exact hr rfl

theorem ensures_unasked (hR : R.Closed I) {p : Handler Reply} (hp : p.Uses I) :
    R.Ensures pid (fun _ _ => True) (answered p) x := by
  have huses : (answered p).Uses I := Prog.uses_bind hp fun _ => trivial
  have hends : (answered p).Ends fun _ => ∀ _ : Traced Store N, True :=
    Prog.ends_bind fun _ _ => trivial
  exact Regime.ensures_uses hR huses hends x

end Noted

section Plain

variable {α β : Type} {env : Env} {R : Regime (system env)} {I : {β : Type} → Stmt β → Prop}
  {pid : Nat} {s : Store}

theorem ensures_query (hR : R.Closed I) {q : Select β} {f : β → Handler α}
    {Q : α → Store → Prop} (hi : I (.select q))
    (h : ∀ t, R.Kept s t → R.Ensures pid Q (f (q.eval t)) t) :
    R.Ensures pid Q (query q >>= f) s := by
  refine Regime.ensures_perform hR hi ?_
  intro t u b ht _ hx _
  obtain ⟨rfl,rfl⟩ := Prod.mk.inj (Option.some.inj hx)
  exact h t ht

theorem ensures_reply {p : Handler Reply} {Q : Reply → Store → Prop} (hs : R.Inv s)
    (h : R.Ensures pid Q p s) :
    R.Ensures pid (fun a t => ∀ r, a = some r → Q r t) (answered p) s := by
  refine Regime.ensures_bind hs h ?_
  intro r t _ hr r' he
  obtain rfl := Option.some.inj he
  exact hr

end Plain

def replyOf {env : Env} (w : World (system env)) (pid : Nat) : Option Reply :=
  match w.pool pid with
  | some (.ret a) => a
  | _ => none

theorem replyOf_eq {env : Env} {w : World (system env)} {pid : Nat} {r : Reply}
    (h : replyOf w pid = some r) : w.pool pid = some (.ret (some r)) := by
  cases hp : w.pool pid with
  | none => simp [replyOf,hp] at h
  | some p =>
    cases p with
    | ret a =>
      simp only [replyOf,hp] at h
      exact congrArg (fun a : Answer => (some (.ret a) : Option (Handler Answer))) h
    | step i k => simp [replyOf,hp] at h

def replyCode {env : Env} (w : World (system env)) (pid : Nat) : Option Nat :=
  (replyOf w pid).map (·.code)

def allStarts {env : Env} (p : Request → Bool) (es : List (Event (system env))) : Bool :=
  es.all fun
    | .start _ r => p r
    | _ => true

theorem allStarts_mem {env : Env} {p : Request → Bool} {es : List (Event (system env))}
    (h : allStarts p es = true) (pid : Nat) (r : Request) (hm : .start pid r ∈ es) : p r = true :=
  List.all_eq_true.mp h _ hm

def findOrInsert {α : Type} (look : Select (Option α)) (add : Stmt (Option α))
    (known made : α → Handler Reply) (lost : Handler Reply) : Handler Reply := do
  match ← query look with
  | some row => known row
  | none =>
      match ← Prog.perform add with
      | some row => made row
      | none =>
          match ← query look with
          | some winner => known winner
          | none => lost

section FindOrInsert

variable {α : Type} {look : Select (Option α)} {add : Stmt (Option α)}
  {known made : α → Handler Reply} {lost : Handler Reply}

theorem findOrInsert_eq {f g h : Option α → Handler Reply}
    (hf : ∀ row, f (some row) = known row) (hf0 : f none = Prog.perform add >>= g)
    (hg : ∀ row, g (some row) = made row) (hg0 : g none = query look >>= h)
    (hh : ∀ row, h (some row) = known row) (hh0 : h none = lost) :
    query look >>= f = findOrInsert look add known made lost := by
  unfold findOrInsert
  refine congrArg _ (funext fun found => ?_)
  cases found with
  | some row => exact hf row
  | none =>
    refine hf0.trans (congrArg _ (funext fun out => ?_))
    cases out with
    | some row => exact hg row
    | none =>
      refine hg0.trans (congrArg _ (funext fun found => ?_))
      cases found with
      | some winner => exact hh winner
      | none => exact hh0

theorem uses_findOrInsert {P : {β : Type} → Stmt β → Prop} (hq : P (.select look)) (ha : P add)
    (hk : ∀ row, (known row).Uses P) (hm : ∀ row, (made row).Uses P) (hl : lost.Uses P) :
    (findOrInsert look add known made lost).Uses P := by
  refine Prog.uses_bind (Prog.uses_perform hq) fun found => ?_
  cases found with
  | some row => exact hk row
  | none =>
    refine Prog.uses_bind (Prog.uses_perform ha) fun out => ?_
    cases out with
    | some row => exact hm row
    | none =>
      refine Prog.uses_bind (Prog.uses_perform hq) fun found => ?_
      cases found with
      | some winner => exact hk winner
      | none => exact hl

end FindOrInsert

theorem registerArtifact_eq (n : NewArtifact) : registerArtifact n =
    findOrInsert (.artifactNamed n.backupRunID n.name) (.side (.insertArtifact n))
      (fun row => .ret ⟨200,.artifact row⟩) (fun row => .ret ⟨201,.artifact row⟩)
      (fail 500 "failed to register artifact") :=
  findOrInsert_eq (fun _ => rfl) rfl (fun _ => rfl) rfl (fun _ => rfl) rfl

theorem registerChunk_eq (n : NewChunk) : registerChunk n =
    findOrInsert (.chunkAt n.artifactID n.index) (.side (.insertChunk n))
      (fun row => repeatedChunk row n.checksum) (fun row => .ret ⟨201,.chunk row⟩)
      (fail 500 "failed to register chunk") :=
  findOrInsert_eq (fun _ => rfl) rfl (fun _ => rfl) rfl (fun _ => rfl) rfl

theorem insertRestore_eq (n : NewRestore) : insertRestore n =
    findOrInsert (.pendingRestore n.dedupe) (.restore (.insert n))
      (fun row => .ret ⟨200,.restoreJob row⟩) (fun row => .ret ⟨201,.restoreJob row⟩)
      (fail 500 "failed to create restore") :=
  findOrInsert_eq (fun _ => rfl) rfl (fun _ => rfl) rfl (fun _ => rfl) rfl

def Stmt.Records : {β : Type} → Stmt β → Prop
  | _, .select (.firstRun _ _) | _, .select (.firstTarget _) | _, .select (.firstArtifact _) => True
  | _, .select (.artifactNamed _ _) | _, .select (.chunkAt _ _) => True
  | _, .side (.insertArtifact _) | _, .side (.insertChunk _) => True
  | _, _ => False

section Records

variable {env : Env}

theorem records_registerArtifact (n : NewArtifact) : (registerArtifact n).Uses Stmt.Records := by
  rw [registerArtifact_eq]
  exact uses_findOrInsert trivial trivial (fun _ => trivial) (fun _ => trivial) trivial

theorem records_vgRegisterArtifact (agent : UUID) (param : String) (req : ArtifactReport) :
    (vgRegisterArtifact env agent param req).Uses Stmt.Records := by
  unfold vgRegisterArtifact
  split
  · trivial
  · refine Prog.uses_bind (Prog.uses_perform trivial) fun run => ?_
    split
    · trivial
    · split
      · trivial
      · split
        · trivial
        · dsimp only
          split
          · refine Prog.uses_bind (Prog.uses_perform trivial) fun target => ?_
            split
            · trivial
            · exact records_registerArtifact _
          · exact records_registerArtifact _

theorem records_repeatedChunk (row : VgBackupChunk) (checksum : String) :
    (repeatedChunk row checksum).Uses Stmt.Records := by
  unfold repeatedChunk
  split <;> trivial

theorem records_vgRegisterChunk (agent : UUID) (param : String) (req : ChunkReport) :
    (vgRegisterChunk env agent param req).Uses Stmt.Records := by
  unfold vgRegisterChunk
  split
  · trivial
  · refine Prog.uses_bind (Prog.uses_perform trivial) fun artifact => ?_
    split
    · trivial
    · refine Prog.uses_bind (Prog.uses_perform trivial) fun run => ?_
      split
      · trivial
      · dsimp only
        split
        · trivial
        · rw [registerChunk_eq]
          exact uses_findOrInsert trivial trivial (fun row => records_repeatedChunk row _)
            (fun _ => trivial) trivial

end Records

end VgBackup
