import ServerHub.Containers.Grants
import ServerHub.Go.Hex
import ServerHub.Interleave.Chronicle
import ServerHub.Interleave.Routine

namespace Containers

open Interleave Interleave.Prog

structure ExecForm where
  shell : Text
  cols : Nat
  rows : Nat

structure ExecRequest where
  id : Text
  actor : Text
  -- ?confirm= and the "confirm" of the body, when it binds
  query : Text
  confirm : Option Bool
  -- what binding the body leaves
  form : ExecForm

def ExecRequest.confirmed (r : ExecRequest) : Bool := r.query = "true".toList || r.confirm.getD false

def ExecForm.chosenShell (f : ExecForm) : Text :=
  if f.shell ≠ "/bin/bash".toList ∧ f.shell ≠ "/bin/sh".toList ∧ f.shell ≠ "sh".toList then
    "/bin/sh".toList
  else f.shell

def ExecForm.width (f : ExecForm) : Nat := if f.cols = 0 ∨ 400 < f.cols then 120 else f.cols

def ExecForm.height (f : ExecForm) : Nat := if f.rows = 0 ∨ 200 < f.rows then 32 else f.rows

inductive Request where
  | create (r : ExecRequest)
  | attach (token : Text)

inductive Reply where
  | unconfirmed
  | dockerUnavailable
  | notFound
  | forbidden (reason : Text)
  | untracked
  | granted (token operation : Text)
  | unauthorized
  | rawFailed (error : Text)
  | badGateway (error : Text)
  | notUpgraded
  | closed
deriving DecidableEq

inductive Instr : Type → Type where
  | available : Instr Bool
  | inspect (id : Text) : Instr (Option (Text × Text))
  | hostname : Instr Text
  | createOp (opType targetType target actor : Text) (stages : List Text) : Instr (Option Text)
  | random : Instr (List UInt8)
  | mint (token container shell : Text) (cols rows : Nat) (actor : Text) : Instr Unit
  | audit (actor action resource id result metadata : Text) : Instr Unit
  | publish (id operation actor shell : Text) : Instr Unit
  | take (token : Text) : Instr (Option ExecGrant)
  | raw : Instr (Except Text Unit)
  | execCreate (container cmd : Text) (rows cols : Nat) : Instr (Except Text Text)
  | execAttach (execID : Text) : Instr (Except Text Unit)
  | upgrade : Instr Bool
  | stream (execID : Text) : Instr Unit

-- what docker, the random source, the database and the client answer at one step
structure Outside where
  available : Bool
  found : Option (Text × Text)
  hostname : Text
  random : List UInt8
  operation : Option Text
  raw : Except Text Unit
  execID : Except Text Text
  attached : Except Text Unit
  upgraded : Bool

structure State where
  clock : Int
  grants : Grants
  outside : Nat → Outside
  asked : Nat

def State.ask {β : Type} (s : State) (f : Outside → β) : State × β :=
  ({ s with asked := s.asked + 1 },f (s.outside s.asked))

def exec : {β : Type} → Instr β → State → State × β
  | _, .available, s => s.ask Outside.available
  | _, .inspect _, s => s.ask Outside.found
  | _, .hostname, s => s.ask Outside.hostname
  | _, .createOp _ _ _ _ _, s => s.ask Outside.operation
  | _, .random, s => s.ask Outside.random
  | _, .mint token container shell cols rows actor, s =>
      ({ s with
        grants := mintGrant token (grantFor container shell cols rows actor s.clock) s.clock s.grants },())
  | _, .audit _ _ _ _ _ _, s => (s,())
  | _, .publish _ _ _ _, s => (s,())
  | _, .take token, s =>
      let r := takeGrant token s.clock s.grants
      ({ s with grants := r.1 },r.2)
  | _, .raw, s => s.ask Outside.raw
  | _, .execCreate _ _ _ _, s => s.ask Outside.execID
  | _, .execAttach _, s => s.ask Outside.attached
  | _, .upgrade, s => s.ask Outside.upgraded
  | _, .stream _, s => (s,())

abbrev Handler := Prog Instr

section Handlers

def mintToken (container shell : Text) (cols rows : Nat) (actor : Text) : Handler Text := do
  let token := Go.encodeToString (← perform .random)
  perform (.mint token container shell cols rows actor)
  return token

def denyContainerTarget (name id : Text) : Handler Text := do
  return protectedTarget name id (← perform .hostname)

def auditExec (actor action id result metadata : Text) : Handler Unit :=
  perform (.audit actor action "container".toList id result metadata)

def startedText (op shell : Text) : Text := "op=".toList ++ op ++ " shell=".toList ++ shell

def openedText (shell : Text) : Text := "shell=".toList ++ shell

def create (r : ExecRequest) : Handler Reply := do
  if !r.confirmed then return .unconfirmed
  else if !(← perform .available) then return .dockerUnavailable
  else
    match ← perform (.inspect r.id) with
    | none => return .notFound
    | some info =>
      let reason ← denyContainerTarget info.1 info.2
      if reason ≠ [] then
        auditExec r.actor "exec-blocked".toList r.id "blocked".toList reason
        return .forbidden reason
      else
        match ← perform (.createOp "container.exec".toList "container".toList r.id r.actor
          ["shell".toList]) with
        | none => return .untracked
        | some op =>
          let token ← mintToken r.id r.form.chosenShell r.form.width r.form.height r.actor
          auditExec r.actor "exec-start".toList r.id "ok".toList (startedText op r.form.chosenShell)
          perform (.publish r.id op r.actor r.form.chosenShell)
          return .granted token op

def attach (token : Text) : Handler Reply := do
  match ← perform (.take token) with
  | none => return .unauthorized
  | some g =>
    match ← perform .raw with
    | .error e => return .rawFailed e
    | .ok _ =>
      match ← perform (.execCreate g.container g.shell g.rows g.cols) with
      | .error e => return .badGateway e
      | .ok execID =>
        match ← perform (.execAttach execID) with
        | .error e => return .badGateway e
        | .ok _ =>
          if ← perform .upgrade then
            auditExec g.actor "exec-open".toList g.container "ok".toList (openedText g.shell)
            perform (.stream execID)
            auditExec g.actor "exec-close".toList g.container "ok".toList (openedText g.shell)
            return .closed
          else return .notUpgraded

def handle : Request → Handler Reply
  | .create r => create r
  | .attach token => attach token

end Handlers

inductive Env where
  | pass (d : Nat)

def shells : System where
  Instr := Instr
  State := State
  Request := Request
  Answer := Reply
  Env := Env
  exec _ _ i s := some (exec i s)
  handle := handle
  env
    | .pass d, s => some { s with clock := s.clock + d }

structure Options where
  container : Text
  cmd : Text
  rows : Nat
  cols : Nat
deriving DecidableEq

def ExecGrant.options (g : ExecGrant) : Options := ⟨g.container,g.shell,g.rows,g.cols⟩

inductive Note where
  | inspected (id name cid : Text)
  | hosted (hostname : Text)
  | minted (token : Text) (g : ExecGrant) (now : Int)
  | taken (token : Text) (g : ExecGrant) (now : Int)
  | shell (o : Options)
  | audited (actor action resource id result metadata : Text)
deriving DecidableEq

def note (β : Type) (i : Instr β) (s : State) (b : β) : Option Note :=
  match β, i, b with
  | _, .inspect id, some info => some (.inspected id info.1 info.2)
  | _, .hostname, h => some (.hosted h)
  | _, .mint token container shell cols rows actor, _ =>
      some (.minted token (grantFor container shell cols rows actor s.clock) s.clock)
  | _, .take token, some g => some (.taken token g s.clock)
  | _, .execCreate container cmd rows cols, _ => some (.shell ⟨container,cmd,rows,cols⟩)
  | _, .audit actor action resource id result metadata, _ =>
      some (.audited actor action resource id result metadata)
  | _, _, _ => none

abbrev Log := List (Nat × Note)

def grantMove : Nat × Note → Option (Tickets.Move Text ExecGrant)
  | (_,.minted token g _) => some (.issue token g)
  | (_,.taken token g _) => some (.redeem token g)
  | _ => none

def shellMove : Nat × Note → Option (Tickets.Move Nat Options)
  | (pid,.taken _ g _) => some (.issue pid g.options)
  | (pid,.shell o) => some (.redeem pid o)
  | _ => none

def grantMoves (log : Log) : Moves := log.filterMap grantMove

def shellMoves (log : Log) : List (Tickets.Move Nat Options) := log.filterMap shellMove

def ExecRequest.grant (r : ExecRequest) (now : Int) : ExecGrant :=
  grantFor r.id r.form.chosenShell r.form.width r.form.height r.actor now

section Traces

variable (asked : Nat → Request → Prop)

def Justified (older : Log) (pid : Nat) : Note → Prop
  | .minted _ g now => ∃ r name cid hostname, asked pid (.create r) ∧ r.confirmed = true ∧
      g = r.grant now ∧ (pid,.inspected r.id name cid) ∈ older ∧ (pid,.hosted hostname) ∈ older ∧
      protectedTarget name cid hostname = []
  | .taken token g now => (token,g) ∈ Tickets.held (grantMoves older) ∧ g.expired now = false ∧
      asked pid (.attach token)
  | .shell o => (pid,o) ∈ Tickets.held (shellMoves older)
  | _ => True

def Sound (log : Log) : Prop := Chronicle (fun older e => Justified asked older e.1 e.2) log

variable {asked}

theorem Sound.record {log : Log} {pid : Nat} {n : Option Note} (h : Sound asked log)
    (hn : ∀ m ∈ n, Justified asked log pid m) : Sound asked (record pid log n) := by
  cases n with
  | none => exact h
  | some m => exact ⟨hn m rfl,h⟩

theorem Sound.grants {log : Log} (h : Sound asked log) : Tickets.Honest (grantMoves log) := by
  induction log with
  | nil => trivial
  | cons e log ih =>
    obtain ⟨pid,n⟩ := e
    have hlog := ih h.2
    cases n with
    | taken token g now => exact ⟨h.1.1,hlog⟩
    | _ => exact hlog

theorem Sound.shells {log : Log} (h : Sound asked log) : Tickets.Honest (shellMoves log) := by
  induction log with
  | nil => trivial
  | cons e log ih =>
    obtain ⟨pid,n⟩ := e
    have hlog := ih h.2
    cases n with
    | shell o => exact ⟨h.1,hlog⟩
    | _ => exact hlog

theorem shellMove_key {e : Nat × Note} {m : Tickets.Move Nat Options} (h : shellMove e = some m) :
    m.key = e.1 := by
  obtain ⟨pid,n⟩ := e
  cases n with
  | taken token g now =>
    obtain rfl := Option.some.inj h
    rfl
  | shell o =>
    obtain rfl := Option.some.inj h
    rfl
  | _ => cases h

theorem shellMoves_own (log : Log) (pid : Nat) :
    shellMoves (own pid log) = (shellMoves log).filter fun m => m.key = pid := by
  rw [shellMoves,shellMoves,own,List.filterMap_filter,List.filter_filterMap]
  congr 1
  funext e
  cases hm : shellMove e with
  | none => simp [Option.filter]
  | some m =>
    have hkey := shellMove_key hm
    by_cases he : e.1 = pid <;> simp [Option.filter,hkey,he]

theorem held_shell {log : Log} {pid : Nat} {o : Options} :
    (pid,o) ∈ Tickets.held (shellMoves log) ↔ (pid,o) ∈ Tickets.held (shellMoves (own pid log)) := by
  rw [shellMoves_own]
  exact Tickets.held_keyed

end Traces

def Note.looks : Note → Bool
  | .inspected _ _ _ | .hosted _ => true
  | _ => false

def Told : Request → Reply → List Note → Prop
  | .create r, .granted token op, ns => ∃ name cid hostname now, r.confirmed = true ∧
      protectedTarget name cid hostname = [] ∧
      ns = [.audited r.actor "exec-start".toList "container".toList r.id "ok".toList
          (startedText op r.form.chosenShell),
        .minted token (r.grant now) now,.hosted hostname,.inspected r.id name cid]
  | .create r, .forbidden reason, ns => ∃ name cid hostname, r.confirmed = true ∧ reason ≠ [] ∧
      protectedTarget name cid hostname = reason ∧
      ns = [.audited r.actor "exec-blocked".toList "container".toList r.id "blocked".toList reason,
        .hosted hostname,.inspected r.id name cid]
  | .create _, _, ns => ∀ n ∈ ns, n.looks = true
  | .attach token, .closed, ns => ∃ g now,
      ns = [.audited g.actor "exec-close".toList "container".toList g.container "ok".toList
          (openedText g.shell),
        .audited g.actor "exec-open".toList "container".toList g.container "ok".toList
          (openedText g.shell),
        .shell g.options,.taken token g now]
  | .attach _, .unauthorized, ns => ns = []
  | .attach token, _, ns => ∃ g now, ns = [.taken token g now] ∨
      ns = [.shell g.options,.taken token g now]

def granting (asked : Nat → Request → Prop) : Ledger shells note where
  Inv x := Faithful x.state.clock x.state.grants (grantMoves x.log) ∧ Sound asked x.log
  Allow _ _ _ _ := True
  Duty _ _ _ _ := True

def Instr.plain : {β : Type} → Instr β → Bool
  | _, .mint _ _ _ _ _ _ | _, .take _ => false
  | _, _ => true

section Steps

variable {asked : Nat → Request → Prop} {pid : Nat} {β : Type} {J : List Note → Prop}

theorem plain_state {i : Instr β} (h : i.plain = true) (s : State) :
    (exec i s).1.clock = s.clock ∧ (exec i s).1.grants = s.grants := by
  cases i <;> first | exact ⟨rfl,rfl⟩ | cases h

theorem plain_moves {i : Instr β} (h : i.plain = true) (s : State) (b : β) (log : Log) :
    grantMoves (record pid log (note β i s b)) = grantMoves log := by
  cases i with
  | mint token container shell cols rows actor => cases h
  | take token => cases h
  | inspect id => cases b <;> rfl
  | _ => rfl

theorem tells_plain {i : Instr β} {R : β → List Note → Prop} (hi : i.plain = true)
    (h : ∀ (x : Traced State Note) b, Sound asked x.log → J (notesOf pid x.log) →
      (∀ m ∈ note β i x.state b, Justified asked x.log pid m) ∧
        R b ((note β i x.state b).toList ++ notesOf pid x.log)) :
    (granting asked).Tells pid J (perform i) R := by
  refine Ledger.tells_perform fun x t b hx hJ _ hexec => ?_
  obtain rfl : (exec i x.state).1 = t := congrArg Prod.fst (Option.some.inj hexec)
  obtain ⟨hclock,hgrants⟩ := plain_state hi x.state
  obtain ⟨hjust,hR⟩ := h x b hx.2 hJ
  refine ⟨trivial,⟨?_,hx.2.record hjust⟩,hR⟩
  have hmoves : grantMoves (record pid x.log (note β i x.state b)) = grantMoves x.log :=
    plain_moves hi x.state b x.log
  show Faithful (exec i x.state).1.clock _ (grantMoves (record pid x.log (note β i x.state b)))
  rw [hclock,hgrants,hmoves]
  exact hx.1

theorem tells_silent {i : Instr β} (hi : i.plain = true) (hn : ∀ s b, note β i s b = none) :
    (granting asked).Tells pid J (perform i) fun _ => J := by
  refine tells_plain hi fun x b _ hJ => ?_
  rw [hn]
  exact ⟨fun m hm => (by cases hm),hJ⟩

theorem tells_mint {r : ExecRequest} {token : Text} {R : List Note → Prop}
    (hr : asked pid (.create r)) (hc : r.confirmed = true)
    (h : ∀ ns, J ns → ∃ name cid hostname, .inspected r.id name cid ∈ ns ∧ .hosted hostname ∈ ns ∧
      protectedTarget name cid hostname = [])
    (hR : ∀ ns now, J ns → R (.minted token (r.grant now) now :: ns)) :
    (granting asked).Tells pid J
      (perform (.mint token r.id r.form.chosenShell r.form.width r.form.height r.actor)) fun _ => R := by
  refine Ledger.tells_perform fun x t b hx hJ _ hexec => ?_
  obtain rfl := congrArg Prod.fst (Option.some.inj hexec)
  obtain ⟨name,cid,hostname,hinspected,hhosted,hfree⟩ := h _ hJ
  refine ⟨trivial,⟨hx.1.mint token (r.grant x.state.clock),?_,hx.2⟩,hR _ _ hJ⟩
  exact ⟨r,name,cid,hostname,hr,hc,rfl,mem_notesOf.mp hinspected,mem_notesOf.mp hhosted,hfree⟩

def Redeemed (token : Text) : Option ExecGrant → List Note → Prop
  | none, ns => ns = []
  | some g, ns => ∃ now, ns = [.taken token g now]

theorem tells_take {token : Text} (ht : asked pid (.attach token)) :
    (granting asked).Tells pid (· = []) (perform (.take token)) (Redeemed token) := by
  refine Ledger.tells_perform fun x t b hx hJ _ hexec => ?_
  obtain ⟨rfl,hb⟩ := Prod.mk.inj (Option.some.inj hexec)
  have hbranch : (takeGrant token x.state.clock x.state.grants).2 = b := hb
  cases b with
  | none =>
    refine ⟨trivial,⟨?_,hx.2⟩,hJ⟩
    show Faithful x.state.clock (takeGrant token x.state.clock x.state.grants).1 (grantMoves x.log)
    rw [takeGrant_table]
    exact hx.1.refused hbranch
  | some g =>
    obtain ⟨hheld,hfresh⟩ := hx.1.redeemable.mp hbranch
    refine ⟨trivial,⟨?_,⟨hheld,hfresh,ht⟩,hx.2⟩,x.state.clock,?_⟩
    · show Faithful x.state.clock (takeGrant token x.state.clock x.state.grants).1
        (.redeem token g :: grantMoves x.log)
      rw [takeGrant_table]
      exact hx.1.discard hheld
    · show _ :: notesOf pid x.log = _
      rw [hJ]

theorem tells_audit {actor action id result metadata : Text} {R : List Note → Prop}
    (hR : ∀ ns, J ns → R (.audited actor action "container".toList id result metadata :: ns)) :
    (granting asked).Tells pid J (auditExec actor action id result metadata) fun _ => R :=
  tells_plain rfl fun x b _ hJ => ⟨by
    rintro m ⟨⟩
    trivial,hR _ hJ⟩

theorem tells_shell {token : Text} {g : ExecGrant} :
    (granting asked).Tells pid (fun ns => ∃ now, ns = [.taken token g now])
      (perform (.execCreate g.container g.shell g.rows g.cols))
      fun _ ns => ∃ now, ns = [.shell g.options,.taken token g now] := by
  refine tells_plain rfl ?_
  rintro x b hx ⟨now,hns⟩
  refine ⟨?_,now,congrArg (List.cons (Note.shell g.options)) hns⟩
  rintro m ⟨⟩
  obtain ⟨e,hown,hnote⟩ := List.map_eq_singleton_iff.mp hns
  have hpid : e.1 = pid := by
    have he : e ∈ own pid x.log := by rw [hown]; exact List.mem_singleton_self e
    exact beq_iff_eq.mp (List.mem_filter.mp he).2
  obtain rfl : e = (pid,.taken token g now) := Prod.ext hpid hnote
  show (pid,g.options) ∈ Tickets.held (shellMoves x.log)
  rw [held_shell,hown]
  exact Tickets.mem_held_issue.mpr (.inl ⟨rfl,rfl⟩)

theorem tells_deny (name cid : Text) (r : ExecRequest) :
    (granting asked).Tells pid (· = [.inspected r.id name cid]) (denyContainerTarget name cid)
      fun reason ns => ∃ hostname, protectedTarget name cid hostname = reason ∧
        ns = [.hosted hostname,.inspected r.id name cid] := by
  refine Ledger.tells_bind (Q := fun hostname ns => ns = [.hosted hostname,.inspected r.id name cid])
    (tells_plain rfl fun x b _ hJ => ⟨?_,?_⟩) fun hostname => ?_
  · rintro m ⟨⟩
    trivial
  · exact congrArg (List.cons (Note.hosted b)) hJ
  · exact Ledger.tells_ret fun ns hns => ⟨hostname,rfl,hns⟩

def Inspected (id : Text) : Option (Text × Text) → List Note → Prop
  | none, ns => ns = []
  | some info, ns => ns = [.inspected id info.1 info.2]

theorem tells_create {r : ExecRequest} (hr : asked pid (.create r)) :
    (granting asked).Tells pid (· = []) (create r) (Told (.create r)) := by
  have looked : ∀ {ns : List Note} {name cid hostname : Text},
      ns = [.hosted hostname,.inspected r.id name cid] → ∀ n ∈ ns, n.looks = true := by
    rintro _ name cid hostname rfl n hn
    simp only [List.mem_cons,List.not_mem_nil,or_false] at hn
    rcases hn with rfl | rfl <;> rfl
  unfold create
  split
  · exact Ledger.tells_ret fun ns hns n hn => by simp [hns] at hn
  rename_i hconfirmed
  have hconfirmed : r.confirmed = true := by simpa using hconfirmed
  refine Ledger.tells_bind (tells_silent rfl fun _ _ => rfl) fun available => ?_
  split
  · exact Ledger.tells_ret fun ns hns n hn => by simp [hns] at hn
  refine Ledger.tells_bind (Q := Inspected r.id) (tells_plain rfl fun x b _ hJ => ?_)
    fun found => ?_
  · cases b with
    | none => exact ⟨fun m hm => (by cases hm),hJ⟩
    | some info =>
      refine ⟨?_,congrArg (List.cons (Note.inspected r.id info.1 info.2)) hJ⟩
      rintro m ⟨⟩
      trivial
  cases found with
  | none => exact Ledger.tells_ret fun ns hns n hn => by simp [show ns = [] from hns] at hn
  | some info =>
    refine Ledger.tells_bind (tells_deny info.1 info.2 r) fun reason => ?_
    split
    · rename_i hreason
      refine Ledger.tells_bind (Q := fun _ => Told (.create r) (.forbidden reason)) (tells_audit ?_)
        fun _ => Ledger.tells_ret fun _ h => h
      rintro ns ⟨hostname,hprotected,rfl⟩
      exact ⟨info.1,info.2,hostname,hconfirmed,hreason,hprotected,rfl⟩
    · rename_i hreason
      have hreason : reason = [] := not_not.mp hreason
      refine Ledger.tells_bind (tells_silent rfl fun _ _ => rfl) fun operation => ?_
      cases operation with
      | none => exact Ledger.tells_ret fun ns ⟨hostname,_,hns⟩ => looked hns
      | some op =>
        refine Ledger.tells_bind (Q := fun token ns => ∃ name cid hostname now,
            protectedTarget name cid hostname = [] ∧
            ns = [.minted token (r.grant now) now,.hosted hostname,.inspected r.id name cid])
          (Ledger.tells_bind (tells_silent rfl fun _ _ => rfl) fun random => ?_) fun token => ?_
        · refine Ledger.tells_bind (tells_mint hr hconfirmed ?_ ?_) fun _ =>
            Ledger.tells_ret fun ns hns => hns
          · rintro ns ⟨hostname,hprotected,rfl⟩
            exact ⟨info.1,info.2,hostname,by simp,by simp,hprotected.trans hreason⟩
          · rintro ns now ⟨hostname,hprotected,rfl⟩
            exact ⟨info.1,info.2,hostname,now,hprotected.trans hreason,rfl⟩
        · refine Ledger.tells_bind (Q := fun _ => Told (.create r) (.granted token op))
            (tells_audit ?_) fun _ => ?_
          · rintro ns ⟨name,cid,hostname,now,hprotected,rfl⟩
            exact ⟨name,cid,hostname,now,hconfirmed,hprotected,rfl⟩
          · exact Ledger.tells_bind (tells_silent rfl fun _ _ => rfl) fun _ =>
              Ledger.tells_ret fun ns hns => hns

theorem tells_attach {token : Text} (ht : asked pid (.attach token)) :
    (granting asked).Tells pid (· = []) (attach token) (Told (.attach token)) := by
  refine Ledger.tells_bind (tells_take ht) fun taken => ?_
  cases taken with
  | none => exact Ledger.tells_ret fun ns hns => hns
  | some g =>
    refine Ledger.tells_bind (tells_silent rfl fun _ _ => rfl) fun raw => ?_
    cases raw with
    | error e => exact Ledger.tells_ret fun ns ⟨now,hns⟩ => ⟨g,now,.inl hns⟩
    | ok _ =>
      refine Ledger.tells_bind tells_shell fun execID => ?_
      cases execID with
      | error e => exact Ledger.tells_ret fun ns ⟨now,hns⟩ => ⟨g,now,.inr hns⟩
      | ok execID =>
        refine Ledger.tells_bind (tells_silent rfl fun _ _ => rfl) fun attached => ?_
        cases attached with
        | error e => exact Ledger.tells_ret fun ns ⟨now,hns⟩ => ⟨g,now,.inr hns⟩
        | ok _ =>
          refine Ledger.tells_bind (tells_silent rfl fun _ _ => rfl) fun upgraded => ?_
          split
          · refine Ledger.tells_bind (Q := fun _ ns => ∃ now,
                ns = [.audited g.actor "exec-open".toList "container".toList g.container "ok".toList
                  (openedText g.shell),.shell g.options,.taken token g now])
              (tells_audit ?_) fun _ => ?_
            · rintro ns ⟨now,rfl⟩
              exact ⟨now,rfl⟩
            refine Ledger.tells_bind (tells_silent rfl fun _ _ => rfl) fun _ => ?_
            refine Ledger.tells_bind (Q := fun _ => Told (.attach token) .closed) (tells_audit ?_)
              fun _ => Ledger.tells_ret fun _ h => h
            rintro ns ⟨now,rfl⟩
            exact ⟨g,now,rfl⟩
          · exact Ledger.tells_ret fun ns ⟨now,hns⟩ => ⟨g,now,.inr hns⟩

theorem tells_handle {r : Request} (hr : asked pid r) :
    (granting asked).Tells pid (· = []) (handle r) (Told r) := by
  cases r with
  | create r => exact tells_create hr
  | attach token => exact tells_attach hr

end Steps

abbrev traced : System := shells.observe note

section Runs

variable {s : State} {es : List (Event traced)} {v : World traced}

def AskedIn (es : List (Event traced)) (pid : Nat) (r : Request) : Prop := .start pid r ∈ es

theorem granted_run (h0 : s.grants = fun _ => none) (hv : (begun s).run es = some v) :
    (granting (AskedIn es)).Inv v.state ∧ ∀ pid r a, .start pid r ∈ es → v.pool pid = some (.ret a) →
      Told r a (notesOf pid v.state.log) := by
  refine Ledger.told (L := granting (AskedIn es)) (R := fun _ r => Told r)
    (fun pid r hr => tells_handle hr) ?_ ⟨?_,trivial⟩ ?_ hv
  · rintro ⟨d⟩ x y ⟨hfaithful,hsound⟩ he
    obtain ⟨hstate,hlog⟩ := env_observe he
    have hclock : { x.state with clock := x.state.clock + d } = y.state := Option.some.inj hstate
    refine ⟨?_,hlog ▸ hsound⟩
    rw [hlog,← hclock]
    exact hfaithful.wait (Int.le_add_of_nonneg_right (Int.natCast_nonneg d))
  · show Faithful s.clock s.grants []
    rw [h0]
    exact .empty
  · exact along_of_mem (fun e _ w => by cases e <;> simp [Landing,granting]) _

def Opens (p : Options → Bool) : Nat × Note → Bool
  | (_,.shell o) => p o
  | _ => false

def Mints (p : ExecGrant → Bool) : Nat × Note → Bool
  | (_,.minted _ g _) => p g
  | _ => false

theorem opened_count (p : Options → Bool) (log : Log) :
    log.countP (Opens p) = (shellMoves log).countP (Tickets.Move.redeems p) := by
  rw [shellMoves,List.countP_filterMap]
  refine List.countP_congr fun e _ => ?_
  obtain ⟨pid,n⟩ := e
  cases n <;> simp [Opens,shellMove,Tickets.Move.redeems]

theorem minted_count (p : ExecGrant → Bool) (log : Log) :
    log.countP (Mints p) = (grantMoves log).countP (Tickets.Move.issues p) := by
  rw [grantMoves,List.countP_filterMap]
  refine List.countP_congr fun e _ => ?_
  obtain ⟨pid,n⟩ := e
  cases n <;> simp [Mints,grantMove,Tickets.Move.issues]

theorem taken_count (p : Options → Bool) (log : Log) :
    (shellMoves log).countP (Tickets.Move.issues p) =
      (grantMoves log).countP (Tickets.Move.redeems fun g => p g.options) := by
  rw [shellMoves,grantMoves,List.countP_filterMap,List.countP_filterMap]
  refine List.countP_congr fun e _ => ?_
  obtain ⟨pid,n⟩ := e
  cases n <;> simp [grantMove,shellMove,Tickets.Move.redeems,Tickets.Move.issues]

theorem Sound.opened_le {asked : Nat → Request → Prop} {log : Log} (h : Sound asked log)
    (p : Options → Bool) : log.countP (Opens p) ≤ log.countP (Mints fun g => p g.options) := by
  have hshells := Tickets.redeemed_le (p := p) h.shells
  have hgrants := Tickets.redeemed_le (p := fun g : ExecGrant => p g.options) h.grants
  rw [opened_count,minted_count]
  rw [taken_count] at hshells
  omega

def Untouched (token : Text) (log : Log) : Prop := ∀ m ∈ grantMoves log, m.key ≠ token

theorem held_minted {token : Text} {g : ExecGrant} {log : Log} :
    (token,g) ∈ Tickets.held (grantMoves log) ↔ ∃ newer q minted older,
      log = newer ++ (q,.minted token g minted) :: older ∧ Untouched token newer := by
  rw [Tickets.held_iff]
  constructor
  · rintro ⟨later,earlier,hsplit,hlater⟩
    obtain ⟨newer,⟨q,n⟩,older,rfl,rfl,hmove⟩ := split_moved hsplit
    cases n with
    | minted token' g' minted =>
      obtain ⟨rfl,rfl⟩ := Tickets.Move.issue.inj (Option.some.inj hmove)
      exact ⟨newer,q,minted,older,rfl,hlater⟩
    | _ => cases hmove
  · rintro ⟨newer,q,minted,older,rfl,hnewer⟩
    exact ⟨grantMoves newer,grantMoves older,by simp [grantMoves,grantMove],hnewer⟩

theorem held_taken {pid : Nat} {o : Options} {log : Log}
    (h : (pid,o) ∈ Tickets.held (shellMoves log)) : ∃ newer token g now older,
      log = newer ++ (pid,.taken token g now) :: older ∧ g.options = o ∧
      ∀ m ∈ shellMoves newer, m.key ≠ pid := by
  obtain ⟨later,earlier,hsplit,hlater⟩ := Tickets.held_iff.mp h
  obtain ⟨newer,⟨q,n⟩,older,rfl,rfl,hmove⟩ := split_moved hsplit
  cases n with
  | taken token g now =>
    obtain ⟨rfl,rfl⟩ := Tickets.Move.issue.inj (Option.some.inj hmove)
    exact ⟨newer,token,g,now,older,rfl,rfl,hlater⟩
  | _ => cases hmove

theorem shells_granted (h0 : s.grants = fun _ => none) (hv : (begun s).run es = some v) :
    (∀ newer pid o older, v.state.log = newer ++ (pid,.shell o) :: older →
      ∃ between token g now idle q minted before r name cid hostname,
        older = between ++ (pid,.taken token g now) ::
          (idle ++ (q,.minted token g minted) :: before) ∧
        (∀ m ∈ shellMoves between, m.key ≠ pid) ∧ Untouched token idle ∧
        now ≤ minted + 60 * Go.second ∧ g = r.grant minted ∧ o = g.options ∧
        .start pid (.attach token) ∈ es ∧ .start q (.create r) ∈ es ∧ r.confirmed = true ∧
        (q,.inspected r.id name cid) ∈ before ∧ (q,.hosted hostname) ∈ before ∧
        protectedTarget name cid hostname = []) ∧
    ∀ p, v.state.log.countP (Opens p) ≤ v.state.log.countP (Mints fun g => p g.options) := by
  have hsound := (granted_run h0 hv).1.2
  refine ⟨fun newer pid o older hlog => ?_,hsound.opened_le⟩
  obtain ⟨hshell,hold⟩ := (hlog ▸ hsound).at
  obtain ⟨between,token,g,now,rest,rfl,rfl,hbetween⟩ := held_taken hshell
  obtain ⟨⟨hheld,hfresh,hattach⟩,hold⟩ := hold.at
  obtain ⟨idle,q,minted,before,rfl,hidle⟩ := held_minted.mp hheld
  obtain ⟨⟨r,name,cid,hostname,hcreate,hconfirmed,rfl,hinspected,hhosted,hfree⟩,-⟩ := hold.at
  have hage : now ≤ minted + 60 * Go.second := fresh_iff.mp hfresh
  exact ⟨between,token,r.grant minted,now,idle,q,minted,before,r,name,cid,hostname,rfl,hbetween,hidle,
    hage,rfl,rfl,hattach,hcreate,hconfirmed,hinspected,hhosted,hfree⟩

theorem token_redeemable (h0 : s.grants = fun _ => none) (hv : (begun s).run es = some v)
    (token : Text) (g : ExecGrant) :
    (takeGrant token v.state.state.clock v.state.state.grants).2 = some g ↔
      ∃ newer q minted older, v.state.log = newer ++ (q,.minted token g minted) :: older ∧
        Untouched token newer ∧ g.expires = minted + 60 * Go.second ∧
        v.state.state.clock ≤ minted + 60 * Go.second := by
  obtain ⟨hfaithful,hsound⟩ := (granted_run h0 hv).1
  rw [hfaithful.redeemable,held_minted]
  have hlife : ∀ {newer older q minted}, v.state.log = newer ++ (q,.minted token g minted) :: older →
      g.expires = minted + 60 * Go.second := by
    intro newer older q minted hlog
    obtain ⟨⟨r,name,cid,hostname,-,-,rfl,-⟩,-⟩ := (hlog ▸ hsound).at
    rfl
  constructor
  · rintro ⟨⟨newer,q,minted,older,hlog,hnewer⟩,hfresh⟩
    exact ⟨newer,q,minted,older,hlog,hnewer,hlife hlog,hlife hlog ▸ fresh_iff.mp hfresh⟩
  · rintro ⟨newer,q,minted,older,hlog,hnewer,hexpires,hage⟩
    exact ⟨⟨newer,q,minted,older,hlog,hnewer⟩,fresh_iff.mpr (hexpires ▸ hage)⟩

theorem replies_told (h0 : s.grants = fun _ => none) (hv : (begun s).run es = some v) (pid : Nat)
    (r : Request) (a : Reply) (hr : .start pid r ∈ es) (ha : v.answer pid = some a) :
    Told r a (notesOf pid v.state.log) :=
  (granted_run h0 hv).2 pid r a hr (World.answer_eq.mp ha)

end Runs

section Instances

def quietHost : Outside where
  available := true
  found := some ("/web".toList,"4f1c".toList)
  hostname := "hub".toList
  random := List.replicate 32 7
  operation := some "op_1".toList
  raw := .ok ()
  execID := .ok "e1".toList
  attached := .ok ()
  upgraded := true

def noGrants : State := ⟨0,fun _ => none,fun _ => quietHost,0⟩

def webShell : ExecRequest := ⟨"web".toList,"amy".toList,"true".toList,none,⟨"sh".toList,0,900⟩⟩

def webToken : Text := Go.encodeToString (List.replicate 32 7)

def oneSession : List (Event traced) :=
  .start 0 (.create webShell) :: List.replicate 8 (.act 0) ++ .env (.pass 59000000000) ::
    .start 1 (.attach webToken) :: List.replicate 8 (.act 1)

def webGrant : ExecGrant := webShell.grant 0

def sessionLog : Log :=
  [(1,.audited "amy".toList "exec-close".toList "container".toList "web".toList "ok".toList
      (openedText "sh".toList)),
    (1,.audited "amy".toList "exec-open".toList "container".toList "web".toList "ok".toList
      (openedText "sh".toList)),
    (1,.shell ⟨"web".toList,"sh".toList,32,120⟩),(1,.taken webToken webGrant 59000000000),
    (0,.audited "amy".toList "exec-start".toList "container".toList "web".toList "ok".toList
      (startedText "op_1".toList "sh".toList)),
    (0,.minted webToken webGrant 0),(0,.hosted "hub".toList),
    (0,.inspected "web".toList "/web".toList "4f1c".toList)]

theorem session_run : ∃ v : World traced, (begun noGrants).run oneSession = some v ∧
    v.state.log = sessionLog ∧ v.answer 1 = some .closed := by
  have hrun : ((begun noGrants).run oneSession).map
      (fun v : World traced => ((v.state.log,v.answer 1) : Log × Option Reply)) = some (sessionLog,some .closed) := by
    decide +kernel
  obtain ⟨v,hv,hseen⟩ := Option.map_eq_some_iff.mp hrun
  exact ⟨v,hv,(Prod.mk.inj hseen).1,(Prod.mk.inj hseen).2⟩

theorem shell_within_minute : ∃ v : World traced, (begun noGrants).run oneSession = some v ∧
    v.state.log.countP (Opens fun _ => true) = 1 ∧
    v.state.log.countP (Opens fun _ => true) ≤ v.state.log.countP (Mints fun _ => true) := by
  obtain ⟨v,hv,hlog,-⟩ := session_run
  refine ⟨v,hv,?_,(shells_granted rfl hv).2 fun _ => true⟩
  rw [hlog]
  decide +kernel

theorem spent_token_refused : ∃ v : World traced, (begun noGrants).run oneSession = some v ∧
    ¬ ∃ newer q minted older, v.state.log = newer ++ (q,.minted webToken webGrant minted) :: older ∧
      Untouched webToken newer ∧ webGrant.expires = minted + 60 * Go.second ∧
      v.state.state.clock ≤ minted + 60 * Go.second := by
  have hrun : ((begun noGrants).run oneSession).map (fun v : World traced =>
      (takeGrant webToken v.state.state.clock v.state.state.grants).2) = some none := by
    decide +kernel
  obtain ⟨v,hv,hnone⟩ := Option.map_eq_some_iff.mp hrun
  refine ⟨v,hv,fun h => ?_⟩
  rw [(token_redeemable rfl hv webToken webGrant).mpr h] at hnone
  cases hnone

theorem session_told : ∃ v : World traced, (begun noGrants).run oneSession = some v ∧
    Told (.attach webToken) .closed (notesOf 1 v.state.log) := by
  obtain ⟨v,hv,-,hclosed⟩ := session_run
  exact ⟨v,hv,replies_told rfl hv 1 (.attach webToken) .closed (by simp [oneSession]) hclosed⟩

end Instances

end Containers
