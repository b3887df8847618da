import ServerHub.Go.Time
import ServerHub.Interleave.Tickets

namespace Containers

abbrev Text := List Char

section Protection

def protectedInfraNames : List Text :=
  ["serverhub".toList,"serverhub-postgres".toList,"serverhub-prometheus".toList,
    "serverhub-alertmanager".toList,"serverhub-node-exporter".toList,"serverhub-cadvisor".toList]

def byteLength (s : Text) : Nat := (s.map Char.utf8Size).sum

def isHexID (s : Text) : Bool :=
  if byteLength s < 8 then false
  else s.all fun r => !((r < '0' || '9' < r) && (r < 'a' || 'f' < r))

def isSelfContainerID (target hostname : Text) : Bool :=
  if target = [] ∨ hostname = [] then false
  else if !isHexID hostname && !isHexID target then target = hostname
  else if target = hostname then true
  else
    let (short,long) := if byteLength hostname < byteLength target then (hostname,target) else (target,hostname)
    8 ≤ byteLength short && isHexID short && short.isPrefixOf long

def normalised (s : Text) : Text := (Go.trim s).map Go.lower

def trimSlashes (s : Text) : Text := (s.dropWhile (· = '/')).rdropWhile (· = '/')

def protectedTarget (name id hostname : Text) : Text :=
  let n := trimSlashes (normalised name)
  if n ∈ protectedInfraNames then
    "refusing destructive operation on protected infrastructure container ".toList ++ n
  else if isSelfContainerID (normalised id) (normalised hostname) then
    "refusing destructive operation on the ServerHub container itself".toList
  else []

end Protection

structure ExecGrant where
  container : Text
  shell : Text
  cols : Nat
  rows : Nat
  expires : Int
  actor : Text
deriving DecidableEq

abbrev Grants := Text → Option ExecGrant

def ExecGrant.expired (g : ExecGrant) (now : Int) : Bool := g.expires < now

def sweep (now : Int) (grants : Grants) : Grants := fun t => (grants t).filter fun g => !g.expired now

def grantFor (container shell : Text) (cols rows : Nat) (actor : Text) (now : Int) : ExecGrant :=
  ⟨container,shell,cols,rows,now + 60 * Go.second,actor⟩

def mintGrant (token : Text) (g : ExecGrant) (now : Int) (grants : Grants) : Grants :=
  Function.update (sweep now grants) token (some g)

def takeGrant (token : Text) (now : Int) (grants : Grants) : Grants × Option ExecGrant :=
  match grants token with
  | none => (Function.update grants token none,none)
  | some g => if g.expired now then (Function.update grants token none,none)
      else (Function.update grants token none,some g)

abbrev Moves := List (Tickets.Move Text ExecGrant)

-- the table holds the unexpired grants that were issued and not redeemed, and no others
def Faithful (now : Int) (grants : Grants) (ms : Moves) : Prop :=
  ∀ token g, g.expired now = false → (grants token = some g ↔ (token,g) ∈ Tickets.held ms)

section Table

variable {now later : Int} {grants : Grants} {ms : Moves} {token : Text} {g : ExecGrant}

theorem fresh_iff : g.expired now = false ↔ now ≤ g.expires := by
  rw [ExecGrant.expired,decide_eq_false_iff_not,Int.not_lt]

theorem expired_later (h : now ≤ later) (hg : g.expired later = false) : g.expired now = false :=
  fresh_iff.mpr (Int.le_trans h (fresh_iff.mp hg))

theorem Faithful.empty : Faithful now (fun _ => none) [] :=
  fun _ _ _ => by simp [Tickets.held]

theorem Faithful.wait (h : Faithful now grants ms) (hle : now ≤ later) : Faithful later grants ms :=
  fun token g hg => h token g (expired_later hle hg)

theorem sweep_eq : sweep now grants token = some g ↔ grants token = some g ∧ g.expired now = false := by
  simp [sweep,Option.filter_eq_some_iff]

theorem Faithful.sweep (h : Faithful now grants ms) : Faithful now (Containers.sweep now grants) ms := by
  intro token g hg
  rw [sweep_eq,h token g hg]
  exact and_iff_left hg

theorem Faithful.mint (h : Faithful now grants ms) (token : Text) (g : ExecGrant) :
    Faithful now (mintGrant token g now grants) (.issue token g :: ms) := by
  intro j b hb
  rw [Tickets.mem_held_issue,mintGrant]
  by_cases hj : j = token
  · subst hj
    simp [eq_comm]
  · rw [Function.update_of_ne hj,h.sweep j b hb]
    simp [hj]

theorem Faithful.discard (h : Faithful now grants ms) (hg : (token,g) ∈ Tickets.held ms) :
    Faithful now (Function.update grants token none) (.redeem token g :: ms) := by
  intro j b hb
  rw [Tickets.mem_held_redeem]
  by_cases hj : j = token
  · subst hj
    simp
  · rw [Function.update_of_ne hj,h j b hb]
    simp [hj]

theorem takeGrant_table : (takeGrant token now grants).1 = Function.update grants token none := by
  unfold takeGrant
  split
  · rfl
  · split <;> rfl

theorem takeGrant_some : (takeGrant token now grants).2 = some g ↔
    grants token = some g ∧ g.expired now = false := by
  unfold takeGrant
  split
  · rename_i hnone
    simp [hnone]
  · rename_i k hk
    rw [hk,Option.some.injEq]
    split
    · rename_i hexpired
      simp only [reduceCtorEq,false_iff,not_and]
      rintro rfl
      simp [hexpired]
    · rename_i hexpired
      simp only [Option.some.injEq,iff_self_and]
      rintro rfl
      simpa using hexpired

theorem Faithful.refused (h : Faithful now grants ms) (hnone : (takeGrant token now grants).2 = none) :
    Faithful now (Function.update grants token none) ms := by
  intro j b hb
  by_cases hj : j = token
  · subst hj
    have hgone : grants j ≠ some b := by
      intro hsome
      rw [takeGrant_some.mpr ⟨hsome,hb⟩] at hnone
      cases hnone
    simpa [← h j b hb] using hgone
  · rw [Function.update_of_ne hj,h j b hb]

theorem Faithful.redeemable (h : Faithful now grants ms) : (takeGrant token now grants).2 = some g ↔
    (token,g) ∈ Tickets.held ms ∧ g.expired now = false := by
  rw [takeGrant_some]
  exact and_congr_left fun hg => h token g hg

end Table

end Containers
