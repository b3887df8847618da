import ServerHub.Posix.Resolution

namespace Posix

open FileTree Interleave Interleave.Prog

abbrev Calls := Prog Syscall

def call {β : Type} (s : Syscall β) : Calls β := perform s

-- os.Rename looks for a directory at the new name before the system call
def Os.rename (src dst : Text) : Calls (Except SysErr Unit) := do
  match ← call (.lstat dst) with
  | .ok ⟨.dir,_,old⟩ =>
      match ← call (.lstat src) with
      | .error e => return .error e
      | .ok info =>
          if dst = src ∨ info.ident ≠ old then return .error .exist
          else call (.rename src dst)
  | _ => call (.rename src dst)

def Os.mkdirLast (p : Text) : Calls (Except SysErr Unit) := do
  match ← call (.mkdir p) with
  | .ok _ => return .ok ()
  | .error e =>
  match ← call (.lstat p) with
  | .ok ⟨.dir,_,_⟩ => return .ok ()
  | _ => return .error e

-- over the names of a clean absolute path, last first
def Os.mkdirAllFrom : List Name → Calls (Except SysErr Unit)
  | [] => do
      match ← call (.stat (absText [])) with
      | .ok ⟨.dir,_,_⟩ => return .ok ()
      | .ok _ => return .error .other
      | .error e => return .error e
  | c :: rest => do
      let p := absText (c :: rest).reverse
      match ← call (.stat p) with
      | .ok ⟨.dir,_,_⟩ => return .ok ()
      | .ok _ => return .error .other
      | .error _ =>
      match ← Os.mkdirAllFrom rest with
      | .error e => return .error e
      | .ok _ => Os.mkdirLast p

def Os.mkdirAll (p : Text) : Calls (Except SysErr Unit) := Os.mkdirAllFrom (components p).reverse

def Os.writeFile (p : Text) (data : Bytes) : Calls (Except SysErr Unit) := do
  match ← call (.create p) with
  | .error e => return .error e
  | .ok i =>
      call (.append i data)
      return .ok ()

section WalkDir

variable {ε σ : Type}

-- what the function of a walk returns instead of nil; deep is no error of Go's: the walk has come to
-- the bound on its depth
inductive Flow (ε : Type) where
  | skipDir
  | skipAll
  | deep
  | failed (e : ε)
deriving DecidableEq

def eachName (f : σ → Name × Kind → Calls (σ × Option (Flow ε))) :
    σ → List (Name × Kind) → Calls (σ × Option (Flow ε))
  | s, [] => return (s,none)
  | s, x :: xs => do
      match ← f s x with
      | (s,none) => eachName f s xs
      | (s,some .skipDir) => return (s,none)
      | (s,some e) => return (s,some e)

variable (visit : σ → Text → Kind → Calls (σ × Option (Flow ε)))
  (unread : SysErr → Option (Flow ε))

def Os.walkFrom : Nat → σ → Text → Kind → Calls (σ × Option (Flow ε))
  | 0, s, _, _ => return (s,some .deep)
  | n + 1, s, path, kind => do
      match ← visit s path kind with
      | (s,some .skipDir) => return (s,if kind = .dir then none else some .skipDir)
      | (s,some e) => return (s,some e)
      | (s,none) =>
      if kind ≠ .dir then return (s,none)
      else
      match ← call (.readDir path) with
      | .ok names => eachName (fun s x => Os.walkFrom n s (joinPath path x.1) x.2) s names
      | .error err =>
          match unread err with
          | some .skipDir => return (s,none)
          | e => return (s,e)

-- filepath.WalkDir with the function visit, which makes unread of an error it is called with
def Os.walkDir (depth : Nat) (s : σ) (root : Text) : Calls (σ × Option (Flow ε)) := do
  let r ← do
    match ← call (.lstat root) with
    | .error err => return (s,unread err)
    | .ok info => Os.walkFrom visit unread depth s root info.kind
  match r with
  | (s,some .skipDir) => return (s,none)
  | (s,some .skipAll) => return (s,none)
  | r => return r

end WalkDir

def Disk.act {β : Type} (s : Syscall β) (d : Disk) : Disk × β := ((d.run s).disk,(d.run s).answer)

-- P holds of everything the calls of p do
abbrev Keeps (P : Effect → Prop) {α : Type} (p : Calls α) (d : Disk) : Prop :=
  p.Meets Disk.act (Disk.All P) d

instance {P : Effect → Prop} [DecidablePred P] {d : Disk} {β : Type} (s : Syscall β) :
    Decidable (d.All P s) :=
  inferInstanceAs (Decidable (∀ x ∈ (d.run s).effects, P x))

section Steps

variable {P : Effect → Prop} {d d' : Disk} {α β : Type} {p : Text} {v : β}

theorem keeps_call {s : Syscall β} {k : β → Calls α} :
    Keeps P (call s >>= k) d ↔ d.All P s ∧ Keeps P (k (d.run s).answer) (d.run s).disk := Iff.rfl

theorem keeps_last {s : Syscall β} : Keeps P (call s) d ↔ d.All P s := and_iff_left trivial

theorem keeps_bind {q : Calls β} {k : β → Calls α} :
    Keeps P (q >>= k) d ↔ Keeps P q d ∧ Keeps P (k (q.eval Disk.act d).2) (q.eval Disk.act d).1 :=
  meets_bind

@[simp] theorem keeps_ret (a : α) : Keeps P (.ret a) d ↔ True := Iff.rfl

@[simp] theorem keeps_stat {k : Except SysErr Stat → Calls α} :
    Keeps P (call (.stat p) >>= k) d ↔ Keeps P (k (d.stat p)) d :=
  keeps_call.trans (and_iff_right (Disk.all_of_quiet rfl))

@[simp] theorem keeps_lstat {k : Except SysErr Stat → Calls α} :
    Keeps P (call (.lstat p) >>= k) d ↔ Keeps P (k (d.lstat p)) d :=
  keeps_call.trans (and_iff_right (Disk.all_of_quiet rfl))

@[simp] theorem keeps_append {i : Nat} {data : Bytes} {k : Unit → Calls α} :
    Keeps P (call (.append i data) >>= k) d ↔ Keeps P (k ()) (d.run (.append i data)).disk :=
  keeps_call.trans (and_iff_right (Disk.all_of_quiet rfl))

@[simp] theorem act_stat {k : Except SysErr Stat → Calls α} :
    (call (.stat p) >>= k).eval Disk.act d = (k (d.stat p)).eval Disk.act d := rfl

@[simp] theorem act_lstat {k : Except SysErr Stat → Calls α} :
    (call (.lstat p) >>= k).eval Disk.act d = (k (d.lstat p)).eval Disk.act d := rfl

theorem act_call {s : Syscall β} {k : β → Calls α} :
    (call s >>= k).eval Disk.act d = (k (d.run s).answer).eval Disk.act (d.run s).disk := rfl

theorem act_last {s : Syscall β} : (call s).eval Disk.act d = ((d.run s).disk,(d.run s).answer) := rfl

theorem act_after {q : Calls β} {k : β → Calls α} (h : q.eval Disk.act d = (d',v)) :
    (q >>= k).eval Disk.act d = (k v).eval Disk.act d' := by
  rw [eval_bind,h]

end Steps

section Renaming

variable {P : Effect → Prop} {r q : Place} {c : Name} {d : Disk} {x y : Entry} {a b : Text}

def Moves (d : Disk) (a b : Text) (x y : Entry) : Prop :=
  d.Renames a b x y ∧ d.tree.dirAt y.place = false

-- both paths name the same file or directory already: the rename succeeds and changes nothing
def Stays (d : Disk) (a b : Text) : Prop :=
  ∃ x nd y, d.named a = .ok (x,nd) ∧ d.tree.entryAt b = some y ∧ d.same x y nd = true ∧
    (nd = .dir → a ≠ b)

inductive Renamed (P : Effect → Prop) (a b : Text) (d : Disk) : Prop where
  | moved (x y : Entry) (d' : Disk) (h : Moves d a b x y)
      (result : (Os.rename a b).eval Disk.act d = (d',.ok ()))
      (keeps : Keeps P (Os.rename a b) d ↔ P (.rename x y))
  | stayed (h : Stays d a b) (result : (Os.rename a b).eval Disk.act d = (d,.ok ()))
      (keeps : Keeps P (Os.rename a b) d)
  | failed (e : SysErr) (hstays : ¬Stays d a b) (hmoves : ∀ x y, ¬Moves d a b x y)
      (result : (Os.rename a b).eval Disk.act d = (d,.error e))
      (keeps : Keeps P (Os.rename a b) d)

theorem rename_plain (h : ∀ st, d.lstat b = .ok st → st.kind ≠ .dir) :
    (Os.rename a b).eval Disk.act d = ((d.run (.rename a b)).disk,(d.run (.rename a b)).answer) ∧
      (Keeps P (Os.rename a b) d ↔ d.All P (.rename a b)) := by
  unfold Os.rename
  rw [keeps_lstat,act_lstat]
  cases hl : d.lstat b with
  | error e => exact ⟨act_last,keeps_last⟩
  | ok st =>
    obtain ⟨kind,size,ident⟩ := st
    cases kind with
    | dir => exact absurd rfl (h _ hl)
    | file => exact ⟨act_last,keeps_last⟩
    | link => exact ⟨act_last,keeps_last⟩

theorem same_node {nd : Node Nat} (h : d.same x y nd = true) :
    d.tree.node y.place = some nd ∧ (nd = .dir → x = y) := by
  unfold Disk.same at h
  obtain ⟨hn,hk⟩ := Bool.and_eq_true_iff.mp h
  refine ⟨by simpa using hn,?_⟩
  rintro rfl
  simpa [kindOf] using hk

theorem same_self {nd : Node Nat} (h : d.tree.node x.place = some nd) : d.same x x nd = true := by
  simp [Disk.same,h]

theorem renames_parent (h : d.Renames a b x y) : d.tree.dirAt y.parent = true := by
  obtain ⟨nd,-,-,-,hok⟩ := h
  unfold FileTree.renamable at hok
  by_contra hdir
  rw [if_pos (by simpa using hdir)] at hok
  cases hok

theorem rename_other (hplain : ∀ st, d.lstat b = .ok st → st.kind ≠ .dir) :
    Renamed P a b d := by
  obtain ⟨hresult,hkeeps⟩ := rename_plain (P := P) (a := a) hplain
  have hno {y : Entry} (hy : d.tree.entryAt b = some y) (hdir : d.tree.dirAt y.parent = true) :
      d.tree.node y.place ≠ some .dir := by
    intro hn
    exact hplain _ (Disk.lstat_named (Disk.named_ok.mpr ⟨hy,hdir,hn⟩)) rfl
  rcases Disk.moving_cases d a b with ⟨x,y,d',hr,hrun⟩ | ⟨x,nd,y,hx,hy,hs,hrun⟩ | ⟨hs,hr,e,hrun⟩
  · rw [hrun] at hresult
    have hentry : d.tree.entryAt b = some y := by
      obtain ⟨nd,-,hy,-⟩ := hr
      exact hy
    have hfile : d.tree.dirAt y.place = false := by
      rw [← Bool.not_eq_true,dirAt_iff]
      exact hno hentry (renames_parent hr)
    refine .moved x y d' ⟨hr,hfile⟩ hresult (hkeeps.trans (Disk.all_rename.trans ?_))
    constructor
    · intro h
      exact h x y hr
    · rintro h x' y' hr'
      obtain ⟨rfl,rfl⟩ := hr.unique hr'
      exact h
  · rw [hrun] at hresult
    obtain ⟨hn,hdir⟩ := same_node hs
    refine .stayed ⟨x,nd,y,hx,hy,hs,?_⟩ hresult (hkeeps.mpr (Disk.all_of_quiet (by rw [hrun])))
    rintro rfl
    obtain rfl := hdir rfl
    exact absurd hn (hno hy (Disk.named_ok.mp hx).2.1)
  · rw [hrun] at hresult
    refine .failed e ?_ (fun x y h => hr x y h.1) hresult (hkeeps.mpr (Disk.all_of_quiet (by rw [hrun]; rfl)))
    rintro ⟨x,nd,y,hx,hy,hsame,-⟩
    simp [hs x y nd hx hy] at hsame

theorem entry_ext (h : x.place = y.place) : x = y := by
  obtain ⟨p,n⟩ := x
  obtain ⟨q,m⟩ := y
  obtain ⟨rfl,hn⟩ := List.append_inj' h rfl
  obtain rfl := (List.cons.inj hn).1
  rfl

theorem rename_folder (hb : d.named b = .ok (y,.dir)) : Renamed P a b d := by
  obtain ⟨hentry,hparent,hnode⟩ := Disk.named_ok.mp hb
  have hmoves : ∀ x z, ¬Moves d a b x z := by
    rintro x z ⟨⟨nd,-,hz,-⟩,hfile⟩
    obtain rfl := Option.some.inj (hentry.symm.trans hz)
    rw [dirAt_iff.mpr hnode] at hfile
    cases hfile
  -- only the directory itself, under another path, is renamed without an error
  have hstays : Stays d a b ↔ a ≠ b ∧ d.named a = .ok (y,.dir) := by
    constructor
    · rintro ⟨x,nd,z,hx,hz,hs,hne⟩
      obtain rfl := Option.some.inj (hentry.symm.trans hz)
      obtain ⟨hn,hdir⟩ := same_node hs
      obtain rfl := Option.some.inj (hnode.symm.trans hn)
      obtain rfl := hdir rfl
      exact ⟨hne rfl,hx⟩
    · rintro ⟨hne,ha⟩
      exact ⟨y,.dir,y,ha,hentry,same_self hnode,fun _ => hne⟩
  have hlb := Disk.lstat_named hb
  cases hla : d.lstat a with
  | error e =>
    refine .failed e ?_ hmoves ?_ ?_
    · intro h
      rw [Disk.lstat_named (hstays.mp h).2] at hla
      cases hla
    · simp [Os.rename,hlb,hla,Disk.info]
    · simp [Os.rename,hlb,hla,Disk.info]
  | ok info =>
    by_cases hsame : b = a ∨ info.ident ≠ .inl y.place
    · refine .failed .exist ?_ hmoves ?_ ?_
      · intro h
        obtain ⟨hne,ha⟩ := hstays.mp h
        obtain rfl := Except.ok.inj (hla.symm.trans (Disk.lstat_named ha))
        exact hsame.elim (fun heq => hne heq.symm) (fun hident => hident rfl)
      · simp [Os.rename,hlb,hla,Disk.info,hsame]
      · simp [Os.rename,hlb,hla,Disk.info,hsame]
    · have hresult : (Os.rename a b).eval Disk.act d =
          ((d.run (.rename a b)).disk,(d.run (.rename a b)).answer) := by
        simp [Os.rename,hlb,hla,Disk.info,hsame,act_last]
      have hkeeps : Keeps P (Os.rename a b) d ↔ d.All P (.rename a b) := by
        simp [Os.rename,hlb,hla,Disk.info,hsame,keeps_last]
      obtain ⟨hne,hident⟩ := not_or.mp hsame
      have hself {x : Entry} {nd : Node Nat} (hx : d.named a = .ok (x,nd)) : x = y ∧ nd = .dir := by
        have hinfo := Except.ok.inj (hla.symm.trans (Disk.lstat_named hx))
        have hplace : (d.info x.place nd).ident = .inl y.place := hinfo ▸ not_not.mp hident
        have hn := (Disk.named_ok.mp hx).2.2
        cases nd with
        | dir => exact ⟨entry_ext (Sum.inl.inj hplace),rfl⟩
        | file i => cases hplace
        | link target =>
          rw [entry_ext (Sum.inl.inj hplace),hnode] at hn
          cases hn
      rcases Disk.moving_cases d a b with ⟨x,z,d',hr,hrun⟩ | ⟨x,nd,z,hx,hz,hs,hrun⟩ | ⟨hs,hr,e,hrun⟩
      · obtain ⟨nd,hx,hz,hs,-⟩ := hr
        obtain rfl := Option.some.inj (hentry.symm.trans hz)
        obtain ⟨rfl,rfl⟩ := hself hx
        rw [same_self hnode] at hs
        cases hs
      · rw [hrun] at hresult
        obtain ⟨rfl,rfl⟩ := hself hx
        exact .stayed (hstays.mpr ⟨Ne.symm hne,hx⟩) hresult
          (hkeeps.mpr (Disk.all_of_quiet (by rw [hrun])))
      · rw [hrun] at hresult
        refine .failed e ?_ hmoves hresult (hkeeps.mpr (Disk.all_of_quiet (by rw [hrun]; rfl)))
        intro h
        have hx := (hstays.mp h).2
        have hns := hs y y .dir hx hentry
        rw [same_self hnode] at hns
        cases hns

theorem rename_cases (hb : ValidPlace (r ++ [c])) (P : Effect → Prop) (d : Disk) (a : Text) :
    Renamed P a (absText (r ++ [c])) d := by
  by_cases hdir : ∃ y, d.named (absText (r ++ [c])) = .ok (y,.dir)
  · obtain ⟨y,hy⟩ := hdir
    exact rename_folder hy
  · refine rename_other ?_
    intro st hl hk
    obtain ⟨x,nd,hnamed,rfl⟩ := Disk.named_of_lstat hb hl
    cases nd with
    | dir => exact hdir ⟨x,hnamed⟩
    | _ => cases hk

def Folder (d : Disk) (a : Text) : Prop := ∃ st, d.stat a = .ok st ∧ st.kind = .dir

theorem moves_iff (hb : ValidPlace (r ++ [c])) (hfree : ∀ st, d.stat (absText (r ++ [c])) ≠ .ok st) :
    Moves d a (absText (r ++ [c])) x y ↔ d.Renames a (absText (r ++ [c])) x y := by
  refine and_iff_left_of_imp ?_
  intro hr
  rw [← Bool.not_eq_true,dirAt_iff]
  intro hn
  have hparent := renames_parent hr
  obtain ⟨nd,-,hy,-⟩ := hr
  have hfound := Disk.found_named hb (Disk.named_ok.mpr ⟨hy,hparent,hn⟩) (fun _ => by simp)
  exact hfree (d.info y.place .dir) (by rw [Disk.stat,hfound]; rfl)

theorem moves_entry (h : Moves d a b x y) : d.tree.entryAt b = some y := by
  obtain ⟨⟨nd,-,hy,-⟩,-⟩ := h
  exact hy

theorem moves_not_stays (h : Moves d a b x y) : ¬Stays d a b := by
  obtain ⟨⟨nd,hx,hy,hs,-⟩,-⟩ := h
  rintro ⟨x',nd',y',hx',hy',hs',-⟩
  obtain ⟨rfl,rfl⟩ := Prod.mk.inj (Except.ok.inj (hx.symm.trans hx'))
  obtain rfl := Option.some.inj (hy.symm.trans hy')
  rw [hs] at hs'
  cases hs'

theorem rename_keeps (hb : ValidPlace (r ++ [c])) :
    Keeps P (Os.rename a (absText (r ++ [c]))) d ↔
      ∀ x y, Moves d a (absText (r ++ [c])) x y → P (.rename x y) := by
  cases rename_cases hb P d a with
  | moved x y d' h result keeps =>
    rw [keeps]
    constructor
    · rintro hin x' y' h'
      obtain ⟨rfl,rfl⟩ := h.1.unique h'.1
      exact hin
    · intro hin
      exact hin x y h
  | stayed h result keeps =>
    exact iff_of_true keeps fun x y hm => absurd h (moves_not_stays hm)
  | failed e hstays hmoves result keeps =>
    exact iff_of_true keeps fun x y h => absurd h (hmoves x y)

theorem stat_root : d.stat (absText []) = .ok ⟨.dir,0,.inl []⟩ := by
  have hwalk : d.tree.walk osLinkLimit [] [] = .ok [] := by
    obtain ⟨f,hf⟩ := walk_eq_follow d.tree osLinkLimit
    rw [hf,follow]
  have hfound : d.found (absText []) = .ok ([],.dir) :=
    Disk.found_ok.mpr ⟨by rw [Disk.resolved_absText validPlace_nil,hwalk]; rfl,rfl⟩
  rw [Disk.stat,hfound]
  rfl

end Renaming

section Directories

variable {P : Effect → Prop} {r q : Place} {c : Name} {d d' : Disk} {e x y : Entry} {p : Text}

inductive Ready (d : Disk) (p : Text) : Disk → Prop where
  | found (h : Folder d p) : Ready d p d
  | made (e : Entry) (h : d.vacantEntry p = .ok e) : Ready d p (d.enter e .dir)

def Opens (d : Disk) (p : Text) (d' : Disk) : Prop :=
  ∃ i, (d.run (.create p)).answer = .ok i ∧ (d.run (.create p)).disk = d'

theorem folder_iff : Folder d p ↔ ∃ D, d.found p = .ok (D,.dir) := by
  unfold Folder Disk.stat
  cases d.found p with
  | error e => simp [Except.map]
  | ok z =>
    obtain ⟨D,nd⟩ := z
    cases nd <;> simp [Except.map,Disk.info]

theorem folder_of_walk (hq : ValidPlace q) {D : Place} (h : d.tree.walk osLinkLimit [] q = .ok D)
    (hD : d.tree.node D = some .dir) : Folder d (absText q) :=
  folder_iff.mpr ⟨D,Disk.found_ok.mpr ⟨by rw [Disk.resolved_absText hq,h]; rfl,hD⟩⟩

theorem walk_of_found (hq : ValidPlace q) {D : Place} {nd : Node Nat}
    (h : d.found (absText q) = .ok (D,nd)) : d.tree.walk osLinkLimit [] q = .ok D := by
  have hresolved := (Disk.found_ok.mp h).1
  rw [Disk.resolved_absText hq] at hresolved
  cases hw : d.tree.walk osLinkLimit [] q <;> simp_all [Except.mapError]

theorem folder_above (hq : ValidPlace (q ++ r)) (hr : r ≠ []) {st : Stat}
    (h : d.stat (absText (q ++ r)) = .ok st) : Folder d (absText q) := by
  cases hf : d.found (absText (q ++ r)) with
  | error e => simp [Disk.stat,hf,Except.map] at h
  | ok z =>
    obtain ⟨D,hD,hdir⟩ := walk_before hr directory_nil (walk_of_found hq hf)
    exact folder_of_walk (ValidPlace.append.mp hq).1 hD (hdir _ (List.prefix_refl _))

theorem mkdirAllFrom_folder (names : List Name) (h : Folder d (absText names.reverse)) :
    (Os.mkdirAllFrom names).eval Disk.act d = (d,.ok ()) ∧
      Keeps P (Os.mkdirAllFrom names) d := by
  obtain ⟨⟨kind,size,ident⟩,hs,rfl⟩ := h
  cases names with
  | nil =>
    unfold Os.mkdirAllFrom
    rw [keeps_stat,act_stat,← List.reverse_nil,hs]
    exact ⟨rfl,trivial⟩
  | cons c rest =>
    unfold Os.mkdirAllFrom
    rw [keeps_stat,act_stat,hs]
    exact ⟨rfl,trivial⟩

theorem mkdirAllFrom_blocked (names : List Name) {st : Stat}
    (hs : d.stat (absText names.reverse) = .ok st) (hk : st.kind ≠ .dir) :
    (Os.mkdirAllFrom names).eval Disk.act d = (d,.error .other) ∧
      Keeps P (Os.mkdirAllFrom names) d := by
  obtain ⟨kind,size,ident⟩ := st
  cases names with
  | nil =>
    unfold Os.mkdirAllFrom
    rw [keeps_stat,act_stat,← List.reverse_nil,hs]
    cases kind with
    | dir => exact absurd rfl hk
    | _ => exact ⟨rfl,trivial⟩
  | cons c rest =>
    unfold Os.mkdirAllFrom
    rw [keeps_stat,act_stat,hs]
    cases kind with
    | dir => exact absurd rfl hk
    | _ => exact ⟨rfl,trivial⟩

theorem mkdirLast_made {x : Entry} (hv : d.vacantEntry p = .ok x) :
    (Os.mkdirLast p).eval Disk.act d = (d.enter x .dir,.ok ()) ∧
      (Keeps P (Os.mkdirLast p) d ↔ P (.create x)) := by
  have hrun : d.run (.mkdir p) = ⟨d.enter x .dir,.ok (),[.create x]⟩ := by
    simp [Disk.run,Disk.enterAt,hv]
  unfold Os.mkdirLast
  rw [keeps_call,act_call,Disk.all_mkdir,hv,hrun]
  exact ⟨rfl,by simp⟩

theorem mkdirLast_failed {err : SysErr} (hv : d.vacantEntry p = .error err)
    (hl : ∀ st, d.lstat p = .ok st → st.kind ≠ .dir) :
    (Os.mkdirLast p).eval Disk.act d = (d,.error err) ∧ Keeps P (Os.mkdirLast p) d := by
  have hrun : d.run (.mkdir p) = d.failed err := by
    simp [Disk.run,Disk.enterAt,hv]
  unfold Os.mkdirLast
  rw [keeps_call,act_call,hrun]
  refine ⟨?_,Disk.all_of_quiet (by rw [hrun]; rfl),?_⟩
  · refine act_lstat.trans ?_
    show (match d.lstat p with
      | .ok ⟨.dir,_,_⟩ => (return .ok () : Calls (Except SysErr Unit))
      | _ => return .error err).eval Disk.act d = (d,.error err)
    split
    · rename_i hl'
      exact absurd rfl (hl _ hl')
    · rfl
  · refine keeps_lstat.mpr ?_
    split <;> trivial

theorem mkdirAllFrom_up {err : SysErr} (hs : d.stat (absText (r ++ [c])) = .error err)
    (hr : (Os.mkdirAllFrom r.reverse).eval Disk.act d = (d',.ok ())) :
    (Os.mkdirAllFrom (c :: r.reverse)).eval Disk.act d =
        (Os.mkdirLast (absText (r ++ [c]))).eval Disk.act d' ∧
      (Keeps P (Os.mkdirAllFrom (c :: r.reverse)) d ↔
        Keeps P (Os.mkdirAllFrom r.reverse) d ∧ Keeps P (Os.mkdirLast (absText (r ++ [c]))) d') := by
  have hpath : (c :: r.reverse).reverse = r ++ [c] := by simp
  rw [Os.mkdirAllFrom,keeps_stat,act_stat,hpath,hs,keeps_bind,act_after hr,hr]
  exact ⟨rfl,Iff.rfl⟩

theorem mkdirAllFrom_stop {err e : SysErr} (hs : d.stat (absText (r ++ [c])) = .error err)
    (hr : (Os.mkdirAllFrom r.reverse).eval Disk.act d = (d',.error e)) :
    (Os.mkdirAllFrom (c :: r.reverse)).eval Disk.act d = (d',.error e) ∧
      (Keeps P (Os.mkdirAllFrom (c :: r.reverse)) d ↔ Keeps P (Os.mkdirAllFrom r.reverse) d) := by
  have hpath : (c :: r.reverse).reverse = r ++ [c] := by simp
  rw [Os.mkdirAllFrom,keeps_stat,act_stat,hpath,hs,keeps_bind,act_after hr,hr]
  exact ⟨rfl,and_iff_left trivial⟩

theorem mkdirAllFrom_below (hq : ValidPlace (r ++ [c])) (hr : Folder d (absText r)) :
    (∃ d', Ready d (absText (r ++ [c])) d' ∧
        (Os.mkdirAllFrom (c :: r.reverse)).eval Disk.act d = (d',.ok ()) ∧
        (Keeps P (Os.mkdirAllFrom (c :: r.reverse)) d ↔
          ∀ e, d.vacantEntry (absText (r ++ [c])) = .ok e → P (.create e))) ∨
      (∀ d', ¬Ready d (absText (r ++ [c])) d') ∧ Keeps P (Os.mkdirAllFrom (c :: r.reverse)) d ∧
        ∃ e, (Os.mkdirAllFrom (c :: r.reverse)).eval Disk.act d = (d,.error e) := by
  have hpath : (c :: r.reverse).reverse = r ++ [c] := by simp
  have hvacant {e : Entry} (hv : d.vacantEntry (absText (r ++ [c])) = .ok e) :
      d.stat (absText (r ++ [c])) = .error .notExist := by
    obtain ⟨he,hfree⟩ := Disk.vacantEntry_ok.mp hv
    rw [Disk.stat,Disk.found_vacant hq he hfree]
    rfl
  have hready (hf : ¬Folder d (absText (r ++ [c]))) (hv : ∀ e, d.vacantEntry (absText (r ++ [c])) ≠ .ok e) :
      ∀ d', ¬Ready d (absText (r ++ [c])) d' := by
    intro d' hd
    cases hd with
    | found h => exact hf h
    | made e h => exact hv e h
  cases hs : d.stat (absText (r ++ [c])) with
  | ok st =>
    have hno : ∀ e, d.vacantEntry (absText (r ++ [c])) ≠ .ok e := by
      intro e hv
      rw [hvacant hv] at hs
      cases hs
    by_cases hk : st.kind = .dir
    · have h := mkdirAllFrom_folder (P := P) (c :: r.reverse) (by rw [hpath]; exact ⟨st,hs,hk⟩)
      exact .inl ⟨d,.found ⟨st,hs,hk⟩,h.1,iff_of_true h.2 fun e hv => absurd hv (hno e)⟩
    · have hf : ¬Folder d (absText (r ++ [c])) := by
        rintro ⟨st',hs',hk'⟩
        rw [hs] at hs'
        exact hk (Except.ok.inj hs' ▸ hk')
      have h := mkdirAllFrom_blocked (P := P) (c :: r.reverse) (by rwa [hpath]) hk
      exact .inr ⟨hready hf hno,h.2,.other,h.1⟩
  | error err =>
    have habove := mkdirAllFrom_folder (P := P) r.reverse (by rwa [List.reverse_reverse])
    obtain ⟨heval,hkeeps⟩ := mkdirAllFrom_up (P := P) hs habove.1
    rw [heval,hkeeps,and_iff_right habove.2]
    cases hv : d.vacantEntry (absText (r ++ [c])) with
    | ok x =>
      have h := mkdirLast_made (P := P) hv
      exact .inl ⟨_,.made x hv,h.1,h.2.trans (by simp)⟩
    | error err' =>
      have hlstat : ∀ st, d.lstat (absText (r ++ [c])) = .ok st → st.kind ≠ .dir := by
        intro st hl hk
        rw [Disk.stat_of_lstat_dir hq hl hk] at hs
        cases hs
      have h := mkdirLast_failed (P := P) hv hlstat
      refine .inr ⟨hready ?_ (by simp [hv]),h.2,err',h.1⟩
      rintro ⟨st,hs',-⟩
      rw [hs] at hs'
      cases hs'

theorem writeFile_cases (P : Effect → Prop) (d : Disk) (p : Text) (data : Bytes) :
    (∃ i d', Opens d p d' ∧ (Os.writeFile p data).eval Disk.act d =
        ({ d' with bytes := Function.update d'.bytes i (d'.bytes i ++ data) },.ok ()) ∧
        (Keeps P (Os.writeFile p data) d ↔ d.All P (.create p))) ∨
      (∀ d', ¬Opens d p d') ∧ Keeps P (Os.writeFile p data) d ∧
        ∃ err, (Os.writeFile p data).eval Disk.act d = (d,.error err) := by
  unfold Os.writeFile
  rw [keeps_call,act_call]
  cases hans : (d.run (.create p)).answer with
  | ok i => exact .inl ⟨i,_,⟨i,hans,rfl⟩,rfl,and_iff_left (keeps_append.mpr trivial)⟩
  | error err =>
    have hrun : d.run (.create p) = d.failed err := Disk.create_error hans
    refine .inr ⟨?_,⟨Disk.all_of_quiet (by rw [hrun]; rfl),trivial⟩,err,by rw [hrun]; rfl⟩
    rintro d' ⟨i,hi,-⟩
    rw [hans] at hi
    cases hi

theorem enter_found (hq : ValidPlace (r ++ [c])) (hv : d.vacantEntry (absText (r ++ [c])) = .ok e) :
    (d.enter e .dir).found (absText (r ++ [c])) = .ok (e.place,.dir) := by
  obtain ⟨he,hvac⟩ := Disk.vacantEntry_ok.mp hv
  obtain ⟨hdir,hfree⟩ := Disk.vacant_iff.mp hvac
  obtain ⟨hw,hname⟩ := (Disk.entryAt_some_iff hq).mp he
  have hext : Extends d.tree (d.enter e .dir).tree := extends_put hfree
  have hentry : (d.enter e .dir).tree.entryAt (absText (r ++ [c])) = some e :=
    (Disk.entryAt_some_iff hq).mpr ⟨walk_extends hext hw,hname⟩
  have hself : (d.enter e .dir).tree.node e.place = some .dir :=
    node_put_self (by simp [Entry.place]) (by rwa [Entry.place,List.dropLast_concat])
  exact Disk.found_named hq (Disk.named_ok.mpr ⟨hentry,dirAt_iff.mpr (hext _ _ hdir),hself⟩)
    fun _ => by simp

theorem ready_found (hq : ValidPlace (r ++ [c])) (h : Ready d (absText (r ++ [c])) d') :
    ∃ D, d'.found (absText (r ++ [c])) = .ok (D,.dir) := by
  cases h with
  | found h => exact folder_iff.mp h
  | made e hv => exact ⟨e.place,enter_found hq hv⟩

theorem ready_unique {u : Disk} (hq : ValidPlace (r ++ [c])) (h : Ready d (absText (r ++ [c])) d')
    (k : Ready d (absText (r ++ [c])) u) : d' = u := by
  have hexcl {e : Entry} (hf : Folder d (absText (r ++ [c])))
      (hv : d.vacantEntry (absText (r ++ [c])) = .ok e) : False := by
    obtain ⟨D,hD⟩ := folder_iff.mp hf
    obtain ⟨he,hvac⟩ := Disk.vacantEntry_ok.mp hv
    rw [Disk.found_vacant hq he hvac] at hD
    cases hD
  cases h with
  | found h =>
    cases k with
    | found k => rfl
    | made e hv => exact (hexcl h hv).elim
  | made e hv =>
    cases k with
    | found k => exact (hexcl k hv).elim
    | made e' hv' =>
      obtain rfl := Except.ok.inj (hv.symm.trans hv')
      rfl

theorem found_above {pre : Place} (hq : ValidPlace q) (h : Folder d (absText q)) (hp : pre <+: q) :
    Folder d (absText pre) := by
  obtain ⟨s,rfl⟩ := hp
  by_cases hs : s = []
  · rwa [hs,List.append_nil] at h
  · obtain ⟨st,hstat,-⟩ := h
    exact folder_above hq hs hstat

theorem vacant_not_folder (hq : ValidPlace q) {x : Entry} (h : d.vacantEntry (absText q) = .ok x) :
    ¬Folder d (absText q) := by
  intro hf
  obtain ⟨he,hv⟩ := Disk.vacantEntry_ok.mp h
  obtain ⟨D,hD⟩ := folder_iff.mp hf
  rcases List.eq_nil_or_concat' q with rfl | ⟨r,c,rfl⟩
  · simp [entryAt_root] at he
  · rw [Disk.found_vacant hq he hv] at hD
    cases hD

theorem vacant_parent (hq : ValidPlace (r ++ [c])) {x : Entry}
    (h : d.vacantEntry (absText (r ++ [c])) = .ok x) : Folder d (absText r) := by
  obtain ⟨he,hv⟩ := Disk.vacantEntry_ok.mp h
  obtain ⟨hw,-⟩ := (Disk.entryAt_some_iff hq).mp he
  exact folder_of_walk (ValidPlace.append.mp hq).1 hw (Disk.vacant_iff.mp hv).1

-- what MkdirAll may come to: where directories are made, the first of them is the entry x, which a
-- part of the path names, and the last is empty
inductive MadeAll (P : Effect → Prop) (q : Place) (d : Disk) : Prop where
  | there (h : Folder d (absText q))
      (result : (Os.mkdirAllFrom q.reverse).eval Disk.act d = (d,.ok ()))
      (keeps : Keeps P (Os.mkdirAllFrom q.reverse) d)
  | made (pre : Place) (x : Entry) (post : Place) (d' : Disk) (split : q = pre ++ post)
      (vacant : d.vacantEntry (absText pre) = .ok x) (grown : Extends d.tree d'.tree)
      (found : d'.found (absText q) = .ok (x.place ++ post,.dir))
      (empty : ∀ n, d'.tree.node (x.place ++ post ++ [n]) = none)
      (result : (Os.mkdirAllFrom q.reverse).eval Disk.act d = (d',.ok ()))
      (keeps : Keeps P (Os.mkdirAllFrom q.reverse) d ↔ P (.create x))
  | failed (err : SysErr) (nofolder : ¬Folder d (absText q))
      (none : ∀ pre, pre <+: q → ∀ x, d.vacantEntry (absText pre) ≠ .ok x)
      (result : (Os.mkdirAllFrom q.reverse).eval Disk.act d = (d,.error err))
      (keeps : Keeps P (Os.mkdirAllFrom q.reverse) d)

theorem enter_empty {x : Entry} (h : d.tree.node x.place = none) (n : Name) :
    (d.enter x .dir).tree.node (x.place ++ [n]) = none := by
  have hbelow : d.tree.node (x.place ++ [n]) = none := by
    cases hn : d.tree.node (x.place ++ [n]) with
    | none => rfl
    | some nd => exact absurd h (node_above hn (List.prefix_append _ _))
  have hne : x.place ++ [n] ≠ x.place := by simp
  exact (node_put_other h hne).trans hbelow

theorem mkdirAll_cases (hdown : ∀ x post n, P (.create x) → P (.create ⟨x.place ++ post,n⟩))
    (hq : ValidPlace q) (d : Disk) : MadeAll P q d := by
  induction q using List.reverseRecOn with
  | nil =>
    have hroot : Folder d (absText []) := ⟨_,stat_root,rfl⟩
    have h := mkdirAllFrom_folder (P := P) [] hroot
    exact .there hroot h.1 h.2
  | append_singleton r c ih =>
    have hnames : (r ++ [c]).reverse = c :: r.reverse := by simp
    by_cases hfolder : Folder d (absText (r ++ [c]))
    · have h := mkdirAllFrom_folder (P := P) (r ++ [c]).reverse
        (by rwa [List.reverse_reverse])
      exact .there hfolder h.1 h.2
    · have hmiss (hno : ¬Folder d (absText r)) : ∃ err, d.stat (absText (r ++ [c])) = .error err := by
        cases hs : d.stat (absText (r ++ [c])) with
        | error err => exact ⟨err,rfl⟩
        | ok st => exact absurd (folder_above hq (by simp) hs) hno
      cases ih (ValidPlace.append.mp hq).1 with
      | there h result keeps =>
        rcases mkdirAllFrom_below (P := P) hq h with ⟨d',hready,heval,hkeeps⟩ | ⟨hno,hkeeps,err,heval⟩
        · cases hready with
          | found hf => exact absurd hf hfolder
          | made x hv =>
            have hfree := (Disk.vacant_iff.mp (Disk.vacantEntry_ok.mp hv).2).2
            refine .made (r ++ [c]) x [] (d.enter x .dir) (by simp) hv (extends_put hfree) ?_ ?_
              (hnames ▸ heval) ?_
            · rw [List.append_nil]
              exact enter_found hq hv
            · rw [List.append_nil]
              exact enter_empty hfree
            · rw [hnames,hkeeps,hv]
              simp
        · refine .failed err hfolder ?_ (hnames ▸ heval) (hnames ▸ hkeeps)
          intro pre hp x hv
          rcases List.prefix_concat_iff.mp hp with rfl | hp
          · exact hno _ (.made x hv)
          · obtain ⟨s,rfl⟩ := hp
            have hr := (ValidPlace.append.mp hq).1
            exact vacant_not_folder (ValidPlace.append.mp hr).1 hv
              (found_above hr h (List.prefix_append pre s))
      | made pre x post d' split vacant grown found empty result keeps =>
        have hr := (ValidPlace.append.mp hq).1
        have hmissing : ¬Folder d (absText r) := by
          intro hf
          subst split
          exact vacant_not_folder (ValidPlace.append.mp hr).1 vacant
            (found_above hr hf (List.prefix_append pre post))
        have hv : d'.vacantEntry (absText (r ++ [c])) = .ok ⟨x.place ++ post,c⟩ :=
          Disk.vacantEntry_ok.mpr ⟨(Disk.entryAt_some_iff hq).mpr ⟨walk_of_found hr found,rfl⟩,
            Disk.vacant_iff.mpr ⟨(Disk.found_ok.mp found).2,empty c⟩⟩
        have hplace : (⟨x.place ++ post,c⟩ : Entry).place = x.place ++ (post ++ [c]) :=
          List.append_assoc _ _ _
        obtain ⟨err,hs⟩ := hmiss hmissing
        obtain ⟨heval,hkeeps⟩ := mkdirAllFrom_up (P := P) hs result
        obtain ⟨hlast,hlastkeeps⟩ := mkdirLast_made (P := P) hv
        refine .made pre x (post ++ [c]) (d'.enter ⟨x.place ++ post,c⟩ .dir) (by simp [split]) vacant
          (fun q nd h => extends_put (empty c) q nd (grown q nd h)) ?_ ?_ ?_ ?_
        · rw [← hplace]
          exact enter_found hq hv
        · rw [← hplace]
          exact enter_empty (empty c)
        · rw [hnames,heval,hlast]
        · rw [hnames,hkeeps,keeps,hlastkeeps]
          exact and_iff_left_of_imp (hdown x post c)
      | failed err nofolder none result keeps =>
        obtain ⟨err',hs⟩ := hmiss nofolder
        obtain ⟨heval,hkeeps⟩ := mkdirAllFrom_stop (P := P) hs result
        refine .failed err hfolder ?_ (hnames ▸ heval) (hnames ▸ hkeeps.mpr keeps)
        intro pre hp x hv
        rcases List.prefix_concat_iff.mp hp with rfl | hp
        · exact nofolder (vacant_parent hq hv)
        · exact none pre hp x hv

theorem vacant_prefix {pre pre' : Place} (hq : ValidPlace q) (hp : pre <+: q) (hp' : pre' <+: q)
    (hv : d.vacantEntry (absText pre) = .ok x) (hv' : d.vacantEntry (absText pre') = .ok y) :
    pre = pre' := by
  have hless : ∀ {a b : Place} {u w : Entry}, a <+: q → b <+: q → a.length < b.length →
      d.vacantEntry (absText a) = .ok u → d.vacantEntry (absText b) = .ok w → False := by
    intro a b u w ha hb hlen hu hw
    obtain ⟨s,rfl⟩ := List.prefix_of_prefix_length_le ha hb hlen.le
    obtain ⟨t,rfl⟩ := hb
    have hvalid := (ValidPlace.append.mp hq).1
    rcases List.eq_nil_or_concat' s with rfl | ⟨s,n,rfl⟩
    · simp at hlen
    · rw [← List.append_assoc] at hvalid hw
      exact vacant_not_folder (ValidPlace.append.mp (ValidPlace.append.mp hvalid).1).1 hu
        (found_above (ValidPlace.append.mp hvalid).1 (vacant_parent hvalid hw)
          (List.prefix_append a s))
  rcases lt_trichotomy pre.length pre'.length with hlt | heq | hlt
  · exact (hless hp hp' hlt hv hv').elim
  · exact (List.prefix_of_prefix_length_le hp hp' heq.le).eq_of_length heq
  · exact (hless hp' hp hlt hv' hv).elim

end Directories

end Posix
