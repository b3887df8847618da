import ServerHub.Interleave.Contract

namespace Interleave

section Observe

variable (S : System) {N : Type} (note : (β : Type) → S.Instr β → S.State → β → Option N)

def System.observe : System where
  Instr := S.Instr
  State := Traced S.State N
  Request := S.Request
  Answer := S.Answer
  Env := S.Env
  exec pid β i x := (S.exec pid i x.state).map fun r =>
    (⟨r.1,record pid x.log (note β i x.state r.2)⟩,r.2)
  handle := S.handle
  env e x := (S.env e x.state).map fun t => ⟨t,x.log⟩

variable {S note} {x y : Traced S.State N}

theorem exec_observe {pid : Nat} {β : Type} {i : S.Instr β} {b : β}
    (h : (S.observe note).exec pid i x = some (y,b)) :
    S.exec pid i x.state = some (y.state,b) ∧
      y.log = record pid x.log (note β i x.state b) := by
  have hm : ((S.exec pid i x.state).map fun r =>
      ((⟨r.1,record pid x.log (note β i x.state r.2)⟩ : Traced S.State N),r.2)) = some (y,b) := h
  rw [Option.map_eq_some_iff] at hm
  obtain ⟨⟨t,c⟩,hx,he⟩ := hm
  rw [Prod.mk.injEq] at he
  obtain ⟨rfl,rfl⟩ := he
  exact ⟨hx,rfl⟩

theorem env_observe {e : S.Env} (h : (S.observe note).env e x = some y) :
    S.env e x.state = some y.state ∧ y.log = x.log := by
  have hm : (S.env e x.state).map (fun t => (⟨t,x.log⟩ : Traced S.State N)) = some y := h
  rw [Option.map_eq_some_iff] at hm
  obtain ⟨t,ht,rfl⟩ := hm
  exact ⟨ht,rfl⟩

end Observe

section Notes

variable {N : Type}

def notesOf (pid : Nat) (log : List (Nat × N)) : List N := (own pid log).map Prod.snd

theorem notesOf_record (pid : Nat) (log : List (Nat × N)) (n : Option N) :
    notesOf pid (record pid log n) = n.toList ++ notesOf pid log := by
  cases n with
  | none => rfl
  | some n => simp [notesOf,own,record]

theorem mem_notesOf {pid : Nat} {log : List (Nat × N)} {n : N} :
    n ∈ notesOf pid log ↔ (pid,n) ∈ log := by
  constructor
  · intro hn
    obtain ⟨⟨q,m⟩,hm,rfl⟩ := List.mem_map.mp hn
    obtain ⟨hlog,hq⟩ := List.mem_filter.mp hm
    obtain rfl := beq_iff_eq.mp hq
    exact hlog
  · exact fun h => List.mem_map_of_mem (List.mem_filter.mpr ⟨h,by simp⟩)

theorem lastOwn_notesOf (p : N → Bool) (pid : Nat) (log : List (Nat × N)) :
    lastOwn p pid log = (notesOf pid log).find? p := by
  rw [lastOwn_eq_find,notesOf,List.find?_map]
  rfl

theorem notesOf_other {pid q : Nat} (log : List (Nat × N)) (n : Option N) (h : q ≠ pid) :
    notesOf q (record pid log n) = notesOf q log := by
  rw [notesOf,own_record pid log n h,notesOf]

end Notes

namespace Prog

variable {ι : Type → Type} {N α β γ : Type}

def Yields (P : (β : Type) → ι β → β → Option N → Prop) (G : N → Prop) (Q : List N → α → Prop) :
    Prog ι α → List N → Prop
  | .ret a, ns => Q ns a
  | .step i k, ns => ∀ b n, P _ i b n → (∀ m ∈ n, G m) ∧ (k b).Yields P G Q (n.toList ++ ns)

variable {P : (β : Type) → ι β → β → Option N → Prop} {G : N → Prop}

theorem yields_perform {i : ι β} {f : β → Prog ι α} {Q : List N → α → Prop} {ns : List N}
    (h : ∀ b n, P β i b n → (∀ m ∈ n, G m) ∧ (f b).Yields P G Q (n.toList ++ ns)) :
    (perform i >>= f).Yields P G Q ns := h

theorem yields_bind {Q : List N → α → Prop} {R : List N → γ → Prop} {p : Prog ι α}
    {f : α → Prog ι γ} {ns : List N} (hp : p.Yields P G Q ns)
    (hf : ∀ a ns', Q ns' a → (f a).Yields P G R ns') : (p >>= f).Yields P G R ns := by
  induction p generalizing ns with
  | ret a => exact hf a ns hp
  | step i k ih =>
    intro b n hb
    obtain ⟨hg,hk⟩ := hp b n hb
    exact ⟨hg,ih b hk⟩

theorem yields_mono {Q R : List N → α → Prop} {p : Prog ι α} {ns : List N}
    (hqr : ∀ a ns', Q ns' a → R ns' a) (hp : p.Yields P G Q ns) : p.Yields P G R ns := by
  induction p generalizing ns with
  | ret a => exact hqr a ns hp
  | step i k ih =>
    intro b n hb
    obtain ⟨hg,hk⟩ := hp b n hb
    exact ⟨hg,ih b hk⟩

theorem yields_collect {f : α → Prog ι β} {R : α → List N → β → Prop} {as : List α}
    (h : ∀ a ∈ as, ∀ ns,
      (f a).Yields P G (fun ns' b => ∃ left, ns' = left ++ ns ∧ R a left b) ns) (ns : List N) :
    (collect f as).Yields P G (fun ns' bs => ∃ xs : List (List N × β),
      bs = xs.map Prod.snd ∧ ns' = (xs.map Prod.fst).reverse.flatten ++ ns ∧
        List.Forall₂ (fun a x => R a x.1 x.2) as xs) ns := by
  induction as generalizing ns with
  | nil => exact ⟨[],rfl,rfl,.nil⟩
  | cons a as ih =>
    rw [collect_cons]
    refine yields_bind (h a List.mem_cons_self ns) ?_
    rintro b _ ⟨left,rfl,hb⟩
    refine yields_bind (ih (fun c hc => h c (List.mem_cons_of_mem a hc)) (left ++ ns)) ?_
    rintro bs _ ⟨xs,rfl,rfl,hxs⟩
    exact ⟨(left,b) :: xs,rfl,by simp,.cons hb hxs⟩

section Separate

variable {κ : Type} [DecidableEq κ] {R : α → List N → β → Prop} {k : N → κ} {key : α → κ}
  (hR : ∀ a left b, R a left b → ∀ m ∈ left, k m = key a)

include hR

omit [DecidableEq κ] in
theorem notes_keyed {as : List α} {xs : List (List N × β)}
    (h : List.Forall₂ (fun a x => R a x.1 x.2) as xs) :
    ∀ m ∈ (xs.map Prod.fst).reverse.flatten, ∃ a ∈ as, k m = key a := by
  induction h with
  | nil => simp
  | cons hx _ ih =>
    intro m hm
    simp only [List.map_cons,List.reverse_cons,List.flatten_append,List.flatten_singleton,
      List.mem_append] at hm
    rcases hm with hm | hm
    · obtain ⟨a,ha,hk⟩ := ih m hm
      exact ⟨a,List.mem_cons_of_mem _ ha,hk⟩
    · exact ⟨_,List.mem_cons_self,hR _ _ _ hx m hm⟩

theorem notes_separate {as : List α} {xs : List (List N × β)}
    (h : List.Forall₂ (fun a x => R a x.1 x.2) as xs) (hn : (as.map key).Nodup) :
    ∀ a ∈ as, ∃ x ∈ xs, R a x.1 x.2 ∧
      (xs.map Prod.fst).reverse.flatten.filter (fun m => decide (k m = key a)) = x.1 := by
  induction h with
  | nil => simp
  | @cons a x as xs hx hxs ih =>
    obtain ⟨hfresh,hrest⟩ := List.nodup_cons.mp hn
    have hkeys : ∀ c ∈ as, key c ≠ key a := fun c hc he => hfresh (he ▸ List.mem_map_of_mem hc)
    intro c hc
    simp only [List.map_cons,List.reverse_cons,List.flatten_append,List.flatten_singleton,
      List.filter_append]
    rcases List.mem_cons.mp hc with rfl | hc
    · refine ⟨x,List.mem_cons_self,hx,?_⟩
      rw [List.filter_eq_self.mpr fun m hm => decide_eq_true (hR _ _ _ hx m hm),
        List.filter_eq_nil_iff.mpr,List.nil_append]
      intro m hm hk
      obtain ⟨d,hd,hkd⟩ := notes_keyed hR hxs m hm
      exact hkeys d hd (hkd.symm.trans (of_decide_eq_true hk))
    · obtain ⟨y,hy,hc',hown⟩ := ih hrest c hc
      refine ⟨y,List.mem_cons_of_mem x hy,hc',?_⟩
      rw [hown,List.filter_eq_nil_iff.mpr,List.append_nil]
      intro m hm hk
      exact hkeys c hc ((of_decide_eq_true hk).symm.trans (hR _ _ _ hx m hm))

end Separate

end Prog

section Transcribed

variable {S : System} {N : Type} {note : (β : Type) → S.Instr β → S.State → β → Option N}
  {P : (β : Type) → S.Instr β → β → Option N → Prop} {G : N → Prop}
  {Q : S.Request → List N → S.Answer → Prop} {I : Traced S.State N → Prop}

structure Transcribed (P : (β : Type) → S.Instr β → β → Option N → Prop) (G : N → Prop)
    (Q : S.Request → List N → S.Answer → Prop) (I : Traced S.State N → Prop)
    (es : List (Event (S.observe note))) (w : World (S.observe note)) : Prop where
  inv : I w.state
  noted : ∀ e ∈ w.state.log, G e.2
  unlogged : ∀ pid, w.pool pid = none → notesOf pid w.state.log = []
  told : ∀ pid p, w.pool pid = some p → ∃ r, .start pid r ∈ es ∧
    p.Yields P G (Q r) (notesOf pid w.state.log)

variable {es : List (Event (S.observe note))} {w v : World (S.observe note)}

theorem Transcribed.step {e : Event (S.observe note)} (he : e ∈ es)
    (hexec : ∀ pid x {β : Type} (i : S.Instr β) y b, I x →
      (S.observe note).exec pid i x = some (y,b) → I y ∧ P β i b (note β i x.state b))
    (henv : ∀ e x y, I x → (S.observe note).env e x = some y → I y)
    (hreq : ∀ pid r, .start pid r ∈ es → (S.handle r).Yields P G (Q r) [])
    (hw : Transcribed P G Q I es w) (h : w.step e = some v) : Transcribed P G Q I es v := by
  cases e with
  | start pid r =>
    obtain ⟨hn,hst,hpool⟩ := step_start h
    refine ⟨hst ▸ hw.inv,hst ▸ hw.noted,?_,?_⟩
    · intro q hq
      have hne : q ≠ pid := by
        rintro rfl
        simp [hpool] at hq
      rw [hpool,Function.update_of_ne hne] at hq
      exact hst ▸ hw.unlogged q hq
    · intro q p hqp
      rw [hpool] at hqp
      rw [hst]
      by_cases e : q = pid
      · subst e
        rw [Function.update_self,Option.some.injEq] at hqp
        rw [hw.unlogged q hn]
        exact ⟨r,he,hqp ▸ hreq q r he⟩
      · rw [Function.update_of_ne e] at hqp
        exact hw.told q p hqp
  | act pid =>
    obtain ⟨β,i,k,b,hp,hx,hpool⟩ := step_act h
    obtain ⟨hinv,hb⟩ := hexec pid w.state i v.state b hw.inv hx
    have hlog := (exec_observe hx).2
    obtain ⟨r,hr,hyields⟩ := hw.told pid _ hp
    obtain ⟨hg,hrest⟩ := hyields b _ hb
    refine ⟨hinv,?_,?_,?_⟩
    · intro e he
      rw [hlog] at he
      cases hn : note β i w.state.state b with
      | none =>
        rw [hn] at he
        exact hw.noted e he
      | some n =>
        rw [hn] at he
        rcases List.mem_cons.mp he with rfl | he
        · exact hg n hn
        · exact hw.noted e he
    · intro q hq
      have hne : q ≠ pid := by
        rintro rfl
        simp [hpool] at hq
      rw [hpool,Function.update_of_ne hne] at hq
      rw [hlog,notesOf_other _ _ hne]
      exact hw.unlogged q hq
    · intro q p hqp
      rw [hpool] at hqp
      rw [hlog]
      by_cases e : q = pid
      · subst e
        rw [Function.update_self,Option.some.injEq] at hqp
        rw [notesOf_record]
        exact ⟨r,hr,hqp ▸ hrest⟩
      · rw [Function.update_of_ne e] at hqp
        rw [notesOf_other _ _ e]
        exact hw.told q p hqp
  | env e =>
    obtain ⟨hx,hpool⟩ := step_env h
    have hlog := (env_observe hx).2
    refine ⟨henv e _ _ hw.inv hx,hlog ▸ hw.noted,?_,?_⟩
    · intro q hq
      exact hlog ▸ hw.unlogged q (hpool ▸ hq)
    · intro q p hqp
      exact hlog ▸ hw.told q p (hpool ▸ hqp)

theorem transcribed {s : S.State} (h0 : I ⟨s,[]⟩)
    (hexec : ∀ pid x {β : Type} (i : S.Instr β) y b, I x →
      (S.observe note).exec pid i x = some (y,b) → I y ∧ P β i b (note β i x.state b))
    (henv : ∀ e x y, I x → (S.observe note).env e x = some y → I y)
    (hreq : ∀ pid r, .start pid r ∈ es → (S.handle r).Yields P G (Q r) [])
    (hv : (World.idle (⟨s,[]⟩ : Traced S.State N) : World (S.observe note)).run es = some v) :
    Transcribed P G Q I es v := by
  have hinit : Transcribed P G Q I es
      (World.idle (⟨s,[]⟩ : Traced S.State N) : World (S.observe note)) :=
    ⟨h0,by simp [World.idle],fun _ _ => rfl,by simp [World.idle]⟩
  have hmem : Along (fun _ e => e ∈ es)
      (World.idle (⟨s,[]⟩ : Traced S.State N) : World (S.observe note)) es :=
    along_of_mem (fun e he _ => he) _
  exact along_invariant (fun _ _ _ hw he hs => hw.step he hexec henv hreq hs) hinit hmem hv

theorem Transcribed.answered {s : (S.observe note).State} (h : Transcribed P G Q I es v)
    (hv : (World.idle s).run es = some v) {pid : Nat} {r : S.Request} {a : S.Answer}
    (hm : .start pid r ∈ es) (hp : v.pool pid = some (.ret a)) :
    Q r (notesOf pid v.state.log) a := by
  obtain ⟨r',hr',hyields⟩ := h.told pid _ hp
  obtain rfl : r = r' := started_once (S := S.observe note) hv hm hr'
  exact hyields

end Transcribed

section Observed

variable {S : System} {N : Type} {note : (β : Type) → S.Instr β → S.State → β → Option N}
  {D : Discipline (S.observe note)} {Q : Nat → S.Request → S.Answer → Traced S.State N → Prop}
  {s : S.State} {es : List (Event (S.observe note))} {w v : World (S.observe note)}

def Unseen (w : World (S.observe note)) : Prop :=
  ∀ pid, w.pool pid = none → own pid w.state.log = []

theorem Unseen.step {e : Event (S.observe note)} (hw : Unseen w) (h : w.step e = some v) :
    Unseen v := by
  intro q hq
  cases e with
  | start pid r =>
    obtain ⟨-,hst,hpool⟩ := step_start h
    have hne : q ≠ pid := by
      rintro rfl
      simp [hpool] at hq
    rw [hpool,Function.update_of_ne hne] at hq
    exact hst ▸ hw q hq
  | act pid =>
    obtain ⟨β,i,k,b,-,hx,hpool⟩ := step_act h
    have hne : q ≠ pid := by
      rintro rfl
      simp [hpool] at hq
    rw [hpool,Function.update_of_ne hne] at hq
    rw [(exec_observe hx).2,own_record pid _ _ hne]
    exact hw q hq
  | env e =>
    obtain ⟨hx,hpool⟩ := step_env h
    rw [(env_observe hx).2]
    exact hw q (hpool ▸ hq)

def begun (s : S.State) : World (S.observe note) :=
  World.idle (⟨s,[]⟩ : Traced S.State N)

theorem unseen_begun (s : S.State) : Unseen (begun s : World (S.observe note)) := by
  intro pid _
  rfl

theorem unseen_run (hv : (begun s).run es = some v) : Unseen v :=
  along_invariant (C := fun _ _ => True) (fun _ _ _ hw _ hs => hw.step hs) (unseen_begun s)
    (along_of_mem (fun _ _ _ => trivial) _) hv

def Answers (es : List (Event (S.observe note)))
    (Q : Nat → S.Request → S.Answer → Traced S.State N → Prop) (pid : Nat) (a : S.Answer)
    (x : Traced S.State N) : Prop :=
  ∃ r, .start pid r ∈ es ∧ Q pid r a x

section Requests

variable
  (hreq : ∀ pid r x, .start pid r ∈ es → D.Inv x → own pid x.log = [] →
    D.Safe pid (Q pid r) (S.handle r) x)
  (hstable : ∀ pid r a x y, D.Rely pid x y → Q pid r a x → Q pid r a y)
  (henv : ∀ e x y, D.Inv x → (S.observe note).env e x = some y →
    D.Inv y ∧ ∀ pid, D.Rely pid x y)

include hreq hstable henv

theorem observed_step {e : Event (S.observe note)} (hw : D.HeldTo (Answers es Q) w ∧ Unseen w)
    (hc : Landing D.Allow w e ∧ e ∈ es) (h : w.step e = some v) :
    D.HeldTo (Answers es Q) v ∧ Unseen v := by
  refine ⟨Discipline.heldTo_step ?_ henv hw.1 hc.1 ?_ h,hw.2.step h⟩
  · exact fun pid a x y hrely ⟨r,hm,ha⟩ => ⟨r,hm,hstable pid r a x y hrely ha⟩
  · rintro pid r rfl
    have hstart := hreq pid r w.state hc.2 hw.1.1 (hw.2 pid (step_start h).1)
    exact Discipline.Safe.mono (fun a x _ ha => ⟨r,hc.2,ha⟩) hw.1.1 hstart

omit hreq hstable henv in
theorem heldTo_begun (h0 : D.Inv ⟨s,[]⟩) :
    D.HeldTo (Answers es Q) (begun s) ∧ Unseen (begun s : World (S.observe note)) :=
  ⟨⟨h0,by simp [begun,World.idle]⟩,unseen_begun s⟩

theorem observed (h0 : D.Inv ⟨s,[]⟩) (hc : Along (Landing D.Allow) (begun s) es)
    (hv : (begun s).run es = some v) :
    D.Inv v.state ∧ ∀ pid r a, .start pid r ∈ es → v.pool pid = some (.ret a) →
      Q pid r a v.state := by
  have hmem : Along (fun _ e => e ∈ es) (begun s) es := along_of_mem (fun e he _ => he) _
  have hend := along_invariant (fun _ _ _ hw hce hs => observed_step hreq hstable henv hw hce hs)
    (heldTo_begun h0) (along_and hc hmem) hv
  refine ⟨hend.1.1,fun pid r a hm hp => ?_⟩
  obtain ⟨r',hm',h⟩ := hend.1.2 pid _ hp
  obtain rfl : r = r' := started_once (S := S.observe note) hv hm hm'
  exact h

theorem observed_duty (h0 : D.Inv ⟨s,[]⟩) (hc : Along (Landing D.Allow) (begun s) es) :
    Along (Landing D.Duty) (begun s) es := by
  have hmem : Along (fun _ e => e ∈ es) (begun s) es := along_of_mem (fun e he _ => he) _
  refine along_mono (fun _ _ _ hw hce hs => observed_step hreq hstable henv hw hce hs) ?_
    (heldTo_begun h0) (along_and hc hmem)
  intro w e hw hce
  cases e with
  | start pid r => trivial
  | env e => trivial
  | act pid =>
    intro β i k hp u b hx
    have hallow := hce.1 β i k hp u b hx
    exact (hw.1.2 pid _ hp w.state (D.rely_refl pid _) hw.1.1 hallow u b hx).1

end Requests

end Observed

end Interleave
