import ServerHub.Interleave.History

namespace Interleave

namespace Prog

variable {ι : Type → Type} {σ α β γ : Type}

def eval (step : {β : Type} → ι β → σ → σ × β) : Prog ι α → σ → σ × α
  | .ret a, s => (s,a)
  | .step i k, s => eval step (k (step i s).2) (step i s).1

variable {step : {β : Type} → ι β → σ → σ × β}

@[simp] theorem eval_ret (a : α) (s : σ) : (.ret a : Prog ι α).eval step s = (s,a) := rfl

@[simp] theorem eval_perform_bind (i : ι β) (k : β → Prog ι α) (s : σ) :
    (perform i >>= k).eval step s = (k (step i s).2).eval step (step i s).1 := rfl

@[simp] theorem eval_perform (i : ι β) (s : σ) : (perform i).eval step s = step i s := rfl

theorem eval_bind (p : Prog ι α) (f : α → Prog ι γ) (s : σ) :
    (p >>= f).eval step s = (f (p.eval step s).2).eval step (p.eval step s).1 := by
  induction p generalizing s with
  | ret a => rfl
  | step i k ih => exact ih (step i s).2 (step i s).1

theorem eval_collect_cons (f : α → Prog ι β) (a : α) (as : List α) (s : σ) :
    (collect f (a :: as)).eval step s =
      (((collect f as).eval step ((f a).eval step s).1).1,
        ((f a).eval step s).2 :: ((collect f as).eval step ((f a).eval step s).1).2) := by
  rw [collect_cons,eval_bind,eval_bind,eval_ret]

theorem eval_collect_append (f : α → Prog ι β) (as bs : List α) (s : σ) :
    (collect f (as ++ bs)).eval step s =
      (((collect f bs).eval step ((collect f as).eval step s).1).1,
        ((collect f as).eval step s).2 ++ ((collect f bs).eval step ((collect f as).eval step s).1).2) := by
  induction as generalizing s with
  | nil => rfl
  | cons a as ih => rw [List.cons_append,eval_collect_cons,eval_collect_cons,ih,List.cons_append]

theorem eval_keeps {P : {β : Type} → ι β → Prop} {I : σ → Prop}
    (h : ∀ s {β : Type} (i : ι β), P i → I s → I (step i s).1) {p : Prog ι α} (hp : p.Uses P)
    {s : σ} (hs : I s) : I (p.eval step s).1 := by
  induction p generalizing s with
  | ret a => exact hs
  | step i k ih => exact ih (step i s).2 (hp.2 _) (h s i hp.1 hs)

section Meets

def Meets (step : {β : Type} → ι β → σ → σ × β) (P : σ → {β : Type} → ι β → Prop) :
    Prog ι α → σ → Prop
  | .ret _, _ => True
  | .step i k, s => P s i ∧ Meets step P (k (step i s).2) (step i s).1

instance meetsDecidable (P : σ → {β : Type} → ι β → Prop)
    [h : ∀ s (β : Type) (i : ι β), Decidable (P s i)] :
    (p : Prog ι α) → (s : σ) → Decidable (p.Meets step P s)
  | .ret _, _ => isTrue trivial
  | .step i k, s =>
      match h s _ i,meetsDecidable P (k (step i s).2) (step i s).1 with
      | isTrue hi,isTrue hk => isTrue ⟨hi,hk⟩
      | isFalse hi,_ => isFalse fun hm => hi hm.1
      | _,isFalse hk => isFalse fun hm => hk hm.2

def Triple (step : {β : Type} → ι β → σ → σ × β) (P : σ → {β : Type} → ι β → Prop)
    (pre : σ → Prop) (p : Prog ι α) (post : α → σ → Prop) : Prop :=
  ∀ s, pre s → p.Meets step P s → post (p.eval step s).2 (p.eval step s).1

variable {P : σ → {β : Type} → ι β → Prop} {pre : σ → Prop} {post : α → σ → Prop}

theorem meets_bind {p : Prog ι α} {f : α → Prog ι γ} {s : σ} :
    (p >>= f).Meets step P s ↔
      p.Meets step P s ∧ (f (p.eval step s).2).Meets step P (p.eval step s).1 := by
  induction p generalizing s with
  | ret a => exact ⟨fun h => ⟨trivial,h⟩,And.right⟩
  | step i k ih =>
    show P s i ∧ (k (step i s).2 >>= f).Meets step P (step i s).1 ↔ _
    rw [ih (step i s).2]
    exact and_assoc.symm

theorem meets_of_forall (h : ∀ s {β : Type} (i : ι β), P s i) (p : Prog ι α) (s : σ) :
    p.Meets step P s := by
  induction p generalizing s with
  | ret a => trivial
  | step i k ih => exact ⟨h s i,ih _ _⟩

theorem triple_ret {a : α} (h : ∀ s, pre s → post a s) : Triple step P pre (.ret a) post :=
  fun s hs _ => h s hs

theorem triple_perform {i : ι β} {post : β → σ → Prop}
    (h : ∀ s, pre s → P s i → post (step i s).2 (step i s).1) :
    Triple step P pre (perform i) post :=
  fun s hs hm => h s hs hm.1

theorem triple_bind {mid : α → σ → Prop} {p : Prog ι α} {f : α → Prog ι γ} {post : γ → σ → Prop}
    (hp : Triple step P pre p mid) (hf : ∀ a, Triple step P (mid a) (f a) post) :
    Triple step P pre (p >>= f) post := by
  intro s hs hm
  obtain ⟨hfirst,hrest⟩ := meets_bind.mp hm
  rw [eval_bind]
  exact hf _ _ (hp s hs hfirst) hrest

theorem triple_mono {pre' : σ → Prop} {post' : α → σ → Prop} {p : Prog ι α}
    (hpre : ∀ s, pre' s → pre s) (hpost : ∀ a s, post a s → post' a s)
    (hp : Triple step P pre p post) : Triple step P pre' p post' :=
  fun s hs hm => hpost _ _ (hp s (hpre s hs) hm)

end Meets

section Lift

variable {κ : Type → Type}

def lift (f : {β : Type} → ι β → κ β) : Prog ι α → Prog κ α
  | .ret a => .ret a
  | .step i k => .step (f i) fun b => lift f (k b)

variable {f : {β : Type} → ι β → κ β} {step' : {β : Type} → κ β → σ → σ × β}

theorem eval_lift (h : ∀ {β : Type} (i : ι β) (s : σ), step' (f i) s = step i s) (p : Prog ι α)
    (s : σ) : (p.lift f).eval step' s = p.eval step s := by
  induction p generalizing s with
  | ret a => rfl
  | step i k ih =>
    show ((k (step' (f i) s).2).lift f).eval step' (step' (f i) s).1 = _
    rw [h i s]
    exact ih _ _

theorem meets_lift {P : σ → {β : Type} → ι β → Prop} {Q : σ → {β : Type} → κ β → Prop}
    (h : ∀ {β : Type} (i : ι β) (s : σ), step' (f i) s = step i s)
    (hpq : ∀ {β : Type} (i : ι β) (s : σ), Q s (f i) ↔ P s i) (p : Prog ι α) (s : σ) :
    (p.lift f).Meets step' Q s ↔ p.Meets step P s := by
  induction p generalizing s with
  | ret a => exact Iff.rfl
  | step i k ih =>
    show Q s (f i) ∧ ((k (step' (f i) s).2).lift f).Meets step' Q (step' (f i) s).1 ↔ _
    rw [h i s,hpq i s,ih]
    rfl

end Lift

end Prog

end Interleave
