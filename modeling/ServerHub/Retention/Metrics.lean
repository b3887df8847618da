import Mathlib.Algebra.BigOperators.Group.List.Basic
import Mathlib.Data.List.Dedup
import ServerHub.Delivery.Retention

namespace Retention

open Relational Delivery

structure ServerMetric where
  ctid : Nat
  serverID : Nat
  timestamp : Int
deriving DecidableEq

instance : Keyed ServerMetric := ⟨ServerMetric.ctid⟩

abbrev Metrics := Table ServerMetric

-- the orders in which the database hands out what a query leaves open: the servers of a DISTINCT, and
-- rows of one timestamp, at the given statement
structure Planner where
  distinct : List Nat → List Nat
  distinct_nodup : ∀ ids, (distinct ids).Nodup
  mem_distinct : ∀ ids id, id ∈ distinct ids ↔ id ∈ ids
  sorted : Nat → List ServerMetric → List ServerMetric
  sorted_perm : ∀ n rows, (sorted n rows).Perm rows
  sorted_asc : ∀ n rows, (sorted n rows).Pairwise fun a b => a.timestamp ≤ b.timestamp

section Source

variable (p : Planner) (cut : Int)

def expired (r : ServerMetric) : Bool := decide (r.timestamp < cut)

def expiredOf (sid : Nat) (r : ServerMetric) : Bool := decide (r.serverID = sid) && expired cut r

def deleteBatch (sid n : Nat) (t : Metrics) : Metrics × Nat :=
  let ctids := ((p.sorted n (t.select (expiredOf cut sid))).take batchSize).map ServerMetric.ctid
  let doomed (r : ServerMetric) : Bool := decide (r.ctid ∈ ctids)
  (t.remove doomed,t.count doomed)

-- the inner loop with the batches that are left: the rows deleted, and the batches left after it
def deleteServer (sid : Nat) : Nat → Metrics → Metrics × Nat × Nat
  | 0, t => (t,0,0)
  | left + 1, t =>
      let (u,n) := deleteBatch p cut sid left t
      if n < batchSize then (u,n,left)
      else
        let (v,total,rest) := deleteServer sid left u
        (v,n + total,rest)

def deleteServers : List Nat → Nat → Metrics → Metrics × Nat
  | [], _, t => (t,0)
  | sid :: sids, left, t =>
      if left = 0 then (t,0)
      else
        let (u,n,rest) := deleteServer p cut sid left t
        let (v,total) := deleteServers sids rest u
        (v,n + total)

def expiredServers (t : Metrics) : List Nat :=
  p.distinct ((t.select (expired cut)).map ServerMetric.serverID)

def cleanupSince (t : Metrics) (retentionDays now : Int) : Metrics × Except String Nat :=
  if retentionDays < 1 then (t,.error "retention must be at least 1 day")
  else
    let cut := cutoff now retentionDays
    let (u,total) := deleteServers p cut (expiredServers p cut t) maxBatchesPerRun t
    (u,.ok total)

end Source

section Deletes

def Deletes (p : ServerMetric → Bool) (t u : Metrics) (n : Nat) : Prop :=
  ∃ q, (∀ r ∈ t.rows, q r = true → p r = true) ∧ u = t.remove q ∧ n = t.count q

variable {p p' : ServerMetric → Bool} {t u v : Metrics} {n m : Nat}

theorem deletes_refl (p : ServerMetric → Bool) (t : Metrics) : Deletes p t t 0 :=
  ⟨fun _ => false,fun _ _ h => Bool.noConfusion h,t.remove_none.symm,by simp [Table.count]⟩

theorem Deletes.trans (h : Deletes p t u n) (k : Deletes p u v m) : Deletes p t v (n + m) := by
  obtain ⟨q,hq,rfl,rfl⟩ := h
  obtain ⟨q',hq',rfl,rfl⟩ := k
  refine ⟨fun r => q r || q' r,fun r hr hor => ?_,t.remove_remove q q',?_⟩
  · cases hfirst : q r with
    | true => exact hq r hr hfirst
    | false =>
      simp only [hfirst,Bool.false_or] at hor
      exact hq' r (Table.mem_remove.mpr ⟨hr,hfirst⟩) hor
  · have hleft : (t.remove q).count (fun r => q r || q' r) = (t.remove q).count q' := by
      refine List.countP_congr fun r hr => ?_
      rw [(Table.mem_remove.mp hr).2,Bool.false_or]
    have hall := Table.count_remove (t := t) (p := fun r => q r || q' r) (q := q) fun r _ hr => by simp [hr]
    omega

theorem Deletes.mono (hp : ∀ r, p r = true → p' r = true) (h : Deletes p t u n) : Deletes p' t u n := by
  obtain ⟨q,hq,hu,hn⟩ := h
  exact ⟨q,fun r hr hqr => hp r (hq r hr hqr),hu,hn⟩

theorem Deletes.count (h : Deletes p t u n) : u.count p + n = t.count p := by
  obtain ⟨q,hq,rfl,rfl⟩ := h
  exact Table.count_remove hq

theorem Deletes.other (hp : ∀ r, p r = true → p' r = false) (h : Deletes p t u n) :
    u.count p' = t.count p' := by
  obtain ⟨q,hq,rfl,-⟩ := h
  exact Table.count_remove_other fun r hr hqr => hp r (hq r hr hqr)

theorem Deletes.gone (h : Deletes p t u n) :
    u.rows.Sublist t.rows ∧ (∀ r ∈ t.rows, r ∉ u.rows → p r = true) ∧ n + u.rows.length = t.rows.length := by
  obtain ⟨q,hq,rfl,rfl⟩ := h
  refine ⟨List.filter_sublist,fun r hr hout => ?_,?_⟩
  · refine hq r hr ?_
    by_contra hkept
    exact hout (Table.mem_remove.mpr ⟨hr,by simpa using hkept⟩)
  · have hall := Table.count_remove (t := t) (p := fun _ => true) (q := q) fun _ _ _ => rfl
    have htrue (w : Metrics) : w.count (fun _ => true) = w.rows.length := by simp [Table.count]
    rw [htrue,htrue] at hall
    omega

end Deletes

section Batches

variable {p : Planner} {cut : Int} {sid : Nat} {t : Metrics}

variable (p cut sid t)

theorem deleteBatch_spec (n : Nat) :
    Deletes (expiredOf cut sid) t (deleteBatch p cut sid n t).1 (deleteBatch p cut sid n t).2 ∧
      (deleteBatch p cut sid n t).2 = min batchSize (t.count (expiredOf cut sid)) := by
  let picked := (p.sorted n (t.select (expiredOf cut sid))).take batchSize
  have hmem : ∀ r ∈ picked, r ∈ t.rows ∧ expiredOf cut sid r = true := fun r hr =>
    List.mem_filter.mp ((p.sorted_perm n _).mem_iff.mp (List.mem_of_mem_take hr))
  have hrows : t.rows.Nodup := t.nodup.of_map
  -- a row is named by its ctid
  have hdoomed : ∀ r ∈ t.rows, r.ctid ∈ picked.map ServerMetric.ctid ↔ r ∈ picked := by
    intro r hr
    refine ⟨fun hin => ?_,fun hin => List.mem_map_of_mem hin⟩
    obtain ⟨x,hx,hctid⟩ := List.mem_map.mp hin
    rwa [Table.eq_of_key hr (hmem x hx).1 hctid.symm]
  refine ⟨⟨_,fun r hr hin => ?_,rfl,rfl⟩,?_⟩
  · exact (hmem r ((hdoomed r hr).mp (of_decide_eq_true hin))).2
  · have hperm : (t.rows.filter fun r => decide (r.ctid ∈ picked.map ServerMetric.ctid)).Perm picked := by
      have hnodup : picked.Nodup :=
        ((p.sorted_perm n _).nodup_iff.mpr (hrows.filter _)).sublist (List.take_sublist _ _)
      refine (List.perm_ext_iff_of_nodup (hrows.filter _) hnodup).mpr fun r => ?_
      rw [List.mem_filter,decide_eq_true_eq]
      exact ⟨fun h => (hdoomed r h.1).mp h.2,fun h => ⟨(hmem r h).1,List.mem_map_of_mem h⟩⟩
    show t.rows.countP _ = _
    rw [List.countP_eq_length_filter]
    refine hperm.length_eq.trans ?_
    rw [List.length_take,(p.sorted_perm n _).length_eq]
    exact congrArg _ List.countP_eq_length_filter.symm

-- the batches it takes to empty a server of n old rows: the last one is not full
def batchesFor (n : Nat) : Nat := n / batchSize + 1

theorem batchesFor_step {n : Nat} (h : batchSize ≤ n) : batchesFor n = batchesFor (n - batchSize) + 1 := by
  unfold batchesFor
  rw [Nat.div_eq_sub_div (by decide) h]

theorem deleteServer_spec (left : Nat) :
    Deletes (expiredOf cut sid) t (deleteServer p cut sid left t).1 (deleteServer p cut sid left t).2.1 ∧
      (batchesFor (t.count (expiredOf cut sid)) ≤ left →
        (deleteServer p cut sid left t).1.count (expiredOf cut sid) = 0 ∧
          (deleteServer p cut sid left t).2.2 = left - batchesFor (t.count (expiredOf cut sid))) ∧
      (0 < left → 0 < t.count (expiredOf cut sid) → 0 < (deleteServer p cut sid left t).2.1) := by
  induction left generalizing t with
  | zero => exact ⟨deletes_refl _ t,fun h => absurd h (by simp [batchesFor]),fun h => absurd h (by simp)⟩
  | succ left ih =>
    obtain ⟨hbatch,hn⟩ := deleteBatch_spec p cut sid t left
    obtain ⟨u,n,hu⟩ : ∃ u n, deleteBatch p cut sid left t = (u,n) := ⟨_,_,rfl⟩
    rw [hu] at hbatch hn
    have hcount := hbatch.count
    dsimp only at hcount hn
    have hsize : 0 < batchSize := by decide
    simp only [deleteServer,hu]
    split
    · rename_i hlast
      have hrest : t.count (expiredOf cut sid) < batchSize := by omega
      have hone : batchesFor (t.count (expiredOf cut sid)) = 1 := by
        rw [batchesFor,Nat.div_eq_of_lt hrest]
      refine ⟨hbatch,fun _ => ⟨?_,by rw [hone]; rfl⟩,fun _ _ => ?_⟩
      · dsimp only
        omega
      · dsimp only
        omega
    · rename_i hfull
      obtain ⟨hlater,hclears,-⟩ := ih (t := u)
      have hstep := batchesFor_step (n := t.count (expiredOf cut sid)) (by omega)
      have hfewer : u.count (expiredOf cut sid) = t.count (expiredOf cut sid) - batchSize := by omega
      refine ⟨hbatch.trans hlater,fun h => ?_,fun _ _ => ?_⟩
      · rw [hfewer] at hclears
        obtain ⟨hzero,hleft⟩ := hclears (by omega)
        exact ⟨hzero,hleft.trans (by omega)⟩
      · dsimp only
        omega

theorem expiredOf_imp {r : ServerMetric} (h : expiredOf cut sid r = true) : expired cut r = true :=
  (Bool.and_eq_true_iff.mp h).2

theorem expiredOf_other {sid' : Nat} (hne : sid ≠ sid') {r : ServerMetric} (h : expiredOf cut sid r = true) :
    expiredOf cut sid' r = false := by
  have hsid : r.serverID = sid := of_decide_eq_true (Bool.and_eq_true_iff.mp h).1
  simp [expiredOf,hsid,hne]

theorem deleteServers_spec {sids : List Nat} (hnodup : sids.Nodup) (left : Nat) :
    Deletes (expired cut) t (deleteServers p cut sids left t).1 (deleteServers p cut sids left t).2 ∧
      ((sids.map fun sid => batchesFor (t.count (expiredOf cut sid))).sum ≤ left →
        ∀ sid ∈ sids, (deleteServers p cut sids left t).1.count (expiredOf cut sid) = 0) ∧
      (0 < left → (∃ sid, sids.head? = some sid ∧ 0 < t.count (expiredOf cut sid)) →
        0 < (deleteServers p cut sids left t).2) := by
  induction sids generalizing left t with
  | nil => exact ⟨deletes_refl _ t,fun _ => List.forall_mem_nil _,fun _ ⟨_,h,_⟩ => nomatch h⟩
  | cons sid sids ih =>
    obtain ⟨hfresh,hrest⟩ := List.nodup_cons.mp hnodup
    rw [deleteServers]
    split
    · rename_i hspent
      subst hspent
      refine ⟨deletes_refl _ t,fun h => ?_,fun h => absurd h (by simp)⟩
      simp [batchesFor] at h
    · rename_i hleft
      obtain ⟨hserver,hclears,hmoves⟩ := deleteServer_spec p cut sid t left
      obtain ⟨u,n,rest,hu⟩ : ∃ u n rest, deleteServer p cut sid left t = (u,n,rest) := ⟨_,_,_,rfl⟩
      rw [hu] at hserver hclears hmoves ⊢
      obtain ⟨hlater,hall,-⟩ := ih hrest (t := u) rest
      have hothers : ∀ s ∈ sids, u.count (expiredOf cut s) = t.count (expiredOf cut s) := fun s hs =>
        hserver.other fun r => expiredOf_other cut sid fun (he : sid = s) => hfresh (he ▸ hs)
      refine ⟨(hserver.mono fun _ => expiredOf_imp cut sid).trans hlater,fun h => ?_,?_⟩
      · rw [List.map_cons,List.sum_cons] at h
        obtain ⟨hzero,hbudget⟩ := hclears (by omega)
        dsimp only at hzero hbudget
        have hsame : (sids.map fun s => batchesFor (u.count (expiredOf cut s))) =
            sids.map fun s => batchesFor (t.count (expiredOf cut s)) :=
          List.map_congr_left fun s hs => by rw [hothers s hs]
        have hlast := hall (by rw [hsame]; omega)
        intro s hs
        rcases List.mem_cons.mp hs with rfl | hs
        · have hfewer := hlater.gone.1.countP_le (p := expiredOf cut s)
          exact Nat.eq_zero_of_le_zero (hfewer.trans hzero.le)
        · exact hlast s hs
      · rintro hpos ⟨s,hhead,hsome⟩
        obtain rfl := Option.some.inj hhead
        exact Nat.add_pos_left (hmoves hpos hsome) _

end Batches

section Runs

variable {p : Planner} {t : Metrics} {retentionDays now : Int}

def demand (cut : Int) (t : Metrics) : Nat :=
  (((t.select (expired cut)).map ServerMetric.serverID).dedup.map fun sid =>
    batchesFor (t.count (expiredOf cut sid))).sum

theorem mem_expiredServers {cut : Int} {sid : Nat} :
    sid ∈ expiredServers p cut t ↔ 0 < t.count (expiredOf cut sid) := by
  rw [expiredServers,p.mem_distinct,List.mem_map]
  unfold Table.count Table.select
  rw [List.countP_pos_iff]
  constructor
  · rintro ⟨r,hr,rfl⟩
    obtain ⟨hmem,hold⟩ := List.mem_filter.mp hr
    exact ⟨r,hmem,by simp [expiredOf,hold]⟩
  · rintro ⟨r,hmem,hold⟩
    obtain ⟨hsid,hold⟩ := Bool.and_eq_true_iff.mp hold
    exact ⟨r,List.mem_filter.mpr ⟨hmem,hold⟩,of_decide_eq_true hsid⟩

theorem expiredServers_demand (cut : Int) :
    ((expiredServers p cut t).map fun sid => batchesFor (t.count (expiredOf cut sid))).sum = demand cut t := by
  have hperm : (expiredServers p cut t).Perm ((t.select (expired cut)).map ServerMetric.serverID).dedup :=
    (List.perm_ext_iff_of_nodup (p.distinct_nodup _) (List.nodup_dedup _)).mpr fun sid =>
      (p.mem_distinct _ sid).trans List.mem_dedup.symm
  exact (hperm.map _).sum_eq

theorem count_expired_zero {cut : Int} :
    t.count (expired cut) = 0 ↔ ∀ sid, t.count (expiredOf cut sid) = 0 := by
  unfold Table.count
  simp only [List.countP_eq_zero]
  constructor
  · exact fun h sid r hr hold => h r hr (expiredOf_imp cut sid hold)
  · exact fun h r hr hold => h r.serverID r hr (by simp [expiredOf,hold])

-- one run: what it deletes is old, and it reports how much; it deletes something if anything is old, and
-- everything old if the batches suffice
structure Swept (cut : Int) (t u : Metrics) (n : Nat) : Prop where
  sublist : u.rows.Sublist t.rows
  old : ∀ r ∈ t.rows, r ∉ u.rows → r.timestamp < cut
  total : n + u.rows.length = t.rows.length
  moves : t.count (expired cut) ≠ 0 → u.count (expired cut) < t.count (expired cut)
  clears : demand cut t ≤ maxBatchesPerRun → u.count (expired cut) = 0

theorem cleanupSince_swept (p : Planner) (t : Metrics) (now : Int) (hdays : 1 ≤ retentionDays) : ∃ u n,
    cleanupSince p t retentionDays now = (u,.ok n) ∧ Swept (cutoff now retentionDays) t u n := by
  generalize hcut : cutoff now retentionDays = cut
  obtain ⟨hdeletes,hclears,hmoves⟩ := deleteServers_spec p cut t
    (p.distinct_nodup ((t.select (expired cut)).map ServerMetric.serverID)) maxBatchesPerRun
  obtain ⟨u,n,hu⟩ : ∃ u n, deleteServers p cut (expiredServers p cut t) maxBatchesPerRun t = (u,n) :=
    ⟨_,_,rfl⟩
  have hrun : cleanupSince p t retentionDays now = (u,.ok n) := by
    rw [cleanupSince,if_neg (by omega),hcut]
    dsimp only
    rw [hu]
  change Deletes _ _ (deleteServers p cut (expiredServers p cut t) maxBatchesPerRun t).1
    (deleteServers p cut (expiredServers p cut t) maxBatchesPerRun t).2 at hdeletes
  change _ → ∀ sid ∈ expiredServers p cut t,
    (deleteServers p cut (expiredServers p cut t) maxBatchesPerRun t).1.count _ = 0 at hclears
  change _ → _ → 0 < (deleteServers p cut (expiredServers p cut t) maxBatchesPerRun t).2 at hmoves
  rw [hu] at hdeletes hclears hmoves
  dsimp only at hdeletes hclears hmoves
  obtain ⟨hsub,hold,htotal⟩ := hdeletes.gone
  refine ⟨u,n,hrun,hsub,fun r hr hout => of_decide_eq_true (hold r hr hout),htotal,fun hsome => ?_,
    fun henough => ?_⟩
  · cases hhead : (expiredServers p cut t).head? with
    | none =>
      have hnil : expiredServers p cut t = [] := List.head?_eq_none_iff.mp hhead
      refine absurd (count_expired_zero.mpr fun sid => ?_) hsome
      by_contra hne
      have hin : sid ∈ expiredServers p cut t := mem_expiredServers.mpr (Nat.pos_of_ne_zero hne)
      rw [hnil] at hin
      cases hin
    | some sid =>
      have hin := mem_expiredServers.mp (List.mem_of_mem_head? hhead)
      have hpos := hmoves (by decide) ⟨sid,hhead,hin⟩
      have hcount := hdeletes.count
      omega
  · have hzero := hclears ((expiredServers_demand cut).trans_le henough)
    refine count_expired_zero.mpr fun sid => ?_
    by_cases hin : sid ∈ expiredServers p cut t
    · exact hzero sid hin
    · have hnone : t.count (expiredOf cut sid) = 0 := by
        by_contra hne
        exact hin (mem_expiredServers.mpr (Nat.pos_of_ne_zero hne))
      have hfewer := hsub.countP_le (p := expiredOf cut sid)
      exact Nat.eq_zero_of_le_zero (hfewer.trans hnone.le)

def cleanups (ps : Nat → Planner) (retentionDays now : Int) : Nat → Metrics → Metrics
  | 0, t => t
  | k + 1, t => cleanups (fun i => ps (i + 1)) retentionDays now k (cleanupSince (ps 0) t retentionDays now).1

theorem cleanups_converge (hdays : 1 ≤ retentionDays) (ps : Nat → Planner) {k : Nat}
    (h : t.count (expired (cutoff now retentionDays)) ≤ k) :
    (cleanups ps retentionDays now k t).count (expired (cutoff now retentionDays)) = 0 := by
  induction k generalizing t ps with
  | zero => exact Nat.eq_zero_of_le_zero h
  | succ k ih =>
    obtain ⟨u,n,hu,hswept⟩ := cleanupSince_swept (ps 0) t now hdays
    rw [cleanups,hu]
    refine ih _ ?_
    have hfewer := hswept.sublist.countP_le (p := expired (cutoff now retentionDays))
    have hmoves := hswept.moves
    unfold Table.count at h hmoves ⊢
    dsimp only
    omega

theorem metric_retention (hdays : 1 ≤ retentionDays) :
    (∃ u n, cleanupSince p t retentionDays now = (u,.ok n) ∧ Swept (cutoff now retentionDays) t u n) ∧
      ∃ k, ∀ ps, ∀ r ∈ (cleanups ps retentionDays now k t).rows, cutoff now retentionDays ≤ r.timestamp := by
  refine ⟨cleanupSince_swept p t now hdays,t.count (expired (cutoff now retentionDays)),fun ps r hr => ?_⟩
  have hzero : (cleanups ps retentionDays now _ t).count (expired (cutoff now retentionDays)) = 0 :=
    cleanups_converge hdays ps le_rfl
  have hkept := List.countP_eq_zero.mp hzero r hr
  simpa [expired] using hkept

def plainPlanner : Planner where
  distinct := List.dedup
  distinct_nodup := List.nodup_dedup
  mem_distinct := fun _ _ => List.mem_dedup
  sorted := fun _ => List.insertionSort fun a b => a.timestamp ≤ b.timestamp
  sorted_perm := fun _ rows => List.perm_insertionSort _ rows
  sorted_asc := fun _ rows => by
    have htotal : Std.Total fun a b : ServerMetric => a.timestamp ≤ b.timestamp :=
      ⟨fun a b => Int.le_total a.timestamp b.timestamp⟩
    have htrans : IsTrans ServerMetric fun a b => a.timestamp ≤ b.timestamp := ⟨fun _ _ _ => Int.le_trans⟩
    exact List.pairwise_insertionSort _ rows

def twoSamples : Metrics where
  rows := [⟨1,7,0⟩,⟨2,7,-1⟩]
  nodup := by decide

theorem two_samples_retained :
    (∃ u n, cleanupSince plainPlanner twoSamples 1 fullDay = (u,.ok n) ∧
        Swept (cutoff fullDay 1) twoSamples u n) ∧
      ∃ k, ∀ ps, ∀ r ∈ (cleanups ps 1 fullDay k twoSamples).rows, cutoff fullDay 1 ≤ r.timestamp :=
  metric_retention (by decide)

end Runs

end Retention
