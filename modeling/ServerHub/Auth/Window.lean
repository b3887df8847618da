import Mathlib.Data.List.Dedup
import Mathlib.Data.List.Perm.Subperm
import ServerHub.Auth.Limiter

namespace Auth

open Go

theorem live_eq (now t : Int) : live now t = decide (now - t < ipWindow) := by
  have hwindow : ipWindow = 60000000000 := by decide
  unfold live sub
  simp only [decide_eq_decide]
  rw [hwindow]
  unfold maxDuration
  split <;> try split
  all_goals omega

section Oldest

variable {t : Int} {ts : List Int}

theorem foldl_older (ts : List Int) (old : Int) :
    ts.foldl (fun old t => if t < old then t else old) old ∈ old :: ts ∧
      ∀ t ∈ old :: ts, ts.foldl (fun old t => if t < old then t else old) old ≤ t := by
  induction ts generalizing old with
  | nil => simp
  | cons t ts ih =>
    obtain ⟨hmem,hle⟩ := ih (if t < old then t else old)
    rw [List.foldl_cons]
    generalize ts.foldl (fun old t => if t < old then t else old) (if t < old then t else old) = low
      at hmem hle ⊢
    refine ⟨?_,?_⟩
    · rcases List.mem_cons.mp hmem with rfl | hm
      · split <;> simp
      · simp [hm]
    · intro a ha
      have hfirst := hle _ List.mem_cons_self
      rcases List.mem_cons.mp ha with rfl | ha
      · split at hfirst <;> omega
      · rcases List.mem_cons.mp ha with rfl | ha
        · split at hfirst <;> omega
        · exact hle a (List.mem_cons_of_mem _ ha)

theorem oldest_least (h : ts ≠ []) : oldest ts ∈ ts ∧ ∀ t ∈ ts, oldest ts ≤ t := by
  cases ts with
  | nil => exact absurd rfl h
  | cons t ts => exact foldl_older ts t

end Oldest

namespace LoginLimiter

variable {spare : Nat → List Int} {l : LoginLimiter} {now : Int} {ip ip' : String} {s s' : Slice}

structure Sound (l : LoginLimiter) : Prop where
  holds : ∀ ip s, l.ipHits.lookup ip = some s → l.heap.Holds s
  apart : ∀ ip ip' s s', l.ipHits.lookup ip = some s → l.ipHits.lookup ip' = some s' →
    s.array = s'.array → ip = ip'
  proper : ∀ ip s, l.ipHits.lookup ip = some s → s.array ≠ 0
  blank : l.heap.arrays 0 = []
  started : 0 < l.heap.next

def content (l : LoginLimiter) (ip : String) : List Int := l.heap.read (l.hits ip)

theorem Sound.holds_hits (h : l.Sound) (ip : String) : l.heap.Holds (l.hits ip) := by
  unfold hits
  cases hs : l.ipHits.lookup ip with
  | none => exact ⟨Nat.zero_le _,h.started⟩
  | some s => exact h.holds ip s hs

theorem Sound.array_ne (h : l.Sound) (hne : ip ≠ ip') (hs : l.ipHits.lookup ip = some s) :
    s.array ≠ (l.hits ip').array := by
  unfold hits
  cases hs' : l.ipHits.lookup ip' with
  | none => exact h.proper ip s hs
  | some s' => exact fun he => hne (h.apart ip ip' s s' hs hs' he)

theorem pruneLocked_heap (spare : Nat → List Int) (h : l.Sound) (now : Int) (ip : String) :
    (l.pruneLocked spare now ip).1.heap.read (l.pruneLocked spare now ip).2 =
        (l.content ip).filter (live now) ∧
      (l.pruneLocked spare now ip).1.heap.Holds (l.pruneLocked spare now ip).2 ∧
      (l.pruneLocked spare now ip).1.heap.next = l.heap.next ∧
      (l.pruneLocked spare now ip).2.array = (l.hits ip).array := by
  have hs := h.holds_hits ip
  refine ⟨Heap.read_compact spare (live now) hs,(Heap.compact_holds spare (live now) hs).1,?_,?_⟩
  · simp only [pruneLocked,Heap.compact_spec spare (live now) hs]
    rfl
  · simp only [pruneLocked,Heap.compact_spec spare (live now) hs]

theorem pruneLocked_sound (spare : Nat → List Int) (h : l.Sound) (now : Int) (ip : String) :
    (l.pruneLocked spare now ip).1.Sound := by
  have hs := h.holds_hits ip
  have hheap := Heap.compact_spec spare (live now) hs
  have hle := Heap.kept_length_le (live now) l.heap (l.hits ip)
  have hfits := hs.fits
  have hlength : ∀ n, ((l.pruneLocked spare now ip).1.heap.arrays n).length =
      (l.heap.arrays n).length := by
    intro n
    by_cases hn : n = (l.hits ip).array
    · subst hn
      simp only [pruneLocked,hheap,Heap.write_self,List.length_append,List.length_drop]
      omega
    · simp only [pruneLocked,Heap.compact_others spare (live now) hs hn]
  have hnext := (pruneLocked_heap spare h now ip).2.2.1
  refine ⟨?_,h.apart,h.proper,?_,?_⟩
  · intro a t ha
    have ht := h.holds a t ha
    exact ⟨by rw [hlength]; exact ht.fits,by rw [hnext]; exact ht.allocated⟩
  · have hzero := hlength 0
    rw [h.blank] at hzero
    exact List.length_eq_zero_iff.mp hzero
  · rw [hnext]
    exact h.started

theorem content_pruned (spare : Nat → List Int) (h : l.Sound) (now : Int) (ip ip' : String) :
    (l.pruneLocked spare now ip).1.content ip' =
      if ip' = ip then (l.content ip).filter (live now) ++
        (l.content ip).drop ((l.content ip).filter (live now)).length
      else l.content ip' := by
  have hs := h.holds_hits ip
  split
  · rename_i he
    subst he
    exact Heap.reread_compact spare (live now) hs
  · rename_i hne
    cases hlookup : l.ipHits.lookup ip' with
    | none => simp [content,hits,pruneLocked,hlookup,Slice.nil,Heap.read]
    | some s =>
      have harray := h.array_ne hne hlookup
      simp only [content,hits,pruneLocked,hlookup,Option.getD_some,Heap.read]
      rw [← hits,Heap.compact_others spare (live now) hs harray]

theorem recordHit_spec (spare : Nat → List Int) (h : l.Sound) (hroom : l.ipHits.keys.length < maxTrackedIPs) (now : Int)
    (ip : String) : (l.recordHit spare now ip).Sound ∧
      (l.recordHit spare now ip).ipHits.keys ⊆ ip :: l.ipHits.keys ∧
      ∀ ip', (l.recordHit spare now ip).content ip' =
        if ip' = ip then (l.content ip).filter (live now) ++ [now] else l.content ip' := by
  have hsound := pruneLocked_sound spare h now ip
  obtain ⟨hread,hholds,hnext,harray⟩ := pruneLocked_heap spare h now ip
  have hcontent := content_pruned spare h now ip
  have hlookup : (l.pruneLocked spare now ip).1.ipHits = l.ipHits := rfl
  rw [recordHit,if_neg (Nat.not_le.mpr hroom)]
  generalize l.pruneLocked spare now ip = x at hsound hread hholds hnext harray hcontent hlookup ⊢
  have happended := Heap.append_spec spare hholds now
  generalize x.1.heap.append spare x.2 now = y at happended
  have hfresh : y.2.array ≠ 0 := by
    rcases happended.array with hnew | ⟨hold,hspace⟩
    · rw [hnew]
      exact Nat.ne_of_gt hsound.started
    · intro hzero
      rw [← hold,hzero,hsound.blank] at hspace
      exact absurd hspace (Nat.not_lt_zero _)
  have hother : ∀ a s, a ≠ ip → x.1.ipHits.lookup a = some s → s.array ≠ y.2.array := by
    intro a s ha hs
    have hin := (hsound.holds a s hs).allocated
    rcases happended.array with hnew | ⟨hold,-⟩
    · omega
    · rw [hold,harray]
      exact h.array_ne ha (hlookup ▸ hs)
  have hlookups : ∀ a, a ≠ ip → (x.1.ipHits.insert ip y.2).lookup a = x.1.ipHits.lookup a :=
    fun a ha => AList.lookup_insert_ne ha
  refine ⟨⟨?_,?_,?_,?_,?_⟩,?_,?_⟩
  · intro a s hs
    by_cases ha : a = ip
    · subst ha
      rw [AList.lookup_insert,Option.some.injEq] at hs
      exact hs ▸ happended.holds
    · rw [hlookups a ha] at hs
      have hold := hsound.holds a s hs
      refine ⟨?_,Nat.lt_of_lt_of_le hold.allocated happended.grows⟩
      rw [happended.others _ (hother a s ha hs)]
      exact hold.fits
  · intro a b s t hs ht he
    by_cases ha : a = ip
    · by_cases hb : b = ip
      · exact ha.trans hb.symm
      · rw [ha,AList.lookup_insert,Option.some.injEq] at hs
        rw [hlookups b hb] at ht
        exact absurd (hs ▸ he.symm) (hother b t hb ht)
    · rw [hlookups a ha] at hs
      by_cases hb : b = ip
      · rw [hb,AList.lookup_insert,Option.some.injEq] at ht
        exact absurd (ht ▸ he) (hother a s ha hs)
      · rw [hlookups b hb] at ht
        exact hsound.apart a b s t hs ht he
  · intro a s hs
    by_cases ha : a = ip
    · rw [ha,AList.lookup_insert,Option.some.injEq] at hs
      exact hs ▸ hfresh
    · rw [hlookups a ha] at hs
      exact hsound.proper a s hs
  · exact (happended.others 0 hfresh.symm).trans hsound.blank
  · exact Nat.lt_of_lt_of_le hsound.started happended.grows
  · rw [AList.keys_insert,hlookup]
    exact List.cons_subset_cons ip List.erase_subset
  · intro a
    by_cases ha : a = ip
    · subst ha
      simp only [content,hits,AList.lookup_insert,Option.getD_some,if_true]
      rw [happended.read,hread]
      rfl
    · rw [if_neg ha]
      have hkept := hcontent a
      rw [if_neg ha] at hkept
      rw [← hkept]
      simp only [content,hits,hlookups a ha]
      cases hs : x.1.ipHits.lookup a with
      | none => simp [Slice.nil,Heap.read]
      | some s => simp only [Option.getD_some,Heap.read,happended.others _ (hother a s ha hs)]

theorem serve_other (spare : Nat → List Int) (h : l.Sound) {c : TimedCall} (hc : failedFrom c = none) :
    (l.serve spare c).Sound ∧ (l.serve spare c).ipHits = l.ipHits ∧
      ∀ ip, (l.serve spare c).content ip = l.content ip ∨
        ∃ user later, c.call = .blocked ip user later ∧ (l.serve spare c).content ip =
          (l.content ip).filter (live c.now) ++
            (l.content ip).drop ((l.content ip).filter (live c.now)).length := by
  obtain ⟨now,call⟩ := c
  cases call with
  | recordFailure ip user => exact nomatch hc
  | recordSuccess user =>
    have hserve : (l.serve spare ⟨now,.recordSuccess user⟩).heap = l.heap ∧
        (l.serve spare ⟨now,.recordSuccess user⟩).ipHits = l.ipHits := by
      simp only [serve,recordSuccess]
      split <;> exact ⟨rfl,rfl⟩
    obtain ⟨hheap,hits'⟩ := hserve
    refine ⟨⟨?_,?_,?_,?_,?_⟩,hits',fun ip => .inl ?_⟩
    · rw [hheap,hits']
      exact h.holds
    · rw [hits']
      exact h.apart
    · rw [hits']
      exact h.proper
    · rw [hheap]
      exact h.blank
    · rw [hheap]
      exact h.started
    · rw [content,content,hits,hits,hheap,hits']
  | blocked ip user later =>
    have hserve : l.serve spare ⟨now,.blocked ip user later⟩ = (l.pruneLocked spare now ip).1 := by
      simp only [serve,blocked]
      split
      · rfl
      · split
        · split
          · split <;> rfl
          · rfl
        · rfl
    rw [hserve]
    refine ⟨pruneLocked_sound spare h now ip,rfl,fun a => ?_⟩
    have hcontent := content_pruned spare h now ip a
    split at hcontent
    · rename_i he
      subst he
      exact .inr ⟨user,later,rfl,hcontent⟩
    · exact .inl hcontent

theorem serve_failure (spare : Nat → List Int) (h : l.Sound)
    (hroom : l.ipHits.keys.length < maxTrackedIPs) (now : Int) (ip user : String) :
    (l.serve spare ⟨now,.recordFailure ip user⟩).Sound ∧
      (l.serve spare ⟨now,.recordFailure ip user⟩).ipHits.keys ⊆ ip :: l.ipHits.keys ∧
      ∀ ip', (l.serve spare ⟨now,.recordFailure ip user⟩).content ip' =
        if ip' = ip then (l.content ip).filter (live now) ++ [now] else l.content ip' := by
  have hhit := recordHit_spec spare h hroom now ip
  simp only [serve,recordFailure]
  split
  · exact hhit
  · obtain ⟨hsound,hkeys,hcontent⟩ := hhit
    exact ⟨⟨hsound.holds,hsound.apart,hsound.proper,hsound.blank,hsound.started⟩,hkeys,hcontent⟩

end LoginLimiter

def counted (ts : List Int) : List Int :=
  match ts.getLast? with
  | none => []
  | some last => inWindow last ts

section Counting

variable {ts : List Int} {now last : Int}

theorem counted_of_last (h : ts.getLast? = some last) : counted ts = inWindow last ts := by
  rw [counted,h]

theorem le_last (hsorted : ts.Pairwise (· ≤ ·)) (hlast : ts.getLast? = some last) :
    ∀ t ∈ ts, t ≤ last := by
  obtain ⟨front,rfl⟩ := List.getLast?_eq_some_iff.mp hlast
  intro t ht
  rcases List.mem_append.mp ht with ht | ht
  · exact (List.pairwise_append.mp hsorted).2.2 t ht last (List.mem_singleton_self last)
  · exact Int.le_of_eq (List.mem_singleton.mp ht)

theorem inWindow_counted (h : ∀ t ∈ ts, t ≤ now) : inWindow now (counted ts) = inWindow now ts := by
  cases hlast : ts.getLast? with
  | none => rw [List.getLast?_eq_none_iff.mp hlast]; rfl
  | some last =>
    have hle := h last (List.mem_of_getLast? hlast)
    rw [counted_of_last hlast,inWindow,inWindow,inWindow,List.filter_filter]
    refine List.filter_congr fun t _ => ?_
    simp only [Bool.and_eq_left_iff_imp,decide_eq_true_eq]
    omega

theorem counted_append (h : ∀ t ∈ ts, t ≤ now) :
    counted (ts ++ [now]) = inWindow now (counted ts) ++ [now] := by
  have hopen : 0 < ipWindow := by decide
  have hlast : (ts ++ [now]).getLast? = some now := by simp
  rw [counted_of_last hlast,inWindow_counted h]
  simp [inWindow,hopen]

theorem counted_steady (hsteady : Steady ts now)
    (hsorted : ts.Pairwise (· ≤ ·)) :
    inWindow now (counted ts) = counted ts ∨ inWindow now (counted ts) = [] := by
  cases hlast : ts.getLast? with
  | none => exact .inr (by rw [counted,hlast]; rfl)
  | some last =>
    rw [counted_of_last hlast]
    by_cases hlive : now - last < ipWindow
    · refine .inl (List.filter_eq_self.mpr fun t ht => decide_eq_true ?_)
      obtain ⟨hmem,hnear⟩ := List.mem_filter.mp ht
      exact hsteady last hlast hlive t hmem (of_decide_eq_true hnear)
    · refine .inr (List.filter_eq_nil_iff.mpr fun t ht hnear => hlive ?_)
      have hmem := (List.mem_filter.mp ht).1
      have hle := le_last hsorted hlast t hmem
      have hnear := of_decide_eq_true hnear
      omega

end Counting

section Runs

variable {spare : Nat → List Int} {ip : String} {cs : List TimedCall} {A : List String} {now : Int}

theorem failures_append (ip : String) (cs : List TimedCall) (c : TimedCall) :
    failures ip (cs ++ [c]) = failures ip cs ++ (failureAt ip c).toList := by
  cases h : failureAt ip c <;> simp [failures,h]

theorem failureAt_now {c : TimedCall} {t : Int} (h : failureAt ip c = some t) : t = c.now := by
  unfold failureAt at h
  split at h
  · split at h
    · exact (Option.some.inj h).symm
    · exact nomatch h
  · exact nomatch h

theorem failures_le (h : ∀ c ∈ cs, c.now ≤ now) : ∀ t ∈ failures ip cs, t ≤ now := by
  intro t ht
  obtain ⟨c,hc,hct⟩ := List.mem_filterMap.mp ht
  rw [failureAt_now hct]
  exact h c hc

theorem failures_sorted (h : cs.Pairwise fun c d => c.now ≤ d.now) :
    (failures ip cs).Pairwise (· ≤ ·) := by
  refine h.filterMap (failureAt ip) fun c d hcd t ht u hu => ?_
  rw [failureAt_now ht,failureAt_now hu]
  exact hcd

structure Tracks (spare : Nat → List Int) (ip : String) (cs : List TimedCall) : Prop where
  sound : (LoginLimiter.after spare cs).Sound
  keys : (LoginLimiter.after spare cs).ipHits.keys ⊆ cs.filterMap failedFrom
  content : (LoginLimiter.after spare cs).content ip = counted (failures ip cs)

theorem keys_room {l : LoginLimiter} (h : l.ipHits.keys ⊆ cs.filterMap failedFrom)
    (haddr : (addresses cs).length < maxTrackedIPs) : l.ipHits.keys.length < maxTrackedIPs := by
  have hsub : l.ipHits.keys ⊆ addresses cs := fun a ha => List.mem_dedup.mpr (h ha)
  exact Nat.lt_of_le_of_lt (List.subperm_of_subset l.ipHits.keys_nodup hsub).length_le haddr

theorem addresses_before (c : TimedCall) :
    (addresses cs).length ≤ (addresses (cs ++ [c])).length := by
  have hsub : addresses cs ⊆ addresses (cs ++ [c]) := by
    intro a ha
    refine List.mem_dedup.mpr ?_
    rw [List.filterMap_append]
    exact List.mem_append_left _ (List.mem_dedup.mp ha)
  exact (List.subperm_of_subset (List.nodup_dedup _) hsub).length_le

theorem steady_before {c : TimedCall} (h : SteadyCalls ip (cs ++ [c])) : SteadyCalls ip cs :=
  fun before d later user other he => h before d (later ++ [c]) user other (by simp [he])

theorem after_append (spare : Nat → List Int) (cs : List TimedCall) (c : TimedCall) :
    LoginLimiter.after spare (cs ++ [c]) = (LoginLimiter.after spare cs).serve spare c := by
  simp [LoginLimiter.after]

theorem filter_live (now : Int) (ts : List Int) : ts.filter (live now) = inWindow now ts :=
  List.filter_congr fun t _ => live_eq now t

theorem tracks_step {c : TimedCall} (h : Tracks spare ip cs)
    (hsorted : (cs ++ [c]).Pairwise fun c d => c.now ≤ d.now)
    (haddr : (addresses cs).length < maxTrackedIPs) (hsteady : SteadyCalls ip (cs ++ [c])) :
    Tracks spare ip (cs ++ [c]) := by
  obtain ⟨hcs,-,hlast⟩ := List.pairwise_append.mp hsorted
  have hle : ∀ t ∈ failures ip cs, t ≤ c.now :=
    failures_le fun d hd => hlast d hd c (List.mem_singleton_self c)
  cases hc : failedFrom c with
  | none =>
    obtain ⟨hsound,hkeys,hcontent⟩ := LoginLimiter.serve_other spare h.sound hc
    have hnone : failureAt ip c = none := by
      unfold failedFrom at hc
      unfold failureAt
      split at hc
      · exact nomatch hc
      · rfl
    refine ⟨by rwa [after_append],?_,?_⟩
    · rw [after_append,hkeys,List.filterMap_append]
      exact List.subset_append_of_subset_left _ h.keys
    · rw [after_append,failures_append,hnone,Option.toList_none,List.append_nil,← h.content]
      rcases hcontent ip with hsame | ⟨user,later,hcall,hmixed⟩
      · exact hsame
      · rw [hmixed,filter_live,h.content]
        have hcut := counted_steady (hsteady cs c [] user later rfl hcall) (failures_sorted hcs)
        rcases hcut with hall | hnil
        · rw [hall]
          simp
        · rw [hnil]
          simp
  | some address =>
    obtain ⟨now,call⟩ := c
    cases call with
    | blocked ip user later => exact nomatch hc
    | recordSuccess user => exact nomatch hc
    | recordFailure from' user =>
      obtain ⟨hsound,hkeys,hcontent⟩ := LoginLimiter.serve_failure spare h.sound
        (keys_room h.keys haddr) now from' user
      refine ⟨by rwa [after_append],?_,?_⟩
      · rw [after_append]
        intro a ha
        rw [List.filterMap_append]
        rcases List.mem_cons.mp (hkeys ha) with rfl | hold
        · simp [failedFrom]
        · exact List.mem_append_left _ (h.keys hold)
      · rw [after_append,failures_append,hcontent ip]
        by_cases hip : ip = from'
        · subst hip
          have hat : failureAt ip ⟨now,.recordFailure ip user⟩ = some now := if_pos rfl
          rw [if_pos rfl,hat,Option.toList_some,counted_append hle,filter_live,h.content]
        · have hat : failureAt ip ⟨now,.recordFailure from' user⟩ = none :=
            if_neg fun he => hip he.symm
          rw [if_neg hip,hat,Option.toList_none,List.append_nil,h.content]

theorem tracks_run (spare : Nat → List Int) (hsorted : cs.Pairwise fun c d => c.now ≤ d.now)
    (haddr : (addresses cs).length < maxTrackedIPs) (hsteady : SteadyCalls ip cs) :
    Tracks spare ip cs := by
  induction cs using List.reverseRecOn with
  | nil =>
    refine ⟨⟨?_,?_,?_,rfl,Nat.one_pos⟩,?_,rfl⟩
    · intro a s hs
      simp [LoginLimiter.after,LoginLimiter.fresh] at hs
    · intro a b s t hs
      simp [LoginLimiter.after,LoginLimiter.fresh] at hs
    · intro a s hs
      simp [LoginLimiter.after,LoginLimiter.fresh] at hs
    · simp [LoginLimiter.after,LoginLimiter.fresh]
  | append_singleton cs c ih =>
    have hroom := Nat.lt_of_le_of_lt (addresses_before c) haddr
    exact tracks_step (ih (List.pairwise_append.mp hsorted).1 hroom (steady_before hsteady)) hsorted
      hroom hsteady

end Runs

def LaterThanOldest (ts : List Int) : List Int := ts.filter fun t => ts.any fun o => decide (o < t)

section Waiting

variable {ts : List Int} {now w : Int}

theorem later_eq (h : ts ≠ []) : LaterThanOldest ts = ts.filter fun t => decide (oldest ts < t) := by
  obtain ⟨hmem,hle⟩ := oldest_least h
  refine List.filter_congr fun t _ => ?_
  rw [Bool.eq_iff_iff,List.any_eq_true,decide_eq_true_eq]
  constructor
  · rintro ⟨o,ho,hlt⟩
    have hlow := hle o ho
    have hlt := of_decide_eq_true hlt
    omega
  · exact fun hlt => ⟨oldest ts,hmem,decide_eq_true hlt⟩

theorem inWindow_later (hw : 0 ≤ w) :
    inWindow (now + w) ts = (inWindow now ts).filter fun t => decide (now + w - t < ipWindow) := by
  rw [inWindow,inWindow,List.filter_filter]
  refine List.filter_congr fun t _ => ?_
  rw [Bool.eq_iff_iff,Bool.and_eq_true,decide_eq_true_eq,decide_eq_true_eq]
  omega

theorem wait_exact (hle : ∀ t ∈ ts, t ≤ now) (hmany : ipMaxAttempts ≤ (inWindow now ts).length) :
    IsLeast {w | 0 ≤ w ∧ (inWindow (now + w) ts).length < ipMaxAttempts}
        (ipWindow - sub now (oldest (inWindow now ts))) ↔
      (LaterThanOldest (inWindow now ts)).length < ipMaxAttempts := by
  have hne : inWindow now ts ≠ [] := by
    intro hnil
    rw [hnil] at hmany
    exact absurd hmany (by decide)
  obtain ⟨hmem,hlow⟩ := oldest_least hne
  obtain ⟨hfailed,hnear⟩ := List.mem_filter.mp hmem
  have hnear := of_decide_eq_true hnear
  have hpast := hle _ hfailed
  have hwindow : ipWindow = 60000000000 := by decide
  rw [later_eq hne]
  generalize oldest (inWindow now ts) = o at hmem hlow hnear hpast ⊢
  have hsub : sub now o = now - o := by
    unfold sub maxDuration
    split <;> omega
  have hleft : inWindow (now + (ipWindow - (now - o))) ts =
      (inWindow now ts).filter fun t => decide (o < t) := by
    rw [inWindow_later (by omega)]
    refine List.filter_congr fun t _ => ?_
    rw [decide_eq_decide]
    omega
  rw [hsub]
  constructor
  · intro h
    rw [← hleft]
    exact h.1.2
  · intro h
    refine ⟨⟨by omega,hleft ▸ h⟩,?_⟩
    rintro w ⟨hw,hfew⟩
    by_contra hlt
    have hall : inWindow (now + w) ts = inWindow now ts := by
      rw [inWindow_later hw]
      refine List.filter_eq_self.mpr fun t ht => decide_eq_true ?_
      have hot := hlow t ht
      omega
    rw [hall] at hfew
    exact absurd hmany (Nat.not_le.mpr hfew)

end Waiting

theorem blocked_anonymous (spare : Nat → List Int) {l : LoginLimiter} (h : l.Sound) (now later : Int)
    (ip : String) :
    (l.blocked spare now later ip "").2 =
      if ipMaxAttempts ≤ ((l.content ip).filter (live now)).length then
        (true,ipWindow - sub now (oldest ((l.content ip).filter (live now))))
      else (false,0) := by
  obtain ⟨hread,hholds,-,-⟩ := LoginLimiter.pruneLocked_heap spare h now ip
  have hlength : (l.pruneLocked spare now ip).2.length = ((l.content ip).filter (live now)).length := by
    rw [← hread,Heap.read,List.length_take,Nat.min_eq_left hholds.fits]
  simp only [LoginLimiter.blocked,hlength,hread]
  split
  · rfl
  · simp

theorem ip_window (spare : Nat → List Int) (ip : String) (cs : List TimedCall) (now later : Int)
    (hcs : Ordered cs now) (haddr : (addresses cs).length < maxTrackedIPs)
    (hsteady : SteadyCalls ip cs) :
    (((LoginLimiter.after spare cs).blocked spare now later ip "").2.1 = true ↔
      ipMaxAttempts ≤ (inWindow now (failures ip cs)).length) ∧
    (((LoginLimiter.after spare cs).blocked spare now later ip "").2.1 = true →
      (IsLeast {w | 0 ≤ w ∧ (inWindow (now + w) (failures ip cs)).length < ipMaxAttempts}
          ((LoginLimiter.after spare cs).blocked spare now later ip "").2.2 ↔
        (LaterThanOldest (inWindow now (failures ip cs))).length < ipMaxAttempts)) := by
  have htracks := tracks_run spare hcs.1 haddr hsteady
  have hle : ∀ t ∈ failures ip cs, t ≤ now := failures_le hcs.2
  rw [blocked_anonymous spare htracks.sound,htracks.content,filter_live,inWindow_counted hle]
  split
  · rename_i hmany
    exact ⟨⟨fun _ => hmany,fun _ => rfl⟩,fun _ => wait_exact hle hmany⟩
  · rename_i hfew
    exact ⟨⟨fun h => absurd h Bool.false_ne_true,fun h => absurd h hfew⟩,
      fun h => absurd h Bool.false_ne_true⟩

def doubling (n : Nat) : List Int := List.replicate (n - 1) 0

def failureIn (s : Int) : TimedCall := ⟨s * second,.recordFailure "10.0.0.9" "root"⟩

def blockedIn (s : Int) : TimedCall := ⟨s * second,.blocked "10.0.0.9" "root" (s * second)⟩

theorem five_failures_blocked :
    ((LoginLimiter.after doubling ([0,1,2,3,4].map failureIn)).blocked doubling (5 * second)
        (5 * second) "10.0.0.9" "").2.1 = true ∧
      IsLeast {w | 0 ≤ w ∧ (inWindow (5 * second + w)
          (failures "10.0.0.9" ([0,1,2,3,4].map failureIn))).length < ipMaxAttempts}
        ((LoginLimiter.after doubling ([0,1,2,3,4].map failureIn)).blocked doubling (5 * second)
          (5 * second) "10.0.0.9" "").2.2 := by
  have hsteady : SteadyCalls "10.0.0.9" ([0,1,2,3,4].map failureIn) := by
    intro before c later user other he hc
    have hmem : c ∈ [0,1,2,3,4].map failureIn := by simp [he]
    obtain ⟨s,-,rfl⟩ := List.mem_map.mp hmem
    exact nomatch hc
  obtain ⟨hblocked,hwait⟩ := ip_window doubling "10.0.0.9" ([0,1,2,3,4].map failureIn) (5 * second)
    (5 * second) ⟨by decide,by decide⟩ (by decide) hsteady
  have hanswer := hblocked.mpr (by decide)
  exact ⟨hanswer,(hwait hanswer).mpr (by decide)⟩

theorem stale_tail_blocks :
    Ordered ([0,30,31,32,33].map failureIn ++ [blockedIn 70]) (71 * second) ∧
      (addresses ([0,30,31,32,33].map failureIn ++ [blockedIn 70])).length < maxTrackedIPs ∧
      (inWindow (71 * second) (failures "10.0.0.9"
        ([0,30,31,32,33].map failureIn ++ [blockedIn 70]))).length < ipMaxAttempts ∧
      ((LoginLimiter.after doubling ([0,30,31,32,33].map failureIn ++ [blockedIn 70])).blocked
        doubling (71 * second) (71 * second) "10.0.0.9" "").2.1 = true :=
  ⟨⟨by decide,by decide⟩,by decide,by decide,by decide +kernel⟩

end Auth
