import ServerHub.Go.Strings

namespace Posix

abbrev Text := List Char

abbrev Name := List Char

abbrev Place := List Name

def dot : Name := ['.']

def dotdot : Name := ['.','.']

def ValidName (c : Name) : Prop := c ≠ [] ∧ c ≠ dot ∧ c ≠ dotdot ∧ '/' ∉ c

def ValidPlace (q : Place) : Prop := ∀ c ∈ q, ValidName c

def segments (p : Text) : List Name := p.splitOn '/'

def isAbs (p : Text) : Bool := p.head? == some '/'

def join (q : Place) : Text := q.flatMap fun c => '/' :: c

def absText (q : Place) : Text := if q = [] then ['/'] else join q

def pushSegment (rooted : Bool) (acc : Place) (c : Name) : Place :=
  if c = [] ∨ c = dot then acc
  else if c = dotdot then
    if acc = [] then (if rooted then [] else [dotdot])
    else if acc.getLast? = some dotdot then acc ++ [dotdot]
    else acc.dropLast
  else acc ++ [c]

def components (p : Text) : Place := (segments p).foldl (pushSegment (isAbs p)) []

def clean (p : Text) : Text :=
  if isAbs p then absText (components p)
  else if components p = [] then dot
  else ['/'].intercalate (components p)

def dir (p : Text) : Text := absText ((components p).dropLast)

def hasPrefix (s pre : Text) : Bool := pre.isPrefixOf s

def within (base p : Text) : Bool := p == base || hasPrefix p (base ++ ['/'])

def joinPath (a b : Text) : Text :=
  if a = [] then if b = [] then [] else clean b
  else if b = [] then clean a
  else clean (a ++ '/' :: b)

def relText (q : Place) : Text := ['/'].intercalate q

def dropCommon : Place → Place → Place × Place
  | a :: as, b :: bs => if a = b then dropCommon as bs else (a :: as,b :: bs)
  | as, bs => (as,bs)

def relPath (base targ : Text) : Text :=
  let x := dropCommon (components base) (components targ)
  let names := x.1.map (fun _ => dotdot) ++ x.2
  if names = [] then dot else relText names

theorem validPlace_nil : ValidPlace [] := by simp [ValidPlace]

theorem ValidPlace.cons {c : Name} {q : Place} : ValidPlace (c :: q) ↔ ValidName c ∧ ValidPlace q := by
  simp [ValidPlace]

theorem ValidPlace.append {q r : Place} :
    ValidPlace (q ++ r) ↔ ValidPlace q ∧ ValidPlace r := by
  simp [ValidPlace,or_imp,forall_and]

theorem ValidPlace.dropLast {q : Place} (h : ValidPlace q) : ValidPlace q.dropLast :=
  fun c hc => h c (List.dropLast_subset q hc)

theorem segment_no_slash {p : Text} {c : Name} (h : c ∈ segments p) : '/' ∉ c := by
  induction p generalizing c with
  | nil => simp_all [segments,List.splitOn_nil]
  | cons x p ih =>
    simp only [segments,List.splitOn_cons_eq_if_modifyHead,beq_iff_eq] at h
    split at h
    · rcases List.mem_cons.mp h with rfl | h
      · simp
      · exact ih h
    · rename_i hx
      obtain ⟨s,ss,hs⟩ := List.exists_cons_of_ne_nil (List.splitOn_ne_nil '/' p)
      rw [hs,List.modifyHead_cons] at h
      rcases List.mem_cons.mp h with rfl | h
      · have := ih (c := s) (by simp [segments,hs])
        simp only [List.mem_cons,not_or]
        exact ⟨fun e => hx e.symm,this⟩
      · exact ih (by simp [segments,hs,h])

theorem pushSegment_rooted {acc : Place} {c : Name} (ha : ValidPlace acc) (hc : '/' ∉ c) :
    ValidPlace (pushSegment true acc c) := by
  unfold pushSegment
  split
  · exact ha
  · split
    · split
      · exact validPlace_nil
      · split
        · rename_i h
          have hm := List.mem_of_getLast? h
          exact absurd rfl (ha _ hm).2.2.1
        · exact ha.dropLast
    · rename_i h1 h2
      simp only [not_or] at h1
      refine ValidPlace.append.mpr ⟨ha,?_⟩
      exact ValidPlace.cons.mpr ⟨⟨h1.1,h1.2,h2,hc⟩,validPlace_nil⟩

theorem foldl_rooted {acc : Place} {cs : List Name} (ha : ValidPlace acc)
    (hc : ∀ c ∈ cs, '/' ∉ c) : ValidPlace (cs.foldl (pushSegment true) acc) := by
  induction cs generalizing acc with
  | nil => exact ha
  | cons c cs ih =>
    exact ih (pushSegment_rooted ha (hc c (by simp))) fun d hd => hc d (by simp [hd])

theorem components_valid {p : Text} (h : isAbs p = true) : ValidPlace (components p) := by
  unfold components
  rw [h]
  exact foldl_rooted validPlace_nil fun c hc => segment_no_slash hc

theorem clean_abs {p : Text} (h : isAbs p = true) : clean p = absText (components p) := by
  simp [clean,h]

theorem join_cons (c : Name) (q : Place) : join (c :: q) = '/' :: (c ++ join q) := by
  simp [join]

theorem slash_split {x y u v : Text} (hx : '/' ∉ x) (hy : '/' ∉ y)
    (hv : v = [] ∨ ∃ w, v = '/' :: w) (h : x ++ '/' :: u <+: y ++ v) :
    x = y ∧ '/' :: u <+: v := by
  induction x generalizing y with
  | nil =>
    cases y with
    | nil => exact ⟨rfl,h⟩
    | cons c y =>
      have hc : '/' = c := by simpa using (List.cons_prefix_cons.mp h).1
      simp [← hc] at hy
  | cons a x ih =>
    cases y with
    | nil =>
      rcases hv with rfl | ⟨w,rfl⟩
      · simp at h
      · have ha : a = '/' := (List.cons_prefix_cons.mp h).1
        simp [ha] at hx
    | cons c y =>
      obtain ⟨rfl,ht⟩ := List.cons_prefix_cons.mp h
      simp only [List.mem_cons,not_or] at hx hy
      obtain ⟨rfl,hr⟩ := ih hx.2 hy.2 ht
      exact ⟨rfl,hr⟩

theorem join_head (q : Place) : join q = [] ∨ ∃ w, join q = '/' :: w := by
  cases q with
  | nil => exact .inl rfl
  | cons c q => exact .inr ⟨_,join_cons c q⟩

theorem join_slash_head (q : Place) : ∃ w, join q ++ ['/'] = '/' :: w := by
  rcases join_head q with h | ⟨w,hw⟩
  · exact ⟨[],by simp [h]⟩
  · exact ⟨w ++ ['/'],by simp [hw]⟩

theorem join_slash_initial {q r : Place} (hq : ValidPlace q) (hr : ValidPlace r) :
    join q ++ ['/'] <+: join r ↔ ∃ c s, r = q ++ c :: s := by
  induction q generalizing r with
  | nil =>
    cases r with
    | nil => simp [join]
    | cons c r => simp [join]
  | cons x q ih =>
    obtain ⟨hx,hqs⟩ := ValidPlace.cons.mp hq
    cases r with
    | nil => simp [join]
    | cons y r =>
      obtain ⟨hy,hrs⟩ := ValidPlace.cons.mp hr
      rw [join_cons,join_cons,List.cons_append,List.cons_prefix_cons,List.append_assoc]
      constructor
      · rintro ⟨-,h⟩
        obtain ⟨w,hw⟩ := join_slash_head q
        rw [hw] at h
        obtain ⟨rfl,ht⟩ := slash_split hx.2.2.2 hy.2.2.2 (join_head r) h
        rw [← hw] at ht
        obtain ⟨c,s,rfl⟩ := (ih hqs hrs).mp ht
        exact ⟨c,s,rfl⟩
      · rintro ⟨c,s,he⟩
        obtain ⟨rfl,rfl⟩ := List.cons.inj he
        refine ⟨rfl,?_⟩
        rw [List.prefix_append_right_inj]
        exact (ih hqs hrs).mpr ⟨c,s,rfl⟩

theorem join_injective {q r : Place} (hq : ValidPlace q) (hr : ValidPlace r)
    (h : join q = join r) : q = r := by
  induction q generalizing r with
  | nil => cases r with
    | nil => rfl
    | cons c r => simp [join] at h
  | cons x q ih =>
    cases r with
    | nil => simp [join] at h
    | cons y r =>
      obtain ⟨hx,hqs⟩ := ValidPlace.cons.mp hq
      obtain ⟨hy,hrs⟩ := ValidPlace.cons.mp hr
      rw [join_cons,join_cons,List.cons.injEq] at h
      have hp : x ++ (join q ++ ['/']) <+: y ++ (join r ++ ['/']) := by
        rw [← List.append_assoc,← List.append_assoc,h.2]
      obtain ⟨w,hw⟩ := join_slash_head q
      rw [hw] at hp
      obtain ⟨rfl,-⟩ := slash_split hx.2.2.2 hy.2.2.2 (.inr (join_slash_head r)) hp
      rw [ih hqs hrs (List.append_cancel_left h.2)]

theorem segments_join {q : Place} (hq : ValidPlace q) (h : q ≠ []) : segments (join q) = [] :: q := by
  induction q with
  | nil => exact absurd rfl h
  | cons c q ih =>
    obtain ⟨hc,hqs⟩ := ValidPlace.cons.mp hq
    rw [join_cons,segments,List.splitOn_cons_eq_if_modifyHead,if_pos (by simp)]
    cases q with
    | nil => simp [join,List.splitOn_eq_singleton hc.2.2.2]
    | cons d q =>
      have hd := ih hqs (by simp)
      rw [join_cons,segments,List.splitOn_cons_eq_if_modifyHead,if_pos (by simp)] at hd
      rw [join_cons,List.splitOn_append_cons_self_of_not_mem hc.2.2.2,
        (List.cons.inj hd).2]

theorem segments_absText {q : Place} (hq : ValidPlace q) (h : q ≠ []) :
    segments (absText q) = [] :: q := by
  simp only [absText,h,if_false]
  exact segments_join hq h

theorem foldl_skip_empty (rooted : Bool) (acc : Place) (cs : List Name) :
    cs.foldl (pushSegment rooted) acc = (cs.filter (· ≠ [])).foldl (pushSegment rooted) acc := by
  induction cs generalizing acc with
  | nil => rfl
  | cons c cs ih =>
    by_cases hc : c = []
    · subst hc
      simpa [pushSegment] using ih acc
    · simpa [hc] using ih (pushSegment rooted acc c)

theorem components_last {p : Text} {rest : List Name} {c : Name}
    (h : (segments p).filter (· ≠ []) = rest ++ [c]) (h1 : c ≠ dot) (h2 : c ≠ dotdot) :
    ∃ q, components p = q ++ [c] := by
  have hne : c ≠ [] := by
    have hm : c ∈ (segments p).filter (· ≠ []) := by rw [h]; simp
    simpa using (List.mem_filter.mp hm).2
  refine ⟨rest.foldl (pushSegment (isAbs p)) [],?_⟩
  rw [components,foldl_skip_empty,h,List.foldl_append]
  simp [pushSegment,hne,h1,h2]

theorem foldl_valid (acc : Place) {q : Place} (hq : ValidPlace q) :
    q.foldl (pushSegment true) acc = acc ++ q := by
  induction q generalizing acc with
  | nil => simp
  | cons c q ih =>
    obtain ⟨hc,hqs⟩ := ValidPlace.cons.mp hq
    have hpush : pushSegment true acc c = acc ++ [c] := by
      simp [pushSegment,hc.1,hc.2.1,hc.2.2.1]
    rw [List.foldl_cons,hpush,ih _ hqs,List.append_assoc,List.singleton_append]

theorem isAbs_absText (q : Place) : isAbs (absText q) = true := by
  cases q with
  | nil => rfl
  | cons c q => simp [absText,join_cons,isAbs]

theorem components_absText {q : Place} (hq : ValidPlace q) : components (absText q) = q := by
  by_cases e : q = []
  · subst e
    decide
  · rw [components,isAbs_absText,segments_absText hq e,List.foldl_cons]
    simpa [pushSegment] using foldl_valid [] hq

theorem clean_absText {q : Place} (hq : ValidPlace q) : clean (absText q) = absText q := by
  rw [clean_abs (isAbs_absText q),components_absText hq]

theorem clean_clean {p : Text} (h : isAbs p = true) : clean (clean p) = clean p := by
  rw [clean_abs h,clean_absText (components_valid h)]

theorem dir_clean {p : Text} (h : isAbs p = true) :
    dir (clean p) = absText (components p).dropLast := by
  rw [dir,clean_abs h,components_absText (components_valid h)]

theorem absText_injective {q r : Place} (hq : ValidPlace q) (hr : ValidPlace r)
    (h : absText q = absText r) : q = r := by
  have single {t : Place} (ht : ValidPlace t) : join t ≠ ['/'] := by
    cases t with
    | nil => simp [join]
    | cons c t =>
      have hc := (ValidPlace.cons.mp ht).1.1
      simp [join_cons,hc]
  unfold absText at h
  split at h
  · split at h
    · simp_all
    · exact absurd h.symm (single hr)
  · split at h
    · exact absurd h (single hq)
    · exact join_injective hq hr h

theorem within_absText {q r : Place} (hq : ValidPlace q) (hr : ValidPlace r) :
    within (absText q) (absText r) = true ↔ r = q ∨ (q ≠ [] ∧ q <+: r) := by
  simp only [within,hasPrefix,Bool.or_eq_true,beq_iff_eq,List.isPrefixOf_iff_prefix]
  constructor
  · rintro (h | h)
    · exact .inl (absText_injective hr hq h)
    · by_cases e : q = []
      · subst e
        cases r with
        | nil => simp [absText] at h
        | cons c r =>
          obtain ⟨a,c,rfl⟩ := List.exists_cons_of_ne_nil (ValidPlace.cons.mp hr).1.1
          have ha : '/' = a := by simpa [absText,join_cons] using h
          have := (ValidPlace.cons.mp hr).1.2.2.2
          simp [← ha] at this
      · by_cases f : r = []
        · subst f
          have := h.length_le
          simp only [absText,e,if_false,if_true,List.length_append,List.length_singleton] at this
          have : join q = [] := List.length_eq_zero_iff.mp (by omega)
          cases q <;> simp_all [join]
        · simp only [absText,e,f,if_false] at h
          obtain ⟨c,s,rfl⟩ := (join_slash_initial hq hr).mp h
          exact .inr ⟨e,List.prefix_append _ _⟩
  · rintro (rfl | ⟨e,s,rfl⟩)
    · exact .inl rfl
    · cases s with
      | nil => simp
      | cons c s =>
        right
        have f : q ++ c :: s ≠ [] := by simp
        simp only [absText,e,f,if_false]
        exact (join_slash_initial hq hr).mpr ⟨c,s,rfl⟩

theorem segments_slash (a b : Text) : segments (a ++ '/' :: b) = segments a ++ segments b := by
  induction a with
  | nil =>
    rw [List.nil_append,segments,List.splitOn_cons_eq_if_modifyHead,if_pos (by simp)]
    simp [segments,List.splitOn_nil]
  | cons x a ih =>
    unfold segments at ih ⊢
    rw [List.cons_append,List.splitOn_cons_eq_if_modifyHead,ih,List.splitOn_cons_eq_if_modifyHead]
    obtain ⟨s,ss,hs⟩ := List.exists_cons_of_ne_nil (List.splitOn_ne_nil '/' a)
    split
    · rfl
    · simp [hs]

theorem isAbs_append {a b : Text} (h : isAbs a = true) : isAbs (a ++ b) = true := by
  cases a with
  | nil => simp [isAbs] at h
  | cons c a => simpa [isAbs] using h

theorem components_slash {a b : Text} (h : isAbs a = true) :
    components (a ++ '/' :: b) = (segments b).foldl (pushSegment true) (components a) := by
  rw [components,isAbs_append h,segments_slash,List.foldl_append,components,h]

theorem absText_ne_nil (q : Place) : absText q ≠ [] := by
  intro h
  have habs := isAbs_absText q
  rw [h] at habs
  exact absurd habs (by decide)

theorem foldl_names (rooted : Bool) {cs : List Name} {acc : Place} (hcs : ∀ c ∈ cs, '/' ∉ c)
    (hacc : ∀ c ∈ acc, c ≠ [] ∧ '/' ∉ c) : ∀ c ∈ cs.foldl (pushSegment rooted) acc, c ≠ [] ∧ '/' ∉ c := by
  induction cs generalizing acc with
  | nil => exact hacc
  | cons c cs ih =>
    have hsnoc {d : Name} (hd : d ≠ [] ∧ '/' ∉ d) : ∀ e ∈ acc ++ [d], e ≠ [] ∧ '/' ∉ e := by
      intro e he
      rcases List.mem_append.mp he with he | he
      · exact hacc e he
      · rwa [List.mem_singleton.mp he]
    have hup : dotdot ≠ [] ∧ '/' ∉ dotdot := by decide
    refine ih (fun d hd => hcs d (List.mem_cons_of_mem c hd)) ?_
    unfold pushSegment
    split
    · exact hacc
    · rename_i hc
      split
      · split
        · split
          · exact fun _ hd => nomatch hd
          · exact fun d hd => List.mem_singleton.mp hd ▸ hup
        · split
          · exact hsnoc hup
          · exact fun d hd => hacc d (List.dropLast_subset _ hd)
      · exact hsnoc ⟨fun he => hc (.inl he),hcs c List.mem_cons_self⟩

theorem components_names {p : Text} {c : Name} (h : c ∈ components p) : c ≠ [] ∧ '/' ∉ c :=
  foldl_names (isAbs p) (fun _ hc => segment_no_slash hc) (List.forall_mem_nil _) c h

theorem isAbs_clean (p : Text) : isAbs (clean p) = isAbs p := by
  by_cases hp : isAbs p = true
  · rw [clean_abs hp,hp,isAbs_absText]
  · have hrel : isAbs p = false := by simpa using hp
    rw [clean,hrel]
    simp only [Bool.false_eq_true,if_false]
    split
    · decide
    · rename_i hne
      obtain ⟨c,rest,hcs⟩ := List.exists_cons_of_ne_nil hne
      have hc := components_names (p := p) (by rw [hcs]; exact List.mem_cons_self)
      obtain ⟨x,xs,rfl⟩ := List.exists_cons_of_ne_nil hc.1
      have hx : x ≠ '/' := fun he => hc.2 (by rw [he]; exact List.mem_cons_self)
      rw [hcs]
      cases rest <;> simpa [isAbs,List.intercalate_cons_cons] using hx

theorem clean_ne_nil (p : Text) : clean p ≠ [] := by
  by_cases hp : isAbs p = true
  · rw [clean_abs hp]
    exact absText_ne_nil _
  · rw [clean,if_neg hp]
    split
    · decide
    · rename_i hne
      obtain ⟨c,rest,hcs⟩ := List.exists_cons_of_ne_nil hne
      have hc := components_names (p := p) (by rw [hcs]; exact List.mem_cons_self)
      rw [hcs]
      cases rest <;> simp [List.intercalate_cons_cons,hc.1]

theorem hasPrefix_isAbs {p base : Text} (hbase : isAbs base = true) (h : hasPrefix p base = true) :
    isAbs p = true := by
  obtain ⟨tail,rfl⟩ := List.isPrefixOf_iff_prefix.mp h
  exact isAbs_append hbase

theorem within_isAbs {p base : Text} (hbase : isAbs base = true) (h : within base p = true) :
    isAbs p = true := by
  rcases Bool.or_eq_true_iff.mp h with he | hpre
  · rwa [beq_iff_eq.mp he]
  · exact hasPrefix_isAbs (isAbs_append hbase) hpre

theorem joinPath_absText {q r : Place} (hq : ValidPlace q) (hr : ValidPlace r) :
    joinPath (absText q) (absText r) = absText (q ++ r) := by
  have hcomp : components (absText q ++ '/' :: absText r) = q ++ r := by
    rw [components_slash (isAbs_absText q),components_absText hq]
    by_cases e : r = []
    · subst e
      have hroot : segments (absText []) = [[],[]] := by decide
      simp [hroot,pushSegment]
    · rw [segments_absText hr e,List.foldl_cons]
      simpa [pushSegment] using foldl_valid q hr
  rw [joinPath,if_neg (absText_ne_nil q),if_neg (absText_ne_nil r),
    clean_abs (isAbs_append (isAbs_absText q)),hcomp]

theorem joinPath_abs {a : Text} {c : Name} (ha : isAbs a = true) (hc : ValidName c) :
    joinPath a c = absText (components a ++ [c]) := by
  have hcomp : components (a ++ '/' :: c) = components a ++ [c] := by
    rw [components_slash ha,segments,List.splitOn_eq_singleton hc.2.2.2,List.foldl_cons,
      List.foldl_nil]
    simp [pushSegment,hc.1,hc.2.1,hc.2.2.1]
  have hne : a ≠ [] := by
    rintro rfl
    exact absurd ha (by decide)
  rw [joinPath,if_neg hne,if_neg hc.1,clean_abs (isAbs_append ha),hcomp]

theorem joinPath_name {q : Place} {c : Name} (hq : ValidPlace q) (hc : ValidName c) :
    joinPath (absText q) c = absText (q ++ [c]) := by
  rw [joinPath_abs (isAbs_absText q) hc,components_absText hq]

theorem joinPath_valid {a b : Text} (ha : isAbs a = true) :
    ∃ q, ValidPlace q ∧ joinPath a b = absText q := by
  have hne : a ≠ [] := by
    rintro rfl
    exact absurd ha (by decide)
  unfold joinPath
  rw [if_neg hne]
  split
  · exact ⟨_,components_valid ha,clean_abs ha⟩
  · exact ⟨_,components_valid (isAbs_append ha),clean_abs (isAbs_append ha)⟩

theorem foldl_joinPath {q r : Place} (hq : ValidPlace q) (hr : ValidPlace r) :
    r.foldl joinPath (absText q) = absText (q ++ r) := by
  induction r generalizing q with
  | nil => simp
  | cons c r ih =>
    obtain ⟨hc,hrs⟩ := ValidPlace.cons.mp hr
    rw [List.foldl_cons,joinPath_name hq hc,
      ih (ValidPlace.append.mpr ⟨hq,ValidPlace.cons.mpr ⟨hc,validPlace_nil⟩⟩) hrs,List.append_assoc,
      List.singleton_append]

theorem dropCommon_append (q r : Place) : dropCommon q (q ++ r) = ([],r) := by
  induction q with
  | nil => cases r <;> rfl
  | cons c q ih =>
    rw [List.cons_append,dropCommon,if_pos rfl]
    exact ih

theorem relPath_below {q r : Place} (hq : ValidPlace (q ++ r)) (hne : r ≠ []) :
    relPath (absText q) (absText (q ++ r)) = relText r := by
  unfold relPath
  rw [components_absText (ValidPlace.append.mp hq).1,components_absText hq,dropCommon_append]
  exact if_neg hne

theorem relPath_self {q : Place} (hq : ValidPlace q) : relPath (absText q) (absText q) = dot := by
  have hcommon := dropCommon_append q []
  rw [List.append_nil] at hcommon
  unfold relPath
  rw [components_absText hq,hcommon]
  rfl

theorem joinPath_dot {q : Place} (hq : ValidPlace q) : joinPath (absText q) dot = absText q := by
  have hcomp : components (absText q ++ '/' :: dot) = q := by
    rw [components_slash (isAbs_absText q),components_absText hq]
    rfl
  rw [joinPath,if_neg (absText_ne_nil q),if_neg (by decide),
    clean_abs (isAbs_append (isAbs_absText q)),hcomp]

section Relative

variable {r : Place} (hr : ValidPlace r) (hne : r ≠ [])

include hr hne

theorem segments_relText : segments (relText r) = r :=
  List.splitOn_intercalate '/' (fun c hc => (hr c hc).2.2.2) hne

theorem relText_eq : ∃ c rest, r = c :: rest ∧ ValidName c ∧
    relText r = c ++ if rest = [] then [] else '/' :: relText rest := by
  cases r with
  | nil => exact absurd rfl hne
  | cons c rest =>
    refine ⟨c,rest,rfl,(ValidPlace.cons.mp hr).1,?_⟩
    cases rest with
    | nil => simp [relText]
    | cons b rest => simp [relText,List.intercalate_cons_cons]

theorem isAbs_relText : isAbs (relText r) = false := by
  obtain ⟨c,rest,-,hc,htext⟩ := relText_eq hr hne
  rw [htext]
  cases c with
  | nil => exact absurd rfl hc.1
  | cons x c =>
    have hx : x ≠ '/' := fun h => hc.2.2.2 (h ▸ List.mem_cons_self)
    simpa [isAbs] using hx

theorem components_relText : components (relText r) = r := by
  have hfold : ∀ (acc : Place) {q : Place}, ValidPlace q →
      q.foldl (pushSegment false) acc = acc ++ q := by
    intro acc q hq
    induction q generalizing acc with
    | nil => simp
    | cons c q ih =>
      obtain ⟨hc,hqs⟩ := ValidPlace.cons.mp hq
      have hpush : pushSegment false acc c = acc ++ [c] := by
        simp [pushSegment,hc.1,hc.2.1,hc.2.2.1]
      rw [List.foldl_cons,hpush,ih _ hqs,List.append_assoc,List.singleton_append]
  rw [components,isAbs_relText hr hne,segments_relText hr hne,hfold [] hr,List.nil_append]

theorem clean_relText : clean (relText r) = relText r := by
  rw [clean,isAbs_relText hr hne,components_relText hr hne]
  simp [hne,relText]

theorem joinPath_relText {q : Place} (hq : ValidPlace q) :
    joinPath (absText q) (relText r) = absText (q ++ r) := by
  have htext : relText r ≠ [] := by
    obtain ⟨c,rest,-,hc,htext⟩ := relText_eq hr hne
    rw [htext]
    exact fun h => hc.1 (List.append_eq_nil_iff.mp h).1
  have hcomp : components (absText q ++ '/' :: relText r) = q ++ r := by
    rw [components_slash (isAbs_absText q),components_absText hq,segments_relText hr hne,
      foldl_valid q hr]
  rw [joinPath,if_neg (absText_ne_nil q),if_neg htext,clean_abs (isAbs_append (isAbs_absText q)),
    hcomp]

theorem hasPrefix_relText : hasPrefix (relText r) dotdot = (r.head?.any fun c => hasPrefix c dotdot) := by
  obtain ⟨c,rest,rfl,hc,htext⟩ := relText_eq hr hne
  rw [htext]
  show dotdot.isPrefixOf _ = dotdot.isPrefixOf c
  match c,hc with
  | [],hc => exact absurd rfl hc.1
  | [x],hc =>
    have hx : x ≠ '.' := fun h => hc.2.1 (by rw [h]; rfl)
    simp [dotdot,List.isPrefixOf,Ne.symm hx]
  | x :: y :: c,_ => simp [dotdot,List.isPrefixOf]

end Relative

theorem joinPath_relPath {s t r : Place} (hs : ValidPlace s) (ht : ValidPlace t) (hr : ValidPlace r) :
    joinPath (absText t) (relPath (absText s) (absText (s ++ r))) = absText (t ++ r) := by
  by_cases hne : r = []
  · subst hne
    rw [List.append_nil,List.append_nil,relPath_self hs,joinPath_dot ht]
  · rw [relPath_below (ValidPlace.append.mpr ⟨hs,hr⟩) hne,joinPath_relText hr hne ht]

end Posix
