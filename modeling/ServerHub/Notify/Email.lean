import ServerHub.Notify.Groups

namespace Notify

abbrev Text := List Char

def keySmtpHost : String := "notify_smtp_host"

def keySmtpPort : String := "notify_smtp_port"

def keySmtpFrom : String := "notify_smtp_from"

def crlf : Text := ['\r','\n']

def netJoinHostPort (host port : Text) : Text := host ++ ':' :: port

def field (name : String) (value : Text) : Text := name.toList ++ ':' :: ' ' :: (value ++ crlf)

def buildEmail (m : String → String) (recipients : List String) (subject text : Text) : Except Text (Text × Text) :=
  let host := Go.trim (m keySmtpHost).toList
  let port := Go.trim (m keySmtpPort).toList
  let sender := Go.trim (m keySmtpFrom).toList
  if host = [] ∨ sender = [] ∨ recipients = [] then .error "smtp host/from/to required".toList
  else
    let port := if port = [] then "587".toList else port
    .ok (netJoinHostPort host port,
      field "From" sender ++ field "To" ([',',' '].intercalate (recipients.map String.toList)) ++
        field "Subject" subject ++ field "MIME-Version" "1.0".toList ++
        field "Content-Type" "text/plain; charset=utf-8".toList ++ crlf ++ text ++ crlf)

def lines : Text → List Text
  | [] => []
  | c :: cs =>
      if c = '\n' then [c] :: lines cs
      else
        match lines cs with
        | [] => [[c]]
        | l :: ls => (c :: l) :: ls

def isBlank (c : Char) : Bool := c == ' ' || c == '\t'

def continues (l : Text) : Bool := l.head?.any isBlank

def isEmptyLine (l : Text) : Bool := l == ['\n'] || l == crlf

def attach (l : Text) : List (List Text) → List (List Text)
  | [] => [[l]]
  | g :: gs => if g.head?.any continues then (l :: g) :: gs else [l] :: g :: gs

def header (msg : Text) : List Text := (lines msg).takeWhile fun l => !isEmptyLine l

def fields (msg : Text) : List Text := ((header msg).foldr attach []).map List.flatten

def body (msg : Text) : Text := ((lines msg).dropWhile fun l => !isEmptyLine l).tail.flatten

def written (sender : Text) (recipients : List String) (subject : Text) : List Text :=
  [field "From" sender,field "To" ([',',' '].intercalate (recipients.map String.toList)),field "Subject" subject,
    field "MIME-Version" "1.0".toList,field "Content-Type" "text/plain; charset=utf-8".toList]

-- every line feed is followed by a space or a tab
def folded : Text → Bool
  | [] => true
  | c :: cs => (c != '\n' || cs.head?.any isBlank) && folded cs

section Lines

variable {l l' s t : Text} {ls ms : List Text} {c : Char}

theorem lines_cons (hc : c ≠ '\n') (h : lines s = l :: ls) : lines (c :: s) = (c :: l) :: ls := by
  rw [lines,if_neg hc,h]

theorem lines_ne_nil (hs : s ≠ []) : lines s ≠ [] := by
  obtain ⟨c,s,rfl⟩ := List.exists_cons_of_ne_nil hs
  rw [lines]
  split
  · exact List.cons_ne_nil _ _
  · split <;> exact List.cons_ne_nil _ _

theorem flatten_lines (s : Text) : (lines s).flatten = s := by
  induction s with
  | nil => rfl
  | cons c s ih =>
    rw [lines]
    split
    · rw [List.flatten_cons,ih,List.singleton_append]
    · split
      · rename_i hnil
        rw [hnil] at ih
        rw [← ih]
        rfl
      · rename_i l ls hl
        rw [hl] at ih
        rw [← ih]
        rfl

def Whole (l : Text) : Prop := ∃ s, l = s ++ ['\n'] ∧ '\n' ∉ s

theorem lines_whole (h : Whole l) (s : Text) : lines (l ++ s) = l :: lines s := by
  obtain ⟨t,rfl,ht⟩ := h
  induction t with
  | nil => simp [lines]
  | cons c t ih =>
    obtain ⟨hc,ht⟩ := List.ne_and_not_mem_of_not_mem_cons ht
    exact lines_cons (Ne.symm hc) (ih ht)

theorem lines_flatten (h : ∀ l ∈ ls, Whole l) (s : Text) : lines (ls.flatten ++ s) = ls ++ lines s := by
  induction ls with
  | nil => rfl
  | cons l ls ih =>
    rw [List.flatten_cons,List.append_assoc,lines_whole (h l List.mem_cons_self),
      ih fun m hm => h m (List.mem_cons_of_mem l hm)]
    rfl

theorem whole_of_mem (hl : l ∈ lines (s ++ ['\n'])) : Whole l := by
  induction s generalizing l with
  | nil =>
    obtain rfl := List.mem_singleton.mp hl
    exact ⟨[],rfl,List.not_mem_nil⟩
  | cons c s ih =>
    rw [List.cons_append,lines] at hl
    split at hl
    · rename_i hc
      rcases List.mem_cons.mp hl with rfl | hl
      · exact ⟨[],by rw [hc]; rfl,List.not_mem_nil⟩
      · exact ih hl
    · rename_i hc
      split at hl
      · rename_i hnil
        exact absurd hnil (lines_ne_nil (by simp))
      · rename_i m ms hm
        rcases List.mem_cons.mp hl with rfl | hl
        · obtain ⟨t,rfl,ht⟩ := ih (hm ▸ List.mem_cons_self)
          exact ⟨c :: t,rfl,List.not_mem_cons_of_ne_of_not_mem (Ne.symm hc) ht⟩
        · exact ih (hm ▸ List.mem_cons_of_mem m hl)

theorem lines_prefix {pre : Text} (hpre : '\n' ∉ pre) (h : lines s = l :: ls) :
    lines (pre ++ s) = (pre ++ l) :: ls := by
  induction pre with
  | nil => exact h
  | cons c pre ih =>
    obtain ⟨hc,hpre⟩ := List.ne_and_not_mem_of_not_mem_cons hpre
    exact lines_cons (Ne.symm hc) (ih hpre)

theorem lines_split (s t : Text) : lines (s ++ ['\n'] ++ t) = lines (s ++ ['\n']) ++ lines t := by
  have hwhole : ∀ l ∈ lines (s ++ ['\n']), Whole l := fun l hl => whole_of_mem hl
  have hlines := lines_flatten hwhole t
  rwa [flatten_lines] at hlines

theorem head_lines (s : Text) (h : lines s = l :: ls) : l.head? = s.head? := by
  cases s with
  | nil => cases h
  | cons c s =>
    rw [lines] at h
    split at h
    · rw [← (List.cons.inj h).1]
      rfl
    · split at h
      · rw [← (List.cons.inj h).1]
        rfl
      · rw [← (List.cons.inj h).1]
        rfl

theorem lines_value (v : Text) : ∃ l ls, lines (v ++ crlf) = l :: ls ∧ ls.all continues = folded v := by
  induction v with
  | nil => exact ⟨crlf,[],rfl,rfl⟩
  | cons c v ih =>
    obtain ⟨l,ls,hlines,hall⟩ := ih
    by_cases hc : c = '\n'
    · subst hc
      refine ⟨['\n'],l :: ls,?_,?_⟩
      · rw [List.cons_append,lines,if_pos rfl,hlines]
      · have hhead : continues l = v.head?.any isBlank := by
          rw [continues,head_lines _ hlines]
          cases v <;> rfl
        rw [List.all_cons,hall,hhead,folded]
        rfl
    · refine ⟨c :: l,ls,lines_cons hc hlines,?_⟩
      rw [hall,folded,bne_iff_ne.mpr hc,Bool.true_or,Bool.true_and]

end Lines

section Fields

variable {l : Text} {ls rest : List Text}

def grouped (ls : List Text) : List (List Text) := ls.foldr attach []

theorem flatten_attach (l : Text) (gs : List (List Text)) : (attach l gs).flatten = l :: gs.flatten := by
  cases gs with
  | nil => rfl
  | cons g gs =>
    rw [attach]
    split <;> rfl

theorem flatten_grouped (ls : List Text) : (grouped ls).flatten = ls := by
  induction ls with
  | nil => rfl
  | cons l ls ih => rw [grouped,List.foldr_cons,flatten_attach,← grouped,ih]

theorem grouped_tail (ls : List Text) : ∀ g ∈ grouped ls, ∃ l cs, g = l :: cs ∧ cs.all continues = true := by
  induction ls with
  | nil => exact List.forall_mem_nil _
  | cons l ls ih =>
    intro g hg
    rw [grouped,List.foldr_cons,← grouped] at hg
    cases hgs : grouped ls with
    | nil =>
      rw [hgs] at hg
      exact ⟨l,[],List.mem_singleton.mp hg,rfl⟩
    | cons h hs =>
      rw [hgs,attach] at hg
      rw [hgs] at ih
      split at hg
      · rename_i hcontinues
        rcases List.mem_cons.mp hg with rfl | hg
        · obtain ⟨c,cs,rfl,hall⟩ := ih h List.mem_cons_self
          refine ⟨l,c :: cs,rfl,?_⟩
          rw [List.all_cons,hall,Bool.and_true]
          exact hcontinues
        · exact ih g (List.mem_cons_of_mem h hg)
      · rcases List.mem_cons.mp hg with rfl | hg
        · exact ⟨l,[],rfl,rfl⟩
        · exact ih g hg

theorem grouped_field {cs : List Text} (hcs : cs.all continues = true)
    (hrest : ∀ r ∈ rest.head?, continues r = false) :
    grouped (l :: cs ++ rest) = (l :: cs) :: grouped rest := by
  induction cs generalizing l with
  | nil =>
    rw [List.singleton_append,grouped,List.foldr_cons,← grouped]
    cases hg : grouped rest with
    | nil => rfl
    | cons g gs =>
      obtain ⟨r,rs,rfl,-⟩ := grouped_tail rest g (hg ▸ List.mem_cons_self)
      have hflat := flatten_grouped rest
      rw [hg] at hflat
      have hr : continues r = false := hrest r (by rw [← hflat]; rfl)
      rw [attach,if_neg (by simp [hr])]
  | cons c cs ih =>
    rw [List.all_cons,Bool.and_eq_true] at hcs
    rw [List.cons_append,grouped,List.foldr_cons,← grouped,ih hcs.2,attach,if_pos (by simp [hcs.1])]

def Name (name : String) : Prop :=
  ∃ c s, name.toList = c :: s ∧ isBlank c = false ∧ c ≠ '\r' ∧ '\n' ∉ name.toList

theorem field_lines {name : String} (hname : Name name) (v : Text) :
    ∃ l ls, lines (field name v) = l :: ls ∧ ls.all continues = folded v ∧ continues l = false ∧
      isEmptyLine l = false := by
  obtain ⟨c,s,hc,hblank,hcr,hnl⟩ := hname
  obtain ⟨l,ls,hlines,hall⟩ := lines_value v
  have hpre : '\n' ∉ name.toList ++ [':',' '] := by
    rw [List.mem_append]
    exact not_or_intro hnl (by decide)
  refine ⟨name.toList ++ [':',' '] ++ l,ls,?_,hall,?_,?_⟩
  · rw [← lines_prefix hpre hlines,field]
    simp
  · simp [continues,hc,hblank]
  · have hcn : c ≠ '\n' := fun he => hnl (by rw [hc,he]; exact List.mem_cons_self)
    simp [isEmptyLine,crlf,hc,hcn,hcr]

theorem not_empty_of_continues (h : continues l = true) : isEmptyLine l = false := by
  cases l with
  | nil => cases h
  | cons c l =>
    have hcr : c ≠ '\r' := by
      rintro rfl
      cases h
    have hnl : c ≠ '\n' := by
      rintro rfl
      cases h
    simp [isEmptyLine,crlf,hcr,hnl]

variable {fs : List (String × Text)} {text : Text}

def fieldsText (fs : List (String × Text)) : Text := (fs.map fun f => field f.1 f.2).flatten

def message (fs : List (String × Text)) (text : Text) : Text := fieldsText fs ++ (crlf ++ (text ++ crlf))

theorem lines_field (name : String) (v s : Text) :
    lines (field name v ++ s) = lines (field name v) ++ lines s := by
  have hend : field name v = (name.toList ++ ':' :: ' ' :: (v ++ ['\r'])) ++ ['\n'] := by simp [field,crlf]
  rw [hend]
  exact lines_split _ _

theorem lines_fields (fs : List (String × Text)) (s : Text) :
    lines (fieldsText fs ++ s) = fs.flatMap (fun f => lines (field f.1 f.2)) ++ lines s := by
  induction fs with
  | nil => rfl
  | cons f fs ih =>
    rw [fieldsText,List.map_cons,List.flatten_cons,List.append_assoc,lines_field,← fieldsText,ih,
      List.flatMap_cons,List.append_assoc]

theorem lines_crlf (s : Text) : lines (crlf ++ s) = crlf :: lines s :=
  lines_whole ⟨['\r'],rfl,by decide⟩ s

theorem folded_of_fields (hnames : ∀ f ∈ fs, Name f.1)
    (h : fields (message fs text) = fs.map fun f => field f.1 f.2) : ∀ f ∈ fs, folded f.2 = true := by
  intro f hf
  have hmem : field f.1 f.2 ∈ fields (message fs text) := h ▸ List.mem_map.mpr ⟨f,hf,rfl⟩
  obtain ⟨g,hg,hflat⟩ := List.mem_map.mp hmem
  have hwhole : ∀ l ∈ g, Whole l := by
    intro l hl
    have hheader : l ∈ header (message fs text) := by
      rw [← flatten_grouped (header (message fs text))]
      exact List.mem_flatten.mpr ⟨g,hg,hl⟩
    have hend : message fs text = (fieldsText fs ++ (crlf ++ (text ++ ['\r']))) ++ ['\n'] := by
      simp [message,crlf]
    exact whole_of_mem (hend ▸ List.takeWhile_subset _ hheader)
  have hlines : lines (field f.1 f.2) = g := by
    have hsplit := lines_flatten hwhole []
    rwa [List.append_nil,hflat,lines,List.append_nil] at hsplit
  obtain ⟨l,cs,rfl,hcs⟩ := grouped_tail _ g hg
  obtain ⟨l',ls,hfield,hall,-,-⟩ := field_lines (hnames f hf) f.2
  rw [← hall,(List.cons.inj (hfield.symm.trans hlines)).2]
  exact hcs

theorem fields_not_empty (hnames : ∀ f ∈ fs, Name f.1) (hfolded : ∀ f ∈ fs, folded f.2 = true) :
    ∀ l ∈ fs.flatMap (fun f => lines (field f.1 f.2)), isEmptyLine l = false := by
  intro l hl
  obtain ⟨f,hf,hl⟩ := List.mem_flatMap.mp hl
  obtain ⟨l',ls,hfield,hall,-,hfirst⟩ := field_lines (hnames f hf) f.2
  rw [hfield] at hl
  rw [hfolded f hf,List.all_eq_true] at hall
  rcases List.mem_cons.mp hl with rfl | hl
  · exact hfirst
  · exact not_empty_of_continues (hall l hl)

theorem grouped_fields (hnames : ∀ f ∈ fs, Name f.1) (hfolded : ∀ f ∈ fs, folded f.2 = true) :
    grouped (fs.flatMap fun f => lines (field f.1 f.2)) = fs.map fun f => lines (field f.1 f.2) := by
  induction fs with
  | nil => rfl
  | cons f fs ih =>
    obtain ⟨hf,hnames⟩ := List.forall_mem_cons.mp hnames
    obtain ⟨hff,hfolded⟩ := List.forall_mem_cons.mp hfolded
    obtain ⟨l,ls,hfield,hall,-,-⟩ := field_lines hf f.2
    have hnext : ∀ r ∈ (fs.flatMap fun f => lines (field f.1 f.2)).head?, continues r = false := by
      cases fs with
      | nil => exact nofun
      | cons f' fs =>
        obtain ⟨l',ls',hfield',-,hcontinues,-⟩ := field_lines (hnames f' List.mem_cons_self) f'.2
        rw [List.flatMap_cons,hfield']
        rintro r ⟨⟩
        exact hcontinues
    rw [List.flatMap_cons,List.map_cons,← ih hnames hfolded,hfield]
    exact grouped_field (by rw [hall,hff]) hnext

theorem message_lines (fs : List (String × Text)) (text : Text) : lines (message fs text) =
    fs.flatMap (fun f => lines (field f.1 f.2)) ++ crlf :: lines (text ++ crlf) := by
  rw [message,lines_fields,lines_crlf]

theorem message_intact_iff (hnames : ∀ f ∈ fs, Name f.1) (text : Text) :
    (fields (message fs text) = fs.map (fun f => field f.1 f.2) ∧ body (message fs text) = text ++ crlf) ↔
      ∀ f ∈ fs, folded f.2 = true := by
  refine ⟨fun h => folded_of_fields hnames h.1,fun hfolded => ?_⟩
  have hfull : ∀ l ∈ fs.flatMap (fun f => lines (field f.1 f.2)), (!isEmptyLine l) = true := by
    intro l hl
    rw [fields_not_empty hnames hfolded l hl]
    rfl
  constructor
  · have hheader : header (message fs text) = fs.flatMap fun f => lines (field f.1 f.2) := by
      rw [header,message_lines,List.takeWhile_append_of_pos hfull,List.takeWhile_cons_of_neg (by decide),
        List.append_nil]
    rw [fields,hheader,← grouped,grouped_fields hnames hfolded,List.map_map]
    exact List.map_congr_left fun f _ => flatten_lines _
  · rw [body,message_lines,List.dropWhile_append_of_pos hfull,List.dropWhile_cons_of_neg (by decide)]
    exact flatten_lines _

end Fields

section Mail

variable {m : String → String} {recipients : List String} {subject text addr msg : Text}

theorem folded_append {a b : Text} (hb : b.head?.any isBlank = false) :
    folded (a ++ b) = (folded a && folded b) := by
  induction a with
  | nil => rfl
  | cons c a ih =>
    have hhead : (a ++ b).head?.any isBlank = a.head?.any isBlank := by
      cases a with
      | nil => exact hb
      | cons _ _ => rfl
    rw [List.cons_append,folded,folded,ih,hhead,Bool.and_assoc]

theorem folded_joined (rs : List Text) :
    folded ([',',' '].intercalate rs) = true ↔ ∀ r ∈ rs, folded r = true := by
  induction rs with
  | nil => simp [folded]
  | cons r rs ih =>
    cases rs with
    | nil => simp
    | cons r' rs =>
      rw [List.intercalate_cons_cons,List.append_assoc,folded_append rfl,Bool.and_eq_true,
        List.forall_mem_cons,← ih]
      rfl

def headers (sender : Text) (recipients : List String) (subject : Text) : List (String × Text) :=
  [("From",sender),("To",[',',' '].intercalate (recipients.map String.toList)),("Subject",subject),
    ("MIME-Version","1.0".toList),("Content-Type","text/plain; charset=utf-8".toList)]

theorem named_headers (sender : Text) (recipients : List String) (subject : Text) :
    ∀ f ∈ headers sender recipients subject, Name f.1 := by
  have hname (c : Char) (s : Text) (hc : isBlank c = false ∧ c ≠ '\r' ∧ '\n' ∉ c :: s) :
      Name (String.ofList (c :: s)) := ⟨c,s,String.toList_ofList,hc.1,hc.2.1,by simpa using hc.2.2⟩
  simp only [headers,List.forall_mem_cons]
  exact ⟨hname _ _ (by decide),hname _ _ (by decide),hname _ _ (by decide),hname _ _ (by decide),
    hname _ _ (by decide),List.forall_mem_nil _⟩

theorem buildEmail_message (h : buildEmail m recipients subject text = .ok (addr,msg)) :
    msg = message (headers (Go.trim (m keySmtpFrom).toList) recipients subject) text := by
  unfold buildEmail at h
  dsimp only at h
  split at h
  · cases h
  · obtain ⟨-,rfl⟩ := Prod.mk.inj (Except.ok.inj h)
    simp [message,fieldsText,headers]

theorem header_intact_iff (h : buildEmail m recipients subject text = .ok (addr,msg)) :
    (fields msg = written (Go.trim (m keySmtpFrom).toList) recipients subject ∧ body msg = text ++ crlf) ↔
      folded (Go.trim (m keySmtpFrom).toList) = true ∧ (∀ r ∈ recipients, folded r.toList = true) ∧
        folded subject = true := by
  have hintact := message_intact_iff (named_headers (Go.trim (m keySmtpFrom).toList) recipients subject) text
  rw [← buildEmail_message h] at hintact
  have hversion : folded "1.0".toList = true := by decide
  have htype : folded "text/plain; charset=utf-8".toList = true := by decide
  have hjoined := folded_joined (recipients.map String.toList)
  rw [List.forall_mem_map] at hjoined
  refine hintact.trans ?_
  simp only [headers,List.forall_mem_cons,hjoined,hversion,htype,List.not_mem_nil,false_implies,implies_true,
    and_true]

def mailbox (k : String) : String :=
  if k = keySmtpHost then "mx" else if k = keySmtpFrom then "hub" else ""

def accepts (address : String) : Bool := address == "ops@mx"

theorem plain_subject_intact : ∃ addr msg,
    buildEmail mailbox ["ops@mx"] "CPU high".toList [] = .ok (addr,msg) ∧
      ((fields msg = written (Go.trim (mailbox keySmtpFrom).toList) ["ops@mx"] "CPU high".toList ∧
          body msg = [] ++ crlf) ↔
        folded (Go.trim (mailbox keySmtpFrom).toList) = true ∧ (∀ r ∈ ["ops@mx"], folded r.toList = true) ∧
          folded "CPU high".toList = true) := by
  have hok : (buildEmail mailbox ["ops@mx"] "CPU high".toList []).isOk = true := by decide +kernel
  cases h : buildEmail mailbox ["ops@mx"] "CPU high".toList [] with
  | error e =>
    rw [h] at hok
    cases hok
  | ok x => exact ⟨x.1,x.2,rfl,header_intact_iff h⟩

theorem subject_adds_header : ¬∀ (parses : String → Bool) (m : String → String) (raw : List String)
    (subject text addr msg : Text), buildEmail m (cleanEmails parses raw) subject text = .ok (addr,msg) →
      fields msg = written (Go.trim (m keySmtpFrom).toList) (cleanEmails parses raw) subject ∧
        body msg = text ++ crlf := by
  intro h
  obtain ⟨hfields,-⟩ := h accepts mailbox ["ops@mx"] "CPU\r\nBcc: x".toList [] _ _ rfl
  revert hfields
  decide +kernel

end Mail

end Notify
