import ServerHub.Go.Strings

namespace Discovery

abbrev Text := List Char

def isBlank (c : Char) : Bool := c == ' ' || c == '\t'

def isTrailing (c : Char) : Bool := isBlank c || c == '\r'

def isQuote (c : Char) : Bool := c == '"' || c == '\''

def trimRight (line : Text) : Text := line.rdropWhile isTrailing

def trimQuotes (s : Text) : Text := (s.dropWhile isQuote).rdropWhile isQuote

def indentOf (line : Text) : Nat := (line.takeWhile isBlank).length

def services : Text := "services".toList

def serviceName (stripped : Text) : Option Text :=
  if stripped.getLast? = some ':' then
    let name := trimQuotes stripped.dropLast
    if name ≠ [] ∧ ' ' ∉ name then some name else none
  else none

def scanLines (inServices : Bool) : List Text → List Text
  | [] => []
  | line :: lines =>
      let trimmed := trimRight line
      if trimmed = [] ∨ (Go.trim trimmed).head? = some '#' then scanLines inServices lines
      else
        let indent := indentOf line
        let stripped := Go.trim trimmed
        if indent = 0 then scanLines (stripped == services ++ [':']) lines
        else if inServices = false then scanLines inServices lines
        else
          let found := if indent = 2 then (serviceName stripped).toList else []
          -- the loop breaks at the first line indented less than two columns
          if indent < 2 then found else found ++ scanLines inServices lines

def maxComposeBytes : Nat := 512 * 1024

def utf8Length (s : Text) : Nat := (s.map Char.utf8Size).sum

def parseComposeServices : Option Text → List Text
  | none => []
  | some b => if utf8Length b > maxComposeBytes then [] else scanLines false (b.splitOn '\n')

inductive Single : Text → Text → Prop where
  | nil : Single [] []
  | char {c : Char} {raw name : Text} (hc : c ≠ '\'') (h : Single raw name) : Single (c :: raw) (c :: name)
  | quote {raw name : Text} (h : Single raw name) : Single ('\'' :: '\'' :: raw) ('\'' :: name)

inductive Double : Text → Text → Prop where
  | nil : Double [] []
  | char {c : Char} {raw name : Text} (hc : c ≠ '"') (hslash : c ≠ '\\') (h : Double raw name) :
      Double (c :: raw) (c :: name)
  | escape {raw name : Text} (code : Text) (c : Char) (h : Double raw name) :
      Double ('\\' :: (code ++ raw)) (c :: name)

inductive Spelled : Text → Text → Prop where
  | plain {c : Char} {name : Text} (hspace : Go.isSpace c = false) (hquote : isQuote c = false) (hc : c ≠ '#') :
      Spelled (c :: name) (c :: name)
  | single {raw name : Text} (h : Single raw name) : Spelled ('\'' :: (raw ++ ['\''])) name
  | double {raw name : Text} (h : Double raw name) : Spelled ('"' :: (raw ++ ['"'])) name

structure Key where
  text : Text
  name : Text
  spelled : Spelled text name

def Filler (line : Text) : Prop :=
  (∀ c ∈ line, isTrailing c = true) ∨ (line.dropWhile isBlank).head? = some '#'

-- directives, document markers and the items of a sequence at column 0
def Marker (line : Text) : Prop := ∃ c ∈ ['%','-','.'], line.head? = some c

def keyLine (indent : Nat) (key : Key) (rest : Text) : Text :=
  List.replicate indent ' ' ++ (key.text ++ ':' :: rest)

def Ends (rest : Text) : Prop := ∀ c ∈ rest.head?, isTrailing c = true

structure Entry (indent : Nat) where
  key : Key
  rest : Text
  body : List Text
  ends : Ends rest
  deeper : ∀ line ∈ body, Filler line ∨ List.replicate (indent + 1) ' ' <+: line

def Entry.lines {indent : Nat} (e : Entry indent) : List Text := keyLine indent e.key e.rest :: e.body

def words (s : Text) : List Text := (s.splitOnP isTrailing).filter (· ≠ [])

-- nothing but an anchor, a tag and a comment stands after the colon
def Bare (rest : Text) : Prop :=
  ∀ w ∈ (words rest).takeWhile (fun w => w.head? ≠ some '#'), w.head? = some '&' ∨ w.head? = some '!'

structure Mapping where
  key : Key
  rest : Text
  gap : List Text
  indent : Nat
  entries : List (Entry indent)
  named : key.name = services
  ends : Ends rest
  bare : Bare rest
  fillers : ∀ line ∈ gap, Filler line
  positive : 0 < indent

def Mapping.lines (m : Mapping) : List Text :=
  keyLine 0 m.key m.rest :: (m.gap ++ m.entries.flatMap Entry.lines)

inductive Elsewhere : Text → Prop where
  | filler {line : Text} (h : Filler line) : Elsewhere line
  | marker {line : Text} (h : Marker line) : Elsewhere line
  | nested {line : Text} (h : line.head? = some ' ') : Elsewhere line
  | key (key : Key) (rest : Text) (h : key.name ≠ services) : Elsewhere (keyLine 0 key rest)

-- the first line that is neither blank nor a comment is not indented
inductive AtMargin : List Text → Prop where
  | nil : AtMargin []
  | filler {line : Text} {lines : List Text} (h : Filler line) (hrest : AtMargin lines) :
      AtMargin (line :: lines)
  | line {line : Text} {lines : List Text} (hf : ¬Filler line) (h : line.head? ≠ some ' ') :
      AtMargin (line :: lines)

structure Layout where
  before : List Text
  mapping : Option Mapping
  after : List Text

def Layout.lines (d : Layout) : List Text :=
  d.before ++ ((d.mapping.map Mapping.lines).getD [] ++ d.after)

structure Document extends Layout where
  elsewhereBefore : ∀ line ∈ before, Elsewhere line
  elsewhereAfter : ∀ line ∈ after, Elsewhere line
  atMargin : AtMargin after
  unbroken : ∀ line ∈ toLayout.lines, '\n' ∉ line

def Document.text (d : Document) : Text := ['\n'].intercalate d.lines

def Document.keys (d : Document) : List Text :=
  match d.mapping with
  | none => []
  | some m => m.entries.map fun e => e.key.name

def Entry.Listed {indent : Nat} (e : Entry indent) : Prop :=
  (∀ c ∈ e.rest, Go.isSpace c = true) ∧ trimQuotes e.key.text = e.key.name ∧ e.key.name ≠ [] ∧
    ' ' ∉ e.key.name

def Mapping.Listed (m : Mapping) : Prop :=
  m.entries = [] ∨ m.key.text = services ∧ (∀ c ∈ m.rest, Go.isSpace c = true) ∧ m.indent = 2 ∧
    ∀ e ∈ m.entries, e.Listed

def Document.Listed (d : Document) : Prop := ∀ m ∈ d.mapping, m.Listed

section Trimming

variable {p q : Char → Bool} {line a b s rest : Text} {c : Char}

theorem rdropWhile_append (h : ∀ c ∈ b, p c = true) : (a ++ b).rdropWhile p = a.rdropWhile p := by
  simp only [List.rdropWhile,List.reverse_append]
  rw [List.dropWhile_append_of_pos fun c hc => h c (List.mem_reverse.mp hc)]

theorem rdropWhile_after (hc : p c = false) : (a ++ c :: b).rdropWhile p = a ++ c :: b.rdropWhile p := by
  simp only [List.rdropWhile,List.reverse_append,List.reverse_cons,List.append_assoc,List.singleton_append]
  rw [List.dropWhile_append]
  split
  · rename_i hempty
    have hnil : b.reverse.dropWhile p = [] := List.isEmpty_iff.mp hempty
    simp [hc,hnil]
  · simp

theorem dropWhile_append_cons (hc : p c = false) : (a ++ c :: b).dropWhile p = a.dropWhile p ++ c :: b := by
  rw [List.dropWhile_append]
  split
  · rename_i hempty
    have hnil : a.dropWhile p = [] := List.isEmpty_iff.mp hempty
    simp [hc,hnil]
  · rfl

theorem isSpace_of_trailing (h : isTrailing c = true) : Go.isSpace c = true := by
  simp only [isTrailing,isBlank,Bool.or_eq_true,beq_iff_eq] at h
  rcases h with (rfl | rfl) | rfl <;> decide

theorem colon_not_space : Go.isSpace ':' = false := by decide

theorem trim_trimRight (line : Text) : Go.trim (trimRight line) = Go.trim line := by
  have hsplit : trimRight line ++ line.rtakeWhile isTrailing = line := List.rdropWhile_append_rtakeWhile
  have hspace : ∀ c ∈ line.rtakeWhile isTrailing, Go.isSpace c = true := fun c hc =>
    isSpace_of_trailing (List.mem_rtakeWhile_imp hc)
  conv_rhs => rw [← hsplit]
  rw [Go.trim_eq_rdropWhile,Go.trim_eq_rdropWhile,List.dropWhile_append]
  split
  · rename_i hempty
    rw [List.isEmpty_iff.mp hempty,List.dropWhile_eq_nil_iff.mpr hspace]
  · rw [rdropWhile_append hspace]

theorem trim_pad (h : ∀ c ∈ a, Go.isSpace c = true) : Go.trim (a ++ b) = Go.trim b := by
  rw [Go.trim_eq_rdropWhile,Go.trim_eq_rdropWhile,List.dropWhile_append_of_pos h]

theorem trimRight_eq_nil : trimRight line = [] ↔ ∀ c ∈ line, isTrailing c = true := List.rdropWhile_eq_nil_iff

end Trimming

section Scanning

variable {b : Bool} {n : Nat} {line rest : Text} {lines : List Text} {c : Char} {key : Key}

theorem trim_visible (hc : Go.isSpace c = false) (s : Text) :
    Go.trim (c :: s) = c :: s.rdropWhile Go.isSpace := by
  rw [Go.trim_eq_rdropWhile,List.dropWhile_cons_of_neg (by simp [hc])]
  exact rdropWhile_after (a := []) hc

theorem isSpace_of_blank (h : isBlank c = true) : Go.isSpace c = true :=
  isSpace_of_trailing (by simp [isTrailing,h])

theorem trim_blanks (line : Text) : Go.trim line = Go.trim (line.dropWhile isBlank) := by
  conv_lhs => rw [← List.takeWhile_append_dropWhile (p := isBlank) (l := line)]
  exact trim_pad fun c hc => isSpace_of_blank (List.mem_takeWhile_imp hc)

theorem scan_skip (h : trimRight line = [] ∨ (Go.trim (trimRight line)).head? = some '#') :
    scanLines b (line :: lines) = scanLines b lines := by
  rw [scanLines]
  exact if_pos h

theorem scan_filler (h : Filler line) : scanLines b (line :: lines) = scanLines b lines := by
  refine scan_skip ?_
  rcases h with hblank | hcomment
  · exact .inl (trimRight_eq_nil.mpr hblank)
  · right
    obtain ⟨s,hs⟩ := List.head?_eq_some_iff.mp hcomment
    rw [trim_trimRight,trim_blanks,hs,trim_visible (by decide)]
    rfl

theorem scan_fillers {gap : List Text} (h : ∀ l ∈ gap, Filler l) :
    scanLines b (gap ++ lines) = scanLines b lines := by
  induction gap with
  | nil => rfl
  | cons l gap ih =>
    rw [List.cons_append,scan_filler (h l List.mem_cons_self)]
    exact ih fun m hm => h m (List.mem_cons_of_mem l hm)

theorem scan_outside (h : indentOf line ≠ 0) : scanLines false (line :: lines) = scanLines false lines := by
  rw [scanLines]
  dsimp only
  split
  · rfl
  · rw [if_pos rfl]

theorem scan_deep (h : 3 ≤ indentOf line) : scanLines b (line :: lines) = scanLines b lines := by
  rw [scanLines]
  dsimp only
  split
  · rfl
  · rw [if_neg (by omega),if_neg (by omega : ¬indentOf line = 2),if_neg (by omega : ¬indentOf line < 2)]
    cases b <;> rfl

theorem indentOf_pad (n : Nat) (s : Text) : indentOf (List.replicate n ' ' ++ s) = n + indentOf s := by
  have hpad : ∀ c ∈ List.replicate n ' ', isBlank c = true := by
    intro c hc
    rw [List.eq_of_mem_replicate hc]
    rfl
  rw [indentOf,List.takeWhile_append_of_pos hpad,List.length_append,List.length_replicate]
  rfl

theorem indentOf_visible (hc : Go.isSpace c = false) (s : Text) : indentOf (c :: s) = 0 := by
  have hblank : isBlank c = false := by
    by_contra h
    rw [isSpace_of_blank (Bool.not_eq_false _ ▸ h)] at hc
    cases hc
  rw [indentOf,List.takeWhile_cons_of_neg (by simp [hblank])]
  rfl

theorem Spelled.visible {text name : Text} (h : Spelled text name) :
    ∃ c s, text = c :: s ∧ Go.isSpace c = false ∧ c ≠ '#' := by
  cases h with
  | plain hspace _ hc => exact ⟨_,_,rfl,hspace,hc⟩
  | single h => exact ⟨_,_,rfl,by decide,by decide⟩
  | double h => exact ⟨_,_,rfl,by decide,by decide⟩

def afterKey (key : Key) (rest : Text) : Text := key.text ++ ':' :: rest.rdropWhile Go.isSpace

theorem trim_keyLine (n : Nat) (key : Key) (rest : Text) :
    Go.trim (trimRight (keyLine n key rest)) = afterKey key rest := by
  obtain ⟨c,s,htext,hspace,-⟩ := key.spelled.visible
  have hpad : ∀ c ∈ List.replicate n ' ', Go.isSpace c = true := by
    intro c hc
    rw [List.eq_of_mem_replicate hc]
    decide
  rw [trim_trimRight,keyLine,trim_pad hpad,afterKey,htext,List.cons_append,trim_visible hspace,
    rdropWhile_after colon_not_space]
  rfl

theorem indentOf_keyLine (n : Nat) (key : Key) (rest : Text) : indentOf (keyLine n key rest) = n := by
  obtain ⟨c,s,htext,hspace,-⟩ := key.spelled.visible
  rw [keyLine,indentOf_pad,htext,List.cons_append,indentOf_visible hspace,Nat.add_zero]

theorem keyLine_read (n : Nat) (key : Key) (rest : Text) :
    ¬(trimRight (keyLine n key rest) = [] ∨ (Go.trim (trimRight (keyLine n key rest))).head? = some '#') := by
  obtain ⟨c,s,htext,-,hc⟩ := key.spelled.visible
  rintro (hnil | hhead)
  · have hcolon : ':' ∈ keyLine n key rest := by simp [keyLine]
    exact absurd (trimRight_eq_nil.mp hnil ':' hcolon) (by decide)
  · rw [trim_keyLine,afterKey,htext] at hhead
    exact hc (Option.some.inj hhead)

theorem scan_top (key : Key) (rest : Text) (lines : List Text) :
    scanLines b (keyLine 0 key rest :: lines) = scanLines (afterKey key rest == services ++ [':']) lines := by
  rw [scanLines]
  dsimp only
  rw [if_neg (keyLine_read 0 key rest),indentOf_keyLine,if_pos rfl,trim_keyLine]

theorem scan_entry (hn : 0 < n) (key : Key) (rest : Text) (lines : List Text) :
    scanLines true (keyLine n key rest :: lines) =
      (if n = 2 then (serviceName (afterKey key rest)).toList else []) ++
        if n < 2 then [] else scanLines true lines := by
  rw [scanLines]
  dsimp only
  rw [if_neg (keyLine_read n key rest),indentOf_keyLine,if_neg (by omega),if_neg (by simp),trim_keyLine]
  split <;> simp

theorem afterKey_services : afterKey key rest = services ++ [':'] ↔
    key.text = services ∧ ∀ c ∈ rest, Go.isSpace c = true := by
  rw [← List.rdropWhile_eq_nil_iff,afterKey]
  constructor
  · intro h
    rcases List.eq_nil_or_concat (rest.rdropWhile Go.isSpace) with hnil | ⟨s,c,hs⟩
    · rw [hnil] at h ⊢
      exact ⟨List.append_cancel_right h,rfl⟩
    · -- a second colon would stand inside the key
      rw [hs,List.concat_eq_append,← List.cons_append,← List.append_assoc] at h
      have hkey := List.append_inj_left' h rfl
      have hcolon : ':' ∈ services := by
        rw [← hkey]
        simp
      exact absurd hcolon (by decide)
  · rintro ⟨htext,hrest⟩
    rw [htext,hrest]

theorem Spelled.services {name : Text} (h : Spelled services name) : name = services := by
  cases h
  rfl

theorem scan_marker (h : Marker line) : scanLines b (line :: lines) = scanLines false lines := by
  obtain ⟨c,hc,hhead⟩ := h
  obtain ⟨s,rfl⟩ := List.head?_eq_some_iff.mp hhead
  have hall : ∀ c ∈ ['%','-','.'], Go.isSpace c = false ∧ c ≠ '#' ∧ c ≠ 's' := by
    rw [List.forall_mem_cons,List.forall_mem_cons,List.forall_mem_singleton]
    decide
  obtain ⟨hspace,hhash,hs⟩ := hall c hc
  have htrim : Go.trim (trimRight (c :: s)) = c :: s.rdropWhile Go.isSpace := by
    rw [trim_trimRight,trim_visible hspace]
  have hread : ¬(trimRight (c :: s) = [] ∨ (Go.trim (trimRight (c :: s))).head? = some '#') := by
    rintro (hnil | hcomment)
    · rw [isSpace_of_trailing (trimRight_eq_nil.mp hnil c List.mem_cons_self)] at hspace
      cases hspace
    · rw [htrim] at hcomment
      exact hhash (Option.some.inj hcomment)
  have hother : (c :: s.rdropWhile Go.isSpace == services ++ [':']) = false :=
    beq_eq_false_iff_ne.mpr fun he => hs (List.cons.inj he).1
  rw [scanLines]
  dsimp only
  rw [if_neg hread,if_pos (indentOf_visible hspace s),htrim,hother]

theorem scan_elsewhere (h : Elsewhere line) : scanLines false (line :: lines) = scanLines false lines := by
  cases h with
  | filler h => exact scan_filler h
  | marker h => exact scan_marker h
  | nested h =>
    obtain ⟨s,rfl⟩ := List.head?_eq_some_iff.mp h
    exact scan_outside (by simp [indentOf,isBlank])
  | key key rest h =>
    rw [scan_top]
    have hother : afterKey key rest ≠ Discovery.services ++ [':'] := by
      intro hheader
      have hspelled := key.spelled
      rw [(afterKey_services.mp hheader).1] at hspelled
      exact h hspelled.services
    rw [beq_eq_false_iff_ne.mpr hother]

theorem scan_all_elsewhere {before : List Text} (h : ∀ l ∈ before, Elsewhere l) :
    scanLines false (before ++ lines) = scanLines false lines := by
  induction before with
  | nil => rfl
  | cons l before ih =>
    rw [List.cons_append,scan_elsewhere (h l List.mem_cons_self)]
    exact ih fun m hm => h m (List.mem_cons_of_mem l hm)

theorem scan_margin (hf : ¬Filler line) (hhead : line.head? ≠ some ' ') (h : Elsewhere line) :
    scanLines b (line :: lines) = scanLines false (line :: lines) := by
  cases h with
  | filler h => exact absurd h hf
  | marker h => rw [scan_marker h,scan_marker h]
  | nested h => exact absurd h hhead
  | key key rest h => rw [scan_top,scan_top]

theorem scan_after {after : List Text} (h : ∀ l ∈ after, Elsewhere l) (hmargin : AtMargin after) :
    scanLines b after = [] := by
  have hnone {lines : List Text} (h : ∀ l ∈ lines, Elsewhere l) : scanLines false lines = [] := by
    have hscan : scanLines false (lines ++ []) = scanLines false [] := scan_all_elsewhere h
    rwa [List.append_nil] at hscan
  induction hmargin with
  | nil => rfl
  | filler hf _ ih =>
    rw [scan_filler hf]
    exact ih fun m hm => h m (List.mem_cons_of_mem _ hm)
  | line hf hhead =>
    rw [scan_margin hf hhead (h _ List.mem_cons_self)]
    exact hnone h

theorem scan_body {body : List Text}
    (hskip : ∀ line lines, n < indentOf line → scanLines b (line :: lines) = scanLines b lines)
    (h : ∀ l ∈ body, Filler l ∨ List.replicate (n + 1) ' ' <+: l) :
    scanLines b (body ++ lines) = scanLines b lines := by
  induction body with
  | nil => rfl
  | cons l body ih =>
    have hrest := ih fun m hm => h m (List.mem_cons_of_mem l hm)
    rcases h l List.mem_cons_self with hf | hpad
    · rw [List.cons_append,scan_filler hf,hrest]
    · have hdeeper : n < indentOf l := by
        obtain ⟨s,hs⟩ := hpad
        rw [← hs,indentOf_pad]
        omega
      rw [List.cons_append,hskip l _ hdeeper,hrest]

def found (n : Nat) (e : Entry n) : Option Text :=
  if n = 2 then serviceName (afterKey e.key e.rest) else none

theorem scan_entries (hn : 2 ≤ n) (es : List (Entry n)) :
    scanLines true (es.flatMap Entry.lines ++ lines) =
      es.flatMap (fun e => (found n e).toList) ++ scanLines true lines := by
  have hskip : ∀ line lines, n < indentOf line → scanLines true (line :: lines) = scanLines true lines :=
    fun line lines hdeeper => scan_deep (by omega)
  induction es with
  | nil => rfl
  | cons e es ih =>
    rw [List.flatMap_cons,List.flatMap_cons,List.append_assoc,Entry.lines,List.cons_append,
      scan_entry (by omega),if_neg (by omega : ¬n < 2),scan_body hskip e.deeper,ih,List.append_assoc,found]
    split <;> rfl

theorem scan_narrow (hn : n = 1) (e : Entry n) (es : List (Entry n)) :
    scanLines true ((e :: es).flatMap Entry.lines ++ lines) = [] := by
  rw [List.flatMap_cons,List.append_assoc,Entry.lines,List.cons_append,scan_entry (by omega),
    if_neg (by omega : ¬n = 2),if_pos (by omega : n < 2)]
  rfl

theorem scan_ignored (hn : 0 < n) (es : List (Entry n)) :
    scanLines false (es.flatMap Entry.lines ++ lines) = scanLines false lines := by
  have hskip : ∀ line lines, n < indentOf line → scanLines false (line :: lines) = scanLines false lines :=
    fun line lines hdeeper => scan_outside (by omega)
  induction es with
  | nil => rfl
  | cons e es ih =>
    have hkey : indentOf (keyLine n e.key e.rest) ≠ 0 := by
      rw [indentOf_keyLine]
      omega
    rw [List.flatMap_cons,List.append_assoc,Entry.lines,List.cons_append,scan_outside hkey,
      scan_body hskip e.deeper,ih]

end Scanning

section Names

variable {key : Key} {rest raw text name : Text}

theorem Single.length_le (h : Single raw name) : name.length ≤ raw.length := by
  induction h with
  | nil => exact Nat.le_refl _
  | char _ _ ih => exact Nat.succ_le_succ ih
  | quote _ ih =>
    simp only [List.length_cons]
    omega

theorem Double.length_le (h : Double raw name) : name.length ≤ raw.length := by
  induction h with
  | nil => exact Nat.le_refl _
  | char _ _ _ ih => exact Nat.succ_le_succ ih
  | escape code c _ ih =>
    simp only [List.length_cons,List.length_append]
    omega

theorem dropWhile_quote {q c : Char} {s : Text} (hq : isQuote q = true) (hc : isQuote c = false) :
    (q :: c :: s).dropWhile isQuote = c :: s := by
  rw [List.dropWhile_cons_of_pos hq,List.dropWhile_cons_of_neg (by simp [hc])]

theorem Spelled.length_le {c : Char} {name : Text} (h : Spelled text (c :: name)) (hc : isQuote c = false) :
    (c :: name).length ≤ (text.dropWhile isQuote).length := by
  cases h with
  | plain _ _ _ => rw [List.dropWhile_cons_of_neg (by simp [hc])]
  | single h =>
    cases h with
    | char _ h =>
      rw [List.cons_append,dropWhile_quote (by decide) hc]
      have hle := h.length_le
      simp only [List.length_cons,List.length_append]
      omega
    | quote h => exact absurd hc (by decide)
  | double h =>
    cases h with
    | char _ _ h =>
      rw [List.cons_append,dropWhile_quote (by decide) hc]
      have hle := h.length_le
      simp only [List.length_cons,List.length_append]
      omega
    | escape code _ h =>
      rw [List.cons_append,dropWhile_quote (by decide) (by decide)]
      have hle := h.length_le
      simp only [List.length_cons,List.length_append]
      omega

theorem colon_not_quote : isQuote ':' = false := by decide

theorem trimQuotes_colon (s v : Text) : trimQuotes (s ++ ':' :: v) =
    s.dropWhile isQuote ++ ':' :: v.rdropWhile isQuote := by
  rw [trimQuotes,dropWhile_append_cons colon_not_quote,rdropWhile_after colon_not_quote]

theorem trimQuotes_head {s name : Text} {c : Char} (h : trimQuotes s = c :: name) : isQuote c = false := by
  obtain ⟨tail,htail⟩ := List.rdropWhile_prefix isQuote (s.dropWhile isQuote)
  have hfirst := List.head?_dropWhile_not isQuote s
  rw [← trimQuotes,h,List.cons_append] at htail
  rw [← htail] at hfirst
  simpa using hfirst

theorem key_not_longer (h : Spelled text name) (v : Text) : trimQuotes (text ++ ':' :: v) ≠ name := by
  intro heq
  cases name with
  | nil =>
    rw [trimQuotes_colon] at heq
    simp at heq
  | cons c name =>
    have hle := h.length_le (trimQuotes_head heq)
    rw [trimQuotes_colon] at heq
    rw [← heq] at hle
    simp only [List.length_append,List.length_cons] at hle
    omega

theorem serviceName_eq_some {s : Text} : serviceName s = some name ↔
    s.getLast? = some ':' ∧ trimQuotes s.dropLast = name ∧ name ≠ [] ∧ ' ' ∉ name := by
  unfold serviceName
  dsimp only
  rw [Option.ite_none_right_eq_some,Option.ite_none_right_eq_some]
  constructor
  · rintro ⟨hlast,hname,heq⟩
    obtain rfl := Option.some.inj heq
    exact ⟨hlast,rfl,hname⟩
  · rintro ⟨hlast,rfl,hname⟩
    exact ⟨hlast,hname,rfl⟩

theorem serviceName_key (key : Key) (rest : Text) : serviceName (afterKey key rest) = some key.name ↔
    (∀ c ∈ rest, Go.isSpace c = true) ∧ trimQuotes key.text = key.name ∧ key.name ≠ [] ∧ ' ' ∉ key.name := by
  rw [serviceName_eq_some,← List.rdropWhile_eq_nil_iff,afterKey]
  rcases List.eq_nil_or_concat (rest.rdropWhile Go.isSpace) with hnil | ⟨s,c,hs⟩
  · simp [hnil]
  · rw [hs,List.concat_eq_append,← List.cons_append,← List.append_assoc,List.dropLast_concat]
    constructor
    · rintro ⟨-,hname,-⟩
      exact absurd hname (key_not_longer key.spelled s)
    · rintro ⟨hnil,-⟩
      exact absurd hnil (by simp)

theorem flatMap_eq_map {α β : Type} (f : α → Option β) (g : α → β) (xs : List α) :
    xs.flatMap (fun x => (f x).toList) = xs.map g ↔ ∀ x ∈ xs, f x = some (g x) := by
  have hlength (xs : List α) : (xs.flatMap fun x => (f x).toList).length ≤ xs.length := by
    induction xs with
    | nil => exact Nat.le_refl _
    | cons x xs ih =>
      rw [List.flatMap_cons,List.length_append,List.length_cons]
      have hone : (f x).toList.length ≤ 1 := by cases f x <;> simp
      omega
  induction xs with
  | nil => simp
  | cons x xs ih =>
    rw [List.flatMap_cons,List.map_cons,List.forall_mem_cons]
    cases hx : f x with
    | none =>
      refine iff_of_false (fun heq => ?_) (fun h => by cases h.1)
      have hle := hlength xs
      rw [Option.toList_none,List.nil_append] at heq
      rw [heq,List.length_cons,List.length_map] at hle
      omega
    | some y =>
      rw [Option.toList_some,List.singleton_append,List.cons.injEq,Option.some.injEq]
      exact and_congr_right' ih

end Names

section Documents

variable {m : Mapping} {after : List Text}

theorem scan_mapping (m : Mapping) (h : ∀ l ∈ after, Elsewhere l) (hmargin : AtMargin after) :
    scanLines false (m.lines ++ after) = m.entries.map (fun e => e.key.name) ↔ m.Listed := by
  have hafter (b : Bool) : scanLines b after = [] := scan_after h hmargin
  have hn := m.positive
  rw [Mapping.lines,List.cons_append,scan_top,List.append_assoc,scan_fillers m.fillers]
  by_cases hheader : m.key.text = services ∧ ∀ c ∈ m.rest, Go.isSpace c = true
  · rw [afterKey_services.mpr hheader,beq_self_eq_true,Mapping.Listed]
    cases hes : m.entries with
    | nil => simp [hafter]
    | cons e es =>
      by_cases hone : m.indent = 1
      · rw [scan_narrow hone]
        simp [hone]
      · rw [scan_entries (by omega),hafter,List.append_nil,flatMap_eq_map]
        constructor
        · intro hall
          have htwo : m.indent = 2 := by
            by_contra hne
            have hfirst := hall e List.mem_cons_self
            rw [found,if_neg hne] at hfirst
            cases hfirst
          refine .inr ⟨hheader.1,hheader.2,htwo,fun e' he' => ?_⟩
          have hname := hall e' he'
          rw [found,if_pos htwo] at hname
          exact (serviceName_key e'.key e'.rest).mp hname
        · rintro (hnil | ⟨-,-,htwo,hlisted⟩) e' he'
          · cases hnil
          · rw [found,if_pos htwo]
            exact (serviceName_key e'.key e'.rest).mpr (hlisted e' he')
  · have hother : (afterKey m.key m.rest == services ++ [':']) = false :=
      beq_eq_false_iff_ne.mpr fun he => hheader (afterKey_services.mp he)
    rw [hother,scan_ignored hn,hafter,eq_comm,List.map_eq_nil_iff,Mapping.Listed]
    exact ⟨.inl,fun hl => hl.elim id fun hs => absurd ⟨hs.1,hs.2.1⟩ hheader⟩

theorem scan_document (d : Document) : scanLines false d.lines = d.keys ↔ d.Listed := by
  have hafter := scan_after d.elsewhereAfter d.atMargin (b := false)
  rw [Layout.lines,scan_all_elsewhere d.elsewhereBefore,Document.keys,Document.Listed]
  cases d.mapping with
  | none => simpa using hafter
  | some m => simpa using scan_mapping m d.elsewhereAfter d.atMargin

theorem scan_text (d : Document) : scanLines false (d.text.splitOn '\n') = scanLines false d.lines := by
  by_cases hnil : d.lines = []
  · rw [Document.text,hnil]
    rfl
  · rw [Document.text,List.splitOn_intercalate '\n' d.unbroken hnil]

theorem services_listed_iff (d : Document) (h : utf8Length d.text ≤ maxComposeBytes) :
    parseComposeServices (some d.text) = d.keys ↔ d.Listed := by
  rw [parseComposeServices,if_neg (Nat.not_lt.mpr h),scan_text]
  exact scan_document d

def web : Key := ⟨['w','e','b'],['w','e','b'],.plain (by decide) (by decide) (by decide)⟩

def header : Key := ⟨services,services,.plain (by decide) (by decide) (by decide)⟩

def oneService (rest : Text) (hends : Ends rest) (hrest : '\n' ∉ rest) : Document where
  before := []
  mapping := some {
    key := header, rest := [], gap := [], indent := 2
    entries := [⟨web,rest,[],hends,List.forall_mem_nil _⟩]
    named := rfl
    ends := by simp [Ends]
    bare := by simp [Bare,words]
    fillers := List.forall_mem_nil _
    positive := by decide }
  after := []
  elsewhereBefore := List.forall_mem_nil _
  elsewhereAfter := List.forall_mem_nil _
  atMargin := .nil
  unbroken := by
    intro line hline
    have hheader : '\n' ∉ services ++ [':'] := by decide
    have hentry : '\n' ∉ [' ',' ','w','e','b',':'] ++ rest := by
      rw [List.mem_append]
      exact not_or_intro (by decide) hrest
    rcases List.mem_cons.mp hline with rfl | hlast
    · exact hheader
    · obtain rfl := List.mem_singleton.mp hlast
      exact hentry

theorem plain_service_listed :
    utf8Length (oneService [] (by simp [Ends]) (by decide)).text ≤ maxComposeBytes ∧
      (parseComposeServices (some (oneService [] (by simp [Ends]) (by decide)).text) =
          (oneService [] (by simp [Ends]) (by decide)).keys ↔
        (oneService [] (by simp [Ends]) (by decide)).Listed) :=
  ⟨by decide +kernel,services_listed_iff _ (by decide +kernel)⟩

theorem anchored_service_dropped :
    ¬∀ d : Document, utf8Length d.text ≤ maxComposeBytes → parseComposeServices (some d.text) = d.keys := by
  intro h
  have hkeys := h (oneService [' ','&','a'] (by simp [Ends,isTrailing,isBlank]) (by decide)) (by decide +kernel)
  revert hkeys
  decide +kernel

end Documents

end Discovery
