import ServerHub.Go.Decimal

namespace Database

open Go

-- Rebind of an open database; n marks have been numbered
def rebindFrom : Nat → List Char → List Char
  | _, [] => []
  | n, c :: q =>
      if c = '?' then '$' :: Nat.toDigits 10 (n + 1) ++ rebindFrom (n + 1) q
      else c :: rebindFrom n q

def rebind (q : List Char) : List Char := rebindFrom 0 q

-- how a statement is read: a mark is a question mark that stands for a parameter, an arg is a numbered
-- parameter; junk is an arg that a letter follows, which the server refuses
inductive Piece where
  | lit (c : Char)
  | mark
  | arg (n : Nat)
  | junk
deriving DecidableEq

-- where the server's scanner is: word knows whether the name so far is the e of an escape string, tag and
-- dollarQuoted hold the tag of a dollar quote and what may become its end, gap follows an escape string
-- that goes on after a line end
inductive Mode where
  | plain
  | word (escapes : Bool)
  | digits
  | dollar
  | tag (name : List Char)
  | dollarQuoted (name : List Char) (ending : Option (List Char))
  | number (n : Nat)
  | dash
  | comment
  | slash
  | block (depth : Nat) (last : Option Char)
  | quoted (close : Char)
  | escaped
  | backslash
  | ended
  | gap (lines : Bool)
  | gapDash
  | gapComment
deriving DecidableEq

def identStart (c : Char) : Bool := c.isAlpha || c == '_' || 0x80 ≤ c.toNat

def tagRest (c : Char) : Bool := identStart c || isDigit c

def identRest (c : Char) : Bool := tagRest c || c == '$'

def newline (c : Char) : Bool := c == '\n' || c == '\r'

def blank (c : Char) : Bool := c ∈ [' ','\t',Char.ofNat 0x0b,Char.ofNat 0x0c]

def escapeLetter (c : Char) : Bool := c == 'e' || c == 'E'

def Mode.held : Mode → List Piece
  | .dollar => [.lit '$']
  | .number n => [.arg n]
  | _ => []

def starts (c : Char) : Mode :=
  if c = '\'' ∨ c = '"' then .quoted c
  else if c = '-' then .dash
  else if c = '/' then .slash
  else if isDigit c then .digits
  else if identStart c then .word (escapeLetter c)
  else .plain

def opened (c : Char) : List Piece × Mode :=
  if c = '?' then ([.mark],.plain)
  else if c = '$' then ([],.dollar)
  else ([.lit c],starts c)

def gapped (lines : Bool) (c : Char) : List Piece × Mode :=
  if newline c then ([.lit c],.gap true)
  else if blank c then ([.lit c],.gap lines)
  else if c = '-' then ([.lit c],.gapDash)
  else if c = '\'' ∧ lines then ([.lit c],.escaped)
  else opened c

-- inside what the server does not look into, every character stands for itself
def Mode.within (c : Char) : Mode → Option Mode
  | .comment => some (if newline c then .plain else .comment)
  | .block depth last =>
      some (if last = some '/' ∧ c = '*' then .block (depth + 1) none
        else if last = some '*' ∧ c = '/' then (if depth = 0 then .plain else .block (depth - 1) none)
        else .block depth (some c))
  | .quoted close => some (if c = close then .plain else .quoted close)
  | .escaped => some (if c = '\'' then .ended else if c = '\\' then .backslash else .escaped)
  | .backslash => some .escaped
  | .dollarQuoted name ending =>
      some (if c = '$' then (if ending = some name then .plain else .dollarQuoted name (some []))
        else .dollarQuoted name (ending.bind fun t =>
          if (if t = [] then identStart c else tagRest c) then some (t ++ [c]) else none))
  | .gapComment => some (if newline c then .gap true else .gapComment)
  | _ => none

-- a doubled quote closes the literal and opens it again
def emit (m : Mode) (c : Char) : List Piece × Mode :=
  match m.within c with
  | some m' => ([.lit c],m')
  | none =>
    match m with
    | .word escapes =>
        if identRest c then ([.lit c],.word false)
        else if c = '\'' ∧ escapes then ([.lit c],.escaped)
        else opened c
    | .digits => if tagRest c then ([.lit c],.digits) else opened c
    | .dollar =>
        if isDigit c then ([],.number (c.toNat - 48))
        else if c = '$' then ([.lit '$',.lit c],.dollarQuoted [] none)
        else if identStart c then ([.lit '$',.lit c],.tag [c])
        else (.lit '$' :: (opened c).1,(opened c).2)
    | .tag name =>
        if c = '$' then ([.lit c],.dollarQuoted name none)
        else if tagRest c then ([.lit c],.tag (name ++ [c]))
        else if c = '\'' ∧ (name = ['e'] ∨ name = ['E']) then ([.lit c],.escaped)
        else opened c
    | .number n =>
        if isDigit c then ([],.number (10 * n + (c.toNat - 48)))
        else if identStart c then ([.arg n,.junk,.lit c],.word false)
        else (.arg n :: (opened c).1,(opened c).2)
    | .dash => if c = '-' then ([.lit c],.comment) else opened c
    | .slash => if c = '*' then ([.lit c],.block 0 none) else opened c
    | .ended => if c = '\'' then ([.lit c],.escaped) else gapped false c
    | .gap lines => gapped lines c
    | .gapDash => if c = '-' then ([.lit c],.gapComment) else opened c
    | _ => opened c

def reads : Mode → List Char → List Piece
  | m, [] => m.held
  | m, c :: q => (emit m c).1 ++ reads (emit m c).2 q

-- the marks in their order are the parameters in theirs
def numbered : Nat → List Piece → List Piece
  | _, [] => []
  | n, .mark :: ps => .arg (n + 1) :: numbered (n + 1) ps
  | n, p :: ps => p :: numbered n ps

def Mode.takes : Mode → Bool
  | .plain | .digits | .number _ | .dash | .slash | .ended | .gap _ | .gapDash => true
  | _ => false

def joins (c : Char) : Bool := isDigit c || identStart c

-- every question mark stands where a parameter may begin, and nothing joins it from behind
def Plain : Mode → List Char → Prop
  | _, [] => True
  | m, c :: q => (c = '?' → m.takes = true ∧ ∀ d ∈ q.head?, joins d = false) ∧ Plain (emit m c).2 q

section Reading

variable {n k : Nat} {m : Mode} {c : Char} {q ds rest : List Char} {ps qs : List Piece}

theorem numbered_append (h : .mark ∉ ps) : numbered n (ps ++ qs) = ps ++ numbered n qs := by
  induction ps with
  | nil => rfl
  | cons p ps ih =>
    have hrest := ih fun hin => h (List.mem_cons_of_mem _ hin)
    cases p with
    | mark => exact absurd List.mem_cons_self h
    | lit c => exact congrArg (Piece.lit c :: ·) hrest
    | arg k => exact congrArg (Piece.arg k :: ·) hrest
    | junk => exact congrArg (Piece.junk :: ·) hrest

theorem opened_markless (h : c ≠ '?') : .mark ∉ (opened c).1 := by
  unfold opened
  rw [if_neg h]
  split <;> simp

theorem gapped_markless (lines : Bool) (h : c ≠ '?') : .mark ∉ (gapped lines c).1 := by
  unfold gapped
  repeat' split
  all_goals first | exact opened_markless h | simp

theorem emit_markless (m : Mode) (h : c ≠ '?') : .mark ∉ (emit m c).1 := by
  have hopened := opened_markless h
  unfold emit
  split
  · simp
  split
  all_goals repeat' split
  all_goals first | exact hopened | exact gapped_markless _ h | simp [hopened]

theorem emit_takes (h : m.takes = true) (hc : c = '?' ∨ c = '$') :
    emit m c = (m.held ++ (opened c).1,(opened c).2) := by
  rcases hc with rfl | rfl <;> cases m <;> first | rfl | cases h

theorem emit_refuses (h : m.takes = false) : ∃ pre x m₁ m₂, emit m '?' = (pre ++ [x],m₁) ∧
    emit m '$' = (pre ++ [.lit '$'],m₂) ∧ (x = .mark ∨ x = .lit '?') ∧ .mark ∉ pre := by
  cases m with
  | dollar => exact ⟨[.lit '$'],.mark,_,_,rfl,rfl,.inl rfl,by simp⟩
  | word escapes => exact ⟨[],.mark,_,_,by cases escapes <;> rfl,rfl,.inl rfl,by simp⟩
  | tag name => exact ⟨[],.mark,.plain,_,rfl,rfl,.inl rfl,by simp⟩
  | comment => exact ⟨[],_,_,_,rfl,rfl,.inr rfl,by simp⟩
  | block depth last => exact ⟨[],_,_,_,rfl,rfl,.inr rfl,by simp⟩
  | quoted close => exact ⟨[],_,_,_,rfl,rfl,.inr rfl,by simp⟩
  | escaped => exact ⟨[],_,_,_,rfl,rfl,.inr rfl,by simp⟩
  | backslash => exact ⟨[],_,_,_,rfl,rfl,.inr rfl,by simp⟩
  | dollarQuoted name ending => exact ⟨[],_,_,_,rfl,rfl,.inr rfl,by simp⟩
  | gapComment => exact ⟨[],_,_,_,rfl,rfl,.inr rfl,by simp⟩
  | _ => cases h

theorem emit_number (n : Nat) (c : Char) : emit (.number n) c =
    if isDigit c then ([],.number (10 * n + (c.toNat - 48)))
    else if identStart c then ([.arg n,.junk,.lit c],.word false)
    else (.arg n :: (opened c).1,(opened c).2) := rfl

theorem emit_digit (hc : isDigit c = true) : emit .dollar c = ([],.number (c.toNat - 48)) :=
  if_pos hc

theorem reads_number (h : ∀ d ∈ ds, isDigit d = true) :
    reads (.number k) (ds ++ rest) = reads (.number (Nat.ofDigitChars 10 ds k)) rest := by
  induction ds generalizing k with
  | nil => rfl
  | cons d ds ih =>
    rw [List.cons_append,reads,emit_number,if_pos (h d List.mem_cons_self),Nat.ofDigitChars_cons]
    exact ih fun e he => h e (List.mem_cons_of_mem _ he)

theorem reads_parameter (n : Nat) (rest : List Char) :
    reads .dollar (Nat.toDigits 10 n ++ rest) = reads (.number n) rest := by
  have hdigits : ∀ d ∈ Nat.toDigits 10 n, isDigit d = true := fun _ => isDigit_toDigits
  have hvalue : Nat.ofDigitChars 10 (Nat.toDigits 10 n) 0 = n := Nat.ofDigitChars_ten_toDigits
  cases hds : Nat.toDigits 10 n with
  | nil => exact absurd hds Nat.toDigits_ne_nil
  | cons d ds =>
    rw [hds] at hdigits hvalue
    have hfirst : reads .dollar (d :: (ds ++ rest)) = reads (.number 0) (d :: (ds ++ rest)) := by
      rw [reads,reads,emit_digit (hdigits d List.mem_cons_self),emit_number,
        if_pos (hdigits d List.mem_cons_self),Nat.mul_zero,Nat.zero_add]
    rw [List.cons_append,hfirst,← List.cons_append,reads_number hdigits,hvalue]

theorem number_grows (k : Nat) (q : List Char) :
    ∃ j ps, k ≤ j ∧ reads (.number k) q = .arg j :: ps := by
  induction q generalizing k with
  | nil => exact ⟨k,[],le_rfl,rfl⟩
  | cons c q ih =>
    rw [reads,emit_number]
    split
    · obtain ⟨j,ps,hle,hread⟩ := ih (10 * k + (c.toNat - 48))
      exact ⟨j,ps,by omega,hread⟩
    · split
      · exact ⟨k,_,le_rfl,rfl⟩
      · exact ⟨k,(opened c).1 ++ reads (opened c).2 q,le_rfl,rfl⟩

theorem opened_letter (hd : isDigit c = false) (hc : identStart c = true) :
    (opened c).1 = [.lit c] := by
  unfold opened
  rw [if_neg,if_neg]
  · rintro rfl
    cases hc
  · rintro rfl
    cases hc

theorem reads_after (hk : 0 < k) (hrest : ∀ m n, reads m (rebindFrom n q) = numbered n (reads m q) ↔ Plain m q) :
    reads (.number k) (rebindFrom k q) = .arg k :: numbered k (reads .plain q) ↔
      (∀ d ∈ q.head?, joins d = false) ∧ Plain .plain q := by
  cases q with
  | nil => simp [rebindFrom,reads,Mode.held,numbered,Plain]
  | cons c q =>
    by_cases hc : isDigit c = true
    · have hne : c ≠ '?' := by
        rintro rfl
        cases hc
      have hleft : reads (.number k) (rebindFrom k (c :: q)) =
          reads (.number (10 * k + (c.toNat - 48))) (rebindFrom k q) := by
        rw [rebindFrom,if_neg hne,reads,emit_number,if_pos hc]
        rfl
      obtain ⟨j,ps,hle,hread⟩ := number_grows (10 * k + (c.toNat - 48)) (rebindFrom k q)
      rw [hleft,hread]
      refine iff_of_false (fun h => ?_) fun h => ?_
      · obtain ⟨hj,-⟩ := List.cons.inj h
        have : j = k := Piece.arg.inj hj
        omega
      · exact absurd (h.1 c rfl) (by simp [joins,hc])
    · have hdigit : isDigit c = false := Bool.eq_false_iff.mpr hc
      by_cases hletter : identStart c = true
      · have hne : c ≠ '?' := by
          rintro rfl
          cases hletter
        refine iff_of_false (fun h => ?_) fun h => absurd (h.1 c rfl) (by simp [joins,hletter])
        have hplain : (emit .plain c).1 = [.lit c] := opened_letter hdigit hletter
        rw [rebindFrom,if_neg hne,reads,emit_number,if_neg hc,if_pos hletter,reads,hplain] at h
        obtain ⟨-,h⟩ := List.cons.inj h
        exact absurd (List.cons.inj h).1 (by simp)
      · have hhead : ∀ d ∈ (c :: q).head?, joins d = false := by
          intro d hd
          obtain rfl := Option.some.inj hd
          simp [joins,hdigit,hletter]
        have hstart : ∃ d text, rebindFrom k (c :: q) = d :: text ∧ isDigit d = false ∧
            identStart d = false := by
          rw [rebindFrom]
          split
          · exact ⟨'$',_,rfl,rfl,rfl⟩
          · exact ⟨c,_,rfl,hdigit,Bool.eq_false_iff.mpr hletter⟩
        obtain ⟨d,text,htext,hd,hd'⟩ := hstart
        have hends : reads (.number k) (rebindFrom k (c :: q)) =
            .arg k :: reads .plain (rebindFrom k (c :: q)) := by
          rw [htext,reads,reads,emit_number,if_neg (by simp [hd]),if_neg (by simp [hd'])]
          rfl
        rw [hends,List.cons.injEq,hrest .plain k]
        exact ⟨fun h => ⟨hhead,h.2⟩,fun h => ⟨rfl,h.2⟩⟩

theorem reads_rebindFrom (q : List Char) (m : Mode) (n : Nat) :
    reads m (rebindFrom n q) = numbered n (reads m q) ↔ Plain m q := by
  induction q generalizing m n with
  | nil =>
    refine iff_of_true ?_ trivial
    cases m <;> rfl
  | cons c q ih =>
    by_cases hc : c = '?'
    · subst hc
      have hleft : rebindFrom n ('?' :: q) = '$' :: (Nat.toDigits 10 (n + 1) ++ rebindFrom (n + 1) q) := by
        rw [rebindFrom,if_pos rfl]
        rfl
      cases hm : m.takes with
      | false =>
        obtain ⟨pre,x,m₁,m₂,hmark,hdollar,hx,hpre⟩ := emit_refuses hm
        refine iff_of_false (fun h => ?_) fun h => absurd ((h.1 rfl).1.symm.trans hm) (by simp)
        rw [hleft,reads,reads,hmark,hdollar,List.append_assoc,List.append_assoc,numbered_append hpre,
          List.append_cancel_left_eq] at h
        rcases hx with rfl | rfl
        · exact absurd (List.cons.inj h).1 (by simp)
        · exact absurd (List.cons.inj h).1 (by simp)
      | true =>
        have hafter := reads_after (k := n + 1) (q := q) (Nat.succ_pos n) fun m n => ih m n
        have hdollar : reads m ('$' :: (Nat.toDigits 10 (n + 1) ++ rebindFrom (n + 1) q)) =
            m.held ++ reads (.number (n + 1)) (rebindFrom (n + 1) q) := by
          rw [reads,emit_takes hm (.inr rfl),← reads_parameter]
          simp [opened]
        have hmark : reads m ('?' :: q) = m.held ++ .mark :: reads .plain q := by
          rw [reads,emit_takes hm (.inl rfl)]
          simp [opened]
        have hheld : .mark ∉ m.held := by cases m <;> simp [Mode.held]
        rw [hleft,hdollar,hmark,numbered_append hheld,numbered,List.append_cancel_left_eq,hafter]
        have hnext : (emit m '?').2 = .plain := by
          rw [emit_takes hm (.inl rfl)]
          rfl
        rw [Plain,hnext]
        exact ⟨fun h => ⟨fun _ => ⟨hm,h.1⟩,h.2⟩,fun h => ⟨(h.1 rfl).2,h.2⟩⟩
    · rw [rebindFrom,if_neg hc,reads,reads,numbered_append (emit_markless m hc),
        List.append_cancel_left_eq,ih,Plain]
      exact ⟨fun h => ⟨fun h' => absurd h' hc,h⟩,fun h => h.2⟩

theorem rebind_preserves (q : List Char) :
    reads .plain (rebind q) = numbered 0 (reads .plain q) ↔ Plain .plain q :=
  reads_rebindFrom q .plain 0

end Reading

end Database
