import ServerHub.Go.Decimal
import ServerHub.Go.Json
import Mathlib.Data.Nat.Digits.Defs

namespace Databases

open Go.Json (Bytes byte)

-- what is still to come on a connection, in the pieces in which reads see it; then end of file
structure Conn where
  packets : List Bytes
  filled : ∀ p ∈ packets, p ≠ []

def Conn.bytes (c : Conn) : Bytes := c.packets.flatten

def Conn.read (size : Nat) : Conn → Option (Bytes × Conn)
  | ⟨[],_⟩ => none
  | ⟨p :: ps,h⟩ =>
      if hsize : p.length ≤ size then some (p,⟨ps,fun q hq => h q (List.mem_cons_of_mem p hq)⟩)
      else
        some (p.take size,⟨p.drop size :: ps,by
          intro q hq
          rcases List.mem_cons.mp hq with rfl | hq
          · simpa using hsize
          · exact h q (List.mem_cons_of_mem p hq)⟩)

structure Runtime where
  maxSlice : Nat
  fits : (maxSlice : Int) ≤ 9223372036854775807

inductive Failure where
  | eof
  | tooLarge
  | server (message : Bytes)
  | atoi (text : Bytes)
  | unexpected (line : Bytes)

inductive Outcome where
  | value (v : Bytes)
  | error (e : Failure)
  | panicked

theorem read_none {c : Conn} {size : Nat} (h : c.read size = none) : c.bytes = [] := by
  obtain ⟨packets,filled⟩ := c
  cases packets with
  | nil => rfl
  | cons p ps =>
    rw [Conn.read] at h
    split at h <;> cases h

theorem read_some {c c' : Conn} {size : Nat} {b : Bytes} (hsize : 0 < size) (h : c.read size = some (b,c')) :
    c.bytes = b ++ c'.bytes ∧ b ≠ [] ∧ b.length ≤ size := by
  obtain ⟨packets,filled⟩ := c
  cases packets with
  | nil => cases h
  | cons p ps =>
    have hp := filled p List.mem_cons_self
    rw [Conn.read] at h
    split at h
    · rename_i hle
      obtain ⟨rfl,rfl⟩ := Prod.mk.inj (Option.some.inj h)
      exact ⟨rfl,hp,hle⟩
    · rename_i hle
      obtain ⟨rfl,rfl⟩ := Prod.mk.inj (Option.some.inj h)
      refine ⟨?_,?_,by simp⟩
      · simp only [Conn.bytes,List.flatten_cons]
        rw [← List.append_assoc,List.take_append_drop]
      · intro hnil
        rcases List.take_eq_nil_iff.mp hnil with hzero | hempty
        · omega
        · exact hp hempty

theorem read_shorter {c c' : Conn} {size : Nat} {b : Bytes} (hsize : 0 < size) (h : c.read size = some (b,c')) :
    c'.bytes.length < c.bytes.length := by
  obtain ⟨hbytes,hne,-⟩ := read_some hsize h
  have hlength := List.length_pos_of_ne_nil hne
  rw [hbytes,List.length_append]
  omega

def maxLine : Nat := 2 ^ 20

def writeByte (line : Bytes) (x : UInt8) : Bytes := if x ≠ byte '\r' then line ++ [x] else line

def readLine (line : Bytes) (c : Conn) : Except Failure Bytes × Conn :=
  match _h : c.read 1 with
  | none => (.error .eof,c)
  | some (b,c') =>
      let x := b.headD 0
      if x = byte '\n' then (.ok line,c')
      else
        let line := writeByte line x
        if line.length > maxLine then (.error .tooLarge,c') else readLine line c'
termination_by c.bytes.length
decreasing_by exact read_shorter Nat.one_pos _h

def readFull (left : Nat) (buf : Bytes) (c : Conn) : Except Failure Bytes × Conn :=
  if _hleft : left = 0 then (.ok buf,c)
  else
    match _h : c.read left with
    | none => (.error .eof,c)
    | some (b,c') => readFull (left - b.length) (buf ++ b) c'
termination_by c.bytes.length
decreasing_by exact read_shorter (Nat.pos_of_ne_zero _hleft) _h

def makeSlice (rt : Runtime) (n : Int) : Option Nat :=
  if 0 ≤ n ∧ n ≤ rt.maxSlice then some n.toNat else none

def textOf (b : Bytes) : String := String.ofList (b.map fun x => Char.ofNat x.toNat)

def readReply (rt : Runtime) (c : Conn) : Outcome × Conn :=
  match readLine [] c with
  | (.error e,c) => (.error e,c)
  | (.ok [],c) => (.value [],c)
  | (.ok (t :: rest),c) =>
      if t = byte '+' ∨ t = byte ':' ∨ t = byte '-' then
        if t = byte '-' then (.error (.server rest),c) else (.value rest,c)
      else if t = byte '$' then
        match Go.atoi (textOf rest) with
        | none => (.error (.atoi rest),c)
        | some n =>
            if n < 0 then (.value [],c)
            else
              match makeSlice rt (Go.int64 (n + 2)) with
              | none => (.panicked,c)
              | some size =>
                  match readFull size [] c with
                  | (.error e,c) => (.error e,c)
                  | (.ok buf,c) => (.value (buf.take n.toNat),c)
      else (.error (.unexpected (t :: rest)),c)

def lineOf (line : Bytes) : Bytes → Except Failure Bytes × Bytes
  | [] => (.error .eof,[])
  | x :: bs =>
      if x = byte '\n' then (.ok line,bs)
      else
        let line := writeByte line x
        if line.length > maxLine then (.error .tooLarge,bs) else lineOf line bs

def blockOf (n : Nat) (bs : Bytes) : Except Failure Bytes × Bytes :=
  if n ≤ bs.length then (.ok (bs.take n),bs.drop n) else (.error .eof,[])

theorem read_one {c c' : Conn} {b : Bytes} (h : c.read 1 = some (b,c')) : c.bytes = b.headD 0 :: c'.bytes := by
  obtain ⟨hbytes,hne,hlength⟩ := read_some Nat.one_pos h
  obtain ⟨x,rest,rfl⟩ := List.exists_cons_of_ne_nil hne
  obtain rfl : rest = [] := by
    rw [List.length_cons] at hlength
    exact List.eq_nil_of_length_eq_zero (by omega)
  exact hbytes

theorem readLine_eq (line : Bytes) (c : Conn) :
    (readLine line c).1 = (lineOf line c.bytes).1 ∧ (readLine line c).2.bytes = (lineOf line c.bytes).2 := by
  fun_induction readLine line c with
  | case1 line c h => simp [read_none h,lineOf]
  | case2 line c b c' h x hx =>
    rw [read_one h,lineOf,if_pos hx]
    exact ⟨rfl,rfl⟩
  | case3 line c b c' h x hx line' hlarge =>
    rw [read_one h,lineOf,if_neg hx]
    dsimp only
    rw [if_pos hlarge]
    exact ⟨rfl,rfl⟩
  | case4 line c b c' h x hx line' hlarge ih =>
    rw [read_one h,lineOf,if_neg hx]
    dsimp only
    rw [if_neg hlarge]
    exact ih

theorem blockOf_append {n : Nat} {b : Bytes} (h : b.length ≤ n) (bs : Bytes) :
    (blockOf (n - b.length) bs).1.map (b ++ ·) = (blockOf n (b ++ bs)).1 ∧
      (blockOf (n - b.length) bs).2 = (blockOf n (b ++ bs)).2 := by
  unfold blockOf
  by_cases hle : n ≤ (b ++ bs).length
  · rw [if_pos hle,if_pos (by rw [List.length_append] at hle; omega),List.take_append,List.drop_append,
      List.take_of_length_le h,List.drop_of_length_le h]
    exact ⟨rfl,rfl⟩
  · rw [if_neg hle,if_neg (by rw [List.length_append] at hle; omega)]
    exact ⟨rfl,rfl⟩

theorem readFull_eq (left : Nat) (buf : Bytes) (c : Conn) :
    (readFull left buf c).1 = (blockOf left c.bytes).1.map (buf ++ ·) ∧
      (readFull left buf c).2.bytes = (blockOf left c.bytes).2 := by
  fun_induction readFull left buf c with
  | case1 buf c => simp [blockOf,Except.map]
  | case2 left buf c hleft h =>
    have hempty := read_none h
    simp [blockOf,hempty,hleft,Except.map]
  | case3 left buf c hleft b c' h ih =>
    obtain ⟨hbytes,-,hlength⟩ := read_some (Nat.pos_of_ne_zero hleft) h
    obtain ⟨hfirst,hsecond⟩ := blockOf_append hlength c'.bytes
    rw [hbytes,← hfirst,← hsecond,ih.1,ih.2]
    refine ⟨?_,rfl⟩
    cases (blockOf (left - b.length) c'.bytes).1 with
    | error e => rfl
    | ok block => simp [Except.map]

-- the reply that a stream of bytes stands for, and the bytes behind it
def replyOf (rt : Runtime) (bs : Bytes) : Outcome × Bytes :=
  match lineOf [] bs with
  | (.error e,bs) => (.error e,bs)
  | (.ok [],bs) => (.value [],bs)
  | (.ok (t :: rest),bs) =>
      if t = byte '+' ∨ t = byte ':' ∨ t = byte '-' then
        if t = byte '-' then (.error (.server rest),bs) else (.value rest,bs)
      else if t = byte '$' then
        match Go.atoi (textOf rest) with
        | none => (.error (.atoi rest),bs)
        | some n =>
            if n < 0 then (.value [],bs)
            else
              match makeSlice rt (Go.int64 (n + 2)) with
              | none => (.panicked,bs)
              | some size =>
                  match blockOf size bs with
                  | (.error e,bs) => (.error e,bs)
                  | (.ok buf,bs) => (.value (buf.take n.toNat),bs)
      else (.error (.unexpected (t :: rest)),bs)

theorem readReply_eq (rt : Runtime) (c : Conn) :
    (readReply rt c).1 = (replyOf rt c.bytes).1 ∧ (readReply rt c).2.bytes = (replyOf rt c.bytes).2 := by
  obtain ⟨hresult,hrest⟩ := readLine_eq [] c
  unfold readReply replyOf
  obtain ⟨r,c',hr⟩ : ∃ r c', readLine [] c = (r,c') := ⟨_,_,rfl⟩
  obtain ⟨r',bs,hbs⟩ : ∃ r' bs, lineOf [] c.bytes = (r',bs) := ⟨_,_,rfl⟩
  rw [hr,hbs] at hresult hrest
  obtain rfl : r = r' := hresult
  obtain rfl : c'.bytes = bs := hrest
  rw [hr,hbs]
  match r with
  | .error e => exact ⟨rfl,rfl⟩
  | .ok [] => exact ⟨rfl,rfl⟩
  | .ok (t :: rest) =>
    dsimp only
    split
    · split <;> exact ⟨rfl,rfl⟩
    · split
      · split
        · exact ⟨rfl,rfl⟩
        · split
          · exact ⟨rfl,rfl⟩
          · split
            · exact ⟨rfl,rfl⟩
            · rename_i size _
              obtain ⟨hblock,hleft⟩ := readFull_eq size [] c'
              obtain ⟨x,c'',hx⟩ : ∃ x c'', readFull size [] c' = (x,c'') := ⟨_,_,rfl⟩
              obtain ⟨y,bs,hy⟩ : ∃ y bs, blockOf size c'.bytes = (y,bs) := ⟨_,_,rfl⟩
              rw [hx,hy] at hblock hleft
              rw [hx,hy]
              obtain rfl : c''.bytes = bs := hleft
              cases y with
              | error e =>
                obtain rfl : x = .error e := hblock
                exact ⟨rfl,rfl⟩
              | ok buf =>
                obtain rfl : x = .ok buf := hblock
                exact ⟨rfl,rfl⟩
      · exact ⟨rfl,rfl⟩

def crlf : Bytes := [byte '\r',byte '\n']

def Plain (line : Bytes) : Prop := byte '\r' ∉ line ∧ byte '\n' ∉ line

def decimal (n : Nat) : Bytes := (Nat.toDigits 10 n).map byte

def simple (t : UInt8) (payload : Bytes) : Bytes := t :: (payload ++ crlf)

def bulk (payload : Bytes) : Bytes :=
  byte '$' :: (decimal payload.length ++ crlf) ++ (payload ++ crlf)

-- however the stream is split, this is the outcome and these bytes stay unread
def Reads (rt : Runtime) (stream : Bytes) (o : Outcome) (unread : Bytes) : Prop :=
  ∀ c : Conn, c.bytes = stream → (readReply rt c).1 = o ∧ (readReply rt c).2.bytes = unread

def announced (stream : Bytes) : Option Int :=
  match (lineOf [] stream).1 with
  | .ok (t :: rest) => if t = byte '$' then Go.atoi (textOf rest) else none
  | _ => none

section Lines

variable {rt : Runtime} {line payload rest bs : Bytes} {t : UInt8} {n : Nat}

theorem reads_iff {stream unread : Bytes} {o : Outcome} (h : replyOf rt stream = (o,unread)) :
    Reads rt stream o unread := by
  rintro c rfl
  obtain ⟨hresult,hrest⟩ := readReply_eq rt c
  rw [h] at hresult hrest
  exact ⟨hresult,hrest⟩

theorem Plain.cons {x : UInt8} (h : Plain (x :: line)) : x ≠ byte '\r' ∧ x ≠ byte '\n' ∧ Plain line := by
  obtain ⟨hcr,hnl⟩ := h
  obtain ⟨hx,hcr⟩ := List.ne_and_not_mem_of_not_mem_cons hcr
  obtain ⟨hx',hnl⟩ := List.ne_and_not_mem_of_not_mem_cons hnl
  exact ⟨Ne.symm hx,Ne.symm hx',hcr,hnl⟩

theorem lineOf_cons {acc : Bytes} {x : UInt8} (hcr : x ≠ byte '\r') (hnl : x ≠ byte '\n') :
    lineOf acc (x :: bs) =
      if (acc ++ [x]).length > maxLine then (.error .tooLarge,bs) else lineOf (acc ++ [x]) bs := by
  rw [lineOf,if_neg hnl,writeByte,if_pos hcr]

theorem lineOf_plain {acc : Bytes} (hplain : Plain line) (hlength : (acc ++ line).length ≤ maxLine) :
    lineOf acc (line ++ bs) = lineOf (acc ++ line) bs := by
  induction line generalizing acc with
  | nil => simp
  | cons x line ih =>
    obtain ⟨hcr,hnl,hrest⟩ := hplain.cons
    have hshort : ¬(acc ++ [x]).length > maxLine := by
      simp only [List.length_append,List.length_cons,List.length_nil] at hlength ⊢
      omega
    rw [List.cons_append,lineOf_cons hcr hnl,if_neg hshort,ih hrest (by simpa using hlength)]
    simp

theorem lineOf_large {acc : Bytes} (hplain : Plain line) (hlength : maxLine < (acc ++ line).length)
    (hacc : acc.length ≤ maxLine) : ∃ unread, lineOf acc (line ++ bs) = (.error .tooLarge,unread) := by
  induction line generalizing acc with
  | nil =>
    rw [List.append_nil] at hlength
    exact absurd hacc (Nat.not_le.mpr hlength)
  | cons x line ih =>
    obtain ⟨hcr,hnl,hrest⟩ := hplain.cons
    rw [List.cons_append,lineOf_cons hcr hnl]
    split
    · exact ⟨_,rfl⟩
    · rename_i hshort
      exact ih hrest (by simpa using hlength) (Nat.not_lt.mp hshort)

theorem lineOf_crlf (acc : Bytes) (h : acc.length ≤ maxLine) : lineOf acc (crlf ++ bs) = (.ok acc,bs) := by
  have hwrite : writeByte acc (byte '\r') = acc := if_neg (not_not.mpr rfl)
  rw [crlf,List.cons_append,lineOf,if_neg (by decide)]
  dsimp only
  rw [hwrite,if_neg (Nat.not_lt.mpr h)]
  exact if_pos rfl

theorem lineOf_line (hplain : Plain line) (hlength : line.length ≤ maxLine) :
    lineOf [] (line ++ (crlf ++ bs)) = (.ok line,bs) := by
  have hempty : ([] ++ line).length ≤ maxLine := hlength
  rw [lineOf_plain hplain hempty,List.nil_append,lineOf_crlf line hlength]

theorem plain_typed (ht : t ∈ [byte '+',byte ':',byte '$']) (hplain : Plain payload) : Plain (t :: payload) := by
  have hall : ∀ t ∈ [byte '+',byte ':',byte '$'], t ≠ byte '\r' ∧ t ≠ byte '\n' := by
    rw [List.forall_mem_cons,List.forall_mem_cons,List.forall_mem_singleton]
    decide
  obtain ⟨hcr,hnl⟩ := hall t ht
  exact ⟨List.not_mem_cons_of_ne_of_not_mem (Ne.symm hcr) hplain.1,
    List.not_mem_cons_of_ne_of_not_mem (Ne.symm hnl) hplain.2⟩

theorem reads_simple (ht : t ∈ [byte '+',byte ':']) (hplain : Plain payload) (hlength : payload.length < maxLine) :
    Reads rt (simple t payload ++ rest) (.value payload) rest := by
  have htyped := plain_typed (List.mem_append_left [byte '$'] ht) hplain
  have hline : lineOf [] (simple t payload ++ rest) = (.ok (t :: payload),rest) := by
    rw [simple,← List.cons_append,List.append_assoc]
    exact lineOf_line htyped hlength
  have hall : ∀ t ∈ [byte '+',byte ':'], (t = byte '+' ∨ t = byte ':' ∨ t = byte '-') ∧ t ≠ byte '-' := by
    rw [List.forall_mem_cons,List.forall_mem_singleton]
    decide
  apply reads_iff
  rw [replyOf,hline]
  dsimp only
  rw [if_pos (hall t ht).1,if_neg (hall t ht).2]

theorem reads_large (ht : t ∈ [byte '+',byte ':']) (hplain : Plain payload) (hlength : maxLine ≤ payload.length) :
    ∃ unread, Reads rt (simple t payload ++ rest) (.error .tooLarge) unread := by
  have htyped := plain_typed (List.mem_append_left [byte '$'] ht) hplain
  obtain ⟨unread,hline⟩ : ∃ unread, lineOf [] (t :: payload ++ (crlf ++ rest)) = (.error .tooLarge,unread) :=
    lineOf_large htyped (Nat.lt_succ_of_le hlength) (Nat.zero_le _)
  refine ⟨unread,reads_iff ?_⟩
  rw [simple,← List.cons_append,List.append_assoc,replyOf,hline]

theorem digit_byte {c : Char} (h : c ∈ Nat.toDigits 10 n) :
    Char.ofNat (byte c).toNat = c ∧ byte c ≠ byte '\r' ∧ byte c ≠ byte '\n' := by
  have hrange : 48 ≤ c.toNat ∧ c.toNat ≤ 57 := by
    simpa [Go.isDigit,Char.le_def,UInt32.le_iff_toNat_le] using Go.isDigit_toDigits h
  have hbyte : (byte c).toNat = c.toNat := by
    rw [byte]
    exact Nat.mod_eq_of_lt (by omega)
  have hother (d : Char) (hd : d.toNat < 48) : byte c ≠ byte d := by
    intro he
    have hvalue := congrArg UInt8.toNat he
    have hsmall : (byte d).toNat = d.toNat := by
      rw [byte]
      exact Nat.mod_eq_of_lt (by omega)
    omega
  exact ⟨by rw [hbyte,Char.ofNat_toNat],hother '\r' (by decide),hother '\n' (by decide)⟩

theorem textOf_decimal (n : Nat) : textOf (decimal n) = String.ofList (Nat.toDigits 10 n) := by
  rw [textOf,decimal,List.map_map]
  have hsame : (Nat.toDigits 10 n).map ((fun x => Char.ofNat x.toNat) ∘ byte) = (Nat.toDigits 10 n).map id :=
    List.map_congr_left fun c hc => (digit_byte hc).1
  rw [hsame,List.map_id]

theorem plain_decimal (n : Nat) : Plain (decimal n) := by
  constructor
  · intro h
    obtain ⟨c,hc,he⟩ := List.mem_map.mp h
    exact (digit_byte hc).2.1 he
  · intro h
    obtain ⟨c,hc,he⟩ := List.mem_map.mp h
    exact (digit_byte hc).2.2 he

theorem atoi_decimal (hn : (n : Int) ≤ Go.maxDuration) : Go.atoi (textOf (decimal n)) = some (n : Int) := by
  rw [textOf_decimal]
  exact Go.atoi_of_digits Nat.toDigits_ne_nil (fun _ => Go.isDigit_toDigits) (Go.digits_toDigits n) hn

theorem blockOf_front (n : Nat) (hn : bs.length = n) : blockOf n (bs ++ rest) = (.ok bs,rest) := by
  subst hn
  rw [blockOf,if_pos (by simp)]
  simp

theorem int64_fits (rt : Runtime) {n : Int} (hn : 0 ≤ n) (h : n + 2 ≤ rt.maxSlice) :
    Go.int64 (n + 2) = n + 2 := by
  have hbound := rt.fits
  refine Go.int64_eq ?_ ?_ <;> unfold Go.maxDuration <;> omega

theorem reads_bulk (hfits : payload.length + 2 ≤ rt.maxSlice) :
    Reads rt (bulk payload ++ rest) (.value payload) rest := by
  have hbound := rt.fits
  have hmax : (payload.length : Int) ≤ Go.maxDuration := by
    unfold Go.maxDuration
    omega
  have hdigits : (decimal payload.length).length ≤ 19 := by
    rw [decimal,List.length_map]
    exact Nat.toDigits_length 10 _ 19 (by decide) (by omega)
  have hline : lineOf [] (bulk payload ++ rest) =
      (.ok (byte '$' :: decimal payload.length),payload ++ crlf ++ rest) := by
    have hplain := plain_typed (t := byte '$') (by decide) (plain_decimal payload.length)
    have hshort : (byte '$' :: decimal payload.length).length ≤ maxLine := by
      rw [List.length_cons,maxLine]
      omega
    rw [bulk,← List.cons_append,List.append_assoc,List.append_assoc]
    exact lineOf_line hplain hshort
  have hint := int64_fits rt (n := payload.length) (by omega) (by omega)
  have hslice : makeSlice rt ((payload.length : Int) + 2) = some (payload.length + 2) := by
    rw [makeSlice,if_pos (by omega)]
    congr 1
  have hblock : blockOf (payload.length + 2) (payload ++ crlf ++ rest) = (.ok (payload ++ crlf),rest) :=
    blockOf_front _ (by simp [crlf])
  apply reads_iff
  rw [replyOf,hline]
  dsimp only
  rw [if_neg (by decide),if_pos rfl,atoi_decimal hmax]
  dsimp only
  rw [if_neg (by omega),hint,hslice]
  dsimp only
  rw [hblock]
  dsimp only
  rw [Int.toNat_natCast,List.take_left]

theorem announced_of_panicked (h : (replyOf rt bs).1 = .panicked) :
    ∃ n, announced bs = some n ∧ ¬n + 2 ≤ rt.maxSlice := by
  unfold replyOf at h
  obtain ⟨r,left,hr⟩ : ∃ r left, lineOf [] bs = (r,left) := ⟨_,_,rfl⟩
  rw [hr] at h
  match r with
  | .error e => cases h
  | .ok [] => cases h
  | .ok (t :: rest) =>
    dsimp only at h
    split at h
    · split at h <;> cases h
    · split at h
      · rename_i ht
        split at h
        · cases h
        · rename_i n hn
          split at h
          · cases h
          · rename_i hnonneg
            refine ⟨n,by simp [announced,hr,ht,hn],fun hle => ?_⟩
            have hslice : makeSlice rt (n + 2) = some (n + 2).toNat := if_pos (by omega)
            rw [int64_fits rt (by omega) hle,hslice] at h
            dsimp only at h
            split at h <;> cases h
      · cases h

end Lines

theorem reply_reader_exact (rt : Runtime) :
    (∀ stream, ∃ o unread, Reads rt stream o unread) ∧
    (∀ c : Conn, (∀ n, announced c.bytes = some n → n + 2 ≤ rt.maxSlice) → (readReply rt c).1 ≠ .panicked) ∧
    (∀ t ∈ [byte '+',byte ':'], ∀ payload rest, Plain payload →
      (payload.length < maxLine → Reads rt (simple t payload ++ rest) (.value payload) rest) ∧
      (maxLine ≤ payload.length → ∃ unread, Reads rt (simple t payload ++ rest) (.error .tooLarge) unread)) ∧
    ∀ payload rest, payload.length + 2 ≤ rt.maxSlice → Reads rt (bulk payload ++ rest) (.value payload) rest := by
  refine ⟨fun stream => ?_,fun c h hpanicked => ?_,fun t ht payload rest hplain => ?_,fun payload rest => reads_bulk⟩
  · exact ⟨(replyOf rt stream).1,(replyOf rt stream).2,reads_iff rfl⟩
  · rw [(readReply_eq rt c).1] at hpanicked
    obtain ⟨n,hn,hlarge⟩ := announced_of_panicked hpanicked
    exact hlarge (h n hn)
  · exact ⟨reads_simple ht hplain,reads_large ht hplain⟩

def runtime : Runtime := ⟨2 ^ 48,by decide⟩

def packet (b : Bytes) (h : b ≠ []) : Conn := ⟨[b],by simpa using h⟩

-- a bulk string of one byte, split within its last line end, and one byte of the next reply
def splitReply : Conn :=
  ⟨[[byte '$',byte '1',byte '\r',byte '\n',7],[byte '\r'],[byte '\n',9]],by decide⟩

theorem split_reply_read : (readReply runtime splitReply).1 = .value [7] ∧
    (readReply runtime splitReply).2.bytes = [9] :=
  (reply_reader_exact runtime).2.2.2 [7] [9] (by decide) splitReply rfl

def hugeLength : Bytes := byte '$' :: (decimal 9223372036854775807 ++ crlf)

theorem reply_reader_refuted :
    (¬∀ (rt : Runtime) (c : Conn), (readReply rt c).1 ≠ .panicked) ∧
    ¬∀ (rt : Runtime) (c : Conn) (payload : Bytes), Plain payload → c.bytes = simple (byte '+') payload →
      (readReply rt c).1 = .value payload := by
  constructor
  · intro h
    refine h runtime (packet hugeLength (by decide)) ?_
    rw [(readReply_eq runtime _).1]
    rfl
  · intro h
    have hplain : Plain (List.replicate maxLine (byte 'a')) := by
      constructor <;> intro hmem <;> exact absurd (List.eq_of_mem_replicate hmem) (by decide)
    obtain ⟨unread,hlarge⟩ : ∃ unread, Reads runtime
        (simple (byte '+') (List.replicate maxLine (byte 'a')) ++ []) (.error .tooLarge) unread :=
      reads_large (by decide) hplain (by simp)
    rw [List.append_nil] at hlarge
    have hvalue := h runtime (packet (simple (byte '+') (List.replicate maxLine (byte 'a'))) (by simp [simple]))
      _ hplain (by simp [packet,Conn.bytes])
    rw [(hlarge _ (by simp [packet,Conn.bytes])).1] at hvalue
    cases hvalue

end Databases
