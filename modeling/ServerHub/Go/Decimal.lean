import ServerHub.Go.Time

namespace Go

variable {ds : List Char} {n : Nat}

theorem foldlM_digits (h : ∀ c ∈ ds, isDigit c = true) (start : Nat) :
    ds.foldlM (fun n c => if isDigit c then some (10 * n + (c.toNat - 48)) else none) start =
      some (Nat.ofDigitChars 10 ds start) := by
  induction ds generalizing start with
  | nil => rfl
  | cons c ds ih =>
    rw [List.foldlM_cons,if_pos (h c List.mem_cons_self),Nat.ofDigitChars_cons]
    exact ih (fun d hd => h d (List.mem_cons_of_mem c hd)) _

theorem digits_of_all (hne : ds ≠ []) (h : ∀ c ∈ ds, isDigit c = true) :
    digits ds = some (Nat.ofDigitChars 10 ds 0) := by
  rw [digits,if_neg hne,foldlM_digits h]

theorem isDigit_toDigits {c : Char} (h : c ∈ Nat.toDigits 10 n) : isDigit c = true := by
  have hc := Nat.isDigit_of_mem_toDigits (by decide) (by decide) h
  simpa [isDigit,Char.isDigit,Char.le_def,UInt32.le_iff_toNat_le] using hc

theorem digits_toDigits (n : Nat) : digits (Nat.toDigits 10 n) = some n := by
  rw [digits_of_all Nat.toDigits_ne_nil fun _ => isDigit_toDigits,
    Nat.ofDigitChars_toDigits (by decide) (by decide)]

theorem dropWhile_of_none {p : Char → Bool} (h : ∀ c ∈ ds, p c = false) : ds.dropWhile p = ds := by
  cases ds with
  | nil => rfl
  | cons c ds => exact List.dropWhile_cons_of_neg (by simp [h c List.mem_cons_self])

theorem trim_of_no_space (h : ∀ c ∈ ds, isSpace c = false) : trim ds = ds := by
  have hback : ∀ c ∈ ds.reverse, isSpace c = false := fun c hc => h c (List.mem_reverse.mp hc)
  rw [trim,dropWhile_of_none h,dropWhile_of_none hback,List.reverse_reverse]

theorem not_space_of_digit {c : Char} (h : isDigit c = true) : isSpace c = false := by
  have hrange : 48 ≤ c.toNat ∧ c.toNat ≤ 57 := by
    simpa [isDigit,Char.le_def,UInt32.le_iff_toNat_le] using h
  have hne : ∀ d : Char, d.toNat < 48 → c ≠ d := by
    rintro d hd rfl
    omega
  simp only [isSpace,List.mem_cons,List.not_mem_nil,or_false,Bool.or_eq_false_iff,
    Bool.and_eq_false_iff,decide_eq_false_iff_not,not_or]
  refine ⟨⟨⟨?_,?_,?_,?_,?_,?_⟩,?_⟩,.inl (by omega)⟩
  iterate 6 exact hne _ (by decide)
  omega

theorem atoi_of_digits (hne : ds ≠ []) (h : ∀ c ∈ ds, isDigit c = true) (hd : digits ds = some n)
    (hn : (n : Int) ≤ maxDuration) : atoi (String.ofList ds) = some (n : Int) := by
  have hsigned : int64 n = n := int64_eq (by unfold maxDuration; omega) hn
  have hsign : ∀ d : Char, isDigit d = false → ∀ rest, ds ≠ d :: rest := by
    rintro d hd' rest rfl
    rw [h d List.mem_cons_self] at hd'
    cases hd'
  unfold atoi
  rw [String.toList_ofList]
  split
  · exact absurd rfl (hsign '-' (by decide) _)
  · exact absurd rfl (hsign '+' (by decide) _)
  · simp [hd,hsigned]

theorem atoi_toDigits (hn : (n : Int) ≤ maxDuration) :
    atoi (trimSpace (String.ofList (Nat.toDigits 10 n))) = some (n : Int) := by
  rw [trimSpace,String.toList_ofList,trim_of_no_space fun _ hc => not_space_of_digit (isDigit_toDigits hc)]
  exact atoi_of_digits Nat.toDigits_ne_nil (fun _ => isDigit_toDigits) (digits_toDigits n) hn

theorem int64_add_left (a b : Int) : int64 (int64 a + b) = int64 (a + b) := Int.bmod_add_bmod

theorem int64_add_right (a b : Int) : int64 (a + int64 b) = int64 (a + b) := Int.add_bmod_bmod

end Go
