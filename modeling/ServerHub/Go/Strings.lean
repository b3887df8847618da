import Mathlib.Algebra.GroupWithZero.Nat
import Mathlib.Algebra.Ring.Int.Defs
import Mathlib.Data.List.DropRight
import Mathlib.Data.List.Infix
import ServerHub.Go.Unicode

namespace Go

instance lawfulText : LawfulBEq (List Char) := inferInstance

def isSpace (c : Char) : Bool :=
  c ∈ ['\t','\n',Char.ofNat 0x0b,Char.ofNat 0x0c,'\r',' '] ||
  c.toNat ∈ [0x85,0xa0,0x1680,0x2028,0x2029,0x202f,0x205f,0x3000] ||
  (0x2000 ≤ c.toNat && c.toNat ≤ 0x200a)

def trim (s : List Char) : List Char :=
  ((s.dropWhile isSpace).reverse.dropWhile isSpace).reverse

def trimSpace (s : String) : String := String.ofList (trim s.toList)

def toUpper (s : String) : String := String.ofList (s.toList.map upper)

def toLower (s : String) : String := String.ofList (s.toList.map lower)

def equalFold (s t : String) : Bool := s.toList.map fold == t.toList.map fold

example : equalFold "équipe" "ÉQUIPE" = true := by decide

def int64 (n : Int) : Int := n.bmod 18446744073709551616

def split (s : String) (sep : Char) : List String := (s.toList.splitOn sep).map String.ofList

def join (parts : List String) (sep : Char) : String :=
  String.ofList ([sep].intercalate (parts.map String.toList))

def isDigit (c : Char) : Bool := '0' ≤ c && c ≤ '9'

def digits (ds : List Char) : Option Nat :=
  if ds = [] then none
  else ds.foldlM (fun n c => if isDigit c then some (10 * n + (c.toNat - 48)) else none) 0

def atoi (s : String) : Option Int :=
  let n : Option Int := match s.toList with
    | '-' :: ds => (digits ds).map fun n => -n
    | '+' :: ds => (digits ds).map fun n => n
    | ds => (digits ds).map fun n => n
  n.filter fun v => decide (int64 v = v)

def cut : Nat → List Char → Option (List Char)
  | 0, _ => some []
  | _ + 1, [] => some []
  | n + 1, c :: cs => if c.utf8Size ≤ n + 1 then (cut (n + 1 - c.utf8Size) cs).map (c :: ·) else none

def utf8Length (s : String) : Nat := (s.toList.map Char.utf8Size).sum

@[simp] theorem trimSpace_empty : trimSpace "" = "" := by decide

theorem trim_eq_rdropWhile (s : List Char) : trim s = (s.dropWhile isSpace).rdropWhile isSpace := rfl

theorem trim_trim (s : List Char) : trim (trim s) = trim s := by
  have hfront : (trim s).dropWhile isSpace = trim s := by
    obtain ⟨tail,htail⟩ := List.rdropWhile_prefix isSpace (s.dropWhile isSpace)
    rw [← trim_eq_rdropWhile] at htail
    cases h : trim s with
    | nil => rfl
    | cons c cs =>
      rw [h,List.cons_append] at htail
      have hc := List.head?_dropWhile_not isSpace s
      rw [← htail,List.head?_cons] at hc
      exact List.dropWhile_cons_of_neg (by simpa using hc)
  rw [trim_eq_rdropWhile (trim s),hfront,trim_eq_rdropWhile,List.rdropWhile_idempotent]

theorem split_join {parts : List String} {sep : Char} (hne : parts ≠ [])
    (h : ∀ p ∈ parts, sep ∉ p.toList) : split (join parts sep) sep = parts := by
  have hsep : ∀ l ∈ parts.map String.toList, sep ∉ l := by
    intro l hl
    obtain ⟨p,hp,rfl⟩ := List.mem_map.mp hl
    exact h p hp
  rw [split,join,String.toList_ofList,List.splitOn_intercalate sep hsep (by simpa using hne)]
  simp [Function.comp_def]

theorem trimSpace_trimSpace (s : String) : trimSpace (trimSpace s) = trimSpace s := by
  simp [trimSpace,trim_trim]

end Go
