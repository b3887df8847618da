import ServerHub.Go.Strings

namespace Go

def hexAlphabet : List Char := "0123456789abcdef".toList

def hexChar (n : Nat) : Char := hexAlphabet.getD n '0'

def hexDigits : Nat → Nat → List Char
  | 0, _ => []
  | k + 1, n => hexDigits k (n / 16) ++ [hexChar (n % 16)]

def escaped (c : Char) : List Char :=
  match c.toNat with
  | 7 => ['\\','a']
  | 8 => ['\\','b']
  | 9 => ['\\','t']
  | 10 => ['\\','n']
  | 11 => ['\\','v']
  | 12 => ['\\','f']
  | 13 => ['\\','r']
  | n =>
    if n < 0x20 ∨ n = 0x7f then ['\\','x'] ++ hexDigits 2 n
    else if n < 0x10000 then ['\\','u'] ++ hexDigits 4 n
    else ['\\','U'] ++ hexDigits 8 n

-- a string as the verb %q shows it
def quote (s : List Char) : List Char :=
  '"' :: s.flatMap (fun c =>
    if c = '"' ∨ c = '\\' then ['\\',c] else if isPrint c then [c] else escaped c) ++ ['"']

example : quote ['a','/','\n'] = ['"','a','/','\\','n','"'] := by decide

def encodeToString : List UInt8 → List Char
  | [] => []
  | x :: b => hexChar (x.toNat / 16) :: hexChar (x.toNat % 16) :: encodeToString b

def fromHexChar (c : Char) : Option Nat :=
  if '0' ≤ c ∧ c ≤ '9' then some (c.toNat - 48)
  else if 'a' ≤ c ∧ c ≤ 'f' then some (c.toNat - 97 + 10)
  else if 'A' ≤ c ∧ c ≤ 'F' then some (c.toNat - 65 + 10)
  else none

-- encoding/hex DecodeString: none where it gives an error
def decodeString : List Char → Option (List UInt8)
  | [] => some []
  | [_] => none
  | a :: b :: s =>
      match fromHexChar a, fromHexChar b with
      | some x, some y => (decodeString s).map (UInt8.ofNat (x * 16 + y) :: ·)
      | _, _ => none

theorem fromHexChar_hexChar {n : Nat} (h : n < 16) : fromHexChar (hexChar n) = some n := by
  have hall : ∀ k : Fin 16, fromHexChar (hexChar k) = some k.val := by decide
  exact hall ⟨n,h⟩

theorem decodeString_encodeToString (b : List UInt8) : decodeString (encodeToString b) = some b := by
  induction b with
  | nil => rfl
  | cons x b ih =>
    have hx := x.toNat_lt
    have hhigh : fromHexChar (hexChar (x.toNat / 16)) = some (x.toNat / 16) :=
      fromHexChar_hexChar (by omega)
    have hlow : fromHexChar (hexChar (x.toNat % 16)) = some (x.toNat % 16) :=
      fromHexChar_hexChar (by omega)
    have hbyte : x.toNat / 16 * 16 + x.toNat % 16 = x.toNat := by omega
    rw [encodeToString,decodeString,hhigh,hlow,ih]
    simp only [hbyte,UInt8.ofNat_toNat,Option.map_some]

end Go
