/-!
# Numerals

Numbers as text.  `hex` writes a fixed number of upper-case hexadecimal digits, `decimal` as few
decimal digits as possible, and `ofDigits?` reads digits of either radix back.
-/

namespace Mips.Numeral

def hexDigit (n : Nat) : Char :=
  if n < 10 then Char.ofNat (48 + n) else Char.ofNat (55 + n)

/-- The last `width` hexadecimal digits of `n`, the most significant one first. -/
def hexDigits : Nat → Nat → List Char
  | 0, _ => []
  | width + 1, n => hexDigits width (n / 16) ++ [hexDigit (n % 16)]

def hex (width n : Nat) : String := String.ofList (hexDigits width n)

def hex32 (w : BitVec 32) : String := "0x" ++ hex 8 w.toNat

def hex64 (d : BitVec 64) : String := "0x" ++ hex 16 d.toNat

def decimal (n : Nat) : String := String.ofList (Nat.toDigits 10 n)

def signed : Int → String
  | .ofNat n => decimal n
  | .negSucc n => "-" ++ decimal (n + 1)

/-- The value of a digit of either letter case, up to radix 36. -/
def digitValue? (c : Char) : Option Nat :=
  if '0' ≤ c ∧ c ≤ '9' then some (c.toNat - 48)
  else if 'a' ≤ c ∧ c ≤ 'z' then some (c.toNat - 87)
  else if 'A' ≤ c ∧ c ≤ 'Z' then some (c.toNat - 55)
  else none

def digitOf? (radix : Nat) (c : Char) : Option Nat :=
  (digitValue? c).filter (· < radix)

def ofDigits? (radix : Nat) (cs : List Char) : Option Nat :=
  cs.foldl (fun acc c => do return (← acc) * radix + (← digitOf? radix c)) (some 0)

def padRight (width : Nat) (s : String) : String :=
  s ++ String.ofList (List.replicate (width - s.length) ' ')

def padLeft (width : Nat) (s : String) : String :=
  String.ofList (List.replicate (width - s.length) ' ') ++ s

end Mips.Numeral
