import Mips.Text.Numeral
import Mips.Toml.Value
/-!
# TOML scalars

The values that are written without quotes or brackets: numbers, truth values, dates and times.
Each is recognised as a whole, from all of its characters.  An integer is recognised by its first
digits and by its underscores, before its other characters are looked at.
-/

namespace Mips.Toml

open Numeral

namespace Scalar

def isHexDigit (c : Char) : Bool := (digitOf? 16 c).isSome

/-- Whether each underscore stands between two digits, where `after` says whether a digit comes
before the text. -/
def grouped (isDigit : Char → Bool) : Bool → List Char → Bool
  | _, [] => true
  | after, '_' :: c :: cs => after && isDigit c && grouped isDigit true cs
  | _, c :: cs => c ≠ '_' && grouped isDigit (isDigit c) cs

def unsigned : List Char → List Char
  | '+' :: cs | '-' :: cs => cs
  | cs => cs

def padded (cs : List Char) : Bool := cs.head? = some '0' && cs.length > 1

/-! ## Integers -/

/-- The value of digits and underscores; none if there are other characters or no digits. -/
def value? (radix : Nat) (cs : List Char) : Option Nat :=
  match cs.filter (· ≠ '_') with
  | [] => none
  | ds => ofDigits? radix ds

/-- Whether a text can stand after the letter of a radix, with or without digits. -/
def isRadixed (radix : Nat) (cs : List Char) : Bool :=
  cs.all (fun c => c = '_' || (digitOf? radix c).isSome) && grouped isHexDigit false cs

/-- Whether a text without its sign is written as an integer: as digits alone, or with an underscore
after the first digits and then with characters of which none is a blank or belongs to a float. -/
def isDecimal (cs : List Char) : Bool :=
  cs ≠ [] && !padded cs && grouped isHexDigit false cs &&
    match cs.dropWhile Char.isDigit with
    | [] => true
    | c :: cs => c = '_' && !cs.any fun c => c = ' ' || c = '.' || c = 'e' || c = 'E'

/-- The value of a text that is written as an integer, which is none inside if it has no value. -/
def integer? : List Char → Option (Option Int)
  | '0' :: 'x' :: cs => if isRadixed 16 cs then some ((value? 16 cs).map Int.ofNat) else none
  | '0' :: 'o' :: cs => if isRadixed 8 cs then some ((value? 8 cs).map Int.ofNat) else none
  | '0' :: 'b' :: cs => if isRadixed 2 cs then some ((value? 2 cs).map Int.ofNat) else none
  | '-' :: cs => if isDecimal cs then some ((value? 10 cs).map fun n => -Int.ofNat n) else none
  | cs =>
    let cs := unsigned cs
    if isDecimal cs then some ((value? 10 cs).map Int.ofNat) else none

/-! ## Floats -/

def isDigits (cs : List Char) : Bool :=
  cs.all (fun c => c.isDigit || c = '_') && cs.any Char.isDigit

/-- Whether a text is a number with a point, an exponent or both, or one of the special values. -/
def isFloat (cs : List Char) : Bool :=
  let cs := unsigned cs
  let (mantissa, power) := cs.span fun c => c ≠ 'e' && c ≠ 'E'
  let (whole, point) := mantissa.span (· ≠ '.')
  let optional (check : List Char → Bool) : List Char → Bool
    | [] => true
    | _ :: ds => check ds
  cs = ['i', 'n', 'f'] || cs = ['n', 'a', 'n'] ||
    (isDigits whole && !padded whole && optional isDigits point &&
      optional (fun ds => isDigits (unsigned ds)) power &&
      grouped Char.isDigit false cs && !(point.isEmpty && power.isEmpty))

/-! ## Dates and times -/

def field? (length lo hi : Nat) (cs : List Char) : Option Nat := do
  let n ← if cs.length = length then ofDigits? 10 cs else none
  if lo ≤ n ∧ n ≤ hi then some n else none

def isLeap (year : Nat) : Bool := year % 4 = 0 && (year % 100 ≠ 0 || year % 400 = 0)

def daysIn (year month : Nat) : Nat :=
  if month = 2 then if isLeap year then 29 else 28
  else if month ∈ [4, 6, 9, 11] then 30
  else 31

def isDate : List Char → Bool
  | [y₀, y₁, y₂, y₃, '-', m₀, m₁, '-', d₀, d₁] => Option.isSome do
    let year ← field? 4 0 9999 [y₀, y₁, y₂, y₃]
    let month ← field? 2 1 12 [m₀, m₁]
    field? 2 1 (daysIn year month) [d₀, d₁]
  | _ => false

def isClock : List Char → Bool
  | [h₀, h₁, ':', m₀, m₁] => (field? 2 0 23 [h₀, h₁]).isSome && (field? 2 0 59 [m₀, m₁]).isSome
  | _ => false

/-- Whether a text is a time of day.  The seconds may be left out or have a fraction. -/
def isTime (cs : List Char) : Bool :=
  isClock (cs.take 5) &&
    match cs.drop 5 with
    | [] => true
    | ':' :: s₀ :: s₁ :: rest =>
      (field? 2 0 60 [s₀, s₁]).isSome &&
        match rest with
        | [] => true
        | '.' :: ds => !ds.isEmpty && ds.all Char.isDigit
        | _ => false
    | _ => false

def isZonedTime (cs : List Char) : Bool :=
  match cs.span fun c => c ∉ ['+', '-', 'Z', 'z'] with
  | (time, []) => isTime time
  | (time, c :: offset) =>
    isTime time && if c = 'Z' ∨ c = 'z' then offset.isEmpty else isClock offset

def isMoment (cs : List Char) : Bool :=
  isTime cs ||
    (isDate (cs.take 10) &&
      match cs.drop 10 with
      | [] => true
      | c :: time => (c = 'T' || c = 't' || c = ' ') && isZonedTime time)

end Scalar

def scalar? (cs : List Char) : Option Value :=
  if cs = ['t', 'r', 'u', 'e'] then some (.boolean true)
  else if cs = ['f', 'a', 'l', 's', 'e'] then some (.boolean false)
  else
    match Scalar.integer? cs with
    | some (some n) => some (.integer n)
    | some none => some (.misspelt cs)
    | none =>
      if Scalar.isFloat cs then some (.float cs)
      else if Scalar.isMoment cs then some (.moment cs)
      else none

end Mips.Toml
