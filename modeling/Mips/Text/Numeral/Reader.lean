import Mips.Text.Numeral
/-!
# Reading numerals

Unsigned numbers of a bounded size, read with the reason why a text is none.
-/

namespace Mips.Numeral

inductive Mistake where
  | empty
  | invalidDigit
  | tooLarge
  deriving DecidableEq, Repr

def Mistake.reason : Mistake → String
  | empty => "cannot parse integer from empty string"
  | invalidDigit => "invalid digit found in string"
  | tooLarge => "number too large to fit in target type"

/-- Reads on after the digits of `n`.  Of two mistakes the first one counts. -/
def readDigits (radix bound : Nat) : Nat → List Char → Except Mistake Nat
  | n, [] => .ok n
  | n, c :: cs =>
    match digitOf? radix c with
    | none => .error .invalidDigit
    | some d =>
      if n * radix + d < bound then readDigits radix bound (n * radix + d) cs
      else .error .tooLarge

/-- Reads a number below `bound`, which may have a plus sign. -/
def read (radix bound : Nat) : List Char → Except Mistake Nat
  | [] => .error .empty
  | ['+'] => .error .invalidDigit
  | '+' :: cs => readDigits radix bound 0 cs
  | cs => readDigits radix bound 0 cs

def counter? (cs : List Char) : Option Nat := (read 10 0x10000000000000000 cs).toOption

end Mips.Numeral
