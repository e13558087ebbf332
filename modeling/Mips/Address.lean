import Mips.Text.Blank
import Mips.Text.Numeral.Reader
import Mips.Word
/-!
# Addresses as text

An address is written in decimal, or in hexadecimal after `0x`.  White space around it and
underscores between its digits count for nothing, and it may have a plus sign.
-/

namespace Mips

structure AddressError where
  text : List Char
  mistake : Numeral.Mistake
  deriving DecidableEq, Repr

def AddressError.message (e : AddressError) : String :=
  "invalid address '" ++ String.ofList e.text ++ "': " ++ e.mistake.reason

namespace Address

def bound : Nat := 0x100000000

/-- The radix of a numeral and what is left of it without the mark of the radix. -/
def radix : List Char → Nat × List Char
  | '0' :: 'x' :: cs => (16, cs)
  | '0' :: 'X' :: cs => (16, cs)
  | cs => (10, cs)

def read (text : List Char) : Except AddressError Word :=
  let text := Blank.trim text
  let (radix, digits) := radix text
  match Numeral.read radix bound (digits.filter (· ≠ '_')) with
  | .ok n => .ok (.ofNat 32 n)
  | .error mistake => .error ⟨text, mistake⟩

end Address

end Mips
