/-!
# JSON values

A JSON value as it is written.  Numbers and strings keep their spelling, so that a reader can take
a number for an integer or pass over a string without giving it a meaning; `number?` and `string?`
say what a spelling stands for.
-/

namespace Mips

inductive Json where
  | null
  | bool (b : Bool)
  /-- A number, as its characters. -/
  | number (spelling : List Char)
  /-- A string, as the characters between its quotes. -/
  | string (spelling : List Char)
  | array (items : List Json)
  | object (members : List (List Char × Json))
  deriving Repr

namespace Json

def hexValue? (c : Char) : Option Nat :=
  if '0' ≤ c ∧ c ≤ '9' then some (c.toNat - 48)
  else if 'a' ≤ c ∧ c ≤ 'f' then some (c.toNat - 87)
  else if 'A' ≤ c ∧ c ≤ 'F' then some (c.toNat - 55)
  else none

def hexUnit? (a b c d : Char) : Option Nat := do
  return (((← hexValue? a) * 16 + (← hexValue? b)) * 16 + (← hexValue? c)) * 16 + (← hexValue? d)

def escape? : Char → Option Char
  | '"' => some '"'
  | '\\' => some '\\'
  | '/' => some '/'
  | 'b' => some '\x08'
  | 'f' => some '\x0c'
  | 'n' => some '\n'
  | 'r' => some '\r'
  | 't' => some '\t'
  | _ => none

/-- The characters that the spelling of a string stands for.  Half of a surrogate pair stands for
nothing. -/
def string? : List Char → Option (List Char)
  | [] => some []
  | '\\' :: 'u' :: a :: b :: c :: d :: '\\' :: 'u' :: a' :: b' :: c' :: d' :: rest => do
    let unit ← hexUnit? a b c d
    if 0xD800 ≤ unit ∧ unit < 0xDC00 then
      let low ← hexUnit? a' b' c' d'
      if 0xDC00 ≤ low ∧ low < 0xE000 then
        let rest ← string? rest
        return Char.ofNat (0x10000 + (unit - 0xD800) * 0x400 + (low - 0xDC00)) :: rest
      else none
    else if 0xDC00 ≤ unit ∧ unit < 0xE000 then none
    else
      let rest ← string? ('\\' :: 'u' :: a' :: b' :: c' :: d' :: rest)
      return Char.ofNat unit :: rest
  | '\\' :: 'u' :: a :: b :: c :: d :: rest => do
    let unit ← hexUnit? a b c d
    if 0xD800 ≤ unit ∧ unit < 0xE000 then none
    else
      let rest ← string? rest
      return Char.ofNat unit :: rest
  | '\\' :: c :: rest => do
    let c ← escape? c
    let rest ← string? rest
    return c :: rest
  | c :: rest => do
    let rest ← string? rest
    return c :: rest

/-- The natural number that a spelling stands for; none for a sign, a point or an exponent. -/
def nat? : List Char → Option Nat
  | [] => none
  | cs => if cs.all Char.isDigit then some (Nat.ofDigitChars 10 cs 0) else none

end Json

end Mips
