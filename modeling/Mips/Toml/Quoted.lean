import Mips.Text.Numeral
/-!
# TOML strings

The four ways to write a string: on one line or on several, with escapes or without.  Each reader
starts after the opening quotes and answers with the string and the text after the closing quotes.
-/

namespace Mips.Toml

def isPlain (c : Char) : Bool := c = '\t' || (' ' ≤ c && c ≠ '\x7f')

namespace Quoted

def escape? : Char → Option Char
  | '"' => some '"'
  | '\\' => some '\\'
  | 'b' => some '\x08'
  | 'e' => some '\x1b'
  | 'f' => some '\x0c'
  | 'n' => some '\n'
  | 'r' => some '\r'
  | 't' => some '\t'
  | _ => none

def char? (digits : List Char) : Option Char := do
  let n ← Numeral.ofDigits? 16 digits
  if n.isValidChar then some (Char.ofNat n) else none

def push (c : Char) (read : List Char × List Char) : List Char × List Char := (c :: read.1, read.2)

def basic : List Char → Option (List Char × List Char)
  | [] => none
  | '"' :: rest => some ([], rest)
  | '\\' :: 'x' :: a :: b :: rest => do return push (← char? [a, b]) (← basic rest)
  | '\\' :: 'u' :: a :: b :: c :: d :: rest => do
    return push (← char? [a, b, c, d]) (← basic rest)
  | '\\' :: 'U' :: a :: b :: c :: d :: e :: f :: g :: h :: rest => do
    return push (← char? [a, b, c, d, e, f, g, h]) (← basic rest)
  | '\\' :: c :: rest => do return push (← escape? c) (← basic rest)
  | c :: rest => if c ≠ '\\' ∧ isPlain c then (basic rest).map (push c) else none

def literal : List Char → Option (List Char × List Char)
  | [] => none
  | '\'' :: rest => some ([], rest)
  | c :: rest => if isPlain c then (literal rest).map (push c) else none

inductive Position where
  /-- In the text. -/
  | within
  /-- Between a backslash and the end of its line. -/
  | atBackslash
  /-- In the white space that a backslash at the end of a line takes away. -/
  | folding
  deriving DecidableEq, Repr

/-- A string on several lines with escapes.  A backslash at the end of a line takes away all white
space up to the next character.  Up to two quotes may stand before the closing ones. -/
def basicLines : Position → List Char → Option (List Char × List Char)
  | _, [] => none
  | .atBackslash, ' ' :: rest | .atBackslash, '\t' :: rest => basicLines .atBackslash rest
  | .atBackslash, '\n' :: rest | .atBackslash, '\r' :: '\n' :: rest => basicLines .folding rest
  | .atBackslash, _ => none
  | .folding, ' ' :: rest | .folding, '\t' :: rest
  | .folding, '\n' :: rest | .folding, '\r' :: '\n' :: rest => basicLines .folding rest
  | _, '"' :: '"' :: '"' :: '"' :: '"' :: rest => some (['"', '"'], rest)
  | _, '"' :: '"' :: '"' :: '"' :: rest => some (['"'], rest)
  | _, '"' :: '"' :: '"' :: rest => some ([], rest)
  | _, '\\' :: 'x' :: a :: b :: rest => do
    return push (← char? [a, b]) (← basicLines .within rest)
  | _, '\\' :: 'u' :: a :: b :: c :: d :: rest => do
    return push (← char? [a, b, c, d]) (← basicLines .within rest)
  | _, '\\' :: 'U' :: a :: b :: c :: d :: e :: f :: g :: h :: rest => do
    return push (← char? [a, b, c, d, e, f, g, h]) (← basicLines .within rest)
  | _, '\\' :: c :: rest =>
    match escape? c with
    | some c => (basicLines .within rest).map (push c)
    | none => basicLines .atBackslash (c :: rest)
  | _, '\r' :: '\n' :: rest => (basicLines .within rest).map fun s => push '\r' (push '\n' s)
  | _, c :: rest =>
    if c = '\n' ∨ (c ≠ '\\' ∧ isPlain c) then (basicLines .within rest).map (push c) else none

def literalLines : List Char → Option (List Char × List Char)
  | [] => none
  | '\'' :: '\'' :: '\'' :: '\'' :: '\'' :: rest => some (['\'', '\''], rest)
  | '\'' :: '\'' :: '\'' :: '\'' :: rest => some (['\''], rest)
  | '\'' :: '\'' :: '\'' :: rest => some ([], rest)
  | '\r' :: '\n' :: rest => (literalLines rest).map fun s => push '\r' (push '\n' s)
  | c :: rest => if c = '\n' ∨ isPlain c then (literalLines rest).map (push c) else none

def dropLineEnd : List Char → List Char
  | '\n' :: rest => rest
  | '\r' :: '\n' :: rest => rest
  | cs => cs

/-- A string of any kind; none if the text does not start with a quote. -/
def read? : List Char → Option (List Char × List Char)
  | '"' :: '"' :: '"' :: rest => basicLines .within (dropLineEnd rest)
  | '"' :: rest => basic rest
  | '\'' :: '\'' :: '\'' :: rest => literalLines (dropLineEnd rest)
  | '\'' :: rest => literal rest
  | _ => none

end Quoted

end Mips.Toml
