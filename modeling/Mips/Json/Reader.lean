import Mips.Json.Value
/-!
# Reading JSON

A reader for JSON texts.  It follows the grammar strictly: no leading zeros, no comma before a
closing bracket, no control characters in a string, and nothing but white space around the value.
-/

namespace Mips.Json

def isSpace (c : Char) : Bool := c = ' ' || c = '\n' || c = '\t' || c = '\r'

def skip (cs : List Char) : List Char := cs.dropWhile isSpace

def digits (cs : List Char) : Option (List Char × List Char) :=
  match cs.span Char.isDigit with
  | ([], _) => none
  | (ds, rest) => some (ds, rest)

/-- The digits before the point: a zero alone, or digits that start with another one. -/
def whole : List Char → Option (List Char × List Char)
  | '0' :: rest => if rest.head?.any Char.isDigit then none else some (['0'], rest)
  | cs => digits cs

def fraction : List Char → Option (List Char × List Char)
  | '.' :: rest => (digits rest).map fun (ds, rest) => ('.' :: ds, rest)
  | cs => some ([], cs)

def exponent : List Char → Option (List Char × List Char)
  | c :: rest =>
    if c = 'e' ∨ c = 'E' then
      match rest with
      | '+' :: rest => (digits rest).map fun (ds, rest) => (c :: '+' :: ds, rest)
      | '-' :: rest => (digits rest).map fun (ds, rest) => (c :: '-' :: ds, rest)
      | rest => (digits rest).map fun (ds, rest) => (c :: ds, rest)
    else some ([], c :: rest)
  | [] => some ([], [])

def scanNumber (cs : List Char) : Option (List Char × List Char) := do
  let (sign, cs) := match cs with
    | '-' :: rest => (['-'], rest)
    | cs => ([], cs)
  let (ds, cs) ← whole cs
  let (point, cs) ← fraction cs
  let (power, cs) ← exponent cs
  return (sign ++ ds ++ point ++ power, cs)

/-- A string after its opening quote, as its spelling and the text after the closing quote. -/
def scanString : List Char → Option (List Char × List Char)
  | [] => none
  | '"' :: rest => some ([], rest)
  | '\\' :: 'u' :: a :: b :: c :: d :: rest => do
    let _ ← hexUnit? a b c d
    let (cs, rest) ← scanString rest
    return ('\\' :: 'u' :: a :: b :: c :: d :: cs, rest)
  | '\\' :: e :: rest => do
    let _ ← escape? e
    let (cs, rest) ← scanString rest
    return ('\\' :: e :: cs, rest)
  | c :: rest => do
    if c < ' ' ∨ c = '\\' then none
    let (cs, rest) ← scanString rest
    return (c :: cs, rest)

/-- The member name in front of a text, with the colon after it. -/
def scanName (cs : List Char) : Option (List Char × List Char) := do
  match skip cs with
  | '"' :: rest =>
    let (name, rest) ← scanString rest
    match skip rest with
    | ':' :: rest => return (name, rest)
    | _ => none
  | _ => none

mutual

def value : Nat → List Char → Option (Json × List Char)
  | 0, _ => none
  | fuel + 1, cs =>
    match skip cs with
    | 'n' :: 'u' :: 'l' :: 'l' :: rest => some (.null, rest)
    | 't' :: 'r' :: 'u' :: 'e' :: rest => some (.bool true, rest)
    | 'f' :: 'a' :: 'l' :: 's' :: 'e' :: rest => some (.bool false, rest)
    | '"' :: rest => (scanString rest).map fun (s, rest) => (.string s, rest)
    | '[' :: rest =>
      match skip rest with
      | ']' :: rest => some (.array [], rest)
      | rest => (items fuel rest).map fun (vs, rest) => (.array vs, rest)
    | '{' :: rest =>
      match skip rest with
      | '}' :: rest => some (.object [], rest)
      | rest => (members fuel rest).map fun (ms, rest) => (.object ms, rest)
    | cs => (scanNumber cs).map fun (n, rest) => (.number n, rest)

def items : Nat → List Char → Option (List Json × List Char)
  | 0, _ => none
  | fuel + 1, cs => do
    let (v, rest) ← value fuel cs
    match skip rest with
    | ']' :: rest => return ([v], rest)
    | ',' :: rest =>
      let (vs, rest) ← items fuel rest
      return (v :: vs, rest)
    | _ => none

def members : Nat → List Char → Option (List (List Char × Json) × List Char)
  | 0, _ => none
  | fuel + 1, cs => do
    let (name, rest) ← scanName cs
    let (v, rest) ← value fuel rest
    match skip rest with
    | '}' :: rest => return ([(name, v)], rest)
    | ',' :: rest =>
      let (ms, rest) ← members fuel rest
      return ((name, v) :: ms, rest)
    | _ => none

end

/-- The value of a whole text.  Each call of the reader takes at least one character for every two
units of fuel, so the fuel does not run out. -/
def read? (text : String) : Option Json := do
  let cs := text.toList
  let (v, rest) ← value (2 * cs.length + 2) cs
  if (skip rest).isEmpty then some v else none

end Mips.Json
