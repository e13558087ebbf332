import Mips.Toml.Quoted
import Mips.Toml.Scalar
/-!
# TOML statements

A TOML document is a sequence of statements: assignments of a value to a key, and headers that say
to which table the following assignments belong.
-/

namespace Mips.Toml

inductive Statement where
  | assign (key : List Name) (v : Value)
  | header (path : List Name)
  /-- A header in double brackets. -/
  | nextHeader (path : List Name)
  deriving Repr

/-! ## Space between the parts of a statement -/

def isSpace (c : Char) : Bool := c = ' ' || c = '\t'

def skip (cs : List Char) : List Char := cs.dropWhile isSpace

def lineEnd? (cs : List Char) : Option (List Char) :=
  let cs := match skip cs with
    | '#' :: cs => cs.dropWhile isPlain
    | cs => cs
  match cs with
  | [] => some []
  | '\n' :: rest => some rest
  | '\r' :: '\n' :: rest => some rest
  | _ => none

/-- The text without the space, the line ends and the comments at its start.  A comment that is not
closed properly is not taken away. -/
def gap (comment : Bool) : List Char → List Char
  | [] => []
  | '\n' :: cs => gap false cs
  | '\r' :: '\n' :: cs => gap false cs
  | c :: cs =>
    if comment then if isPlain c then gap true cs else c :: cs
    else if c = '#' then gap true cs
    else if isSpace c then gap false cs
    else c :: cs

/-! ## Keys -/

def isBare (c : Char) : Bool := c.isAlphanum || c = '_' || c = '-'

def name? (cs : List Char) : Option (Name × List Char) :=
  match cs with
  | '"' :: rest => Quoted.basic rest
  | '\'' :: rest => Quoted.literal rest
  | cs =>
    match cs.span isBare with
    | ([], _) => none
    | (name, rest) => some (name, rest)

def key? : Nat → List Char → Option (List Name × List Char)
  | 0, _ => none
  | limit + 1, cs => do
    let (name, rest) ← name? (skip cs)
    match skip rest with
    | '.' :: rest =>
      let (names, rest) ← key? limit rest
      return (name :: names, rest)
    | rest => return ([name], rest)

def maxNames : Nat := 80

/-- A key and the equals sign after it, where `pass` passes over what may stand around the sign. -/
def assigned? (pass : List Char → List Char) (cs : List Char) : Option (List Name × List Char) := do
  let (key, rest) ← key? maxNames cs
  match pass rest with
  | '=' :: rest => return (key, pass rest)
  | _ => none

/-! ## Values -/

/-- Whether a character may stand in a scalar without quotes.  What such a scalar means is decided
when all of it is known. -/
def isScalar (c : Char) : Bool :=
  c ∉ ['=', ',', '[', ']', '\x7b', '\x7d', '#', ' ', '\t', '\r', '\n']

/-- The scalar without quotes in front of a text, and the text after it.  White space belongs to
the scalar if it goes on after it. -/
def word : List Char → List Char × List Char
  | [] => ([], [])
  | c :: cs =>
    if isScalar c then
      let (more, rest) := word cs
      (c :: more, rest)
    else if isSpace c && cs.head? ≠ some '"' && cs.head? ≠ some '\'' then
      match word cs with
      | ([], _) => ([], c :: cs)
      | (more, rest) => (c :: more, rest)
    else ([], c :: cs)

def maxDepth : Nat := 80

mutual

/-- A value in front of a text, and the text after it, where arrays and tables may be nested `depth`
deep. -/
def value? : Nat → Nat → List Char → Option (Value × List Char)
  | 0, _, _ => none
  | fuel + 1, depth, cs =>
    match cs, depth with
    | '[' :: _, 0 | '\x7b' :: _, 0 => none
    | '[' :: rest, depth + 1 => (items? fuel depth rest).map fun (vs, rest) => (.array vs, rest)
    | '\x7b' :: rest, depth + 1 =>
      (entries? fuel depth [] rest).map fun (t, rest) => (.table .inline t, rest)
    | '"' :: _, _ | '\'' :: _, _ => (Quoted.read? cs).map fun (s, rest) => (.text s, rest)
    | cs, _ =>
      let (word, rest) := word cs
      (scalar? word).map fun v => (v, rest)

/-- The items of an array up to its closing bracket.  A comma may follow the last item. -/
def items? : Nat → Nat → List Char → Option (List Value × List Char)
  | 0, _, _ => none
  | fuel + 1, depth, cs =>
    match gap false cs with
    | ']' :: rest => some ([], rest)
    | cs => do
      let (v, rest) ← value? fuel depth cs
      match gap false rest with
      | ',' :: rest =>
        let (vs, rest) ← items? fuel depth rest
        return (v :: vs, rest)
      | ']' :: rest => return ([v], rest)
      | _ => none

/-- The entries of a table up to its closing brace, in addition to those of `t`.  A comma may
follow the last entry. -/
def entries? : Nat → Nat → Table → List Char → Option (Table × List Char)
  | 0, _, _, _ => none
  | fuel + 1, depth, t, cs =>
    match gap false cs with
    | '\x7d' :: rest => some (t, rest)
    | cs => do
      let (key, rest) ← assigned? (gap false) cs
      let (v, rest) ← value? fuel depth rest
      let t ← t.assign v key
      match gap false rest with
      | ',' :: rest => entries? fuel depth t rest
      | '\x7d' :: rest => return (t, rest)
      | _ => none

end

/-! ## Statements -/

def statement? (cs : List Char) : Option (Statement × List Char) :=
  match cs with
  | '[' :: '[' :: rest =>
    match key? maxNames rest with
    | some (path, ']' :: ']' :: rest) => some (.nextHeader path, rest)
    | _ => none
  | '[' :: rest =>
    match key? maxNames rest with
    | some (path, ']' :: rest) => some (.header path, rest)
    | _ => none
  | cs => do
    let (key, rest) ← assigned? skip cs
    let (v, rest) ← value? (2 * rest.length + 2) maxDepth rest
    return (.assign key v, rest)

/-- The statements of a text.  Each line takes at least one character. -/
def statements? : Nat → List Char → Option (List Statement)
  | 0, _ => none
  | fuel + 1, cs =>
    match skip cs with
    | [] => some []
    | cs =>
      match lineEnd? cs with
      | some rest => statements? fuel rest
      | none => do
        let (s, rest) ← statement? cs
        let rest ← lineEnd? rest
        let ss ← statements? fuel rest
        return s :: ss

end Mips.Toml
