import Mips.Text.Alphanumeric
import Mips.Text.Regex.Class
/-!
# Reading regular expressions

The notation of patterns: characters, classes, groups, alternatives and repetitions, and the flags
that change how the rest of a group is read.
-/

namespace Mips.Regex

/-! ## Repetitions and groups -/

def count? (cs : List Char) : Option (Nat × List Char) := do
  let (digits, rest) := (Blank.trimStart cs).span Char.isDigit
  let n ← if digits = [] then none else Numeral.ofDigits? 10 digits
  if n < 0x100000000 then some (n, Blank.trimStart rest) else none

def bounds? (cs : List Char) : Option ((Nat × Option Nat) × List Char) := do
  let (least, rest) ← count? cs
  match rest with
  | '\x7d' :: rest => return ((least, some least), rest)
  | ',' :: '\x7d' :: rest => return ((least, none), rest)
  | ',' :: rest =>
    match ← count? rest with
    | (most, '\x7d' :: rest) => if least ≤ most then some ((least, some most), rest) else none
    | _ => none
  | _ => none

/-- The bounds of a repetition, if one follows.  The question mark that may stand behind it makes
no difference to what fits. -/
def repetition? (f : Flags) (cs : List Char) : Option (Option ((Nat × Option Nat) × List Char)) :=
  let lazily : List Char → List Char
    | '?' :: cs => cs
    | cs => cs
  match cs with
  | '?' :: cs => some (some ((0, some 1), lazily cs))
  | '*' :: cs => some (some ((0, none), lazily cs))
  | '+' :: cs => some (some ((1, none), lazily cs))
  | '\x7b' :: cs => (bounds? cs).map fun (bounds, cs) => some (bounds, lazily (skip f false cs))
  | _ => some none

def Flags.switch? (f : Flags) (on : Bool) : Char → Option Flags
  | 'i' => some { f with anyCase := on }
  | 'm' => some { f with multiLine := on }
  | 's' => some { f with dotAll := on }
  | 'R' => some { f with returns := on }
  | 'u' => some { f with ascii := !on }
  | 'x' => some { f with verbose := on }
  | 'U' => some f
  | _ => none

/-- The flags at the start of a group, and the text from the colon or the closing parenthesis on.
No flag is given twice, and the ones after a dash are switched off. -/
def flags? (f : Flags) (seen : List Char) : List Char → Option (Flags × List Char)
  | [] => none
  | ':' :: cs => if seen.head? = some '-' then none else some (f, ':' :: cs)
  | ')' :: cs => if seen = [] ∨ seen.head? = some '-' then none else some (f, ')' :: cs)
  | c :: cs =>
    if c ∈ seen then none
    else if c = '-' then flags? f ('-' :: seen) cs
    else do flags? (← f.switch? ('-' ∉ seen) c) (c :: seen) cs

def name? (cs : List Char) : Option (List Char × List Char) :=
  match cs.span (· ≠ '>') with
  | (c :: name, _ :: rest) =>
    let isFirst := c = '_' || c.isAlpha || ('\x7f' < c && Alphanumeric.isAlphanumeric c)
    if isFirst && name.all fun c => c ∈ ['_', '.', '[', ']'] || Alphanumeric.isAlphanumeric c
    then some (c :: name, rest) else none
  | _ => none

inductive Opening where
  /-- A group whose pattern is read with the given flags, with a name or without. -/
  | group (f : Flags) (name : Option (List Char))
  /-- Flags for the rest of the group around it. -/
  | flags (f : Flags)
  deriving DecidableEq, Repr

def opening? (f : Flags) : List Char → Option (Opening × List Char)
  | '?' :: '<' :: '=' :: _ | '?' :: '<' :: '!' :: _ => none
  | '?' :: 'P' :: '<' :: cs | '?' :: '<' :: cs =>
    (name? cs).map fun (name, rest) => (.group f (some name), rest)
  | '?' :: cs => do
    match ← flags? f [] cs with
    | (f, ':' :: rest) => return (.group f none, rest)
    | (f, _ :: rest) => return (.flags f, rest)
    | _ => none
  | cs => some (.group f none, cs)

/-! ## Patterns -/

/-- The pattern of a character or an escape; none if its letter case is not known. -/
def ofAtom? (f : Flags) : Atom → Option Regex
  | .char c =>
    if !f.anyCase then some (.one (.single c))
    else if f.ascii then some (.one (.anyCase (.single c))) else none
  | .set s => some (.one s)
  | .look l => some (.look l)

def single? (f : Flags) : List Char → Option (Regex × List Char)
  | [] => none
  | '.' :: cs =>
    if f.ascii then none
    else
      let ends : CharSet := if f.returns then .union (.single '\n') (.single '\r') else .single '\n'
      some (.one (.compl (if f.dotAll then .nothing else ends)), cs)
  | '^' :: cs =>
    let l := if !f.multiLine then .textStart else if f.returns then .lineStartReturn else .lineStart
    some (.look l, cs)
  | '$' :: cs =>
    let l := if !f.multiLine then .textEnd else if f.returns then .lineEndReturn else .lineEnd
    some (.look l, cs)
  | cs => do
    let (a, rest) ← item? f cs
    return (← ofAtom? f a, rest)

structure Part where
  regex : Regex
  /-- How deep groups, classes, repetitions, sequences and alternatives nest. -/
  depth : Nat := 0
  /-- The names of the groups. -/
  groups : List (List Char) := []
  deriving DecidableEq, Repr

namespace Part

/-- Puts parts together by an operator; without any they are empty. -/
def combine (op : Regex → Regex → Regex) : List Part → Part
  | [] => { regex := .empty }
  | [p] => p
  | p :: ps =>
    let rest := combine op ps
    ⟨op p.regex rest.regex, max p.depth rest.depth, p.groups ++ rest.groups⟩

def deepen (p : Part) : Part := { p with depth := p.depth + 1 }

end Part

/-- The pieces of an alternative, the last one first.  Flags are pieces that cannot be repeated. -/
abbrev Draft := List (Option Part)

def Draft.whole (d : Draft) : Part :=
  let p := Part.combine .seq (d.filterMap id).reverse
  if d.length ≤ 1 then p else p.deepen

def Part.ofAlternatives : List Part → Part
  | [p] => p
  | ps => (Part.combine .alt ps).deepen

/-- The alternatives of a group up to its closing parenthesis or the end of the text, in addition
to `others`. -/
def body? : Nat → Flags → List Part → Draft → List Char → Option (Part × List Char)
  | 0, _, _, _, _ => none
  | fuel + 1, f, others, d, cs => do
    let cs := skip f false cs
    match ← repetition? f cs with
    | some ((least, most), rest) =>
      match d with
      | some last :: d =>
        let part := { last.deepen with regex := .many last.regex least most }
        body? fuel f others (some part :: d) rest
      | _ => none
    | none =>
      match cs with
      | [] | ')' :: _ => return (.ofAlternatives (d.whole :: others), cs)
      | '|' :: rest => body? fuel f (d.whole :: others) [] rest
      | '(' :: rest =>
        match ← opening? f (skip f false rest) with
        | (.flags f, rest) => body? fuel f others (none :: d) rest
        | (.group inner name, rest) =>
          match ← body? fuel inner [] [] rest with
          | (p, _ :: rest) =>
            let part := { p.deepen with groups := name.toList ++ p.groups }
            body? fuel f others (some part :: d) rest
          | (_, []) => none
      | '[' :: rest =>
        let (o, rest) ← class? fuel f rest
        body? fuel f others (some { regex := .one o.set, depth := o.depth } :: d) rest
      | cs =>
        let (r, rest) ← single? f cs
        body? fuel f others (some { regex := r } :: d) rest

def maxWeight : Nat := 0x50000

def maxDepth : Nat := 250

/-- The pattern that a text stands for; none if it stands for none.  No two groups have the same
name. -/
def ofText? (text : String) : Option Regex :=
  let cs := text.toList
  match body? (cs.length + 1) {} [] [] cs with
  | some (p, []) =>
    if p.regex.weight ≤ maxWeight ∧ p.depth ≤ maxDepth ∧ p.groups.eraseDups = p.groups
    then some p.regex else none
  | _ => none

end Mips.Regex
