import Mips.Text.Regex.Escape
/-!
# Classes in regular expressions

The notation of sets of characters in brackets: characters, ranges, classes by name, further
brackets, and operators that join two sets.
-/

namespace Mips.Regex

def item? (f : Flags) : List Char → Option (Atom × List Char)
  | [] => none
  | '\\' :: cs => escape? f cs
  | c :: cs => some (.char c, cs)

/-- A character or a set of them that stands in a class; none if it is not ASCII but has to be. -/
def member? (f : Flags) : Atom → Option CharSet
  | .char c => if f.ascii ∧ '\x7f' < c then none else some (.single c)
  | .set s => some s
  | .look _ => none

def range? (f : Flags) : Atom → Atom → Option CharSet
  | .char lo, .char hi => if lo ≤ hi ∧ (f.ascii → hi ≤ '\x7f') then some (.range lo hi) else none
  | _, _ => none

def namedClass? (f : Flags) (cs : List Char) : Option (Option CharSet × List Char) :=
  match cs with
  | ':' :: cs =>
    let (negated, cs) := match cs with
      | '^' :: cs => (true, cs)
      | cs => (false, cs)
    match cs.span (· ≠ ':') with
    | (name, ':' :: ']' :: rest) =>
      (CharSet.named.lookup (String.ofList name)).map fun set =>
        (if !negated then some set else if f.ascii then none else some (.compl set), rest)
    | _ => none
  | _ => none

def dashes (f : Flags) (found : Nat) : List Char → Nat × List Char
  | [] => (found, [])
  | c :: cs =>
    if c = '-' then dashes f (found + 1) cs
    else if f.verbose && Blank.isBlank c then dashes f found cs
    else (found, c :: cs)

/-- What stands in a class, or on one side of an operator in it. -/
structure Operand where
  set : CharSet := .nothing
  /-- How many members there are. -/
  size : Nat := 0
  /-- How deep the members nest. -/
  inner : Nat := 0
  deriving DecidableEq, Repr

namespace Operand

/-- A union of several members is a level of its own. -/
def depth (o : Operand) : Nat := if o.size ≤ 1 then o.inner else o.inner + 1

def add (o : Operand) (set : CharSet) (depth : Nat) : Operand :=
  ⟨.union o.set set, o.size + 1, max o.inner depth⟩

/-- Joins two operands, whose letter cases count for nothing if the flags say so. -/
def combine (f : Flags) (op : CharSet → CharSet → CharSet) (a b : Operand) : Operand :=
  let fold (s : CharSet) : CharSet := if f.anyCase then s.anyCase else s
  ⟨op (fold a.set) (fold b.set), 1, max a.depth b.depth + 1⟩

end Operand

mutual

/-- The rest of a class, where `left` puts its last operand together with those before, and `o` is
what there is of the last operand. -/
def items? : Nat → Flags → (Operand → Operand) → Operand → List Char →
    Option (Operand × List Char)
  | 0, _, _, _, _ => none
  | fuel + 1, f, left, o, cs =>
    match skip f false cs with
    | ']' :: rest => some (left o, rest)
    | '[' :: rest => do
      match namedClass? f rest with
      | some (set, rest) => items? fuel f left (o.add (← set) 0) rest
      | none =>
        let (inner, rest) ← class? fuel f rest
        items? fuel f left (o.add inner.set inner.depth) rest
    | '&' :: '&' :: rest => items? fuel f ((left o).combine f .inter) {} rest
    | '-' :: '-' :: rest => items? fuel f ((left o).combine f .diff) {} rest
    | '~' :: '~' :: rest => items? fuel f ((left o).combine f .symmDiff) {} rest
    | cs => do
      let (first, rest) ← item? f cs
      let after : Option (List Char) := match skip f false rest with
        | '-' :: after =>
          let after := skip f false after
          if after.head? = some ']' ∨ after.head? = some '-' then none else some after
        | _ => none
      match after with
      | none => items? fuel f left (o.add (← member? f first) 0) rest
      | some after =>
        let (last, rest) ← item? f after
        items? fuel f left (o.add (← range? f first last) 0) rest

/-- A class after its opening bracket.  Dashes at its start and a closing bracket at its start
stand for themselves. -/
def class? : Nat → Flags → List Char → Option (Operand × List Char)
  | 0, _, _ => none
  | fuel + 1, f, cs => do
    let (negated, cs) := match skip f false cs with
      | '^' :: cs => (true, skip f false cs)
      | cs => (false, cs)
    let (start, cs) : Operand × List Char := match dashes f 0 cs with
      | (0, ']' :: cs) => ({ set := .single ']', size := 1 }, cs)
      | (0, cs) => ({}, cs)
      | (n, cs) => ({ set := .single '-', size := n }, cs)
    let (o, rest) ← items? fuel f id start cs
    if (f.anyCase ∧ !f.ascii) ∨ (negated ∧ f.ascii) then none
    else
      let set := if f.anyCase then o.set.anyCase else o.set
      return (⟨if negated then .compl set else set, 1, o.depth + 1⟩, rest)

end

end Mips.Regex
