import Mips.Text.Blank
import Mips.Text.Numeral
import Mips.Text.Regex
/-!
# Escapes in regular expressions

What a backslash and the characters after it stand for.  Classes and letter cases of characters
beyond the ASCII range are not known, so a pattern that asks for them is no pattern; flags can
restrict it to ASCII.
-/

namespace Mips.Regex

structure Flags where
  anyCase : Bool := false
  multiLine : Bool := false
  dotAll : Bool := false
  /-- Whether a carriage return ends lines too. -/
  returns : Bool := false
  ascii : Bool := false
  /-- Whether white space and comments in the pattern count for nothing. -/
  verbose : Bool := false
  deriving DecidableEq, Repr

inductive Atom where
  | char (c : Char)
  | set (s : CharSet)
  | look (l : Look)
  deriving DecidableEq, Repr

def skip (f : Flags) (comment : Bool) : List Char → List Char
  | [] => []
  | c :: cs =>
    if !f.verbose then c :: cs
    else if comment then skip f (c ≠ '\n') cs
    else if c = '#' then skip f true cs
    else if Blank.isBlank c then skip f false cs
    else c :: cs

/-- A character by its number, in a fixed number of digits or in braces. -/
def numbered? (width : Nat) (cs : List Char) : Option (Char × List Char) := do
  let (digits, rest) ← match cs with
    | '\x7b' :: cs =>
      match cs.span (· ≠ '\x7d') with
      | (digits, _ :: rest) => if digits = [] then none else some (digits, rest)
      | (_, []) => none
    | cs => if cs.length < width then none else some (cs.take width, cs.drop width)
  let n ← Numeral.ofDigits? 16 digits
  if n.isValidChar then some (Char.ofNat n, rest) else none

def wordLook (cs : List Char) : Look × List Char :=
  let names : List (String × Look) := [
    ("\x7bstart\x7d", .wordStart), ("\x7bend\x7d", .wordEnd),
    ("\x7bstart-half\x7d", .wordStartHalf), ("\x7bend-half\x7d", .wordEndHalf)]
  match names.find? fun entry => entry.1.toList.isPrefixOf cs with
  | some (name, l) => (l, cs.drop name.length)
  | none => (.wordBoundary, cs)

def escape? (f : Flags) : List Char → Option (Atom × List Char)
  | [] => none
  | c :: cs =>
    let numbered (width : Nat) := (numbered? width cs).map fun (c, rest) => (Atom.char c, rest)
    let whenAscii (a : Atom) (rest : List Char) := if f.ascii then some (a, rest) else none
    match c with
    | 'x' => (numbered 2).filter fun (a, _) =>
      !f.ascii || cs.head? = some '\x7b' || match a with
        | .char c => c ≤ '\x7f'
        | _ => true
    | 'u' => numbered 4
    | 'U' => numbered 8
    | 'd' => whenAscii (.set .digit) cs
    | 's' => whenAscii (.set .space) cs
    | 'w' => whenAscii (.set .word) cs
    | 'b' => whenAscii (.look (wordLook cs).1) (wordLook cs).2
    | 'B' => whenAscii (.look .noWordBoundary) cs
    | '<' => whenAscii (.look .wordStart) cs
    | '>' => whenAscii (.look .wordEnd) cs
    | 'A' => some (.look .textStart, cs)
    | 'z' => some (.look .textEnd, cs)
    | 'a' => some (.char '\x07', cs)
    | 'f' => some (.char '\x0c', cs)
    | 't' => some (.char '\t', cs)
    | 'n' => some (.char '\n', cs)
    | 'r' => some (.char '\r', cs)
    | 'v' => some (.char '\x0b', cs)
    | c => if c ≤ '\x7f' ∧ !c.isAlphanum then some (.char c, cs) else none

end Mips.Regex
