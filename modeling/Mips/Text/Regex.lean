import Mips.Text.CharSet
/-!
# Regular expressions

Patterns for parts of a text.  A pattern is run on all places of a text at once: from the places
where it may start, `Regex.ends` computes the places where it may end.
-/

namespace Mips

/-- What has to hold at a place between two characters. -/
inductive Look where
  | textStart
  | textEnd
  | lineStart
  | lineEnd
  /-- The start of a line where a carriage return may end lines too. -/
  | lineStartReturn
  | lineEndReturn
  | wordBoundary
  | noWordBoundary
  | wordStart
  | wordEnd
  /-- No letter of a word stands before the place. -/
  | wordStartHalf
  | wordEndHalf
  deriving DecidableEq, Repr

inductive Regex where
  | empty
  | one (set : CharSet)
  | look (l : Look)
  | seq (a b : Regex)
  | alt (a b : Regex)
  /-- A pattern that is repeated between `least` and `most` times. -/
  | many (a : Regex) (least : Nat) (most : Option Nat)
  deriving DecidableEq, Repr

structure Place where
  before : Option Char
  after : Option Char
  deriving DecidableEq, Repr

def Place.all (text : List Char) : List Place :=
  List.zipWith Place.mk (none :: text.map some) (text.map some ++ [none])

def Look.holds (p : Place) : Look → Bool
  | textStart => p.before.isNone
  | textEnd => p.after.isNone
  | lineStart => p.before.isNone || p.before = some '\n'
  | lineEnd => p.after.isNone || p.after = some '\n'
  | lineStartReturn =>
    p.before.isNone || p.before = some '\n' || (p.before = some '\r' && p.after ≠ some '\n')
  | lineEndReturn =>
    p.after.isNone || p.after = some '\r' || (p.after = some '\n' && p.before ≠ some '\r')
  | wordBoundary => p.before.any CharSet.word.contains ≠ p.after.any CharSet.word.contains
  | noWordBoundary => p.before.any CharSet.word.contains = p.after.any CharSet.word.contains
  | wordStart => !p.before.any CharSet.word.contains && p.after.any CharSet.word.contains
  | wordEnd => p.before.any CharSet.word.contains && !p.after.any CharSet.word.contains
  | wordStartHalf => !p.before.any CharSet.word.contains
  | wordEndHalf => !p.after.any CharSet.word.contains

namespace Regex

/-- Some of the places of a text, marked in a list of all of them. -/
abbrev Marks := List Bool

def join (a b : Marks) : Marks := List.zipWith (· || ·) a b

/-- Applies a step a number of times, or until it changes nothing. -/
def iterate (step : Marks → Marks) : Nat → Marks → Marks
  | 0, marks => marks
  | n + 1, marks =>
    let next := step marks
    if next = marks then marks else iterate step n next

/-- All places that up to a number of steps lead to. -/
def reach (step : Marks → Marks) : Nat → Marks → Marks
  | 0, marks => marks
  | n + 1, marks =>
    let wider := join marks (step marks)
    if wider = marks then marks else reach step n wider

/-- All places that characters of a set lead to, where `carry` says whether one leads to the first
place. -/
def spread (set : CharSet) : Bool → List Char → Marks → Marks
  | _, _, [] => []
  | carry, [], mark :: marks => (mark || carry) :: marks
  | carry, c :: text, mark :: marks =>
    (mark || carry) :: spread set ((mark || carry) && set.contains c) text marks

/-- The places where a pattern may end if it starts at one of the marked places.  A pattern that is
repeated more often than the text has characters stands still at some place, so that it makes no
difference how much more often that is. -/
def ends (text : List Char) : Regex → Marks → Marks
  | empty, marks => marks
  | one set, marks => false :: List.zipWith (fun mark c => mark && set.contains c) marks text
  | look l, marks => List.zipWith (fun mark p => mark && l.holds p) marks (Place.all text)
  | seq a b, marks =>
    let marks := ends text a marks
    if marks.any id then ends text b marks else marks
  | alt a b, marks => join (ends text a marks) (ends text b marks)
  | many a least most, marks =>
    let enough := text.length + 1
    let marks := iterate (ends text a) (min least enough) marks
    match a, most with
    | one set, none => spread set false text marks
    | _, none => reach (ends text a) enough marks
    | _, some most => reach (ends text a) (min (most - least) enough) marks

def fits (r : Regex) (s : String) : Bool :=
  let text := s.toList
  (r.ends text (true :: text.map fun _ => true)).any id

/-- How much work a pattern is, where each repetition counts. -/
def weight : Regex → Nat
  | empty | one _ | look _ => 1
  | seq a b => a.weight + b.weight
  | alt a b => a.weight + b.weight + 1
  | many a least most => a.weight * max 1 (max least (most.getD 0)) + 1

end Regex

end Mips
