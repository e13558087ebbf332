/-!
# Sets of characters

Finite descriptions of sets of characters, such as a text pattern may have for one of its places.
-/

namespace Mips

inductive CharSet where
  | nothing
  /-- The characters from one to another. -/
  | range (lo hi : Char)
  | union (a b : CharSet)
  | inter (a b : CharSet)
  | diff (a b : CharSet)
  | compl (a : CharSet)
  /-- The characters of a set and those that differ from them only in their ASCII letter case. -/
  | anyCase (a : CharSet)
  deriving DecidableEq, Repr

namespace CharSet

def single (c : Char) : CharSet := range c c

def swapCase (c : Char) : Char := if c.isLower then c.toUpper else c.toLower

def contains : CharSet → Char → Bool
  | nothing, _ => false
  | range lo hi, c => lo ≤ c && c ≤ hi
  | union a b, c => a.contains c || b.contains c
  | inter a b, c => a.contains c && b.contains c
  | diff a b, c => a.contains c && !b.contains c
  | compl a, c => !a.contains c
  | anyCase a, c => a.contains c || a.contains (swapCase c)

def symmDiff (a b : CharSet) : CharSet := union (diff a b) (diff b a)

def ofRanges (rs : List (Char × Char)) : CharSet :=
  rs.foldr (fun (lo, hi) set => union (range lo hi) set) nothing

def lineFeed : CharSet := single '\n'

def digit : CharSet := range '0' '9'

def alpha : CharSet := ofRanges [('A', 'Z'), ('a', 'z')]

def alnum : CharSet := union digit alpha

def word : CharSet := union alnum (single '_')

def space : CharSet := ofRanges [('\t', '\r'), (' ', ' ')]

def named : List (String × CharSet) := [
  ("alnum", alnum),
  ("alpha", alpha),
  ("ascii", range '\x00' '\x7f'),
  ("blank", ofRanges [('\t', '\t'), (' ', ' ')]),
  ("cntrl", ofRanges [('\x00', '\x1f'), ('\x7f', '\x7f')]),
  ("digit", digit),
  ("graph", range '!' '~'),
  ("lower", range 'a' 'z'),
  ("print", range ' ' '~'),
  ("punct", ofRanges [('!', '/'), (':', '@'), ('[', '\x60'), ('\x7b', '~')]),
  ("space", space),
  ("upper", range 'A' 'Z'),
  ("word", word),
  ("xdigit", ofRanges [('0', '9'), ('A', 'F'), ('a', 'f')])]

theorem contains_single (c d : Char) : (single c).contains d = decide (c = d) := by
  simp only [single, contains]
  by_cases h : c = d
  · subst h; simp
  · have : ¬(c ≤ d ∧ d ≤ c) := fun ⟨h₁, h₂⟩ => h (Char.le_antisymm h₁ h₂)
    simpa [h] using this

end CharSet

end Mips
