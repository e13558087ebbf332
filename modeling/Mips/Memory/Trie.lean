/-!
# Binary tries

A perfect binary tree of depth `n`, read as a table of `2 ^ n` values.  The index is an arbitrary
number of which the low `n` bits count, the highest of them at the root.  A trie of equal entries
shares all its nodes.
-/

namespace Mips

inductive Trie (α : Type) : Nat → Type where
  | leaf (a : α) : Trie α 0
  | node {n : Nat} (l r : Trie α n) : Trie α (n + 1)
  deriving DecidableEq

namespace Trie

variable {α : Type}

def fill (a : α) : (n : Nat) → Trie α n
  | 0 => leaf a
  | n + 1 => let t := fill a n; node t t

def get : {n : Nat} → Trie α n → Nat → α
  | 0, leaf a, _ => a
  | n + 1, node l r, i => if i.testBit n then r.get i else l.get i

def modify (f : α → α) : {n : Nat} → Trie α n → Nat → Trie α n
  | 0, leaf a, _ => leaf (f a)
  | n + 1, node l r, i =>
    if i.testBit n then node l (r.modify f i) else node (l.modify f i) r

def set {n : Nat} (t : Trie α n) (i : Nat) (a : α) : Trie α n := t.modify (fun _ => a) i

/-- Replaces every entry with an index from `lo` up to, but not including, `hi` by a function of
index and entry, where the first entry of the trie has the index `base`.  Subtries outside of the
range are kept as they are. -/
def mapRange (f : Nat → α → α) (lo hi : Nat) : {n : Nat} → Trie α n → (base : Nat) → Trie α n
  | 0, leaf a, base => if lo ≤ base ∧ base < hi then leaf (f base a) else leaf a
  | n + 1, node l r, base =>
    if hi ≤ base ∨ base + 1 <<< (n + 1) ≤ lo then node l r
    else node (l.mapRange f lo hi base) (r.mapRange f lo hi (base + 1 <<< n))

end Trie

end Mips
