import Mathlib.Algebra.Group.Nat.Defs
import Mips.Memory.Trie
/-!
# Lemmas on binary tries

What each operation on a trie does to its entries, with indices compared in their low bits, and
that two tries with the same entries are equal.
-/

namespace Mips.Trie

variable {α : Type}

/-- The low `n + 1` bits of a number are its low `n` bits and bit `n`. -/
private theorem mod_two_pow_succ (i n : Nat) :
    i % 2 ^ (n + 1) = i % 2 ^ n + if i.testBit n then 2 ^ n else 0 := by
  rw [Nat.mod_pow_succ, Nat.testBit_eq_decide_div_mod_eq]
  rcases Nat.mod_two_eq_zero_or_one (i / 2 ^ n) with h | h <;> simp [h]

@[simp] theorem get_fill (a : α) (n i : Nat) : (fill a n).get i = a := by
  induction n with
  | zero => rfl
  | succ n ih => simp [fill, get, ih]

/-- Only the low bits of an index count. -/
theorem get_mod {n : Nat} (t : Trie α n) (i : Nat) : t.get (i % 2 ^ n) = t.get i := by
  have key : ∀ {m : Nat} (u : Trie α m) (k j : Nat), (∀ b < m, k.testBit b = j.testBit b) →
      u.get k = u.get j := by
    intro m u k j h
    induction u with
    | leaf a => rfl
    | @node m l r ihl ihr =>
      simp only [get, h m (Nat.lt_succ_self m), ihl fun b hb => h b (by omega),
        ihr fun b hb => h b (by omega)]
  exact key t _ _ fun b hb => by simp [Nat.testBit_mod_two_pow, hb]

theorem get_modify (f : α → α) {n : Nat} (t : Trie α n) (i j : Nat) :
    (t.modify f i).get j = if i % 2 ^ n = j % 2 ^ n then f (t.get j) else t.get j := by
  induction t with
  | leaf a => simp [modify, get, Nat.mod_one]
  | @node n l r ihl ihr =>
    have hi := mod_two_pow_succ i n
    have hj := mod_two_pow_succ j n
    have li : i % 2 ^ n < 2 ^ n := Nat.mod_lt _ (Nat.two_pow_pos n)
    have lj : j % 2 ^ n < 2 ^ n := Nat.mod_lt _ (Nat.two_pow_pos n)
    by_cases bi : i.testBit n <;> by_cases bj : j.testBit n <;>
      simp [bi, bj] at hi hj <;> simp [modify, get, bi, bj, ihl, ihr, hi, hj] <;> grind

theorem get_set {n : Nat} (t : Trie α n) (i j : Nat) (a : α) :
    (t.set i a).get j = if i % 2 ^ n = j % 2 ^ n then a else t.get j :=
  get_modify _ t i j

theorem get_mapRange (f : Nat → α → α) (lo hi : Nat) {n : Nat} (t : Trie α n) (base i : Nat) :
    (t.mapRange f lo hi base).get i =
      if lo ≤ base + i % 2 ^ n ∧ base + i % 2 ^ n < hi then f (base + i % 2 ^ n) (t.get i)
      else t.get i := by
  induction t generalizing base with
  | leaf a =>
    simp only [mapRange, Nat.pow_zero, Nat.mod_one, Nat.add_zero]
    split <;> simp [get]
  | @node n l r ihl ihr =>
    have hm := mod_two_pow_succ i n
    have hlt : i % 2 ^ (n + 1) < 2 ^ (n + 1) := Nat.mod_lt _ (Nat.two_pow_pos _)
    simp only [mapRange, Nat.one_shiftLeft]
    split
    · rw [if_neg (by omega)]
    · by_cases b : i.testBit n
      · rw [if_pos b] at hm
        simp [get, b, ihr, hm, Nat.add_assoc, Nat.add_comm (2 ^ n)]
      · rw [if_neg b] at hm
        simp [get, b, ihl, hm]

/-- Tries with the same entries are equal. -/
theorem ext_get {n : Nat} {s t : Trie α n} (h : ∀ i, s.get i = t.get i) : s = t := by
  induction s with
  | leaf a =>
    cases t with
    | leaf b => exact congrArg leaf (h 0)
  | @node n l r ihl ihr =>
    cases t with
    | node l' r' =>
      have low (i : Nat) : l.get i = l'.get i := by
        have hb : (i % 2 ^ n).testBit n = false :=
          Nat.testBit_lt_two_pow (Nat.mod_lt _ (Nat.two_pow_pos n))
        simpa [get, hb, get_mod] using h (i % 2 ^ n)
      have high (i : Nat) : r.get i = r'.get i := by
        have hb : (i % 2 ^ n + 2 ^ n).testBit n = true := by
          rw [Nat.testBit_eq_decide_div_mod_eq, Nat.add_div_right _ (Nat.two_pow_pos n),
            Nat.div_eq_of_lt (Nat.mod_lt _ (Nat.two_pow_pos n))]
          rfl
        have hi := h (i % 2 ^ n + 2 ^ n)
        simp only [get, hb, if_true] at hi
        rw [← get_mod r, ← get_mod r', Nat.add_mod_right, Nat.mod_mod, get_mod, get_mod] at hi
        exact hi
      rw [ihl low, ihr high]

end Mips.Trie
