import Mathlib.Algebra.Group.Nat.Defs
import Mips.Word
/-!
# The bytes of a word

A word is the number that its bytes write down to the base 256, the most significant byte first.
-/

namespace Mips.Word

theorem byte_eq_ofNat (w : Word) (k : Nat) : w.byte k = .ofNat 8 (w.toNat / 256 ^ (3 - k)) := by
  have hpow : 2 ^ (8 * (3 - k)) = 256 ^ (3 - k) := Nat.pow_mul 2 8 (3 - k)
  apply BitVec.eq_of_toNat_eq
  rw [byte, BitVec.extractLsb'_toNat, Nat.shiftRight_eq_div_pow, hpow, BitVec.toNat_ofNat]

private theorem toNat_append_byte {n : Nat} (x : BitVec n) (b : Byte) :
    (x ++ b).toNat = x.toNat * 2 ^ 8 + b.toNat := by
  rw [BitVec.toNat_append, Nat.shiftLeft_eq, Nat.mul_comm, ← Nat.two_pow_add_eq_or_of_lt b.isLt]

theorem ofBytes_eq_ofNat (b₀ b₁ b₂ b₃ : Byte) :
    ofBytes b₀ b₁ b₂ b₃ =
      .ofNat 32 (b₀.toNat * 2 ^ 24 + b₁.toNat * 2 ^ 16 + b₂.toNat * 2 ^ 8 + b₃.toNat) := by
  have hnat : (ofBytes b₀ b₁ b₂ b₃).toNat =
      b₀.toNat * 2 ^ 24 + b₁.toNat * 2 ^ 16 + b₂.toNat * 2 ^ 8 + b₃.toNat := by
    rw [ofBytes, toNat_append_byte, toNat_append_byte, toNat_append_byte]
    omega
  rw [← hnat, BitVec.ofNat_toNat, BitVec.setWidth_eq]

theorem byte_setByte (w : Word) (b : Byte) {j k : Nat} (hj : j < 4) (hk : k < 4) :
    (w.setByte k b).byte j = if k = j then b else w.byte j := by
  have hfour {i : Nat} (hi : i < 4) : i = 0 ∨ i = 1 ∨ i = 2 ∨ i = 3 := by omega
  rcases hfour hk with rfl | rfl | rfl | rfl <;> rcases hfour hj with rfl | rfl | rfl | rfl <;>
    simp [setByte]

end Mips.Word
