import Mathlib.Algebra.Group.Int.Defs
import Mathlib.Algebra.Group.Nat.Defs
import Mips.Instruction.Encoding
/-!
# The fields of an instruction word

An instruction word is the number that its fields write down side by side.  Each field is said here
by arithmetic on that number, and so are the immediate operand with its sign and the index of an
absolute jump, which overlap other fields.
-/

namespace Mips.Word

/-- The number that stands in `width` bits of a word, from bit `low` on. -/
def bits (w : Word) (low width : Nat) : Nat := w.toNat / 2 ^ low % 2 ^ width

theorem bits_lt (w : Word) (low width : Nat) : w.bits low width < 2 ^ width :=
  Nat.mod_lt _ (Nat.two_pow_pos width)

theorem toNat_extractLsb' (w : Word) (low width : Nat) :
    (w.extractLsb' low width).toNat = w.bits low width := by
  rw [BitVec.extractLsb'_toNat, Nat.shiftRight_eq_div_pow, bits]

/-- A word is its six fields side by side; each is below its own bound, so that no other fields
make up the same word. -/
theorem toNat_eq_fields (w : Word) :
    w.toNat = w.major.val * 2 ^ 26 + w.rs.val * 2 ^ 21 + w.rt.val * 2 ^ 16 + w.rd.val * 2 ^ 11 +
      w.sa.val * 2 ^ 6 + w.funct.val := by
  have hlt : w.toNat < 2 ^ 32 := w.isLt
  simp only [major, rs, rt, rd, sa, funct, Nat.shiftRight_eq_div_pow]
  omega

theorem val_sa (w : Word) : w.sa.val = w.bits 6 5 := by
  change w.toNat >>> 6 % 32 = _
  rw [Nat.shiftRight_eq_div_pow]
  rfl

theorem toNat_imm (w : Word) : w.imm.toNat = w.bits 0 16 := w.toNat_extractLsb' 0 16

theorem toNat_index26 (w : Word) : w.index26.toNat = w.bits 0 26 := w.toNat_extractLsb' 0 26

/-- The lower half of a word as a signed number. -/
def immediate (w : Word) : Int :=
  if w.bits 0 16 < 2 ^ 15 then w.bits 0 16 else (w.bits 0 16 : Int) - 2 ^ 16

theorem toInt_imm (w : Word) : w.imm.toInt = w.immediate := by
  have hlt := w.bits_lt 0 16
  rw [BitVec.toInt_eq_toNat_cond, toNat_imm, immediate]
  split
  · rw [if_pos (by omega)]
  · rw [if_neg (by omega)]
    rfl

end Mips.Word
