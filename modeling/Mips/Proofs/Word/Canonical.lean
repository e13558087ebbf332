import Mips.Instruction.Encoding
/-!
# Sign-extended words

A doubleword is canonical if it is the sign extension of its low word.  On canonical doublewords
the operations and comparisons of the whole width are those of the low words.
-/

namespace Mips

/-- The doubleword repeats the sign of its low word. -/
def DWord.Canonical (d : DWord) : Prop := d = d.lo.sext

instance (d : DWord) : Decidable d.Canonical := inferInstanceAs (Decidable (_ = _))

theorem DWord.lo_signExtend {n : Nat} (x : BitVec n) :
    lo (x.signExtend 64) = x.signExtend 32 := by
  ext i hi
  have hi' : i < 64 := by omega
  rw [lo, BitVec.getElem_setWidth, BitVec.getLsbD_eq_getElem hi', BitVec.getElem_signExtend,
    BitVec.getElem_signExtend]

/-! ## Extensions -/

namespace Word

@[simp] theorem lo_sext (w : Word) : w.sext.lo = w := by
  rw [sext_eq_signExtend, DWord.lo_signExtend, BitVec.signExtend_eq]

theorem canonical_sext (w : Word) : w.sext.Canonical := by
  rw [DWord.Canonical, lo_sext]

theorem toInt_sext (w : Word) : w.sext.toInt = w.toInt := by
  rw [sext_eq_signExtend]
  exact BitVec.toInt_signExtend_of_le (by decide)

theorem sext_and (v w : Word) : (v &&& w).sext = v.sext &&& w.sext := by
  simp only [sext_eq_signExtend, BitVec.signExtend_and]

theorem sext_or (v w : Word) : (v ||| w).sext = v.sext ||| w.sext := by
  simp only [sext_eq_signExtend, BitVec.signExtend_or]

theorem sext_xor (v w : Word) : (v ^^^ w).sext = v.sext ^^^ w.sext := by
  simp only [sext_eq_signExtend, BitVec.signExtend_xor]

theorem sext_not (w : Word) : (~~~w).sext = ~~~w.sext := by
  simp only [sext_eq_signExtend, BitVec.signExtend_not (show 0 < 32 by decide)]

@[simp] theorem lo_zext (w : Word) : w.zext.lo = w := by
  rw [zext, DWord.lo, BitVec.setWidth_setWidth_of_le _ (by decide), BitVec.setWidth_eq]

theorem canonical_zext {w : Word} (hmsb : w.msb = false) : w.zext.Canonical := by
  rw [DWord.Canonical, lo_zext, sext_eq_signExtend,
    BitVec.signExtend_eq_setWidth_of_msb_false hmsb]
  rfl

theorem msb_setWidth {n : Nat} (x : BitVec n) (hn : n < 32) :
    (x.setWidth 32 : Word).msb = false := by
  rw [BitVec.msb_eq_getLsbD_last, BitVec.getLsbD_setWidth, BitVec.getLsbD_of_ge x 31 (by omega)]
  rfl

theorem canonical_zext_uimm (w : Word) : w.uimm.zext.Canonical :=
  canonical_zext (msb_setWidth w.imm (by decide))

theorem toInt_simm (w : Word) : w.simm.toInt = w.imm.toInt := by
  rw [simm_eq_signExtend]
  exact BitVec.toInt_signExtend_of_le (by decide)

end Word

namespace DWord

/-! ## Loaded bytes and truth values -/

theorem canonical_signExtend_byte (b : Byte) : Canonical (b.signExtend 64) := by
  rw [Canonical, lo_signExtend, Word.sext_eq_signExtend]
  apply BitVec.eq_of_toInt_eq
  rw [BitVec.toInt_signExtend_of_le (by decide), BitVec.toInt_signExtend_of_le (by decide),
    BitVec.toInt_signExtend_of_le (by decide)]

theorem setWidth_byte (b : Byte) : b.setWidth 64 = Word.zext (b.setWidth 32) := by
  have hb : b.toNat < 2 ^ 8 := b.isLt
  apply BitVec.eq_of_toNat_eq
  rw [Word.zext, BitVec.toNat_setWidth, BitVec.toNat_setWidth, BitVec.toNat_setWidth]
  omega

theorem canonical_setWidth_byte (b : Byte) : Canonical (b.setWidth 64) := by
  rw [setWidth_byte]
  exact Word.canonical_zext (Word.msb_setWidth b (by decide))

theorem canonical_ofBool (b : Bool) : Canonical (if b then 1 else 0) := by
  cases b <;> decide

/-! ## Bitwise operations -/

theorem lo_and (d e : DWord) : (d &&& e).lo = d.lo &&& e.lo := BitVec.setWidth_and

theorem lo_or (d e : DWord) : (d ||| e).lo = d.lo ||| e.lo := BitVec.setWidth_or

theorem lo_xor (d e : DWord) : (d ^^^ e).lo = d.lo ^^^ e.lo := BitVec.setWidth_xor

theorem lo_not (d : DWord) : (~~~d).lo = ~~~d.lo := BitVec.setWidth_not (by decide)

namespace Canonical

variable {d e : DWord}

theorem and (hd : d.Canonical) (he : e.Canonical) : (d &&& e).Canonical := by
  rw [Canonical, lo_and, Word.sext_and, ← hd, ← he]

theorem or (hd : d.Canonical) (he : e.Canonical) : (d ||| e).Canonical := by
  rw [Canonical, lo_or, Word.sext_or, ← hd, ← he]

theorem xor (hd : d.Canonical) (he : e.Canonical) : (d ^^^ e).Canonical := by
  rw [Canonical, lo_xor, Word.sext_xor, ← hd, ← he]

theorem not (hd : d.Canonical) : (~~~d).Canonical := by
  rw [Canonical, lo_not, Word.sext_not, ← hd]

/-! ## Comparisons -/

theorem toInt_eq (hd : d.Canonical) : d.toInt = d.lo.toInt := by
  have hsext : d.toInt = d.lo.sext.toInt := congrArg BitVec.toInt hd
  rw [hsext, Word.toInt_sext]

theorem slt (hd : d.Canonical) (he : e.Canonical) :
    d.slt e = decide (d.lo.toInt < e.lo.toInt) := by
  rw [BitVec.slt, hd.toInt_eq, he.toInt_eq]

theorem slt_zero (hd : d.Canonical) : d.slt 0 = decide (d.lo.toInt < 0) := by
  rw [← hd.toInt_eq]
  rfl

theorem sle_zero (hd : d.Canonical) : d.sle 0 = decide (d.lo.toInt ≤ 0) := by
  rw [← hd.toInt_eq]
  rfl

theorem eq_iff (hd : d.Canonical) (he : e.Canonical) : d = e ↔ d.lo = e.lo := by
  refine ⟨congrArg lo, fun hlo => ?_⟩
  rw [hd, he, hlo]

end Canonical

/-! ## Products -/

theorem lo_ofInt (z : Int) : lo (.ofInt 64 z) = .ofInt 32 z := by
  apply BitVec.eq_of_toNat_eq
  rw [lo, BitVec.toNat_setWidth, BitVec.toNat_ofInt, BitVec.toNat_ofInt]
  omega

theorem hi_ofInt (z : Int) : hi (.ofInt 64 z) = .ofInt 32 (z / 0x100000000) := by
  apply BitVec.eq_of_toNat_eq
  rw [hi, BitVec.extractLsb'_toNat, BitVec.toNat_ofInt, BitVec.toNat_ofInt,
    Nat.shiftRight_eq_div_pow]
  omega

theorem sext_mul_sext (v w : Word) : v.sext * w.sext = .ofInt 64 (v.toInt * w.toInt) := by
  rw [BitVec.ofInt_mul, Word.sext_eq_signExtend, Word.sext_eq_signExtend]
  rfl

end DWord

end Mips
