/-!
# Machine words

Bytes, words and doublewords are bit vectors.  A word is four bytes with the most significant
byte first: `Word.ofBytes` builds it and `Word.byte` takes it apart again.
-/

namespace Mips

abbrev Byte := BitVec 8
abbrev Half := BitVec 16
abbrev Word := BitVec 32
abbrev DWord := BitVec 64

def DWord.lo (d : DWord) : Word := d.setWidth 32

def DWord.hi (d : DWord) : Word := d.extractLsb' 32 32

namespace Word

/-- A word as the doubleword of the same signed value: the high word repeats the sign. -/
def sext (w : Word) : DWord := (if w.msb then .allOnes 32 else 0 : Word) ++ w

def zext (w : Word) : DWord := w.setWidth 64

/-- The word whose bytes are given from the most significant one on. -/
def ofBytes (b₀ b₁ b₂ b₃ : Byte) : Word := b₀ ++ b₁ ++ b₂ ++ b₃

/-- Byte `k` of a word, where byte 0 is the most significant one. -/
def byte (w : Word) (k : Nat) : Byte := w.extractLsb' (8 * (3 - k)) 8

def bytes (w : Word) : List Byte := [w.byte 0, w.byte 1, w.byte 2, w.byte 3]

def setByte (w : Word) (k : Nat) (b : Byte) : Word :=
  match k with
  | 0 => ofBytes b (w.byte 1) (w.byte 2) (w.byte 3)
  | 1 => ofBytes (w.byte 0) b (w.byte 2) (w.byte 3)
  | 2 => ofBytes (w.byte 0) (w.byte 1) b (w.byte 3)
  | _ => ofBytes (w.byte 0) (w.byte 1) (w.byte 2) b

def Aligned (w : Word) : Prop := w.toNat % 4 = 0

instance (w : Word) : Decidable w.Aligned := inferInstanceAs (Decidable (_ = _))

theorem sext_eq_signExtend (w : Word) : w.sext = w.signExtend 64 := by
  ext i hi
  rw [sext, BitVec.getElem_append, BitVec.getElem_signExtend]
  by_cases h : i < 32 <;> by_cases hm : w.msb <;> simp [h, hm, -BitVec.reduceAllOnes]

@[simp] theorem byte_zero_ofBytes (b₀ b₁ b₂ b₃ : Byte) : (ofBytes b₀ b₁ b₂ b₃).byte 0 = b₀ := by
  ext i hi
  simp only [byte, ofBytes, BitVec.getElem_extractLsb', BitVec.getLsbD_append]
  rw [if_neg (by omega), if_neg (by omega), if_neg (by omega),
    show 8 * (3 - 0) + i - 8 - 8 - 8 = i by omega, BitVec.getLsbD_eq_getElem hi]

@[simp] theorem byte_one_ofBytes (b₀ b₁ b₂ b₃ : Byte) : (ofBytes b₀ b₁ b₂ b₃).byte 1 = b₁ := by
  ext i hi
  simp only [byte, ofBytes, BitVec.getElem_extractLsb', BitVec.getLsbD_append]
  rw [if_neg (by omega), if_neg (by omega), if_pos (by omega),
    show 8 * (3 - 1) + i - 8 - 8 = i by omega, BitVec.getLsbD_eq_getElem hi]

@[simp] theorem byte_two_ofBytes (b₀ b₁ b₂ b₃ : Byte) : (ofBytes b₀ b₁ b₂ b₃).byte 2 = b₂ := by
  ext i hi
  simp only [byte, ofBytes, BitVec.getElem_extractLsb', BitVec.getLsbD_append]
  rw [if_neg (by omega), if_pos (by omega),
    show 8 * (3 - 2) + i - 8 = i by omega, BitVec.getLsbD_eq_getElem hi]

@[simp] theorem byte_three_ofBytes (b₀ b₁ b₂ b₃ : Byte) : (ofBytes b₀ b₁ b₂ b₃).byte 3 = b₃ := by
  ext i hi
  simp only [byte, ofBytes, BitVec.getElem_extractLsb', BitVec.getLsbD_append]
  rw [if_pos (by omega),
    show 8 * (3 - 3) + i = i by omega, BitVec.getLsbD_eq_getElem hi]

/-- A word is put together again from its own bytes. -/
@[simp] theorem ofBytes_byte (w : Word) :
    ofBytes (w.byte 0) (w.byte 1) (w.byte 2) (w.byte 3) = w := by
  apply BitVec.eq_of_getLsbD_eq
  intro i hi
  simp only [ofBytes, byte, BitVec.getLsbD_append, BitVec.getLsbD_extractLsb']
  repeat' split
  · simp [*]
  · rw [show 8 * (3 - 2) + (i - 8) = i by omega]
    simp
    omega
  · rw [show 8 * (3 - 1) + (i - 8 - 8) = i by omega]
    simp
    omega
  · rw [show 8 * (3 - 0) + (i - 8 - 8 - 8) = i by omega]
    simp
    omega

end Word

end Mips
