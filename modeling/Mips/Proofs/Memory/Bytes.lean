import Mips.Memory.Ram
import Mips.Memory.Trie.Lemmas
import Mips.Proofs.Word.Bytes
/-!
# Main memory byte by byte

What each operation on main memory does to `Ram.byteAt`, and why an access is refused.  The words
that memory is kept in do not show here.
-/

namespace Mips.Ram

theorem offset_eq_mod (a : Word) : offset a = a.toNat % 2 ^ 29 := by
  have hmask : (0x1FFFFFFF : Word).toNat = 2 ^ 29 - 1 := by decide
  rw [offset, BitVec.toNat_and, hmask, Nat.and_two_pow_sub_one_eq_mod]

theorem offset_mod_four {a : Word} (haligned : a.Aligned) : offset a % 4 = 0 := by
  have h4 : a.toNat % 4 = 0 := haligned
  rw [offset_eq_mod]
  omega

/-! ## Refused accesses -/

/-- Why an access to `n` bytes at an address is refused.  Where it starts is looked at before
where it ends. -/
def refusal? (n : Nat) (a : Word) : Option Fault :=
  if a.toNat % n ≠ 0 then some (.unaligned a n)
  else if size < offset a + n then some (.invalidAccess a)
  else none

def located (n : Nat) (a : Word) : Except Fault Nat :=
  match refusal? n a with
  | some f => .error f
  | none => .ok (offset a)

theorem located_ok {n i : Nat} {a : Word} (hlocated : located n a = .ok i) :
    i = offset a ∧ a.toNat % n = 0 ∧ i + n ≤ size := by
  unfold located refusal? at hlocated
  by_cases haligned : a.toNat % n = 0
  · rw [if_neg (Decidable.not_not.mpr haligned)] at hlocated
    by_cases hfits : size < offset a + n
    · rw [if_pos hfits] at hlocated
      cases hlocated
    · rw [if_neg hfits] at hlocated
      cases hlocated
      exact ⟨rfl, haligned, Nat.le_of_not_lt hfits⟩
  · rw [if_pos haligned] at hlocated
    cases hlocated

theorem byteOffset_eq (a : Word) : byteOffset a = located 1 a := by
  unfold byteOffset located refusal?
  rw [Nat.mod_one, if_neg (Decidable.not_not.mpr rfl)]
  by_cases hfits : offset a + 1 ≤ size
  · rw [if_pos hfits, if_neg (Nat.not_lt.mpr hfits)]
  · rw [if_neg hfits, if_pos (Nat.lt_of_not_le hfits)]

theorem wordOffset_eq (a : Word) : wordOffset a = located 4 a := by
  unfold wordOffset located refusal? Word.Aligned
  by_cases haligned : a.toNat % 4 = 0
  · rw [if_neg (Decidable.not_not.mpr haligned), if_neg (Decidable.not_not.mpr haligned)]
    by_cases hfits : offset a + 4 ≤ size
    · rw [if_pos hfits, if_neg (Nat.not_lt.mpr hfits)]
    · rw [if_neg hfits, if_pos (Nat.lt_of_not_le hfits)]
  · rw [if_pos haligned, if_pos haligned]

/-! ## Words and their bytes -/

def wordAt (r : Ram) (i : Nat) : Word :=
  .ofBytes (r.byteAt i) (r.byteAt (i + 1)) (r.byteAt (i + 2)) (r.byteAt (i + 3))

theorem byteAt_of_aligned (r : Ram) {i k : Nat} (hi : i % 4 = 0) (hk : k < 4) :
    r.byteAt (i + k) = (r.words.get (i / 4)).byte k := by
  have hdiv : (i + k) / 4 = i / 4 := by omega
  have hmod : (i + k) % 4 = k := by omega
  rw [byteAt, hdiv, hmod]

theorem words_get_eq_wordAt (r : Ram) {i : Nat} (hi : i % 4 = 0) :
    r.words.get (i / 4) = r.wordAt i := by
  have hfirst := r.byteAt_of_aligned hi (show 0 < 4 by decide)
  rw [Nat.add_zero] at hfirst
  rw [wordAt, hfirst, byteAt_of_aligned r hi (by decide), byteAt_of_aligned r hi (by decide),
    byteAt_of_aligned r hi (by decide), Word.ofBytes_byte]

theorem read8_eq (r : Ram) (a : Word) : r.read8 a = (located 1 a).map r.byteAt := by
  rw [read8, byteOffset_eq]

theorem read32_eq (r : Ram) (a : Word) : r.read32 a = (located 4 a).map r.wordAt := by
  rw [read32, wordOffset_eq]
  cases hlocated : located 4 a with
  | error f => rfl
  | ok i =>
    obtain ⟨rfl, haligned, -⟩ := located_ok hlocated
    exact congrArg Except.ok (r.words_get_eq_wordAt (offset_mod_four haligned))

/-- Memories with the same bytes are equal. -/
theorem eq_of_byteAt {r r' : Ram} (hbytes : ∀ i < size, r.byteAt i = r'.byteAt i) : r = r' := by
  have hwords : r.words = r'.words := by
    apply Trie.ext_get
    intro k
    have hk : k % 2 ^ 21 < 2 ^ 21 := Nat.mod_lt k (by decide)
    have hsize : size = 4 * 2 ^ 21 := rfl
    have hdiv : 4 * (k % 2 ^ 21) / 4 = k % 2 ^ 21 := Nat.mul_div_cancel_left _ (by decide)
    have hword : r.wordAt (4 * (k % 2 ^ 21)) = r'.wordAt (4 * (k % 2 ^ 21)) := by
      rw [wordAt, wordAt, hbytes _ (by omega), hbytes _ (by omega), hbytes _ (by omega),
        hbytes _ (by omega)]
    rw [← words_get_eq_wordAt r (by omega), ← words_get_eq_wordAt r' (by omega), hdiv,
      Trie.get_mod, Trie.get_mod] at hword
    exact hword
  obtain ⟨words⟩ := r
  exact congrArg mk hwords

/-- Words are found under their numbers as long as these are in range. -/
private theorem number_mod {i : Nat} (hi : i < size) : i / 4 % 2 ^ 21 = i / 4 := by
  have hsize : size = 4 * 2 ^ 21 := rfl
  apply Nat.mod_eq_of_lt
  omega

/-! ## Operations -/

theorem byteAt_blank (i : Nat) : blank.byteAt i = 0 := by
  rw [byteAt, blank, Trie.get_fill, Word.byte_eq_ofNat]
  simp

theorem byteAt_setByte (r : Ram) (b : Byte) {i j : Nat} (hi : i < size) (hj : j < size) :
    (r.setByte i b).byteAt j = if i = j then b else r.byteAt j := by
  have hmod (k : Nat) : k % 4 < 4 := Nat.mod_lt k (by decide)
  rw [byteAt, setByte, Trie.get_modify, number_mod hi, number_mod hj]
  by_cases hword : i / 4 = j / 4
  · rw [if_pos hword, Word.byte_setByte _ _ (hmod j) (hmod i)]
    by_cases hbyte : i % 4 = j % 4
    · rw [if_pos hbyte, if_pos (by omega)]
    · rw [if_neg hbyte, if_neg (by omega)]
      rfl
  · rw [if_neg hword, if_neg (by omega)]
    rfl

theorem byteAt_setWord (r : Ram) (w : Word) {i j : Nat} (haligned : i % 4 = 0) (hi : i < size)
    (hj : j < size) :
    (r.setWord i w).byteAt j = if i ≤ j ∧ j < i + 4 then w.byte (j - i) else r.byteAt j := by
  rw [byteAt, setWord, Trie.get_set, number_mod hi, number_mod hj]
  by_cases hword : i / 4 = j / 4
  · have hmod : j % 4 = j - i := by omega
    rw [if_pos hword, if_pos (by omega), hmod]
  · rw [if_neg hword, if_neg (by omega)]
    rfl

/-- An image has no bytes before its start or after its end. -/
theorem placed_of_outside (image : ByteArray) {start i : Nat} (old : Byte)
    (houtside : ¬ (start ≤ i ∧ i < start + image.size)) : placed image start i old = old := by
  unfold placed
  split
  · next hstart =>
    have hnone : image[i - start]? = none := by
      rw [getElem?_eq_none_iff]
      omega
    rw [hnone]
  · rfl

theorem byteAt_place (r : Ram) (start : Nat) (image : ByteArray) {i : Nat} (hi : i < size) :
    (r.place start image).byteAt i = placed image start i (r.byteAt i) := by
  have hbyte (j : Nat) (w : Word) :
      (Word.ofBytes (placed image start (4 * j) (w.byte 0))
        (placed image start (4 * j + 1) (w.byte 1)) (placed image start (4 * j + 2) (w.byte 2))
        (placed image start (4 * j + 3) (w.byte 3))).byte (i % 4) =
      placed image start (4 * j + i % 4) (w.byte (i % 4)) := by
    have hfour : i % 4 = 0 ∨ i % 4 = 1 ∨ i % 4 = 2 ∨ i % 4 = 3 := by omega
    rcases hfour with h | h | h | h <;> rw [h] <;> simp
  have hindex : 4 * (i / 4) + i % 4 = i := Nat.div_add_mod i 4
  rw [byteAt, place, Trie.get_mapRange, number_mod hi, Nat.zero_add]
  split
  · rw [hbyte, hindex]
    rfl
  · next hrange =>
    rw [placed_of_outside]
    · rfl
    · omega

end Mips.Ram
