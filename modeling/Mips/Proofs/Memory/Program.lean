import Mips.Proofs.Memory.Flat
/-!
# Programs in memory

`Ram.Carries` says that the words of a program lie in main memory, one behind the other.  That is
how a program is loaded, and each of its words is then fetched from the address that it belongs to:
between the first and the last of them no address wraps around or leaves its segment.
-/

namespace Mips

namespace Ram

/-! ## Addresses of neighbours -/

theorem toNat_add_of_lt {a : Word} {d : Nat} (hd : offset a + d < 2 ^ 29) :
    (a + .ofNat 32 d).toNat = a.toNat + d := by
  have ha : a.toNat < 2 ^ 32 := a.isLt
  rw [offset_eq_mod] at hd
  rw [BitVec.toNat_add, BitVec.toNat_ofNat]
  omega

theorem offset_add_of_lt {a : Word} {d : Nat} (hd : offset a + d < 2 ^ 29) :
    offset (a + .ofNat 32 d) = offset a + d := by
  rw [offset_eq_mod, toNat_add_of_lt hd]
  rw [offset_eq_mod] at hd ⊢
  omega

theorem add_words_succ (a : Word) (k : Nat) :
    a + .ofNat 32 (4 * (k + 1)) = a + .ofNat 32 (4 * k) + 4 := by
  rw [Nat.mul_succ, BitVec.ofNat_add, ← BitVec.add_assoc]
  rfl

/-! ## Words in a row -/

/-- The words of a program lie in memory from an address on. -/
structure Carries (r : Ram) (a : Word) (program : List Word) : Prop where
  aligned : a.Aligned
  fits : offset a + 4 * program.length ≤ size
  words : ∀ k (hk : k < program.length), r.wordAt (offset a + 4 * k) = program[k]

namespace Carries

variable {r : Ram} {a : Word} {program : List Word}

theorem offset_add (hcarries : r.Carries a program) {k : Nat} (hk : k ≤ program.length) :
    offset (a + .ofNat 32 (4 * k)) = offset a + 4 * k := by
  have hfits := hcarries.fits
  have hsize : size = 2 ^ 23 := rfl
  exact offset_add_of_lt (by omega)

theorem toNat_add (hcarries : r.Carries a program) {k : Nat} (hk : k ≤ program.length) :
    (a + .ofNat 32 (4 * k)).toNat = a.toNat + 4 * k := by
  have hfits := hcarries.fits
  have hsize : size = 2 ^ 23 := rfl
  exact toNat_add_of_lt (by omega)

theorem read32 (hcarries : r.Carries a program) {k : Nat} (hk : k < program.length) :
    r.read32 (a + .ofNat 32 (4 * k)) = .ok program[k] := by
  have haligned : a.toNat % 4 = 0 := hcarries.aligned
  have hfits := hcarries.fits
  have hnext : (a + .ofNat 32 (4 * k)).toNat % 4 = 0 := by
    rw [hcarries.toNat_add (Nat.le_of_lt hk)]
    omega
  have hlocated : located 4 (a + .ofNat 32 (4 * k)) = .ok (offset a + 4 * k) := by
    rw [located, refusal?, hcarries.offset_add (Nat.le_of_lt hk),
      if_neg (Decidable.not_not.mpr hnext), if_neg (by omega)]
  rw [read32_eq, hlocated, ← hcarries.words k hk]
  rfl

end Carries

/-! ## Loading -/

theorem getElem?_flatMap_bytes (program : List Word) (k : Nat) {j : Nat} (hj : j < 4) :
    (program.flatMap Word.bytes)[4 * k + j]? = program[k]?.map (·.byte j) := by
  induction program generalizing k with
  | nil => rfl
  | cons w program ih =>
    rw [List.flatMap_cons]
    cases k with
    | zero =>
      have hfour : j = 0 ∨ j = 1 ∨ j = 2 ∨ j = 3 := by omega
      rcases hfour with rfl | rfl | rfl | rfl <;> rfl
    | succ k =>
      have hlength : w.bytes.length = 4 := rfl
      have hindex : 4 * (k + 1) + j - 4 = 4 * k + j := by omega
      rw [List.getElem?_append_right (by omega), hlength, hindex, ih, List.getElem?_cons_succ]

/-- The image of a program has the bytes of its words. -/
theorem contents_image (program : List Word) :
    FlatMemory.contents (image program) = program.flatMap Word.bytes := by
  have hself : UInt8.toBitVec ∘ UInt8.ofBitVec = id := rfl
  rw [FlatMemory.contents, image, List.data_toByteArray, List.toList_toArray, List.map_map, hself,
    List.map_id]

theorem size_image (program : List Word) : (image program).size = 4 * program.length := by
  rw [← FlatMemory.length_contents, contents_image]
  induction program with
  | nil => rfl
  | cons w program ih =>
    have hlength : w.bytes.length = 4 := rfl
    rw [List.flatMap_cons, List.length_append, hlength, ih, List.length_cons]
    omega

theorem carries_place (r : Ram) {a : Word} {program : List Word} (haligned : a.Aligned)
    (hfits : offset a + 4 * program.length ≤ size) :
    (r.place (offset a) (image program)).Carries a program := by
  refine ⟨haligned, hfits, fun k hk => ?_⟩
  have hholds : r.Holds r.byteAt := fun _ _ => rfl
  have hbyte (j : Nat) (hj : j < 4) :
      (r.place (offset a) (image program)).byteAt (offset a + 4 * k + j) = program[k].byte j := by
    have hlength : (FlatMemory.contents (image program)).length = 4 * program.length := by
      rw [FlatMemory.length_contents, size_image]
    have hindex : offset a + 4 * k + j - offset a = 4 * k + j := by omega
    rw [hholds.place (offset a) (image program) _ (by omega), FlatMemory.overwrite, hlength,
      if_pos (by omega), hindex, contents_image, List.getD_eq_getElem?_getD,
      getElem?_flatMap_bytes program k hj, List.getElem?_eq_getElem hk]
    rfl
  have hfirst := hbyte 0 (by decide)
  rw [Nat.add_zero] at hfirst
  rw [wordAt, hfirst, hbyte 1 (by decide), hbyte 2 (by decide), hbyte 3 (by decide),
    Word.ofBytes_byte]

end Ram

end Mips
