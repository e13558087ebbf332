import Mathlib.Data.Int.ModEq
import Mips.Proofs.Cpu.Lifetime
import Mips.Proofs.Word.Canonical
import Mips.Proofs.Word.Fields
/-!
# Calculations

What additions, shifts and comparisons calculate, over the integers.  A sum or a shift may leave
the range of signed words; then the result is the one integer of the range in its class modulo
`2 ^ 32`.  `Machine.step_calculates` says that a destination register receives this integer.
-/

namespace Mips

/-- A result: an integer itself, or an integer up to multiples of `2 ^ 32`. -/
inductive Calculation where
  | exact (x : Int)
  | wrapped (x : Int)
  deriving DecidableEq, Repr

namespace Calculation

def Gives : Calculation → Int → Prop
  | exact x, z => z = x
  | wrapped x, z => -2 ^ 31 ≤ z ∧ z < 2 ^ 31 ∧ z ≡ x [ZMOD 2 ^ 32]

def shiftLeft (v : Word) (n : Nat) : Calculation := wrapped (v.toNat * 2 ^ n)

def shiftRight (v : Word) (n : Nat) : Calculation := wrapped (v.toNat / 2 ^ n : Nat)

/-- A shift that fills with the sign: the quotient is rounded down. -/
def shiftRightSigned (v : Word) (n : Nat) : Calculation := exact (v.toInt / 2 ^ n)

def less (x y : Int) : Calculation := exact (if x < y then 1 else 0)

end Calculation

/-- The calculation that an instruction makes from the registers, and where its result goes.
Comparisons look at whole registers, everything else at their low words.  A fixed shift has its
amount in bits 6 to 10 of the instruction, and an immediate form its operand in the lower half. -/
def Word.calculation? (w : Word) (regs : Reg → DWord) : Option (Reg × Calculation) :=
  let s := regs w.rs
  let t := regs w.rt
  match Opcode.decode w with
  | .add | .addu => some (w.rd, .wrapped (s.lo.toInt + t.lo.toInt))
  | .sub | .subu => some (w.rd, .wrapped (s.lo.toInt - t.lo.toInt))
  | .addi | .addiu => some (w.rt, .wrapped (s.lo.toInt + w.immediate))
  | .lui => some (w.rt, .wrapped (w.bits 0 16 * 2 ^ 16))
  | .sll => some (w.rd, .shiftLeft t.lo (w.bits 6 5))
  | .srl => some (w.rd, .shiftRight t.lo (w.bits 6 5))
  | .sra => some (w.rd, .shiftRightSigned t.lo (w.bits 6 5))
  | .sllv => some (w.rd, .shiftLeft t.lo (s.lo.toNat % 32))
  | .srlv => some (w.rd, .shiftRight t.lo (s.lo.toNat % 32))
  | .srav => some (w.rd, .shiftRightSigned t.lo (s.lo.toNat % 32))
  | .slt | .sltu => some (w.rd, .less s.toInt t.toInt)
  | .slti => some (w.rt, .less s.toInt w.immediate)
  | _ => none

/-! ## Results in registers -/

namespace DWord

/-- The doubleword is the result of a calculation, and the calculation has no other. -/
def Holds (d : DWord) (x : Calculation) : Prop := ∀ z, x.Gives z ↔ z = d.toInt

theorem holds_exact {d : DWord} {x : Int} (hd : d.toInt = x) : d.Holds (.exact x) := by
  intro z
  rw [hd]
  exact Iff.rfl

theorem holds_sext {v : Word} {x : Int} (hv : v.toInt ≡ x [ZMOD 2 ^ 32]) :
    v.sext.Holds (.wrapped x) := by
  intro z
  have hlow : -2 ^ 31 ≤ v.toInt := v.le_toInt
  have hhigh : v.toInt < 2 ^ 31 := v.toInt_lt
  rw [Word.toInt_sext]
  constructor
  · intro ⟨hzlow, hzhigh, hz⟩
    have hsame : z % 2 ^ 32 = v.toInt % 2 ^ 32 := hz.trans hv.symm
    omega
  · rintro rfl
    exact ⟨hlow, hhigh, hv⟩

theorem holds_less (x y : Int) :
    (if decide (x < y) then 1 else 0 : DWord).Holds (.less x y) := by
  apply holds_exact
  by_cases hlt : x < y
  · rw [decide_eq_true hlt, if_pos rfl, if_pos hlt]
    rfl
  · rw [decide_eq_false hlt, if_neg Bool.false_ne_true, if_neg hlt]
    rfl

end DWord

namespace Word

/-! ## Words up to multiples of `2 ^ 32` -/

theorem toInt_modEq_of_bmod {v : Word} {x : Int} (hv : v.toInt = x.bmod (2 ^ 32)) :
    v.toInt ≡ x [ZMOD 2 ^ 32] := by
  rw [hv]
  exact Int.bmod_emod

theorem toInt_modEq_toNat (v : Word) : v.toInt ≡ v.toNat [ZMOD 2 ^ 32] :=
  toInt_modEq_of_bmod v.toInt_eq_toNat_bmod

theorem toInt_shiftLeft_modEq (v : Word) (n : Nat) :
    (v <<< n).toInt ≡ v.toNat * 2 ^ n [ZMOD 2 ^ 32] := by
  have hnat : (v <<< n).toNat = v.toNat * 2 ^ n % 2 ^ 32 := by
    rw [BitVec.toNat_shiftLeft, Nat.shiftLeft_eq]
  calc (v <<< n).toInt
      ≡ (v <<< n).toNat [ZMOD 2 ^ 32] := toInt_modEq_toNat _
    _ ≡ v.toNat * 2 ^ n [ZMOD 2 ^ 32] := by
      rw [hnat]
      push_cast
      exact Int.mod_modEq _ _

theorem toInt_shiftRight_modEq (v : Word) (n : Nat) :
    (v >>> n).toInt ≡ (v.toNat / 2 ^ n : Nat) [ZMOD 2 ^ 32] := by
  rw [← Nat.shiftRight_eq_div_pow, ← BitVec.toNat_ushiftRight]
  exact toInt_modEq_toNat _

theorem toInt_sext_sshiftRight (v : Word) (n : Nat) :
    (sext (v.sshiftRight n)).toInt = v.toInt / 2 ^ n := by
  rw [toInt_sext, BitVec.toInt_sshiftRight, Int.shiftRight_eq_div_pow]
  push_cast
  rfl

theorem toNat_uimm (w : Word) : w.uimm.toNat = w.bits 0 16 := by
  have hlt := w.bits_lt 0 16
  rw [uimm, BitVec.toNat_setWidth, toNat_imm]
  omega

end Word

/-! ## Instructions -/

namespace Cpu

theorem action_of_calculation {c : Cpu} {w : Word} {r : Reg} {x : Calculation}
    (hcalc : w.calculation? c.reg = some (r, x)) :
    ∃ d : DWord, c.action w = .retire (.put r d) ∧ d.Holds x := by
  unfold Word.calculation? at hcalc
  unfold action
  generalize Opcode.decode w = op at hcalc ⊢
  cases op <;> cases hcalc
  case add | addu =>
    exact ⟨_, rfl, DWord.holds_sext (Word.toInt_modEq_of_bmod (BitVec.toInt_add _ _))⟩
  case sub | subu =>
    exact ⟨_, rfl, DWord.holds_sext (Word.toInt_modEq_of_bmod BitVec.toInt_sub)⟩
  case addi | addiu =>
    refine ⟨_, rfl, DWord.holds_sext ?_⟩
    rw [← w.toInt_imm, ← w.toInt_simm]
    exact Word.toInt_modEq_of_bmod (BitVec.toInt_add _ _)
  case lui =>
    refine ⟨_, rfl, DWord.holds_sext ?_⟩
    rw [← w.toNat_uimm]
    exact Word.toInt_shiftLeft_modEq w.uimm 16
  case sll =>
    rw [← w.val_sa]
    exact ⟨_, rfl, DWord.holds_sext (Word.toInt_shiftLeft_modEq _ _)⟩
  case srl =>
    rw [← w.val_sa]
    exact ⟨_, rfl, DWord.holds_sext (Word.toInt_shiftRight_modEq _ _)⟩
  case sra =>
    rw [← w.val_sa]
    exact ⟨_, rfl, DWord.holds_exact (Word.toInt_sext_sshiftRight _ _)⟩
  case sllv => exact ⟨_, rfl, DWord.holds_sext (Word.toInt_shiftLeft_modEq _ _)⟩
  case srlv => exact ⟨_, rfl, DWord.holds_sext (Word.toInt_shiftRight_modEq _ _)⟩
  case srav => exact ⟨_, rfl, DWord.holds_exact (Word.toInt_sext_sshiftRight _ _)⟩
  case slt | sltu => exact ⟨_, rfl, DWord.holds_less _ _⟩
  case slti =>
    refine ⟨_, rfl, ?_⟩
    rw [← w.toInt_imm, ← w.toInt_simm, ← Word.toInt_sext w.simm]
    exact DWord.holds_less _ _

end Cpu

namespace Machine

variable {μ : Type} [Memory μ]

/-- An arithmetic instruction, shift or comparison never fails once it has been fetched.  Its
destination then holds the result, also if the destination is a source; every other register keeps
its contents, and so does register 0, which is zero. -/
theorem step_calculates {m : Machine μ} {w : Word} {r : Reg} {x : Calculation}
    (hfetch : m.fetch.1 = .ok w) (hcalc : w.calculation? m.cpu.reg = some (r, x)) :
    m.step.1 = none ∧ (r ≠ 0 → (m.step.2.cpu.reg r).Holds x) ∧
      (∀ s, s ≠ r ∨ s = 0 → m.step.2.cpu.reg s = m.cpu.reg s) ∧
      (m.cpu.Reachable → m.step.2.cpu.reg 0 = 0) := by
  obtain ⟨d, haction, hd⟩ := Cpu.action_of_calculation hcalc
  have hstep := step_of_action_retire hfetch haction
  have hreg (s : Reg) : m.step.2.cpu.reg s = if r = s ∧ r ≠ 0 then d else m.cpu.reg s := by
    rw [hstep]
    exact Cpu.reg_retire_put m.cpu w r s d
  refine ⟨by rw [hstep], ?_, ?_, ?_⟩
  · intro hr
    rw [hreg, if_pos ⟨rfl, hr⟩]
    exact hd
  · intro s hs
    rw [hreg, if_neg]
    rintro ⟨rfl, hr⟩
    exact hs.elim (fun hne => hne rfl) hr
  · intro hreach
    rw [m.reg_zero_step]
    exact hreach.reg_zero

/-- Executes `w` on the least word, in a register with something above it, and on one. -/
def onLeastWord (w : Word) : Machine Ram where
  cpu := ((Cpu.reset.setReg .v0 0x1234567880000000).setReg .v1 1).setPc 0x80000000
  memory := Ram.blank.setWord 0 w

/-- A difference and a sum with a negative operand, which leave the range of signed words on the
same side, and a shift by four that keeps the sign. -/
theorem onLeastWord_calculates :
    let gives (w : Word) (z : Int) : Prop :=
      let m := onLeastWord w
      m.step.1 = none ∧ (m.step.2.cpu.reg 2).toInt = z ∧ m.step.2.cpu.reg 3 = 1 ∧
        m.step.2.cpu.reg 0 = 0
    gives 0x00431023 (2 ^ 31 - 1) ∧ gives 0x2442FFFF (2 ^ 31 - 1) ∧ gives 0x00021103 (-2 ^ 27) := by
  intro gives
  have hgives {w : Word} {x : Calculation} {z : Int} (hfetch : (onLeastWord w).fetch.1 = .ok w)
      (hcalc : w.calculation? (onLeastWord w).cpu.reg = some (2, x)) (hx : x.Gives z) :
      gives w z := by
    have hreach : (onLeastWord w).cpu.Reachable := .setPc _ (.setReg _ _ (.setReg _ _ .reset))
    obtain ⟨hstep, hresult, hrest, hzero⟩ := step_calculates hfetch hcalc
    refine ⟨hstep, ((hresult (by decide) z).mp hx).symm, ?_, hzero hreach⟩
    rw [hrest 3 (by decide)]
    rfl
  refine ⟨?_, ?_, ?_⟩
  · exact hgives (x := .wrapped (-2 ^ 31 - 1)) rfl (by decide) ⟨by decide, by decide, by decide⟩
  · exact hgives (x := .wrapped (-2 ^ 31 + -1)) rfl (by decide) ⟨by decide, by decide, by decide⟩
  · have hquotient : (-2 ^ 27 : Int) = -2 ^ 31 / 2 ^ 4 := by decide
    exact hgives (x := .exact (-2 ^ 31 / 2 ^ 4)) rfl (by decide) hquotient

end Machine

end Mips
