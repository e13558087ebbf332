import Mathlib.Algebra.Group.Int.Defs
import Mips.Proofs.Machine.Footprint
import Mips.Proofs.Word.Canonical
/-!
# Products

A multiplication leaves the product of two signed words in the pair of product registers: its upper
half as a signed word in one, its lower half as an unsigned word in the other, each of them
sign-extended.  Nothing but the next multiplication changes them.
-/

namespace Mips

/-! ## The halves of a product -/

namespace Word

theorem toInt_mul_toInt_bounds (v w : Word) :
    -2 ^ 62 ≤ v.toInt * w.toInt ∧ v.toInt * w.toInt ≤ 2 ^ 62 :=
  ⟨BitVec.le_toInt_mul_toInt, BitVec.toInt_mul_toInt_le⟩

/-- Two words never have a product that is too large for a doubleword. -/
theorem smulOverflow_sext (v w : Word) : v.sext.smulOverflow w.sext = false := by
  obtain ⟨hlow, hhigh⟩ := toInt_mul_toInt_bounds v w
  rw [BitVec.smulOverflow, toInt_sext, toInt_sext, Bool.or_eq_false_iff, decide_eq_false_iff_not,
    decide_eq_false_iff_not]
  omega

/-- An integer that is small enough for two words, put together again from its halves. -/
theorem toInt_mul_add_toNat {p : Int} (hlow : -2 ^ 62 ≤ p) (hhigh : p ≤ 2 ^ 62) :
    (.ofInt 32 (p / 0x100000000) : Word).toInt * 2 ^ 32 + (.ofInt 32 p : Word).toNat = p := by
  have hupper : (.ofInt 32 (p / 0x100000000) : Word).toInt = p / 0x100000000 := by
    rw [BitVec.toInt_ofInt]
    apply Int.bmod_eq_of_le <;> omega
  have hlower : ((.ofInt 32 p : Word).toNat : Int) = p % 0x100000000 := by
    rw [BitVec.toNat_ofInt]
    omega
  rw [hupper, hlower]
  omega

end Word

namespace Cpu

theorem multiply_eq (v w : Word) :
    multiply v w =
      (Word.sext (.ofInt 32 (v.toInt * w.toInt / 0x100000000)),
        Word.sext (.ofInt 32 (v.toInt * w.toInt))) := by
  rw [multiply, DWord.sext_mul_sext, DWord.hi_ofInt, DWord.lo_ofInt]

end Cpu

/-! ## Multiplications -/

namespace Opcode

def multiplies : Opcode → Bool
  | .mult | .multu => true
  | _ => false

end Opcode

namespace Cpu

theorem action_of_multiplies {c : Cpu} {w : Word} (hmul : (Opcode.decode w).multiplies = true) :
    c.action w = .retire { product := some (multiply (c.word w.rs) (c.word w.rt)) } := by
  unfold action
  generalize Opcode.decode w = op at hmul ⊢
  cases op <;> first | rfl | cases hmul

theorem multiplies_of_footprint {c : Cpu} {w : Word}
    (hproduct : (c.action w).footprint.product = true) : (Opcode.decode w).multiplies = true := by
  obtain hidle | hfootprint := c.footprint_action w
  · rw [hidle] at hproduct
    cases hproduct
  · rw [hfootprint] at hproduct
    unfold footprint at hproduct
    generalize Opcode.decode w = op at hproduct ⊢
    cases op <;> first | rfl | cases hproduct

end Cpu

namespace Machine

variable {μ : Type} [Memory μ]

def Multiplies (m : Machine μ) : Prop :=
  ∃ w, m.fetch.1 = .ok w ∧ (Opcode.decode w).multiplies = true

/-- One step. -/
theorem product_step {m : Machine μ} (hidle : ¬ m.Multiplies) :
    m.step.2.cpu.hi = m.cpu.hi ∧ m.step.2.cpu.lo = m.cpu.lo := by
  obtain ⟨_, _, -, hstep⟩ | ⟨_, _, _, _, -, -, hstep⟩ | ⟨w, _, e, _, hfetch, hattempt, hstep⟩ :=
    m.step_cases
  · rw [hstep]
    exact ⟨rfl, rfl⟩
  · rw [hstep]
    exact ⟨rfl, rfl⟩
  · rw [hstep]
    by_contra hchange
    have hproduct : e.footprint.product = true :=
      Cpu.product_retire_of_ne (Decidable.not_and_iff_or_not.mp hchange)
    rw [(Action.yields_of_perform_ok hattempt).footprint_eq] at hproduct
    exact hidle ⟨w, congrArg Prod.fst hfetch, Cpu.multiplies_of_footprint hproduct⟩

/-- Any number of steps, by induction on it. -/
theorem product_steps {m : Machine μ} {n : Nat} (hidle : ∀ k < n, ¬ (m.steps k).Multiplies) :
    (m.steps n).cpu.hi = m.cpu.hi ∧ (m.steps n).cpu.lo = m.cpu.lo := by
  induction n with
  | zero => exact ⟨rfl, rfl⟩
  | succ n ih =>
    obtain ⟨hhi, hlo⟩ := ih fun k hk => hidle k (Nat.lt_succ_of_lt hk)
    obtain ⟨hhi', hlo'⟩ := product_step (hidle n (Nat.lt_succ_self n))
    rw [steps_succ]
    exact ⟨hhi'.trans hhi, hlo'.trans hlo⟩

/-- A product register as an instruction may ask for it. -/
theorem step_moves_product {m : Machine μ} {w : Word} {d : DWord} (hfetch : m.fetch.1 = .ok w)
    (haction : m.cpu.action w = .retire (.put w.rd d)) :
    m.step.1 = none ∧ (w.rd ≠ 0 → m.step.2.cpu.reg w.rd = d) := by
  rw [step_of_action_retire hfetch haction]
  refine ⟨rfl, fun hrd => ?_⟩
  exact (Cpu.reg_retire_put m.cpu w w.rd w.rd d).trans (if_pos ⟨rfl, hrd⟩)

/-- The product of the low words, as signed integers, is exact: it is calculated without overflow,
and the halves that are left in the product registers make it up.  However many instructions
follow, as long as none of them is a multiplication, a move from a product register copies what
the multiplication has left there. -/
theorem product_exact {m : Machine μ} {w : Word} (hfetch : m.fetch.1 = .ok w)
    (hmul : (Opcode.decode w).multiplies = true) :
    let s := m.cpu.word w.rs
    let t := m.cpu.word w.rt
    let m' := m.step.2
    s.sext.smulOverflow t.sext = false ∧ m.step.1 = none ∧
      m'.cpu.hi = m'.cpu.hi.lo.sext ∧ m'.cpu.lo = m'.cpu.lo.lo.sext ∧
      m'.cpu.hi.lo.toInt * 2 ^ 32 + m'.cpu.lo.lo.toNat = s.toInt * t.toInt ∧
      ∀ n v, (∀ k < n, ¬ (m'.steps k).Multiplies) → (m'.steps n).fetch.1 = .ok v →
        (Opcode.decode v = .mfhi → (m'.steps n).step.1 = none ∧
          (v.rd ≠ 0 → (m'.steps n).step.2.cpu.reg v.rd = m'.cpu.hi)) ∧
        (Opcode.decode v = .mflo → (m'.steps n).step.1 = none ∧
          (v.rd ≠ 0 → (m'.steps n).step.2.cpu.reg v.rd = m'.cpu.lo)) := by
  intro s t m'
  have hstep := step_of_action_retire hfetch (Cpu.action_of_multiplies hmul)
  obtain ⟨hlow, hhigh⟩ := Word.toInt_mul_toInt_bounds s t
  have hhi : m'.cpu.hi = Word.sext (.ofInt 32 (s.toInt * t.toInt / 0x100000000)) := by
    simp only [m', hstep, Cpu.retire_eq, Cpu.multiply_eq]
    rfl
  have hlo : m'.cpu.lo = Word.sext (.ofInt 32 (s.toInt * t.toInt)) := by
    simp only [m', hstep, Cpu.retire_eq, Cpu.multiply_eq]
    rfl
  refine ⟨Word.smulOverflow_sext s t, by rw [hstep], ?_, ?_, ?_, ?_⟩
  · rw [hhi, Word.lo_sext]
  · rw [hlo, Word.lo_sext]
  · rw [hhi, hlo, Word.lo_sext, Word.lo_sext]
    exact Word.toInt_mul_add_toNat hlow hhigh
  · intro n v hidle hfetch'
    obtain ⟨hkeptHi, hkeptLo⟩ := product_steps hidle
    constructor
    · intro hmfhi
      apply step_moves_product hfetch'
      simp only [Cpu.action, hmfhi, hkeptHi]
    · intro hmflo
      apply step_moves_product hfetch'
      simp only [Cpu.action, hmflo, hkeptLo]

/-- The square of the least word, and its upper half fetched after an instruction of another
kind. -/
def squared : Machine Ram where
  cpu := (Cpu.reset.setReg .v0 0x1234567880000000).setPc 0x80000000
  memory := (Ram.blank.setWord 0 0x00420018).setWord 8 0x00001810

theorem squared_exact :
    squared.step.1 = none ∧
      squared.step.2.cpu.hi.lo.toInt * 2 ^ 32 + squared.step.2.cpu.lo.lo.toNat = 2 ^ 62 ∧
      (squared.steps 3).cpu.reg 3 = squared.step.2.cpu.hi := by
  have hfetch : squared.fetch.1 = .ok 0x00420018 := rfl
  obtain ⟨-, hstep, -, -, hproduct, hlater⟩ := product_exact hfetch (by decide)
  have hidle : ∀ k < 1, ¬ (squared.step.2.steps k).Multiplies := by
    rintro k hk ⟨v, hv, hmul⟩
    obtain rfl : k = 0 := by omega
    obtain rfl : (0 : Word) = v := Except.ok.inj hv
    exact absurd hmul (by decide)
  obtain ⟨hmove, -⟩ := hlater 1 0x00001810 hidle rfl
  refine ⟨hstep, ?_, (hmove (by decide)).2 (by decide)⟩
  rw [hproduct]
  decide

end Machine

end Mips
