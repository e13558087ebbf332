import Mips.Cpu.Action
import Mips.Proofs.Word.Fields
/-!
# Jumps and branches

Which instructions may leave the sequential path, under which condition, to which address, and
where they put their return address.  Conditions and targets are said over integers; they read the
registers through a function and their operands from the bits of the instruction, without the
definitions that execute it.  `Cpu.action_of_leaves` is the bridge.
-/

namespace Mips

namespace Opcode

def isJump : Opcode → Bool
  | .j | .jal | .jr | .jalr => true
  | _ => false

def isLikely : Opcode → Bool
  | .beql | .bnel | .blezl | .bgtzl | .bltzl | .bgezl => true
  | _ => false

def isBranch : Opcode → Bool
  | .beq | .bne | .blez | .bgtz | .bltz | .bgez | .bltzal | .bgezal => true
  | op => op.isLikely

/-- Whether a conditional branch is taken, given the contents of its two registers.  The plain
comparisons of two registers look at the low words alone. -/
def condition (op : Opcode) (rs rt : DWord) : Bool :=
  match op with
  | .beq => rs.lo = rt.lo
  | .bne => rs.lo ≠ rt.lo
  | .beql => rs = rt
  | .bnel => rs ≠ rt
  | .blez | .blezl => rs.toInt ≤ 0
  | .bgtz | .bgtzl => 0 < rs.toInt
  | .bltz | .bltzl | .bltzal => rs.toInt < 0
  | .bgez | .bgezl | .bgezal => 0 ≤ rs.toInt
  | _ => false

def leaves (op : Opcode) : Bool := op.isJump || op.isBranch

end Opcode

namespace Word

def linkReg? (w : Word) : Option Reg :=
  match Opcode.decode w with
  | .jal | .bltzal | .bgezal => some .ra
  | .jalr => some w.rd
  | _ => none

/-- Whether the instruction leaves the sequential path, given the general registers. -/
def taken (w : Word) (regs : Reg → DWord) : Bool :=
  (Opcode.decode w).isJump || (Opcode.decode w).condition (regs w.rs) (regs w.rt)

def target (w pc : Word) (regs : Reg → DWord) : Word :=
  match Opcode.decode w with
  | .j | .jal => (pc &&& 0xF0000000) ||| .ofNat 32 (4 * w.bits 0 26)
  | .jr | .jalr => (regs w.rs).lo
  | _ => .ofInt 32 (pc.toNat + 4 + 4 * w.immediate)

def flow (w pc : Word) (regs : Reg → DWord) : Transfer :=
  if w.taken regs then .branch (w.target pc regs)
  else if (Opcode.decode w).isLikely then .skip
  else .next

theorem flow_of_stays {w : Word} (hstays : (Opcode.decode w).leaves = false) (pc : Word)
    (regs : Reg → DWord) : w.flow pc regs = .next := by
  unfold flow taken
  generalize Opcode.decode w = op at hstays ⊢
  cases op <;> first | rfl | exact absurd hstays (by decide)

/-! ## Targets as integers -/

theorem shiftLeft_two (x : Word) : x <<< 2 = 4 * x := by
  rw [BitVec.shiftLeft_eq_mul_twoPow, BitVec.mul_comm]
  rfl

theorem branchTarget_eq (w pc : Word) :
    w.branchTarget pc = .ofInt 32 (pc.toNat + 4 + 4 * w.immediate) := by
  rw [branchTarget, shiftLeft_two, simm_eq_signExtend, BitVec.signExtend, toInt_imm,
    BitVec.ofInt_add, BitVec.ofInt_add, BitVec.ofInt_mul, BitVec.ofInt_natCast,
    BitVec.ofNat_toNat, BitVec.setWidth_eq]
  rfl

theorem jumpTarget_eq (w pc : Word) :
    w.jumpTarget pc = (pc &&& 0xF0000000) ||| .ofNat 32 (4 * w.bits 0 26) := by
  rw [jumpTarget, shiftLeft_two, ← toNat_index26, BitVec.ofNat_mul, BitVec.ofNat_toNat]
  rfl

end Word

namespace Action

/-- The transfer of an instruction that retires; an access to memory never makes one. -/
def transfer : Action → Transfer
  | retire e => e.transfer
  | _ => .next

end Action

/-! ## Comparisons -/

theorem bne_eq_decide {n : Nat} (x y : BitVec n) : (x != y) = decide (x ≠ y) :=
  decide_not.symm

theorem DWord.not_sle_zero (d : DWord) : (!d.sle 0) = decide (0 < d.toInt) := by
  rw [BitVec.sle, ← decide_not]
  exact decide_eq_decide.mpr Int.not_le

theorem DWord.not_slt_zero (d : DWord) : (!d.slt 0) = decide (0 ≤ d.toInt) := by
  rw [BitVec.slt, ← decide_not]
  exact decide_eq_decide.mpr Int.not_lt

namespace Cpu

theorem branch_eq (c : Cpu) (w : Word) (taken : Bool) :
    c.branch w taken = { transfer := if taken then .branch (w.branchTarget c.pc) else .next } := by
  cases taken <;> rfl

theorem branchLikely_eq (c : Cpu) (w : Word) (taken : Bool) :
    c.branchLikely w taken =
      { transfer := if taken then .branch (w.branchTarget c.pc) else .skip } := by
  cases taken <;> rfl

theorem transfer_action_of_stays {c : Cpu} {w : Word}
    (hstays : (Opcode.decode w).leaves = false) : (c.action w).transfer = .next := by
  unfold action
  generalize Opcode.decode w = op at hstays ⊢
  cases op <;> try exact absurd hstays (by decide)
  case lw => dsimp only; split <;> rfl
  all_goals rfl

/-- An instruction that may leave the sequential path retires without an access to memory, writes
its return address if it links, and asks for the transfer that its registers call for. -/
theorem action_of_leaves {c : Cpu} {w : Word} (hleaves : (Opcode.decode w).leaves = true) :
    c.action w = .retire
      { write := w.linkReg?.map fun r => (r, (c.pc + 8).sext)
        transfer := w.flow c.pc c.reg } := by
  unfold action Word.linkReg? Word.flow Word.taken Word.target
  rw [← Word.branchTarget_eq, ← Word.jumpTarget_eq]
  generalize Opcode.decode w = op at hleaves ⊢
  cases op <;> try exact absurd hleaves (by decide)
  case j | jal | jr | jalr => rfl
  case beq | blez | bltz | bltzal => dsimp only; rw [branch_eq]; rfl
  case beql | blezl | bltzl => dsimp only; rw [branchLikely_eq]; rfl
  case bne => dsimp only; rw [branch_eq, bne_eq_decide]; rfl
  case bnel => dsimp only; rw [branchLikely_eq, bne_eq_decide]; rfl
  case bgtz => dsimp only; rw [branch_eq, DWord.not_sle_zero]; rfl
  case bgtzl => dsimp only; rw [branchLikely_eq, DWord.not_sle_zero]; rfl
  case bgez | bgezal => dsimp only; rw [branch_eq, DWord.not_slt_zero]; rfl
  case bgezl => dsimp only; rw [branchLikely_eq, DWord.not_slt_zero]; rfl

end Cpu

end Mips
