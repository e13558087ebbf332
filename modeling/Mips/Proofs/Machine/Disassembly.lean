import Mips.Memory.Ram
import Mips.Proofs.Instruction.Assembly
import Mips.Proofs.Machine.Step
/-!
# Assembly text determines what an instruction does

Two words with the same assembly text at an address have the same action there: an instruction uses
only those fields of its word that its text shows.
-/

namespace Mips

open Assembly

namespace Cpu

/-- The operands of the text are all that an action takes from its word besides the opcode. -/
theorem action_eq_of_operandsOf_eq (c : Cpu) {w v : Word}
    (hop : Opcode.decode w = Opcode.decode v)
    (hoperands : operandsOf (Opcode.decode v) w c.pc = operandsOf (Opcode.decode v) v c.pc) :
    c.action w = c.action v := by
  unfold action
  rw [hop]
  generalize Opcode.decode v = op at hoperands ⊢
  cases op <;>
    simp only [operandsOf, List.cons.injEq, Operand.reg.injEq, Operand.control.injEq,
      Operand.amount.injEq, Operand.signed.injEq, Operand.mask.injEq, Operand.address.injEq,
      Operand.memory.injEq, and_true] at hoperands
  case sll | srl | sra =>
    obtain ⟨hrd, hrt, hsa⟩ := hoperands
    simp only [hrd, hrt, hsa]
  case sllv | srlv | srav | add | addu | sub | subu | and | or | xor | nor | slt | sltu =>
    obtain ⟨hrd, hfirst, hsecond⟩ := hoperands
    simp only [hrd, hfirst, hsecond]
  case addi | addiu | slti =>
    obtain ⟨hrt, hrs, himm⟩ := hoperands
    simp only [hrt, hrs, Word.simm, himm]
  case andi | ori | xori =>
    obtain ⟨hrt, hrs, himm⟩ := hoperands
    simp only [hrt, hrs, Word.uimm, himm]
  case lui =>
    obtain ⟨hrt, himm⟩ := hoperands
    simp only [hrt, Word.uimm, himm]
  case mult | multu | jalr =>
    obtain ⟨hfirst, hsecond⟩ := hoperands
    simp only [hfirst, hsecond]
  case mfhi | mflo | jr => simp only [hoperands]
  case j | jal => simp only [hoperands]
  case beq | bne | beql | bnel =>
    obtain ⟨hrs, hrt, htarget⟩ := hoperands
    simp only [branch, branchLikely, hrs, hrt, htarget]
  case blez | bgtz | blezl | bgtzl | bltz | bgez | bltzl | bgezl | bltzal | bgezal =>
    obtain ⟨hrs, htarget⟩ := hoperands
    simp only [branch, branchLikely, hrs, htarget]
  case lb | lbu | lw | lwu | sb | sw =>
    obtain ⟨hrt, himm, hrs⟩ := hoperands
    simp only [effectiveAddress, Word.simm, hrt, himm, hrs]
  case mfc0 | mtc0 =>
    obtain ⟨hrt, hrd⟩ := hoperands
    simp only [hrt, hrd]
  all_goals rfl

theorem action_eq_of_disassemble_eq (c : Cpu) {w v : Word}
    (htext : disassemble w c.pc = disassemble v c.pc) : c.action w = c.action v := by
  have hline := ofWord_eq_of_disassemble_eq htext
  unfold ofWord at hline
  by_cases hw : w = 0 <;> by_cases hv : v = 0 <;>
    simp only [hw, hv, if_true, if_false, Assembly.mk.injEq] at hline
  · rw [hw, hv]
  · exact absurd hline.1.symm (Opcode.mnemonic_ne_nop _)
  · exact absurd hline.1 (Opcode.mnemonic_ne_nop _)
  · have hop := Opcode.mnemonic_inj hline.1
    rw [hop] at hline
    exact c.action_eq_of_operandsOf_eq hop hline.2

end Cpu

namespace Machine

variable {μ : Type} [Memory μ]

/-- The machine reports `w` as an instruction that it does not have, and leaves memory alone. -/
def Refuses (m : Machine μ) (w : Word) : Prop :=
  ∀ memory, m.attempt w memory =
    (.error (.unimplemented m.cpu.pc w (disassemble w m.cpu.pc)), memory)

/-- Words with the same assembly text are executed alike: they end in the same fault or the same
registers, with the same memory.  Within a step, where the report of a missing instruction shows
the word itself, either both are reported missing, or their attempts agree. -/
theorem execute_eq_of_disassemble_eq (m : Machine μ) {w v : Word}
    (htext : disassemble w m.cpu.pc = disassemble v m.cpu.pc) :
    m.execute w = m.execute v ∧
      ((m.Refuses w ∧ m.Refuses v) ∨ ∀ memory, m.attempt w memory = m.attempt v memory) := by
  have haction := m.cpu.action_eq_of_disassemble_eq htext
  refine ⟨by rw [execute, execute, haction], ?_⟩
  by_cases hrefuse : m.cpu.action v = .refuse
  · left
    constructor
    · intro memory
      rw [attempt, haction, hrefuse]
      rfl
    · intro memory
      rw [attempt, hrefuse]
      rfl
  · right
    intro memory
    rw [attempt, attempt, haction]
    exact Action.perform_of_ne_refuse hrefuse _ _ memory

/-- Two returns from a call, one of them with a shift amount that means nothing. -/
theorem return_execute_eq :
    let m : Machine Ram := ⟨{ Cpu.reset with pc := 0x80000000 }, .blank⟩
    (0x03E00008 : Word) ≠ 0x03E00048 ∧
      disassemble 0x03E00008 m.cpu.pc = disassemble 0x03E00048 m.cpu.pc ∧
      m.execute 0x03E00008 = m.execute 0x03E00048 := by
  intro m
  have htext : disassemble 0x03E00008 m.cpu.pc = disassemble 0x03E00048 m.cpu.pc := by decide
  exact ⟨by decide, htext, (execute_eq_of_disassemble_eq m htext).1⟩

end Machine

end Mips
