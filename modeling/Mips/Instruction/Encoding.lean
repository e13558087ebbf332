import Mips.Word
import Mips.Register
import Mips.Instruction.Opcode
/-!
# Instruction encodings

The fields of an instruction word and the four tables that give it its opcode.  Every word has an
opcode: an encoding that no table assigns is `Opcode.unknown`.
-/

namespace Mips

namespace Word

def major (w : Word) : Fin 64 := ⟨w.toNat >>> 26 % 64, Nat.mod_lt _ (by decide)⟩

def rs (w : Word) : Reg := ⟨w.toNat >>> 21 % 32, Nat.mod_lt _ (by decide)⟩

def rt (w : Word) : Reg := ⟨w.toNat >>> 16 % 32, Nat.mod_lt _ (by decide)⟩

def rd (w : Word) : Reg := ⟨w.toNat >>> 11 % 32, Nat.mod_lt _ (by decide)⟩

def sa (w : Word) : Fin 32 := ⟨w.toNat >>> 6 % 32, Nat.mod_lt _ (by decide)⟩

def funct (w : Word) : Fin 64 := ⟨w.toNat % 64, Nat.mod_lt _ (by decide)⟩

def imm (w : Word) : Half := w.extractLsb' 0 16

def simm (w : Word) : Word := (if w.imm.msb then .allOnes 16 else 0 : Half) ++ w.imm

def uimm (w : Word) : Word := w.imm.setWidth 32

def index26 (w : Word) : BitVec 26 := w.extractLsb' 0 26

theorem simm_eq_signExtend (w : Word) : w.simm = w.imm.signExtend 32 := by
  ext i hi
  rw [simm, BitVec.getElem_append, BitVec.getElem_signExtend]
  by_cases h : i < 16 <;> by_cases hm : w.imm.msb <;> simp [h, hm, -BitVec.reduceAllOnes]

/-- The target of a branch at `pc`: the offset counts words from the delay slot. -/
def branchTarget (w pc : Word) : Word := pc + 4 + w.simm <<< 2

/-- The target of an absolute jump at `pc`, which stays in the 256 MiB region of the jump. -/
def jumpTarget (w pc : Word) : Word := (pc &&& 0xF0000000) ||| w.index26.setWidth 32 <<< 2

end Word

namespace Opcode

def primaryTable : Vector Opcode 64 := #v[
  special, regimm, j, jal, beq, bne, blez, bgtz,
  addi, addiu, slti, sltiu, andi, ori, xori, lui,
  cop0, cop1, unknown, unknown, beql, bnel, blezl, bgtzl,
  daddi, daddiu, ldl, ldr, unknown, unknown, unknown, unknown,
  lb, lh, lwl, lw, lbu, lhu, lwr, lwu,
  sb, sh, swl, sw, sdl, sdr, swr, cache,
  ll, lwc1, unknown, unknown, lld, ldc1, ldc2, ld,
  sc, swc1, unknown, unknown, scd, sdc1, sdc2, sd]

def specialTable : Vector Opcode 64 := #v[
  sll, unknown, srl, sra, sllv, unknown, srlv, srav,
  jr, jalr, unknown, unknown, syscall, brk, unknown, sync,
  mfhi, mthi, mflo, mtlo, dsllv, unknown, dsrlv, dsrav,
  mult, multu, div, divu, dmult, dmultu, ddiv, ddivu,
  add, addu, sub, subu, and, or, xor, nor,
  unknown, unknown, slt, sltu, dadd, daddu, dsub, dsubu,
  tge, tgeu, tlt, tltu, teq, unknown, tne, unknown,
  dsll, unknown, dsrl, dsra, dsll32, unknown, dsrl32, dsra32]

def regimmTable : Vector Opcode 32 := #v[
  bltz, bgez, bltzl, bgezl, unknown, unknown, unknown, unknown,
  tgei, tgeiu, tlti, tltiu, teqi, unknown, tnei, unknown,
  bltzal, bgezal, bltzall, bgezall, unknown, unknown, unknown, unknown,
  unknown, unknown, unknown, unknown, unknown, unknown, unknown, unknown]

def cop0Table : Vector Opcode 32 := #v[
  mfc0, unknown, unknown, unknown, mtc0, unknown, unknown, unknown,
  unknown, unknown, unknown, unknown, unknown, unknown, unknown, unknown,
  tlb, unknown, unknown, unknown, unknown, unknown, unknown, unknown,
  unknown, unknown, unknown, unknown, unknown, unknown, unknown, unknown]

def decode (w : Word) : Opcode :=
  match primaryTable.get w.major with
  | special => specialTable.get w.funct
  | regimm => regimmTable.get w.rt
  | cop0 => cop0Table.get w.rs
  | op => op

end Opcode

end Mips
