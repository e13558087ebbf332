import Mips.Instruction.Encoding
import Mips.Text.Numeral
/-!
# Assembly text

The assembly line of an instruction word: a mnemonic and a list of operands.  `Assembly.ofWord`
reads the operands off the fields of the word, and `Assembly.text` writes the line.  The all-zero
word has a mnemonic of its own.
-/

namespace Mips

inductive Operand where
  | reg (r : Reg)
  | float (r : Reg)
  | control (r : ControlReg)
  | amount (n : Fin 32)
  | signed (i : Half)
  | mask (i : Half)
  | address (a : Word)
  | memory (offset : Half) (base : Reg)
  | cacheOp (n : Fin 32)
  deriving DecidableEq, Repr

namespace Operand

open Numeral

def text : Operand → String
  | reg r => r.name
  | float r => "$f" ++ decimal r
  | control r => ControlReg.name r
  | amount n => decimal n
  | signed i => Numeral.signed i.toInt
  | mask i => "0x" ++ hex 4 i.toNat
  | address a => hex32 a
  | memory offset base => Numeral.signed offset.toInt ++ "(" ++ base.name ++ ")"
  | cacheOp n => "0x" ++ hex 2 n

end Operand

structure Assembly where
  mnemonic : String
  operands : List Operand
  deriving DecidableEq, Repr

namespace Assembly

/-- The operands of a word of the given opcode at `pc`, in the order in which they are written. -/
def operandsOf (op : Opcode) (w pc : Word) : List Operand :=
  match op with
  | .sll | .srl | .sra | .dsll | .dsrl | .dsra | .dsll32 | .dsrl32 | .dsra32 =>
    [.reg w.rd, .reg w.rt, .amount w.sa]
  | .sllv | .srlv | .srav | .dsllv | .dsrlv | .dsrav =>
    [.reg w.rd, .reg w.rt, .reg w.rs]
  | .jr | .mthi | .mtlo => [.reg w.rs]
  | .jalr => [.reg w.rd, .reg w.rs]
  | .mfhi | .mflo => [.reg w.rd]
  | .syscall | .brk | .sync => []
  | .mult | .multu | .div | .divu | .dmult | .dmultu | .ddiv | .ddivu
  | .tge | .tgeu | .tlt | .tltu | .teq | .tne =>
    [.reg w.rs, .reg w.rt]
  | .add | .addu | .sub | .subu | .and | .or | .xor | .nor | .slt | .sltu
  | .dadd | .daddu | .dsub | .dsubu =>
    [.reg w.rd, .reg w.rs, .reg w.rt]
  | .j | .jal => [.address (w.jumpTarget pc)]
  | .beq | .bne | .beql | .bnel => [.reg w.rs, .reg w.rt, .address (w.branchTarget pc)]
  | .blez | .bgtz | .blezl | .bgtzl | .bltz | .bgez | .bltzl | .bgezl
  | .bltzal | .bgezal | .bltzall | .bgezall =>
    [.reg w.rs, .address (w.branchTarget pc)]
  | .tgei | .tgeiu | .tlti | .tltiu | .teqi | .tnei => [.reg w.rs, .signed w.imm]
  | .addi | .addiu | .slti | .sltiu | .daddi | .daddiu =>
    [.reg w.rt, .reg w.rs, .signed w.imm]
  | .andi | .ori | .xori => [.reg w.rt, .reg w.rs, .mask w.imm]
  | .lui => [.reg w.rt, .mask w.imm]
  | .lb | .lh | .lwl | .lw | .lbu | .lhu | .lwr | .lwu | .ldl | .ldr | .ld | .ll | .lld
  | .sb | .sh | .swl | .sw | .sdl | .sdr | .swr | .sd | .sc | .scd =>
    [.reg w.rt, .memory w.imm w.rs]
  | .lwc1 | .ldc1 | .ldc2 | .swc1 | .sdc1 | .sdc2 => [.float w.rt, .memory w.imm w.rs]
  | .cache => [.cacheOp w.rt, .memory w.imm w.rs]
  | .mfc0 | .mtc0 => [.reg w.rt, .control w.rd]
  | .cop1 | .tlb | .unknown | .special | .regimm | .cop0 => [.address w]

def ofWord (w pc : Word) : Assembly :=
  if w = 0 then ⟨"nop", []⟩
  else
    let op := Opcode.decode w
    ⟨op.mnemonic, operandsOf op w pc⟩

def text (a : Assembly) : String :=
  match a.operands with
  | [] => a.mnemonic
  | ops => a.mnemonic ++ " " ++ ", ".intercalate (ops.map Operand.text)

end Assembly

def disassemble (w pc : Word) : String := (Assembly.ofWord w pc).text

end Mips
