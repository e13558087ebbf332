/-!
# Opcodes

The opcodes of the MIPS III instruction set, with their mnemonics.  `special`, `regimm` and `cop0`
stand only in the primary table, where they send decoding on to a second field; `unknown` is every
encoding without an instruction.
-/

namespace Mips

inductive Opcode where
  | special | regimm | cop0 | unknown
  | j | jal | beq | bne | blez | bgtz
  | addi | addiu | slti | sltiu | andi | ori | xori | lui
  | cop1 | beql | bnel | blezl | bgtzl
  | daddi | daddiu | ldl | ldr
  | lb | lh | lwl | lw | lbu | lhu | lwr | lwu
  | sb | sh | swl | sw | sdl | sdr | swr | cache
  | ll | lwc1 | lld | ldc1 | ldc2 | ld
  | sc | swc1 | scd | sdc1 | sdc2 | sd
  | sll | srl | sra | sllv | srlv | srav
  | jr | jalr | syscall | brk | sync
  | mfhi | mthi | mflo | mtlo | dsllv | dsrlv | dsrav
  | mult | multu | div | divu | dmult | dmultu | ddiv | ddivu
  | add | addu | sub | subu | and | or | xor | nor
  | slt | sltu | dadd | daddu | dsub | dsubu
  | tge | tgeu | tlt | tltu | teq | tne
  | dsll | dsrl | dsra | dsll32 | dsrl32 | dsra32
  | bltz | bgez | bltzl | bgezl
  | tgei | tgeiu | tlti | tltiu | teqi | tnei
  | bltzal | bgezal | bltzall | bgezall
  | mfc0 | mtc0 | tlb
  deriving DecidableEq, Repr, Inhabited

namespace Opcode

def all : List Opcode := [
  special, regimm, cop0, unknown,
  j, jal, beq, bne, blez, bgtz,
  addi, addiu, slti, sltiu, andi, ori, xori, lui,
  cop1, beql, bnel, blezl, bgtzl,
  daddi, daddiu, ldl, ldr,
  lb, lh, lwl, lw, lbu, lhu, lwr, lwu,
  sb, sh, swl, sw, sdl, sdr, swr, cache,
  ll, lwc1, lld, ldc1, ldc2, ld,
  sc, swc1, scd, sdc1, sdc2, sd,
  sll, srl, sra, sllv, srlv, srav,
  jr, jalr, syscall, brk, sync,
  mfhi, mthi, mflo, mtlo, dsllv, dsrlv, dsrav,
  mult, multu, div, divu, dmult, dmultu, ddiv, ddivu,
  add, addu, sub, subu, and, or, xor, nor,
  slt, sltu, dadd, daddu, dsub, dsubu,
  tge, tgeu, tlt, tltu, teq, tne,
  dsll, dsrl, dsra, dsll32, dsrl32, dsra32,
  bltz, bgez, bltzl, bgezl,
  tgei, tgeiu, tlti, tltiu, teqi, tnei,
  bltzal, bgezal, bltzall, bgezall,
  mfc0, mtc0, tlb]

def mnemonic : Opcode → String
  | special => "special" | regimm => "regimm" | cop0 => "cop0" | unknown => "unknown"
  | j => "j" | jal => "jal" | beq => "beq" | bne => "bne" | blez => "blez" | bgtz => "bgtz"
  | addi => "addi" | addiu => "addiu" | slti => "slti" | sltiu => "sltiu"
  | andi => "andi" | ori => "ori" | xori => "xori" | lui => "lui"
  | cop1 => "cop1" | beql => "beql" | bnel => "bnel" | blezl => "blezl" | bgtzl => "bgtzl"
  | daddi => "daddi" | daddiu => "daddiu" | ldl => "ldl" | ldr => "ldr"
  | lb => "lb" | lh => "lh" | lwl => "lwl" | lw => "lw"
  | lbu => "lbu" | lhu => "lhu" | lwr => "lwr" | lwu => "lwu"
  | sb => "sb" | sh => "sh" | swl => "swl" | sw => "sw"
  | sdl => "sdl" | sdr => "sdr" | swr => "swr" | cache => "cache"
  | ll => "ll" | lwc1 => "lwc1" | lld => "lld" | ldc1 => "ldc1" | ldc2 => "ldc2" | ld => "ld"
  | sc => "sc" | swc1 => "swc1" | scd => "scd" | sdc1 => "sdc1" | sdc2 => "sdc2" | sd => "sd"
  | sll => "sll" | srl => "srl" | sra => "sra" | sllv => "sllv" | srlv => "srlv" | srav => "srav"
  | jr => "jr" | jalr => "jalr" | syscall => "syscall" | brk => "break" | sync => "sync"
  | mfhi => "mfhi" | mthi => "mthi" | mflo => "mflo" | mtlo => "mtlo"
  | dsllv => "dsllv" | dsrlv => "dsrlv" | dsrav => "dsrav"
  | mult => "mult" | multu => "multu" | div => "div" | divu => "divu"
  | dmult => "dmult" | dmultu => "dmultu" | ddiv => "ddiv" | ddivu => "ddivu"
  | add => "add" | addu => "addu" | sub => "sub" | subu => "subu"
  | and => "and" | or => "or" | xor => "xor" | nor => "nor"
  | slt => "slt" | sltu => "sltu" | dadd => "dadd" | daddu => "daddu"
  | dsub => "dsub" | dsubu => "dsubu"
  | tge => "tge" | tgeu => "tgeu" | tlt => "tlt" | tltu => "tltu" | teq => "teq" | tne => "tne"
  | dsll => "dsll" | dsrl => "dsrl" | dsra => "dsra"
  | dsll32 => "dsll32" | dsrl32 => "dsrl32" | dsra32 => "dsra32"
  | bltz => "bltz" | bgez => "bgez" | bltzl => "bltzl" | bgezl => "bgezl"
  | tgei => "tgei" | tgeiu => "tgeiu" | tlti => "tlti" | tltiu => "tltiu"
  | teqi => "teqi" | tnei => "tnei"
  | bltzal => "bltzal" | bgezal => "bgezal" | bltzall => "bltzall" | bgezall => "bgezall"
  | mfc0 => "mfc0" | mtc0 => "mtc0" | tlb => "tlb"

/-- The name of an opcode in reports: its mnemonic with a capital letter, except that the
register-immediate class is spelled as two words. -/
def title : Opcode → String
  | regimm => "RegImm"
  | op => op.mnemonic.capitalize

def ofTitle? (s : String) : Option Opcode := all.find? fun op => op.title == s

end Opcode

end Mips
