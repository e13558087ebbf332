import Mips.Memory.Basic
import Mips.Proofs.Cpu.Retire
/-!
# A machine of 32 bits

The same instruction set on registers of one word.  Nothing is extended here: arithmetic wraps
around at 32 bits, and numbers are compared as signed words.
-/

namespace Mips

structure Cpu32 where
  gpr : Vector Word 32
  hi : Word
  lo : Word
  control : Vector Word 32
  pc : Word
  pending : Option Word
  deriving DecidableEq, Repr

namespace Cpu32

def reg (c : Cpu32) (r : Reg) : Word := c.gpr.get r

def setReg (c : Cpu32) (r : Reg) (v : Word) : Cpu32 :=
  { c with gpr := if r.val = 0 then c.gpr else c.gpr.setIfInBounds r v }

def setControl (c : Cpu32) (r : ControlReg) (v : Word) : Cpu32 :=
  { c with control := c.control.setIfInBounds r v }

def leave (c : Cpu32) (t : Transfer) : Cpu32 :=
  { c with pc := t.pcAfter c.pc c.pending, pending := t.pendingAfter c.pending }

/-! ## Instructions

The registers after an instruction, and the transfer that it asks for. -/

def put (c : Cpu32) (r : Reg) (v : Word) : Cpu32 × Transfer := (c.setReg r v, .next)

def branch (c : Cpu32) (w : Word) (taken : Bool) : Cpu32 × Transfer :=
  (c, if taken then .branch (w.branchTarget c.pc) else .next)

def branchLikely (c : Cpu32) (w : Word) (taken : Bool) : Cpu32 × Transfer :=
  (c, if taken then .branch (w.branchTarget c.pc) else .skip)

def link (r : Reg) (next : Cpu32 × Transfer) : Cpu32 × Transfer :=
  (next.1.setReg r (next.1.pc + 8), next.2)

def multiply (c : Cpu32) (v w : Word) : Cpu32 × Transfer :=
  let product := v.toInt * w.toInt
  ({ c with hi := .ofInt 32 (product / 0x100000000), lo := .ofInt 32 product }, .next)

variable {μ : Type} [Memory μ]

def load {α : Type} (c : Cpu32) (r : Reg) (extend : α → Word) (answer : Except Fault α × μ) :
    Except Fault (Cpu32 × Transfer) × μ :=
  (answer.1.map fun v => c.put r (extend v), answer.2)

def store (c : Cpu32) (answer : Except Fault Unit × μ) : Except Fault (Cpu32 × Transfer) × μ :=
  (answer.1.map fun _ => (c, .next), answer.2)

def execute (c : Cpu32) (w : Word) (memory : μ) : Except Fault (Cpu32 × Transfer) × μ :=
  let rs := c.reg w.rs
  let rt := c.reg w.rt
  let address := rs + w.simm
  match Opcode.decode w with
  | .sll => (.ok (c.put w.rd (rt <<< w.sa.val)), memory)
  | .srl => (.ok (c.put w.rd (rt >>> w.sa.val)), memory)
  | .sra => (.ok (c.put w.rd (rt.sshiftRight w.sa)), memory)
  | .sllv => (.ok (c.put w.rd (rt <<< (rs.toNat % 32))), memory)
  | .srlv => (.ok (c.put w.rd (rt >>> (rs.toNat % 32))), memory)
  | .srav => (.ok (c.put w.rd (rt.sshiftRight (rs.toNat % 32))), memory)
  | .add | .addu => (.ok (c.put w.rd (rs + rt)), memory)
  | .sub | .subu => (.ok (c.put w.rd (rs - rt)), memory)
  | .addi | .addiu => (.ok (c.put w.rt (rs + w.simm)), memory)
  | .slt | .sltu => (.ok (c.put w.rd (if rs.toInt < rt.toInt then 1 else 0)), memory)
  | .slti => (.ok (c.put w.rt (if rs.toInt < w.imm.toInt then 1 else 0)), memory)
  | .and => (.ok (c.put w.rd (rs &&& rt)), memory)
  | .or => (.ok (c.put w.rd (rs ||| rt)), memory)
  | .xor => (.ok (c.put w.rd (rs ^^^ rt)), memory)
  | .nor => (.ok (c.put w.rd (~~~(rs ||| rt))), memory)
  | .andi => (.ok (c.put w.rt (rs &&& w.uimm)), memory)
  | .ori => (.ok (c.put w.rt (rs ||| w.uimm)), memory)
  | .xori => (.ok (c.put w.rt (rs ^^^ w.uimm)), memory)
  | .lui => (.ok (c.put w.rt (w.uimm <<< 16)), memory)
  | .mult | .multu => (.ok (c.multiply rs rt), memory)
  | .mfhi => (.ok (c.put w.rd c.hi), memory)
  | .mflo => (.ok (c.put w.rd c.lo), memory)
  | .j => (.ok (c, .branch (w.jumpTarget c.pc)), memory)
  | .jal => (.ok (link .ra (c, .branch (w.jumpTarget c.pc))), memory)
  | .jr => (.ok (c, .branch rs), memory)
  | .jalr => (.ok (link w.rd (c, .branch rs)), memory)
  | .beq => (.ok (c.branch w (rs = rt)), memory)
  | .bne => (.ok (c.branch w (rs ≠ rt)), memory)
  | .blez => (.ok (c.branch w (rs.toInt ≤ 0)), memory)
  | .bgtz => (.ok (c.branch w (0 < rs.toInt)), memory)
  | .bltz => (.ok (c.branch w (rs.toInt < 0)), memory)
  | .bgez => (.ok (c.branch w (0 ≤ rs.toInt)), memory)
  | .beql => (.ok (c.branchLikely w (rs = rt)), memory)
  | .bnel => (.ok (c.branchLikely w (rs ≠ rt)), memory)
  | .blezl => (.ok (c.branchLikely w (rs.toInt ≤ 0)), memory)
  | .bgtzl => (.ok (c.branchLikely w (0 < rs.toInt)), memory)
  | .bltzl => (.ok (c.branchLikely w (rs.toInt < 0)), memory)
  | .bgezl => (.ok (c.branchLikely w (0 ≤ rs.toInt)), memory)
  | .bltzal => (.ok (link .ra (c.branch w (rs.toInt < 0))), memory)
  | .bgezal => (.ok (link .ra (c.branch w (0 ≤ rs.toInt))), memory)
  | .lb => c.load w.rt (·.signExtend 32) (Memory.read8 memory address)
  | .lbu => c.load w.rt (·.setWidth 32) (Memory.read8 memory address)
  | .lw =>
    -- A load into register 0 does not reach memory.
    if w.rt.val = 0 then (.ok (c, .next), memory)
    else c.load w.rt id (Memory.read32 memory address)
  | .lwu => c.load w.rt id (Memory.read32 memory address)
  | .sb => c.store (Memory.write8 memory address (rt.setWidth 8))
  | .sw => c.store (Memory.write32 memory address rt)
  | .cache => (.ok (c, .next), memory)
  | .mfc0 => (.ok (c.put w.rt (c.control.get w.rd)), memory)
  | .mtc0 => (.ok (c.setControl w.rd rt, .next), memory)
  | _ => (.error (.unimplemented c.pc w (disassemble w c.pc)), memory)

end Cpu32

structure Machine32 (μ : Type) where
  cpu : Cpu32
  memory : μ

namespace Machine32

variable {μ : Type} [Memory μ]

/-- One instruction; answers with the fault that prevented it, if there is one. -/
def step (m : Machine32 μ) : Option Fault × Machine32 μ :=
  match Memory.read32 m.memory m.cpu.pc with
  | (.error f, memory) => (some f, ⟨m.cpu, memory⟩)
  | (.ok w, memory) =>
    match m.cpu.execute w memory with
    | (.error f, memory) => (some f, ⟨m.cpu, memory⟩)
    | (.ok (cpu, transfer), memory) => (none, ⟨cpu.leave transfer, memory⟩)

def steps : Nat → Machine32 μ → Machine32 μ
  | 0, m => m
  | n + 1, m => steps n m.step.2

end Machine32

end Mips
