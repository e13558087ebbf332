import Mips.Cpu.State
import Mips.Instruction.Encoding
/-!
# What an instruction does

`Cpu.action` reads the operands of an instruction word from the state before it and says what has
to happen: either a set of register changes and a transfer of control, which together are an
`Effect`, or one access to memory, or nothing because the machine does not have the instruction.
An action is data; it is carried out elsewhere.
-/

namespace Mips

/-- Where control goes after an instruction, as the instruction itself sees it. -/
inductive Transfer where
  /-- On to the next word. -/
  | next
  /-- To `target`, after the instruction in the delay slot. -/
  | branch (target : Word)
  /-- On to the next word but one. -/
  | skip
  deriving DecidableEq, Repr

structure Effect where
  write : Option (Reg × DWord) := none
  /-- The new contents of the pair of product registers. -/
  product : Option (DWord × DWord) := none
  control : Option (ControlReg × Word) := none
  transfer : Transfer := .next
  deriving DecidableEq, Repr

inductive Action where
  | retire (e : Effect)
  | load8 (dst : Reg) (a : Word) (extend : Byte → DWord)
  | load32 (dst : Reg) (a : Word) (extend : Word → DWord)
  | store8 (a : Word) (b : Byte)
  | store32 (a w : Word)
  /-- The machine does not have the instruction. -/
  | refuse

namespace Effect

def put (r : Reg) (d : DWord) : Effect := { write := some (r, d) }

def putWord (r : Reg) (w : Word) : Effect := put r w.sext

def putBool (r : Reg) (b : Bool) : Effect := put r (if b then 1 else 0)

def jump (target : Word) : Effect := { transfer := .branch target }

/-- The address after the delay slot of an instruction at `pc` goes to a register. -/
def link (e : Effect) (r : Reg) (pc : Word) : Effect :=
  { e with write := some (r, (pc + 8).sext) }

end Effect

namespace Cpu

/-- The address of a load or store: the offset counts from the low word of the base register. -/
def effectiveAddress (c : Cpu) (w : Word) : Word := c.word w.rs + w.simm

/-- A branch that does nothing when it is not taken. -/
def branch (c : Cpu) (w : Word) (taken : Bool) : Effect :=
  if taken then .jump (w.branchTarget c.pc) else {}

/-- A branch that skips its delay slot when it is not taken. -/
def branchLikely (c : Cpu) (w : Word) (taken : Bool) : Effect :=
  if taken then .jump (w.branchTarget c.pc) else { transfer := .skip }

/-- The product of two words as signed numbers, in two sign-extended halves. -/
def multiply (a b : Word) : DWord × DWord :=
  let p := a.sext * b.sext
  (p.hi.sext, p.lo.sext)

/-- What the instruction word `w` does in the state `c`. -/
def action (c : Cpu) (w : Word) : Action :=
  let rs := c.reg w.rs
  let rt := c.reg w.rt
  match Opcode.decode w with
  | .sll => .retire (.putWord w.rd (rt.lo <<< w.sa.val))
  | .srl => .retire (.putWord w.rd (rt.lo >>> w.sa.val))
  | .sra => .retire (.putWord w.rd (rt.lo.sshiftRight w.sa))
  | .sllv => .retire (.putWord w.rd (rt.lo <<< (rs.lo.toNat % 32)))
  | .srlv => .retire (.putWord w.rd (rt.lo >>> (rs.lo.toNat % 32)))
  | .srav => .retire (.putWord w.rd (rt.lo.sshiftRight (rs.lo.toNat % 32)))
  | .add | .addu => .retire (.putWord w.rd (rs.lo + rt.lo))
  | .sub | .subu => .retire (.putWord w.rd (rs.lo - rt.lo))
  | .addi | .addiu => .retire (.putWord w.rt (rs.lo + w.simm))
  | .slt | .sltu => .retire (.putBool w.rd (rs.slt rt))
  | .slti => .retire (.putBool w.rt (rs.slt w.simm.sext))
  | .and => .retire (.put w.rd (rs &&& rt))
  | .or => .retire (.put w.rd (rs ||| rt))
  | .xor => .retire (.put w.rd (rs ^^^ rt))
  | .nor => .retire (.put w.rd (~~~(rs ||| rt)))
  | .andi => .retire (.put w.rt (rs &&& w.uimm.zext))
  | .ori => .retire (.put w.rt (rs ||| w.uimm.zext))
  | .xori => .retire (.put w.rt (rs ^^^ w.uimm.zext))
  | .lui => .retire (.putWord w.rt (w.uimm <<< 16))
  | .mult | .multu => .retire { product := some (multiply rs.lo rt.lo) }
  | .mfhi => .retire (.put w.rd c.hi)
  | .mflo => .retire (.put w.rd c.lo)
  | .j => .retire (.jump (w.jumpTarget c.pc))
  | .jal => .retire ((Effect.jump (w.jumpTarget c.pc)).link .ra c.pc)
  | .jr => .retire (.jump rs.lo)
  | .jalr => .retire ((Effect.jump rs.lo).link w.rd c.pc)
  | .beq => .retire (c.branch w (rs.lo == rt.lo))
  | .bne => .retire (c.branch w (rs.lo != rt.lo))
  | .blez => .retire (c.branch w (rs.sle 0))
  | .bgtz => .retire (c.branch w (!rs.sle 0))
  | .bltz => .retire (c.branch w (rs.slt 0))
  | .bgez => .retire (c.branch w (!rs.slt 0))
  | .beql => .retire (c.branchLikely w (rs == rt))
  | .bnel => .retire (c.branchLikely w (rs != rt))
  | .blezl => .retire (c.branchLikely w (rs.sle 0))
  | .bgtzl => .retire (c.branchLikely w (!rs.sle 0))
  | .bltzl => .retire (c.branchLikely w (rs.slt 0))
  | .bgezl => .retire (c.branchLikely w (!rs.slt 0))
  | .bltzal => .retire ((c.branch w (rs.slt 0)).link .ra c.pc)
  | .bgezal => .retire ((c.branch w (!rs.slt 0)).link .ra c.pc)
  | .lb => .load8 w.rt (c.effectiveAddress w) (·.signExtend 64)
  | .lbu => .load8 w.rt (c.effectiveAddress w) (·.setWidth 64)
  | .lw => if w.rt.val = 0 then .retire {} else .load32 w.rt (c.effectiveAddress w) Word.sext
  | .lwu => .load32 w.rt (c.effectiveAddress w) Word.zext
  | .sb => .store8 (c.effectiveAddress w) (rt.setWidth 8)
  | .sw => .store32 (c.effectiveAddress w) rt.lo
  | .cache => .retire {}
  | .mfc0 => .retire (.putWord w.rt (c.controlReg w.rd))
  | .mtc0 => .retire { control := some (w.rd, rt.lo) }
  | _ => .refuse

/-- Carries out the changes of an effect.  A transfer is only noted: it takes place when the
instruction after it retires, or when this one does if it skips a word. -/
def commit (c : Cpu) (e : Effect) : Cpu :=
  let c := match e.write with
    | some (r, d) => c.setReg r d
    | none => c
  let c := match e.product with
    | some (hi, lo) => { c with hi, lo }
    | none => c
  let c := match e.control with
    | some (r, w) => { c with control := c.control.set r w r.isLt }
    | none => c
  match e.transfer with
  | .next => c
  | .branch target => { c with pending := some target }
  | .skip => { c with annul := true }

/-- Moves on to the next instruction.  A branch that was `scheduled` before the current one takes
place now, whatever the current one has noted itself. -/
def advance (c : Cpu) (scheduled : Option Word) : Cpu :=
  let moved := match scheduled with
    | some target => { c with pc := target, pending := none }
    | none => { c with pc := if c.annul then c.pc + 8 else c.pc + 4 }
  { moved with annul := false, retired := c.retired + 1 }

end Cpu

end Mips
