import Mips.Cpu.State
/-!
# Snapshots

A snapshot is a copy of what a program can observe of the processor, for those who look at it from
outside.
-/

namespace Mips

structure Snapshot where
  gpr : Vector DWord 32
  control : Vector Word 32
  hi : DWord
  lo : DWord
  pc : Word
  pending : Option Word
  halted : Bool
  retired : BitVec 64
  deriving DecidableEq, Repr

def Cpu.snapshot (c : Cpu) : Snapshot where
  gpr := c.gpr
  control := c.control
  hi := c.hi
  lo := c.lo
  pc := c.pc
  pending := c.pending
  halted := c.halted
  retired := c.retired

end Mips
