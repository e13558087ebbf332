import Mips.Register
import Mips.Word
/-!
# Processor state

The registers of the processor and what it carries from one instruction to the next: the target of
a branch whose delay slot is still to be executed, and whether that slot is skipped.
-/

namespace Mips

structure Cpu where
  gpr : Vector DWord 32 := .replicate 32 0
  hi : DWord := 0
  lo : DWord := 0
  control : Vector Word 32 := .replicate 32 0
  /-- The address of the next instruction. -/
  pc : Word := 0
  /-- Where control goes after the next instruction, if a branch was scheduled. -/
  pending : Option Word := none
  /-- Whether the next word is skipped. -/
  annul : Bool := false
  halted : Bool := false
  /-- Why the last run ended before its budget. -/
  haltReason : Option String := none
  /-- The number of instructions retired since power-on. -/
  retired : BitVec 64 := 0
  /-- The word fetched last. -/
  current : Word := 0
  deriving DecidableEq, Repr

namespace Cpu

def reset : Cpu := {}

def reg (c : Cpu) (r : Reg) : DWord := c.gpr.get r

def controlReg (c : Cpu) (r : ControlReg) : Word := c.control.get r

def word (c : Cpu) (r : Reg) : Word := (c.reg r).lo

/-- Writes a general register; a write to register 0 is dropped. -/
def setReg (c : Cpu) (r : Reg) (d : DWord) : Cpu :=
  if r.val = 0 then c else { c with gpr := c.gpr.set r d r.isLt }

/-- Continues at an address; a scheduled branch is forgotten. -/
def setPc (c : Cpu) (a : Word) : Cpu := { c with pc := a, pending := none, annul := false }

/-- Schedules a branch; none if the target is not an address. -/
def scheduleBranch (c : Cpu) (target : Int) : Option Cpu :=
  if 0 ≤ target ∧ target ≤ 0xFFFFFFFF then some { c with pending := some (.ofInt 32 target) }
  else none

def requestHalt (c : Cpu) : Cpu := { c with halted := true }

/-- Forgets how the last run ended. -/
def resume (c : Cpu) : Cpu := { c with halted := false, haltReason := none }

def halt (c : Cpu) (reason : String) : Cpu := { c with halted := true, haltReason := some reason }

end Cpu

end Mips
