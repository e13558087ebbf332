import Mips.Memory.Basic
/-!
# Probed memory

A memory behind a probe.  The probe notes every access before it is made, and it can be told to
let all accesses to an address fail; an access that fails in this way does not reach the memory.
-/

namespace Mips

open Numeral

inductive Access where
  | read8 (a : Word)
  | read32 (a : Word)
  | write8 (a : Word) (b : Byte)
  | write32 (a w : Word)
  deriving DecidableEq, Repr

namespace Access

def address : Access → Word
  | read8 a | read32 a | write8 a _ | write32 a _ => a

def text : Access → String
  | read8 a => "r8 " ++ hex32 a
  | read32 a => "r32 " ++ hex32 a
  | write8 a b => "w8 " ++ hex32 a ++ " 0x" ++ hex 2 b.toNat
  | write32 a w => "w32 " ++ hex32 a ++ " " ++ hex32 w

end Access

structure Probe (μ : Type) where
  memory : μ
  accesses : Array Access := #[]
  faults : List (Word × Fault) := []

namespace Probe

variable {μ : Type}

def inject (p : Probe μ) (a : Word) (f : Fault) : Probe μ :=
  { p with faults := (a, f) :: p.faults }

/-- Lets an access through to the memory, unless a fault was injected at its address. -/
def pass {α : Type} (p : Probe μ) (access : Access) (run : μ → Except Fault α × μ) :
    Except Fault α × Probe μ :=
  let noted := { p with accesses := p.accesses.push access }
  match p.faults.lookup access.address with
  | some f => (.error f, noted)
  | none =>
    let (result, memory) := run p.memory
    (result, { noted with memory })

instance [Memory μ] : Memory (Probe μ) where
  read8 p a := p.pass (.read8 a) (Memory.read8 · a)
  read32 p a := p.pass (.read32 a) (Memory.read32 · a)
  write8 p a b := p.pass (.write8 a b) (Memory.write8 · a b)
  write32 p a w := p.pass (.write32 a w) (Memory.write32 · a w)

end Probe

end Mips
