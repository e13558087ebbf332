import Mips.Cpu.Action
import Mips.Memory.Basic
/-!
# The machine

A processor with a memory.  `Machine.step` fetches, decodes and executes one instruction; a fault
leaves everything but the fetched word as it was.  `Machine.runWith` repeats it until a budget is
used up or a fault halts the processor, and shows each step to an observer that may look at the
machine and read its memory but changes neither; `Machine.run` is the run that nobody observes.
-/

namespace Mips

structure Machine (μ : Type) where
  cpu : Cpu
  memory : μ

/-- Someone who watches a run and keeps notes of type `ω`. -/
structure Observer (μ ω : Type) where
  /-- Before a step: may read memory, which answers as for any other access. -/
  before : Cpu → μ → ω → μ × ω
  /-- After a step from the first state to the second. -/
  retired : Cpu → Cpu → ω → ω
  /-- After a step that failed. -/
  faulted : Cpu → Fault → ω → ω

namespace Observer

variable {μ : Type}

def silent : Observer μ Unit where
  before _ m _ := (m, ())
  retired _ _ _ := ()
  faulted _ _ _ := ()

end Observer

namespace Action

variable {μ : Type} [Memory μ]

/-- Makes the memory access of an action and answers with the changes to the registers.  An
instruction that the machine does not have is reported at the address given by `c`. -/
def perform (c : Cpu) (memory : μ) : Action → Except Fault Effect × μ
  | retire e => (.ok e, memory)
  | load8 dst a extend =>
    let (result, memory) := Memory.read8 memory a
    (result.map fun b => .put dst (extend b), memory)
  | load32 dst a extend =>
    let (result, memory) := Memory.read32 memory a
    (result.map fun w => .put dst (extend w), memory)
  | store8 a b =>
    let (result, memory) := Memory.write8 memory a b
    (result.map fun _ => {}, memory)
  | store32 a w =>
    let (result, memory) := Memory.write32 memory a w
    (result.map fun _ => {}, memory)
  | refuse => (.error (.unimplemented c.pc c.current (disassemble c.current c.pc)), memory)

end Action

namespace Machine

variable {μ ω : Type} [Memory μ]

def execute (m : Machine μ) (w : Word) : Except Fault Cpu × μ :=
  let (result, memory) := (m.cpu.action w).perform m.cpu m.memory
  (result.map m.cpu.commit, memory)

/-- One instruction; answers with the fault that prevented it, if there is one. -/
def step (m : Machine μ) : Option Fault × Machine μ :=
  let ⟨cpu, memory⟩ := m
  let scheduled := cpu.pending
  let cpu := { cpu with annul := false }
  match Memory.read32 memory cpu.pc with
  | (.error f, memory) => (some f, ⟨cpu, memory⟩)
  | (.ok w, memory) =>
    let cpu := { cpu with current := w }
    match execute ⟨cpu, memory⟩ w with
    | (.error f, memory) => (some f, ⟨cpu, memory⟩)
    | (.ok cpu, memory) => (none, ⟨cpu.advance scheduled, memory⟩)

/-- Executes up to `budget` instructions under the eyes of an observer.  A processor that is
halted executes none. -/
def loop (o : Observer μ ω) : Nat → Machine μ → ω → Machine μ × ω
  | 0, m, notes => (m, notes)
  | budget + 1, ⟨cpu, memory⟩, notes =>
    if cpu.halted then (⟨cpu, memory⟩, notes)
    else
      let (memory, notes) := o.before cpu memory notes
      match step ⟨cpu, memory⟩ with
      | (none, m) => loop o budget m (o.retired cpu m.cpu notes)
      | (some f, m) => (⟨m.cpu.halt f.message, m.memory⟩, o.faulted m.cpu f notes)

/-- A run of up to `budget` instructions, which forgets how the last one ended. -/
def runWith (o : Observer μ ω) (budget : Nat) (m : Machine μ) (notes : ω) : Machine μ × ω :=
  loop o budget ⟨m.cpu.resume, m.memory⟩ notes

def run (budget : Nat) (m : Machine μ) : Machine μ := (runWith .silent budget m ()).1

def retiredSince (before after : Machine μ) : Nat := (after.cpu.retired - before.cpu.retired).toNat

end Machine

end Mips
