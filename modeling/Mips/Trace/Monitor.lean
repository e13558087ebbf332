import Mips.Machine
import Mips.Host.Log
import Mips.Trace.Tracer
/-!
# Monitored runs

A monitor watches a run: it shows each instruction to a tracer, if there is one, and reports what
happens in a log.  Its `observer` is what `Machine.runWith` asks for.
-/

namespace Mips

open Numeral

structure Monitor where
  tracer : Option Tracer := none
  files : Files := {}
  log : Log := {}

namespace Monitor

variable {μ : Type} [Memory μ]

def report (m : Monitor) (source : LogSource) (level : Level) (message : Unit → String) : Monitor :=
  { m with log := m.log.add source level message }

/-- Shows the coming instruction to the tracer.  Trouble with the trace is only reported. -/
def beforeStep (c : Cpu) (memory : μ) : Monitor → μ × Monitor
  | ⟨none, files, log⟩ => (memory, ⟨none, files, log⟩)
  | ⟨some tracer, files, log⟩ =>
    match tracer.trace files c memory with
    | (.ok (), memory, tracer, files) => (memory, ⟨some tracer, files, log⟩)
    | (.error f, memory, tracer, files) =>
      let log := log.add .processor .warn fun _ => "Failed to write trace: " ++ f.message
      (memory, ⟨some tracer, files, log⟩)

def logRetired (before after : Cpu) (log : Log) : Log :=
  let w := after.current
  let log := match Opcode.decode w with
    | .mtc0 => log.add .controlMove .debug fun _ =>
      "MTC0: " ++ ControlReg.name w.rd ++ " = " ++ hex32 (before.word w.rt)
    | _ => log
  log.add .processor .trace fun _ =>
    hex32 before.pc ++ ": " ++ hex 8 w.toNat ++ " " ++ disassemble w before.pc

def logFaulted (c : Cpu) (f : Fault) (log : Log) : Log :=
  log.add .processor (if f.isInstructionFault then .warn else .error) fun _ =>
    "CPU halted at PC=" ++ hex32 c.pc ++ ": " ++ f.message

def observer : Observer μ Monitor where
  before := beforeStep
  retired c c' m := { m with log := logRetired c c' m.log }
  faulted c f m := { m with log := logFaulted c f m.log }

def flush (m : Monitor) : Monitor :=
  match m with
  | ⟨none, _, _⟩ => m
  | ⟨some tracer, files, log⟩ =>
    match tracer.flush files with
    | (.ok (), tracer, files) => ⟨some tracer, files, log⟩
    | (.error f, tracer, files) =>
      let log := log.add .system .warn fun _ => "Failed to flush trace: " ++ f.message
      ⟨some tracer, files, log⟩

/-- Drops the tracer, if there is one; text that it cannot write out is lost. -/
def dropTracer (m : Monitor) : Monitor :=
  match m with
  | ⟨none, _, _⟩ => m
  | ⟨some tracer, files, log⟩ => ⟨none, tracer.drop files, log⟩

end Monitor

end Mips
