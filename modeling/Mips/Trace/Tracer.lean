import Mips.Cpu.State
import Mips.Host.Output
import Mips.Instruction.Assembly
import Mips.Memory.Basic
/-!
# Tracer

Writes one line of text for each instruction that is about to be executed: its address, its word,
its assembly text and the registers that are watched.
-/

namespace Mips

open Numeral

def traceLine (watched : List Reg) (c : Cpu) (w : Word) : String :=
  let value (r : Reg) := " " ++ r.name ++ "=" ++ hex 16 (c.reg r).toNat
  "PC=" ++ hex32 c.pc ++ " [" ++ hex32 w ++ "] " ++ padRight 30 (disassemble w c.pc) ++ " |" ++
    String.join (watched.map value) ++ "\n"

structure Tracer where
  output : Output
  enabled : Bool := true
  /-- The registers shown in each line. -/
  watched : List Reg
  /-- How many lines are written at most. -/
  limit : Option Nat := none
  /-- How many lines have been written. -/
  lines : Nat := 0
  deriving DecidableEq, Repr

namespace Tracer

def defaultWatched : List Reg := [.v0, .v1, .a0]

def maxWatched : Nat := 8

def create (files : Files) (name : String) : Except Fault (Tracer × Files) :=
  match Output.create files name with
  | .error e => .error (.ofHost e)
  | .ok (output, files) => .ok ({ output, watched := defaultWatched }, files)

def withLimit (t : Tracer) (limit : Nat) : Tracer := { t with limit := some limit }

/-- Watches the given registers; numbers of no register are passed over. -/
def withWatched (t : Tracer) (numbers : List Nat) : Tracer :=
  { t with watched := (numbers.filterMap Reg.ofNat?).take maxWatched }

def setEnabled (t : Tracer) (enabled : Bool) : Tracer := { t with enabled }

def active (t : Tracer) : Bool :=
  t.enabled && match t.limit with
    | some limit => t.lines < limit
    | none => true

def trace {μ : Type} [Memory μ] (t : Tracer) (files : Files) (c : Cpu) (memory : μ) :
    Except Fault Unit × μ × Tracer × Files :=
  if t.active then
    match Memory.read32 memory c.pc with
    | (.error f, memory) => (.error f, memory, t, files)
    | (.ok w, memory) =>
      match t.output.write files (traceLine t.watched c w) with
      | (true, output, files) => (.ok (), memory, { t with output, lines := t.lines + 1 }, files)
      | (false, output, files) => (.error (.ofHost .noSpace), memory, { t with output }, files)
  else (.ok (), memory, t, files)

def flush (t : Tracer) (files : Files) : Except Fault Unit × Tracer × Files :=
  match t.output.flush files with
  | (true, output, files) => (.ok (), { t with output }, files)
  | (false, output, files) => (.error (.ofHost .noSpace), { t with output }, files)

/-- The files after the tracer is dropped, which writes out what it can. -/
def drop (t : Tracer) (files : Files) : Files := (t.flush files).2.2

end Tracer

end Mips
